import Mathlib.Data.Prod.Lex
import Mathlib.Logic.Hydra
import Mathlib.Tactic.Abel
import Webserv.Spec.HostedTasksCorrect

/-!
# Every turn of the event loop ends

A handler goes on in its task until every call has returned, and may start other
tasks on the way.  A ranking of the tasks bounds how deep these starts go: then the
steps of all tasks together are finitely many, and the loop comes back to
`_listener.block`.

## Key results

- `TaskItem.wellFounded_lower`: a step, or the start of a task of a lower rank
- `Host.Measured.next`: a step of a task lowers what the tasks have still to do
- `Host.Good.comes_back`: whatever is done, the loop blocks again
-/

namespace Webserv

/-- A member of a list is replaced by smaller ones. -/
theorem cutExpand_set_append {α : Type*} {r : α → α → Prop} {l new : List α} {n : ℕ} {a b : α}
    (hn : l[n]? = some a) (hb : r b a) (hnew : ∀ x ∈ new, r x a) :
    Relation.CutExpand r (l.set n b ++ new : List α) (l : List α) := by
  -- the entry that is replaced, and what stands around it
  obtain ⟨pre, post, rfl, rfl⟩ : ∃ pre post, l = pre ++ a :: post ∧ pre.length = n := by
    obtain ⟨hlength, rfl⟩ := List.getElem?_eq_some_iff.mp hn
    refine ⟨l.take n, l.drop (n + 1), ?_, List.length_take_of_le hlength.le⟩
    rw [List.getElem_cons_drop, List.take_append_drop]
  have hset : (pre ++ a :: post).set pre.length b = pre ++ b :: post := by
    simp
  refine ⟨(b :: new : List α), a, fun x hx => ?_, ?_⟩
  · obtain rfl | hx := List.mem_cons.mp (Multiset.mem_coe.mp hx)
    · exact hb
    · exact hnew x hx
  · rw [hset]
    simp only [← Multiset.coe_add, ← Multiset.cons_coe, ← Multiset.singleton_add]
    abel

namespace Io

open Futures Transition Relation

variable {K O : Type} {A : Application K O}

/-! ## What a task has still to do -/

/-- A task under way, with its rank. -/
structure TaskItem (A : Application K O) where
  rank : ℕ
  kind : K
  config : Config (A.signature kind)

/-- Its calls return. -/
def TaskItem.Returns (i : TaskItem A) : Prop :=
  Inevitably (Step (A.bodies i.kind)) Futures.Event.Internal Config.Idle i.config

inductive TaskItem.Lower : TaskItem A → TaskItem A → Prop where
  | step {r r' : ℕ} {k : K} {c c' : Config (A.signature k)} {e : Futures.Event (A.signature k)}
      (hrank : r' ≤ r) (hinternal : e.Internal) (hstep : Step (A.bodies k) c e c')
      (hreturns : TaskItem.Returns ⟨r, k, c⟩) : Lower ⟨r', k, c'⟩ ⟨r, k, c⟩
  /-- The task has started one of a lower rank. -/
  | start {i j : TaskItem A} (hrank : i.rank < j.rank) (hreturns : i.Returns) : Lower i j

/-- A task whose calls all return goes down only finitely often. -/
theorem TaskItem.acc_of_returns (r : ℕ) {k : K} {c : Config (A.signature k)}
    (h : TaskItem.Returns (A := A) ⟨r, k, c⟩) : Acc TaskItem.Lower (⟨r, k, c⟩ : TaskItem A) := by
  -- on the rank, and below it on the steps that are left
  induction r using Nat.strong_induction_on generalizing k c with
  | _ r ih =>
    replace h : Inevitably (Step (A.bodies k)) Futures.Event.Internal Config.Idle c := h
    induction h with
    | @intro c _ hnext ihc =>
      refine .intro _ fun i hi => ?_
      cases hi with
      | step hrank hinternal hstep _ =>
        obtain hrank | rfl := Nat.lt_or_eq_of_le hrank
        · exact ih _ hrank (hnext _ _ hinternal hstep)
        · exact ihc _ _ hinternal hstep
      | @start i _ hrank hreturns => exact ih i.rank hrank hreturns

/-- So the measure cannot sink for ever. -/
theorem TaskItem.wellFounded_lower : WellFounded (TaskItem.Lower (A := A)) := by
  refine ⟨fun j => .intro _ fun i hi => ?_⟩
  cases hi with
  | step _ hinternal hstep hreturns =>
    obtain ⟨-, hnext⟩ := hreturns
    exact acc_of_returns _ (hnext _ _ hinternal hstep)
  | @start i _ _ hreturns => exact acc_of_returns i.rank hreturns

/-! ## What all tasks have still to do -/

/-- The tasks start each other only so deep. -/
structure Discipline.Ranking (D : Discipline A) where
  rank : ∀ k, Trace (A.signature k) → ℕ
  performs : ∀ k trace effect, D.Allowed k →
    Begins (A.bodies k) (A.task k) (trace ++ [.performed effect]) →
    rank k (trace ++ [.performed effect]) ≤ rank k trace
  starts : ∀ k trace effect k', D.Allowed k → A.Starts k effect (some k') →
    Begins (A.bodies k) (A.task k) (trace ++ [.performed effect]) → rank k' [] < rank k trace
  /-- An effect does one thing or another. -/
  total : ∀ k effect, ∃ new, A.Starts k effect new

section measured
variable {D : Discipline A} (R : D.Ranking)
  {s s' : Host A} {es : List (HostEvent A)} {items : List (TaskItem A)} {n : ℕ} {k : K}
  {c c' : Config (A.signature k)}

/-- What a task has still to do. -/
def Host.Measures (es : List (HostEvent A)) (n : ℕ) (k : K) (c : Config (A.signature k))
    (item : Option (TaskItem A)) : Prop :=
  ∃ es' pending, ProgRun (A.bodies k) (A.task k).code es' { c with pending := pending } ∧
    doneIn n es = (notes es').map (Sigma.mk k) ∧
    item = some ⟨R.rank k (notes es'), k, { c with pending := pending }⟩

structure Host.Measured (s : Host A) (es : List (HostEvent A)) (items : List (TaskItem A)) :
    Prop where
  length_eq : items.length = s.tasks.length
  measures : ∀ n k c, s.tasks[n]? = some ⟨k, c⟩ → Host.Measures R es n k c items[n]?

/-- Every good state has a measure. -/
theorem Host.Good.exists_measured (hs : s.Good D es) : ∃ items, s.Measured R es items := by
  have hall : ∀ n : Fin s.tasks.length, ∃ item : TaskItem A, ∀ k c,
      s.tasks[n.val]? = some ⟨k, c⟩ → Host.Measures R es n k c (some item) := by
    intro n
    obtain ⟨⟨k₀, c₀⟩, htask⟩ : ∃ x, s.tasks[n.val]? = some x :=
      ⟨_, List.getElem?_eq_getElem n.isLt⟩
    obtain ⟨-, -, es', pending, hrun, hhistory, -⟩ := hs.tasked.runs n k₀ c₀ htask
    refine ⟨⟨R.rank k₀ (notes es'), k₀, { c₀ with pending := pending }⟩, fun k c h => ?_⟩
    rw [htask] at h
    cases h
    exact ⟨es', pending, hrun, hhistory, rfl⟩
  -- one measure for each task, by its number
  choose f hf using hall
  refine ⟨List.ofFn f, List.length_ofFn, fun n k c htask => ?_⟩
  have hn := (List.getElem?_eq_some_iff.mp htask).1
  rw [List.getElem?_ofFn, dif_pos hn]
  exact hf ⟨n, hn⟩ k c htask

/-- The tasks an effect may start. -/
def startedTasks (A : Application K O) (new : Option K) : List (Σ k : K, Config (A.signature k)) :=
  new.toList.map fun k => ⟨k, .start (A.task k).code⟩

/-- A task takes a step, and may start another one. -/
theorem Host.Measured.advance (hm : s.Measured R es items) (hs : s.Good D es)
    (htask : s.tasks[n]? = some ⟨k, c⟩) {e : HostEvent A} {new : Option K}
    (htasks : s'.tasks = s.tasks.set n ⟨k, c'⟩ ++ startedTasks A new)
    (hnote : ∀ m, m ≠ n → e.note? m = none)
    (hnext : ∀ es' pending, ProgRun (A.bodies k) (A.task k).code es' { c with pending := pending } →
      doneIn n es = (notes es').map (Sigma.mk k) → ∃ ev pending', ev.Internal ∧
        Step (A.bodies k) { c with pending := pending } ev { c' with pending := pending' } ∧
        doneIn n (es ++ [e]) = (notes (es' ++ [ev])).map (Sigma.mk k) ∧
        R.rank k (notes (es' ++ [ev])) ≤ R.rank k (notes es') ∧
        ∀ k', new = some k' → D.Allowed k' ∧ R.rank k' [] < R.rank k (notes es')) :
    ∃ items', s'.Measured R (es ++ [e]) items' ∧
      CutExpand TaskItem.Lower (items' : Multiset (TaskItem A)) (items : Multiset (TaskItem A)) := by
  -- a task that was started has the rank of one without history
  obtain ⟨hallowed, -⟩ := hs.tasked.runs n k c htask
  obtain ⟨es', pending, hrun, hhistory, hitem⟩ := hm.measures n k c htask
  obtain ⟨ev, pending', hinternal, hstep, hdone, hrank, hnew⟩ := hnext es' pending hrun hhistory
  have hn : n < s.tasks.length := (List.getElem?_eq_some_iff.mp htask).1
  have hreturns := (D.good k hallowed).returns hrun
  refine ⟨items.set n ⟨R.rank k (notes (es' ++ [ev])), k, { c' with pending := pending' }⟩ ++
    new.toList.map fun k' => ⟨R.rank k' [], k', .start (A.task k').code⟩, ⟨?_, ?_⟩,
    cutExpand_set_append hitem (.step hrank hinternal hstep hreturns) fun x hx => ?_⟩
  · simp [htasks, startedTasks, hm.length_eq]
  · -- the task itself, the others, and the new one
    intro m k₁ c₁ htask₁
    rw [htasks] at htask₁
    by_cases hlt : m < s.tasks.length
    · rw [List.getElem?_append_left (by simpa [hm.length_eq] using hlt)] at htask₁ ⊢
      by_cases hmn : m = n
      · subst hmn
        rw [List.getElem?_set_self hn] at htask₁
        cases htask₁
        rw [List.getElem?_set_self (by rwa [hm.length_eq])]
        exact ⟨_, _, hrun.snoc hstep, hdone, rfl⟩
      · rw [List.getElem?_set_ne (Ne.symm hmn)] at htask₁ ⊢
        obtain ⟨es₁, pending₁, hrun₁, hhistory₁, hitem₁⟩ := hm.measures m k₁ c₁ htask₁
        exact ⟨es₁, pending₁, hrun₁, (doneIn_of_none (hnote m hmn) es).trans hhistory₁, hitem₁⟩
    · rw [List.getElem?_append_right (by simpa [hm.length_eq] using hlt), List.length_set] at htask₁ ⊢
      rw [startedTasks, List.getElem?_map] at htask₁
      obtain ⟨k', hk', heq⟩ := Option.map_eq_some_iff.mp htask₁
      cases heq
      rw [hm.length_eq, List.getElem?_map, hk']
      have hmn : m ≠ n := fun heq => hlt (heq ▸ hn)
      refine ⟨[], 0, .nil, ?_, rfl⟩
      rw [doneIn_of_none (hnote m hmn), hs.tasked.later m (not_lt.mp hlt)]
      rfl
  · obtain ⟨k', hk', rfl⟩ := List.mem_map.mp hx
    obtain ⟨hallowed', hlower⟩ := hnew k' (Option.mem_toList.mp hk')
    exact .start hlower ((D.good k' hallowed').returns .nil)

/-! ## The steps of the tasks -/

/-- Done by a task by itself, as long as the kernel refuses nothing. -/
def HostEvent.OfTask : HostEvent A → Prop
  | .task _ _ e => e.Internal
  | .registered _ granted _ => granted = true
  | _ => False

/-- A task is about to wait for an object that was not made. -/
def Host.Lacks (s : Host A) : Prop :=
  ∃ n k c query callback next stack rest, s.tasks[n]? = some ⟨k, c⟩ ∧
    c.threads = (.code (.register query callback next) :: stack) ::ₘ rest ∧
    s.fds (A.object k n query) = none

variable [DecidableEq O] [∀ k t, IsEmpty ((A.signature k).Contract t)]

section steps
variable (hm : s.Measured R es items) (hs : s.Good D es)
include hm hs

omit [DecidableEq O] [∀ k t, IsEmpty ((A.signature k).Contract t)] in
/-- A silent step lowers it. -/
theorem Host.Measured.silent (htask : s.tasks[n]? = some ⟨k, c⟩)
    (hstep : Step (A.bodies k) c .silent c') (hpending : c'.pending = c.pending) :
    ∃ items', (s.setTask n k c').Measured R (es ++ [.task n k .silent]) items' ∧
      CutExpand TaskItem.Lower (items' : Multiset (TaskItem A)) (items : Multiset (TaskItem A)) := by
  have htasks : (s.setTask n k c').tasks = s.tasks.set n ⟨k, c'⟩ ++ startedTasks A none :=
    (List.append_nil _).symm
  refine hm.advance R hs htask htasks (fun _ => task_note?_of_ne _)
    fun es' pending hrun hhistory => ?_
  -- the step asks nothing of the loop, so what is registered stays
  refine ⟨.silent, pending, trivial, hstep.with_pending trivial hpending pending, ?_,
    by rw [notes_append_silent], fun k' hk' => by cases hk'⟩
  rw [doneIn_of_none (by simp [HostEvent.note?, Futures.Event.note?]), hhistory,
    notes_append_silent]

omit [DecidableEq O] in
/-- The task does not get a higher rank, and what it starts has a lower one. -/
theorem Host.Measured.performed {effect : (A.signature k).Effect} {new : Option K}
    (htask : s.tasks[n]? = some ⟨k, c⟩) (hstep : Step (A.bodies k) c (.performed effect) c')
    (hstarts : A.Starts k effect new) :
    ∃ items', ((s.setTask n k c').startTask? new).Measured R
        (es ++ [.task n k (.performed effect)]) items' ∧
      CutExpand TaskItem.Lower (items' : Multiset (TaskItem A)) (items : Multiset (TaskItem A)) := by
  obtain ⟨hallowed, -⟩ := hs.tasked.runs n k c htask
  have htasks : ((s.setTask n k c').startTask? new).tasks =
      s.tasks.set n ⟨k, c'⟩ ++ startedTasks A new := by
    cases new with
    | none => exact (List.append_nil _).symm
    | some k' => rfl
  refine hm.advance R hs htask htasks (fun _ => task_note?_of_ne _)
    fun es' pending hrun hhistory => ?_
  have hpending := hstep.pending_eq trivial (fun heq => by cases heq)
  have hrest := hstep.with_pending trivial hpending pending
  -- what has been noted bounds the rank of a new task
  have hbegins := (D.good k hallowed).begins (hrun.snoc hrest)
  have hnotes : notes (es' ++ [Futures.Event.performed effect]) =
      notes es' ++ [.performed effect] := notes_append ..
  rw [hnotes] at hbegins
  refine ⟨.performed effect, pending, trivial, hrest, ?_, ?_, fun k' hk' => ?_⟩
  · rw [doneIn_snoc, task_note?, hhistory, notes_append, List.map_append]
    rfl
  · rw [hnotes]
    exact R.performs k _ effect hallowed hbegins
  · subst hk'
    have hinherits := D.inherits k n _ effect k' hallowed hstarts hbegins
    exact ⟨hinherits.1, R.starts k _ effect k' hallowed hstarts hbegins⟩

omit [DecidableEq O] [∀ k t, IsEmpty ((A.signature k).Contract t)] in
/-- So does a registration. -/
theorem Host.Measured.registered {stack : List (Frame (A.signature k))}
    {rest : Multiset (List (Frame (A.signature k)))} {query : (A.signature k).Query}
    {callback : (A.signature k).Answer query → Prog (A.signature k)} {next : Prog (A.signature k)}
    (htask : s.tasks[n]? = some ⟨k, c⟩)
    (hthread : c.threads = (.code (.register query callback next) :: stack) ::ₘ rest)
    {e : HostEvent A} (hnote : ∀ m, e.note? m = none)
    (htasks : s'.tasks = s.tasks.set n ⟨k, { c with threads := (.code next :: stack) ::ₘ rest }⟩) :
    ∃ items', s'.Measured R (es ++ [e]) items' ∧
      CutExpand TaskItem.Lower (items' : Multiset (TaskItem A)) (items : Multiset (TaskItem A)) := by
  have htasks' : s'.tasks = s.tasks.set n ⟨k, { c with threads := (.code next :: stack) ::ₘ rest }⟩ ++
      startedTasks A none := htasks.trans (List.append_nil _).symm
  refine hm.advance R hs htask htasks' (fun m _ => hnote m) fun es' pending hrun hhistory => ?_
  -- in the run of the task, the handler is registered
  refine ⟨.silent, _, trivial, .register hthread, ?_, by rw [notes_append_silent],
    fun k' hk' => by cases hk'⟩
  rw [doneIn_of_none (hnote n), hhistory, notes_append_silent]

/-- Each step lowers what the tasks have still to do, and the loop stays where it is, or the
    process ends. -/
theorem Host.Measured.next {e : HostEvent A} (hstep : HostStep s e s') (he : e.OfTask) :
    (s.phase.Active ∧ s'.phase = .faulted) ∨
      s'.phase = s.phase ∧ ∃ items', s'.Measured R (es ++ [e]) items' ∧
        CutExpand TaskItem.Lower (items' : Multiset (TaskItem A)) (items : Multiset (TaskItem A)) := by
  have hharmless := (hstep.good hs).2
  cases hstep with
  | silent hactive htask hstep hpending => exact .inr ⟨rfl, hm.silent R hs htask hstep hpending⟩
  | @performed n k c c' new effect hactive htask hstep _ hstarts =>
    have hphase : ((s.setTask n k c').startTask? new).phase = s.phase := by
      cases new <;> rfl
    exact .inr ⟨hphase, hm.performed R hs htask hstep hstarts⟩
  | faulted hactive => exact .inl ⟨hactive, rfl⟩
  | uncaught => exact hharmless.elim
  | @registered n k c fd stack rest query callback next granted hactive htask hthread hfd =>
    -- a refused registration is not a step of a task
    obtain rfl : granted = true := he
    have hevent : (Event.ofFd fd (A.eventType k query)).fd = fd := Event.fd_ofFd _ _
    obtain ⟨-, hadd⟩ | ⟨f, -, -, hadd⟩ := hs.tables.addHandlerForEvent_cases
      (.ofFd fd (A.eventType k query)) ⟨n, k, query, callback⟩
      { c with threads := (.code next :: stack) ::ₘ rest } true
      (by rw [hevent]; exact hs.tables.opened _ _ hfd)
    · rw [hadd] at hharmless
      cases hharmless rfl
    · rw [hadd]
      exact .inr ⟨rfl, hm.registered R hs htask hthread (fun _ => rfl) rfl⟩
  | _ => exact he.elim

end steps

omit [∀ k t, IsEmpty ((A.signature k).Contract t)] in
include R in
/-- As long as a call has not returned, there is a step to take. -/
theorem Host.Good.progress (hs : s.Good D es) (hactive : s.phase.Active) :
    s.Idle ∨ s.Lacks ∨ ∃ e s', HostEvent.OfTask e ∧ HostStep s e s' := by
  by_cases hidle : s.Idle
  · exact .inl hidle
  right
  simp only [Host.Idle, not_forall] at hidle
  obtain ⟨n, k, c, htask, hidle⟩ := hidle
  obtain ⟨hallowed, -, es', pending, hrun, -⟩ := hs.tasked.runs n k c htask
  obtain ⟨hidle' | ⟨e, c', hinternal, hstep⟩, -⟩ := (D.good k hallowed).returns hrun
  · exact absurd hidle' hidle
  obtain hpending | ⟨-, query, callback, next, stack, rest, hthread, -⟩ :=
    hstep.pending_cases hinternal
  · -- the step of the task by itself
    have hown := hstep.with_pending hinternal hpending c.pending
    cases e with
    | silent =>
      refine .inr ⟨_, _, ?_, .silent hactive htask hown rfl⟩
      trivial
    | performed effect =>
      obtain ⟨new, hstarts⟩ := R.total k effect
      cases hfaults : A.Faults k effect with
      | false =>
        refine .inr ⟨_, _, ?_, .performed hactive htask hown hfaults hstarts⟩
        trivial
      | true =>
        refine .inr ⟨_, _, ?_, .faulted hactive htask hown hfaults⟩
        trivial
    | uncaught =>
      refine .inr ⟨_, _, ?_, .uncaught hactive htask hown⟩
      trivial
    | answered => exact hinternal.elim
    | gave => exact hinternal.elim
  · -- a registration is a step of the process
    cases hfd : s.fds (A.object k n query) with
    | none => exact .inl ⟨n, k, c, query, callback, next, stack, rest, htask, hthread, hfd⟩
    | some fd =>
      refine .inr ⟨_, _, ?_, .registered true hactive htask hthread hfd⟩
      exact rfl

/-! ## The loop -/

/-- Done by the process itself, as long as the kernel refuses nothing. -/
def HostEvent.OfLoop : HostEvent A → Prop
  | .registered _ granted _ => granted = true
  | .opened _ _ => False
  | .closed _ => False
  | .abandoned _ => False
  | .block _ => False
  | _ => True

/-- How far it is to the next call of `_listener.block`. -/
def HostPhase.left : HostPhase K → ℕ
  | .starting rest => 2 * rest.length + 2
  | .blocking => 0
  | .batch rest => 2 * rest.length + 1
  | .running rest => 2 * rest.length + 2
  | .terminated => 0
  | .faulted => 0

/-- A task that goes on is in front of the next call. -/
theorem HostPhase.left_pos {phase : HostPhase K} (h : phase.Active) : 0 < phase.left := by
  cases phase with
  | starting rest => exact Nat.succ_pos _
  | running rest => exact Nat.succ_pos _
  | _ => exact h.elim

/-- What the process has still to do before. -/
structure Host.Left (s : Host A) (left : ℕ × Multiset (TaskItem A)) : Prop where
  good : ∃ es items, s.Good D es ∧ s.Measured R es items ∧ left.2 = (items : Multiset (TaskItem A))
  phase : left.1 = s.phase.left
  alive : s.phase ≠ .terminated

omit [DecidableEq O] [∀ k t, IsEmpty ((A.signature k).Contract t)] in
/-- There is a bound on what is left to do before the next block. -/
theorem Host.Good.exists_left (hs : s.Good D es) (halive : s.phase ≠ .terminated) :
    ∃ items, s.Left R (s.phase.left, items) := by
  obtain ⟨items, hm⟩ := hs.exists_measured R
  exact ⟨items, ⟨es, items, hs, hm, rfl⟩, rfl, halive⟩

def LeftLower : ℕ × Multiset (TaskItem A) → ℕ × Multiset (TaskItem A) → Prop :=
  Prod.Lex (· < ·) (CutExpand TaskItem.Lower)

/-- Each step of the loop lowers it. -/
theorem Host.Left.next {left : ℕ × Multiset (TaskItem A)} (h : s.Left R left) {e : HostEvent A}
    (he : e.OfLoop) (hstep : HostStep s e s') : ∃ left', LeftLower left' left ∧ s'.Left R left' := by
  obtain ⟨n, m⟩ := left
  obtain ⟨⟨es, items, hs, hm, rfl⟩, rfl, halive⟩ := h
  have hs' := (hstep.good hs).1
  -- the loop goes on
  have hloop : s'.phase ≠ .terminated → s'.phase.left < s.phase.left →
      ∃ left', LeftLower left' (s.phase.left, (items : Multiset (TaskItem A))) ∧ s'.Left R left' := by
    intro halive' hlower
    obtain ⟨items', hleft⟩ := hs'.exists_left R halive'
    exact ⟨_, .left _ _ hlower, hleft⟩
  -- a task goes on
  have htask : e.OfTask →
      ∃ left', LeftLower left' (s.phase.left, (items : Multiset (TaskItem A))) ∧ s'.Left R left' := by
    intro htask
    obtain ⟨hactive, hfaulted⟩ | ⟨hphase, items', hm', hlower⟩ := hm.next R hs hstep htask
    · rw [hfaulted] at hloop
      exact hloop (fun heq => by cases heq) (HostPhase.left_pos hactive)
    exact ⟨(s.phase.left, items'), .right _ hlower, ⟨_, items', hs', hm', rfl⟩,
      by rw [hphase], by rwa [hphase]⟩
  cases hstep with
  | started hphase => exact hloop (by simp) (by simp [hphase, HostPhase.left])
  | silent => exact htask trivial
  | performed => exact htask trivial
  | faulted => exact htask trivial
  | uncaught => exact htask trivial
  | registered => exact htask he
  | entered hphase => exact hloop (by simp) (by simp [hphase, HostPhase.left])
  | answered answer hphase => exact hloop (by simp) (by simp [hphase, HostPhase.left]; omega)
  | lost hphase htake =>
    obtain ⟨f, w, -, -, hfound⟩ := hs.takeHandler_eq hphase
    rw [htake] at hfound
    cases hfound
  | returned hphase => exact hloop (by simp) (by simp [hphase, HostPhase.left])
  | batchDone hphase => exact hloop (by simp) (by simp [hphase, HostPhase.left])
  | _ => exact he.elim

section answers
variable [∀ k (query : (A.signature k).Query), Nonempty ((A.signature k).Answer query)]
include R

omit [∀ k t, IsEmpty ((A.signature k).Contract t)] in
/-- In front of `_listener.block`, the process has a step to take. -/
theorem Host.Good.loop_progress (hs : s.Good D es) (halive : s.phase ≠ .terminated) :
    (s.phase = .blocking ∨ s.Lacks ∨ s.phase = .faulted) ∨
      ∃ e s', HostEvent.OfLoop e ∧ HostStep s e s' := by
  -- while tasks are run, one of them steps until all are idle
  have htasks : s.phase.Active →
      s.Idle ∨ s.Lacks ∨ ∃ e s', HostEvent.OfLoop e ∧ HostStep s e s' := by
    intro hactive
    obtain hidle | hlacks | ⟨e, s', he, hstep⟩ := hs.progress R hactive
    · exact .inl hidle
    · exact .inr (.inl hlacks)
    · refine .inr (.inr ⟨e, s', ?_, hstep⟩)
      cases e with
      | task => trivial
      | registered => exact he
      | _ => exact he.elim
  have hown : ∀ e s', HostStep s e s' → HostEvent.OfLoop e →
      (s.phase = .blocking ∨ s.Lacks ∨ s.phase = .faulted) ∨
        ∃ e s', HostEvent.OfLoop e ∧ HostStep s e s' :=
    fun e s' hstep he => .inr ⟨e, s', he, hstep⟩
  cases hphase : s.phase with
  | blocking => exact .inl (.inl rfl)
  | terminated => exact absurd hphase halive
  | faulted => exact .inl (.inr (.inr rfl))
  | starting starts =>
    cases starts with
    | cons start rest => exact hphase ▸ hown _ _ (.started hphase) trivial
    | nil =>
      obtain hidle | hlacks | hstep := htasks (by rw [hphase]; trivial)
      · exact hphase ▸ hown _ _ (.entered hphase hidle) trivial
      · exact .inl (.inr (.inl hlacks))
      · exact .inr hstep
  | running rest =>
    obtain hidle | hlacks | hstep := htasks (by rw [hphase]; trivial)
    · exact hphase ▸ hown _ _ (.returned hphase hidle) trivial
    · exact .inl (.inr (.inl hlacks))
    · exact .inr hstep
  | batch events =>
    -- the next event has its handler, by the invariant
    cases events with
    | nil => exact hphase ▸ hown _ _ (.batchDone hphase) trivial
    | cons ev rest =>
      obtain ⟨f, w, -, hw, htake⟩ := hs.takeHandler_eq hphase
      obtain ⟨c, htask⟩ := hs.tasked.waiter _ _ hw
      have hanswer : Nonempty ((A.signature w.kind).Answer w.query) := inferInstance
      obtain ⟨answer⟩ := hanswer
      exact hphase ▸ hown _ _ (.answered answer hphase htake htask) trivial

/-- Whatever the handlers are answered, and in whatever order the steps are taken: the loop
    comes back to `_listener.block`, unless an object that is waited for was not made, or a task
    has thrown. -/
theorem Host.Good.comes_back (hs : s.Good D es) (halive : s.phase ≠ .terminated) :
    Inevitably HostStep HostEvent.OfLoop
      (fun s' => s'.phase = .blocking ∨ s'.Lacks ∨ s'.phase = .faulted) s := by
  obtain ⟨items, hleft⟩ := hs.exists_left R halive
  have hwf : WellFounded (LeftLower (A := A)) :=
    WellFounded.prod_lex Nat.lt_wfRel.wf TaskItem.wellFounded_lower.cutExpand
  refine Inevitably.of_wellFounded (P := fun left s => s.Left R left) hwf
    (fun _ _ _ _ h he hstep => h.next R he hstep) (fun left s h => ?_) hleft
  obtain ⟨es, items, hs, -⟩ := h.good
  exact hs.loop_progress R h.alive

end answers

end measured

end Io

end Webserv
