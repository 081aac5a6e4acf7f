import Webserv.Spec.HostedTasksCorrect

/-!
# What a task does alone

A task that goes on by itself goes on in the process, too, as long as the kernel
refuses nothing and its objects are made.  So a run of the process is put
together from runs of its tasks, one turn of the loop after the other.

## Key results

- `Host.Good.goOn`: a run of a task is one of the process
- `Host.Good.settle`: the calls of a task return
- `Host.Good.call`: an event comes, and its handler is called
- `Host.Good.block_again`: the loop comes back when every call has returned
-/

namespace Webserv.Io

open Futures Transition

variable {K O : Type} {A : Application K O}

/-- The tasks that these effects have started. -/
def spawned (A : Application K O) {k : K} (spawn : (A.signature k).Effect → Option K)
    (es : List (Futures.Event (A.signature k))) : List (Σ k : K, Config (A.signature k)) :=
  (effects es).filterMap fun effect => (spawn effect).map fun k => ⟨k, .start (A.task k).code⟩

/-- The process behind a run of one of its tasks: nothing else has changed but the storage. -/
structure Host.WentOn (s s' : Host A) (n : ℕ) (k : K) (c' : Config (A.signature k))
    (new : List (Σ k : K, Config (A.signature k))) : Prop where
  tasks : s'.tasks = s.tasks.set n ⟨k, { c' with pending := 0 }⟩ ++ new
  phase : s'.phase = s.phase
  fds : s'.fds = s.fds
  files : s'.kernel.files = s.kernel.files

variable {s s' s'' : Host A} {n : ℕ} {k : K} {c c' c'' : Config (A.signature k)}
  {new new' : List (Σ k : K, Config (A.signature k))}

/-- The task has gone on from there. -/
theorem Host.WentOn.task (h : s.WentOn s' n k c' new) (hn : n < s.tasks.length) :
    s'.tasks[n]? = some ⟨k, { c' with pending := 0 }⟩ := by
  rw [h.tasks, List.getElem?_append_left (by rwa [List.length_set]), List.getElem?_set_self hn]

/-- One step more. -/
theorem Host.WentOn.trans (h : s.WentOn s' n k c' new) (hn : n < s.tasks.length)
    (htasks : s''.tasks = s'.tasks.set n ⟨k, { c'' with pending := 0 }⟩ ++ new')
    (hphase : s''.phase = s'.phase) (hfds : s''.fds = s'.fds)
    (hfiles : s''.kernel.files = s'.kernel.files) : s.WentOn s'' n k c'' (new ++ new') where
  tasks := by
    rw [htasks, h.tasks, List.set_append_left _ _ (by rwa [List.length_set]), List.set_set,
      List.append_assoc]
  phase := hphase.trans h.phase
  fds := hfds.trans h.fds
  files := hfiles.trans h.files

/-- A task keeps its kind. -/
theorem Host.map_fst_setTask (htask : s.tasks[n]? = some ⟨k, c⟩) (c' : Config (A.signature k)) :
    (s.setTask n k c').tasks.map Sigma.fst = s.tasks.map Sigma.fst := by
  have hkind : (s.tasks.map Sigma.fst)[n]? = some k := by
    rw [List.getElem?_map, htask]
    rfl
  obtain ⟨hn, hget⟩ := List.getElem?_eq_some_iff.mp hkind
  have hset : (s.setTask n k c').tasks.map Sigma.fst = (s.tasks.map Sigma.fst).set n k :=
    List.map_set
  rw [hset]
  exact hget ▸ List.set_getElem_self hn

/-- Every call has returned, but for those of these tasks. -/
def Host.IdleBut (s : Host A) (busy : List ℕ) : Prop :=
  ∀ (n : ℕ) (k : K) (c : Config (A.signature k)), s.tasks[n]? = some ⟨k, c⟩ → n ∉ busy → c.Idle

/-- With nobody busy the process is idle. -/
theorem Host.idleBut_nil : s.IdleBut [] ↔ s.Idle :=
  ⟨fun h m k c htask => h m k c htask List.not_mem_nil, fun h m k c htask _ => h m k c htask⟩

/-- The calls of the task have returned, and those of the new ones have not begun. -/
theorem Host.WentOn.idleBut {busy : List ℕ} (h : s.WentOn s' n k c' new) (hidle : c'.Idle)
    (hs : s.IdleBut (n :: busy)) :
    s'.IdleBut (busy ++ List.range' s.tasks.length new.length) := by
  intro m k₁ c₁ htask hm
  rw [List.mem_append, List.mem_range'_1, not_or] at hm
  rw [h.tasks, List.getElem?_append, List.length_set] at htask
  split at htask
  · rename_i hlt
    by_cases hmn : m = n
    · subst hmn
      rw [List.getElem?_set_self hlt] at htask
      cases htask
      exact hidle
    · rw [List.getElem?_set_ne (Ne.symm hmn)] at htask
      exact hs m k₁ c₁ htask fun hmem => (List.mem_cons.mp hmem).elim hmn hm.1
  · -- one of the new tasks
    rename_i hge
    have hnew := (List.getElem?_eq_some_iff.mp htask).1
    omega

variable [DecidableEq O] [∀ k t, IsEmpty ((A.signature k).Contract t)] {D : Discipline A}
  {es : List (HostEvent A)}

/-- A run of a task is one of the process, with the new tasks as they are chosen. -/
theorem Host.Good.goOn (hs : s.Good D es) (hactive : s.phase.Active)
    (htask : s.tasks[n]? = some ⟨k, { c with pending := 0 }⟩)
    {es₁ : List (Futures.Event (A.signature k))} {c₁ : Config (A.signature k)}
    (hrun : Run (Step (A.bodies k)) c es₁ c₁) (hinternal : ∀ e ∈ es₁, e.Internal)
    (spawn : (A.signature k).Effect → Option K)
    (hspawn : ∀ effect ∈ effects es₁,
      A.Faults k effect = false ∧ A.Starts k effect (spawn effect))
    (hmade : ∀ trace query, Stops (A.bodies k) (A.task k) trace (.answer query) →
      s.fds (A.object k n query) ≠ none) : ∃ es' s', Run HostStep s es' s' ∧
        s'.Good D (es ++ es') ∧ s.WentOn s' n k c₁ (spawned A spawn es₁) ∧
        doneIn n (es ++ es') = doneIn n es ++ (notes es₁).map (Sigma.mk k) ∧
        ∀ m, m ≠ n → doneIn m (es ++ es') = doneIn m es := by
  have hn : n < s.tasks.length := (List.getElem?_eq_some_iff.mp htask).1
  -- induction on the run of the task
  induction hrun with
  | nil =>
    refine ⟨[], s, .nil, by rwa [List.append_nil], ⟨?_, rfl, rfl, rfl⟩, ?_, fun m _ => ?_⟩
    · obtain ⟨_, hget⟩ := List.getElem?_eq_some_iff.mp htask
      rw [← hget, List.set_getElem_self]
      exact (List.append_nil _).symm
    · rw [List.append_nil]
      exact (List.append_nil _).symm
    · rw [List.append_nil]
  | @snoc es₁ c₁ c₂ e hrun hstep ih =>
    obtain ⟨es', s₁, hrun₁, hs₁, hwent, hdone, hothers⟩ :=
      ih (fun e he => hinternal e (List.mem_append_left _ he)) fun effect heffect =>
        hspawn effect (by rw [effects, List.filterMap_append]; exact List.mem_append_left _ heffect)
    have hactive₁ : s₁.phase.Active := hwent.phase ▸ hactive
    have htask₁ := hwent.task hn
    have he : e.Internal := hinternal e (by simp)
    -- what is left to do, once the process has taken the step
    have hclose : ∀ (e' : HostEvent A) (s₂ : Host A), HostStep s₁ e' s₂ →
        s₂.tasks = s₁.tasks.set n ⟨k, { c₂ with pending := 0 }⟩ ++ spawned A spawn [e] →
        s₂.phase = s₁.phase → s₂.fds = s₁.fds → s₂.kernel.files = s₁.kernel.files →
        (e'.note? n = e.note?.map (Sigma.mk k)) → (∀ m, m ≠ n → e'.note? m = none) →
        ∃ es' s', Run HostStep s es' s' ∧ s'.Good D (es ++ es') ∧
          s.WentOn s' n k c₂ (spawned A spawn (es₁ ++ [e])) ∧
          doneIn n (es ++ es') = doneIn n es ++ (notes (es₁ ++ [e])).map (Sigma.mk k) ∧
          ∀ m, m ≠ n → doneIn m (es ++ es') = doneIn m es := by
      intro e' s₂ hstep₂ htasks hphase hfds hfiles hnote hnone
      refine ⟨es' ++ [e'], s₂, hrun₁.snoc hstep₂, ?_, ?_, ?_, fun m hm => ?_⟩
      · rw [← List.append_assoc]
        exact (hstep₂.good hs₁).1
      · have hspawned : spawned A spawn (es₁ ++ [e]) = spawned A spawn es₁ ++ spawned A spawn [e] := by
          rw [spawned, effects, List.filterMap_append, List.filterMap_append]
          rfl
        rw [hspawned]
        exact hwent.trans hn htasks hphase hfds hfiles
      · rw [← List.append_assoc, doneIn_snoc, hdone, hnote, notes_append, List.map_append,
          List.append_assoc]
        cases hn : e.note? with
        | none => simp [notes, hn]
        | some note => simp [notes, hn]
      · rw [← List.append_assoc, doneIn_of_none (hnone m hm), hothers m hm]
    obtain hpending | ⟨rfl, query, callback, next, stack, rest, hthread, rfl⟩ :=
      hstep.pending_cases he
    · -- the step of the task by itself
      have hown := hstep.with_pending he hpending 0
      cases e with
      | silent =>
        exact hclose _ _ (.silent hactive₁ htask₁ hown rfl) (List.append_nil _).symm rfl rfl rfl
          (task_note? _) fun m hm => task_note?_of_ne _ hm
      | performed effect =>
        have hmem : effect ∈ effects (es₁ ++ [.performed effect]) := by
          rw [effects, List.filterMap_append]
          exact List.mem_append_right _ (List.mem_singleton_self _)
        obtain ⟨hfaults, hstarts⟩ := hspawn effect hmem
        have hstep₂ := HostStep.performed hactive₁ htask₁ hown hfaults hstarts
        have hnote : spawned A spawn [.performed effect] =
            (spawn effect).toList.map fun k => ⟨k, .start (A.task k).code⟩ := by
          rw [spawned]
          cases hnew : spawn effect <;> simp [effects, Futures.Event.effect?, hnew]
        -- an effect may start a task
        cases hnew : spawn effect with
        | none =>
          rw [hnew] at hstep₂ hnote
          exact hclose _ _ hstep₂ (by rw [hnote]; exact (List.append_nil _).symm) rfl rfl rfl
            (task_note? _) fun m hm => task_note?_of_ne _ hm
        | some k' =>
          rw [hnew] at hstep₂ hnote
          exact hclose _ _ hstep₂ (by rw [hnote]; rfl) rfl rfl rfl
            (task_note? _) fun m hm => task_note?_of_ne _ hm
      | uncaught => exact ((HostStep.uncaught hactive₁ htask₁ hown).good hs₁).2.elim
      | answered => exact he.elim
      | gave => exact he.elim
    · -- a registration, which nobody refuses
      obtain ⟨hallowed, -, es₂, pending, hrun₂, -, -⟩ := hs₁.tasked.runs n k _ htask₁
      have hthread' : Config.threads { c₁ with pending := pending } =
          (.code (.register query callback next) :: stack) ::ₘ rest := hthread
      obtain ⟨-, trace, hstops⟩ := (D.good k hallowed).stops_of_mem
        (hrun₂.snoc (.register hthread')) (Multiset.mem_cons_self _ _)
      obtain ⟨fd, hfd⟩ := Option.ne_none_iff_exists'.mp (hmade _ _ hstops)
      rw [← hwent.fds] at hfd
      have hstep₂ := HostStep.registered true hactive₁ htask₁ hthread hfd
      have hharmless := (hstep₂.good hs₁).2
      have hevent : (Event.ofFd fd (A.eventType k query)).fd = fd := Event.fd_ofFd _ _
      obtain ⟨-, hadd⟩ | ⟨f, -, -, hadd⟩ := hs₁.tables.addHandlerForEvent_cases
        (.ofFd fd (A.eventType k query)) ⟨n, k, query, callback⟩
        { { c₁ with pending := 0 } with threads := (.code next :: stack) ::ₘ rest } true
        (by rw [hevent]; exact hs₁.tables.opened _ _ hfd)
      · rw [hadd] at hharmless
        cases hharmless rfl
      · rw [hadd] at hstep₂
        exact hclose _ _ hstep₂ (List.append_nil _).symm rfl rfl rfl rfl fun _ _ => rfl

/-- The calls of a task return, whatever else the process has still to do. -/
theorem Host.Good.settle (hs : s.Good D es) (hactive : s.phase.Active)
    (htask : s.tasks[n]? = some ⟨k, c⟩) (spawn : (A.signature k).Effect → Option K)
    (hspawn : ∀ es₀ es₁ c₁, ProgRun (A.bodies k) (A.task k).code (es₀ ++ es₁) c₁ → c₁.Idle →
      doneIn n es = (notes es₀).map (Sigma.mk k) → (∀ e ∈ es₁, e.Internal) →
      ∀ effect ∈ effects es₁, A.Faults k effect = false ∧ A.Starts k effect (spawn effect))
    (hmade : ∀ trace query, Stops (A.bodies k) (A.task k) trace (.answer query) →
      s.fds (A.object k n query) ≠ none) : ∃ es' s' es₀ es₁ c₁, Run HostStep s es' s' ∧
        s'.Good D (es ++ es') ∧ s.WentOn s' n k c₁ (spawned A spawn es₁) ∧ c₁.Idle ∧
        ProgRun (A.bodies k) (A.task k).code (es₀ ++ es₁) c₁ ∧ (∀ e ∈ es₁, e.Internal) ∧
        doneIn n es = (notes es₀).map (Sigma.mk k) ∧
        doneIn n (es ++ es') = (notes (es₀ ++ es₁)).map (Sigma.mk k) ∧
        ∀ m, m ≠ n → doneIn m (es ++ es') = doneIn m es := by
  obtain ⟨hallowed, hpending, es₀, pending, hrun₀, hhistory, -⟩ := hs.tasked.runs n k c htask
  -- the task by itself returns, and the process can follow it
  obtain ⟨es₁, c₁, hrun₁, hidle, hinternal⟩ := ((D.good k hallowed).returns hrun₀).exists_run
  have hrun := hrun₀.append hrun₁
  have htask' : s.tasks[n]? = some ⟨k, { { c with pending := pending } with pending := 0 }⟩ := by
    rw [htask, ← hpending]
  obtain ⟨es', s', hhost, hs', hwent, hdone, hothers⟩ := hs.goOn hactive htask' hrun₁ hinternal spawn
    (hspawn es₀ es₁ c₁ hrun hidle hhistory hinternal) hmade
  refine ⟨es', s', es₀, es₁, c₁, hhost, hs', hwent, hidle, hrun, hinternal, hhistory, ?_, hothers⟩
  rw [hdone, hhistory, notes_append, List.map_append]

/-- An event comes, and its handler is called. -/
theorem Host.Good.call (hs : s.Good D es) (hphase : s.phase = .blocking) {fd : Fd} {w : Waiter A}
    (hw : s.evStorage.handlers fd = some w) (answer : (A.signature w.kind).Answer w.query) :
    ∃ es' s', Run HostStep s es' s' ∧ s'.Good D (es ++ es') ∧ s'.phase = .running [] ∧
      s'.tasks.map Sigma.fst = s.tasks.map Sigma.fst ∧ s'.IdleBut [w.task] ∧
      s'.fds = s.fds ∧ s'.kernel.files = s.kernel.files ∧
      doneIn w.task (es ++ es') = doneIn w.task es ++ [⟨w.kind, .answered w.query answer⟩] ∧
      ∀ m, m ≠ w.task → doneIn m (es ++ es') = doneIn m es := by
  have hevent : (Event.ofFd fd (A.eventType w.kind w.query)).fd = fd := Event.fd_ofFd _ _
  obtain ⟨f, hfile⟩ := Option.ne_none_iff_exists'.mp (hs.tables.files_ne_none hw)
  have hepoll : (fd, f) ∈ s.kernel.epoll := (hs.tables.epoll fd f).mpr ⟨hfile, by simp [hw]⟩
  -- the kernel reports the one descriptor
  have hblock : HostStep s (.block [.ofFd fd (A.eventType w.kind w.query)])
      { s with phase := .batch [.ofFd fd (A.eventType w.kind w.query)] } := by
    refine .block _ hphase (fun ev hev => ⟨f, ?_⟩) (List.nodup_singleton _)
    rw [List.mem_singleton.mp hev, hevent]
    exact hepoll
  have hs₁ := (hblock.good hs).1
  obtain ⟨c, htask⟩ := hs.tasked.waiter fd w hw
  obtain ⟨f', w', hfile', hw', htake⟩ := hs₁.takeHandler_eq
    (show (_ : HostPhase K) = .batch (.ofFd fd (A.eventType w.kind w.query) :: []) from rfl)
  rw [hevent] at hw'
  obtain rfl : w = w' := Option.some.inj (hw.symm.trans hw')
  -- the handler is found, and called with the answer
  have hanswered := HostStep.answered answer rfl htake htask
  have hidle : s.Idle := by
    have hphased := hs.phased
    rwa [Host.Phased, hphase] at hphased
  refine ⟨_, _, (Run.snoc .nil hblock).snoc hanswered, ?_, rfl, ?_, ?_, rfl, rfl, ?_,
    fun m hm => ?_⟩
  · rw [List.nil_append, ← List.append_assoc]
    exact (hanswered.good hs₁).1
  · exact Host.map_fst_setTask htask _
  · intro m k₁ c₁ htask₁ hm
    refine hidle m k₁ c₁ ?_
    rwa [show (_ : Host A).tasks = s.tasks.set w.task _ from rfl,
      List.getElem?_set_ne fun heq => hm (List.mem_singleton.mpr heq.symm)] at htask₁
  · rw [List.nil_append, ← List.append_assoc, doneIn_snoc, task_note?, doneIn_of_none rfl]
    rfl
  · rw [List.nil_append, ← List.append_assoc, doneIn_of_none (task_note?_of_ne _ hm),
      doneIn_of_none rfl]

/-- When every call has returned, the loop blocks again. -/
theorem Host.Good.block_again (hs : s.Good D es) (hphase : s.phase = .running []) (hidle : s.Idle) :
    ∃ es', Run HostStep s es' { s with phase := .blocking } ∧
      Host.Good D { s with phase := .blocking } (es ++ es') ∧
      ∀ m, doneIn m (es ++ es') = doneIn m es := by
  -- the callback is over and its batch is empty, so the loop blocks
  have hreturned : HostStep s .returned { s with phase := .batch [] } := .returned hphase hidle
  have hdone : HostStep { s with phase := .batch [] } .batchDone { s with phase := .blocking } :=
    .batchDone rfl
  refine ⟨[.returned, .batchDone], (Run.snoc .nil hreturned).snoc hdone, ?_, fun m => ?_⟩
  · have hs' := (hdone.good (hreturned.good hs).1).1
    rwa [List.append_assoc] at hs'
  · show doneIn m (es ++ ([.returned] ++ [.batchDone])) = doneIn m es
    rw [← List.append_assoc, doneIn_of_none rfl, doneIn_of_none rfl]

end Webserv.Io
