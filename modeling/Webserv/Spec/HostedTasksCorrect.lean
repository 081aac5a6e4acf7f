import Mathlib.Data.List.Perm.Basic
import Webserv.ForStd.List
import Webserv.Native.HostedTasks
import Webserv.Spec.DescriptorsCorrect
import Webserv.Spec.EventPacking
import Webserv.Spec.TaskMeaning

/-!
# Tasks on the event loop take no notice of each other

A task waits with one handler at a time, and an object has one task that may
wait for it: then no descriptor is registered twice, no event comes without its
handler, and what the process does with a task is a run of that task alone.

## Key results

- `Task.Good.stops_of_mem`: a registered handler is the only one of its task
- `HostStep.good`: what every step of the process keeps
- `HostRun.good`: what holds in every state of a run, and which exceptions are never thrown
-/

namespace Webserv

/-! ## A task by itself -/

namespace Futures

open Transition

variable {S : Signature} {bodies : Bodies S}

/-- The task may come to this trace. -/
def Begins (bodies : Bodies S) (task : Task S) (trace : Trace S) : Prop :=
  (∃ trace', Finishes bodies task (trace ++ trace')) ∨
    ∃ trace' wait, Stops bodies task (trace ++ trace') wait

section runs
variable {c c' : Config S} {e : Event S} {es : List (Event S)}

/-- A step of the threads takes no handler away. -/
theorem Step.pending_le (h : Step bodies c e c') (hinternal : e.Internal) :
    c.pending ≤ c'.pending := by
  cases h with
  | register => exact Multiset.le_cons_self _ _
  | answer => exact hinternal.elim
  | give => exact hinternal.elim
  | _ => exact le_rfl

/-- Nor do many. -/
theorem pending_le_of_run (h : Run (Step bodies) c es c') (hinternal : ∀ e ∈ es, e.Internal) :
    c.pending ≤ c'.pending := by
  induction h with
  | nil => exact le_rfl
  | snoc _ hstep ih =>
    have hpre := ih fun e he => hinternal e (List.mem_append_left _ he)
    exact hpre.trans (hstep.pending_le (hinternal _ (by simp)))

/-- A registration is silent. -/
theorem Step.pending_eq (h : Step bodies c e c') (hinternal : e.Internal) (he : e ≠ .silent) :
    c'.pending = c.pending := by
  cases h with
  | perform => rfl
  | uncaught => rfl
  | answer => exact hinternal.elim
  | give => exact hinternal.elim
  | _ => exact absurd rfl he

/-- An internal step leaves the handlers alone, or is a registration. -/
theorem Step.pending_cases (h : Step bodies c e c') (hinternal : e.Internal) :
    c'.pending = c.pending ∨ e = .silent ∧ ∃ query handler next stack rest,
      c.threads = (.code (.register query handler next) :: stack) ::ₘ rest ∧
      c' = { c with
        threads := (.code next :: stack) ::ₘ rest
        pending := ⟨query, handler⟩ ::ₘ c.pending } := by
  cases h with
  -- only a step that registers adds to what is waited for
  | register hthread => exact .inr ⟨rfl, _, _, _, _, _, hthread, rfl⟩
  | answer => exact hinternal.elim
  | give => exact hinternal.elim
  | _ => exact .inl rfl

/-- A silent step adds no note. -/
@[simp] theorem notes_append_silent (es : List (Event S)) : notes (es ++ [.silent]) = notes es := by
  rw [notes_append]
  exact List.append_nil _

/-- A step that registers nothing, with other handlers registered. -/
theorem Step.with_pending (h : Step bodies c e c') (hinternal : e.Internal)
    (hpending : c'.pending = c.pending)
    (pending : Multiset (Σ query : S.Query, S.Answer query → Prog S)) :
    Step bodies { c with pending := pending } e { c' with pending := pending } := by
  cases h with
  | done hthread => exact .done hthread
  | makeContract hthread => exact .makeContract hthread
  | setValue hthread hfree hcalled => exact .setValue hthread hfree hcalled
  | setCallback hthread hfree hcalled => exact .setCallback hthread hfree hcalled
  | perform hthread => exact .perform hthread
  -- a registration is the one step that changes the handlers
  | register hthread => exact absurd hpending (Multiset.lt_cons_self _ _).ne'
  | call hthread => exact .call hthread
  | unlock hthread => exact .unlock hthread
  | unwindCode hthread => exact .unwindCode hthread
  | unwindUnlock hthread => exact .unwindUnlock hthread
  | uncaught hthread => exact .uncaught hthread
  | answer => exact hinternal.elim
  | give => exact hinternal.elim

variable {ends : ∀ t : S.Ty, S.Proc t → ℕ} {task : Task S} [∀ t, IsEmpty (S.Contract t)]

/-- What a run has noted begins what the task may do. -/
theorem Task.Good.begins (h : task.Good ends bodies) (hrun : ProgRun bodies task.code es c) :
    Begins bodies task (notes es) := by
  -- let it run until it is idle: what was done is a start of one of its traces
  obtain ⟨es', c', hrun', hidle, -⟩ := h.settles hrun
  have houtcome := h.outcome_notes hrun' hidle
  rw [notes_append] at houtcome
  cases houtcome with
  | finished _ hfinishes => exact .inl ⟨_, hfinishes⟩
  | asks _ hstops => exact .inr ⟨_, _, hstops⟩
  | waits _ hstops => exact .inr ⟨_, _, hstops⟩

/-- A registered handler is the only one, and the task comes to wait for it. -/
theorem Task.Good.stops_of_mem (h : task.Good ends bodies) (hrun : ProgRun bodies task.code es c)
    {handler : Σ query : S.Query, S.Answer query → Prog S} (hmem : handler ∈ c.pending) :
    c.pending = {handler} ∧
      ∃ trace, Stops bodies task (notes es ++ trace) (.answer handler.1) := by
  -- let the task run on until it is idle: the handler is still there
  obtain ⟨es', c', hrest, hidle, hinternal⟩ := (h.returns hrun).exists_run
  have hle := pending_le_of_run hrest hinternal
  have hmem' := Multiset.mem_of_le hle hmem
  have houtcome := h.outcome_notes (hrun.append hrest) hidle
  rw [notes_append] at houtcome
  cases houtcome with
  | finished hpending => exact absurd hmem' (by simp [hpending])
  | @asks handler' hpending hstops =>
    rw [hpending] at hle hmem'
    obtain rfl := Multiset.mem_singleton.mp hmem'
    have hpos : c.pending ≠ 0 := fun hzero => by simp [hzero] at hmem
    exact ⟨(Multiset.le_singleton.mp hle).resolve_left hpos, _, hstops⟩
  | waits hpending => exact absurd hmem' (by simp [hpending])

/-- Nothing is registered while a handler waits. -/
theorem Task.Good.pending_of_register (h : task.Good ends bodies)
    (hrun : ProgRun bodies task.code es c) {stack : List (Frame S)}
    {rest : Multiset (List (Frame S))} {query : S.Query} {handler : S.Answer query → Prog S}
    {next : Prog S}
    (hthread : c.threads = (.code (.register query handler next) :: stack) ::ₘ rest) :
    c.pending = 0 := by
  have hafter := hrun.snoc (.register hthread)
  obtain ⟨hpending, -⟩ := h.stops_of_mem hafter (Multiset.mem_cons_self _ _)
  exact (Multiset.cons_inj_right _).mp hpending

end runs

end Futures

/-! ## What an application keeps to -/

namespace Io

open Futures Transition

variable {K O : Type}

/-- The tasks are good ones, and each object has one task that may wait for it, which
    may hand it over to a task it starts. -/
structure Discipline (A : Application K O) where
  ends : ∀ k (t : (A.signature k).Ty), (A.signature k).Proc t → ℕ
  Allowed : K → Prop
  good : ∀ k, Allowed k → (A.task k).Good (ends k) (A.bodies k)
  /-- The number of the task an object is made for. -/
  number : O → ℕ
  /-- Behind this trace the task has the object. -/
  Owns : ∀ k, ℕ → Trace (A.signature k) → O → Prop
  waits : ∀ k n trace query, Stops (A.bodies k) (A.task k) trace (.answer query) →
    Owns k n trace (A.object k n query)
  shrinks : ∀ k n trace trace' o, Owns k n (trace ++ trace') o → Owns k n trace o
  inherits : ∀ k n trace effect k', Allowed k → A.Starts k effect (some k') →
    Begins (A.bodies k) (A.task k) (trace ++ [.performed effect]) → Allowed k' ∧
      ∀ n' o, Owns k' n' [] o → number o = n' ∨
        Owns k n trace o ∧ ¬ Owns k n (trace ++ [.performed effect]) o

/-- A task that `async_main` may start. -/
def Discipline.MayStart {A : Application K O} (D : Discipline A) (start : ℕ → K) : Prop :=
  ∀ n, D.Allowed (start n) ∧ ∀ o, D.Owns (start n) n [] o → D.number o = n

variable {A : Application K O}

/-! ## The tables -/

/-- What the kernel has registered is what has a callback, of an object that is alive. -/
structure Host.Tables (s : Host A) : Prop where
  epoll : ∀ fd f, (fd, f) ∈ s.kernel.epoll ↔
    s.kernel.files fd = some f ∧ s.evStorage.handlers fd ≠ none
  opened : ∀ o fd, s.fds o = some fd → s.kernel.files fd ≠ none
  distinct : ∀ o o' fd, s.fds o = some fd → s.fds o' = some fd → o = o'
  waiter : ∀ fd w, s.evStorage.handlers fd = some w → s.fds w.object = some fd

/-- The file was not in the table. -/
theorem Host.addHandlerForEvent_of_new {s : Host A} {event : Event} (w : Waiter A)
    (c : Config (A.signature w.kind)) {f : File} (hfile : s.kernel.files event.fd = some f)
    (hnew : (event.fd, f) ∉ s.kernel.epoll) :
    s.addHandlerForEvent event w c true =
      (.ok (), { s.setTask w.task w.kind c with
        kernel := { s.kernel with epoll := insert (event.fd, f) s.kernel.epoll }
        evStorage := { handlers := Function.update s.evStorage.handlers event.fd (some w) } }) := by
  have hadd : s.kernel.ctlAdd event.fd true =
      some { s.kernel with epoll := insert (event.fd, f) s.kernel.epoll } := by
    have hor : ¬ ((event.fd, f) ∈ s.kernel.epoll ∨ true = false) := fun hor =>
      hor.elim hnew Bool.noConfusion
    simp only [Kernel.ctlAdd, hfile, if_neg hor]
  rw [Host.addHandlerForEvent, hadd]
  rfl

namespace Host.Tables

variable {s : Host A}

/-- A descriptor that is waited for is open. -/
theorem files_ne_none (h : s.Tables) {fd : Fd} {w : Waiter A}
    (hw : s.evStorage.handlers fd = some w) : s.kernel.files fd ≠ none :=
  h.opened _ _ (h.waiter _ _ hw)

/-- On a free descriptor nobody waits. -/
theorem unheld (h : s.Tables) {fd : Fd} (hfree : s.kernel.files fd = none) :
    s.evStorage.handlers fd = none := by
  cases hw : s.evStorage.handlers fd with
  | none => rfl
  | some w => exact absurd hfree (h.files_ne_none hw)

/-- The tables of another state. -/
theorem congr (h : s.Tables) {s' : Host A} (hkernel : s'.kernel = s.kernel) (hfds : s'.fds = s.fds)
    (hstorage : s'.evStorage = s.evStorage) : s'.Tables := by
  constructor
  · rw [hkernel, hstorage]
    exact h.epoll
  · rw [hkernel, hfds]
    exact h.opened
  · rw [hfds]
    exact h.distinct
  · rw [hfds, hstorage]
    exact h.waiter

/-- Opening a free descriptor keeps the tables. -/
theorem openFd (h : s.Tables) {fd : Fd} (hfree : s.kernel.files fd = none) :
    Host.Tables { s with kernel := s.kernel.openFd fd } where
  epoll x f := by
    rw [Kernel.openFd_files]
    split
    · rename_i hx
      subst hx
      -- what is not open is not in the interest list
      have hnot : (x, f) ∉ s.kernel.epoll := fun hmem => by
        have hfile := ((h.epoll x f).mp hmem).1
        rw [hfree] at hfile
        cases hfile
      exact iff_of_false hnot fun hboth => hboth.2 (h.unheld hfree)
    · exact h.epoll x f
  opened o x ho := by
    rw [Kernel.openFd_files]
    split
    · simp
    · exact h.opened o x ho
  distinct := h.distinct
  waiter := h.waiter

variable [DecidableEq O]

/-- So does a constructor. -/
theorem openObject (h : s.Tables) {o : O} {fd : Fd} (ho : s.fds o = none)
    (hfree : s.kernel.files fd = none) : (s.openObject o fd).Tables := by
  have hopen := h.openFd hfree
  -- the descriptor of nothing that is alive
  have hnew : ∀ o', s.fds o' ≠ some fd := fun o' ho' => h.opened _ _ ho' hfree
  have hfds : ∀ o' x, (s.openObject o fd).fds o' = some x ↔
      o' = o ∧ x = fd ∨ o' ≠ o ∧ s.fds o' = some x := by
    intro o' x
    show Function.update s.fds o (some fd) o' = some x ↔ _
    rw [Function.update_apply]
    by_cases heq : o' = o
    · simp [heq, eq_comm]
    · simp [heq]
  constructor
  · exact hopen.epoll
  · intro o' x ho'
    obtain ⟨-, rfl⟩ | ⟨-, ho'⟩ := (hfds o' x).mp ho'
    · show (s.kernel.openFd x).files x ≠ none
      simp [Kernel.openFd_files]
    · exact hopen.opened o' x ho'
  · intro o₁ o₂ x ho₁ ho₂
    -- two objects on the new descriptor would both be the new one
    obtain ⟨rfl, rfl⟩ | ⟨-, hold₁⟩ := (hfds o₁ x).mp ho₁
    · obtain ⟨rfl, -⟩ | ⟨-, hold₂⟩ := (hfds o₂ x).mp ho₂
      · rfl
      · exact absurd hold₂ (hnew o₂)
    · obtain ⟨-, rfl⟩ | ⟨-, hold₂⟩ := (hfds o₂ x).mp ho₂
      · exact absurd hold₁ (hnew o₁)
      · exact h.distinct o₁ o₂ x hold₁ hold₂
  · intro x w hw
    have hobject := h.waiter x w hw
    refine (hfds _ _).mpr (.inr ⟨fun heq => ?_, hobject⟩)
    rw [heq, ho] at hobject
    cases hobject

/-- So does the destructor of an object nobody waits for. -/
theorem closeObject (h : s.Tables) {o : O} {fd : Fd} (ho : s.fds o = some fd)
    (hunheld : s.evStorage.handlers fd = none) : (s.closeObject o fd).Tables := by
  -- what stays alive has another descriptor
  have hfds : ∀ o' x, (s.closeObject o fd).fds o' = some x → s.fds o' = some x ∧ x ≠ fd := by
    intro o' x ho'
    rw [Host.closeObject] at ho'
    dsimp only at ho'
    rw [Function.update_apply] at ho'
    split at ho'
    · cases ho'
    · rename_i hne
      refine ⟨ho', fun hx => hne (h.distinct o' o fd (hx ▸ ho') ho)⟩
  -- the other descriptors are as they were
  have hfiles : ∀ x, x ≠ fd → (s.closeObject o fd).kernel.files x = s.kernel.files x := by
    intro x hx
    rw [Host.closeObject]
    dsimp only
    split
    · rw [Kernel.close_files, if_neg hx]
    · rfl
  have hepoll : (s.closeObject o fd).kernel.epoll = s.kernel.epoll := by
    rw [Host.closeObject]
    dsimp only
    split
    · rfl
    · rfl
  constructor
  · intro x f
    rw [hepoll]
    by_cases hx : x = fd
    · subst hx
      have hnot : (x, f) ∉ s.kernel.epoll := fun hmem => ((h.epoll x f).mp hmem).2 hunheld
      exact iff_of_false hnot fun hboth => hboth.2 hunheld
    · rw [hfiles x hx]
      exact h.epoll x f
  · intro o' x ho'
    obtain ⟨ho', hx⟩ := hfds o' x ho'
    rw [hfiles x hx]
    exact h.opened o' x ho'
  · intro o₁ o₂ x ho₁ ho₂
    exact h.distinct o₁ o₂ x (hfds o₁ x ho₁).1 (hfds o₂ x ho₂).1
  · intro x w hw
    have hobject := h.waiter x w hw
    -- its own callback would hold the object
    have hne : w.object ≠ o := fun heq => by
      rw [heq, ho] at hobject
      cases hobject
      rw [show s.evStorage.handlers fd = some w from hw] at hunheld
      cases hunheld
    show Function.update s.fds o none w.object = some x
    rwa [Function.update_of_ne hne]

omit [DecidableEq O] in
/-- All that a registration can do: it is refused if somebody waits already. -/
theorem addHandlerForEvent_cases (h : s.Tables) (event : Event) (w : Waiter A)
    (c : Config (A.signature w.kind)) (granted : Bool) (hopened : s.kernel.files event.fd ≠ none) :
    (granted = false ∨ s.evStorage.handlers event.fd ≠ none) ∧
        s.addHandlerForEvent event w c granted =
          (.error .epollAdd, { s with phase := .terminated }) ∨
      ∃ f, s.kernel.files event.fd = some f ∧ s.evStorage.handlers event.fd = none ∧
        s.addHandlerForEvent event w c granted =
          (.ok (), { s.setTask w.task w.kind c with
            kernel := { s.kernel with epoll := insert (event.fd, f) s.kernel.epoll }
            evStorage := { handlers := Function.update s.evStorage.handlers event.fd (some w) } }) := by
  obtain ⟨f, hfile⟩ := Option.ne_none_iff_exists'.mp hopened
  -- the kernel refuses, of its own or for a registration that is there
  by_cases hrefused : granted = false ∨ s.evStorage.handlers event.fd ≠ none
  · refine .inl ⟨hrefused, ?_⟩
    have hadd : s.kernel.ctlAdd event.fd granted = none := by
      have hor : (event.fd, f) ∈ s.kernel.epoll ∨ granted = false :=
        hrefused.symm.imp_left fun hheld => (h.epoll _ f).mpr ⟨hfile, hheld⟩
      simp only [Kernel.ctlAdd, hfile, if_pos hor]
    rw [Host.addHandlerForEvent, hadd]
  · obtain ⟨hgranted, hnone⟩ := not_or.mp hrefused
    obtain rfl : granted = true := Bool.eq_true_of_not_eq_false hgranted
    have hnew : (event.fd, f) ∉ s.kernel.epoll := fun hmem => hnone ((h.epoll _ f).mp hmem).2
    exact .inr ⟨f, hfile, not_not.mp hnone, Host.addHandlerForEvent_of_new w c hfile hnew⟩

omit [DecidableEq O] in
/-- What has a callback is found in both tables. -/
theorem takeHandler_eq (h : s.Tables) {ev : Event} {w : Waiter A}
    (hw : s.evStorage.handlers ev.fd = some w) : ∃ f, s.kernel.files ev.fd = some f ∧
      s.takeHandler ev = (.ok w, { s with
        kernel := { s.kernel with epoll := s.kernel.epoll.erase (ev.fd, f) }
        evStorage := { handlers := Function.update s.evStorage.handlers ev.fd none } }) := by
  obtain ⟨f, hfile⟩ := Option.ne_none_iff_exists'.mp (h.files_ne_none hw)
  -- the callback is stored, so the descriptor is registered for the file behind it
  have hmem : (ev.fd, f) ∈ s.kernel.epoll := (h.epoll _ f).mpr ⟨hfile, by simp [hw]⟩
  refine ⟨f, hfile, ?_⟩
  simp only [Host.takeHandler, Kernel.ctlDel, hfile, if_pos hmem, CallbackStorage.getHandler, hw]

omit [DecidableEq O] in
/-- A registration fills the tables. -/
theorem add (h : s.Tables) {fd : Fd} {f : File} {w : Waiter A} (hfile : s.kernel.files fd = some f)
    (hfd : s.fds w.object = some fd) {s' : Host A}
    (hkernel : s'.kernel = { s.kernel with epoll := insert (fd, f) s.kernel.epoll })
    (hfds : s'.fds = s.fds)
    (hstorage : s'.evStorage.handlers = Function.update s.evStorage.handlers fd (some w)) :
    s'.Tables := by
  constructor
  · intro x f'
    rw [hkernel, hstorage]
    show (x, f') ∈ insert (fd, f) s.kernel.epoll ↔ _
    rw [Finset.mem_insert, h.epoll]
    -- the descriptor itself, and the others
    by_cases hx : x = fd
    · subst hx
      rw [Function.update_self, hfile]
      constructor
      · rintro (heq | ⟨hsome, -⟩)
        · exact ⟨by rw [(Prod.mk.inj heq).2], by simp⟩
        · exact ⟨hsome, by simp⟩
      · rintro ⟨hsome, -⟩
        exact .inl (by rw [Option.some.inj hsome])
    · rw [Function.update_of_ne hx]
      simp [hx]
  · rw [hkernel, hfds]
    exact h.opened
  · rw [hfds]
    exact h.distinct
  · intro x w' hw'
    rw [hstorage, Function.update_apply] at hw'
    rw [hfds]
    -- the waiter that is new is on the descriptor of its object
    split at hw'
    · rename_i hx
      cases hw'
      rwa [hx]
    · exact h.waiter x w' hw'

omit [DecidableEq O] in
/-- A handler that is taken empties them. -/
theorem take (h : s.Tables) {fd : Fd} {f : File} (hfile : s.kernel.files fd = some f)
    {s' : Host A} (hkernel : s'.kernel = { s.kernel with epoll := s.kernel.epoll.erase (fd, f) })
    (hfds : s'.fds = s.fds)
    (hstorage : s'.evStorage.handlers = Function.update s.evStorage.handlers fd none) :
    s'.Tables := by
  constructor
  · intro x f'
    rw [hkernel, hstorage]
    show (x, f') ∈ s.kernel.epoll.erase (fd, f) ↔ _
    rw [Finset.mem_erase, h.epoll]
    -- the entry of the descriptor goes, the others stay
    by_cases hx : x = fd
    · subst hx
      rw [Function.update_self, hfile]
      simp only [ne_eq, Prod.mk.injEq, true_and, not_true_eq_false, and_false, iff_false]
      rintro ⟨hne, hsome, -⟩
      exact hne (Option.some.inj hsome).symm
    · rw [Function.update_of_ne hx]
      simp [hx]
  · rw [hkernel, hfds]
    exact h.opened
  · rw [hfds]
    exact h.distinct
  · intro x w hw
    rw [hstorage, Function.update_apply] at hw
    rw [hfds]
    split at hw
    · cases hw
    · exact h.waiter x w hw

end Host.Tables

/-! ## The tasks -/

def HostEvent.note? (n : ℕ) : HostEvent A → Option (Σ k, Note (A.signature k))
  | .task m k e => if m = n then e.note?.map (Sigma.mk k) else none
  | _ => none

/-- A step of a task is noted in its history. -/
@[simp] theorem task_note? {n : ℕ} {k : K} (e : Futures.Event (A.signature k)) :
    (HostEvent.task n k e).note? n = e.note?.map fun note => ⟨k, note⟩ := if_pos rfl

/-- It is not noted in another. -/
theorem task_note?_of_ne {m n : ℕ} {k : K} (e : Futures.Event (A.signature k)) (hm : m ≠ n) :
    (HostEvent.task n k e).note? m = none := if_neg hm.symm

/-- What was done in a task. -/
def doneIn (n : ℕ) (es : List (HostEvent A)) : List (Σ k, Note (A.signature k)) :=
  es.filterMap (HostEvent.note? n)

/-- The history of a task in a run that goes on. -/
theorem doneIn_snoc (n : ℕ) (es : List (HostEvent A)) (e : HostEvent A) :
    doneIn n (es ++ [e]) = doneIn n es ++ (e.note? n).toList := by
  rw [doneIn, List.filterMap_append]
  cases he : e.note? n with
  | none => simp [doneIn, he]
  | some note => simp [doneIn, he]

/-- The notes of all tasks. -/
def HostEvent.done? : HostEvent A → Option (Σ k, Note (A.signature k))
  | .task _ k e => e.note?.map (Sigma.mk k)
  | _ => none

/-- What was done by all of them, in order. -/
def done (es : List (HostEvent A)) : List (Σ k, Note (A.signature k)) :=
  es.filterMap HostEvent.done?

/-- The history of all tasks in a run that goes on. -/
theorem done_snoc (es : List (HostEvent A)) (e : HostEvent A) :
    done (es ++ [e]) = done es ++ e.done?.toList := by
  rw [done, List.filterMap_append]
  cases he : e.done? with
  | none => simp [done, he]
  | some note => simp [done, he]

/-- What is done is done in one task. -/
theorem HostEvent.exists_note? (e : HostEvent A) :
    ∃ m, ∀ n, e.note? n = if m = n then e.done? else none := by
  cases e with
  | task m k e => exact ⟨m, fun n => rfl⟩
  | _ => exact ⟨0, fun n => (ite_self _).symm⟩

/-- What one task notes is noted. -/
theorem done?_of_note? {n : ℕ} {e : HostEvent A} {note : Σ k, Note (A.signature k)}
    (h : e.note? n = some note) : e.done? = some note := by
  obtain ⟨m, hm⟩ := e.exists_note?
  rw [hm] at h
  split at h
  · exact h
  · cases h

/-- All that was done is in the histories of the tasks. -/
theorem done_perm {N : ℕ} {es : List (HostEvent A)} (hlater : ∀ n, N ≤ n → doneIn n es = []) :
    (done es).Perm ((List.range N).flatMap fun n => doneIn n es) := by
  induction es using List.reverseRecOn with
  | nil => simp [done, doneIn]
  | append_singleton es e ih =>
    have hboth : ∀ n, N ≤ n → doneIn n es = [] ∧ (e.note? n).toList = [] := fun n hn => by
      have hnil := hlater n hn
      rw [doneIn_snoc] at hnil
      exact List.append_eq_nil_iff.mp hnil
    obtain ⟨m, hm⟩ := e.exists_note?
    -- the new note is of one task, which is below the bound
    have hlast : ((List.range N).flatMap fun n => (e.note? n).toList) = e.done?.toList := by
      have hsplit : (fun n => (e.note? n).toList) = fun n => if m = n then e.done?.toList else [] := by
        funext n
        rw [hm]
        split
        · rfl
        · rfl
      rw [hsplit, List.flatMap_range_ite]
      split
      · rfl
      · rename_i hnot
        have hnone := (hboth m (not_lt.mp hnot)).2
        rw [hm, if_pos rfl] at hnone
        exact hnone.symm
    have hsnoc : (fun n => doneIn n (es ++ [e])) = fun n => doneIn n es ++ (e.note? n).toList :=
      funext fun n => doneIn_snoc n es e
    rw [done_snoc, hsnoc, ← hlast]
    exact ((ih fun n hn => (hboth n hn).1).append_right _).trans (List.flatMap_append_perm _ _ _)

/-- A step without a note leaves the history alone. -/
theorem doneIn_of_none {n : ℕ} {e : HostEvent A} (he : e.note? n = none)
    (es : List (HostEvent A)) : doneIn n (es ++ [e]) = doneIn n es := by
  rw [doneIn_snoc, he, Option.toList_none, List.append_nil]

/-- The handler a task has in the storage. -/
inductive Host.Waits (s : Host A) (n : ℕ) (k : K) :
    Multiset (Σ query : (A.signature k).Query,
      (A.signature k).Answer query → Prog (A.signature k)) → Prop where
  | nobody (hnobody : ∀ fd w, s.evStorage.handlers fd = some w → w.task ≠ n) : Waits s n k 0
  | handler {fd : Fd} {query : (A.signature k).Query}
      {callback : (A.signature k).Answer query → Prog (A.signature k)}
      (hfd : s.evStorage.handlers fd = some ⟨n, k, query, callback⟩)
      (honly : ∀ fd' w, s.evStorage.handlers fd' = some w → w.task = n → fd' = fd) :
      Waits s n k {⟨query, callback⟩}

/-- The task is in a run of its own, of which the storage has the handler. -/
def Host.Runs (s : Host A) (es : List (HostEvent A)) (n : ℕ) (k : K)
    (c : Config (A.signature k)) : Prop :=
  c.pending = 0 ∧ ∃ es' pending,
    ProgRun (A.bodies k) (A.task k).code es' { c with pending := pending } ∧
    doneIn n es = (notes es').map (Sigma.mk k) ∧ s.Waits n k pending

variable (D : Discipline A)

/-- The task with this number has the object. -/
def Host.Owner (s : Host A) (es : List (HostEvent A)) (n : ℕ) (o : O) : Prop :=
  ∃ k c trace, s.tasks[n]? = some ⟨k, c⟩ ∧ doneIn n es = trace.map (Sigma.mk k) ∧
    D.Owns k n trace o

structure Host.Tasked (s : Host A) (es : List (HostEvent A)) : Prop where
  runs : ∀ n k c, s.tasks[n]? = some ⟨k, c⟩ → D.Allowed k ∧ s.Runs es n k c
  waiter : ∀ fd w, s.evStorage.handlers fd = some w → ∃ c, s.tasks[w.task]? = some ⟨w.kind, c⟩
  later : ∀ n, s.tasks.length ≤ n → doneIn n es = []
  owned : ∀ n m o, s.Owner D es n o → s.Owner D es m o → n = m
  numbered : ∀ n o, s.Owner D es n o → D.number o < s.tasks.length

variable {D} {s s' : Host A} {es : List (HostEvent A)} {n : ℕ} {k : K}
  {c c' : Config (A.signature k)}

/-- How a task waits depends on its own handlers. -/
theorem Host.Waits.congr {pending : Multiset (Σ query : (A.signature k).Query,
      (A.signature k).Answer query → Prog (A.signature k))} (h : s.Waits n k pending)
    (hsame : ∀ fd w, w.task = n →
      (s'.evStorage.handlers fd = some w ↔ s.evStorage.handlers fd = some w)) :
    s'.Waits n k pending := by
  cases h with
  | nobody hnobody =>
    exact .nobody fun fd w hw hn => hnobody fd w ((hsame fd w hn).mp hw) hn
  | handler hfd honly =>
    exact .handler ((hsame _ _ rfl).mpr hfd) fun fd' w hw hn =>
      honly fd' w ((hsame fd' w hn).mp hw) hn

/-- The trace of a task, told by what was done in it. -/
theorem trace_eq {trace trace' : Trace (A.signature k)}
    (h : trace.map (Sigma.mk k) = (trace'.map (Sigma.mk k) : List (Σ k, Note (A.signature k)))) :
    trace = trace' := by
  have hinjective : Function.Injective
      fun note : Note (A.signature k) => (⟨k, note⟩ : Σ k, Note (A.signature k)) :=
    fun _ _ heq => eq_of_heq (Sigma.mk.inj heq).2
  exact hinjective.list_map h

/-- What is left in the storage for a task that had at most the entry which has changed. -/
theorem own_of_update {fd : Fd} {new : Option (Waiter A)}
    (hstorage : s'.evStorage.handlers = Function.update s.evStorage.handlers fd new)
    (honly : ∀ x w, s.evStorage.handlers x = some w → w.task = n → x = fd) {x : Fd} {w : Waiter A}
    (hx : s'.evStorage.handlers x = some w) (hw : w.task = n) : x = fd ∧ new = some w := by
  rw [hstorage, Function.update_apply] at hx
  -- the entry that was written, or one that was there
  split at hx
  · rename_i hfd
    exact ⟨hfd, hx⟩
  · rename_i hne
    exact absurd (honly x w hx hw) hne

namespace Host.Tasked

/-- What a task has, it had before it went on. -/
theorem owner_of_advance (h : s.Tasked D es) (htask : s.tasks[n]? = some ⟨k, c⟩) {e : HostEvent A}
    (htasks : s'.tasks = s.tasks.set n ⟨k, c'⟩)
    (hnote : ∀ m, m ≠ n → e.note? m = none) {m : ℕ} {o : O} (howner : s'.Owner D (es ++ [e]) m o) :
    s.Owner D es m o := by
  obtain ⟨k', c'', trace, htask', htrace, howns⟩ := howner
  have hlength : n < s.tasks.length := (List.getElem?_eq_some_iff.mp htask).1
  rw [htasks] at htask'
  -- the task that advanced owned no less before
  by_cases hm : m = n
  · subst hm
    rw [List.getElem?_set_self hlength] at htask'
    cases htask'
    obtain ⟨-, -, es', pending, -, hhistory, -⟩ := h.runs _ _ _ htask
    rw [doneIn_snoc, hhistory] at htrace
    obtain ⟨trace₁, trace₂, rfl, htrace₁, -⟩ := List.map_eq_append_iff.mp htrace.symm
    exact ⟨k, c, trace₁, htask, hhistory.trans htrace₁.symm, D.shrinks _ _ _ _ _ howns⟩
  · rw [List.getElem?_set_ne (Ne.symm hm)] at htask'
    rw [doneIn_of_none (hnote m hm)] at htrace
    exact ⟨k', c'', trace, htask', htrace, howns⟩

/-- A task goes on. -/
theorem advance (h : s.Tasked D es) (htask : s.tasks[n]? = some ⟨k, c⟩) {e : HostEvent A}
    (htasks : s'.tasks = s.tasks.set n ⟨k, c'⟩) (hnote : ∀ m, m ≠ n → e.note? m = none)
    (hothers : ∀ fd w, w.task ≠ n →
      (s'.evStorage.handlers fd = some w ↔ s.evStorage.handlers fd = some w))
    (hkind : ∀ fd w, s'.evStorage.handlers fd = some w → w.task = n → w.kind = k)
    (hruns : s'.Runs (es ++ [e]) n k c') : s'.Tasked D (es ++ [e]) := by
  have hlength : n < s.tasks.length := (List.getElem?_eq_some_iff.mp htask).1
  have hset : s'.tasks[n]? = some ⟨k, c'⟩ := by
    rw [htasks, List.getElem?_set_self hlength]
  -- the other tasks are as they were
  have hother : ∀ m, m ≠ n → s'.tasks[m]? = s.tasks[m]? := fun m hm => by
    rw [htasks, List.getElem?_set_ne (Ne.symm hm)]
  have hlengths : s'.tasks.length = s.tasks.length := by
    rw [htasks, List.length_set]
  constructor
  · intro m k' c'' htask'
    -- the history of the task is longer, those of the others are the same
    by_cases hm : m = n
    · subst hm
      rw [hset] at htask'
      cases htask'
      exact ⟨(h.runs _ _ _ htask).1, hruns⟩
    · rw [hother m hm] at htask'
      obtain ⟨hallowed, hpending, es', pending, hrun, hhistory, hwaits⟩ := h.runs _ _ _ htask'
      refine ⟨hallowed, hpending, es', pending, hrun, ?_, hwaits.congr fun fd w hw => ?_⟩
      · rw [doneIn_of_none (hnote m hm), hhistory]
      · exact hothers fd w (hw ▸ hm)
  · intro fd w hw
    by_cases hm : w.task = n
    · obtain rfl := hkind fd w hw hm
      exact ⟨c', hm ▸ hset⟩
    · rw [hother _ hm]
      exact h.waiter fd w ((hothers fd w hm).mp hw)
  · intro m hm
    rw [hlengths] at hm
    rw [doneIn_of_none (hnote m (by omega)), h.later m hm]
  · intro m₁ m₂ o ho₁ ho₂
    exact h.owned m₁ m₂ o (h.owner_of_advance htask htasks hnote ho₁)
      (h.owner_of_advance htask htasks hnote ho₂)
  · intro m o ho
    rw [hlengths]
    exact h.numbered m o (h.owner_of_advance htask htasks hnote ho)

/-- A task goes on, and its entry in the storage changes. -/
theorem advance_update (h : s.Tasked D es) (htask : s.tasks[n]? = some ⟨k, c⟩) {e : HostEvent A}
    (htasks : s'.tasks = s.tasks.set n ⟨k, c'⟩) (hnote : ∀ m, m ≠ n → e.note? m = none)
    {fd : Fd} {new : Option (Waiter A)}
    (hstorage : s'.evStorage.handlers = Function.update s.evStorage.handlers fd new)
    (hold : ∀ w, s.evStorage.handlers fd = some w → w.task = n)
    (honly : ∀ x w, s.evStorage.handlers x = some w → w.task = n → x = fd)
    (hnew : ∀ w, new = some w → w.task = n ∧ w.kind = k)
    (hruns : s'.Runs (es ++ [e]) n k c') : s'.Tasked D (es ++ [e]) := by
  refine h.advance htask htasks hnote (fun x w hw => ?_) (fun x w hx hw => ?_) hruns
  · rw [hstorage, Function.update_apply]
    -- the one entry that changed is of this task, before and now
    split
    · rename_i hfd
      subst hfd
      exact iff_of_false (fun heq => hw (hnew w heq).1) fun heq => hw (hold w heq)
    · exact .rfl
  · exact (hnew w (own_of_update hstorage honly hx hw).2).2

/-- Nothing is done in the tasks. -/
theorem congr (h : s.Tasked D es) (s' : Host A) (htasks : s'.tasks = s.tasks) {e : HostEvent A}
    (hnote : ∀ m, e.note? m = none) (hstorage : s'.evStorage = s.evStorage) :
    s'.Tasked D (es ++ [e]) := by
  -- the histories are the same, so everybody owns what he owned
  have howner : ∀ m o, s'.Owner D (es ++ [e]) m o → s.Owner D es m o := by
    rintro m o ⟨k, c, trace, htask, htrace, howns⟩
    rw [htasks] at htask
    rw [doneIn_of_none (hnote m)] at htrace
    exact ⟨k, c, trace, htask, htrace, howns⟩
  constructor
  · intro m k c htask
    rw [htasks] at htask
    obtain ⟨hallowed, hpending, es', pending, hrun, hhistory, hwaits⟩ := h.runs _ _ _ htask
    refine ⟨hallowed, hpending, es', pending, hrun, ?_, hwaits.congr fun fd w _ => ?_⟩
    · rw [doneIn_of_none (hnote m), hhistory]
    · rw [hstorage]
  · rw [hstorage, htasks]
    exact h.waiter
  · intro m hm
    rw [htasks] at hm
    rw [doneIn_of_none (hnote m), h.later m hm]
  · intro m₁ m₂ o ho₁ ho₂
    exact h.owned m₁ m₂ o (howner m₁ o ho₁) (howner m₂ o ho₂)
  · intro m o ho
    rw [htasks]
    exact h.numbered m o (howner m o ho)

/-- The tasks behind a start are the old ones, and the new one. -/
theorem startTask_cases {s' : Host A} {k' : K}
    (htasks : s'.tasks = (s.startTask k').tasks) {m : ℕ} {k : K} {c : Config (A.signature k)}
    (htask : s'.tasks[m]? = some ⟨k, c⟩) : s.tasks[m]? = some ⟨k, c⟩ ∨ m = s.tasks.length ∧
      (⟨k, c⟩ : Σ k, Config (A.signature k)) = ⟨k', .start (A.task k').code⟩ := by
  replace htasks : s'.tasks = s.tasks ++ [⟨k', .start (A.task k').code⟩] := htasks
  rw [htasks] at htask
  by_cases hm : m < s.tasks.length
  · rw [List.getElem?_append_left hm] at htask
    exact .inl htask
  · rw [List.getElem?_append_right (not_lt.mp hm)] at htask
    obtain ⟨hzero, heq⟩ := List.getElem?_eq_some_iff.mp htask
    rw [List.length_singleton] at hzero
    refine .inr ⟨by omega, ?_⟩
    rw [← heq]
    simp

/-- What a task has behind a start, it had before, or it is the new one. -/
theorem owner_of_startTask (h : s.Tasked D es) {s' : Host A} {k' : K}
    (htasks : s'.tasks = (s.startTask k').tasks) {m : ℕ} {o : O} (howner : s'.Owner D es m o) :
    s.Owner D es m o ∨ m = s.tasks.length ∧ D.Owns k' s.tasks.length [] o := by
  obtain ⟨k, c, trace, htask, htrace, howns⟩ := howner
  -- a task that was there, or the new one, which has done nothing
  obtain htask | ⟨rfl, heq⟩ := startTask_cases htasks htask
  · exact .inl ⟨k, c, trace, htask, htrace, howns⟩
  · cases heq
    rw [h.later _ le_rfl] at htrace
    obtain rfl := List.map_eq_nil_iff.mp htrace.symm
    exact .inr ⟨rfl, howns⟩

/-- A task is started. -/
theorem startTask (h : s.Tasked D es) (s' : Host A) {k' : K}
    (htasks : s'.tasks = (s.startTask k').tasks) (hstorage : s'.evStorage = s.evStorage)
    (hallowed : D.Allowed k')
    (hnew : ∀ o, D.Owns k' s.tasks.length [] o →
      D.number o = s.tasks.length ∨ D.number o < s.tasks.length ∧ ∀ m, ¬ s.Owner D es m o) :
    s'.Tasked D es := by
  have hlength : s'.tasks.length = s.tasks.length + 1 := by
    rw [htasks]
    exact List.length_append
  -- no callback is of a task that does not exist
  have hnobody : ∀ fd w, s.evStorage.handlers fd = some w → w.task ≠ s.tasks.length := by
    intro fd w hw heq
    obtain ⟨c, htask⟩ := h.waiter fd w hw
    rw [heq, List.getElem?_eq_none le_rfl] at htask
    cases htask
  -- nobody else has what the new task has
  have hfresh : ∀ m o, s.Owner D es m o → ¬ D.Owns k' s.tasks.length [] o := by
    intro m o howner howns
    obtain hnumber | ⟨-, hnone⟩ := hnew o howns
    · exact (h.numbered m o howner).ne hnumber
    · exact hnone m howner
  constructor
  · intro m k c htask
    obtain htask | ⟨rfl, heq⟩ := startTask_cases htasks htask
    · obtain ⟨hallowed', hpending, es', pending, hrun, hhistory, hwaits⟩ := h.runs m k c htask
      exact ⟨hallowed', hpending, es', pending, hrun, hhistory,
        hwaits.congr fun fd w _ => by rw [hstorage]⟩
    · cases heq
      refine ⟨hallowed, rfl, [], 0, .nil, h.later _ le_rfl, .nobody ?_⟩
      rwa [hstorage]
  · intro fd w hw
    rw [hstorage] at hw
    obtain ⟨c, htask⟩ := h.waiter fd w hw
    refine ⟨c, ?_⟩
    rw [htasks]
    exact (List.getElem?_append_left (List.getElem?_eq_some_iff.mp htask).1).trans htask
  · intro m hm
    exact h.later m (by omega)
  · intro m₁ m₂ o ho₁ ho₂
    obtain ho₁ | ⟨rfl, howns₁⟩ := h.owner_of_startTask htasks ho₁
    · obtain ho₂ | ⟨rfl, howns₂⟩ := h.owner_of_startTask htasks ho₂
      · exact h.owned m₁ m₂ o ho₁ ho₂
      · exact absurd howns₂ (hfresh m₁ o ho₁)
    · -- the new task and an old one own nothing together
      obtain ho₂ | ⟨rfl, -⟩ := h.owner_of_startTask htasks ho₂
      · exact absurd howns₁ (hfresh m₂ o ho₂)
      · rfl
  · intro m o ho
    rw [hlength]
    obtain ho | ⟨rfl, howns⟩ := h.owner_of_startTask htasks ho
    · exact Nat.lt_succ_of_lt (h.numbered m o ho)
    · obtain hnumber | ⟨hnumber, -⟩ := hnew o howns
      · omega
      · omega

/-- A task has what it has registered a handler for. -/
theorem owner_of_mem [∀ k t, IsEmpty ((A.signature k).Contract t)] (h : s.Tasked D es)
    (htask : s.tasks[n]? = some ⟨k, c⟩) {es' : List (Futures.Event (A.signature k))}
    (hrun : ProgRun (A.bodies k) (A.task k).code es' c')
    (hhistory : doneIn n es = (notes es').map (Sigma.mk k))
    {handler : Σ query : (A.signature k).Query,
      (A.signature k).Answer query → Prog (A.signature k)}
    (hmem : handler ∈ c'.pending) : s.Owner D es n (A.object k n handler.1) := by
  obtain ⟨hallowed, -⟩ := h.runs n k c htask
  obtain ⟨-, trace, hstops⟩ := (D.good k hallowed).stops_of_mem hrun hmem
  exact ⟨k, c, notes es', htask, hhistory, D.shrinks _ _ _ _ _ (D.waits _ _ _ _ hstops)⟩

/-- The effects of a task are those of its own run. -/
theorem begins_performed [∀ k t, IsEmpty ((A.signature k).Contract t)] (h : s.Tasked D es)
    (htask : s.tasks[n]? = some ⟨k, c⟩) {effect : (A.signature k).Effect}
    (hstep : Step (A.bodies k) c (.performed effect) c') : ∃ trace,
      doneIn n es = trace.map (Sigma.mk k) ∧
      Begins (A.bodies k) (A.task k) (trace ++ [.performed effect]) := by
  obtain ⟨hallowed, -, es', pending, hrun, hhistory, -⟩ := h.runs n k c htask
  have hpending := hstep.pending_eq trivial nofun
  -- the run of the task alone, with the step at its end
  have hbegins := (D.good k hallowed).begins
    (hrun.snoc (hstep.with_pending trivial hpending pending))
  rw [notes_append] at hbegins
  exact ⟨notes es', hhistory, hbegins⟩

end Host.Tasked

/-- The handler that is stored is the one that is pending. -/
theorem Host.Waits.pending_eq {pending : Multiset (Σ query : (A.signature k).Query,
      (A.signature k).Answer query → Prog (A.signature k))} (h : s.Waits n k pending) {fd : Fd}
    {query : (A.signature k).Query}
    {callback : (A.signature k).Answer query → Prog (A.signature k)}
    (hfd : s.evStorage.handlers fd = some ⟨n, k, query, callback⟩) :
    pending = {⟨query, callback⟩} ∧
      ∀ fd' w, s.evStorage.handlers fd' = some w → w.task = n → fd' = fd := by
  cases h with
  | nobody hnobody => exact absurd rfl (hnobody fd _ hfd)
  | handler hfd' honly =>
    obtain rfl := honly fd _ hfd rfl
    rw [hfd'] at hfd
    cases hfd
    exact ⟨rfl, honly⟩

/-- Without a pending handler none is stored. -/
theorem Host.Waits.nobody_of_zero {pending : Multiset (Σ query : (A.signature k).Query,
      (A.signature k).Answer query → Prog (A.signature k))} (h : s.Waits n k pending)
    (hzero : pending = 0) : ∀ fd w, s.evStorage.handlers fd = some w → w.task ≠ n := by
  cases h with
  | nobody hnobody => exact hnobody
  | handler => exact absurd hzero (Multiset.singleton_ne_zero _)

/-- The object of a callback is had by its task. -/
theorem Host.Tasked.owner_of_handler [∀ k t, IsEmpty ((A.signature k).Contract t)]
    (h : s.Tasked D es) {fd : Fd} {w : Waiter A} (hw : s.evStorage.handlers fd = some w) :
    s.Owner D es w.task w.object := by
  obtain ⟨m, k, query, callback⟩ := w
  obtain ⟨c, htask⟩ := h.waiter fd _ hw
  obtain ⟨-, -, es', pending, hrun, hhistory, hwaits⟩ := h.runs m k c htask
  -- the stored callback is the one the task waits with
  obtain ⟨rfl, -⟩ := hwaits.pending_eq hw
  have hmem : (⟨query, callback⟩ : Σ query : (A.signature k).Query,
      (A.signature k).Answer query → Prog (A.signature k)) ∈
      ({⟨query, callback⟩} : Multiset _) := Multiset.mem_singleton_self _
  exact h.owner_of_mem htask hrun hhistory hmem

/-! ## The process -/

/-- What waits in `event_buf` has a handler. -/
def Host.Due (s : Host A) (rest : List Event) : Prop :=
  (rest.map Event.fd).Nodup ∧ ∀ ev ∈ rest, s.evStorage.handlers ev.fd ≠ none

def Host.Phased (D : Discipline A) (s : Host A) : Prop :=
  match s.phase with
  | .starting rest => ∀ start ∈ rest, D.MayStart start
  | .blocking => s.Idle
  | .batch rest => s.Idle ∧ s.Due rest
  | .running rest => s.Due rest
  | .terminated => True
  | .faulted => True

structure Host.Good (D : Discipline A) (s : Host A) (es : List (HostEvent A)) : Prop where
  tables : s.Tables
  tasked : s.Tasked D es
  phased : s.Phased D

/-- No exception of the library: a registration is only refused by the kernel itself. -/
def HostEvent.Harmless : HostEvent A → Prop
  | .task _ _ .uncaught => False
  | .lost _ _ => False
  | .registered _ granted result => granted = true → result = .ok ()
  | _ => True

/-- A step in the middle of a phase keeps what it says. -/
theorem Host.Phased.active (h : s.Phased D) (hactive : s.phase.Active) (hphase : s'.phase = s.phase)
    (hmono : ∀ fd, s.evStorage.handlers fd ≠ none → s'.evStorage.handlers fd ≠ none) :
    s'.Phased D := by
  rw [Host.Phased] at h ⊢
  rw [hphase]
  cases hs : s.phase with
  | starting rest =>
    rw [hs] at h
    exact h
  -- events still to come keep their handlers
  | running rest =>
    rw [hs] at h
    exact ⟨h.1, fun ev hev => hmono _ (h.2 ev hev)⟩
  | blocking =>
    rw [hs] at hactive
    exact hactive.elim
  | batch rest =>
    rw [hs] at hactive
    exact hactive.elim
  | terminated => trivial
  | faulted => trivial

namespace Host.Good

/-- Only the phase changes. -/
theorem rephase (h : s.Good D es) {phase : HostPhase K} {e : HostEvent A}
    (hnote : ∀ m, e.note? m = none) (hphased : Host.Phased D { s with phase := phase }) :
    Host.Good D { s with phase := phase } (es ++ [e]) where
  tables := h.tables.congr rfl rfl rfl
  tasked := h.tasked.congr { s with phase := phase } rfl hnote rfl
  phased := hphased

/-- A task takes a step that registers nothing. -/
theorem ran_tasked (h : s.Good D es) (htask : s.tasks[n]? = some ⟨k, c⟩)
    {e : Futures.Event (A.signature k)} (hstep : Step (A.bodies k) c e c')
    (hinternal : e.Internal) (hpending : c'.pending = c.pending)
    (htasks : s'.tasks = s.tasks.set n ⟨k, c'⟩) (hstorage : s'.evStorage = s.evStorage) :
    s'.Tasked D (es ++ [.task n k e]) := by
  obtain ⟨hallowed, hzero, es', pending, hrun, hhistory, hwaits⟩ := h.tasked.runs n k c htask
  -- the handlers have no part in this
  have hsame : ∀ fd w, s'.evStorage.handlers fd = some w ↔ s.evStorage.handlers fd = some w := by
    intro fd w
    rw [hstorage]
  refine h.tasked.advance htask htasks (fun _ => task_note?_of_ne _) (fun fd w _ => hsame fd w)
    (fun fd w hw hn => ?_) ?_
  · obtain ⟨c₁, htask₁⟩ := h.tasked.waiter fd w ((hsame fd w).mp hw)
    rw [hn, htask] at htask₁
    cases htask₁
    rfl
  · refine ⟨hpending.trans hzero, es' ++ [e], pending,
      hrun.snoc (hstep.with_pending hinternal hpending pending), ?_,
      hwaits.congr fun fd w _ => hsame fd w⟩
    rw [doneIn_snoc, hhistory, notes_append, List.map_append]
    rw [task_note?]
    congr 1
    cases he : e.note? with
    | none => simp [notes, he]
    | some note => simp [notes, he]

section active
variable (hactive : s.phase.Active)
include hactive

/-- Only the objects and their descriptors change. -/
theorem objects (h : s.Good D es) {e : HostEvent A} (hnote : ∀ m, e.note? m = none)
    (htables : s'.Tables) (htasks : s'.tasks = s.tasks) (hstorage : s'.evStorage = s.evStorage)
    (hphase : s'.phase = s.phase) : s'.Good D (es ++ [e]) where
  tables := htables
  tasked := h.tasked.congr s' htasks hnote hstorage
  phased := h.phased.active hactive hphase fun fd hfd => by rwa [hstorage]

/-- The process goes on with it. -/
theorem ran (h : s.Good D es) (htask : s.tasks[n]? = some ⟨k, c⟩)
    {e : Futures.Event (A.signature k)} (hstep : Step (A.bodies k) c e c')
    (hinternal : e.Internal) (hpending : c'.pending = c.pending) :
    (s.setTask n k c').Good D (es ++ [.task n k e]) where
  tables := h.tables.congr rfl rfl rfl
  tasked := h.ran_tasked htask hstep hinternal hpending rfl rfl
  phased := h.phased.active hactive rfl fun _ hfd => hfd

omit hactive in
/-- A task throws, and nothing is done behind that. -/
theorem faulted (h : s.Good D es) (htask : s.tasks[n]? = some ⟨k, c⟩)
    {effect : (A.signature k).Effect} (hstep : Step (A.bodies k) c (.performed effect) c') :
    Host.Good D { s.setTask n k c' with phase := .faulted }
      (es ++ [.task n k (.performed effect)]) where
  tables := h.tables.congr rfl rfl rfl
  tasked := h.ran_tasked htask hstep trivial (hstep.pending_eq trivial fun heq => by cases heq)
    rfl rfl
  phased := trivial

/-- A task does something else beside, which may start another task. -/
theorem performed [∀ k t, IsEmpty ((A.signature k).Contract t)] (h : s.Good D es)
    (htask : s.tasks[n]? = some ⟨k, c⟩) {effect : (A.signature k).Effect}
    (hstep : Step (A.bodies k) c (.performed effect) c') {new : Option K}
    (hstarts : A.Starts k effect new) :
    ((s.setTask n k c').startTask? new).Good D (es ++ [.task n k (.performed effect)]) := by
  have hpending := hstep.pending_eq trivial nofun
  have hran := h.ran hactive htask hstep trivial hpending
  cases new with
  | none => exact hran
  | some k' =>
    refine ⟨hran.tables.congr rfl rfl rfl, ?_, hran.phased.active hactive rfl fun _ hfd => hfd⟩
    -- what the task has done so far, with the effect
    have hlength : n < s.tasks.length := (List.getElem?_eq_some_iff.mp htask).1
    have hset : (s.setTask n k c').tasks[n]? = some ⟨k, c'⟩ := List.getElem?_set_self hlength
    obtain ⟨hallowed, -⟩ := h.tasked.runs n k c htask
    obtain ⟨sofar, hhistory, hbegins⟩ := h.tasked.begins_performed htask hstep
    have hhistory' : doneIn n (es ++ [.task n k (.performed effect)]) =
        (sofar ++ [Note.performed effect]).map (Sigma.mk k) := by
      rw [doneIn_snoc, task_note?, hhistory, List.map_append]
      rfl
    obtain ⟨hallowed', hinherits⟩ := D.inherits k n sofar effect k' hallowed hstarts hbegins
    -- an object of the new task is new, or this task had it and has given it up
    have hsize : (s.setTask n k c').tasks.length = s.tasks.length := List.length_set
    refine hran.tasked.startTask _ rfl rfl hallowed' fun o howns => ?_
    obtain hnumber | ⟨hbefore, hgone⟩ := hinherits _ o howns
    · exact .inl hnumber
    · have howner : s.Owner D es n o := ⟨k, c, _, htask, hhistory, hbefore⟩
      rw [hsize]
      refine .inr ⟨h.tasked.numbered n o howner, fun m howner' => ?_⟩
      have htasks : (s.setTask n k c').tasks = s.tasks.set n ⟨k, c'⟩ := rfl
      have hold := h.tasked.owner_of_advance htask htasks (fun _ => task_note?_of_ne _) howner'
      obtain rfl := h.tasked.owned _ _ _ hold howner
      obtain ⟨k₁, c₁, trace, htask₁, htrace, howns₁⟩ := howner'
      rw [hset] at htask₁
      cases htask₁
      rw [hhistory'] at htrace
      rw [trace_eq htrace] at hgone
      exact hgone howns₁

omit hactive in
/-- A task that registers a handler waits for nothing, and nobody else for its object. -/
theorem unheld_of_register [∀ k t, IsEmpty ((A.signature k).Contract t)] (h : s.Good D es)
    (htask : s.tasks[n]? = some ⟨k, c⟩) {fd : Fd}
    {stack : List (Frame (A.signature k))} {rest : Multiset (List (Frame (A.signature k)))}
    {query : (A.signature k).Query}
    {callback : (A.signature k).Answer query → Prog (A.signature k)} {next : Prog (A.signature k)}
    (hthread : c.threads = (.code (.register query callback next) :: stack) ::ₘ rest)
    (hfd : s.fds (A.object k n query) = some fd) :
    s.evStorage.handlers fd = none ∧
      (∀ x w, s.evStorage.handlers x = some w → w.task ≠ n) ∧ c.pending = 0 ∧
      ∃ es', ProgRun (A.bodies k) (A.task k).code es'
          { c with threads := (.code next :: stack) ::ₘ rest, pending := {⟨query, callback⟩} } ∧
        doneIn n es = (notes es').map (Sigma.mk k) := by
  obtain ⟨hallowed, hzero, es', pending, hrun, hhistory, hwaits⟩ := h.tasked.runs n k c htask
  obtain rfl : pending = 0 := (D.good k hallowed).pending_of_register hrun hthread
  have hnobody := hwaits.nobody_of_zero rfl
  have hafter := hrun.snoc (.register hthread)
  have hhistory' : doneIn n es = (notes (es' ++ [Futures.Event.silent])).map (Sigma.mk k) := by
    rw [notes_append_silent, hhistory]
  refine ⟨?_, hnobody, hzero, _, hafter, hhistory'⟩
  -- the object is its own
  have hmem : (⟨query, callback⟩ : Σ query : (A.signature k).Query,
      (A.signature k).Answer query → Prog (A.signature k)) ∈ ⟨query, callback⟩ ::ₘ 0 :=
    Multiset.mem_cons_self _ _
  have howner := h.tasked.owner_of_mem htask hafter hhistory' hmem
  cases hw : s.evStorage.handlers fd with
  | none => rfl
  | some w =>
    have hobject := h.tables.distinct _ _ _ (h.tables.waiter _ _ hw) hfd
    have howner' := h.tasked.owner_of_handler hw
    rw [hobject] at howner'
    exact absurd (h.tasked.owned _ _ _ howner' howner) (hnobody fd w hw)

/-- A registration: only the kernel may refuse it. -/
theorem registered [∀ k t, IsEmpty ((A.signature k).Contract t)] (h : s.Good D es)
    (htask : s.tasks[n]? = some ⟨k, c⟩) {fd : Fd}
    {stack : List (Frame (A.signature k))} {rest : Multiset (List (Frame (A.signature k)))}
    {query : (A.signature k).Query}
    {callback : (A.signature k).Answer query → Prog (A.signature k)} {next : Prog (A.signature k)}
    (granted : Bool)
    (hthread : c.threads = (.code (.register query callback next) :: stack) ::ₘ rest)
    (hfd : s.fds (A.object k n query) = some fd) {result : Except LogicError Unit × Host A}
    (hresult : result = s.addHandlerForEvent (.ofFd fd (A.eventType k query))
      ⟨n, k, query, callback⟩ { c with threads := (.code next :: stack) ::ₘ rest } granted) :
    result.2.Good D (es ++ [.registered ⟨n, k, query, callback⟩ granted result.1]) ∧
      (granted = true → result.1 = .ok ()) := by
  obtain ⟨hnone, hnobody, hzero, es', hafter, hhistory⟩ := h.unheld_of_register htask hthread hfd
  have hevent : (Event.ofFd fd (A.eventType k query)).fd = fd := Event.fd_ofFd _ _
  have hopened := h.tables.opened _ _ hfd
  obtain ⟨hrefused, hadd⟩ | ⟨f, hfile, -, hadd⟩ := h.tables.addHandlerForEvent_cases
    (.ofFd fd (A.eventType k query)) ⟨n, k, query, callback⟩
    { c with threads := (.code next :: stack) ::ₘ rest } granted (by rwa [hevent])
  · -- refused: by the kernel, as nobody waits for the object
    rw [hadd] at hresult
    subst hresult
    rw [hevent, hnone] at hrefused
    refine ⟨h.rephase (fun _ => rfl) trivial, fun hgranted => ?_⟩
    rw [hgranted] at hrefused
    simp at hrefused
  · rw [hevent] at hfile hadd
    rw [hadd] at hresult
    subst hresult
    -- the task waits for nothing else
    have honly : ∀ x w, s.evStorage.handlers x = some w → w.task = n → x = fd :=
      fun x w hx hw => absurd hw (hnobody x w hx)
    refine ⟨⟨?_, ?_, ?_⟩, fun _ => rfl⟩
    · exact h.tables.add (w := ⟨n, k, query, callback⟩) hfile hfd rfl rfl rfl
    · refine h.tasked.advance_update htask rfl (fun _ _ => rfl) rfl (fun w hw => ?_) honly
        (fun w hw => ?_) ⟨hzero, es', _, hafter, ?_, .handler (Function.update_self ..) ?_⟩
      · rw [hnone] at hw
        cases hw
      · cases hw
        exact ⟨rfl, rfl⟩
      · rw [doneIn_of_none rfl, hhistory]
      · exact fun x w hx hw => (own_of_update rfl honly hx hw).1
    · refine h.phased.active hactive rfl fun x hx => ?_
      show Function.update s.evStorage.handlers fd _ x ≠ none
      rw [Function.update_apply]
      split
      · simp
      · exact hx

end active

/-- What `_listener.block` has returned is in both tables. -/
theorem due_of_batch (h : s.Good D es) {rest : List Event} (hphase : s.phase = .batch rest) :
    s.Idle ∧ s.Due rest := by
  have hphased := h.phased
  rw [Host.Phased, hphase] at hphased
  exact hphased

/-- `del_event` and `get_handler` find the handler. -/
theorem takeHandler_eq (h : s.Good D es) {ev : Event} {rest : List Event}
    (hphase : s.phase = .batch (ev :: rest)) : ∃ f w, s.kernel.files ev.fd = some f ∧
      s.evStorage.handlers ev.fd = some w ∧
      s.takeHandler ev = (.ok w, { s with
        kernel := { s.kernel with epoll := s.kernel.epoll.erase (ev.fd, f) }
        evStorage := { handlers := Function.update s.evStorage.handlers ev.fd none } }) := by
  obtain ⟨-, -, hdue⟩ := h.due_of_batch hphase
  obtain ⟨w, hw⟩ := Option.ne_none_iff_exists'.mp (hdue ev List.mem_cons_self)
  obtain ⟨f, hfile, htake⟩ := h.tables.takeHandler_eq hw
  exact ⟨f, w, hfile, hw, htake⟩

/-- The handler is called. -/
theorem answered (h : s.Good D es) {ev : Event} {rest : List Event} {w : Waiter A}
    {c : Config (A.signature w.kind)} (answer : (A.signature w.kind).Answer w.query)
    (hphase : s.phase = .batch (ev :: rest)) (htake : s.takeHandler ev = (.ok w, s'))
    (htask : s.tasks[w.task]? = some ⟨w.kind, c⟩) :
    Host.Good D { s'.setTask w.task w.kind
        { c with threads := [.code (w.callback answer)] ::ₘ c.threads } with
      phase := .running rest } (es ++ [.task w.task w.kind (.answered w.query answer)]) := by
  obtain ⟨-, hdistinct, hdue⟩ := h.due_of_batch hphase
  obtain ⟨f, w', hfile, hw, heq⟩ := h.takeHandler_eq hphase
  rw [htake] at heq
  cases heq
  obtain ⟨n, k, query, callback⟩ := w
  obtain ⟨-, hzero, es', pending, hrun, hhistory, hwaits⟩ := h.tasked.runs n k c htask
  obtain ⟨rfl, honly⟩ := hwaits.pending_eq hw
  refine ⟨h.tables.take hfile rfl rfl rfl, ?_, ?_⟩
  · refine h.tasked.advance_update htask rfl (fun _ => task_note?_of_ne _) rfl (fun w hw' => ?_)
      honly (fun w heq => by cases heq)
      ⟨hzero, es' ++ [.answered query answer], 0, hrun.snoc (.answer answer rfl), ?_,
        .nobody fun x w hx hn => ?_⟩
    · rw [hw] at hw'
      cases hw'
      rfl
    · rw [doneIn_snoc, task_note?, hhistory, notes_append, List.map_append]
      rfl
    · cases (own_of_update rfl honly hx hn).2
  · -- the other events of the batch have other descriptors
    rw [List.map_cons, List.nodup_cons] at hdistinct
    refine ⟨hdistinct.2, fun ev' hev' => ?_⟩
    have hne : ev'.fd ≠ ev.fd := fun heq => hdistinct.1 (heq ▸ List.mem_map_of_mem hev')
    show Function.update s.evStorage.handlers ev.fd none ev'.fd ≠ none
    rw [Function.update_of_ne hne]
    exact hdue ev' (List.mem_cons_of_mem _ hev')

/-- `async_main` starts a task. -/
theorem started (h : s.Good D es) {start : ℕ → K} {rest : List (ℕ → K)}
    (hphase : s.phase = .starting (start :: rest)) :
    Host.Good D { s.startTask (start s.tasks.length) with phase := .starting rest }
      (es ++ [.started (start s.tasks.length)]) := by
  have hphased := h.phased
  rw [Host.Phased, hphase] at hphased
  obtain ⟨hallowed, hfresh⟩ := hphased start List.mem_cons_self s.tasks.length
  have hquiet := h.tasked.congr s rfl (e := .started (start s.tasks.length)) (fun _ => rfl) rfl
  exact {
    tables := h.tables.congr rfl rfl rfl
    tasked := hquiet.startTask _ rfl rfl hallowed fun o howns => .inl (hfresh o howns)
    phased := fun start' hstart' => hphased start' (List.mem_cons_of_mem _ hstart') }

end Host.Good

/-- `main` starts in a good state. -/
theorem Host.good_start (inherited : Finset Fd) {tasks : List (ℕ → K)}
    (htasks : ∀ start ∈ tasks, D.MayStart start) : (Host.start A inherited tasks).Good D [] where
  tables := {
    epoll := fun fd f => iff_of_false (Finset.notMem_empty _) fun hboth => hboth.2 rfl
    opened := nofun
    distinct := nofun
    waiter := nofun }
  tasked := {
    runs := nofun
    waiter := nofun
    later := fun _ _ => rfl
    owned := by
      -- no task was started, so nothing is owned
      rintro n m o ⟨k, c, trace, htask, -⟩
      cases htask
    numbered := by
      rintro n o ⟨k, c, trace, htask, -⟩
      cases htask }
  phased := htasks

variable [DecidableEq O] [∀ k t, IsEmpty ((A.signature k).Contract t)]

/-- Each step keeps the invariant, and is harmless. -/
theorem HostStep.good {e : HostEvent A} (h : HostStep s e s') (hs : s.Good D es) :
    s'.Good D (es ++ [e]) ∧ e.Harmless := by
  cases h with
  | started hphase => exact ⟨hs.started hphase, trivial⟩
  | silent hactive htask hstep hpending =>
    exact ⟨hs.ran hactive htask hstep trivial hpending, trivial⟩
  | performed hactive htask hstep _ hstarts =>
    exact ⟨hs.performed hactive htask hstep hstarts, trivial⟩
  | faulted _ htask hstep => exact ⟨hs.faulted htask hstep, trivial⟩
  | uncaught hactive htask hstep =>
    -- the task by itself is never left by an exception
    obtain ⟨hallowed, -, es', pending, hrun, -⟩ := hs.tasked.runs _ _ _ htask
    have hpending := hstep.pending_eq trivial nofun
    have hafter := hrun.snoc (hstep.with_pending trivial hpending pending)
    exact absurd (by simp) ((D.good _ hallowed).not_uncaught hafter)
  | registered granted hactive htask hthread hfd =>
    exact hs.registered hactive htask granted hthread hfd rfl
  | opened hactive ho hfree =>
    exact ⟨hs.objects hactive (fun _ => rfl) (hs.tables.openObject ho hfree) rfl rfl rfl, trivial⟩
  | closed hactive ho hunheld =>
    exact ⟨hs.objects hactive (fun _ => rfl) (hs.tables.closeObject ho hunheld) rfl rfl rfl, trivial⟩
  | abandoned hactive hfree =>
    exact ⟨hs.objects hactive (fun _ => rfl) (hs.tables.openFd hfree) rfl rfl rfl, trivial⟩
  | entered hphase hidle => exact ⟨hs.rephase (fun _ => rfl) hidle, trivial⟩
  | block events hphase hregistered hdistinct =>
    have hidle : s.Idle := by
      have hphased := hs.phased
      rwa [Host.Phased, hphase] at hphased
    refine ⟨hs.rephase (fun _ => rfl) ⟨hidle, hdistinct, fun ev hev => ?_⟩, trivial⟩
    obtain ⟨f, hmem⟩ := hregistered ev hev
    exact ((hs.tables.epoll _ f).mp hmem).2
  | answered answer hphase htake htask => exact ⟨hs.answered answer hphase htake htask, trivial⟩
  | lost hphase htake =>
    -- what has come is still registered
    obtain ⟨f, w, -, -, hfound⟩ := hs.takeHandler_eq hphase
    rw [htake] at hfound
    cases hfound
  | @returned rest hphase hidle =>
    have hphased := hs.phased
    rw [Host.Phased, hphase] at hphased
    exact ⟨hs.rephase (fun _ => rfl) ⟨hidle, hphased⟩, trivial⟩
  | batchDone hphase => exact ⟨hs.rephase (fun _ => rfl) (hs.due_of_batch hphase).1, trivial⟩

/-! ## The end of the process -/

/-- A task has thrown. -/
def HostEvent.faults : HostEvent A → Bool
  | .task _ k (.performed effect) => A.Faults k effect
  | _ => false

omit [∀ k t, IsEmpty ((A.signature k).Contract t)] in
/-- The process ends with that step, and takes none behind it. -/
theorem HostStep.faulted_iff {e : HostEvent A} (h : HostStep s e s') :
    s.phase ≠ .faulted ∧ (s'.phase = .faulted ↔ e.faults = true) := by
  have hactive : s.phase.Active → s.phase ≠ .faulted := by
    intro hactive heq
    rw [heq] at hactive
    exact hactive.elim
  cases h with
  | silent h => exact ⟨hactive h, iff_of_false (hactive h) Bool.false_ne_true⟩
  | @performed n k c c' new effect h htask hstep hfaults =>
    -- to start a task leaves the phase as it is
    have hphase : ((s.setTask n k c').startTask? new).phase = s.phase := by
      cases new <;> rfl
    refine ⟨hactive h, iff_of_false (hphase ▸ hactive h) fun heq => ?_⟩
    cases hfaults.symm.trans heq
  | faulted h _ _ hfaults => exact ⟨hactive h, iff_of_true rfl hfaults⟩
  | uncaught h => exact ⟨hactive h, iff_of_false (fun heq => by cases heq) Bool.false_ne_true⟩
  | registered granted h =>
    refine ⟨hactive h, iff_of_false ?_ Bool.false_ne_true⟩
    rw [Host.addHandlerForEvent]
    -- a registration that is refused terminates, which is another phase
    split
    · exact fun heq => by cases heq
    · exact hactive h
  | opened h => exact ⟨hactive h, iff_of_false (hactive h) Bool.false_ne_true⟩
  | closed h => exact ⟨hactive h, iff_of_false (hactive h) Bool.false_ne_true⟩
  | abandoned h => exact ⟨hactive h, iff_of_false (hactive h) Bool.false_ne_true⟩
  | started hphase => simp [hphase, HostEvent.faults]
  | entered hphase => simp [hphase, HostEvent.faults]
  | block events hphase => simp [hphase, HostEvent.faults]
  | answered answer hphase => simp [hphase, HostEvent.faults]
  | lost hphase => simp [hphase, HostEvent.faults]
  | returned hphase => simp [hphase, HostEvent.faults]
  | batchDone hphase => simp [hphase, HostEvent.faults]

omit [∀ k t, IsEmpty ((A.signature k).Contract t)] in
/-- As long as the process has not ended, no task has thrown. -/
theorem HostRun.not_faults {inherited : Finset Fd} {tasks : List (ℕ → K)}
    (hrun : HostRun A inherited tasks es s) (hphase : s.phase ≠ .faulted) :
    ∀ e ∈ es, e.faults = false := by
  refine hrun.history (P := fun es s => s.phase ≠ .faulted → ∀ e ∈ es, e.faults = false)
    (fun _ => by simp) ?_ hphase
  intro es s e s' hpre hstep hphase' e' he'
  -- a loop that is not broken was not broken before
  obtain ⟨hbefore, hiff⟩ := hstep.faulted_iff
  obtain he' | he' := List.mem_append.mp he'
  · exact hpre hbefore e' he'
  · rw [List.mem_singleton.mp he']
    exact Bool.eq_false_of_not_eq_true fun hfaults => hphase' (hiff.mpr hfaults)

omit [∀ k t, IsEmpty ((A.signature k).Contract t)] in
/-- It ends with the first exception. -/
theorem HostRun.exists_fault {inherited : Finset Fd} {tasks : List (ℕ → K)}
    (hrun : HostRun A inherited tasks es s) (hphase : s.phase = .faulted) : ∃ pre e s₀,
      es = pre ++ [e] ∧ HostRun A inherited tasks pre s₀ ∧ HostStep s₀ e s ∧ e.faults = true ∧
        ∀ e ∈ pre, e.faults = false := by
  cases hrun with
  | nil => cases hphase
  | snoc hpre hstep =>
    obtain ⟨hbefore, hiff⟩ := hstep.faulted_iff
    exact ⟨_, _, _, rfl, hpre, hstep, hiff.mp hphase, HostRun.not_faults hpre hbefore⟩

/-! ## Every state of a run -/

/-- What holds in every state of a run, and what is never thrown in it. -/
theorem HostRun.good {inherited : Finset Fd} {tasks : List (ℕ → K)}
    (htasks : ∀ start ∈ tasks, D.MayStart start) (hrun : HostRun A inherited tasks es s) :
    s.Good D es ∧ ∀ e ∈ es, e.Harmless := by
  refine hrun.history (P := fun es s => s.Good D es ∧ ∀ e ∈ es, e.Harmless)
    ⟨Host.good_start inherited htasks, by simp⟩ ?_
  rintro es s e s' ⟨hs, hharmless⟩ hstep
  obtain ⟨hs', he⟩ := hstep.good hs
  refine ⟨hs', fun e' he' => ?_⟩
  obtain he' | he' := List.mem_append.mp he'
  · exact hharmless e' he'
  · rwa [List.mem_singleton.mp he']

end Io

end Webserv
