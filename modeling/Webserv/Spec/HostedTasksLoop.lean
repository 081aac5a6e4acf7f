import Webserv.Spec.EventLoopCorrect
import Webserv.Spec.HostedTasksCorrect

/-!
# The process and its event loop

The event loop of the process is `ExecutionContext::loop`, whatever the handlers
are: what is registered and called in a run of the process is registered and
called in a run of the loop.

## Key results

- `HostStep.loops`: a step of the process is a step of the loop, or none
- `HostRun.loops`: the handlers of a whole run
- `Host.Loops.called_or_stored`: no handler is lost
-/

namespace Webserv.Io

open Futures Transition

variable {K O : Type} {A : Application K O}

/-- The handler a step has registered. -/
def HostEvent.waiter? : HostEvent A → Option (Waiter A)
  | .registered w _ (.ok ()) => some w
  | _ => none

/-- The accepted registrations, in order. -/
def waiters (es : List (HostEvent A)) : List (Waiter A) := es.filterMap HostEvent.waiter?

/-- Those who wait in a run that goes on. -/
theorem waiters_snoc (es : List (HostEvent A)) (e : HostEvent A) :
    waiters (es ++ [e]) = waiters es ++ e.waiter?.toList := by
  cases h : e.waiter? <;> simp [waiters, h]

/-- The task a handler belongs to, and what it was registered with. -/
def Waiter.call (w : Waiter A) : Σ k : K, ℕ × (A.signature k).Query := ⟨w.kind, w.task, w.query⟩

/-- The handler a step has called. -/
def HostEvent.call? : HostEvent A → Option (Σ k : K, ℕ × (A.signature k).Query)
  | .task n k (.answered query _) => some ⟨k, n, query⟩
  | _ => none

/-- The calls of handlers, in order. -/
def handled (es : List (HostEvent A)) : List (Σ k : K, ℕ × (A.signature k).Query) :=
  es.filterMap HostEvent.call?

/-- Those who were called in a run that goes on. -/
theorem handled_snoc (es : List (HostEvent A)) (e : HostEvent A) :
    handled (es ++ [e]) = handled es ++ e.call?.toList := by
  cases h : e.call? <;> simp [handled, h]

/-- A handler that was answered in a task was called. -/
theorem mem_handled {es : List (HostEvent A)} {n : ℕ} {k : K} {query : (A.signature k).Query}
    {answer : (A.signature k).Answer query} (h : ⟨k, .answered query answer⟩ ∈ doneIn n es) :
    ⟨k, n, query⟩ ∈ handled es := by
  obtain ⟨e, he, hnote⟩ := List.mem_filterMap.mp h
  refine List.mem_filterMap.mpr ⟨e, he, ?_⟩
  -- of what a task notes only an answer comes from a handler
  cases e with
  | task m k' e =>
    rw [HostEvent.note?] at hnote
    split at hnote
    · rename_i hm
      obtain ⟨note, hnote, heq⟩ := Option.map_eq_some_iff.mp hnote
      cases heq
      subst hm
      cases e with
      | answered => cases hnote; rfl
      | _ => cases hnote
    · cases hnote
  | _ => cases hnote

/-- Another event of the loop invokes nobody. -/
theorem invocations_of_none {les : List LoopEvent} {le : LoopEvent} (h : le.invokes = none) :
    invocations (les ++ [le]) = invocations les := by
  rw [invocations_snoc, h, Option.toList_none, List.append_nil]

/-- Where the loop stands, when the thread of the process stands there. -/
def HostPhase.Matches : HostPhase K → LoopPhase → Prop
  | .starting _, p => p = .blocking
  | .blocking, p => p = .blocking
  | .batch rest, p => p = .batch rest
  | .running rest, p => ∃ handler, p = .running handler rest
  -- the loop is left
  | .terminated, _ => True
  | .faulted, _ => True

/-- The process as the loop sees it: a handler is the number of its registration. -/
structure Host.Loops (s : Host A) (es : List (HostEvent A)) (les : List LoopEvent) (t : LoopState) :
    Prop where
  run : LoopRun les t
  registered : ∀ fd, fd ∈ t.ctx.listener.registered ↔ ∃ f, (fd, f) ∈ s.kernel.epoll
  stored : ∀ fd, s.evStorage.handlers fd =
    (t.ctx.evStorage.handlers fd).bind fun handler => (waiters es)[handler]?
  accepted : t.accepted = (waiters es).length
  called : handled es =
    (invocations les).filterMap fun p => (waiters es)[p.1]?.map Waiter.call
  phase : s.phase.Matches t.phase

namespace Host.Loops

variable {s s' : Host A} {es : List (HostEvent A)} {e : HostEvent A} {les : List LoopEvent}
  {t : LoopState}

/-- A handler that is known has been registered. -/
theorem lt_of_stored (h : s.Loops es les t) {fd : Fd} {handler : ℕ}
    (hhandler : t.ctx.evStorage.handlers fd = some handler) : handler < (waiters es).length := by
  have haccounted := h.run.accounted
  rw [← h.accepted]
  exact haccounted.lt_accepted (haccounted.stored fd handler hhandler).1

/-- The handlers that were invoked have been accepted. -/
theorem lt_of_invoked (h : s.Loops es les t) {p : ℕ × Fd} (hp : p ∈ invocations les) :
    p.1 < (waiters es).length := by
  have haccounted := h.run.accounted
  rw [← h.accepted]
  exact haccounted.lt_accepted (haccounted.invoked p hp)

/-- A handler that is stored has a number in the loop. -/
theorem exists_handler (h : s.Loops es les t) {fd : Fd} {w : Waiter A}
    (hw : s.evStorage.handlers fd = some w) : ∃ handler,
      t.ctx.evStorage.handlers fd = some handler ∧ (waiters es)[handler]? = some w := by
  rw [h.stored] at hw
  exact Option.bind_eq_some_iff.mp hw

/-- No handler is registered or called. -/
theorem quiet {les' : List LoopEvent} {t' : LoopState} (h : s.Loops es les t)
    (hepoll : s'.kernel.epoll = s.kernel.epoll) (hstorage : s'.evStorage = s.evStorage)
    (hwaiter : e.waiter? = none) (hcall : e.call? = none) (hrun : LoopRun les' t')
    (hctx : t'.ctx = t.ctx) (haccepted : t'.accepted = t.accepted)
    (hinvocations : invocations les' = invocations les) (hphase : s'.phase.Matches t'.phase) :
    s'.Loops (es ++ [e]) les' t' := by
  have hwaiters : waiters (es ++ [e]) = waiters es := by
    rw [waiters_snoc, hwaiter, Option.toList_none, List.append_nil]
  exact {
    run := hrun
    registered := fun fd => by rw [hctx, hepoll, h.registered]
    stored := fun fd => by rw [hctx, hstorage, hwaiters, h.stored]
    accepted := by rw [haccepted, hwaiters, h.accepted]
    -- nothing was called, so the numbers are those before
    called := by
      rw [handled_snoc, hcall, Option.toList_none, List.append_nil, hwaiters, hinvocations, h.called]
    phase := hphase }

/-- A handler is registered. -/
theorem registered_ok (h : s.Loops es les t) {event : Event} {f : File} {w : Waiter A}
    (hnone : s.evStorage.handlers event.fd = none)
    (hepoll : s'.kernel.epoll = insert (event.fd, f) s.kernel.epoll)
    (hstorage : s'.evStorage.handlers = Function.update s.evStorage.handlers event.fd (some w))
    (hwaiter : e.waiter? = some w) (hcall : e.call? = none) (hphase : s'.phase = s.phase) :
    ∃ les' t', s'.Loops (es ++ [e]) les' t' := by
  -- the loop has nothing there either
  have hfree : t.ctx.evStorage.handlers event.fd = none := by
    cases hhandler : t.ctx.evStorage.handlers event.fd with
    | none => rfl
    | some handler =>
      have hstored := h.stored event.fd
      rw [hnone, hhandler, Option.bind_some,
        List.getElem?_eq_getElem (h.lt_of_stored hhandler)] at hstored
      cases hstored
  have hnew : event.fd ∉ t.ctx.listener.registered := by
    rw [h.run.accounted.good.tables, hfree]
    exact Bool.false_ne_true
  -- so the loop accepts it
  have hadd : t.ctx.addHandlerForEvent event t.accepted true = (.ok (), {
      listener := { registered := insert event.fd t.ctx.listener.registered }
      evStorage := t.ctx.evStorage.setHandler event t.accepted }) := by
    have hor : ¬ (event.fd ∈ t.ctx.listener.registered ∨ true = false) := fun hor =>
      hor.elim hnew Bool.noConfusion
    simp only [ExecutionContext.addHandlerForEvent, Listener.addEvent, if_neg hor]
  have hstep : LoopStep t (.add event t.accepted (.ok ())) { t with
      ctx := {
        listener := { registered := insert event.fd t.ctx.listener.registered }
        evStorage := t.ctx.evStorage.setHandler event t.accepted }
      accepted := t.accepted + 1 } := by
    have hadded := LoopStep.add (s := t) event true
    rw [hadd] at hadded
    exact hadded
  have hwaiters : waiters (es ++ [e]) = waiters es ++ [w] := by
    rw [waiters_snoc, hwaiter, Option.toList_some]
  have hinvocations : invocations (les ++ [.add event t.accepted (.ok ())]) = invocations les :=
    invocations_of_none rfl
  refine ⟨_, _, h.run.snoc hstep, fun fd => ?_, fun fd => ?_, ?_, ?_, ?_⟩
  · -- what is registered
    show fd ∈ insert event.fd t.ctx.listener.registered ↔ _
    rw [Finset.mem_insert, h.registered, hepoll]
    simp only [Finset.mem_insert, Prod.mk.injEq, exists_or]
    exact or_congr_left ⟨fun hfd => ⟨f, hfd, rfl⟩, fun hmem => hmem.elim fun _ hboth => hboth.1⟩
  · -- the new handler has the next number, and the others keep theirs
    show _ = (Function.update t.ctx.evStorage.handlers event.fd (some t.accepted) fd).bind _
    rw [hstorage, hwaiters, Function.update_apply, Function.update_apply]
    split
    · rw [Option.bind_some, h.accepted, List.getElem?_concat_length]
    · rw [h.stored]
      cases hhandler : t.ctx.evStorage.handlers fd with
      | none => rfl
      | some handler =>
        rw [Option.bind_some, Option.bind_some,
          List.getElem?_append_left (h.lt_of_stored hhandler)]
  · rw [hwaiters, List.length_append, List.length_singleton, ← h.accepted]
  · rw [handled_snoc, hcall, Option.toList_none, List.append_nil, h.called, hwaiters, hinvocations]
    -- what was invoked before has smaller numbers
    refine List.filterMap_congr fun p hp => ?_
    rw [List.getElem?_append_left (h.lt_of_invoked hp)]
  · rw [hphase]
    exact h.phase

/-- A handler is called. -/
theorem answered (h : s.Loops es les t) {ev : Event} {rest : List Event} {f : File} {w : Waiter A}
    (hbatch : s.phase = .batch (ev :: rest)) (hw : s.evStorage.handlers ev.fd = some w)
    (hfile : ∀ f', (ev.fd, f') ∈ s.kernel.epoll ↔ f' = f)
    (hepoll : s'.kernel.epoll = s.kernel.epoll.erase (ev.fd, f))
    (hstorage : s'.evStorage.handlers = Function.update s.evStorage.handlers ev.fd none)
    (hwaiter : e.waiter? = none) (hcall : e.call? = some w.call)
    (hphase : s'.phase = .running rest) : ∃ les' t', s'.Loops (es ++ [e]) les' t' := by
  obtain ⟨handler, hhandler, hget⟩ := h.exists_handler hw
  have hmem : ev.fd ∈ t.ctx.listener.registered :=
    (h.registered _).mpr ⟨f, (hfile f).mpr rfl⟩
  obtain ⟨handler', hhandler', htake⟩ := takeHandler_of_consistent h.run.accounted.good.tables hmem
  obtain rfl := Option.some.inj (hhandler.symm.trans hhandler')
  -- the loop is at the same event
  have hturn : t.phase = .batch (ev :: rest) := by
    have hmatches := h.phase
    rw [hbatch] at hmatches
    exact hmatches
  have hstep := LoopStep.take hturn
  rw [htake] at hstep
  have hwaiters : waiters (es ++ [e]) = waiters es := by
    rw [waiters_snoc, hwaiter, Option.toList_none, List.append_nil]
  refine ⟨_, _, h.run.snoc hstep, fun fd => ?_, fun fd => ?_, ?_, ?_, ?_⟩
  · show fd ∈ t.ctx.listener.registered.erase ev.fd ↔ _
    rw [Finset.mem_erase, h.registered, hepoll]
    simp only [Finset.mem_erase, ne_eq, Prod.mk.injEq]
    by_cases hfd : fd = ev.fd
    · subst hfd
      refine iff_of_false (fun hne => hne.1 rfl) ?_
      rintro ⟨f', hne, hmem'⟩
      exact hne ⟨rfl, (hfile f').mp hmem'⟩
    · simp [hfd]
  · show _ = (Function.update t.ctx.evStorage.handlers ev.fd none fd).bind _
    rw [hstorage, hwaiters, Function.update_apply, Function.update_apply]
    split
    · rfl
    · exact h.stored fd
  · rw [hwaiters]
    exact h.accepted
  · rw [handled_snoc, hcall, h.called, hwaiters, invocations_snoc, List.filterMap_append]
    -- the number stands for the handler that was taken
    show _ = _ ++ List.filterMap _ [(handler, ev.fd)]
    simp [hget]
  · rw [hphase]
    exact ⟨handler, rfl⟩

end Host.Loops

section runs
variable [DecidableEq O] [∀ k t, IsEmpty ((A.signature k).Contract t)] {D : Discipline A}
  {s s' : Host A} {es : List (HostEvent A)} {e : HostEvent A} {les : List LoopEvent} {t : LoopState}

omit [∀ k t, IsEmpty ((A.signature k).Contract t)] in
/-- A destructor leaves the interest list alone. -/
theorem closeObject_epoll (s : Host A) (o : O) (fd : Fd) :
    (s.closeObject o fd).kernel.epoll = s.kernel.epoll := by
  rw [Host.closeObject]
  dsimp only
  split
  · rfl
  · rfl

omit [DecidableEq O] [∀ k t, IsEmpty ((A.signature k).Contract t)] in
/-- A handler that was called is one the loop has invoked. -/
theorem Host.Loops.exists_invocation (h : s.Loops es les t)
    {call : Σ k : K, ℕ × (A.signature k).Query} (hcall : call ∈ handled es) :
    ∃ p ∈ invocations les, (waiters es)[p.1]?.map Waiter.call = some call := by
  rw [h.called] at hcall
  exact List.mem_filterMap.mp hcall

omit [DecidableEq O] [∀ k t, IsEmpty ((A.signature k).Contract t)] in
/-- A handler that was registered was called, or is still in the storage. -/
theorem Host.Loops.called_or_stored (h : s.Loops es les t) {i : ℕ} {w : Waiter A}
    (hi : (waiters es)[i]? = some w) : (∃ fd, (i, fd) ∈ invocations les) ∨
      (∃ fd, s.evStorage.handlers fd = some w) ∧ ∀ fd, (i, fd) ∉ invocations les := by
  have haccounted := h.run.accounted
  have hlt : i < t.accepted := by
    rw [h.accepted]
    exact (List.getElem?_eq_some_iff.mp hi).1
  have hmem : i ∈ (registrations les).map Prod.fst := by
    rw [haccounted.numbers]
    exact List.mem_range.mpr hlt
  obtain ⟨⟨_, fd⟩, hregistered, rfl⟩ := List.mem_map.mp hmem
  obtain hinvoked | hstored := haccounted.complete _ fd hregistered
  · exact .inl ⟨fd, hinvoked⟩
  · refine .inr ⟨⟨fd, ?_⟩, (haccounted.stored fd _ hstored).2⟩
    rw [h.stored, hstored, Option.bind_some, hi]

/-- A step of the process is a step of the loop, or none. -/
theorem HostStep.loops (hstep : HostStep s e s') (hs : s.Good D es) (h : s.Loops es les t) :
    ∃ les' t', s'.Loops (es ++ [e]) les' t' := by
  have hharmless := (hstep.good hs).2
  have hmatches := h.phase
  cases hstep with
  | started hphase =>
    rw [hphase] at hmatches
    refine ⟨les, t, ?_⟩
    exact h.quiet rfl rfl rfl rfl h.run rfl rfl rfl hmatches
  | silent =>
    refine ⟨les, t, ?_⟩
    exact h.quiet rfl rfl rfl rfl h.run rfl rfl rfl hmatches
  | @performed n k c c' new =>
    cases new with
    | none =>
      refine ⟨les, t, ?_⟩
      exact h.quiet rfl rfl rfl rfl h.run rfl rfl rfl hmatches
    | some k' =>
      refine ⟨les, t, ?_⟩
      exact h.quiet rfl rfl rfl rfl h.run rfl rfl rfl hmatches
  | faulted =>
    refine ⟨les, t, ?_⟩
    exact h.quiet rfl rfl rfl rfl h.run rfl rfl rfl trivial
  -- no exception leaves a task
  | uncaught => exact hharmless.elim
  | @registered n k c fd stack rest query callback next granted hactive htask hthread hfd =>
    have hevent : (Event.ofFd fd (A.eventType k query)).fd = fd := Event.fd_ofFd _ _
    obtain ⟨-, hadd⟩ | ⟨f, -, hnone, hadd⟩ := hs.tables.addHandlerForEvent_cases
      (.ofFd fd (A.eventType k query)) ⟨n, k, query, callback⟩
      { c with threads := (.code next :: stack) ::ₘ rest } granted
      (by rw [hevent]; exact hs.tables.opened _ _ hfd)
    · -- the kernel has refused it, and `main` is left
      rw [hadd]
      refine ⟨les, t, ?_⟩
      exact h.quiet rfl rfl rfl rfl h.run rfl rfl rfl trivial
    · rw [hadd]
      exact h.registered_ok hnone rfl rfl rfl rfl rfl
  -- objects are not seen by the loop
  | opened =>
    refine ⟨les, t, ?_⟩
    exact h.quiet rfl rfl rfl rfl h.run rfl rfl rfl hmatches
  | closed =>
    refine ⟨les, t, ?_⟩
    exact h.quiet (closeObject_epoll ..) rfl rfl rfl h.run rfl rfl rfl hmatches
  | abandoned =>
    refine ⟨les, t, ?_⟩
    exact h.quiet rfl rfl rfl rfl h.run rfl rfl rfl hmatches
  | entered hphase hidle =>
    rw [hphase] at hmatches
    refine ⟨les, t, ?_⟩
    exact h.quiet rfl rfl rfl rfl h.run rfl rfl rfl hmatches
  | block events hphase hregistered hdistinct =>
    rw [hphase] at hmatches
    have hblock := LoopStep.block events hmatches
      (fun ev hev => (h.registered _).mpr (hregistered ev hev)) hdistinct
    refine ⟨les ++ [.block events], { t with phase := .batch events }, ?_⟩
    exact h.quiet rfl rfl rfl rfl (h.run.snoc hblock) rfl rfl (invocations_of_none rfl) rfl
  | @answered _ ev rest w c answer hphase htake htask =>
    obtain ⟨f, w', hfile, hw, hfound⟩ := hs.takeHandler_eq hphase
    rw [htake] at hfound
    cases hfound
    refine h.answered hphase hw (fun f' => ?_) rfl rfl rfl rfl rfl
    rw [hs.tables.epoll, hfile, hw]
    simp [eq_comm]
  -- a handler is always found
  | lost hphase htake =>
    obtain ⟨f, w, -, -, hfound⟩ := hs.takeHandler_eq hphase
    rw [htake] at hfound
    cases hfound
  | @returned rest hphase =>
    rw [hphase] at hmatches
    obtain ⟨handler, hturn⟩ := hmatches
    refine ⟨les ++ [.returned handler], { t with phase := .batch rest }, ?_⟩
    exact h.quiet rfl rfl rfl rfl (h.run.snoc (.returned hturn)) rfl rfl
      (invocations_of_none rfl) rfl
  | batchDone hphase =>
    rw [hphase] at hmatches
    refine ⟨les ++ [.batchDone], { t with phase := .blocking }, ?_⟩
    exact h.quiet rfl rfl rfl rfl (h.run.snoc (.batchDone hmatches)) rfl rfl
      (invocations_of_none rfl) rfl

/-- The handlers of a whole run. -/
theorem HostRun.loops {inherited : Finset Fd} {tasks : List (ℕ → K)}
    (htasks : ∀ start ∈ tasks, D.MayStart start) (hrun : HostRun A inherited tasks es s) :
    ∃ les t, s.Loops es les t := by
  have hboth : s.Good D es ∧ ∃ les t, s.Loops es les t := by
    -- the two invariants go together along the run
    refine hrun.history (P := fun es s => s.Good D es ∧ ∃ les t, s.Loops es les t)
      ⟨Host.good_start inherited htasks, [], {}, ?_⟩ ?_
    · exact {
        run := .nil
        registered := fun fd => by simp [Host.start]
        stored := fun fd => rfl
        accepted := rfl
        called := rfl
        phase := rfl }
    · rintro es s e s' ⟨hs, les, t, h⟩ hstep
      exact ⟨(hstep.good hs).1, hstep.loops hs h⟩
  exact hboth.2

end runs

end Webserv.Io
