import Webserv.Native.ExecutionContext

/-!
# The event loop keeps its two tables together

Invariants of every run of the event loop, whatever the handlers register.

## Key results

- `addHandlerForEvent_cases`, `takeHandler_of_consistent`: what a section can do
- `LoopStep.consistent`: the tables agree, also in the middle of a batch
- `LoopStep.accounted`: every accepted handler is stored or was invoked, not both
- `eventLoop_safe`: the loop neither loses nor repeats a handler
-/

namespace Webserv.Io

open Transition

/-! ## The sections -/

variable {H : Type}

/-- All that a registration can do. -/
theorem addHandlerForEvent_cases (ctx : ExecutionContext H) (event : Event) (callback : H)
    (granted : Bool) :
    ctx.addHandlerForEvent event callback granted = (.error .epollAdd, ctx) ∨
    (event.fd ∉ ctx.listener.registered ∧
      ctx.addHandlerForEvent event callback granted =
        (.ok (), { listener := { registered := insert event.fd ctx.listener.registered },
                   evStorage := ctx.evStorage.setHandler event callback })) := by
  unfold ExecutionContext.addHandlerForEvent Listener.addEvent
  by_cases h : event.fd ∈ ctx.listener.registered ∨ granted = false
  · left
    -- the descriptor is there already, or the kernel refuses
    rw [if_pos h]
  · right
    rw [if_neg h]
    exact ⟨fun hmem => h (Or.inl hmem), rfl⟩

/-- A registration of a registered descriptor throws and changes nothing. -/
theorem addHandlerForEvent_of_mem {ctx : ExecutionContext H} {event : Event} (callback : H)
    (granted : Bool) (h : event.fd ∈ ctx.listener.registered) :
    ctx.addHandlerForEvent event callback granted = (.error .epollAdd, ctx) := by
  rcases addHandlerForEvent_cases ctx event callback granted with heq | ⟨hnot, -⟩
  · exact heq
  · exact absurd h hnot

/-- The listener and the storage hold the same descriptors. -/
def Consistent (ctx : ExecutionContext H) : Prop :=
  ∀ fd, fd ∈ ctx.listener.registered ↔ (ctx.evStorage.handlers fd).isSome

/-- The handler of a registered descriptor is found and taken out. -/
theorem takeHandler_of_consistent {ctx : ExecutionContext H} {ev : Event} (h : Consistent ctx)
    (hev : ev.fd ∈ ctx.listener.registered) :
    ∃ handler, ctx.evStorage.handlers ev.fd = some handler ∧
      ctx.takeHandler ev =
        (.ok handler,
          { listener := { registered := ctx.listener.registered.erase ev.fd },
            evStorage := { handlers := Function.update ctx.evStorage.handlers ev.fd none } }) := by
  -- the tables agree, so a registered descriptor has its callback
  obtain ⟨handler, hhandler⟩ := Option.isSome_iff_exists.mp ((h ev.fd).mp hev)
  refine ⟨handler, hhandler, ?_⟩
  simp [ExecutionContext.takeHandler, Listener.delEvent, hev, CallbackStorage.getHandler, hhandler]

/-! ## The tables agree -/

/-- The part of a batch that is still to come. -/
def LoopPhase.rest : LoopPhase → List Event
  | .blocking => []
  | .batch rest => rest
  | .running _ rest => rest

/-- The tables agree, and what is left of the batch is in them. -/
structure LoopState.Good (s : LoopState) : Prop where
  tables : Consistent s.ctx
  registered : ∀ ev ∈ s.phase.rest, ev.fd ∈ s.ctx.listener.registered
  distinct : (s.phase.rest.map Event.fd).Nodup

/-- The loop starts in a good state. -/
theorem good_init : LoopState.Good {} :=
  ⟨fun fd => by simp, by simp [LoopPhase.rest], by simp [LoopPhase.rest]⟩

/-- A registration fills both tables. -/
theorem Consistent.insert {ctx : ExecutionContext H} (h : Consistent ctx) (event : Event)
    (callback : H) :
    Consistent { listener := { registered := insert event.fd ctx.listener.registered },
                 evStorage := ctx.evStorage.setHandler event callback } := by
  intro fd
  by_cases hfd : fd = event.fd
  · simp [CallbackStorage.setHandler, hfd]
  · simp [CallbackStorage.setHandler, hfd, h fd]

/-- Taking a handler empties both. -/
theorem Consistent.erase {ctx : ExecutionContext H} (h : Consistent ctx) (ev : Event) :
    Consistent { listener := { registered := ctx.listener.registered.erase ev.fd },
                 evStorage := { handlers :=
                   Function.update ctx.evStorage.handlers ev.fd none } } := by
  intro fd
  by_cases hfd : fd = ev.fd
  · simp [hfd]
  · simp [hfd, h fd]

/-- All that a step from a good state can do. -/
inductive LoopMove : LoopState → LoopEvent → LoopState → Prop where
  /-- A registration that is refused. -/
  | refused {s : LoopState} (event : Event) :
      LoopMove s (.add event s.accepted (.error .epollAdd)) s
  | stored {s : LoopState} (event : Event) (hfresh : event.fd ∉ s.ctx.listener.registered) :
      LoopMove s (.add event s.accepted (.ok ()))
        { s with
          ctx := { listener := { registered := insert event.fd s.ctx.listener.registered },
                   evStorage := s.ctx.evStorage.setHandler event s.accepted }
          accepted := s.accepted + 1 }
  | invoked {s : LoopState} {ev : Event} {rest : List Event} {handler : ℕ}
      (hphase : s.phase = .batch (ev :: rest))
      (hhandler : s.ctx.evStorage.handlers ev.fd = some handler) :
      LoopMove s (.take ev (.ok handler))
        { s with
          ctx := { listener := { registered := s.ctx.listener.registered.erase ev.fd },
                   evStorage := { handlers :=
                     Function.update s.ctx.evStorage.handlers ev.fd none } }
          phase := .running handler rest }
  /-- The other steps leave the tables alone. -/
  | phase {s : LoopState} {e : LoopEvent} (p : LoopPhase) (hadd : ∀ ev h r, e ≠ .add ev h r)
      (htake : ∀ ev r, e ≠ .take ev r)
      (hregistered : ∀ ev ∈ p.rest, ev.fd ∈ s.ctx.listener.registered)
      (hdistinct : (p.rest.map Event.fd).Nodup) : LoopMove s e { s with phase := p }

/-- In a good state nothing but a registration throws. -/
theorem LoopStep.moves {s s' : LoopState} {e : LoopEvent} (h : LoopStep s e s') (hgood : s.Good) :
    LoopMove s e s' := by
  cases h with
  | add event granted =>
    rcases addHandlerForEvent_cases s.ctx event s.accepted granted with heq | ⟨hfresh, heq⟩
    · simp only [heq]
      exact .refused event
    · simp only [heq]
      exact .stored event hfresh
  | block events hphase hregistered hdistinct =>
    exact .phase (.batch events) (by simp) (by simp) hregistered hdistinct
  | @take ev rest hphase =>
    have hev : ev.fd ∈ s.ctx.listener.registered :=
      hgood.registered ev (by simp [hphase, LoopPhase.rest])
    -- the event is of a registered descriptor, so the handler is there
    obtain ⟨handler, hhandler, heq⟩ := takeHandler_of_consistent hgood.tables hev
    simp only [heq]
    exact .invoked hphase hhandler
  | @returned handler rest hphase =>
    have hrest : s.phase.rest = rest := by simp [hphase, LoopPhase.rest]
    refine .phase (.batch rest) (by simp) (by simp) ?_ ?_
    · exact hrest ▸ hgood.registered
    · exact hrest ▸ hgood.distinct
  | threw hphase =>
    exact .phase .blocking (by simp) (by simp) (by simp [LoopPhase.rest]) (by simp [LoopPhase.rest])
  | batchDone hphase =>
    exact .phase .blocking (by simp) (by simp) (by simp [LoopPhase.rest]) (by simp [LoopPhase.rest])

/-- A move keeps the invariant. -/
theorem LoopMove.good {s s' : LoopState} {e : LoopEvent} (h : LoopMove s e s') (hgood : s.Good) :
    s'.Good := by
  obtain ⟨htables, hregistered, hdistinct⟩ := hgood
  cases h with
  -- nothing was stored, so nothing changes
  | refused event => exact ⟨htables, hregistered, hdistinct⟩
  | stored event hfresh =>
    -- a registration in the middle of a batch takes nothing away
    exact ⟨htables.insert event s.accepted,
      fun ev hev => Finset.mem_insert_of_mem (hregistered ev hev), hdistinct⟩
  | @invoked ev rest handler hphase hhandler =>
    have hrest : s.phase.rest = ev :: rest := by simp [hphase, LoopPhase.rest]
    rw [hrest] at hregistered hdistinct
    obtain ⟨hnot, hnodup⟩ := List.nodup_cons.mp hdistinct
    refine ⟨htables.erase ev, fun ev' hev' => ?_, hnodup⟩
    -- the later events of the batch are on other descriptors
    have hne : ev'.fd ≠ ev.fd := fun heq => hnot (heq ▸ List.mem_map_of_mem hev')
    exact Finset.mem_erase.mpr ⟨hne, hregistered ev' (List.mem_cons_of_mem ev hev')⟩
  | phase p hadd htake hregistered' hdistinct' => exact ⟨htables, hregistered', hdistinct'⟩

/-! ## Every handler is stored or was invoked -/

/-- The handler a step registered, with its descriptor. -/
def LoopEvent.accepts : LoopEvent → Option (ℕ × Fd)
  | .add event handler (.ok ()) => some (handler, event.fd)
  | _ => none

/-- The handler a step invoked, with the descriptor it was invoked for. -/
def LoopEvent.invokes : LoopEvent → Option (ℕ × Fd)
  | .take ev (.ok handler) => some (handler, ev.fd)
  | _ => none

/-- The accepted registrations, in order. -/
def registrations (es : List LoopEvent) : List (ℕ × Fd) := es.filterMap LoopEvent.accepts

/-- The calls of handlers, in order. -/
def invocations (es : List LoopEvent) : List (ℕ × Fd) := es.filterMap LoopEvent.invokes

/-- The registrations of a run that goes on. -/
theorem registrations_snoc (es : List LoopEvent) (e : LoopEvent) :
    registrations (es ++ [e]) = registrations es ++ e.accepts.toList := by
  cases h : e.accepts <;> simp [registrations, h]

/-- The invocations of a run that goes on. -/
theorem invocations_snoc (es : List LoopEvent) (e : LoopEvent) :
    invocations (es ++ [e]) = invocations es ++ e.invokes.toList := by
  cases h : e.invokes <;> simp [invocations, h]

/-- Every accepted handler is stored under its descriptor or was invoked for it. -/
structure Accounted (es : List LoopEvent) (s : LoopState) : Prop where
  good : s.Good
  numbers : (registrations es).map Prod.fst = List.range s.accepted
  stored : ∀ fd handler, s.ctx.evStorage.handlers fd = some handler →
    (handler, fd) ∈ registrations es ∧ ∀ fd', (handler, fd') ∉ invocations es
  complete : ∀ handler fd, (handler, fd) ∈ registrations es →
    (handler, fd) ∈ invocations es ∨ s.ctx.evStorage.handlers fd = some handler
  invoked : ∀ p ∈ invocations es, p ∈ registrations es
  once : ((invocations es).map Prod.fst).Nodup

/-- Nothing is registered at first. -/
theorem accounted_init : Accounted [] {} :=
  ⟨good_init, rfl, by simp, by simp [registrations], by simp [invocations], by simp [invocations]⟩

/-- A number stands for one registration. -/
theorem Accounted.fd_unique {es : List LoopEvent} {s : LoopState} (h : Accounted es s)
    {handler : ℕ} {fd fd' : Fd} (hfd : (handler, fd) ∈ registrations es)
    (hfd' : (handler, fd') ∈ registrations es) : fd = fd' := by
  have hnodup : ((registrations es).map Prod.fst).Nodup := by
    rw [h.numbers]
    exact List.nodup_range
  exact congrArg Prod.snd (List.inj_on_of_nodup_map hnodup hfd hfd' rfl)

/-- The numbers of the handlers are below the counter. -/
theorem Accounted.lt_accepted {es : List LoopEvent} {s : LoopState} (h : Accounted es s)
    {handler : ℕ} {fd : Fd} (hfd : (handler, fd) ∈ registrations es) : handler < s.accepted := by
  have hmem := List.mem_map_of_mem (f := Prod.fst) hfd
  rw [h.numbers] at hmem
  exact List.mem_range.mp hmem

/-- A step that registers nothing, invokes nothing and leaves the tables alone. -/
theorem Accounted.quiet {es : List LoopEvent} {s s' : LoopState} {e : LoopEvent}
    (h : Accounted es s) (hgood : s'.Good) (haccepts : e.accepts = none)
    (hinvokes : e.invokes = none) (hctx : s'.ctx = s.ctx) (haccepted : s'.accepted = s.accepted) :
    Accounted (es ++ [e]) s' := by
  have hreg : registrations (es ++ [e]) = registrations es := by
    simp [registrations_snoc, haccepts]
  have hinv : invocations (es ++ [e]) = invocations es := by simp [invocations_snoc, hinvokes]
  -- neither list grows, and the tables are those before
  refine ⟨hgood, ?_, ?_, ?_, ?_, ?_⟩
  · rw [hreg, haccepted]
    exact h.numbers
  · rw [hreg, hinv, hctx]
    exact h.stored
  · rw [hreg, hinv, hctx]
    exact h.complete
  · rw [hreg, hinv]
    exact h.invoked
  · rw [hinv]
    exact h.once

/-- A registration that is accepted, under a number that is new. -/
theorem Accounted.register {es : List LoopEvent} {s s' : LoopState} {event : Event}
    (h : Accounted es s) (hgood : s'.Good)
    (hfresh : s.ctx.evStorage.handlers event.fd = none)
    (hhandlers : s'.ctx.evStorage.handlers =
      Function.update s.ctx.evStorage.handlers event.fd (some s.accepted))
    (haccepted : s'.accepted = s.accepted + 1) :
    Accounted (es ++ [.add event s.accepted (.ok ())]) s' := by
  have hreg : registrations (es ++ [.add event s.accepted (.ok ())]) =
      registrations es ++ [(s.accepted, event.fd)] := registrations_snoc _ _
  have hinv : invocations (es ++ [.add event s.accepted (.ok ())]) = invocations es := by
    rw [invocations_snoc]
    exact List.append_nil _
  refine ⟨hgood, ?_, ?_, ?_, ?_, ?_⟩
  · rw [hreg, List.map_append, h.numbers, haccepted, List.range_succ]
    rfl
  · intro fd handler hhandler
    rw [hhandlers] at hhandler
    rw [hreg, hinv]
    by_cases hfd : fd = event.fd
    · -- the number is new, so it was not invoked
      subst hfd
      obtain rfl : s.accepted = handler := by simpa using hhandler
      refine ⟨by simp, fun fd' hmem => ?_⟩
      exact absurd (h.lt_accepted (h.invoked _ hmem)) (Nat.lt_irrefl _)
    · have hold : s.ctx.evStorage.handlers fd = some handler := by simpa [hfd] using hhandler
      obtain ⟨hmem, hnot⟩ := h.stored fd handler hold
      exact ⟨List.mem_append_left _ hmem, hnot⟩
  · -- an older handler keeps its place: the new descriptor was free
    intro handler fd hmem
    rw [hreg, List.mem_append, List.mem_singleton, Prod.mk.injEq] at hmem
    rw [hinv, hhandlers]
    rcases hmem with hmem | ⟨rfl, rfl⟩
    · refine (h.complete handler fd hmem).imp_right fun hhandler => ?_
      have hfd : fd ≠ event.fd := by
        rintro rfl
        simp [hfresh] at hhandler
      simpa [hfd] using hhandler
    · right
      simp
  · rw [hreg, hinv]
    exact fun p hp => List.mem_append_left _ (h.invoked p hp)
  · rw [hinv]
    exact h.once

/-- A handler that is taken for its descriptor. -/
theorem Accounted.invoke {es : List LoopEvent} {s s' : LoopState} {ev : Event} {handler : ℕ}
    (h : Accounted es s) (hgood : s'.Good)
    (hhandler : s.ctx.evStorage.handlers ev.fd = some handler)
    (hhandlers : s'.ctx.evStorage.handlers =
      Function.update s.ctx.evStorage.handlers ev.fd none)
    (haccepted : s'.accepted = s.accepted) : Accounted (es ++ [.take ev (.ok handler)]) s' := by
  have hreg : registrations (es ++ [.take ev (.ok handler)]) = registrations es := by
    rw [registrations_snoc]
    exact List.append_nil _
  have hinv : invocations (es ++ [.take ev (.ok handler)]) =
      invocations es ++ [(handler, ev.fd)] := invocations_snoc _ _
  obtain ⟨hmine, hnot⟩ := h.stored ev.fd handler hhandler
  refine ⟨hgood, ?_, ?_, ?_, ?_, ?_⟩
  · rw [hreg, haccepted]
    exact h.numbers
  · intro fd handler' hhandler'
    rw [hhandlers] at hhandler'
    have hfd : fd ≠ ev.fd := by
      rintro rfl
      simp at hhandler'
    have hold : s.ctx.evStorage.handlers fd = some handler' := by
      simpa [hfd] using hhandler'
    obtain ⟨hmem, hnot'⟩ := h.stored fd handler' hold
    rw [hreg, hinv]
    refine ⟨hmem, fun fd' hmem' => ?_⟩
    rw [List.mem_append, List.mem_singleton, Prod.mk.injEq] at hmem'
    rcases hmem' with hmem' | ⟨rfl, rfl⟩
    · exact hnot' fd' hmem'
    · -- one number on two descriptors
      exact hfd (h.fd_unique hmem hmine)
  · intro handler' fd hmem
    rw [hreg] at hmem
    rw [hinv, hhandlers]
    rcases h.complete handler' fd hmem with hinvoked | hstored
    · exact Or.inl (List.mem_append_left _ hinvoked)
    · -- the handler of this descriptor was invoked now, the others wait on
      by_cases hfd : fd = ev.fd
      · left
        subst hfd
        obtain rfl : handler = handler' := by
          rw [hhandler] at hstored
          exact Option.some.inj hstored
        simp
      · right
        simpa [hfd] using hstored
  · intro p hp
    rw [hinv, List.mem_append, List.mem_singleton] at hp
    rw [hreg]
    rcases hp with hp | rfl
    · exact h.invoked p hp
    · exact hmine
  · rw [hinv, List.map_append, List.nodup_append]
    refine ⟨h.once, by simp, ?_⟩
    intro n hn m hm heq
    obtain ⟨⟨n', fd⟩, hmem, rfl⟩ := List.mem_map.mp hn
    simp only [List.map_cons, List.map_nil, List.mem_singleton] at hm
    subst hm
    subst heq
    -- a stored handler was not invoked before
    exact hnot fd hmem

/-- A move keeps the account. -/
theorem LoopMove.accounted {es : List LoopEvent} {s s' : LoopState} {e : LoopEvent}
    (hmove : LoopMove s e s') (h : Accounted es s) : Accounted (es ++ [e]) s' := by
  have hgood := hmove.good h.good
  cases hmove with
  | refused event => exact h.quiet hgood rfl rfl rfl rfl
  -- only the phase changes, and the tables stay
  | phase p hadd htake _ _ =>
    have haccepts : e.accepts = none := by
      cases e with
      | add ev n r => exact absurd rfl (hadd ev n r)
      | _ => rfl
    have hinvokes : e.invokes = none := by
      cases e with
      | take ev r => exact absurd rfl (htake ev r)
      | _ => rfl
    exact h.quiet hgood haccepts hinvokes rfl rfl
  | stored event hfresh =>
    have hnone : s.ctx.evStorage.handlers event.fd = none := by
      rw [h.good.tables event.fd] at hfresh
      simpa using hfresh
    exact h.register hgood hnone rfl rfl
  | invoked hphase hhandler => exact h.invoke hgood hhandler rfl rfl

theorem LoopRun.accounted {es : List LoopEvent} {s : LoopState} (h : LoopRun es s) :
    Accounted es s :=
  h.history accounted_init fun _ _ _ _ hacc hstep =>
    (hstep.moves hacc.good).accounted hacc

/-- The event loop neither loses nor repeats a handler. -/
theorem eventLoop_safe {es : List LoopEvent} {s : LoopState} (h : LoopRun es s) :
    (∀ fd, fd ∈ s.ctx.listener.registered ↔ (s.ctx.evStorage.handlers fd).isSome) ∧
    (∀ ev r, LoopEvent.take ev r ∈ es → ∃ handler, r = .ok handler) ∧
    ((invocations es).map Prod.fst).Nodup ∧ (∀ p ∈ invocations es, p ∈ registrations es) ∧
    (∀ handler fd, (handler, fd) ∈ registrations es → (handler, fd) ∈ invocations es ∨
      (s.ctx.evStorage.handlers fd = some handler ∧ ∀ fd', (handler, fd') ∉ invocations es)) ∧
    (∀ event handler r s', LoopStep s (.add event handler r) s' →
      event.fd ∈ s.ctx.listener.registered → r = .error .epollAdd ∧ s'.ctx = s.ctx) := by
  have hacc := h.accounted
  refine ⟨hacc.good.tables, ?_, hacc.once, hacc.invoked, ?_, ?_⟩
  · -- a step from a good state that takes a handler finds it
    have htakes := h.forall_events (P := LoopState.Good)
      (Q := fun e => ∀ ev r, e = .take ev r → ∃ handler, r = .ok handler) good_init
      fun s e s' hgood hstep => by
        have hmove := hstep.moves hgood
        refine ⟨hmove.good hgood, ?_⟩
        rintro ev r rfl
        cases hmove with
        | invoked hphase hhandler => exact ⟨_, rfl⟩
        | phase p hadd htake _ _ => exact absurd rfl (htake ev r)
    exact fun ev r hmem => htakes _ hmem ev r rfl
  · intro handler fd hmem
    refine (hacc.complete handler fd hmem).imp_right fun hstored => ?_
    exact ⟨hstored, (hacc.stored fd handler hstored).2⟩
  · intro event handler r s' hstep hmem
    cases hstep with
    | add _ granted =>
      rw [addHandlerForEvent_of_mem s.accepted granted hmem]
      exact ⟨rfl, rfl⟩

/-- A read event on descriptor 5. -/
def readFive : Event := { data := (5 : UInt64) <<< 32 }

/-- A handler registers its own descriptor again, and a second time, which throws. -/
theorem eventLoop_safe_again : ∃ es s, LoopRun es s ∧ s.phase = .running 0 [] ∧
    registrations es = [(0, 5), (1, 5)] ∧ invocations es = [(0, 5)] ∧
    (5 ∈ s.ctx.listener.registered ↔ (s.ctx.evStorage.handlers 5).isSome) := by
  have hblock : LoopRun _ _ := .snoc (.snoc .nil (.add readFive true))
    (.block [readFive] rfl (by decide +kernel) (by decide +kernel))
  -- taken, added again, and added once more
  have hrun : LoopRun _ _ :=
    .snoc (.snoc (.snoc hblock (.take rfl)) (.add readFive true)) (.add readFive true)
  refine ⟨_, _, hrun, ?_, ?_, ?_, (eventLoop_safe hrun).1 5⟩
  · decide +kernel
  · decide +kernel
  · decide +kernel

end Webserv.Io
