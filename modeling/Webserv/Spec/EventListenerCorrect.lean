import Webserv.Native.EventListener
import Webserv.Spec.EventLoopCorrect
import Webserv.Spec.EventPacking

/-!
# When `block` keeps what the event loop relies on

The loop takes a handler for every event of a batch, so the events have to be on
registered descriptors, each on another one.  The listener on `epoll` keeps this;
the one on `poll` does if the answer is `Clean`.

## Key results

- `epoll_blockEvents_contract`: the listener on `epoll`
- `blockContract_iff_clean`: the listener on `poll`
- `PollLoopStep.good`: after clean answers the tables fit the rest of the batch
- `pollListener_contract`: histories of calls, and runs of the loop
-/

namespace Webserv.Io

open PollListener Transition

/-- Events the loop can take handlers for. -/
structure BlockContract (Registered : Fd → Prop) (events : List Event) : Prop where
  registered : ∀ ev ∈ events, Registered ev.fd
  distinct : (events.map Event.fd).Nodup

/-! ## One entry -/

namespace PollFd

/-- `block` makes an event of the entry. -/
def Signals (p : PollFd) : Prop := p.Has pollIn ∨ p.Has pollOut ∨ p.Has pollHup ∨ p.Has pollErr

/-- No other flag comes with `POLLERR`. -/
def ErrorAlone (p : PollFd) : Prop :=
  p.Has pollErr → ¬(p.Has pollIn ∨ p.Has pollOut ∨ p.Has pollHup)

instance (p : PollFd) : Decidable p.Signals :=
  inferInstanceAs (Decidable (_ ∨ _ ∨ _ ∨ _))

instance (p : PollFd) : Decidable p.ErrorAlone :=
  inferInstanceAs (Decidable (_ → ¬_))

/-- The events of an entry are on its descriptor. -/
theorem fd_of_mem_decode {p : PollFd} {ev : Event} (h : ev ∈ p.decode) : ev.fd = p.fd := by
  rw [decode, List.mem_append] at h
  -- one event for what is ready, and one for an error, both of the same descriptor
  rcases h with h | h
  · split at h
    · rw [List.mem_singleton.mp h, Event.fd_ofFd]
    · split at h
      · rw [List.mem_singleton.mp h, Event.fd_ofFd]
      · split at h
        · rw [List.mem_singleton.mp h, Event.fd_ofFd]
        · simp at h
  · split at h
    · rw [List.mem_singleton.mp h, Event.fd_ofFd]
    · simp at h

/-- An entry gives no event when it signals nothing. -/
theorem decode_eq_nil_iff (p : PollFd) : p.decode = [] ↔ ¬p.Signals := by
  unfold decode Signals
  split_ifs <;> simp [*]

/-- An entry that signals gives an event. -/
theorem exists_mem_decode {p : PollFd} (h : p.Signals) : ∃ ev ∈ p.decode, ev.fd = p.fd := by
  have hne : p.decode ≠ [] := fun hnil => (decode_eq_nil_iff p).mp hnil h
  obtain ⟨ev, hev⟩ := List.exists_mem_of_ne_nil _ hne
  exact ⟨ev, hev, fd_of_mem_decode hev⟩

/-- The missing `else`: a second event for the same descriptor. -/
theorem nodup_decode_iff (p : PollFd) : (p.decode.map Event.fd).Nodup ↔ p.ErrorAlone := by
  unfold decode ErrorAlone
  split_ifs <;> simp [*]

/-- Two entries make events for one descriptor. -/
theorem disjoint_decode_iff (p q : PollFd) :
    List.Disjoint (p.decode.map Event.fd) (q.decode.map Event.fd) ↔
      ¬(p.fd = q.fd ∧ p.Signals ∧ q.Signals) := by
  constructor
  · rintro hdisjoint ⟨heq, hp, hq⟩
    -- both entries give an event on the one descriptor
    obtain ⟨ev, hev, hfd⟩ := exists_mem_decode hp
    obtain ⟨ev', hev', hfd'⟩ := exists_mem_decode hq
    have hsame : ev.fd = ev'.fd := by rw [hfd, heq, hfd']
    exact hdisjoint (List.mem_map_of_mem hev) (hsame ▸ List.mem_map_of_mem hev')
  · intro hnot fd hp hq
    obtain ⟨ev, hev, rfl⟩ := List.mem_map.mp hp
    obtain ⟨ev', hev', hsame⟩ := List.mem_map.mp hq
    refine hnot ⟨?_, ?_, ?_⟩
    · rw [← fd_of_mem_decode hev, ← fd_of_mem_decode hev', hsame]
    · -- an entry without an event has none in common
      by_contra hquiet
      simp [(decode_eq_nil_iff p).mpr hquiet] at hev
    · by_contra hquiet
      simp [(decode_eq_nil_iff q).mpr hquiet] at hev'

end PollFd

/-! ## The answer of `poll` -/

/-- The answers of which `block` makes events for distinct registered descriptors.  The
    first entries are the zeros in front of the table. -/
structure Clean (l : PollListener) (returned : List PollFd) : Prop where
  errorAlone : ∀ p ∈ returned, p.ErrorAlone
  quiet : ¬l.Registered 0 → ∀ p ∈ returned.take l.pollfds.length, ¬p.Signals
  zeroOnce : returned.Pairwise fun p q => p.fd = 0 → q.fd = 0 → ¬(p.Signals ∧ q.Signals)

section Answer

variable {l : PollListener} {order : List (Fd × PollFd)} {returned : List PollFd}

/-- `poll` keeps the descriptors of the table. -/
theorem PollReturns.map_fd {given : List PollFd} (h : PollReturns given returned) :
    returned.map PollFd.fd = given.map PollFd.fd := by
  induction h with
  | nil => rfl
  | cons hhead _ ih => rw [List.map_cons, List.map_cons, hhead.fd, ih]

/-- The array handed to `poll` begins with as many zeros as there are entries. -/
theorem map_fd_pollEvs (horder : order.Perm l.pollfds) :
    (pollEvs order).map PollFd.fd =
      List.replicate l.pollfds.length 0 ++ order.map Prod.fst := by
  have hown : order.map (PollFd.fd ∘ Prod.snd) = order.map Prod.fst :=
    List.map_congr_left fun e he => l.own e (horder.subset he)
  rw [pollEvs, List.map_append, List.map_replicate, List.map_map, hown, horder.length_eq]

/-- Behind the zeros are the descriptors of the table. -/
theorem registered_of_mem_drop (horder : order.Perm l.pollfds)
    (hreturned : PollReturns (pollEvs order) returned) {p : PollFd}
    (hp : p ∈ returned.drop l.pollfds.length) : l.Registered p.fd := by
  -- behind the default entries stand the registered descriptors
  have hmap : (returned.drop l.pollfds.length).map PollFd.fd = order.map Prod.fst := by
    rw [List.map_drop, hreturned.map_fd, map_fd_pollEvs horder, List.drop_append_of_le_length,
      List.drop_of_length_le, List.nil_append]
    · simp
    · simp
  have hmem : p.fd ∈ order.map Prod.fst := hmap ▸ List.mem_map_of_mem hp
  exact (horder.map Prod.fst).subset hmem

/-- The entries in front are on descriptor 0. -/
theorem fd_of_mem_take (horder : order.Perm l.pollfds)
    (hreturned : PollReturns (pollEvs order) returned) {p : PollFd}
    (hp : p ∈ returned.take l.pollfds.length) : p.fd = 0 := by
  -- the vector starts with as many default entries as there are descriptors
  have hmap : (returned.take l.pollfds.length).map PollFd.fd =
      List.replicate l.pollfds.length 0 := by
    rw [List.map_take, hreturned.map_fd, map_fd_pollEvs horder, List.take_append_of_le_length,
      List.take_of_length_le]
    · simp
    · simp
  exact List.eq_of_mem_replicate (hmap ▸ List.mem_map_of_mem hp)

/-- Only the zeros can repeat a descriptor. -/
theorem pairwise_fd (horder : order.Perm l.pollfds)
    (hreturned : PollReturns (pollEvs order) returned) :
    returned.Pairwise fun p q => p.fd = q.fd → p.fd = 0 := by
  have hfds : (returned.map PollFd.fd).Pairwise fun a b => a = b → a = 0 := by
    -- the zeroes of the default entries, then the keys, each of them once
    rw [hreturned.map_fd, map_fd_pollEvs horder, List.pairwise_append]
    refine ⟨List.pairwise_replicate.mpr (.inr fun _ => rfl), ?_, ?_⟩
    · exact ((horder.map Prod.fst).nodup_iff.mpr l.keys).imp fun hne heq => absurd heq hne
    · intro a ha _ _ _
      exact List.eq_of_mem_replicate ha
  exact List.pairwise_map.mp hfds

/-- Only the zeros in front can name a descriptor that was never added. -/
theorem registered_iff_quiet (horder : order.Perm l.pollfds)
    (hreturned : PollReturns (pollEvs order) returned) :
    (∀ ev ∈ blockEvents returned, l.Registered ev.fd) ↔
      (¬l.Registered 0 → ∀ p ∈ returned.take l.pollfds.length, ¬p.Signals) := by
  constructor
  · intro hall hzero p hp hsignals
    -- the event of the zero is on descriptor 0
    obtain ⟨ev, hev, hfd⟩ := PollFd.exists_mem_decode hsignals
    have hregistered := hall ev (List.mem_flatMap.mpr ⟨p, List.mem_of_mem_take hp, hev⟩)
    rw [hfd, fd_of_mem_take horder hreturned hp] at hregistered
    exact hzero hregistered
  · intro hquiet ev hev
    obtain ⟨p, hp, hev⟩ := List.mem_flatMap.mp hev
    rw [PollFd.fd_of_mem_decode hev]
    rw [← List.take_append_drop l.pollfds.length returned, List.mem_append] at hp
    rcases hp with hp | hp
    · -- one of the zeros in front of the table
      by_cases hzero : l.Registered 0
      · rwa [fd_of_mem_take horder hreturned hp]
      · have hnil := (PollFd.decode_eq_nil_iff p).mpr (hquiet hzero p hp)
        simp [hnil] at hev
    · exact registered_of_mem_drop horder hreturned hp

/-- When no descriptor occurs twice in a batch. -/
theorem distinct_iff (horder : order.Perm l.pollfds)
    (hreturned : PollReturns (pollEvs order) returned) :
    ((blockEvents returned).map Event.fd).Nodup ↔
      (∀ p ∈ returned, p.ErrorAlone) ∧
      returned.Pairwise fun p q => p.fd = 0 → q.fd = 0 → ¬(p.Signals ∧ q.Signals) := by
  rw [blockEvents, List.map_flatMap, List.nodup_flatMap]
  refine and_congr (forall₂_congr fun p _ => PollFd.nodup_decode_iff p) ?_
  -- two entries share a descriptor only if it is 0
  have hpair := pairwise_fd horder hreturned
  constructor
  · intro h
    refine h.imp fun hdisjoint hp hq hsignals => ?_
    exact (PollFd.disjoint_decode_iff _ _).mp hdisjoint ⟨hp.trans hq.symm, hsignals⟩
  · intro h
    refine (h.and hpair).imp fun ⟨hzero, hfd⟩ => ?_
    refine (PollFd.disjoint_decode_iff _ _).mpr fun ⟨heq, hsignals⟩ => ?_
    exact hzero (hfd heq) (heq ▸ hfd heq) hsignals

/-- The contract of one `block`, as a condition on the answer of `poll`. -/
theorem blockContract_iff_clean (horder : order.Perm l.pollfds)
    (hreturned : PollReturns (pollEvs order) returned) :
    BlockContract l.Registered (blockEvents returned) ↔ Clean l returned := by
  constructor
  · rintro ⟨hregistered, hdistinct⟩
    obtain ⟨herror, hzero⟩ := (distinct_iff horder hreturned).mp hdistinct
    exact ⟨herror, (registered_iff_quiet horder hreturned).mp hregistered, hzero⟩
  · rintro ⟨herror, hquiet, hzero⟩
    exact ⟨(registered_iff_quiet horder hreturned).mpr hquiet,
      (distinct_iff horder hreturned).mpr ⟨herror, hzero⟩⟩

end Answer

/-! ## epoll -/

namespace EpollEvent

/-- An entry makes one event at most. -/
theorem decode_cases (e : EpollEvent) :
    e.decode = [] ∨ ∃ ev, e.decode = [ev] ∧ ev.fd = e.data.fd := by
  unfold decode
  split_ifs <;> simp

end EpollEvent

/-- The events are on the descriptors of the answer, in its order. -/
theorem map_fd_blockEvents_sublist (ready : List EpollEvent) :
    ((Listener.blockEvents ready).map Event.fd).Sublist (ready.map fun e => e.data.fd) := by
  induction ready with
  | nil => exact List.Sublist.refl _
  | cons e ready ih =>
    rw [Listener.blockEvents, List.flatMap_cons, List.map_append, List.map_cons]
    -- an entry gives no event or one
    rcases e.decode_cases with hnil | ⟨ev, hone, hfd⟩
    · rw [hnil]
      exact ih.cons _
    · rw [hone, List.map_singleton, hfd]
      exact ih.cons_cons _

/-- The listener over `epoll` keeps the contract. -/
theorem epoll_blockEvents_contract {l : Listener} {ready : List EpollEvent}
    (h : EpollReturns l ready) :
    BlockContract (· ∈ l.registered) (Listener.blockEvents ready) := by
  have hsublist := map_fd_blockEvents_sublist ready
  refine ⟨fun ev hev => ?_, h.distinct.sublist hsublist⟩
  obtain ⟨e, he, heq⟩ := List.mem_map.mp (hsublist.subset (List.mem_map_of_mem hev))
  exact heq ▸ h.registered e he

/-! ## The loop on poll -/

/-- What is registered after an event was taken. -/
theorem registered_erase_iff (l : PollListener) (fd fd' : Fd) :
    (l.erase fd).Registered fd' ↔ l.Registered fd' ∧ fd' ≠ fd := by
  simp only [Registered, erase, List.mem_map, List.mem_filter, decide_eq_true_eq]
  constructor
  · rintro ⟨e, ⟨he, hne⟩, rfl⟩
    exact ⟨⟨e, he, rfl⟩, hne⟩
  · rintro ⟨⟨e, he, rfl⟩, hne⟩
    exact ⟨e, ⟨he, hne⟩, rfl⟩

/-- What is registered after an assignment. -/
theorem registered_assign_iff (l : PollListener) (fd fd' : Fd) (events : UInt16) :
    (l.assign fd events).Registered fd' ↔ fd' = fd ∨ l.Registered fd' := by
  have hassign : (l.assign fd events).Registered fd' ↔ fd' = fd ∨ (l.erase fd).Registered fd' :=
    List.mem_cons
  rw [hassign, registered_erase_iff]
  by_cases hfd : fd' = fd <;> simp [hfd]

/-- A registration takes no descriptor away and adds none but its own. -/
theorem registered_addEvent (l : PollListener) (event : Event) (fd : Fd) :
    (l.Registered fd → (l.addEvent event).Registered fd) ∧
    ((l.addEvent event).Registered fd → fd = event.fd ∨ l.Registered fd) := by
  unfold addEvent
  -- an entry that waits to read, one that waits to write, and no entry for other events
  split_ifs
  · rw [registered_assign_iff]
    exact ⟨Or.inr, id⟩
  · rw [registered_assign_iff]
    exact ⟨Or.inr, id⟩
  · exact ⟨id, Or.inr⟩

/-- The registered descriptors have handlers, and what is left of the batch is registered. -/
structure PollLoopState.Good (s : PollLoopState) : Prop where
  tables : ∀ fd, s.ctx.listener.Registered fd → (s.ctx.evStorage.handlers fd).isSome
  rest : BlockContract s.ctx.listener.Registered s.phase.rest

/-- An empty batch keeps the contract. -/
theorem BlockContract.nil (Registered : Fd → Prop) : BlockContract Registered [] :=
  ⟨by simp, by simp⟩

/-- The loop starts in a good state. -/
theorem pollGood_init : PollLoopState.Good {} :=
  ⟨fun fd hfd => by simp [Registered] at hfd, BlockContract.nil _⟩

/-- The handler of a registered descriptor is found. -/
theorem pollTakeHandler_of_good {ctx : PollContext ℕ} {ev : Event}
    (htables : ∀ fd, ctx.listener.Registered fd → (ctx.evStorage.handlers fd).isSome)
    (hev : ctx.listener.Registered ev.fd) :
    ∃ handler, ctx.takeHandler ev =
      (.ok handler,
        { listener := ctx.listener.delEvent ev,
          evStorage := { handlers := Function.update ctx.evStorage.handlers ev.fd none } }) := by
  -- the descriptor is registered, so its callback is stored
  obtain ⟨handler, hhandler⟩ := Option.isSome_iff_exists.mp (htables ev.fd hev)
  refine ⟨handler, ?_⟩
  simp [PollContext.takeHandler, CallbackStorage.getHandler, hhandler]

/-- What a good state lets a step do. -/
def PollLoopEvent.Fine : PollLoopEvent → Prop
  | .block listener answer => BlockContract listener.Registered (blockEvents answer)
  | .take _ result => ∃ handler, result = .ok handler
  | _ => True

/-- The answer of `poll`, where the step has one, is clean. -/
def PollLoopEvent.Clean : PollLoopEvent → Prop
  | .block listener answer => Io.Clean listener answer
  | _ => True

/-- A step keeps the invariant as long as the answers of `poll` are clean. -/
theorem PollLoopStep.good {s s' : PollLoopState} {e : PollLoopEvent} (h : PollLoopStep s e s')
    (hgood : s.Good) (hclean : e.Clean) : s'.Good ∧ e.Fine := by
  obtain ⟨htables, hrest⟩ := hgood
  cases h with
  | add event =>
    -- a registration fills both tables
    refine ⟨⟨fun fd hfd => ?_, ?_, hrest.distinct⟩, trivial⟩
    · by_cases heq : fd = event.fd
      · simp [PollContext.addHandlerForEvent, CallbackStorage.setHandler, heq]
      · rcases (registered_addEvent _ event fd).2 hfd with hnew | hold
        · exact absurd hnew heq
        · simpa [PollContext.addHandlerForEvent, CallbackStorage.setHandler, heq] using
            htables fd hold
    · exact fun ev hev => (registered_addEvent _ event ev.fd).1 (hrest.registered ev hev)
  | block hphase horder hreturned =>
    have hcontract := (blockContract_iff_clean horder hreturned).mpr hclean
    exact ⟨⟨htables, hcontract⟩, hcontract⟩
  | blockThrew hphase => exact ⟨⟨htables, hrest⟩, trivial⟩
  | @take ev rest hphase =>
    have hphaseRest : s.phase.rest = ev :: rest := by simp [hphase, LoopPhase.rest]
    rw [hphaseRest] at hrest
    -- the entry is erased with the handler it stored
    obtain ⟨hregistered, hdistinct⟩ := hrest
    obtain ⟨hnot, hnodup⟩ := List.nodup_cons.mp hdistinct
    obtain ⟨handler, heq⟩ :=
      pollTakeHandler_of_good htables (hregistered ev List.mem_cons_self)
    simp only [heq]
    refine ⟨⟨fun fd hfd => ?_, fun ev' hev' => ?_, hnodup⟩, handler, rfl⟩
    · obtain ⟨hold, hne⟩ := (registered_erase_iff _ ev.fd fd).mp hfd
      simpa [hne] using htables fd hold
    · -- the later events of the batch are on other descriptors
      have hne : ev'.fd ≠ ev.fd := fun heq => hnot (heq ▸ List.mem_map_of_mem hev')
      exact (registered_erase_iff _ _ _).mpr
        ⟨hregistered ev' (List.mem_cons_of_mem ev hev'), hne⟩
  | @returned handler rest hphase =>
    have hphaseRest : s.phase.rest = rest := by simp [hphase, LoopPhase.rest]
    exact ⟨⟨htables, hphaseRest ▸ hrest⟩, trivial⟩
  | threw hphase => exact ⟨⟨htables, BlockContract.nil _⟩, trivial⟩
  | batchDone hphase => exact ⟨⟨htables, BlockContract.nil _⟩, trivial⟩

/-- So does every run. -/
theorem PollLoopRun.good {es : List PollLoopEvent} {s : PollLoopState} (h : PollLoopRun es s)
    (hclean : ∀ e ∈ es, e.Clean) : s.Good ∧ ∀ e ∈ es, e.Fine := by
  revert hclean
  refine h.history (P := fun es s => (∀ e ∈ es, e.Clean) → s.Good ∧ ∀ e ∈ es, e.Fine)
    (fun _ => ⟨pollGood_init, by simp⟩) ?_
  intro es s e s' ih hstep hclean
  obtain ⟨hgood, hfine⟩ := ih fun e' he' => hclean e' (List.mem_append_left _ he')
  obtain ⟨hgood', he⟩ := hstep.good hgood (hclean e (by simp))
  refine ⟨hgood', fun e' he' => ?_⟩
  -- the events before the step, then the event of the step
  rcases List.mem_append.mp he' with he' | he'
  · exact hfine e' he'
  · rw [List.mem_singleton.mp he']
    exact he

/-- The listener on `poll` keeps the contract exactly when the answer is clean, and a loop
    that gets clean answers finds every handler.  The listener on `epoll` always keeps it. -/
theorem pollListener_contract {calls : List Call} {order : List (Fd × PollFd)}
    {returned : List PollFd} (horder : order.Perm (history calls).pollfds)
    (hreturned : PollReturns (pollEvs order) returned) {es : List PollLoopEvent}
    {s : PollLoopState} (hrun : PollLoopRun es s) :
    (BlockContract (history calls).Registered (blockEvents returned) ↔
      Clean (history calls) returned) ∧
    ((∀ l answer, .block l answer ∈ es → Clean l answer) →
      (∀ l answer, .block l answer ∈ es → BlockContract l.Registered (blockEvents answer)) ∧
      ∀ ev r, .take ev r ∈ es → ∃ handler, r = .ok handler) ∧
    (∀ (l : Listener) (ready : List EpollEvent), EpollReturns l ready →
      BlockContract (· ∈ l.registered) (Listener.blockEvents ready)) := by
  refine ⟨blockContract_iff_clean horder hreturned, fun hclean => ?_,
    fun _ _ => epoll_blockEvents_contract⟩
  -- only `block` asks the kernel
  have hall : ∀ e ∈ es, e.Clean := by
    intro e he
    cases e with
    | block l answer => exact hclean l answer he
    | _ => trivial
  obtain ⟨-, hfine⟩ := hrun.good hall
  exact ⟨fun l answer hmem => hfine _ hmem, fun ev r hmem => hfine _ hmem⟩

/-- Descriptor 5 is to be read. -/
def readFiveEntry : PollFd := { fd := 5, events := pollIn }

/-- Descriptor 5 is ready. -/
def readyFive : List PollFd := [{}, { readFiveEntry with revents := pollIn }]

/-- The answer is one that `poll` can give. -/
theorem readyFive_returned : PollReturns (pollEvs [(5, readFiveEntry)]) readyFive := by
  refine .cons ⟨rfl, rfl, by decide +kernel, by decide +kernel⟩ (.cons ?_ .nil)
  exact ⟨rfl, rfl, by decide +kernel, by decide +kernel⟩

/-- It is clean: the zero in front signals nothing. -/
theorem readyFive_clean : Clean (history [.add readFive]) readyFive :=
  ⟨by decide +kernel, fun _ => by decide +kernel, by decide +kernel⟩

/-- One turn for a descriptor that is ready, on either listener. -/
theorem pollListener_contract_readyFive :
    BlockContract (history [.add readFive]).Registered (blockEvents readyFive) ∧
    (∃ es s r, PollLoopRun es s ∧ .take readFive r ∈ es ∧ ∃ handler, r = .ok handler) ∧
    BlockContract (· ∈ ({5} : Finset Fd)) (Listener.blockEvents [⟨1, readFive⟩]) := by
  have horder : [(5, readFiveEntry)].Perm (history [.add readFive]).pollfds :=
    .of_eq (by decide +kernel)
  -- a registration, a block and the take of its one event
  have hblock : PollLoopRun _ _ :=
    .snoc (.snoc .nil (.add readFive)) (.block rfl horder readyFive_returned)
  have hrun : PollLoopRun _ _ := .snoc hblock (@PollLoopStep.take _ readFive [] (by decide +kernel))
  obtain ⟨hiff, hfinds, hepoll⟩ := pollListener_contract horder readyFive_returned hrun
  refine ⟨hiff.mpr readyFive_clean, ?_, ?_⟩
  · refine ⟨_, _, _, hrun, List.mem_append_right _ (List.mem_singleton_self _), ?_⟩
    refine (hfinds ?_).2 readFive _ (List.mem_append_right _ (List.mem_singleton_self _))
    intro l answer hmem
    obtain ⟨rfl, rfl⟩ : l = history [.add readFive] ∧ answer = readyFive := by
      simpa [PollContext.addHandlerForEvent, history, call] using hmem
    exact readyFive_clean
  · exact hepoll { registered := {5} } _ ⟨by decide +kernel, by decide +kernel, by decide +kernel⟩

/-- A reset connection: `poll` reports `POLLIN` and `POLLERR`, and there are two events. -/
theorem pollListener_contract_false :
    ¬ ∀ calls order returned, order.Perm (history calls).pollfds →
      PollReturns (pollEvs order) returned →
      BlockContract (history calls).Registered (blockEvents returned) := by
  intro h
  -- descriptor 5 is ready, and its error is reported with it
  have hreturned : PollReturns (pollEvs [(5, readFiveEntry)])
      [{}, { readFiveEntry with revents := pollIn ||| pollErr }] := by
    refine .cons ⟨rfl, rfl, by decide +kernel, by decide +kernel⟩ (.cons ?_ .nil)
    exact ⟨rfl, rfl, by decide +kernel, by decide +kernel⟩
  have hcontract := h [.add readFive] [(5, readFiveEntry)] _ (.of_eq (by decide +kernel)) hreturned
  exact absurd hcontract.distinct (by decide +kernel)

end Webserv.Io
