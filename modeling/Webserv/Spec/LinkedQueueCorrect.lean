import Webserv.ForStd.Simulation
import Webserv.Native.LinkedQueue
import Webserv.Spec.ForwardListCorrect
import Webserv.Spec.MpmcCorrect

/-!
# The linked channel refines the channel

Every run of the channel over its linked list, with its node heap and its
reference count, is a run of the channel of `Native/MpmcQueue.lean`, whose queue
is a list: whatever is proved about that one holds of the code's own data
structure.  No section faults on the way, and the nodes die with the last handle.

## Key results

- `LinkedQueue.push_stands`, `pop_stands`, `tryPop_stands`: one section
- `Refines.exec`: what an action that is allowed does
- `linkedStep_simulation`: the simulation
- `linked_channel_refines`: whole runs
-/

namespace Webserv.Mpmc

open Heap (Addr Exchanges)
open ForwardList (Listed)
open Transition (Run Simulation visible)

variable {T : Type}

/-! ## Sections -/

/-- A step on the list that succeeds. -/
@[simp] theorem ofList_ok {α : Type} (a : α) : ofList (.ok a) = .ok a := rfl

/-- The linked queue holds the values of the queue `t` in these nodes. -/
structure LinkedQueue.Stands (q : LinkedQueue) (h : NodeHeap T) (dummy : Addr) (nodes : List Addr)
    (t : Queue T) : Prop where
  listed : Listed q.queue h dummy nodes t.queue
  consumers : q.consumderCount = t.consumderCount
  producers : q.producerCount = t.producerCount

namespace LinkedQueue

section sections
variable {q : LinkedQueue} {h : NodeHeap T} {dummy : Addr} {nodes : List Addr} {t : Queue T}

/-- A new queue is empty. -/
theorem construct_stands (h : NodeHeap T) : ∃ q h', construct h = .ok (q, h') ∧
    q.Stands h' h.size [] {} ∧ Exchanges h h' [] [h.size] := by
  obtain ⟨l, h', hconstruct, hlisted, hex, -⟩ := ForwardList.construct_listed h
  refine ⟨{ queue := l, consumderCount := 1, producerCount := 1 }, h', ?_, ⟨hlisted, rfl, rfl⟩, hex⟩
  simp only [construct, hconstruct, ofList_ok]
  rfl

/-- The destructor frees every node. -/
theorem destruct_stands (hq : q.Stands h dummy nodes t) : ∃ h', q.destruct h = .ok h' ∧
    Exchanges h h' (dummy :: nodes) [] := by
  obtain ⟨h', hdelete, hex, -⟩ := ForwardList.deleteValues_chained hq.listed.toChained
  refine ⟨h', ?_, hex⟩
  rw [destruct, ForwardList.destruct, hdelete, ofList_ok]

/-- `is_empty()` says whether the queue is empty. -/
theorem isEmpty_stands (hq : q.Stands h dummy nodes t) :
    q.queue.isEmpty = .ok t.queue.isEmpty := by
  rw [ForwardList.isEmpty_listed hq.listed]
  have hlength := List.Forall₂.length_eq hq.listed.values
  cases nodes <;> cases hqueue : t.queue <;> simp [hqueue] at hlength ⊢

/-- `push` on the nodes is `push` on the list. -/
theorem push_stands (hq : q.Stands h dummy nodes t) (value : T) : ∃ q' h' nodes',
    q.push value h = .ok ((t.push value).1, q', (t.push value).2.2, h') ∧
    q'.Stands h' dummy nodes' (t.push value).2.1 ∧
    Exchanges h h' (dummy :: nodes) (dummy :: nodes') := by
  obtain ⟨hcount, hpush⟩ | ⟨hcount, hpush⟩ := t.push_cases value
  · rw [← hq.consumers] at hcount
    rw [hpush]
    refine ⟨q, h, nodes, ?_, hq, .refl h _⟩
    rw [push, if_pos hcount]
    rfl
  · rw [← hq.consumers] at hcount
    rw [hpush]
    -- the value goes to the end of the list
    obtain ⟨l, h', hback, hlisted, hex⟩ := ForwardList.pushBack_listed hq.listed value
    refine ⟨{ q with queue := l }, h', _, ?_, ⟨hlisted, hq.consumers, hq.producers⟩, hex⟩
    rw [push, if_neg hcount, hback]
    rfl

/-- So is `pop`, in each of its three cases. -/
theorem pop_stands (hq : q.Stands h dummy nodes t) : ∃ q' h' nodes',
    q.pop h = .ok (t.pop.1, q', h') ∧ q'.Stands h' dummy nodes' t.pop.2 ∧
    Exchanges h h' (dummy :: nodes) (dummy :: nodes') := by
  have hempty := isEmpty_stands hq
  obtain ⟨hqueue, hcount, hpop⟩ | ⟨hqueue, hcount, hpop⟩ | ⟨value, rest, hqueue, hpop⟩ :=
    t.pop_cases
  · rw [← hq.producers] at hcount
    rw [hpop]
    refine ⟨q, h, nodes, ?_, hq, .refl h _⟩
    simp only [pop, hempty, hqueue, ofList_ok, Except.ok_bind, List.isEmpty_nil, if_pos, hcount]
    rfl
  · rw [← hq.producers] at hcount
    rw [hpop]
    refine ⟨q, h, nodes, ?_, hq, .refl h _⟩
    simp only [pop, hempty, hqueue, ofList_ok, Except.ok_bind, List.isEmpty_nil, if_pos,
      if_neg hcount]
    rfl
  · rw [hpop]
    -- there is a value, and it is the first of the list
    obtain ⟨l, h', hfront, hlisted, hex⟩ := ForwardList.popFront_listed hq.listed
    rw [hqueue] at hfront hlisted
    refine ⟨{ q with queue := l }, h', _, ?_, ⟨hlisted, hq.consumers, hq.producers⟩, hex⟩
    simp only [pop, hempty, hqueue, ofList_ok, Except.ok_bind, List.isEmpty_cons,
      Bool.false_eq_true, if_false, hfront]
    rfl

/-- So is `try_pop`. -/
theorem tryPop_stands (hq : q.Stands h dummy nodes t) : ∃ q' h' nodes',
    q.tryPop h = .ok (t.tryPop.1, q', h') ∧ q'.Stands h' dummy nodes' t.tryPop.2 ∧
    Exchanges h h' (dummy :: nodes) (dummy :: nodes') := by
  have hempty := isEmpty_stands hq
  obtain ⟨l, h', hfront, hlisted, hex⟩ := ForwardList.popFront_listed hq.listed
  obtain ⟨hqueue, hcount, hpop⟩ | ⟨hqueue, hcount, hpop⟩ | ⟨value, rest, hqueue, hpop⟩ :=
    t.tryPop_cases
  · rw [← hq.producers] at hcount
    rw [hpop]
    refine ⟨q, h, nodes, ?_, hq, .refl h _⟩
    simp only [tryPop, hempty, hqueue, ofList_ok, Except.ok_bind, List.isEmpty_nil, hcount,
      and_self, if_true]
    rfl
  · rw [← hq.producers] at hcount
    rw [hpop]
    -- an empty list is popped, which leaves it as it is
    rw [hqueue] at hfront hlisted
    refine ⟨{ q with queue := l }, h', _, ?_, ⟨by rwa [hqueue], hq.consumers, hq.producers⟩, hex⟩
    simp only [tryPop, hempty, hqueue, ofList_ok, Except.ok_bind, hcount, and_false, if_false,
      hfront]
    rfl
  · rw [hpop]
    rw [hqueue] at hfront hlisted
    refine ⟨{ q with queue := l }, h', _, ?_, ⟨hlisted, hq.consumers, hq.producers⟩, hex⟩
    simp only [tryPop, hempty, hqueue, ofList_ok, Except.ok_bind, List.isEmpty_cons,
      Bool.false_eq_true, false_and, if_false, hfront]
    rfl

end sections

end LinkedQueue

/-! ## Owners -/

/-- The queue is there as long as it is used, and only its nodes are on the heap. -/
inductive Owned (h : NodeHeap T) (t : Queue T) : Option LinkedQueue → ℕ → Prop where
  | live {q : LinkedQueue} {dummy : Addr} {nodes : List Addr} {useCount : ℕ}
      (hpos : 0 < useCount) (hq : q.Stands h dummy nodes t)
      (honly : ∀ a, a ∉ dummy :: nodes → h.lookup a = none) : Owned h t (some q) useCount
  | destroyed (hnone : ∀ a, h.lookup a = none) : Owned h t none 0

/-- What a section leaves on the heap. -/
theorem Owned.exchange {h h' : NodeHeap T} {dummy : Addr} {nodes nodes' : List Addr}
    (honly : ∀ a, a ∉ dummy :: nodes → h.lookup a = none)
    (hex : Exchanges h h' (dummy :: nodes) (dummy :: nodes')) :
    ∀ a, a ∉ dummy :: nodes' → h'.lookup a = none := by
  intro a ha
  by_cases hold : a ∈ dummy :: nodes
  · exact hex.dead a hold ha
  · rw [hex.frame a hold ha]
    exact honly a hold

/-- The linked channel `s` is in a state in which the channel is `t`. -/
structure Refines (s : LinkedSystem T) (t : System T) : Prop where
  senders : s.senders = t.senders
  receivers : s.receivers = t.receivers
  waiting : s.waiting = t.waiting
  signalled : s.signalled = t.signalled
  useCount : s.useCount = s.senders.card + s.receivers.card + s.pending.copiedSenders.card +
    s.pending.copiedReceivers.card + s.pending.leaving
  copiedSenders : ∀ x ∈ s.pending.copiedSenders, x ∈ s.senders
  copiedReceivers : ∀ x ∈ s.pending.copiedReceivers, x ∈ s.receivers
  blockedWaiting : ∀ x ∈ s.waiting, x ∈ s.receivers
  blockedSignalled : ∀ x ∈ s.signalled, x ∈ s.receivers
  owned : Owned s.nodes t.shared s.shared s.useCount

/-- While a handle is left the queue is there. -/
theorem Owned.exists_queue {h : NodeHeap T} {t : Queue T} {shared : Option LinkedQueue}
    {useCount : ℕ} (howned : Owned h t shared useCount) (hpos : 0 < useCount) :
    ∃ q dummy nodes, shared = some q ∧ q.Stands h dummy nodes t ∧
      ∀ a, a ∉ dummy :: nodes → h.lookup a = none := by
  cases howned with
  | live _ hq honly => exact ⟨_, _, _, rfl, hq, honly⟩
  | destroyed hnone => exact absurd hpos (Nat.lt_irrefl 0)

/-- A `shared_ptr` more: the one it is copied from keeps the queue alive. -/
theorem Owned.retain {h : NodeHeap T} {t : Queue T} {shared : Option LinkedQueue} {useCount : ℕ}
    (howned : Owned h t shared useCount) (hpos : 0 < useCount) :
    Owned h t shared (useCount + 1) := by
  cases howned with
  | live _ hq honly => exact .live (Nat.succ_pos _) hq honly
  | destroyed hnone => exact absurd hpos (Nat.lt_irrefl 0)

namespace Refines

variable {s s' : LinkedSystem T} {t : System T}

/-- As long as someone holds a `shared_ptr` the queue can be reached. -/
theorem deref (hr : Refines s t) (hpos : 0 < s.useCount) : ∃ q dummy nodes,
    s.shared = some q ∧ s.deref = .ok q ∧ q.Stands s.nodes dummy nodes t.shared ∧
      ∀ a, a ∉ dummy :: nodes → s.nodes.lookup a = none := by
  obtain ⟨q, dummy, nodes, hshared, hq, honly⟩ := hr.owned.exists_queue hpos
  refine ⟨q, dummy, nodes, hshared, ?_, hq, honly⟩
  unfold LinkedSystem.deref
  rw [hshared]
  rfl

/-- A sender is a handle. -/
theorem pos_of_sender (hr : Refines s t) {x : ℕ} (hx : x ∈ s.senders) : 0 < s.useCount := by
  have hcard : 0 < s.senders.card := Finset.card_pos.mpr ⟨x, hx⟩
  have huse := hr.useCount
  omega

/-- So is a receiver. -/
theorem pos_of_receiver (hr : Refines s t) {x : ℕ} (hx : x ∈ s.receivers) : 0 < s.useCount := by
  have hcard : 0 < s.receivers.card := Finset.card_pos.mpr ⟨x, hx⟩
  have huse := hr.useCount
  omega

/-- One waiting receiver is woken on both levels. -/
theorem wakeOne (hr : Refines s t) {r : ℕ} (hwaits : r ∈ s.waiting) :
    Refines { s with waiting := s.waiting.erase r, signalled := r ::ₘ s.signalled }
      { t with waiting := t.waiting.erase r, signalled := r ::ₘ t.signalled } :=
  { hr with
    waiting := congrArg (Multiset.erase · r) hr.waiting
    signalled := congrArg (r ::ₘ ·) hr.signalled
    blockedWaiting := fun x hx => hr.blockedWaiting x (Multiset.mem_of_mem_erase hx)
    blockedSignalled := fun x hx => by
      obtain rfl | hx := Multiset.mem_cons.mp hx
      · exact hr.blockedWaiting x hwaits
      · exact hr.blockedSignalled x hx }

/-- All waiting receivers are woken on both levels. -/
theorem wakeAll (hr : Refines s t) :
    Refines { s with waiting := 0, signalled := s.signalled + s.waiting }
      { t with waiting := 0, signalled := t.signalled + t.waiting } :=
  { hr with
    waiting := rfl
    signalled := congrArg₂ (· + ·) hr.signalled hr.waiting
    blockedWaiting := fun x hx => absurd hx (Multiset.notMem_zero x)
    blockedSignalled := fun x hx => by
      obtain hx | hx := Multiset.mem_add.mp hx
      · exact hr.blockedSignalled x hx
      · exact hr.blockedWaiting x hx }

/-- Both levels wake the same calls. -/
theorem notified (hr : Refines s t) {notify : Notify} (h : LinkedSystem.Notified notify s s') :
    ∃ t', Notified notify t t' ∧ Refines s' t' := by
  cases h with
  | none => exact ⟨t, .none t, hr⟩
  | nobody _ hnone => exact ⟨t, .nobody t (hr.waiting ▸ hnone), hr⟩
  | one _ r hwaits => exact ⟨_, .one t r (hr.waiting ▸ hwaits), hr.wakeOne hwaits⟩
  | all => exact ⟨_, .all t, hr.wakeAll⟩

/-- A notification on the list is one on the nodes. -/
theorem exists_notified (hr : Refines s t) {notify : Notify} {t' : System T}
    (h : Notified notify t t') : ∃ s', LinkedSystem.Notified notify s s' ∧
      s'.pending = s.pending ∧ Refines s' t' := by
  cases h with
  | none => exact ⟨s, .none s, rfl, hr⟩
  | nobody _ hnone => exact ⟨s, .nobody s (hr.waiting ▸ hnone), rfl, hr⟩
  | one _ r hwaits =>
    rw [← hr.waiting] at hwaits
    exact ⟨_, .one s r hwaits, rfl, hr.wakeOne hwaits⟩
  | all => exact ⟨_, .all s, rfl, hr.wakeAll⟩

end Refines

/-! ## Actions -/

/-- The event does not destroy a receiver under a call that is blocked in it. -/
def Event.Careful (t : System T) : Event T → Prop
  | .dropReceiver receiver => receiver ∉ t.waiting ∧ receiver ∉ t.signalled
  | _ => True

/-- The steps of a channel whose users take care of that. -/
def CarefulStep (t : System T) (e : Event T) (t' : System T) : Prop := Step t e t' ∧ e.Careful t

/-- What an action does on both levels, before anybody is woken. -/
def Action.Matched (a : Action T) (s : LinkedSystem T) (es : List (Event T)) (notify : Notify)
    (pending : Pending) (t : System T) : Prop :=
  ∃ s', a.exec s = .ok (es, notify, s') ∧ s'.pending = pending ∧ Refines s' t

namespace Refines

section actions
variable {s : LinkedSystem T} {t : System T}

/-- The `shared_ptr` of a sender is copied before the sender counts. -/
theorem retainSender (hr : Refines s t) {source : ℕ} (hsource : source ∈ s.senders) :
    (Action.retainSender source).Matched s [] .none
      { s.pending with copiedSenders := source ::ₘ s.pending.copiedSenders } t := by
  have hpos := hr.pos_of_sender hsource
  have huse := hr.useCount
  refine ⟨_, rfl, rfl, { hr with
    useCount := by simp only [Multiset.card_cons]; omega
    copiedSenders := fun x hx => ?_
    owned := hr.owned.retain hpos }⟩
  obtain rfl | hx := Multiset.mem_cons.mp hx
  · exact hsource
  · exact hr.copiedSenders x hx

/-- So is that of a receiver. -/
theorem retainReceiver (hr : Refines s t) {source : ℕ} (hsource : source ∈ s.receivers) :
    (Action.retainReceiver source).Matched s [] .none
      { s.pending with copiedReceivers := source ::ₘ s.pending.copiedReceivers } t := by
  have hpos := hr.pos_of_receiver hsource
  have huse := hr.useCount
  refine ⟨_, rfl, rfl, { hr with
    useCount := by simp only [Multiset.card_cons]; omega
    copiedReceivers := fun x hx => ?_
    owned := hr.owned.retain hpos }⟩
  obtain rfl | hx := Multiset.mem_cons.mp hx
  · exact hsource
  · exact hr.copiedReceivers x hx

/-- A sender is copied. -/
theorem copySender (hr : Refines s t) {source new : ℕ} (hsource : source ∈ s.pending.copiedSenders)
    (hnew : new ∉ s.senders) :
    (Action.copySender source new).Matched s [.copySender source new] .none
      { s.pending with copiedSenders := s.pending.copiedSenders.erase source }
      { t with shared := t.shared.incrProducerCnt, senders := insert new t.senders } := by
  have hpos := hr.pos_of_sender (hr.copiedSenders source hsource)
  have huse := hr.useCount
  obtain ⟨q, dummy, nodes, hshared, hderef, hq, honly⟩ := hr.deref hpos
  have hcopied : 0 < s.pending.copiedSenders.card :=
    Multiset.card_pos_iff_exists_mem.mpr ⟨source, hsource⟩
  refine ⟨{ s with
      shared := some q.incrProducerCnt
      senders := insert new s.senders
      pending.copiedSenders := s.pending.copiedSenders.erase source }, ?_, rfl, { hr with
    senders := congrArg (insert new) hr.senders
    useCount := ?_
    copiedSenders := fun x hx =>
      Finset.mem_insert_of_mem (hr.copiedSenders x (Multiset.mem_of_mem_erase hx))
    owned := .live hpos ⟨hq.listed, hq.consumers, congrArg (· + 1) hq.producers⟩ honly }⟩
  · simp only [Action.exec, hderef, Except.ok_bind]
    rfl
  · -- the `shared_ptr` of the copy is that of a handle now
    rw [Finset.card_insert_of_notMem hnew, Multiset.card_erase_of_mem hsource]
    simp only [Nat.pred_eq_sub_one]
    omega

/-- A receiver is copied. -/
theorem copyReceiver (hr : Refines s t) {source new : ℕ}
    (hsource : source ∈ s.pending.copiedReceivers) (hnew : new ∉ s.receivers) :
    (Action.copyReceiver source new).Matched s [.copyReceiver source new] .none
      { s.pending with copiedReceivers := s.pending.copiedReceivers.erase source }
      { t with shared := t.shared.incrConsumerCnt, receivers := insert new t.receivers } := by
  have hpos := hr.pos_of_receiver (hr.copiedReceivers source hsource)
  have huse := hr.useCount
  obtain ⟨q, dummy, nodes, hshared, hderef, hq, honly⟩ := hr.deref hpos
  have hcopied : 0 < s.pending.copiedReceivers.card :=
    Multiset.card_pos_iff_exists_mem.mpr ⟨source, hsource⟩
  refine ⟨{ s with
      shared := some q.incrConsumerCnt
      receivers := insert new s.receivers
      pending.copiedReceivers := s.pending.copiedReceivers.erase source }, ?_, rfl, { hr with
    receivers := congrArg (insert new) hr.receivers
    useCount := ?_
    copiedReceivers := fun x hx =>
      Finset.mem_insert_of_mem (hr.copiedReceivers x (Multiset.mem_of_mem_erase hx))
    blockedWaiting := fun x hx => Finset.mem_insert_of_mem (hr.blockedWaiting x hx)
    blockedSignalled := fun x hx => Finset.mem_insert_of_mem (hr.blockedSignalled x hx)
    owned := .live hpos ⟨hq.listed, congrArg (· + 1) hq.consumers, hq.producers⟩ honly }⟩
  · simp only [Action.exec, hderef, Except.ok_bind]
    rfl
  · -- one handle more, and one pending copy less
    rw [Finset.card_insert_of_notMem hnew, Multiset.card_erase_of_mem hsource]
    simp only [Nat.pred_eq_sub_one]
    omega

/-- A sender goes, with its `shared_ptr` still to release. -/
theorem dropSender (hr : Refines s t) {sender : ℕ} (hsender : sender ∈ s.senders)
    (hidle : sender ∉ s.pending.copiedSenders) :
    (Action.dropSender sender).Matched s [.dropSender sender] t.shared.decrProducerCnt.2
      { s.pending with leaving := s.pending.leaving + 1 }
      { t with shared := t.shared.decrProducerCnt.1, senders := t.senders.erase sender } := by
  have hpos := hr.pos_of_sender hsender
  have huse := hr.useCount
  obtain ⟨q, dummy, nodes, hshared, hderef, hq, honly⟩ := hr.deref hpos
  have hcard : 0 < s.senders.card := Finset.card_pos.mpr ⟨sender, hsender⟩
  -- the last sender wakes everybody
  have hnotify : q.decrProducerCnt.2 = t.shared.decrProducerCnt.2 := by
    simp only [LinkedQueue.decrProducerCnt, Queue.decrProducerCnt, hq.producers]
  refine ⟨{ s with
      shared := some q.decrProducerCnt.1
      senders := s.senders.erase sender
      pending.leaving := s.pending.leaving + 1 }, ?_, rfl, { hr with
    senders := congrArg (Finset.erase · sender) hr.senders
    useCount := ?_
    copiedSenders := fun x hx => Finset.mem_erase.mpr
      ⟨fun heq => hidle (heq ▸ hx), hr.copiedSenders x hx⟩
    owned := .live hpos ⟨hq.listed, hq.consumers, congrArg (· - 1) hq.producers⟩ honly }⟩
  · rw [← hnotify]
    simp only [Action.exec, hderef, Except.ok_bind]
    rfl
  · rw [Finset.card_erase_of_mem hsender]
    dsimp only
    omega

/-- A receiver goes, with its `shared_ptr` still to release. -/
theorem dropReceiver (hr : Refines s t) {receiver : ℕ} (hreceiver : receiver ∈ s.receivers)
    (hidle : receiver ∉ s.pending.copiedReceivers) (hwaiting : receiver ∉ s.waiting)
    (hsignalled : receiver ∉ s.signalled) :
    (Action.dropReceiver receiver).Matched s [.dropReceiver receiver] .none
      { s.pending with leaving := s.pending.leaving + 1 }
      { t with shared := t.shared.decrConsumerCnt, receivers := t.receivers.erase receiver } := by
  have hpos := hr.pos_of_receiver hreceiver
  have huse := hr.useCount
  obtain ⟨q, dummy, nodes, hshared, hderef, hq, honly⟩ := hr.deref hpos
  have hcard : 0 < s.receivers.card := Finset.card_pos.mpr ⟨receiver, hreceiver⟩
  -- a receiver that waits is not the one that goes
  have hkept : ∀ x ∈ s.receivers, x ≠ receiver → x ∈ s.receivers.erase receiver :=
    fun x hx hne => Finset.mem_erase.mpr ⟨hne, hx⟩
  refine ⟨{ s with
      shared := some q.decrConsumerCnt
      receivers := s.receivers.erase receiver
      pending.leaving := s.pending.leaving + 1 }, ?_, rfl, { hr with
    receivers := congrArg (Finset.erase · receiver) hr.receivers
    useCount := ?_
    copiedReceivers := fun x hx => hkept x (hr.copiedReceivers x hx) fun heq => hidle (heq ▸ hx)
    blockedWaiting := fun x hx => hkept x (hr.blockedWaiting x hx) fun heq => hwaiting (heq ▸ hx)
    blockedSignalled := fun x hx =>
      hkept x (hr.blockedSignalled x hx) fun heq => hsignalled (heq ▸ hx)
    owned := .live hpos ⟨hq.listed, congrArg (· - 1) hq.consumers, hq.producers⟩ honly }⟩
  · simp only [Action.exec, hderef, Except.ok_bind]
    rfl
  · rw [Finset.card_erase_of_mem hreceiver]
    dsimp only
    omega

/-- The last `shared_ptr` takes the nodes with it. -/
theorem release (hr : Refines s t) (hleaving : 0 < s.pending.leaving) :
    (Action.release (T := T)).Matched s [] .none
      { s.pending with leaving := s.pending.leaving - 1 } t := by
  have huse := hr.useCount
  have hpos : 0 < s.useCount := by omega
  obtain ⟨q, dummy, nodes, hshared, -, hq, honly⟩ := hr.deref hpos
  by_cases hlast : s.useCount - 1 = 0
  · -- the last handle takes the queue with it
    obtain ⟨h', hdestruct, hex⟩ := LinkedQueue.destruct_stands hq
    refine ⟨{ s with
        nodes := h'
        shared := none
        useCount := s.useCount - 1
        pending.leaving := s.pending.leaving - 1 }, ?_, rfl, { hr with
      useCount := by dsimp only; omega
      owned := ?_ }⟩
    · simp only [Action.exec, LinkedSystem.release, LinkedSystem.deref, if_pos hlast, hshared]
      show (do let s ← (do let nodes ← q.destruct s.nodes; _); _) = _
      rw [hdestruct]
      rfl
    · show Owned h' t.shared none (s.useCount - 1)
      rw [hlast]
      refine .destroyed fun a => ?_
      by_cases ha : a ∈ dummy :: nodes
      · exact hex.dead a ha List.not_mem_nil
      · rw [hex.frame a ha List.not_mem_nil]
        exact honly a ha
  · -- others are left
    refine ⟨{ s with
        useCount := s.useCount - 1
        pending.leaving := s.pending.leaving - 1 }, ?_, rfl, { hr with
      useCount := by dsimp only; omega
      owned := by rw [hshared]; exact .live (Nat.pos_of_ne_zero hlast) hq honly }⟩
    simp only [Action.exec, LinkedSystem.release, if_neg hlast]
    rfl

/-- A value is sent. -/
theorem send (hr : Refines s t) {sender : ℕ} (hsender : sender ∈ s.senders) (value : T) :
    (Action.send sender value).Matched s [.send sender value (t.shared.push value).1]
      (t.shared.push value).2.2 s.pending { t with shared := (t.shared.push value).2.1 } := by
  have hpos := hr.pos_of_sender hsender
  obtain ⟨q, dummy, nodes, hshared, hderef, hq, honly⟩ := hr.deref hpos
  obtain ⟨q', h', nodes', hpush, hq', hex⟩ := LinkedQueue.push_stands hq value
  refine ⟨{ s with nodes := h', shared := some q' }, ?_, rfl,
    { hr with owned := .live hpos hq' (Owned.exchange honly hex) }⟩
  simp only [Action.exec, hderef, hpush, Except.ok_bind]
  rfl

/-- A pass of `pop` leaves its call blocked or not. -/
theorem blockedAfter (hr : Refines s t) {receiver : ℕ} (hreceiver : receiver ∈ s.receivers)
    (result : PopResult T) : ∀ x ∈ blocked s.waiting receiver result, x ∈ s.receivers := by
  intro x hx
  cases result with
  | returns => exact hr.blockedWaiting x hx
  | waits =>
    obtain rfl | hx := Multiset.mem_cons.mp hx
    · exact hreceiver
    · exact hr.blockedWaiting x hx

/-- A receiver looks for a value. -/
theorem recv (hr : Refines s t) {receiver : ℕ} (hreceiver : receiver ∈ s.receivers) :
    (Action.recv (T := T) receiver).Matched s [.recv receiver t.shared.pop.1] .none s.pending
      { t with
        shared := t.shared.pop.2
        waiting := blocked t.waiting receiver t.shared.pop.1 } := by
  have hpos := hr.pos_of_receiver hreceiver
  -- what the list gives is what the queue of values gives
  obtain ⟨q, dummy, nodes, hshared, hderef, hq, honly⟩ := hr.deref hpos
  obtain ⟨q', h', nodes', hpop, hq', hex⟩ := LinkedQueue.pop_stands hq
  refine ⟨{ s with
      nodes := h'
      shared := some q'
      waiting := blocked s.waiting receiver t.shared.pop.1 }, ?_, rfl, { hr with
    waiting := congrArg (blocked · receiver t.shared.pop.1) hr.waiting
    blockedWaiting := hr.blockedAfter hreceiver _
    owned := .live hpos hq' (Owned.exchange honly hex) }⟩
  simp only [Action.exec, hderef, hpop, Except.ok_bind]
  rfl

/-- A receiver that was woken looks again. -/
theorem resume (hr : Refines s t) {receiver : ℕ} (hsignalled : receiver ∈ s.signalled) :
    (Action.resume (T := T) receiver).Matched s [.resume receiver t.shared.pop.1] .none s.pending
      { t with
        shared := t.shared.pop.2
        waiting := blocked t.waiting receiver t.shared.pop.1
        signalled := t.signalled.erase receiver } := by
  -- a call that was woken is one of a handle that is still there
  have hreceiver := hr.blockedSignalled receiver hsignalled
  have hpos := hr.pos_of_receiver hreceiver
  obtain ⟨q, dummy, nodes, hshared, hderef, hq, honly⟩ := hr.deref hpos
  obtain ⟨q', h', nodes', hpop, hq', hex⟩ := LinkedQueue.pop_stands hq
  refine ⟨{ s with
      nodes := h'
      shared := some q'
      waiting := blocked s.waiting receiver t.shared.pop.1
      signalled := s.signalled.erase receiver }, ?_, rfl, { hr with
    waiting := congrArg (blocked · receiver t.shared.pop.1) hr.waiting
    signalled := congrArg (Multiset.erase · receiver) hr.signalled
    blockedWaiting := hr.blockedAfter hreceiver _
    blockedSignalled := fun x hx => hr.blockedSignalled x (Multiset.mem_of_mem_erase hx)
    owned := .live hpos hq' (Owned.exchange honly hex) }⟩
  simp only [Action.exec, hderef, hpop, Except.ok_bind]
  rfl

/-- A receiver wakes up unasked. -/
theorem wake (hr : Refines s t) {receiver : ℕ} (hwaiting : receiver ∈ s.waiting) :
    (Action.wake (T := T) receiver).Matched s [.wake receiver] .none s.pending
      { t with
        waiting := t.waiting.erase receiver
        signalled := receiver ::ₘ t.signalled } :=
  ⟨_, rfl, rfl, hr.wakeOne hwaiting⟩

/-- A receiver looks without waiting. -/
theorem tryRecv (hr : Refines s t) {receiver : ℕ} (hreceiver : receiver ∈ s.receivers) :
    (Action.tryRecv (T := T) receiver).Matched s [.tryRecv receiver t.shared.tryPop.1] .none
      s.pending { t with shared := t.shared.tryPop.2 } := by
  have hpos := hr.pos_of_receiver hreceiver
  obtain ⟨q, dummy, nodes, hshared, hderef, hq, honly⟩ := hr.deref hpos
  obtain ⟨q', h', nodes', hpop, hq', hex⟩ := LinkedQueue.tryPop_stands hq
  refine ⟨{ s with nodes := h', shared := some q' }, ?_, rfl,
    { hr with owned := .live hpos hq' (Owned.exchange honly hex) }⟩
  simp only [Action.exec, hderef, hpop, Except.ok_bind]
  rfl

end actions

/-- An action that is allowed does not fault, and the channel can do the same. -/
theorem exec {s : LinkedSystem T} {t : System T} (hr : Refines s t) (a : Action T)
    (hallowed : a.Allowed s) : ∃ es notify pending t₁, a.Matched s es notify pending t₁ ∧
      ∀ t', Notified notify t₁ t' → Run CarefulStep t es t' := by
  cases a with
  -- to take or give back a `shared_ptr` is no event of the channel
  | retainSender source =>
    refine ⟨_, _, _, _, hr.retainSender hallowed, fun t' hn => ?_⟩
    rw [hn.none_eq]
    exact .nil
  | copySender source new =>
    obtain ⟨hsource, hnew⟩ := hallowed
    have hsender := hr.copiedSenders source hsource
    refine ⟨_, _, _, _, hr.copySender hsource hnew, fun t' hn => ?_⟩
    rw [hn.none_eq]
    exact .snoc .nil ⟨.copySender (hr.senders ▸ hsender) (hr.senders ▸ hnew), trivial⟩
  -- this one notifies, so the state behind is chosen
  | dropSender sender =>
    obtain ⟨hsender, hidle⟩ := hallowed
    exact ⟨_, _, _, _, hr.dropSender hsender hidle, fun t' hn =>
      .snoc .nil ⟨.dropSender (hr.senders ▸ hsender) hn, trivial⟩⟩
  | retainReceiver source =>
    refine ⟨_, _, _, _, hr.retainReceiver hallowed, fun t' hn => ?_⟩
    rw [hn.none_eq]
    exact .nil
  | copyReceiver source new =>
    obtain ⟨hsource, hnew⟩ := hallowed
    have hreceiver := hr.copiedReceivers source hsource
    refine ⟨_, _, _, _, hr.copyReceiver hsource hnew, fun t' hn => ?_⟩
    rw [hn.none_eq]
    exact .snoc .nil ⟨.copyReceiver (hr.receivers ▸ hreceiver) (hr.receivers ▸ hnew), trivial⟩
  | dropReceiver receiver =>
    obtain ⟨hreceiver, hidle, hwaiting, hsignalled⟩ := hallowed
    refine ⟨_, _, _, _, hr.dropReceiver hreceiver hidle hwaiting hsignalled, fun t' hn => ?_⟩
    rw [hn.none_eq]
    exact .snoc .nil ⟨.dropReceiver (hr.receivers ▸ hreceiver),
      hr.waiting ▸ hwaiting, hr.signalled ▸ hsignalled⟩
  | release =>
    refine ⟨_, _, _, _, hr.release hallowed, fun t' hn => ?_⟩
    rw [hn.none_eq]
    exact .nil
  -- this one, too
  | send sender value =>
    exact ⟨_, _, _, _, hr.send hallowed value, fun t' hn =>
      .snoc .nil ⟨.send value (hr.senders ▸ hallowed) hn, trivial⟩⟩
  | recv receiver =>
    refine ⟨_, _, _, _, hr.recv hallowed, fun t' hn => ?_⟩
    rw [hn.none_eq]
    exact .snoc .nil ⟨.recv (hr.receivers ▸ hallowed), trivial⟩
  | resume receiver =>
    refine ⟨_, _, _, _, hr.resume hallowed, fun t' hn => ?_⟩
    rw [hn.none_eq]
    exact .snoc .nil ⟨.resume (hr.signalled ▸ hallowed), trivial⟩
  | wake receiver =>
    refine ⟨_, _, _, _, hr.wake hallowed, fun t' hn => ?_⟩
    rw [hn.none_eq]
    exact .snoc .nil ⟨.wake (hr.waiting ▸ hallowed), trivial⟩
  | tryRecv receiver =>
    refine ⟨_, _, _, _, hr.tryRecv hallowed, fun t' hn => ?_⟩
    rw [hn.none_eq]
    exact .snoc .nil ⟨.tryRecv (hr.receivers ▸ hallowed), trivial⟩

end Refines

/-! ## Runs -/

/-- The channel over the nodes does what the channel over the list does. -/
theorem linkedStep_simulation :
    Simulation (LinkedStep (T := T)) CarefulStep id Refines where
  step s t es s' hr hstep := by
    obtain ⟨hallowed, hexec, hnotify⟩ := hstep
    -- the section of the refinement, which is the one that was run
    obtain ⟨es', notify, pending, t₁, ⟨s₁, hexec', -, hr₁⟩, hmatch⟩ := hr.exec _ hallowed
    rw [hexec] at hexec'
    injection hexec' with heq
    injection heq with hes heq
    injection heq with hsame hs
    subst hes hsame hs
    obtain ⟨t', hnotified, hr'⟩ := hr₁.notified hnotify
    exact ⟨t', hmatch t' hnotified, hr'⟩

/-- An action that the channel can take, taken. -/
theorem Action.Matched.step {a : Action T} {s : LinkedSystem T} {es : List (Event T)}
    {notify : Notify} {pending : Pending} {t t' : System T}
    (hm : a.Matched s es notify pending t) (hallowed : a.Allowed s) (hn : Notified notify t t') :
    ∃ s', LinkedStep s es s' ∧ s'.pending = pending ∧ Refines s' t' := by
  obtain ⟨s₁, hexec, hpending, hr⟩ := hm
  obtain ⟨s', hnotify, hsame, hr'⟩ := hr.exists_notified hn
  exact ⟨s', .intro hallowed hexec hnotify, hsame.trans hpending, hr'⟩

/-- The labels of the actions that make up an event. -/
def Event.actions : Event T → List (List (Event T))
  | .copySender source new => [[], [.copySender source new]]
  | .copyReceiver source new => [[], [.copyReceiver source new]]
  | .dropSender sender => [[.dropSender sender], []]
  | .dropReceiver receiver => [[.dropReceiver receiver], []]
  | e => [[e]]

/-- The sections of an event show the event and nothing else. -/
theorem Event.flatten_actions (e : Event T) : e.actions.flatten = [e] := by
  cases e <;> rfl

/-- Between two events of the channel no handle is half made. -/
theorem careful_simulation : Simulation (CarefulStep (T := T)) LinkedStep Event.actions
    fun t s => Refines s t ∧ s.pending = {} where
  step t s e t' hrel hstep := by
    obtain ⟨hr, hpending⟩ := hrel
    obtain ⟨hstep, hcareful⟩ := hstep
    have hnone : ∀ x, x ∉ s.pending.copiedSenders ∧ x ∉ s.pending.copiedReceivers := by
      simp [hpending]
    cases hstep with
    | @copySender source new hsource hnew =>
      rw [← hr.senders] at hsource hnew
      -- a copy is two sections: the pointer, then the count
      obtain ⟨s₁, hretain, hpending₁, hr₁⟩ := (hr.retainSender hsource).step hsource (.none t)
      have hcopied : source ∈ s₁.pending.copiedSenders := by simp [hpending₁]
      have hnew₁ : new ∉ s₁.senders := by rwa [hr₁.senders, ← hr.senders]
      obtain ⟨s', hcopy, hpending', hr'⟩ :=
        (hr₁.copySender hcopied hnew₁).step ⟨hcopied, hnew₁⟩ (.none _)
      exact ⟨s', (Run.snoc .nil hretain).snoc hcopy, hr',
        by simp [hpending', hpending₁, hpending]⟩
    -- the same two sections for a receiver
    | @copyReceiver source new hsource hnew =>
      rw [← hr.receivers] at hsource hnew
      obtain ⟨s₁, hretain, hpending₁, hr₁⟩ := (hr.retainReceiver hsource).step hsource (.none t)
      have hcopied : source ∈ s₁.pending.copiedReceivers := by simp [hpending₁]
      have hnew₁ : new ∉ s₁.receivers := by rwa [hr₁.receivers, ← hr.receivers]
      obtain ⟨s', hcopy, hpending', hr'⟩ :=
        (hr₁.copyReceiver hcopied hnew₁).step ⟨hcopied, hnew₁⟩ (.none _)
      exact ⟨s', (Run.snoc .nil hretain).snoc hcopy, hr',
        by simp [hpending', hpending₁, hpending]⟩
    | @dropSender _ sender hsender hnotify =>
      rw [← hr.senders] at hsender
      -- a destructor is two sections: the count, then the pointer
      obtain ⟨s₁, hdrop, hpending₁, hr₁⟩ := (hr.dropSender hsender (hnone sender).1).step
        ⟨hsender, (hnone sender).1⟩ hnotify
      have hleaving : 0 < s₁.pending.leaving := by simp [hpending₁]
      obtain ⟨s', hrelease, hpending', hr'⟩ := (hr₁.release hleaving).step hleaving (.none _)
      exact ⟨s', (Run.snoc .nil hdrop).snoc hrelease, hr',
        by simp [hpending', hpending₁, hpending]⟩
    | @dropReceiver receiver hreceiver =>
      rw [← hr.receivers] at hreceiver
      obtain ⟨hwaiting, hsignalled⟩ := hcareful
      rw [← hr.waiting] at hwaiting
      rw [← hr.signalled] at hsignalled
      obtain ⟨s₁, hdrop, hpending₁, hr₁⟩ :=
        (hr.dropReceiver hreceiver (hnone receiver).2 hwaiting hsignalled).step
          ⟨hreceiver, (hnone receiver).2, hwaiting, hsignalled⟩ (.none _)
      have hleaving : 0 < s₁.pending.leaving := by simp [hpending₁]
      obtain ⟨s', hrelease, hpending', hr'⟩ := (hr₁.release hleaving).step hleaving (.none _)
      exact ⟨s', (Run.snoc .nil hdrop).snoc hrelease, hr',
        by simp [hpending', hpending₁, hpending]⟩
    -- all the others are one section
    | @send _ sender value hsender hnotify =>
      rw [← hr.senders] at hsender
      obtain ⟨s', hsend, hpending', hr'⟩ := (hr.send hsender value).step hsender hnotify
      exact ⟨s', .snoc .nil hsend, hr', hpending'.trans hpending⟩
    | @recv receiver hreceiver =>
      rw [← hr.receivers] at hreceiver
      obtain ⟨s', hrecv, hpending', hr'⟩ := (hr.recv hreceiver).step hreceiver (.none _)
      exact ⟨s', .snoc .nil hrecv, hr', hpending'.trans hpending⟩
    | @resume receiver hsignalled =>
      rw [← hr.signalled] at hsignalled
      obtain ⟨s', hresume, hpending', hr'⟩ := (hr.resume hsignalled).step hsignalled (.none _)
      exact ⟨s', .snoc .nil hresume, hr', hpending'.trans hpending⟩
    | @wake receiver hwaiting =>
      rw [← hr.waiting] at hwaiting
      obtain ⟨s', hwake, hpending', hr'⟩ := (hr.wake hwaiting).step hwaiting (.none _)
      exact ⟨s', .snoc .nil hwake, hr', hpending'.trans hpending⟩
    | @tryRecv receiver hreceiver =>
      rw [← hr.receivers] at hreceiver
      obtain ⟨s', hrecv, hpending', hr'⟩ := (hr.tryRecv hreceiver).step hreceiver (.none _)
      exact ⟨s', .snoc .nil hrecv, hr', hpending'.trans hpending⟩

/-- The two channels start alike. -/
theorem channel_refines : ∃ s₀, LinkedSystem.channel T = .ok s₀ ∧ s₀.pending = {} ∧
    Refines s₀ (System.channel T) := by
  obtain ⟨q, h, hconstruct, hq, hex⟩ := LinkedQueue.construct_stands (T := T) .empty
  refine ⟨{ nodes := h, shared := some q, useCount := 2, senders := {0}, receivers := {0} },
    ?_, rfl, ?_⟩
  · simp only [LinkedSystem.channel, hconstruct, Except.ok_bind]
    rfl
  · exact {
      senders := rfl
      receivers := rfl
      waiting := rfl
      signalled := rfl
      useCount := rfl
      copiedSenders := fun x hx => absurd hx (Multiset.notMem_zero x)
      copiedReceivers := fun x hx => absurd hx (Multiset.notMem_zero x)
      blockedWaiting := fun x hx => absurd hx (Multiset.notMem_zero x)
      blockedSignalled := fun x hx => absurd hx (Multiset.notMem_zero x)
      -- the only node so far is the dummy node of the list
      owned := .live (Nat.succ_pos 1) hq fun a ha => by
        rw [hex.frame a List.not_mem_nil ha]
        rfl }

/-- A run over the nodes is one over the list. -/
theorem LinkedRun.refines {es : List (List (Event T))} {s : LinkedSystem T} (h : LinkedRun es s) :
    ∃ t, Run CarefulStep (System.channel T) es.flatten t ∧ Refines s t := by
  obtain ⟨s₀, hchannel, hrun⟩ := h
  obtain ⟨s₁, hchannel', -, hr⟩ := channel_refines (T := T)
  rw [hchannel] at hchannel'
  injection hchannel' with hsame
  subst hsame
  obtain ⟨t, hrun', hr'⟩ := linkedStep_simulation.run hrun hr
  refine ⟨t, ?_, hr'⟩
  rwa [visible, List.flatMap_id] at hrun'

/-- What a handle sees of the linked channel is a run of the channel: nothing else is to
    be seen of it, and all of that can happen. -/
theorem linked_channel_traces (es : List (Event T)) :
    (∃ ls s, LinkedRun ls s ∧ ls.flatten = es) ↔ ∃ t, Run CarefulStep (System.channel T) es t := by
  constructor
  · rintro ⟨ls, s, hrun, rfl⟩
    obtain ⟨t, hrun', -⟩ := hrun.refines
    exact ⟨t, hrun'⟩
  · rintro ⟨t, hrun⟩
    obtain ⟨s₀, hchannel, hpending, hr⟩ := channel_refines (T := T)
    obtain ⟨s, hrun', -⟩ := careful_simulation.run hrun ⟨hr, hpending⟩
    refine ⟨visible Event.actions es, s, ⟨s₀, hchannel, hrun'⟩, ?_⟩
    -- every step of the careful channel is a list of sections that shows just that step
    rw [visible, List.flatMap_def, List.flatten_flatten, List.map_map]
    have hone : ∀ e : Event T, (List.flatten ∘ Event.actions) e = [e] := Event.flatten_actions
    rw [List.map_congr_left fun e _ => hone e, ← List.flatMap_def, List.flatMap_singleton']

/-- The values of the channel are those in the nodes, no section that is run next faults, the
    queue is there as long as a handle is, or a call that copies or drops one has not returned,
    and the nodes that are not in use were freed, each of them once. -/
theorem linked_channel_refines {es : List (List (Event T))} {s : LinkedSystem T}
    (h : LinkedRun es s) : ∃ t, ChannelRun es.flatten t ∧
      s.senders = t.senders ∧ s.receivers = t.receivers ∧
      s.waiting = t.waiting ∧ s.signalled = t.signalled ∧
      (∀ a : Action T, a.Allowed s → ∃ r, a.exec s = .ok r) ∧
      s.useCount = s.senders.card + s.receivers.card + s.pending.copiedSenders.card +
        s.pending.copiedReceivers.card + s.pending.leaving ∧
      (s.shared = none ↔ s.useCount = 0) ∧
      (s.shared = none → ∀ a < s.nodes.size, s.nodes.freed.count a = 1) ∧
      ∀ q, s.shared = some q → q.consumderCount = t.shared.consumderCount ∧
        q.producerCount = t.shared.producerCount ∧
        ∃ dummy nodes, Listed q.queue s.nodes dummy nodes t.shared.queue ∧
          ∀ a < s.nodes.size, s.nodes.freed.count a = if a ∈ dummy :: nodes then 0 else 1 := by
  obtain ⟨t, hrun, hr⟩ := h.refines
  have hexec : ∀ a : Action T, a.Allowed s → ∃ r, a.exec s = .ok r := by
    intro a hallowed
    obtain ⟨_, _, _, _, ⟨_, hexec, -⟩, -⟩ := hr.exec a hallowed
    exact ⟨_, hexec⟩
  refine ⟨t, hrun.mono fun _ _ _ hstep => hstep.1, hr.senders, hr.receivers, hr.waiting,
    hr.signalled, hexec, hr.useCount, ?_⟩
  have howned := hr.owned
  generalize s.shared = shared, s.useCount = useCount at howned
  cases howned with
  | @live q dummy nodes _ hpos hq honly =>
    -- the queue is there
    refine ⟨⟨nofun, fun hzero => absurd hpos (by omega)⟩, nofun, fun q' hsome => ?_⟩
    injection hsome with hsame
    subst hsame
    refine ⟨hq.consumers, hq.producers, dummy, nodes, hq.listed, fun a ha => ?_⟩
    split
    · rename_i hmem
      obtain ⟨node, hlive⟩ := hq.listed.chain.lookup hmem
      exact List.count_eq_zero.mpr (Heap.not_mem_freed hlive)
    · rename_i hmem
      exact Heap.count_freed ha (honly a hmem)
  | destroyed hnone =>
    -- the queue is gone
    exact ⟨⟨fun _ => rfl, fun _ => rfl⟩, fun _ a ha => Heap.count_freed ha (hnone a), nofun⟩

/-- A value that nobody took goes with the last handle. -/
theorem linked_channel_refines_leftover : ∃ s : LinkedSystem ℕ,
    LinkedRun [[.send 0 7 (.ok ())], [.dropSender 0], [], [.dropReceiver 0], []] s ∧
      s.shared = none ∧ ∀ a < s.nodes.size, s.nodes.freed.count a = 1 := by
  let t : System ℕ := {
    shared := { queue := [7], consumderCount := 0, producerCount := 0 }
    senders := ∅
    receivers := ∅ }
  have hsend : Run CarefulStep (System.channel ℕ) [.send 0 7 (.ok ())]
      { shared := { queue := [7] }, senders := {0}, receivers := {0} } :=
    .snoc .nil ⟨.send 7 (by decide) (.nobody _ rfl), trivial⟩
  have hsender : Run CarefulStep (System.channel ℕ) [.send 0 7 (.ok ()), .dropSender 0]
      { shared := { queue := [7], producerCount := 0 }, senders := ∅, receivers := {0} } :=
    .snoc hsend ⟨.dropSender (by decide) (.all _), trivial⟩
  have hcareful : Run CarefulStep (System.channel ℕ)
      [.send 0 7 (.ok ()), .dropSender 0, .dropReceiver 0] t :=
    .snoc hsender ⟨.dropReceiver (by decide), by decide, by decide⟩
  obtain ⟨s₀, hchannel, hpending, hr⟩ := channel_refines (T := ℕ)
  obtain ⟨s, hrun, hr', hpending'⟩ := careful_simulation.run hcareful ⟨hr, hpending⟩
  -- no handle is left, and no section is unfinished
  have huse : s.useCount = 0 := by
    rw [hr'.useCount, hr'.senders, hr'.receivers, hpending']
    rfl
  have hlinked : LinkedRun [[.send 0 7 (.ok ())], [.dropSender 0], [], [.dropReceiver 0], []] s :=
    ⟨s₀, hchannel, hrun⟩
  obtain ⟨_, -, -, -, -, -, -, -, hgone, hfreed, -⟩ := linked_channel_refines hlinked
  exact ⟨s, hlinked, hgone.mpr huse, hfreed (hgone.mpr huse)⟩

end Webserv.Mpmc
