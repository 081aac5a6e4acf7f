import Mathlib.Data.List.TakeWhile
import Webserv.Native.Combinators

/-!
# When `fastest` and `collect` keep their promises

Both hand the values of their inputs on in one order, `arrivals`, which can be
told from the events alone: a value arrives when its promise is set, or at the
turn of its input if it was set before.  What becomes of the arriving values is
decided by the one moment at which the callback behind them is attached.

## Key results

- `arrivals_snoc`, `Tracks.step`: what the inputs hand on, and when
- `fastest_delivers_iff`: `fastest` delivers the first value once only if the
  callback is there before it, or nothing comes behind it
- `collect_resolves_iff`: `collect` resolves with the first `n` values only if at
  most `n` have arrived when it attaches its callback
-/

namespace Webserv.Futures

open Transition

variable {T : Type}

/-! ## The order of arrival -/

/-- What can be told of the inputs from their events. -/
structure Arrivals (T : Type) where
  turned : ℕ := 0
  values : ℕ → Option T := fun _ => none
  order : List T := []

/-- The value that arrives at an event. -/
def Arrivals.arriving (a : Arrivals T) : InputEvent T → Option T
  | .set i value => if i < a.turned then some value else none
  | .turn => a.values a.turned

def Arrivals.next (a : Arrivals T) (e : InputEvent T) : Arrivals T where
  turned :=
    match e with
    | .set _ _ => a.turned
    | .turn => a.turned + 1
  values :=
    match e with
    | .set i value => Function.update a.values i (some value)
    | .turn => a.values
  order := a.order ++ (a.arriving e).toList

/-- The history of the inputs. -/
def history (es : List (InputEvent T)) : Arrivals T := es.foldl Arrivals.next {}

/-- The values of the inputs in the order of their arrival. -/
def arrivals (es : List (InputEvent T)) : List T := (history es).order

/-- The order of arrival in a run that goes on. -/
theorem history_snoc (es : List (InputEvent T)) (e : InputEvent T) :
    history (es ++ [e]) = (history es).next e := by
  simp [history]

/-- What has arrived in a run that goes on. -/
theorem arrivals_snoc (es : List (InputEvent T)) (e : InputEvent T) :
    arrivals (es ++ [e]) = arrivals es ++ ((history es).arriving e).toList := by
  rw [arrivals, history_snoc]
  rfl

/-- What the shared state of one input has to be. -/
def TracksAt (a : Arrivals T) (i : ℕ) (st : SharedState T Unit) : Prop :=
  if i < a.turned then
    match a.values i with
    | none => st = { callback := .full () }
    | some _ => st.value = .movedFrom
  else
    match a.values i with
    | none => st = {}
    | some value => st = { value := .full value }

/-- The shared states of the inputs are as their history says. -/
structure Tracks (a : Arrivals T) (s : Inputs T) : Prop where
  turned : s.turned = a.turned
  states : ∀ i, TracksAt a i (s.states i)

/-- Nothing has arrived at first. -/
theorem tracks_init : Tracks (T := T) {} {} :=
  ⟨rfl, fun i => by simp [TracksAt]⟩

/-- An event of one input leaves the others as they are. -/
theorem Tracks.update {a a' : Arrivals T} {s : Inputs T} (h : Tracks a s) (i : ℕ)
    {st : SharedState T Unit} (hst : TracksAt a' i st)
    (hothers : ∀ j, j ≠ i → (j < a'.turned ↔ j < a.turned) ∧ a'.values j = a.values j) :
    ∀ j, TracksAt a' j (Function.update s.states i st j) := by
  intro j
  by_cases hj : j = i
  · subst hj
    rwa [Function.update_self]
  · -- the other inputs are where they were
    obtain ⟨hturned, hvalues⟩ := hothers j hj
    have hold := h.states j
    rw [Function.update_of_ne hj]
    simpa only [TracksAt, hturned, hvalues] using hold

/-- The call an arriving value comes with. -/
def arrivalCall : Option T → Call T Unit
  | none => .nothing
  | some value => .run () value

/-- An input that is not complete is set: its value arrives if the loop was there. -/
theorem Tracks.set {a : Arrivals T} {s : Inputs T} (h : Tracks a s) {i : ℕ} (value : T)
    (hfresh : (s.states i).value = .empty) :
    ((s.states i).setValue value).1 = arrivalCall (a.arriving (.set i value)) ∧
      TracksAt (a.next (.set i value)) i ((s.states i).setValue value).2 := by
  have hst := h.states i
  unfold TracksAt at hst ⊢
  -- either the input has its callback already, or the value waits for it
  by_cases hi : i < a.turned
  · simp only [if_pos hi] at hst
    cases hvalue : a.values i with
    | none =>
      rw [hvalue] at hst
      simp [hst, hi, Arrivals.arriving, Arrivals.next, arrivalCall, SharedState.setValue,
        SharedState.callByExecutor, Slot.hasValue]
    | some v =>
      rw [hvalue] at hst
      simp [hst] at hfresh
  · simp only [if_neg hi] at hst
    cases hvalue : a.values i with
    | none =>
      rw [hvalue] at hst
      simp [hst, hi, Arrivals.arriving, Arrivals.next, arrivalCall, SharedState.setValue,
        Slot.hasValue]
    | some v =>
      rw [hvalue] at hst
      simp [hst] at hfresh

/-- The loop comes to an input: its value arrives if it is complete. -/
theorem Tracks.turn {a : Arrivals T} {s : Inputs T} (h : Tracks a s) :
    ((s.states a.turned).setCallback ()).1 = arrivalCall (a.arriving .turn) ∧
      TracksAt (a.next .turn) a.turned ((s.states a.turned).setCallback ()).2 := by
  have hst := h.states a.turned
  unfold TracksAt at hst ⊢
  simp only [if_neg (Nat.lt_irrefl _)] at hst
  -- the promise was set before the turn, or it was not
  cases hvalue : a.values a.turned with
  | none =>
    rw [hvalue] at hst
    simp [hst, hvalue, Arrivals.arriving, Arrivals.next, arrivalCall, SharedState.setCallback,
      Slot.hasValue]
  | some v =>
    rw [hvalue] at hst
    simp [hst, hvalue, Arrivals.arriving, Arrivals.next, arrivalCall, SharedState.setCallback,
      SharedState.callByExecutor, Slot.hasValue]

/-- A step of the inputs makes the call of the arriving value. -/
theorem Tracks.step {a : Arrivals T} {s : Inputs T} {total : ℕ} (h : Tracks a s)
    (e : InputEvent T) (hready : s.Ready total e) :
    (s.step e).1 = arrivalCall (a.arriving e) ∧ Tracks (a.next e) (s.step e).2 := by
  cases e with
  | set i value =>
    obtain ⟨hcall, hst⟩ := h.set value hready.2
    refine ⟨hcall, h.turned, h.update i hst fun j hj => ⟨Iff.rfl, ?_⟩⟩
    show Function.update a.values i (some value) j = a.values j
    rw [Function.update_of_ne hj]
  | turn =>
    obtain ⟨hcall, hst⟩ := h.turn
    simp only [Inputs.step, h.turned]
    refine ⟨hcall, rfl, h.update a.turned hst fun j hj => ⟨?_, rfl⟩⟩
    -- the turn is that of one input, and the others keep their side of it
    show j < a.turned + 1 ↔ j < a.turned
    omega

/-- Behind an arrival `_callback = std::nullopt` is not seen any more. -/
theorem Tracks.afterCall {a : Arrivals T} {s : Inputs T} {total : ℕ} (h : Tracks a s)
    (e : InputEvent T) (hready : s.Ready total e) {value : T} (harrives : a.arriving e = some value) :
    Tracks (a.next e) ((s.step e).2.afterCall e) := by
  have hnext := (h.step e hready).2
  cases e with
  | turn => exact hnext
  | set i v =>
    refine ⟨hnext.turned, hnext.update i ?_ fun j _ => ⟨Iff.rfl, rfl⟩⟩
    have hst := hnext.states i
    -- only an input the loop has reached can bring a value
    have hi : i < a.turned := by
      by_contra hi
      simp [Arrivals.arriving, hi] at harrives
    have hvalue : (a.next (.set i v)).values i = some v := by
      show Function.update a.values i (some v) i = some v
      rw [Function.update_self]
    have hturned : i < (a.next (.set i v)).turned := hi
    -- the callback is empty on both sides now
    simp only [TracksAt, if_pos hturned, hvalue] at hst ⊢
    exact hst

/-! ## The events before the attach -/

section before
variable {ε : Type} (isAttach : ε → Bool)

/-- The events in front of the attach, all of them if there is none. -/
def before (es : List ε) : List ε := es.takeWhile fun e => !isAttach e

variable {isAttach}

/-- Before the attach is everything, as long as there is none. -/
theorem before_of_not_any {es : List ε} (h : es.any isAttach = false) : before isAttach es = es := by
  rw [before, List.takeWhile_eq_self_iff]
  intro e he
  simpa using List.any_eq_false.mp h e he

/-- Later events are not before the attach. -/
theorem before_snoc_of_any {es : List ε} (h : es.any isAttach = true) (e : ε) :
    before isAttach (es ++ [e]) = before isAttach es := by
  obtain ⟨e', he', hattach⟩ := List.any_eq_true.mp h
  unfold before
  rw [List.takeWhile_append, if_neg]
  intro hall
  have hsame := List.takeWhile_eq_self_iff.mp ((List.takeWhile_prefix _).eq_of_length hall) e' he'
  simp [hattach] at hsame

/-- The attach itself is not before it. -/
theorem before_snoc_of_not_any {es : List ε} (h : es.any isAttach = false) {e : ε}
    (he : isAttach e = true) : before isAttach (es ++ [e]) = es := by
  have hself := before_of_not_any h
  unfold before at hself ⊢
  rw [List.takeWhile_append, if_pos (by rw [hself]), List.takeWhile_cons_of_neg (by simp [he]),
    List.append_nil]

/-- What is read off the events before the attach goes on with another event until then. -/
theorem read_before_snoc {β : Type} (read : List ε → β) {es : List ε} {e : ε}
    (he : isAttach e = false) :
    read (before isAttach (es ++ [e])) =
      if es.any isAttach then read (before isAttach es) else read (es ++ [e]) := by
  by_cases hany : es.any isAttach = true
  · rw [if_pos hany, before_snoc_of_any hany]
  · have hnone : (es ++ [e]).any isAttach = false := by
      rw [List.any_append, Bool.not_eq_true] at *
      rw [hany, List.any_cons, he, List.any_nil]
      rfl
    rw [if_neg hany, before_of_not_any hnone]

end before

/-! ## `fastest` -/

namespace FastestEvent

/-- An event of an input. -/
def input? : FastestEvent T → Option (InputEvent T)
  | .input event _ => some event
  | .onComplete _ => none

def isOnComplete : FastestEvent T → Bool
  | .input _ _ => false
  | .onComplete _ => true

/-- What the returned future did: its callback ran, or a promise got an exception. -/
def call? : FastestEvent T → Option (Call T Unit)
  | .input _ .nothing => none
  | .onComplete .nothing => none
  | .input _ call => some call
  | .onComplete call => some call

end FastestEvent

/-- The values handed to the result's promise. -/
def Fastest.arrived (es : List (FastestEvent T)) : List T :=
  arrivals (es.filterMap FastestEvent.input?)

/-- Those handed to it before `on_complete` was called. -/
def Fastest.arrivedBefore (es : List (FastestEvent T)) : List T :=
  arrived (before FastestEvent.isOnComplete es)

/-- The runs of the callback and the exceptions. -/
def Fastest.calls (es : List (FastestEvent T)) : List (Call T Unit) :=
  es.filterMap FastestEvent.call?

/-- Once it is attached the callback runs once, as soon as there is a value, with
    the first one, and nothing is thrown. -/
def Fastest.Delivers (es : List (FastestEvent T)) : Prop :=
  calls es = if es.any FastestEvent.isOnComplete then ((arrived es).take 1).map (.run ()) else []

/-- The callback is there before the first value; or no value comes behind it, and
    the last one is the first. -/
def Fastest.Timely (es : List (FastestEvent T)) : Prop :=
  es.any FastestEvent.isOnComplete → arrivedBefore es = [] ∨
    (arrived es = arrivedBefore es ∧ (arrivedBefore es).getLast? = (arrivedBefore es).head?)

/-- The slot after a row of `set_value`s. -/
def lastSlot (values : List T) : Slot T :=
  match values.getLast? with
  | none => .empty
  | some value => .full value

/-- The value of a `set_value` on a slot without a callback is kept. -/
theorem lastSlot_snoc (values : List T) (value : T) :
    lastSlot (values ++ [value]) = .full value := by
  simp [lastSlot]

/-- How far `fastest` and the one callback of the returned future are: is it attached,
    what arrived before that, what arrived, the calls, and the result's state. -/
inductive FastestPhase : Bool → List T → List T → List (Call T Unit) → SharedState T Unit → Prop
    where
  | unattached (arrived : List T) :
      FastestPhase false arrived arrived [] { value := lastSlot arrived }
  | waiting : FastestPhase true [] [] [] { callback := .full () }
  | served (value : T) (more : List T) {result : SharedState T Unit}
      (hresult : result.callback = .empty) :
      FastestPhase true [] (value :: more) [.run () value] result
  /-- The callback came late: the slot keeps a function that was moved out. -/
  | late {before : List T} {value : T} (hlast : before.getLast? = some value) (more : List T)
      {result : SharedState T Unit} (hresult : result.callback = .movedFrom) :
      FastestPhase true before (before ++ more)
        (.run () value :: more.map fun _ => .badFunctionCall) result

/-- One more value on a callback slot that was never used, or is used up. -/
theorem FastestPhase.stored {attached : Bool} {before arrived : List T}
    {calls : List (Call T Unit)} {result : SharedState T Unit}
    (h : FastestPhase attached before arrived calls result) (value : T)
    (hresult : result.callback = .empty) :
    FastestPhase attached (if attached then before else arrived ++ [value]) (arrived ++ [value])
      calls { value := .full value } := by
  cases h with
  | unattached => exact lastSlot_snoc before value ▸ .unattached (before ++ [value])
  -- a callback that waits is not empty
  | waiting => cases hresult
  | served first more _ => exact .served first (more ++ [value]) rfl
  | late hlast more hmoved => simp [hmoved] at hresult

/-- The first value on a callback that waits. -/
theorem FastestPhase.ran {attached : Bool} {before arrived : List T}
    {calls : List (Call T Unit)} {result : SharedState T Unit}
    (h : FastestPhase attached before arrived calls result) (value : T)
    (hresult : result.callback = .full ()) :
    attached = true ∧ FastestPhase attached before (arrived ++ [value]) (calls ++ [.run () value])
      { value := .movedFrom } := by
  cases h with
  | unattached => cases hresult
  -- the first value behind the attach
  | waiting => exact ⟨rfl, .served value [] rfl⟩
  | served first more hempty => simp [hempty] at hresult
  | late hlast more hmoved => simp [hmoved] at hresult

/-- A value behind a callback that came late. -/
theorem FastestPhase.threw {attached : Bool} {before arrived : List T}
    {calls : List (Call T Unit)} {result : SharedState T Unit}
    (h : FastestPhase attached before arrived calls result) (value : T)
    (hresult : result.callback = .movedFrom) :
    attached = true ∧ FastestPhase attached before (arrived ++ [value])
      (calls ++ [.badFunctionCall]) { value := .movedFrom, callback := .movedFrom } := by
  cases h with
  | unattached => cases hresult
  | waiting => cases hresult
  -- the promise has its callback cleared there, so it cannot throw
  | served first more hempty => simp [hempty] at hresult
  | late hlast more _ =>
    have hmoved : ({ value := .movedFrom, callback := .movedFrom } :
        SharedState T Unit).callback = .movedFrom := rfl
    -- one more late value, and one more call that throws
    have hnext := FastestPhase.late hlast (more ++ [value]) hmoved
    rw [← List.append_assoc, List.map_append] at hnext
    exact ⟨rfl, hnext⟩

/-- `on_complete` runs the callback at once if there is a value, the last one. -/
theorem FastestPhase.attach {before arrived : List T} {calls : List (Call T Unit)}
    {result : SharedState T Unit} (h : FastestPhase false before arrived calls result) :
    (arrived = [] ∧ (result.setCallback ()).1 = .nothing ∧
      FastestPhase true arrived arrived calls (result.setCallback ()).2) ∨
    (∃ value, (result.setCallback ()).1 = .run () value ∧
      FastestPhase true arrived arrived (calls ++ [.run () value]) (result.setCallback ()).2) := by
  cases h with
  | unattached =>
    cases hlast : before.getLast? with
    -- nothing has arrived: the callback waits
    | none =>
      obtain rfl := List.getLast?_eq_none_iff.mp hlast
      exact .inl ⟨rfl, rfl, .waiting⟩
    -- the last value that arrived is the one that is left
    | some value =>
      have hslot : lastSlot before = .full value := by simp [lastSlot, hlast]
      have hmoved : (SharedState.setCallback ({ value := lastSlot before } : SharedState T Unit)
          ()).2.callback = .movedFrom := by
        rw [hslot]
        rfl
      have hnext := FastestPhase.late hlast [] hmoved
      rw [List.append_nil] at hnext
      refine .inr ⟨value, ?_, hnext⟩
      rw [hslot]
      rfl

/-- Until the attach the two orders agree. -/
theorem FastestPhase.before_eq {before arrived : List T} {calls : List (Call T Unit)}
    {result : SharedState T Unit} (h : FastestPhase false before arrived calls result) :
    before = arrived := by
  cases h with
  | unattached => rfl

/-- Nothing is called before the attach. -/
theorem FastestPhase.calls_eq_nil {before arrived : List T} {calls : List (Call T Unit)}
    {result : SharedState T Unit} (h : FastestPhase false before arrived calls result) :
    calls = [] := by
  cases h with
  | unattached => rfl

/-- After the attach the callback is called once, with the first value, or not as it should. -/
theorem FastestPhase.calls_iff {before arrived : List T} {calls : List (Call T Unit)}
    {result : SharedState T Unit} (h : FastestPhase true before arrived calls result) :
    calls = (arrived.take 1).map (.run ()) ↔
      before = [] ∨ (arrived = before ∧ before.getLast? = before.head?) := by
  cases h with
  | waiting => simp
  | served value more hresult => simp
  -- a late value throws, unless there is none and the last one was the only one
  | @late _ value hlast more _ hresult =>
    cases before with
    | nil => simp at hlast
    | cons first rest =>
      rw [hlast]
      cases more with
      | nil => simp
      | cons value' more => simp

section step
variable {total : ℕ} {es : List (FastestEvent T)} {s : Fastest T}

/-- An event of the inputs may bring a value. -/
theorem Fastest.arrived_snoc_input (es : List (FastestEvent T)) (e : InputEvent T)
    (call : Call T Unit) :
    arrived (es ++ [.input e call]) =
      arrived es ++ ((history (es.filterMap FastestEvent.input?)).arriving e).toList := by
  have hevents : (es ++ [FastestEvent.input e call]).filterMap FastestEvent.input? =
      es.filterMap FastestEvent.input? ++ [e] := List.filterMap_append
  rw [arrived, hevents, arrivals_snoc]
  rfl

/-- The calls of a run that goes on. -/
theorem Fastest.calls_snoc (es : List (FastestEvent T)) (e : FastestEvent T) :
    calls (es ++ [e]) = calls es ++ e.call?.toList := by
  cases h : e.call? <;> simp [calls, h]

/-- An event at which nothing arrives. -/
theorem Fastest.input_of_nothing {e : InputEvent T} (h : (s.inputs.step e).1 = .nothing) :
    s.input e = (.nothing, { s with inputs := (s.inputs.step e).2 }) := by
  rw [Fastest.input]
  generalize s.inputs.step e = r at h
  obtain ⟨call, inputs⟩ := r
  obtain rfl : call = .nothing := h
  rfl

/-- An arriving value is handed over to the result. -/
theorem Fastest.input_of_run {e : InputEvent T} {value : T}
    (h : (s.inputs.step e).1 = .run () value) :
    (s.result.callback = .empty ∧ s.input e =
      (.nothing, { s with
        inputs := (s.inputs.step e).2.afterCall e, result := { value := .full value } })) ∨
    (s.result.callback = .full () ∧ s.input e =
      (.run () value, { s with
        inputs := (s.inputs.step e).2.afterCall e, result := { value := .movedFrom } })) ∨
    (s.result.callback = .movedFrom ∧ s.input e =
      (.badFunctionCall, { s with
        inputs := (s.inputs.step e).2
        result := { value := .movedFrom, callback := .movedFrom } })) := by
  rw [Fastest.input]
  generalize s.inputs.step e = r at h
  obtain ⟨call, inputs⟩ := r
  obtain rfl : call = .run () value := h
  simp only [Fastest.handOver]
  -- the three ways a promise is set: nobody there, somebody there, set before
  obtain ⟨hempty, hset⟩ | ⟨⟨⟩, hfull, hset⟩ | ⟨hmoved, hset⟩ := s.result.setValue_cases value
  · exact .inl ⟨hempty, by simp only [hset]; rfl⟩
  · exact .inr (.inl ⟨hfull, by simp only [hset]; rfl⟩)
  · exact .inr (.inr ⟨hmoved, by simp only [hset]⟩)

/-- The inputs are as their events say, and the result is in one of its phases. -/
structure FastestDescribed (es : List (FastestEvent T)) (s : Fastest T) : Prop where
  tracks : Tracks (history (es.filterMap FastestEvent.input?)) s.inputs
  attached : es.any FastestEvent.isOnComplete = s.attached
  phase : FastestPhase s.attached (Fastest.arrivedBefore es) (Fastest.arrived es)
    (Fastest.calls es) s.result

/-- The description holds at first. -/
theorem fastestDescribed_init : FastestDescribed ([] : List (FastestEvent T)) {} :=
  ⟨tracks_init, rfl, .unattached []⟩

/-- What arrived before the attach is settled by it. -/
theorem Fastest.arrivedBefore_snoc_input (e : InputEvent T) (call : Call T Unit) :
    arrivedBefore (es ++ [.input e call]) =
      if es.any FastestEvent.isOnComplete then arrivedBefore es
      else arrived (es ++ [.input e call]) :=
  read_before_snoc arrived rfl

/-- An event of an input, with what it makes of the result. -/
theorem FastestDescribed.input {s' : Fastest T} {e : InputEvent T} (call : Call T Unit)
    (hs : FastestDescribed es s)
    (htracks : Tracks ((history (es.filterMap FastestEvent.input?)).next e) s'.inputs)
    (hsame : s'.attached = s.attached) {arriving : List T}
    (harriving : ((history (es.filterMap FastestEvent.input?)).arriving e).toList = arriving)
    (hphase : FastestPhase s.attached
      (if s.attached then Fastest.arrivedBefore es else Fastest.arrived es ++ arriving)
      (Fastest.arrived es ++ arriving)
      (Fastest.calls es ++ (FastestEvent.input e call).call?.toList) s'.result) :
    FastestDescribed (es ++ [.input e call]) s' := by
  subst harriving
  refine ⟨?_, ?_, ?_⟩
  · have hevents : (es ++ [FastestEvent.input e call]).filterMap FastestEvent.input? =
        es.filterMap FastestEvent.input? ++ [e] := List.filterMap_append
    rw [hevents, history_snoc]
    exact htracks
  · rw [hsame, ← hs.attached]
    simp [FastestEvent.isOnComplete]
  · -- what came before the attach only grows as long as there is none
    rw [hsame, Fastest.arrivedBefore_snoc_input, hs.attached, Fastest.arrived_snoc_input,
      Fastest.calls_snoc]
    exact hphase

/-- The attach, with what it makes of the result. -/
theorem FastestDescribed.onComplete {s' : Fastest T} (call : Call T Unit)
    (hs : FastestDescribed es s) (honce : s.attached = false) (hinputs : s'.inputs = s.inputs)
    (hattached : s'.attached = true)
    (hphase : FastestPhase true (Fastest.arrived es) (Fastest.arrived es)
      (Fastest.calls es ++ (FastestEvent.onComplete call).call?.toList) s'.result) :
    FastestDescribed (es ++ [.onComplete call]) s' := by
  have hevents : (es ++ [FastestEvent.onComplete call]).filterMap FastestEvent.input? =
      es.filterMap FastestEvent.input? := by
    rw [List.filterMap_append, List.filterMap_cons_none rfl, List.filterMap_nil, List.append_nil]
  -- this is the first attach, so all that has arrived came before it
  have hany : es.any FastestEvent.isOnComplete = false := hs.attached.trans honce
  refine ⟨?_, ?_, ?_⟩
  · rw [hevents, hinputs]
    exact hs.tracks
  · rw [hattached, List.any_append]
    simp [FastestEvent.isOnComplete]
  · rw [hattached, Fastest.arrivedBefore, before_snoc_of_not_any hany rfl, Fastest.calls_snoc]
    have harrived : Fastest.arrived (es ++ [.onComplete call]) = Fastest.arrived es := by
      rw [Fastest.arrived, hevents]
      rfl
    rw [harrived]
    exact hphase

/-- A step keeps the description. -/
theorem FastestStep.described {s' : Fastest T} {e : FastestEvent T} (h : FastestStep total s e s')
    (hs : FastestDescribed es s) : FastestDescribed (es ++ [e]) s' := by
  have hphase := hs.phase
  cases h with
  | input e hready =>
    obtain ⟨hcall, hnext⟩ := hs.tracks.step e hready
    -- a promise that has no callback yet brings nothing
    cases harriving : (history (es.filterMap FastestEvent.input?)).arriving e with
    | none =>
      rw [harriving] at hcall
      rw [Fastest.input_of_nothing hcall]
      refine hs.input .nothing hnext rfl (congrArg Option.toList harriving) ?_
      rw [Option.toList_none, List.append_nil]
      cases hattached : s.attached with
      | true => simpa [FastestEvent.call?, hattached] using hphase
      | false =>
        rw [hattached] at hphase
        simpa [FastestEvent.call?, hphase.before_eq] using hphase
    | some value =>
      have hafter := hs.tracks.afterCall e hready harriving
      rw [harriving] at hcall
      -- the value is stored, delivered, or meets a callback that is gone
      obtain ⟨hslot, hinput⟩ | ⟨hslot, hinput⟩ | ⟨hslot, hinput⟩ := Fastest.input_of_run hcall
      · rw [hinput]
        refine hs.input .nothing hafter rfl (congrArg Option.toList harriving) ?_
        have hnext := hphase.stored value hslot
        rwa [← List.append_nil (Fastest.calls es)] at hnext
      · rw [hinput]
        obtain ⟨hattached, hnext⟩ := hphase.ran value hslot
        refine hs.input (.run () value) hafter rfl (congrArg Option.toList harriving) ?_
        rw [if_pos hattached]
        exact hnext
      · rw [hinput]
        obtain ⟨hattached, hnext'⟩ := hphase.threw value hslot
        refine hs.input .badFunctionCall hnext rfl (congrArg Option.toList harriving) ?_
        rw [if_pos hattached]
        exact hnext'
  | onComplete hturned honce =>
    rw [honce] at hphase
    -- the last value that arrived is delivered at once
    obtain ⟨-, hcall, hnext⟩ | ⟨value, hcall, hnext⟩ := hphase.attach
    · rw [hcall]
      refine hs.onComplete .nothing honce rfl rfl ?_
      rwa [← List.append_nil (Fastest.calls es)] at hnext
    · rw [hcall]
      exact hs.onComplete (.run () value) honce rfl rfl hnext

end step

/-- So does a run. -/
theorem FastestRun.described {total : ℕ} {es : List (FastestEvent T)} {s : Fastest T}
    (h : FastestRun total es s) : FastestDescribed es s :=
  h.history fastestDescribed_init fun _ _ _ _ hs hstep => hstep.described hs

/-- `fastest` delivers the first value once, and nothing throws, exactly when the
    callback is attached in time. -/
theorem fastest_delivers_iff {total : ℕ} {es : List (FastestEvent T)} {s : Fastest T}
    (h : FastestRun total es s) : Fastest.Delivers es ↔ Fastest.Timely es := by
  obtain ⟨-, hattached, hphase⟩ := h.described
  unfold Fastest.Delivers Fastest.Timely
  rw [hattached]
  cases hbool : s.attached with
  | true =>
    rw [hbool] at hphase
    simpa using hphase.calls_iff
  | false =>
    rw [hbool] at hphase
    simpa using hphase.calls_eq_nil

/-- The callback is there first, and the second of two values comes to nothing. -/
theorem fastest_delivers_iff_early : ∃ es s, FastestRun (T := ℕ) 2 es s ∧
    Fastest.arrived es = [5, 6] ∧ Fastest.Delivers es := by
  have hrun : FastestRun (T := ℕ) 2 _ _ := .snoc (.snoc (.snoc (.snoc (.snoc .nil
    (.input .turn Nat.zero_lt_two)) (.input .turn Nat.one_lt_two)) (.onComplete rfl rfl))
    (.input (.set 1 5) ⟨Nat.one_lt_two, rfl⟩)) (.input (.set 0 6) ⟨Nat.zero_lt_two, rfl⟩)
  exact ⟨_, _, hrun, rfl, (fastest_delivers_iff hrun).mpr fun _ => Or.inl rfl⟩

/-- One of two inputs is complete when the callback comes; the other one's
    `Promise::set` throws. -/
theorem fastest_delivers_false : ¬ ∀ (total : ℕ) (es : List (FastestEvent ℕ)) (s : Fastest ℕ),
    0 < total → FastestRun total es s → Fastest.Delivers es := by
  intro h
  -- the first promise is set, both are attached to, and the second is set late
  have hrun : FastestRun (T := ℕ) 2 _ _ := .snoc (.snoc (.snoc (.snoc (.snoc .nil
    (.input (.set 0 5) ⟨Nat.zero_lt_two, rfl⟩)) (.input .turn Nat.zero_lt_two))
    (.input .turn (by exact Nat.one_lt_two))) (.onComplete rfl rfl))
    (.input (.set 1 6) ⟨Nat.one_lt_two, rfl⟩)
  have hdelivers := h 2 _ _ Nat.zero_lt_two hrun
  have hcalls : [Call.run () 5, Call.badFunctionCall] = [Call.run () 5] := hdelivers
  simp at hcalls

/-! ## `collect` -/

namespace CollectEvent

/-- An event of an input. -/
def input? : CollectEvent T → Option (InputEvent T)
  | .input event _ => some event
  | .attach _ => none

def isAttach : CollectEvent T → Bool
  | .input _ _ => false
  | .attach _ => true

/-- The values the returned future is resolved with. -/
def resolved : CollectEvent T → Option (List T)
  | .input _ resolved => resolved
  | .attach resolved => resolved

end CollectEvent

/-- The values added to the container. -/
def Collect.arrived (es : List (CollectEvent T)) : List T :=
  arrivals (es.filterMap CollectEvent.input?)

/-- Those added before `collect` attached its own callback. -/
def Collect.arrivedBefore (es : List (CollectEvent T)) : List T :=
  arrived (before CollectEvent.isAttach es)

/-- What the returned future is resolved with, each time. -/
def Collect.resolutions (es : List (CollectEvent T)) : List (List T) :=
  es.filterMap CollectEvent.resolved

/-- The returned future resolves once, as soon as `n` inputs are complete, with the
    values of the first `n`. -/
def Collect.Resolves (n : ℕ) (es : List (CollectEvent T)) : Prop :=
  resolutions es =
    if es.any CollectEvent.isAttach ∧ n ≤ (arrived es).length then [(arrived es).take n] else []

/-- At most `n` inputs are complete when `collect` attaches its own callback. -/
def Collect.AtMost (n : ℕ) (es : List (CollectEvent T)) : Prop :=
  es.any CollectEvent.isAttach → (arrivedBefore es).length ≤ n

/-- How far `collect` is: is its callback attached, what arrived before that, what
    arrived, the resolutions, and the container. -/
inductive CollectPhase (n : ℕ) :
    Bool → List T → List T → List (List T) → SharedContainer T Unit → Prop where
  | unattached (arrived : List T) :
      CollectPhase n false arrived arrived [] { values := arrived, requiredAmount := n }
  | waiting {before arrived : List T} (hbefore : before <+: arrived) (hfew : arrived.length < n) :
      CollectPhase n true before arrived []
        { values := arrived, requiredAmount := n, callback := some () }
  /-- The values at the attach, if they are enough, or those that make up `n`. -/
  | resolved {before values arrived : List T} (hbefore : before <+: values)
      (hvalues : values <+: arrived) (hlength : values.length = max n before.length) :
      CollectPhase n true before arrived [values] { values := arrived, requiredAmount := n }

/-- One more value in the container. -/
theorem CollectPhase.add {n : ℕ} {attached : Bool} {before arrived : List T}
    {resolutions : List (List T)} {container : SharedContainer T Unit}
    (h : CollectPhase n attached before arrived resolutions container) (value : T) :
    CollectPhase n attached (if attached then before else arrived ++ [value]) (arrived ++ [value])
      (resolutions ++ ((container.addValue value).1.map Prod.snd).toList)
      (container.addValue value).2 := by
  cases h with
  -- nothing is counted before the callback is there
  | unattached =>
    have hadd : SharedContainer.addValue
        ({ values := before, requiredAmount := n } : SharedContainer T Unit) value =
        (none, { values := before ++ [value], requiredAmount := n }) := by
      simp [SharedContainer.addValue]
    rw [hadd]
    exact .unattached (before ++ [value])
  | waiting hbefore hfew =>
    have hbefore' := hbefore.trans (List.prefix_append arrived [value])
    by_cases henough : n ≤ arrived.length + 1
    · -- the value that makes up `n`
      have hadd : SharedContainer.addValue
          ({ values := arrived, requiredAmount := n, callback := some () } :
            SharedContainer T Unit) value =
          (some ((), arrived ++ [value]), { values := arrived ++ [value], requiredAmount := n }) := by
        simp [SharedContainer.addValue, henough]
      rw [hadd, if_pos rfl]
      refine .resolved hbefore' (List.prefix_refl _) ?_
      have hle := hbefore.length_le
      rw [List.length_append, List.length_singleton]
      omega
    · have hadd : SharedContainer.addValue
          ({ values := arrived, requiredAmount := n, callback := some () } :
            SharedContainer T Unit) value =
          (none, { values := arrived ++ [value], requiredAmount := n, callback := some () }) := by
        simp [SharedContainer.addValue, henough]
      rw [hadd, if_pos rfl]
      refine .waiting hbefore' ?_
      rw [List.length_append, List.length_singleton]
      omega
  -- the callback is gone
  | @resolved _ values _ hbefore hvalues hlength =>
    have hadd : SharedContainer.addValue
        ({ values := arrived, requiredAmount := n } : SharedContainer T Unit) value =
        (none, { values := arrived ++ [value], requiredAmount := n }) := by
      simp [SharedContainer.addValue]
    rw [hadd, if_pos rfl]
    exact .resolved hbefore (hvalues.trans (List.prefix_append arrived [value])) hlength

/-- The attach resolves at once if there are enough values, with all of them. -/
theorem CollectPhase.attach {n : ℕ} {before arrived : List T} {resolutions : List (List T)}
    {container : SharedContainer T Unit}
    (h : CollectPhase n false before arrived resolutions container) :
    CollectPhase n true arrived arrived
      (resolutions ++ ((container.setCallback ()).1.map Prod.snd).toList)
      (container.setCallback ()).2 := by
  cases h with
  | unattached =>
    -- there may be enough values already, and then all of them are taken
    by_cases henough : n ≤ before.length
    · have hset : SharedContainer.setCallback
          ({ values := before, requiredAmount := n } : SharedContainer T Unit) () =
          (some ((), before), { values := before, requiredAmount := n }) := by
        simp [SharedContainer.setCallback, henough]
      rw [hset]
      show CollectPhase n true before before [before] _
      exact .resolved (List.prefix_refl _) (List.prefix_refl _) (Nat.max_eq_right henough).symm
    · have hset : SharedContainer.setCallback
          ({ values := before, requiredAmount := n } : SharedContainer T Unit) () =
          (none, { values := before, requiredAmount := n, callback := some () }) := by
        simp [SharedContainer.setCallback, henough]
      rw [hset]
      exact .waiting (List.prefix_refl _) (by omega)

/-- Until the attach the two orders agree. -/
theorem CollectPhase.before_eq {n : ℕ} {before arrived : List T} {resolutions : List (List T)}
    {container : SharedContainer T Unit}
    (h : CollectPhase n false before arrived resolutions container) : before = arrived := by
  cases h with
  | unattached => rfl

/-- Nothing is resolved before the attach. -/
theorem CollectPhase.resolutions_eq_nil {n : ℕ} {before arrived : List T}
    {resolutions : List (List T)} {container : SharedContainer T Unit}
    (h : CollectPhase n false before arrived resolutions container) : resolutions = [] := by
  cases h with
  | unattached => rfl

/-- After the attach it resolves with the first values unless too many were there. -/
theorem CollectPhase.resolutions_iff {n : ℕ} {before arrived : List T}
    {resolutions : List (List T)} {container : SharedContainer T Unit}
    (h : CollectPhase n true before arrived resolutions container) :
    resolutions = (if n ≤ arrived.length then [arrived.take n] else []) ↔ before.length ≤ n := by
  cases h with
  | waiting hbefore hfew =>
    have hle := hbefore.length_le
    rw [if_neg (by omega)]
    exact iff_of_true rfl (by omega)
  | @resolved _ values _ hbefore hvalues hlength =>
    have hle := hvalues.length_le
    rw [if_pos (by omega), List.cons.injEq, List.prefix_iff_eq_take.mp hvalues]
    constructor
    · -- as long as the first `n`, so no longer than `n`
      rintro ⟨htake, -⟩
      have hsame := congrArg List.length htake
      rw [List.length_take, List.length_take] at hsame
      omega
    · intro hfew
      have hn : values.length = n := by omega
      rw [hn]
      exact ⟨rfl, rfl⟩

section collect
variable {total n : ℕ} {es : List (CollectEvent T)} {s : Collect T}

/-- `promise.set` changes the result only. -/
theorem Collect.resolve_eq (s : Collect T) (called : Option (Unit × List T)) :
    (s.resolve called).1 = called.map Prod.snd ∧ (s.resolve called).2.inputs = s.inputs ∧
      (s.resolve called).2.container = s.container ∧
      (s.resolve called).2.attached = s.attached := by
  cases called with
  | none => exact ⟨rfl, rfl, rfl, rfl⟩
  | some call => exact ⟨rfl, rfl, rfl, rfl⟩

/-- An event at which nothing arrives. -/
theorem Collect.input_of_nothing {e : InputEvent T} (h : (s.inputs.step e).1 = .nothing) :
    s.input e = (none, { s with inputs := (s.inputs.step e).2 }) := by
  rw [Collect.input]
  generalize s.inputs.step e = r at h
  obtain ⟨call, inputs⟩ := r
  subst h
  rfl

/-- An event at which a value arrives. -/
theorem Collect.input_of_run {e : InputEvent T} {value : T}
    (h : (s.inputs.step e).1 = .run () value) :
    s.input e = Collect.resolve
      { s with inputs := (s.inputs.step e).2.afterCall e,
               container := (s.container.addValue value).2 }
      (s.container.addValue value).1 := by
  rw [Collect.input]
  -- the step of the input is the same on both sides
  generalize s.inputs.step e = r at h
  obtain ⟨call, inputs⟩ := r
  subst h
  rfl

/-- The inputs are as their events say, and the container is in one of its phases. -/
structure CollectDescribed (n : ℕ) (es : List (CollectEvent T)) (s : Collect T) : Prop where
  tracks : Tracks (history (es.filterMap CollectEvent.input?)) s.inputs
  attached : es.any CollectEvent.isAttach = s.attached
  phase : CollectPhase n s.attached (Collect.arrivedBefore es) (Collect.arrived es)
    (Collect.resolutions es) s.container

/-- An event of the inputs may bring a value. -/
theorem Collect.arrived_snoc_input (es : List (CollectEvent T)) (e : InputEvent T)
    (resolved : Option (List T)) :
    arrived (es ++ [.input e resolved]) =
      arrived es ++ ((history (es.filterMap CollectEvent.input?)).arriving e).toList := by
  have hevents : (es ++ [CollectEvent.input e resolved]).filterMap CollectEvent.input? =
      es.filterMap CollectEvent.input? ++ [e] := List.filterMap_append
  rw [arrived, hevents, arrivals_snoc]
  rfl

/-- What arrived before the attach is settled by it. -/
theorem Collect.arrivedBefore_snoc_input (e : InputEvent T) (resolved : Option (List T)) :
    arrivedBefore (es ++ [.input e resolved]) =
      if es.any CollectEvent.isAttach then arrivedBefore es
      else arrived (es ++ [.input e resolved]) :=
  read_before_snoc arrived rfl

/-- The resolutions of a run that goes on. -/
theorem Collect.resolutions_snoc (es : List (CollectEvent T)) (e : CollectEvent T) :
    resolutions (es ++ [e]) = resolutions es ++ e.resolved.toList := by
  cases h : e.resolved <;> simp [resolutions, h]

/-- An event of an input, with what it makes of the container. -/
theorem CollectDescribed.input {s' : Collect T} {e : InputEvent T} (resolved : Option (List T))
    (hs : CollectDescribed n es s)
    (htracks : Tracks ((history (es.filterMap CollectEvent.input?)).next e) s'.inputs)
    (hsame : s'.attached = s.attached) {arriving : List T}
    (harriving : ((history (es.filterMap CollectEvent.input?)).arriving e).toList = arriving)
    (hphase : CollectPhase n s.attached
      (if s.attached then Collect.arrivedBefore es else Collect.arrived es ++ arriving)
      (Collect.arrived es ++ arriving) (Collect.resolutions es ++ resolved.toList) s'.container) :
    CollectDescribed n (es ++ [.input e resolved]) s' := by
  subst harriving
  refine ⟨?_, ?_, ?_⟩
  · have hevents : (es ++ [CollectEvent.input e resolved]).filterMap CollectEvent.input? =
        es.filterMap CollectEvent.input? ++ [e] := List.filterMap_append
    rw [hevents, history_snoc]
    exact htracks
  · rw [hsame, ← hs.attached]
    simp [CollectEvent.isAttach]
  · -- as for `fastest`, the attach freezes what came before it
    rw [hsame, Collect.arrivedBefore_snoc_input, hs.attached, Collect.arrived_snoc_input,
      Collect.resolutions_snoc]
    exact hphase

/-- A step keeps the description. -/
theorem CollectStep.described {s' : Collect T} {e : CollectEvent T} (h : CollectStep total s e s')
    (hs : CollectDescribed n es s) : CollectDescribed n (es ++ [e]) s' := by
  have hphase := hs.phase
  cases h with
  | input e hready =>
    obtain ⟨hcall, hnext⟩ := hs.tracks.step e hready
    -- a promise that has no callback yet brings nothing
    cases harriving : (history (es.filterMap CollectEvent.input?)).arriving e with
    | none =>
      rw [harriving] at hcall
      rw [Collect.input_of_nothing hcall]
      refine hs.input none hnext rfl (congrArg Option.toList harriving) ?_
      rw [Option.toList_none, List.append_nil, Option.toList_none, List.append_nil]
      cases hattached : s.attached with
      | true => simpa [hattached] using hphase
      | false =>
        rw [hattached] at hphase
        simpa [hphase.before_eq] using hphase
    -- the value goes into the container, which may hand all of them over
    | some value =>
      have hafter := hs.tracks.afterCall e hready harriving
      rw [harriving] at hcall
      rw [Collect.input_of_run hcall]
      obtain ⟨hresolved, hinputs, hcontainer, hsame⟩ := Collect.resolve_eq
        { s with inputs := (s.inputs.step e).2.afterCall e,
                 container := (s.container.addValue value).2 } (s.container.addValue value).1
      refine hs.input _ (hinputs ▸ hafter) hsame (congrArg Option.toList harriving) ?_
      rw [hresolved, hcontainer]
      exact hphase.add value
  -- the attach looks at what is there
  | attach hturned honce =>
    rw [honce] at hphase
    have hany : es.any CollectEvent.isAttach = false := hs.attached.trans honce
    obtain ⟨hresolved, hinputs, hcontainer, hsame⟩ := Collect.resolve_eq
      { s with container := (s.container.setCallback ()).2, attached := true }
      (s.container.setCallback ()).1
    have hevents : (es ++ [CollectEvent.attach s.attach.1]).filterMap CollectEvent.input? =
        es.filterMap CollectEvent.input? := by
      rw [List.filterMap_append, List.filterMap_cons_none rfl, List.filterMap_nil,
        List.append_nil]
    refine ⟨?_, ?_, ?_⟩
    · rw [hevents]
      exact hinputs ▸ hs.tracks
    · rw [show s.attach.2.attached = true from hsame, List.any_append]
      simp [CollectEvent.isAttach]
    · have harrived : Collect.arrived (es ++ [.attach s.attach.1]) = Collect.arrived es := by
        rw [Collect.arrived, hevents]
        rfl
      rw [show s.attach.2.attached = true from hsame, Collect.arrivedBefore,
        before_snoc_of_not_any hany rfl, Collect.resolutions_snoc, harrived,
        show s.attach.2.container = _ from hcontainer,
        show (CollectEvent.attach s.attach.1).resolved = _ from hresolved]
      exact hphase.attach

end collect

/-- So does a run. -/
theorem CollectRun.described {total n : ℕ} {es : List (CollectEvent T)} {s : Collect T}
    (h : CollectRun total n es s) : CollectDescribed n es s :=
  h.history ⟨tracks_init, rfl, .unattached []⟩ fun _ _ _ _ hs hstep => hstep.described hs

/-- `collect` resolves once, with the first `n` values, exactly when at most `n` have
    arrived as it attaches its callback. -/
theorem collect_resolves_iff {total n : ℕ} {es : List (CollectEvent T)} {s : Collect T}
    (h : CollectRun total n es s) : Collect.Resolves n es ↔ Collect.AtMost n es := by
  obtain ⟨-, hattached, hphase⟩ := h.described
  unfold Collect.Resolves Collect.AtMost
  rw [hattached]
  cases hbool : s.attached with
  | true =>
    rw [hbool] at hphase
    simpa using hphase.resolutions_iff
  | false =>
    rw [hbool] at hphase
    simpa using hphase.resolutions_eq_nil

/-- One of two inputs is complete at the attach, the other one comes too late. -/
theorem collect_resolves_iff_one : ∃ es s, CollectRun (T := ℕ) 2 1 es s ∧
    Collect.arrived es = [5, 6] ∧ Collect.Resolves 1 es := by
  have hrun : CollectRun (T := ℕ) 2 1 _ _ := .snoc (.snoc (.snoc (.snoc (.snoc .nil
    (.input (.set 0 5) ⟨Nat.zero_lt_two, rfl⟩)) (.input .turn Nat.zero_lt_two))
    (.input .turn (by exact Nat.one_lt_two))) (.attach rfl rfl))
    (.input (.set 1 6) ⟨Nat.one_lt_two, rfl⟩)
  exact ⟨_, _, hrun, rfl, (collect_resolves_iff hrun).mpr fun _ => Nat.le_refl 1⟩

/-- Two inputs are complete when `collect` is called for one of them. -/
theorem collect_resolves_false : ¬ ∀ (total n : ℕ) (es : List (CollectEvent ℕ)) (s : Collect ℕ),
    n ≤ total → CollectRun total n es s → Collect.Resolves n es := by
  intro h
  have hrun : CollectRun (T := ℕ) 2 1 _ _ := .snoc (.snoc (.snoc (.snoc (.snoc .nil
    (.input (.set 0 5) ⟨Nat.zero_lt_two, rfl⟩)) (.input (.set 1 6) ⟨Nat.one_lt_two, rfl⟩))
    (.input .turn Nat.zero_lt_two)) (.input .turn (by exact Nat.one_lt_two))) (.attach rfl rfl)
  have hresolves := h 2 1 _ _ Nat.one_lt_two.le hrun
  have hvalues : [[5, 6]] = [[5]] := hresolves
  simp at hvalues

end Webserv.Futures
