import Webserv.Native.Connection
import Webserv.Spec.FutureEmbedding
import Webserv.Spec.MessageStreams

/-!
# Reads that a parser does not survive

`operator()` and `create_entity` throw on some messages: a header line that ends
with its colon, a body whose length is not told.  In `read_entity` nobody catches
that, so the process ends in the middle of the handler that has read the part.

## Key results

- `readFault_eq_some_iff`: the fault is that of the parser on the parts that were read
- `upToFault_readLoop`: it is what `read_entity` shows, and nothing is shown before it
- `readFault_message`: on the way of a message that is accepted there is none
-/

namespace Webserv

open Futures Fut

namespace Http

variable {F E : Type} {fmt : Format F E}

/-- The fault of a call of the parser over these reads, if there is one. -/
def readFault (fmt : Format F E) : Parser F → List ReadEvent → Option Fault
  | _, [] => none
  | p, ev :: evs =>
    match ev.result with
    | .error _ => none
    | .ok part =>
      match Parser.operatorCall fmt p part with
      | .error f => some f
      | .ok (.pending, p) => readFault fmt p evs
      | .ok (.ready, p) =>
        match fmt.createEntity p with
        | .error f => some f
        | .ok _ => none

/-- The reads in front of the first one that failed. -/
def untilFailure (evs : List ReadEvent) : List ReadEvent := evs.takeWhile fun ev => ev.result.isOk

/-- The fault is that of the parser on the parts that were read. -/
theorem readFault_eq_some_iff {p : Parser F} {evs : List ReadEvent} {f : Fault} :
    readFault fmt p evs = some f ↔
      fmt.conclude (Parser.feedChunks fmt p (partsOf (untilFailure evs))) = .fault f := by
  -- induction on the outcomes of the reads
  induction evs generalizing p with
  | nil =>
    rw [untilFailure, List.takeWhile_nil, partsOf_nil, Parser.feedChunks, Incremental.feed_nil]
    exact iff_of_false (fun h => by cases h) fun h => by cases h
  | cons ev evs ih =>
    rw [readFault, untilFailure, List.takeWhile_cons]
    cases hev : ev.result with
    -- the loop returns, and what is read behind it plays no part
    | error err =>
      simp only [Except.isOk, Except.toBool, Bool.false_eq_true, if_false, partsOf_nil]
      rw [Parser.feedChunks, Incremental.feed_nil]
      exact iff_of_false (fun h => by cases h) fun h => by cases h
    | ok part =>
      simp only [Except.isOk, Except.toBool, if_true]
      rw [partsOf_cons_ok hev, Parser.feedChunks, Incremental.feed]
      cases hcall : Parser.operatorCall fmt p part with
      | error f' => simp [Format.conclude]
      | ok r =>
        obtain ⟨st, q⟩ := r
        cases st with
        | pending => exact ih
        | ready =>
          cases hentity : fmt.createEntity q with
          | error f' => simp [Format.conclude, hentity]
          | ok res => simp [Format.conclude, hentity]

/-- What is fed behind a failure does not count. -/
theorem readFault_eq_none {p : Parser F} {evs : List ReadEvent}
    (h : ∀ f, fmt.conclude (Parser.feedChunks fmt p (partsOf evs)) ≠ .fault f) :
    readFault fmt p evs = none := by
  by_contra hne
  obtain ⟨f, hf⟩ := Option.ne_none_iff_exists'.mp hne
  have hfault := readFault_eq_some_iff.mp hf
  -- what was read up to a failure is a beginning of all that was read
  obtain ⟨rest, hrest⟩ : untilFailure evs <+: evs := List.takeWhile_prefix _
  have hparts : partsOf evs = partsOf (untilFailure evs) ++ partsOf rest :=
    (congrArg partsOf hrest).symm.trans List.filterMap_append
  have hsettled : Parser.feedChunks fmt p (partsOf evs) =
      Parser.feedChunks fmt p (partsOf (untilFailure evs)) := by
    rw [hparts]
    refine Incremental.feed_append_of_settled _ fun q hq => ?_
    rw [Parser.feedChunks, hq] at hfault
    cases hfault
  exact h f (hsettled ▸ hfault)

/-- On the way of a message that the parser accepts there is no fault. -/
theorem readFault_message {s : Bytes} {e : E} (h : fmt.outcome [s] = .entity (.ok e))
    {evs : List ReadEvent} (hcut : Parser.LineAligned fmt (partsOf evs))
    (hbegins : (partsOf evs).flatten <+: s) : readFault fmt (.fresh fmt) evs = none := by
  refine readFault_eq_none fun f hfault => ?_
  obtain ⟨-, p, hfeed⟩ | ⟨p, hfeed, hentity⟩ := Format.feedChunks_message h hcut hbegins
  · rw [hfeed] at hfault
    cases hfault
  · rw [hfeed, Format.conclude, hentity] at hfault
    cases hfault

/-- Nor on that of nothing. -/
theorem readFault_silence {evs : List ReadEvent} (hcut : Parser.LineAligned fmt (partsOf evs))
    (hnone : (partsOf evs).flatten = []) : readFault fmt (.fresh fmt) evs = none := by
  refine readFault_eq_none fun f hfault => ?_
  rw [Parser.feedChunks_eq_operatorCall hcut, hnone, Parser.operatorCall_fresh_nil] at hfault
  cases hfault

end Http

namespace Connection

open Http

/-- These effects, or only the fault if there is one. -/
def orFault (fault : Option Fault) (effs : List ConnectionEffect) : List ConnectionEffect :=
  match fault with
  | none => effs
  | some f => [.fault f]

/-- These effects, or some that begin with the fault if there is one. -/
def UpToFault (fault : Option Fault) (effs done : List ConnectionEffect) : Prop :=
  match fault with
  | none => done = effs
  | some f => [.fault f] <+: done

/-- Nothing is done behind a fault. -/
def FaultsLast (effs : List ConnectionEffect) : Prop :=
  ∀ pre f post, effs = pre ++ .fault f :: post → post = []

section upTo
variable {fault fault' : Option Fault} {effs done done' sofar : List ConnectionEffect}

/-- What is done behind a fault is not asked for. -/
theorem UpToFault.append (h : UpToFault fault [] done) (h' : UpToFault fault' effs done') :
    UpToFault (fault.or fault') effs (done ++ done') := by
  cases fault with
  | none =>
    obtain rfl : done = [] := h
    exact h'
  | some f => exact List.IsPrefix.trans h (List.prefix_append _ _)

/-- Where there is no fault, these effects are all. -/
theorem UpToFault.eq_of_notMem (h : UpToFault fault effs done) (hnot : ∀ f, .fault f ∉ done) :
    fault = none ∧ done = effs := by
  cases fault with
  | none => exact ⟨rfl, h⟩
  | some f => exact absurd (h.subset List.mem_cons_self) (hnot f)

/-- Without a fault there is nothing behind one. -/
theorem faultsLast_of_notMem (h : ∀ f, .fault f ∉ effs) : FaultsLast effs := by
  intro pre f post heq
  exact absurd (heq ▸ List.mem_append_right pre List.mem_cons_self) (h f)

/-- One more effect may be a fault. -/
theorem faultsLast_concat (h : ∀ f, .fault f ∉ effs) (effect : ConnectionEffect) :
    FaultsLast (effs ++ [effect]) := by
  intro pre f post heq
  obtain rfl | ⟨post, last, rfl⟩ := List.eq_nil_or_concat post
  · rfl
  · -- a fault in the middle would be an earlier one
    rw [List.concat_eq_append, ← List.cons_append, ← List.append_assoc] at heq
    obtain ⟨hpre, -⟩ := List.append_inj' heq rfl
    exact absurd (hpre ▸ List.mem_append_right pre List.mem_cons_self) (h f)

/-- What was done up to a fault is no more than the fault. -/
theorem UpToFault.prefix (h : UpToFault fault effs done) (hsofar : sofar <+: done)
    (hlast : FaultsLast sofar) : sofar <+: orFault fault effs := by
  cases fault with
  | none =>
    obtain rfl : done = effs := h
    exact hsofar
  -- the fault is the first effect that is shown
  | some f =>
    cases sofar with
    | nil => exact List.nil_prefix
    | cons effect rest =>
      obtain ⟨tail, rfl⟩ := h
      obtain ⟨rfl, -⟩ := List.cons_prefix_cons.mp hsofar
      rw [hlast [] f rest rfl]
      exact List.prefix_rfl

end upTo

/-- What is seen of the calls of a creator. -/
def shownBy {σ Entity Err : Type} (shown : ReadEffect σ Entity Err → List ConnectionEffect)
    (trace : Trace (readSignature σ Entity Err)) : List ConnectionEffect :=
  (trace.filterMap Note.effect?).flatMap shown

section shownBy
variable {F E : Type} {fmt : Format F E} {impl : EntityCreator (Parser F) E Http.Error}
  {shown : ReadEffect (Parser F) E Http.Error → List ConnectionEffect}

/-- An answer is not shown. -/
@[simp] theorem shownBy_answered {ev : ReadEvent}
    (trace : Trace (readSignature (Parser F) E Http.Error)) :
    shownBy shown (.answered () ev :: trace) = shownBy shown trace := rfl

/-- An effect is shown as `shown` says. -/
@[simp] theorem shownBy_performed (effect : ReadEffect (Parser F) E Http.Error)
    (trace : Trace (readSignature (Parser F) E Http.Error)) :
    shownBy shown (.performed effect :: trace) = shown effect ++ shownBy shown trace := rfl

/-- The loop shows the fault of the parser, and nothing before it. -/
theorem upToFault_readLoop (himpl : fmt.IsCreator impl)
    (hfed : ∀ p part, shown (.fed p part) = ConnectionEffect.ofCall (Parser.operatorCall fmt p part))
    (hcreated : ∀ p, shown (.created p) = ConnectionEffect.ofCall (fmt.createEntity p)) (p : Parser F)
    (evs : List ReadEvent) :
    UpToFault (readFault fmt p evs) [] (shownBy shown (readLoop impl p evs).1) := by
  -- induction on the outcomes of the reads
  induction evs generalizing p with
  | nil => rfl
  | cons ev evs ih =>
    rw [readFault, readLoop]
    cases hev : ev.result with
    | error err => rfl
    | ok part =>
      dsimp only
      cases hcall : Parser.operatorCall fmt p part with
      | error f =>
        -- this call is the last one, whatever would come behind it
        have hshown : shown (.fed p part) = [.fault f] := by
          rw [hfed, hcall]
          rfl
        rcases impl.call p part with ⟨_ | _, q⟩
        · dsimp only
          rw [shownBy_answered, shownBy_performed, hshown]
          exact List.prefix_append _ _
        · dsimp only
          rw [shownBy_answered, shownBy_performed, hshown]
          exact List.prefix_append _ _
      | ok r =>
        -- a call that returns shows nothing
        have hshown : shown (.fed p part) = [] := by
          rw [hfed, hcall]
          rfl
        rw [himpl.call hcall]
        obtain ⟨_ | _, q⟩ := r
        · dsimp only
          rw [shownBy_answered, shownBy_performed, hshown]
          exact ih q
        · dsimp only
          rw [shownBy_answered, shownBy_performed, shownBy_performed, hshown, hcreated]
          cases fmt.createEntity q with
          | error f => exact List.prefix_rfl
          | ok res => rfl

end shownBy

end Connection

end Webserv
