import Webserv.Native.FutIo
import Webserv.Native.HttpSerializer
import Webserv.Spec.FutureExecution

/-!
# `write_all` and `write_entity`

What the writer has accepted is compared with the pieces a serializer yields,
and the count a future resolves with with what was written.

## Key results

- `writeEntity_writes_pieces`: the bytes on the wire are the pieces, in order
- `writeAll_count_iff`: when the count is right
-/

namespace Webserv.Fut

open Futures Transition

variable {σ : Type}

/-! ## What the writer saw -/

/-- `write` accepts no more than it is offered. -/
theorem WriteEvent.result_le {offered : Bytes} {ev : WriteEvent offered} {cnt : ℕ}
    (h : ev.result = .ok cnt) : cnt ≤ offered.length := by
  rcases ev with _ | _ | _ | n
  · cases h
  · cases h
  · cases h
  · cases h
    exact Nat.le_of_lt_succ n.isLt

/-- The bytes that are accepted. -/
def WriteEvent.accepted {offered : Bytes} (ev : WriteEvent offered) : Bytes :=
  match ev.result with
  | .ok cnt => offered.take cnt
  | .error _ => []

/-- All the bytes the writer has accepted. -/
def accepted (trace : Trace (writeSignature σ)) : Bytes :=
  (answers trace).flatMap fun a => WriteEvent.accepted a.2

/-- How the writes came out. -/
def results (trace : Trace (writeSignature σ)) : List (Except Io.Error ℕ) :=
  (answers trace).map fun a => WriteEvent.result a.2

section trace
variable {trace trace' : Trace (writeSignature σ)}

/-- The bytes accepted in a trace that goes on. -/
theorem accepted_append : accepted (trace ++ trace') = accepted trace ++ accepted trace' := by
  rw [accepted, answers_append, List.flatMap_append]
  rfl

/-- The results in a trace that goes on. -/
theorem results_append : results (trace ++ trace') = results trace ++ results trace' := by
  rw [results, answers_append, List.map_append]
  rfl

variable {offered : Bytes} {ev : WriteEvent offered}

/-- Each write has a result. -/
theorem results_answered :
    results (.answered offered ev :: trace) = ev.result :: results trace := rfl

/-- A write accepts the first bytes it is offered. -/
theorem accepted_answered_ok {cnt : ℕ} (h : ev.result = .ok cnt) :
    accepted (.answered offered ev :: trace) = offered.take cnt ++ accepted trace := by
  have hev : ev.accepted = offered.take cnt := by rw [WriteEvent.accepted, h]
  rw [← hev]
  rfl

/-- A write that fails accepts nothing. -/
theorem accepted_answered_error {err : Io.Error} (h : ev.result = .error err) :
    accepted (.answered offered ev :: trace) = accepted trace := by
  have hev : ev.accepted = [] := by rw [WriteEvent.accepted, h]
  rw [← List.nil_append (accepted trace), ← hev]
  rfl

end trace

/-! ## `writeAll` -/

section writeAll
variable {impl : EntitySerializer σ} {d : Bytes} {pos sended : ℕ}
  {trace : Trace (writeSignature σ)}

/-- One turn delivers an error, or the count, or it goes on behind the bytes it wrote. -/
theorem delivers_writeAll_turn {value : Except Io.Error ℕ}
    (h : Delivers (writeBodies impl) (writeAll d pos sended) trace value) :
    ∃ ev : WriteEvent (d.drop pos),
      (∃ err, ev.result = .error err ∧ trace = [.answered (d.drop pos) ev] ∧ value = .error err) ∨
      (∃ cnt, ev.result = .ok cnt ∧ pos + cnt = d.length ∧
        trace = [.answered (d.drop pos) ev] ∧ value = .ok (sended + cnt)) ∨
      ∃ cnt trace', ev.result = .ok cnt ∧ pos + cnt ≠ d.length ∧
        trace = .answered (d.drop pos) ev :: trace' ∧
        Delivers (writeBodies impl) (writeAll d (pos + cnt) 0) trace' value := by
  obtain ⟨_, res, rest, hpart, hnext, rfl⟩ := delivers_flatmap.mp h
  obtain ⟨ev, rfl, rfl⟩ := delivers_when.mp hpart
  refine ⟨ev, ?_⟩
  cases hresult : ev.result with
  | error err =>
    rw [hresult] at hnext
    obtain ⟨rfl, rfl⟩ := delivers_fromVal.mp hnext
    exact .inl ⟨err, rfl, rfl, rfl⟩
  | ok cnt =>
    rw [hresult] at hnext
    dsimp only at hnext
    -- whether the write has come to the end
    split_ifs at hnext with hlength
    · exact .inr (.inr ⟨cnt, rest, rfl, hlength, rfl, delivers_call.mp hnext⟩)
    · obtain ⟨rfl, rfl⟩ := delivers_fromVal.mp hnext
      exact .inr (.inl ⟨cnt, rfl, not_not.mp hlength, rfl, rfl⟩)

/-- A turn that waits, or another one that does. -/
theorem blocks_writeAll_turn {wait : Wait (writeSignature σ)}
    (h : Blocks (writeBodies impl) (writeAll d pos sended) trace wait) :
    trace = [] ∨ ∃ (ev : WriteEvent (d.drop pos)) (cnt : ℕ) (trace' : Trace (writeSignature σ)),
      ev.result = .ok cnt ∧ pos + cnt ≠ d.length ∧ trace = .answered (d.drop pos) ev :: trace' ∧
      Blocks (writeBodies impl) (writeAll d (pos + cnt) 0) trace' wait := by
  -- the write waits, or it has accepted some and the turn goes on
  obtain hpart | ⟨_, res, rest, hpart, hnext, rfl⟩ := blocks_flatmap.mp h
  · exact .inl (blocks_when.mp hpart).1
  · obtain ⟨ev, rfl, rfl⟩ := delivers_when.mp hpart
    refine .inr ⟨ev, ?_⟩
    cases hresult : ev.result with
    | error err =>
      rw [hresult] at hnext
      exact absurd hnext not_blocks_fromVal
    | ok cnt =>
      rw [hresult] at hnext
      dsimp only at hnext
      split_ifs at hnext with hlength
      · exact ⟨cnt, rest, rfl, hlength, rfl, blocks_call.mp hnext⟩
      · exact absurd hnext not_blocks_fromVal

/-- The bytes of a write are the next ones. -/
theorem take_drop_append (d : Bytes) (pos cnt : ℕ) :
    (d.drop pos).take cnt ++ d.drop (pos + cnt) = d.drop pos := by
  rw [← List.drop_drop, List.take_append_drop]

/-- What two writes accept begins what the first was offered. -/
theorem take_append_prefix {cnt : ℕ} {rest : Bytes} (h : rest <+: d.drop (pos + cnt)) :
    (d.drop pos).take cnt ++ rest <+: d.drop pos := by
  have hcons := (List.prefix_append_right_inj ((d.drop pos).take cnt)).mpr h
  rwa [take_drop_append] at hcons

/-- No write goes past the end. -/
theorem WriteEvent.add_le {ev : WriteEvent (d.drop pos)} {cnt : ℕ} (hpos : pos ≤ d.length)
    (h : ev.result = .ok cnt) : pos + cnt ≤ d.length := by
  have hle := WriteEvent.result_le h
  rw [List.length_drop] at hle
  omega

/-- An error ends the writes, with a beginning of the data accepted. -/
theorem delivers_writeAll_error {err : Io.Error}
    (h : Delivers (writeBodies impl) (writeAll d pos sended) trace (.error err)) :
    ∃ cnts : List ℕ, results trace = cnts.map .ok ++ [.error err] ∧
      accepted trace <+: d.drop pos := by
  induction trace generalizing pos sended with
  | nil =>
    obtain ⟨_, ⟨_, -, hnil, -⟩ | ⟨_, -, -, hnil, -⟩ | ⟨_, _, -, -, hnil, -⟩⟩ :=
      delivers_writeAll_turn h
    all_goals exact absurd hnil.symm (List.cons_ne_nil _ _)
  | cons n trace ih =>
    obtain ⟨ev, ⟨_, hresult, htrace, hvalue⟩ | ⟨_, -, -, -, hvalue⟩ |
      ⟨cnt, _, hresult, -, htrace, hnext⟩⟩ := delivers_writeAll_turn h
    · cases hvalue
      rw [htrace, results_answered, hresult, accepted_answered_error hresult]
      exact ⟨[], rfl, List.nil_prefix⟩
    · cases hvalue
    · obtain ⟨rfl, rfl⟩ := List.cons.inj htrace
      -- this write succeeded, and a later one failed
      obtain ⟨cnts, hresults, hbegins⟩ := ih hnext
      rw [results_answered, hresult, accepted_answered_ok hresult]
      exact ⟨cnt :: cnts, by rw [hresults]; rfl, take_append_prefix hbegins⟩

/-- If all is written, the count is that of the last write, or of the only one. -/
theorem delivers_writeAll_ok {n : ℕ} (hpos : pos ≤ d.length)
    (h : Delivers (writeBodies impl) (writeAll d pos sended) trace (.ok n)) :
    ∃ cnts last, results trace = (cnts ++ [last]).map .ok ∧ accepted trace = d.drop pos ∧
      pos + cnts.sum + last = d.length ∧ n = if cnts = [] then sended + last else last := by
  induction trace generalizing pos sended with
  | nil =>
    obtain ⟨_, ⟨_, -, hnil, -⟩ | ⟨_, -, -, hnil, -⟩ | ⟨_, _, -, -, hnil, -⟩⟩ :=
      delivers_writeAll_turn h
    all_goals exact absurd hnil.symm (List.cons_ne_nil _ _)
  | cons _ trace ih =>
    obtain ⟨ev, ⟨_, -, -, hvalue⟩ | ⟨cnt, hresult, hlength, htrace, hvalue⟩ |
      ⟨cnt, _, hresult, -, htrace, hnext⟩⟩ := delivers_writeAll_turn h
    · cases hvalue
    · cases hvalue
      rw [htrace, results_answered, hresult, accepted_answered_ok hresult]
      refine ⟨[], cnt, rfl, ?_, hlength, rfl⟩
      -- this write has come to the end
      rw [List.take_of_length_le (by rw [List.length_drop]; omega)]
      exact List.append_nil _
    · obtain ⟨rfl, rfl⟩ := List.cons.inj htrace
      obtain ⟨cnts, last, hresults, haccepted, hsum, hn⟩ := ih (WriteEvent.add_le hpos hresult) hnext
      rw [results_answered, hresult, accepted_answered_ok hresult]
      refine ⟨cnt :: cnts, last, by rw [hresults]; rfl, ?_, ?_, ?_⟩
      · rw [haccepted, take_drop_append]
      · rw [List.sum_cons, ← hsum]
        omega
      · -- the recursive call starts to count at zero
        rw [hn, Nat.zero_add, ite_self, if_neg (List.cons_ne_nil _ _)]

/-- `Socket::write_all` returns the number of all the bytes on the same outcomes. -/
theorem socket_writeAll {n : ℕ}
    (h : Delivers (writeBodies impl) (writeAll d pos sended) trace (.ok n)) :
    Socket.writeAll d pos (results trace) = some (.ok d.length) := by
  induction trace generalizing pos sended with
  | nil =>
    obtain ⟨_, ⟨_, -, hnil, -⟩ | ⟨_, -, -, hnil, -⟩ | ⟨_, _, -, -, hnil, -⟩⟩ :=
      delivers_writeAll_turn h
    all_goals exact absurd hnil.symm (List.cons_ne_nil _ _)
  | cons _ trace ih =>
    obtain ⟨ev, ⟨_, -, -, hvalue⟩ | ⟨cnt, hresult, hlength, htrace, -⟩ |
      ⟨cnt, _, hresult, hlength, htrace, hnext⟩⟩ := delivers_writeAll_turn h
    · -- a write that failed resolves with its error
      cases hvalue
    · rw [htrace, results_answered, hresult, Socket.writeAll, if_pos hlength, hlength]
    · obtain ⟨rfl, rfl⟩ := List.cons.inj htrace
      rw [results_answered, hresult, Socket.writeAll, if_neg hlength]
      -- the next turn starts from what is accepted, as the loop does
      exact ih hnext

/-- The handler that waits is offered all that is left. -/
theorem blocks_writeAll {wait : Wait (writeSignature σ)} (hpos : pos ≤ d.length)
    (h : Blocks (writeBodies impl) (writeAll d pos sended) trace wait) :
    ∃ (cnts : List ℕ) (offered : Bytes), results trace = cnts.map .ok ∧ wait = .answer offered ∧
      accepted trace ++ offered = d.drop pos ∧ (offered = [] → d.drop pos = [] ∧ trace = []) := by
  induction trace generalizing pos sended with
  | nil =>
    obtain hpart | ⟨_, res, rest, hpart, -, htrace⟩ := blocks_flatmap.mp h
    · -- nothing is written yet
      obtain ⟨-, rfl⟩ := blocks_when.mp hpart
      exact ⟨[], d.drop pos, rfl, rfl, rfl, fun hnil => ⟨hnil, rfl⟩⟩
    · obtain ⟨ev, rfl, -⟩ := delivers_when.mp hpart
      cases htrace
  | cons _ trace ih =>
    obtain hnil | ⟨ev, cnt, _, hresult, hmore, htrace, hnext⟩ := blocks_writeAll_turn h
    · cases hnil
    · obtain ⟨rfl, rfl⟩ := List.cons.inj htrace
      have hle := WriteEvent.add_le hpos hresult
      obtain ⟨cnts, offered, hresults, hwait, hrest, hnil⟩ := ih hle hnext
      rw [results_answered, hresult, accepted_answered_ok hresult]
      refine ⟨cnt :: cnts, offered, by rw [hresults]; rfl, hwait, ?_, fun hoffered => ?_⟩
      · rw [List.append_assoc, hrest, take_drop_append]
      · -- it would have been the last write
        have hdone := List.drop_eq_nil_iff.mp (hnil hoffered).1
        exact absurd (Nat.le_antisymm hle hdone) hmore

end writeAll

/-! ## `writeEntity` -/

/-- The pieces `get_data` yields while `state` is PENDING. -/
inductive EntitySerializer.Yields (impl : EntitySerializer σ) : σ → List Bytes → Prop where
  | ready {serializer : σ} (hstate : impl.state serializer = .ready) : Yields impl serializer []
  | pending {serializer serializer' : σ} {data : Bytes} {pieces : List Bytes}
      (hstate : impl.state serializer = .pending)
      (hdata : impl.getData serializer = (data, serializer')) (h : Yields impl serializer' pieces) :
      Yields impl serializer (data :: pieces)

/-- `RequestSerializer` and `ResponseSerializer` as an `EntitySerializer`. -/
def httpSerializer : EntitySerializer Http.Serializer where
  state := Http.Serializer.ioState
  getData := Http.Serializer.getData

/-- The serializer hands out its pieces one by one. -/
theorem httpSerializer_yields (s : Http.Serializer) : httpSerializer.Yields s s.pieces := by
  fun_induction Http.Serializer.pieces s with
  | case1 s hpending ih => exact .pending hpending rfl ih
  | case2 s hready =>
    refine .ready ?_
    cases hstate : s.ioState with
    | pending => exact absurd hstate hready
    | ready => exact hstate

/-- The header block and then the body. -/
theorem pieces_headers (headers body : Bytes) :
    Http.Serializer.pieces { headers := headers, body := body } = [headers, body] := by
  simp [Http.Serializer.pieces, Http.Serializer.ioState, Http.Serializer.getData]

/-- They are the header block and the body. -/
theorem yields_headers (headers body : Bytes) :
    httpSerializer.Yields { headers := headers, body := body } [headers, body] := by
  rw [← pieces_headers]
  exact httpSerializer_yields _

section writeEntity
variable {impl : EntitySerializer σ} {serializer : σ} {pieces : List Bytes} {sended : ℕ}
  {trace : Trace (writeSignature σ)}

/-- When the serializer is done so is the loop. -/
theorem writeEntity_ready (hstate : impl.state serializer = .ready) :
    writeEntity impl serializer sended = .fromVal (.ok sended) := by
  rw [writeEntity, hstate]

/-- One piece is written, then the others. -/
theorem delivers_writeEntity_turn {serializer' : σ} {data : Bytes} {value : Except Io.Error ℕ}
    (hstate : impl.state serializer = .pending)
    (hdata : impl.getData serializer = (data, serializer'))
    (h : Delivers (writeBodies impl) (writeEntity impl serializer sended) trace value) :
    (∃ err, Delivers (writeBodies impl) (writeAll data 0 0) trace (.error err) ∧
      value = .error err) ∨
    ∃ n trace₁ trace₂, Delivers (writeBodies impl) (writeAll data 0 0) trace₁ (.ok n) ∧
      Delivers (writeBodies impl) (writeEntity impl serializer' sended) trace₂ value ∧
      trace = trace₁ ++ trace₂ := by
  rw [writeEntity, hstate, hdata] at h
  obtain ⟨trace₁, res, trace₂, hall, hnext, rfl⟩ := delivers_flatmap.mp h
  -- the first error ends it, and the next piece gets the old count
  cases res with
  | error err =>
    obtain ⟨rfl, rfl⟩ := delivers_fromVal.mp hnext
    rw [List.append_nil]
    exact .inl ⟨err, hall, rfl⟩
  | ok n => exact .inr ⟨n, trace₁, trace₂, hall, delivers_call.mp hnext, rfl⟩

/-- An error ends the writes, with a beginning of the pieces accepted. -/
theorem delivers_writeEntity_error (hpieces : impl.Yields serializer pieces) {err : Io.Error}
    (h : Delivers (writeBodies impl) (writeEntity impl serializer sended) trace (.error err)) :
    ∃ cnts : List ℕ, results trace = cnts.map .ok ++ [.error err] ∧
      accepted trace <+: pieces.flatten := by
  induction hpieces generalizing trace with
  | ready hstate =>
    rw [writeEntity_ready hstate] at h
    exact absurd (delivers_fromVal.mp h).2 nofun
  | pending hstate hdata _ ih =>
    obtain ⟨_, hall, hvalue⟩ | ⟨n, trace₁, trace₂, hall, hnext, rfl⟩ :=
      delivers_writeEntity_turn hstate hdata h
    · cases hvalue
      obtain ⟨cnts, hresults, hbegins⟩ := delivers_writeAll_error hall
      exact ⟨cnts, hresults, hbegins.trans (List.prefix_append _ _)⟩
    · -- this piece was accepted whole
      obtain ⟨cnts, last, hresults, haccepted, -⟩ := delivers_writeAll_ok (Nat.zero_le _) hall
      obtain ⟨cnts', hresults', hbegins⟩ := ih hnext
      rw [results_append, accepted_append, hresults, haccepted, hresults']
      refine ⟨cnts ++ [last] ++ cnts', by simp only [List.map_append, List.append_assoc], ?_⟩
      exact (List.prefix_append_right_inj _).mpr hbegins

/-- The count is the one it was called with. -/
theorem delivers_writeEntity_ok (hpieces : impl.Yields serializer pieces) {n : ℕ}
    (h : Delivers (writeBodies impl) (writeEntity impl serializer sended) trace (.ok n)) :
    ∃ cnts : List ℕ, results trace = cnts.map .ok ∧ accepted trace = pieces.flatten ∧
      n = sended := by
  induction hpieces generalizing trace with
  | ready hstate =>
    rw [writeEntity_ready hstate] at h
    obtain ⟨rfl, hvalue⟩ := delivers_fromVal.mp h
    exact ⟨[], rfl, rfl, Except.ok.inj hvalue⟩
  | pending hstate hdata _ ih =>
    obtain ⟨_, -, hvalue⟩ | ⟨n, trace₁, trace₂, hall, hnext, rfl⟩ :=
      delivers_writeEntity_turn hstate hdata h
    · cases hvalue
    · -- this piece is written whole, and then the others are
      obtain ⟨cnts, last, hresults, haccepted, -⟩ := delivers_writeAll_ok (Nat.zero_le _) hall
      obtain ⟨cnts', hresults', haccepted', hn⟩ := ih hnext
      rw [results_append, accepted_append, hresults, haccepted, hresults', haccepted']
      exact ⟨cnts ++ [last] ++ cnts', (List.map_append).symm, rfl, hn⟩

/-- When nothing is left the last piece is empty. -/
theorem getLast?_of_flatten {piece : Bytes} (hpiece : piece = []) (hnil : pieces.flatten = []) :
    (piece :: pieces).getLast? = some [] := by
  have hall : ∀ p ∈ piece :: pieces, p = [] := by
    simpa [hpiece] using List.flatten_eq_nil_iff.mp hnil
  rw [List.getLast?_eq_some_getLast (List.cons_ne_nil _ _)]
  exact congrArg some (hall _ (List.getLast_mem _))

/-- The handler that waits is offered the rest of a piece; only the last piece may be left when
    there is nothing more to write. -/
theorem blocks_writeEntity (hpieces : impl.Yields serializer pieces)
    {wait : Wait (writeSignature σ)}
    (h : Blocks (writeBodies impl) (writeEntity impl serializer sended) trace wait) :
    ∃ (cnts : List ℕ) (offered rest : Bytes), results trace = cnts.map .ok ∧
      wait = .answer offered ∧ accepted trace ++ offered ++ rest = pieces.flatten ∧
      (offered ++ rest = [] → pieces.getLast? = some []) := by
  induction hpieces generalizing trace with
  | ready hstate =>
    rw [writeEntity_ready hstate] at h
    exact absurd h not_blocks_fromVal
  | pending hstate hdata _ ih =>
    rw [writeEntity, hstate, hdata] at h
    obtain hall | ⟨trace₁, res, trace₂, hall, hnext, rfl⟩ := blocks_flatmap.mp h
    · obtain ⟨cnts, offered, hresults, hwait, hrest, hnil⟩ := blocks_writeAll (Nat.zero_le _) hall
      -- the pieces behind this one are still to come
      refine ⟨cnts, offered, _, hresults, hwait, congrArg (· ++ _) hrest, fun hend => ?_⟩
      obtain ⟨hoffered, hflat⟩ := List.append_eq_nil_iff.mp hend
      exact getLast?_of_flatten (hnil hoffered).1 hflat
    · cases res with
      | error err => exact absurd hnext not_blocks_fromVal
      | ok n =>
        obtain ⟨cnts, last, hresults, haccepted, -⟩ := delivers_writeAll_ok (Nat.zero_le _) hall
        obtain ⟨cnts', offered, rest, hresults', hwait, hrest, hlast⟩ := ih (blocks_call.mp hnext)
        rw [results_append, accepted_append, hresults, haccepted, hresults']
        refine ⟨cnts ++ [last] ++ cnts', offered, rest, List.map_append.symm, hwait, ?_, fun hend => ?_⟩
        · rw [List.append_assoc, List.append_assoc, ← List.append_assoc (accepted _), hrest]
          rfl
        · rw [List.getLast?_cons, hlast hend]
          rfl

end writeEntity

/-! ## Runs -/

/-- The future of `write_all` comes with a free call, that of `write_entity` with none. -/
def writeEnds (t : Unit) : (writeSignature σ).Proc t → ℕ
  | .writeAll _ _ _ => 1
  | .writeEntity _ _ => 0

/-- It takes no contract from outside. -/
theorem takes_writeAll (d : Bytes) (pos sended : ℕ) :
    Takes (S := writeSignature σ) 0 (writeAll d pos sended) := by
  refine .flatmap (add_zero 0).symm (.when _) fun res => ?_
  cases res with
  | error err => exact .fromVal _
  | ok cnt =>
    dsimp only
    split_ifs
    · exact .call _
    · exact .fromVal _

/-- It waits before it calls itself, and leaves a call for its caller. -/
theorem pays_writeAll (d : Bytes) (pos sended : ℕ) :
    Pays (S := writeSignature σ) writeEnds 0 (writeAll d pos sended) 1 := by
  refine .flatmap (.when _ (Nat.le_refl 1)) fun res => ?_
  cases res with
  | error err => exact .fromVal _ (Nat.le_refl 1)
  | ok cnt =>
    dsimp only
    split_ifs
    · -- the write in front pays for the call
      exact .call Nat.one_pos (Nat.le_refl 1)
    · exact .fromVal _ (Nat.le_refl 1)

section runs
variable {impl : EntitySerializer σ}

/-- It takes no contract from outside. -/
theorem takes_writeEntity (serializer : σ) (sended : ℕ) :
    Takes (S := writeSignature σ) 0 (writeEntity impl serializer sended) := by
  rw [writeEntity]
  cases impl.state serializer with
  | ready => exact .fromVal _
  | pending =>
    refine .flatmap (add_zero 0).symm (takes_writeAll _ _ _) fun res => ?_
    cases res with
    | error err => exact .fromVal _
    | ok n => exact .call _

/-- Each call of the loop is paid for by a piece. -/
theorem pays_writeEntity (serializer : σ) (sended : ℕ) :
    Pays (S := writeSignature σ) writeEnds 0 (writeEntity impl serializer sended) 0 := by
  rw [writeEntity]
  cases impl.state serializer with
  | ready => exact .fromVal _ (Nat.le_refl 0)
  | pending =>
    refine .flatmap (pays_writeAll _ _ _) fun res => ?_
    cases res with
    | error err => exact .fromVal _ (Nat.zero_le 1)
    -- `write_all` has waited once, at least
    | ok n => exact .call Nat.one_pos (Nat.le_refl 0)

/-- So are the bodies. -/
theorem guarded_write : Guarded writeEnds (writeBodies impl) := by
  constructor
  · intro t proc
    cases proc with
    | writeAll d pos sended => exact takes_writeAll d pos sended
    | writeEntity serializer sended => exact takes_writeEntity serializer sended
  · intro t proc
    cases proc with
    | writeAll d pos sended => exact pays_writeAll d pos sended
    | writeEntity serializer sended => exact pays_writeEntity serializer sended

/-- So the future is sound. -/
theorem good_writeAll (d : Bytes) (pos sended : ℕ) :
    (writeAll d pos sended).Good writeEnds (writeBodies impl) :=
  ⟨guarded_write, ⟨0, Multiset.nodup_zero, takes_writeAll d pos sended⟩, 0, 1,
    pays_writeAll d pos sended⟩

/-- So is that of the whole entity. -/
theorem good_writeEntity (serializer : σ) (sended : ℕ) :
    (writeEntity impl serializer sended).Good writeEnds (writeBodies impl) :=
  ⟨guarded_write, ⟨0, Multiset.nodup_zero, takes_writeEntity serializer sended⟩, 0, 0,
    pays_writeEntity serializer sended⟩

/-- It performs no effect. -/
theorem quiet_writeAll (d : Bytes) (pos sended : ℕ) :
    Expr.Quiet (S := writeSignature σ) (writeAll d pos sended) := by
  refine .flatmap (.when _) fun res => ?_
  cases res with
  | error err => exact .fromVal _
  | ok cnt =>
    dsimp only
    split_ifs
    · exact .call _
    · exact .fromVal _

/-- Nor does the loop over the pieces. -/
theorem quiet_writeEntity (serializer : σ) (sended : ℕ) :
    (writeEntity impl serializer sended).Quiet := by
  rw [writeEntity]
  cases impl.state serializer with
  | ready => exact .fromVal _
  | pending =>
    refine .flatmap (quiet_writeAll _ _ _) fun res => ?_
    cases res with
    | error err => exact .fromVal _
    | ok n => exact .call _

/-- Nor do the bodies. -/
theorem quiet_writeBodies (t : Unit) (proc : WriteProc σ) : (writeBodies impl t proc).Quiet := by
  cases proc with
  | writeAll d pos sended => exact quiet_writeAll d pos sended
  | writeEntity serializer sended => exact quiet_writeEntity serializer sended

/-- The bytes accepted depend on the answers only. -/
theorem accepted_eq {trace trace' : Trace (writeSignature σ)} (h : answers trace = answers trace') :
    accepted trace = accepted trace' := by
  rw [accepted, h, accepted]

/-- So do the results. -/
theorem results_eq {trace trace' : Trace (writeSignature σ)} (h : answers trace = answers trace') :
    results trace = results trace' := by
  rw [results, h, results]

/-- A future that has resolved has delivered its result. -/
theorem delivers_of_resolved {future : Expr (writeSignature σ) ()}
    {es : List (Event (writeSignature σ))} {c : Config (writeSignature σ)}
    (hgood : future.Good writeEnds (writeBodies impl)) (hquiet : future.Quiet)
    (hrun : ProgRun (writeBodies impl) (writeProg future) es c) {value : Except Io.Error ℕ}
    (hvalue : value ∈ effects es) :
    ∃ trace, Delivers (writeBodies impl) future trace value ∧
      answers (notes es) = answers trace := by
  -- what is resolved stays resolved until the run is idle
  obtain ⟨es', c', hrun', hidle', hinternal⟩ := hgood.settles hrun
  have hmem : value ∈ effects (es ++ es') := by
    rw [effects, List.filterMap_append]
    exact List.mem_append_left _ hvalue
  obtain ⟨trace, value', h, hanswers, heffects, -⟩ | ⟨_, -, heffects, -⟩ :=
    hgood.idle_of_quiet quiet_writeBodies hquiet hrun' hidle'
  · rw [answers_notes_append_internal hinternal] at hanswers
    rw [heffects] at hmem
    obtain rfl := List.mem_singleton.mp hmem
    exact ⟨trace, h, hanswers⟩
  · rw [heffects] at hmem
    exact absurd hmem List.not_mem_nil

section entity
variable {serializer : σ} {pieces : List Bytes} {es : List (Event (writeSignature σ))}
  {c : Config (writeSignature σ)}

/-- When every call has returned, all is written, or the last write failed, or a handler
    waits for the next one. -/
theorem writeEntity_idle (hpieces : impl.Yields serializer pieces) {sended : ℕ}
    (hrun : ProgRun (writeBodies impl) (writeProg (writeEntity impl serializer sended)) es c)
    (hidle : c.Idle) :
    (∃ cnts : List ℕ, results (notes es) = cnts.map .ok ∧ accepted (notes es) = pieces.flatten ∧
      effects es = [.ok sended] ∧ c.pending.card = 0) ∨
    (∃ (cnts : List ℕ) (err : Io.Error), results (notes es) = cnts.map .ok ++ [.error err] ∧
      accepted (notes es) <+: pieces.flatten ∧ effects es = [.error err] ∧ c.pending.card = 0) ∨
    ∃ (cnts : List ℕ) (handler : _) (rest : Bytes), results (notes es) = cnts.map .ok ∧
      accepted (notes es) ++ handler.1 ++ rest = pieces.flatten ∧ effects es = [] ∧
      c.pending = {handler} ∧ (handler.1 ++ rest = [] → pieces.getLast? = some []) := by
  obtain ⟨trace, value, h, hanswers, heffects, hpending⟩ | ⟨handler, h, heffects, hpending⟩ :=
    (good_writeEntity serializer sended).idle_of_quiet quiet_writeBodies
      (quiet_writeEntity serializer sended) hrun hidle
  · rw [accepted_eq hanswers, results_eq hanswers, heffects, hpending]
    cases value with
    -- the counts of the pieces are dropped, and `sended` is passed on as it was
    | ok n =>
      obtain ⟨cnts, hresults, haccepted, rfl⟩ := delivers_writeEntity_ok hpieces h
      exact .inl ⟨cnts, hresults, haccepted, rfl, rfl⟩
    | error err =>
      obtain ⟨cnts, hresults, hbegins⟩ := delivers_writeEntity_error hpieces h
      exact .inr (.inl ⟨cnts, err, hresults, hbegins, rfl, rfl⟩)
  · obtain ⟨cnts, offered, rest, hresults, hwait, hrest, hlast⟩ := blocks_writeEntity hpieces h
    cases hwait
    exact .inr (.inr ⟨cnts, handler, rest, hresults, hrest, heffects, hpending, hlast⟩)

/-- An error is no count. -/
theorem error_not_mem {cnts : List ℕ} {err : Io.Error} :
    (.error err : Except Io.Error ℕ) ∉ cnts.map .ok := by
  simp

/-- The error at the end is the only one. -/
theorem error_mem_append {cnts : List ℕ} {err err' : Io.Error} :
    (.error err : Except Io.Error ℕ) ∈ cnts.map .ok ++ [.error err'] ↔ err = err' := by
  simp

/-- What a future has come to when every call has returned: nobody but the next write of the rest
    is waited for, and nothing at all when all is accepted. -/
theorem writeEntity_done (hpieces : impl.Yields serializer pieces) {sended : ℕ}
    (hrun : ProgRun (writeBodies impl) (writeProg (writeEntity impl serializer sended)) es c)
    (hidle : c.Idle) : (effects es).length + c.pending.card = 1 ∧
      (∀ err, .error err ∈ results (notes es) → effects es = [.error err]) ∧
      (effects es = [] → ∃ handler rest, c.pending = {handler} ∧
        accepted (notes es) ++ handler.1 ++ rest = pieces.flatten) ∧
      (accepted (notes es) = pieces.flatten → (∀ err, .error err ∉ results (notes es)) →
        pieces.getLast? ≠ some [] → ∃ n, effects es = [.ok n]) := by
  obtain ⟨cnts, hresults, -, heffects, hpending⟩ | ⟨cnts, err, hresults, -, heffects, hpending⟩ |
    ⟨cnts, handler, rest, hresults, hrest, heffects, hpending, hlast⟩ :=
      writeEntity_idle hpieces hrun hidle
  all_goals rw [hresults, heffects, hpending]
  · exact ⟨rfl, fun err herr => absurd herr error_not_mem, fun hnone => absurd hnone (by simp),
      fun _ _ _ => ⟨_, rfl⟩⟩
  · refine ⟨rfl, fun err' herr => by rw [error_mem_append.mp herr], fun hnone => absurd hnone (by simp),
      fun _ hnot => ?_⟩
    exact absurd (error_mem_append.mpr rfl) (hnot err)
  · refine ⟨rfl, fun err herr => absurd herr error_not_mem, fun _ => ⟨handler, rest, rfl, hrest⟩,
      fun hall _ hne => absurd (hlast ?_) hne⟩
    -- what is left is nothing
    rw [← hall, List.append_assoc] at hrest
    exact List.append_right_eq_self.mp hrest

/-- What is on the wire is the beginning of the pieces, all of them if the future resolves
    with a count; behind a write that failed there is none, and its error is the result.  As long
    as it has not resolved, a handler waits to write the next bytes; so it has when all are
    accepted, but for an empty piece at the end.  The two serializers of the server yield the
    header block and the body. -/
theorem writeEntity_writes_pieces (impl : EntitySerializer σ) (hpieces : impl.Yields serializer pieces)
    (hrun : ProgRun (writeBodies impl) (writeProg (writeEntity impl serializer 0)) es c) :
    accepted (notes es) <+: pieces.flatten ∧
      (∀ n, .ok n ∈ effects es → accepted (notes es) = pieces.flatten) ∧
      (∀ err, .error err ∈ results (notes es) →
        ∃ cnts : List ℕ, results (notes es) = cnts.map .ok ++ [.error err]) ∧
      (∀ err, .error err ∈ effects es → .error err ∈ results (notes es)) ∧
      (effects es).length ≤ 1 ∧ .uncaught ∉ es ∧
      Inevitably (Step (writeBodies impl)) Event.Internal Config.Idle c ∧
      (c.Idle → (effects es).length + c.pending.card = 1 ∧
        (∀ err, .error err ∈ results (notes es) → effects es = [.error err]) ∧
        (effects es = [] → ∃ handler rest, c.pending = {handler} ∧
          accepted (notes es) ++ handler.1 ++ rest = pieces.flatten) ∧
        (accepted (notes es) = pieces.flatten → (∀ err, .error err ∉ results (notes es)) →
          pieces.getLast? ≠ some [] → ∃ n, effects es = [.ok n])) ∧
      (∀ r : Http.Request, httpSerializer.Yields (Http.RequestSerializer.new r)
        [(Http.RequestSerializer.new r).headers, r.body]) ∧
      ∀ r : Http.Response, httpSerializer.Yields (Http.ResponseSerializer.new r)
        [(Http.ResponseSerializer.new r).headers, r.body] := by
  have hgood : (writeEntity impl serializer 0).Good writeEnds (writeBodies impl) :=
    good_writeEntity serializer 0
  obtain ⟨es', c', hrun', hidle', hinternal⟩ := hgood.settles hrun
  have hanswers : answers (notes (es ++ es')) = answers (notes es) :=
    answers_notes_append_internal hinternal
  -- what the run has done so far begins what it does when it settles
  have hbegins := effects_prefix_append es es'
  have hsettled := writeEntity_idle hpieces hrun' hidle'
  rw [accepted_eq hanswers, results_eq hanswers] at hsettled
  have hsofar : accepted (notes es) <+: pieces.flatten ∧
      (∀ n, .ok n ∈ effects es → accepted (notes es) = pieces.flatten) ∧
      (∀ err, .error err ∈ results (notes es) →
        ∃ cnts : List ℕ, results (notes es) = cnts.map .ok ++ [.error err]) ∧
      (∀ err, .error err ∈ effects es → .error err ∈ results (notes es)) ∧
      (effects es).length ≤ 1 := by
    -- all written, a write that failed, or one that is waited for
    obtain ⟨cnts, hresults, haccepted, heffects, -⟩ |
      ⟨cnts, err, hresults, haccepted, heffects, -⟩ |
      ⟨cnts, handler, rest, hresults, hrest, heffects, -⟩ := hsettled
    all_goals
      rw [heffects] at hbegins
      rw [hresults]
    · refine ⟨haccepted ▸ List.prefix_rfl, fun n hn => haccepted, fun err herr => ?_,
        fun err herr => ?_, hbegins.length_le⟩
      · exact absurd herr error_not_mem
      · cases List.mem_singleton.mp (hbegins.mem herr)
    · refine ⟨haccepted, fun n hn => ?_, fun err' herr => ?_, fun err' herr => ?_, hbegins.length_le⟩
      · cases List.mem_singleton.mp (hbegins.mem hn)
      · rw [error_mem_append.mp herr]
        exact ⟨cnts, rfl⟩
      · cases List.mem_singleton.mp (hbegins.mem herr)
        exact error_mem_append.mpr rfl
    · have hnone : effects es = [] := List.prefix_nil.mp hbegins
      rw [hnone]
      refine ⟨⟨_, (List.append_assoc _ _ _).symm.trans hrest⟩, fun n hn => absurd hn List.not_mem_nil,
        fun err herr => absurd herr error_not_mem, fun err herr => absurd herr List.not_mem_nil,
        Nat.zero_le 1⟩
  obtain ⟨hwritten, hok, herror, hresolved, hone⟩ := hsofar
  exact ⟨hwritten, hok, herror, hresolved, hone, hgood.not_uncaught hrun, hgood.returns hrun,
    writeEntity_done hpieces hrun, fun r => yields_headers _ _, fun r => yields_headers _ _⟩

end entity

/-- A writer that takes one byte at a time. -/
def oneByte (offered : Bytes) : WriteEvent offered :=
  .toWrite (.ok (Fin.ofNat (offered.length + 1) (min 1 offered.length)))

/-- A header block of two bytes and a body of one. -/
def twoPieces : Http.Serializer := { headers := [1, 2], body := [3] }

/-- They are written byte by byte. -/
theorem twoPieces_run : ∃ es c, ProgRun (writeBodies httpSerializer)
    (writeProg (writeEntity httpSerializer twoPieces 0)) es c ∧ c.Idle ∧
    results (notes es) = [.ok 1, .ok 1, .ok 1] ∧ accepted (notes es) = [1, 2, 3] ∧
    effects es = [.ok 0] := by
  have hgood : (writeEntity httpSerializer twoPieces 0).Good writeEnds
      (writeBodies httpSerializer) := good_writeEntity _ 0
  -- each answer is one to the write that waits for it
  have hfits : (writeEntity httpSerializer twoPieces 0).Fits (callsOf (writeBodies httpSerializer) 5)
      [⟨[1, 2], oneByte _⟩, ⟨[2], oneByte _⟩, ⟨[3], oneByte _⟩] := by decide +kernel
  obtain ⟨es, c, hrun, hidle, hanswers⟩ := hgood.exists_answers (fun res => [res]) hfits
  have hresume : (writeEntity httpSerializer twoPieces 0).resume
      (callsOf (writeBodies httpSerializer) 5) (answers (notes es)) = some (.value (.ok 0) []) := by
    rw [hanswers]
    rfl
  exact ⟨es, c, hrun, hidle, by rw [results, hanswers]; rfl, by rw [accepted, hanswers]; rfl,
    hgood.effects_of_resume quiet_writeBodies (quiet_writeEntity _ _) hrun hidle hresume⟩

/-- Partial writes in both pieces: all is on the wire, and the future has resolved. -/
theorem writeEntity_writes_pieces_oneByte : ∃ es c, ProgRun (writeBodies httpSerializer)
    (writeProg (writeEntity httpSerializer twoPieces 0)) es c ∧
    results (notes es) = [.ok 1, .ok 1, .ok 1] ∧ accepted (notes es) = [1, 2, 3] ∧
    ∃ n, effects es = [.ok n] := by
  obtain ⟨es, c, hrun, hidle, hresults, haccepted, -⟩ := twoPieces_run
  obtain ⟨-, -, -, -, -, -, -, hdone, -⟩ :=
    writeEntity_writes_pieces httpSerializer (yields_headers [1, 2] [3]) hrun
  refine ⟨es, c, hrun, hresults, haccepted, (hdone hidle).2.2.2 haccepted ?_ (by decide)⟩
  rw [hresults]
  simp

/-! ## The count -/

/-- When all is accepted, and every call has returned, the future of `write_all` has resolved. -/
theorem writeAll_done {d : Bytes} {es : List (Event (writeSignature σ))}
    {c : Config (writeSignature σ)}
    (hrun : ProgRun (writeBodies impl) (writeProg (writeAll d 0 0)) es c) (hidle : c.Idle)
    (hall : accepted (notes es) = d) (hnot : ∀ err, .error err ∉ results (notes es))
    (hsome : d ≠ [] ∨ results (notes es) ≠ []) : ∃ n, effects es = [.ok n] := by
  obtain ⟨trace, value, h, hanswers, heffects, -⟩ | ⟨handler, h, -, -⟩ :=
    (good_writeAll d 0 0).idle_of_quiet quiet_writeBodies (quiet_writeAll d 0 0) hrun hidle
  · cases value with
    | ok n => exact ⟨n, heffects⟩
    | error err =>
      obtain ⟨cnts, hresults, -⟩ := delivers_writeAll_error h
      rw [results_eq hanswers, hresults] at hnot
      exact absurd (error_mem_append.mpr rfl) (hnot err)
  · obtain ⟨-, offered, -, -, hrest, hnil⟩ := blocks_writeAll (Nat.zero_le _) h
    rw [hall, List.drop_zero] at hrest
    -- it would still wait with nothing to write
    obtain ⟨hd, htrace⟩ := hnil (List.append_right_eq_self.mp hrest)
    obtain hne | hne := hsome
    · exact absurd hd hne
    · rw [htrace] at hne
      exact absurd rfl hne

/-- The count of `write_all` is that of all the bytes if and only if every write before the
    last accepted none; the count of `write_entity` if and only if there are none.  Both have
    resolved when all the bytes are accepted and nothing is left to call, but for an empty piece
    that is still to be written. -/
theorem written_count_iff (impl : EntitySerializer σ) :
    (∀ d es c n, ProgRun (writeBodies impl) (writeProg (writeAll d 0 0)) es c →
      .ok n ∈ effects es →
      ((n = d.length ∧ Socket.writeAll d 0 (results (notes es)) = some (.ok n)) ↔
        ∀ res ∈ (results (notes es)).dropLast, res = .ok 0)) ∧
    (∀ d es c, ProgRun (writeBodies impl) (writeProg (writeAll d 0 0)) es c → c.Idle →
      accepted (notes es) = d → (∀ err, .error err ∉ results (notes es)) →
      (d ≠ [] ∨ results (notes es) ≠ []) → ∃ n, effects es = [.ok n]) ∧
    (∀ serializer pieces es c n, impl.Yields serializer pieces →
      ProgRun (writeBodies impl) (writeProg (writeEntity impl serializer 0)) es c →
      .ok n ∈ effects es → (n = pieces.flatten.length ↔ pieces.flatten = [])) ∧
    ∀ serializer pieces es c, impl.Yields serializer pieces →
      ProgRun (writeBodies impl) (writeProg (writeEntity impl serializer 0)) es c → c.Idle →
      accepted (notes es) = pieces.flatten → (∀ err, .error err ∉ results (notes es)) →
      pieces.getLast? ≠ some [] → ∃ n, effects es = [.ok n] := by
  refine ⟨fun d es c n hrun hn => ?_, fun d es c hrun hidle => writeAll_done hrun hidle,
    fun serializer pieces es c n hpieces hrun hn => ?_,
    fun serializer pieces es c hpieces hrun hidle => (writeEntity_done hpieces hrun hidle).2.2.2⟩
  · obtain ⟨trace, h, hanswers⟩ :=
      delivers_of_resolved (good_writeAll d 0 0) (quiet_writeAll d 0 0) hrun hn
    obtain ⟨cnts, last, hresults, -, hsum, hcount⟩ := delivers_writeAll_ok (Nat.zero_le _) h
    -- the count of the earlier writes is dropped, so the last one is left
    have hlast : n = last := by
      rw [hcount, Nat.zero_add, ite_self]
    rw [results_eq hanswers, socket_writeAll h, hresults, List.map_append, List.map_singleton,
      List.dropLast_concat]
    have hzero : (∀ res ∈ cnts.map (Except.ok (ε := Io.Error)), res = .ok 0) ↔ cnts.sum = 0 := by
      simp [List.sum_eq_zero_iff]
    rw [hzero]
    constructor
    · intro hfull
      omega
    · intro hnone
      have hfull : n = d.length := by omega
      exact ⟨hfull, by rw [hfull]⟩
  · obtain ⟨trace, h, -⟩ := delivers_of_resolved (good_writeEntity serializer 0)
      (quiet_writeEntity serializer 0) hrun hn
    -- the count of an entity is the one it started with
    obtain ⟨-, -, -, rfl⟩ := delivers_writeEntity_ok hpieces h
    rw [eq_comm, List.length_eq_zero_iff]

end runs

/-- Two bytes, written one at a time. -/
theorem oneByte_run : ∃ es c,
    ProgRun (writeBodies httpSerializer) (writeProg (writeAll [1, 2] 0 0)) es c ∧ c.Idle ∧
    results (notes es) = [.ok 1, .ok 1] ∧ accepted (notes es) = [1, 2] ∧ effects es = [.ok 1] := by
  have hgood : (writeAll [1, 2] 0 0).Good writeEnds (writeBodies httpSerializer) :=
    good_writeAll [1, 2] 0 0
  -- each answer is one to the write that waits for it
  have hfits : (writeAll [1, 2] 0 0).Fits (callsOf (writeBodies httpSerializer) 2)
      [⟨[1, 2], oneByte _⟩, ⟨[2], oneByte _⟩] := by decide +kernel
  obtain ⟨es, c, hrun, hidle, hanswers⟩ := hgood.exists_answers (fun res => [res]) hfits
  have hresume : (writeAll [1, 2] 0 0).resume (callsOf (writeBodies httpSerializer) 2)
      (answers (notes es)) = some (.value (.ok 1) []) := by
    rw [hanswers]
    rfl
  exact ⟨es, c, hrun, hidle, by rw [results, hanswers]; rfl, by rw [accepted, hanswers]; rfl,
    hgood.effects_of_resume quiet_writeBodies (quiet_writeAll _ _ _) hrun hidle hresume⟩

/-- Two bytes that are written one by one: the count is one, where `Socket::write_all`
    returns two. -/
theorem written_count_false : ∃ es c,
    ProgRun (writeBodies httpSerializer) (writeProg (writeAll [1, 2] 0 0)) es c ∧
    results (notes es) = [.ok 1, .ok 1] ∧ effects es = [.ok 1] ∧
    Socket.writeAll [1, 2] 0 (results (notes es)) = some (.ok 2) := by
  obtain ⟨es, c, hrun, -, hresults, -, heffects⟩ := oneByte_run
  exact ⟨es, c, hrun, hresults, heffects, by rw [hresults]; rfl⟩

/-- The counts of bytes that are written one by one, by `write_all` and in two pieces. -/
theorem written_count_iff_oneByte :
    (∃ es c, ProgRun (writeBodies httpSerializer) (writeProg (writeAll [1, 2] 0 0)) es c ∧
      (∃ n, effects es = [.ok n]) ∧
      ((1 = 2 ∧ Socket.writeAll [1, 2] 0 (results (notes es)) = some (.ok 1)) ↔
        ∀ res ∈ (results (notes es)).dropLast, res = .ok 0)) ∧
    ∃ es c, ProgRun (writeBodies httpSerializer)
      (writeProg (writeEntity httpSerializer twoPieces 0)) es c ∧
      (∃ n, effects es = [.ok n]) ∧ (0 = 3 ↔ ([1, 2, 3] : Bytes) = []) := by
  -- one byte at a time, for `write_all` and for `write_entity`
  obtain ⟨es, c, hrun, hidle, hresults, haccepted, heffects⟩ := oneByte_run
  obtain ⟨es', c', hrun', hidle', hresults', haccepted', heffects'⟩ := twoPieces_run
  obtain ⟨hall, hallDone, hentity, hentityDone⟩ := written_count_iff httpSerializer
  have hpieces : httpSerializer.Yields twoPieces [[1, 2], [3]] := yields_headers [1, 2] [3]
  refine ⟨⟨es, c, hrun, ?_, hall [1, 2] es c 1 hrun (by simp [heffects])⟩, es', c', hrun', ?_,
    hentity _ _ es' c' 0 hpieces hrun' (by simp [heffects'])⟩
  · exact hallDone [1, 2] es c hrun hidle haccepted (by simp [hresults]) (.inl (by decide))
  · exact hentityDone _ _ es' c' hpieces hrun' hidle' haccepted' (by simp [hresults']) (by decide)

end Webserv.Fut
