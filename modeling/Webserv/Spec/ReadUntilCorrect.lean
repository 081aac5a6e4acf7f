import Webserv.Native.FutIo
import Webserv.Spec.FutureRuns

/-!
# `read_until` reads the shortest run that satisfies the predicate

The outcomes of the reader are undecided as long as the predicate fails on all
that was received; the next one decides, or leaves it undecided.

## Key results

- `Resolves.unique`: outcomes resolve in one place
- `delivers_readUntil`, `blocks_readUntil`: what a future has seen
- `readUntil_settled`: what a run has seen
- `readUntil_shortest`: for any sequence of outcomes
-/

namespace Webserv.Fut

open Futures Transition

/-! ## Outcomes -/

section outcomes
variable {predicate : Bytes → Prop} {received : Bytes}

/-- No run of one part or more satisfies the predicate. -/
def Undecided (predicate : Bytes → Prop) (received : Bytes) (parts : List Bytes) : Prop :=
  ∀ run, run <+: parts → run ≠ [] → ¬predicate (received ++ run.flatten)

/-- These outcomes, and none of them less, give the result. -/
inductive Resolves (predicate : Bytes → Prop) (received : Bytes) :
    List (Except Io.Error Bytes) → Except Io.Error Bytes → Prop where
  | found {parts : List Bytes} {part : Bytes} (hbefore : Undecided predicate received parts)
      (hpredicate : predicate (received ++ (parts ++ [part]).flatten)) :
      Resolves predicate received ((parts ++ [part]).map .ok)
        (.ok (received ++ (parts ++ [part]).flatten))
  | failed {parts : List Bytes} {err : Io.Error} (hbefore : Undecided predicate received parts) :
      Resolves predicate received (parts.map .ok ++ [.error err]) (.error err)

/-- Nothing is decided before the first part. -/
theorem undecided_nil : Undecided predicate received [] := fun _ hrun hne =>
  absurd (List.prefix_nil.mp hrun) hne

/-- It was undecided before. -/
theorem Undecided.of_prefix {parts parts' : List Bytes} (h : Undecided predicate received parts)
    (hfront : parts' <+: parts) : Undecided predicate received parts' :=
  fun run hrun => h run (hrun.trans hfront)

/-- A part that does not decide is received. -/
theorem undecided_cons {part : Bytes} {parts : List Bytes} (hpart : ¬predicate (received ++ part))
    (h : Undecided predicate (received ++ part) parts) :
    Undecided predicate received (part :: parts) := by
  intro run hrun hne
  obtain rfl | ⟨run', rfl, hrun'⟩ := List.prefix_cons_iff.mp hrun
  · exact absurd rfl hne
  · rw [List.flatten_cons, ← List.append_assoc]
    by_cases hnil : run' = []
    · rwa [hnil, List.flatten_nil, List.append_nil]
    · exact h run' hrun' hnil

/-- The first part is not enough. -/
theorem Resolves.cons {part : Bytes} {outcomes : List (Except Io.Error Bytes)}
    {res : Except Io.Error Bytes} (hpart : ¬predicate (received ++ part))
    (h : Resolves predicate (received ++ part) outcomes res) :
    Resolves predicate received (.ok part :: outcomes) res := by
  cases h with
  | @found parts last hbefore hpredicate =>
    rw [List.append_assoc, ← List.flatten_cons, ← List.cons_append] at hpredicate ⊢
    exact .found (undecided_cons hpart hbefore) hpredicate
  | failed hbefore => exact .failed (undecided_cons hpart hbefore)

/-- What is in front of the last outcome is undecided. -/
theorem Resolves.exists_before {outcomes : List (Except Io.Error Bytes)}
    {res : Except Io.Error Bytes} (h : Resolves predicate received outcomes res) :
    ∃ parts last, outcomes = parts.map .ok ++ [last] ∧ Undecided predicate received parts := by
  cases h with
  | @found parts part hbefore hpredicate => exact ⟨parts, .ok part, List.map_append, hbefore⟩
  | @failed parts err hbefore => exact ⟨parts, .error err, rfl, hbefore⟩

/-- Outcomes that resolve are not undecided. -/
theorem Resolves.not_undecided {parts : List Bytes} {res : Except Io.Error Bytes}
    (h : Resolves predicate received (parts.map .ok) res) : ¬Undecided predicate received parts := by
  intro hundecided
  generalize houtcomes : parts.map (Except.ok (ε := Io.Error)) = outcomes at h
  cases h with
  | @found parts' part hbefore hpredicate =>
    -- the whole run is one of those the predicate fails on
    have hsame : parts = parts' ++ [part] :=
      List.map_injective_iff.mpr (fun _ _ => Except.ok.inj) houtcomes
    rw [← hsame] at hpredicate
    exact hundecided parts List.prefix_rfl (by simp [hsame]) hpredicate
  | @failed parts' err hbefore =>
    -- there is no error among parts
    have hmem : .error err ∈ parts.map (Except.ok (ε := Io.Error)) := by simp [houtcomes]
    simp at hmem

/-- Neither do undecided parts begin with them. -/
theorem Resolves.not_prefix {outcomes : List (Except Io.Error Bytes)} {parts : List Bytes}
    {res : Except Io.Error Bytes} (h : Resolves predicate received outcomes res)
    (hundecided : Undecided predicate received parts) : ¬outcomes <+: parts.map .ok := by
  rintro ⟨rest, hrest⟩
  obtain ⟨run, rest', rfl, rfl, -⟩ := List.map_eq_append_iff.mp hrest.symm
  exact h.not_undecided (hundecided.of_prefix (List.prefix_append _ _))

/-- Outcomes resolve once. -/
theorem Resolves.eq_of_prefix {outcomes outcomes' : List (Except Io.Error Bytes)}
    {res res' : Except Io.Error Bytes} (h : Resolves predicate received outcomes res)
    (h' : Resolves predicate received outcomes' res') (hfront : outcomes <+: outcomes') :
    outcomes = outcomes' := by
  obtain ⟨parts, last, rfl, hbefore⟩ := h'.exists_before
  obtain heq | hshort := List.prefix_concat_iff.mp hfront
  · exact heq
  · exact absurd hshort (h.not_prefix hbefore)

/-- The result is that of the outcomes. -/
theorem Resolves.eq_res {outcomes : List (Except Io.Error Bytes)} {res res' : Except Io.Error Bytes}
    (h : Resolves predicate received outcomes res)
    (h' : Resolves predicate received outcomes res') : res = res' := by
  generalize houtcomes : outcomes = outcomes' at h'
  cases h with
  | @found parts part =>
    cases h' with
    | found =>
      -- both have found it in the last part
      rw [List.map_injective_iff.mpr (fun _ _ => Except.ok.inj) houtcomes]
    | @failed parts' err =>
      have hmem : .error err ∈ (parts ++ [part]).map (Except.ok (ε := Io.Error)) := by
        rw [houtcomes]
        simp
      simp at hmem
  | @failed parts err =>
    cases h' with
    | @found parts' part =>
      have hmem : .error err ∈ (parts' ++ [part]).map (Except.ok (ε := Io.Error)) := by
        rw [← houtcomes]
        simp
      simp at hmem
    | failed =>
      -- both end with the error
      have hlast := (List.append_inj' houtcomes rfl).2
      exact List.singleton_injective hlast

/-- The first outcomes of a sequence begin the later ones. -/
theorem range_map_begins (p : ℕ → Except Io.Error Bytes) {i j : ℕ} (h : i ≤ j) :
    (List.range i).map p <+: (List.range j).map p := by
  obtain ⟨d, rfl⟩ := Nat.exists_eq_add_of_le h
  rw [List.range_add, List.map_append]
  exact List.prefix_append _ _

/-- A sequence of outcomes resolves once. -/
theorem Resolves.unique {p : ℕ → Except Io.Error Bytes} {k k' : ℕ} {res res' : Except Io.Error Bytes}
    (h : Resolves predicate received ((List.range k).map p) res)
    (h' : Resolves predicate received ((List.range k').map p) res') : k = k' ∧ res = res' := by
  have hsame : k = k' := by
    rcases Nat.le_total k k' with hle | hle
    · simpa using congrArg List.length (h.eq_of_prefix h' (range_map_begins p hle))
    · simpa using (congrArg List.length (h'.eq_of_prefix h (range_map_begins p hle))).symm
  subst hsame
  exact ⟨rfl, h.eq_res h'⟩

end outcomes

/-! ## What a future has seen -/

/-- How the reads came out. -/
def readResults (trace : Trace readUntilSignature) : List (Except Io.Error Bytes) :=
  (answers trace).map fun a => ReadEvent.result a.2

section turn
variable {predicate : Bytes → Prop} [DecidablePred predicate] {received : Bytes}
  {trace : Trace readUntilSignature}

/-- One turn delivers an error, or what was received, or it goes on with that. -/
theorem delivers_readUntil_turn {value : Except Io.Error Bytes}
    (h : Delivers (readUntilBodies predicate) (readUntil predicate received) trace value) :
    ∃ ev : ReadEvent,
      (∃ err, ev.result = .error err ∧ trace = [.answered () ev] ∧ value = .error err) ∨
      (∃ part, ev.result = .ok part ∧ predicate (received ++ part) ∧
        trace = [.answered () ev] ∧ value = .ok (received ++ part)) ∨
      ∃ part trace', ev.result = .ok part ∧ ¬predicate (received ++ part) ∧
        trace = .answered () ev :: trace' ∧
        Delivers (readUntilBodies predicate) (readUntil predicate (received ++ part)) trace'
          value := by
  obtain ⟨_, res, rest, hpart, hnext, rfl⟩ := delivers_flatmap.mp h
  obtain ⟨ev, rfl, rfl⟩ := delivers_when.mp hpart
  refine ⟨ev, ?_⟩
  cases hresult : ev.result with
  -- the error is passed on
  | error err =>
    rw [hresult] at hnext
    obtain ⟨rfl, rfl⟩ := delivers_fromVal.mp hnext
    exact .inl ⟨err, rfl, rfl, rfl⟩
  | ok part =>
    rw [hresult] at hnext
    dsimp only at hnext
    split_ifs at hnext with hpredicate
    · obtain ⟨rfl, rfl⟩ := delivers_fromVal.mp hnext
      exact .inr (.inl ⟨part, rfl, hpredicate, rfl, rfl⟩)
    · exact .inr (.inr ⟨part, rest, rfl, hpredicate, rfl, delivers_call.mp hnext⟩)

/-- A turn that waits. -/
theorem blocks_readUntil_turn {wait : Wait readUntilSignature}
    (h : Blocks (readUntilBodies predicate) (readUntil predicate received) trace wait) :
    trace = [] ∨ ∃ (ev : ReadEvent) (part : Bytes) (trace' : Trace readUntilSignature),
      ev.result = .ok part ∧ ¬predicate (received ++ part) ∧ trace = .answered () ev :: trace' ∧
      Blocks (readUntilBodies predicate) (readUntil predicate (received ++ part)) trace' wait := by
  -- it waits for this read, or a later turn waits
  obtain hpart | ⟨_, res, rest, hpart, hnext, rfl⟩ := blocks_flatmap.mp h
  · exact .inl (blocks_when.mp hpart).1
  · obtain ⟨ev, rfl, rfl⟩ := delivers_when.mp hpart
    refine .inr ⟨ev, ?_⟩
    cases hresult : ev.result with
    | error err =>
      rw [hresult] at hnext
      exact absurd hnext not_blocks_fromVal
    | ok part =>
      rw [hresult] at hnext
      dsimp only at hnext
      split_ifs at hnext with hpredicate
      · exact absurd hnext not_blocks_fromVal
      · exact ⟨part, rest, rfl, hpredicate, rfl, blocks_call.mp hnext⟩

/-- What is delivered is what the outcomes resolve to. -/
theorem delivers_readUntil {value : Except Io.Error Bytes}
    (h : Delivers (readUntilBodies predicate) (readUntil predicate received) trace value) :
    Resolves predicate received (readResults trace) value := by
  -- induction on the reads, one turn of the loop for each
  induction trace generalizing received with
  | nil =>
    obtain ⟨_, ⟨_, -, hnil, -⟩ | ⟨_, -, -, hnil, -⟩ | ⟨_, _, -, -, hnil, -⟩⟩ :=
      delivers_readUntil_turn h
    all_goals exact absurd hnil.symm (List.cons_ne_nil _ _)
  | cons _ trace ih =>
    obtain ⟨ev, ⟨err, hresult, htrace, rfl⟩ | ⟨part, hresult, hpredicate, htrace, rfl⟩ |
      ⟨part, _, hresult, hpredicate, htrace, hnext⟩⟩ := delivers_readUntil_turn h
    · rw [htrace, readResults, answers_cons_answered, List.map_cons, hresult]
      exact .failed undecided_nil
    · have hone : received ++ ([] ++ [part]).flatten = received ++ part := by simp
      rw [htrace, readResults, answers_cons_answered, List.map_cons, hresult, ← hone]
      exact .found undecided_nil (hone ▸ hpredicate)
    · obtain ⟨rfl, rfl⟩ := List.cons.inj htrace
      rw [readResults, answers_cons_answered, List.map_cons, hresult]
      -- the part did not satisfy the predicate, so the rest decides
      exact (ih hnext).cons hpredicate

/-- Before that they are undecided. -/
theorem blocks_readUntil {wait : Wait readUntilSignature}
    (h : Blocks (readUntilBodies predicate) (readUntil predicate received) trace wait) :
    ∃ parts : List Bytes, readResults trace = parts.map .ok ∧
      Undecided predicate received parts := by
  induction trace generalizing received with
  | nil => exact ⟨[], rfl, undecided_nil⟩
  | cons _ trace ih =>
    obtain hnil | ⟨ev, part, _, hresult, hpredicate, htrace, hnext⟩ := blocks_readUntil_turn h
    · -- the turn in front has answered
      cases hnil
    · obtain ⟨rfl, rfl⟩ := List.cons.inj htrace
      obtain ⟨parts, hresults, hundecided⟩ := ih hnext
      refine ⟨part :: parts, ?_, undecided_cons hpredicate hundecided⟩
      rw [readResults, answers_cons_answered, List.map_cons, hresult, List.map_cons, ← hresults]
      rfl

end turn

/-! ## Runs -/

section runs
variable {predicate : Bytes → Prop} [DecidablePred predicate]

/-- A call leaves none free. -/
def readUntilEnds (t : Unit) (_ : readUntilSignature.Proc t) : ℕ := 0

/-- It takes no contract from outside. -/
theorem takes_readUntil (received : Bytes) :
    Takes (S := readUntilSignature) 0 (readUntil predicate received) := by
  refine .flatmap (add_zero 0).symm (.when _) fun res => ?_
  cases res with
  | error err => exact .fromVal _
  | ok part =>
    dsimp only
    split_ifs
    · exact .fromVal _
    · exact .call _

/-- It gives away one handler at a time. -/
theorem pays_readUntil (received : Bytes) :
    Pays (S := readUntilSignature) readUntilEnds 0 (readUntil predicate received) 0 := by
  refine .flatmap (.when _ (Nat.le_refl 1)) fun res => ?_
  cases res with
  | error err => exact .fromVal _ (Nat.zero_le 1)
  | ok part =>
    dsimp only
    split_ifs
    · exact .fromVal _ (Nat.zero_le 1)
    · exact .call Nat.one_pos (Nat.le_refl 0)

/-- So the future is sound. -/
theorem good_readUntil (received : Bytes) :
    (readUntil predicate received).Good readUntilEnds (readUntilBodies predicate) :=
  ⟨⟨fun _ proc => takes_readUntil proc, fun _ proc => pays_readUntil proc⟩,
    ⟨0, Multiset.nodup_zero, takes_readUntil received⟩, 0, 0, pays_readUntil received⟩

/-- It waits for reads only. -/
theorem quiet_readUntil (received : Bytes) : (readUntil predicate received).Quiet := by
  refine .flatmap (.when _) fun res => ?_
  cases res with
  | error err => exact .fromVal _
  | ok part =>
    dsimp only
    split_ifs
    · exact .fromVal _
    · exact .call _

variable {received : Bytes} {es : List (Event readUntilSignature)} {c : Config readUntilSignature}

/-- When every call has returned, the outcomes have resolved, or they are undecided and a
    handler waits for the next one. -/
theorem readUntil_idle
    (hrun : ProgRun (readUntilBodies predicate) (readUntilProg predicate received) es c)
    (hidle : c.Idle) :
    (∃ value, Resolves predicate received (readResults (notes es)) value ∧
      effects es = [value] ∧ c.pending = 0) ∨
    ∃ parts : List Bytes, readResults (notes es) = parts.map .ok ∧
      Undecided predicate received parts ∧ effects es = [] ∧ c.pending.card = 1 := by
  obtain ⟨trace, value, h, hanswers, heffects, hpending⟩ | ⟨handler, h, heffects, hpending⟩ :=
    (good_readUntil received).idle_of_quiet (fun _ proc => quiet_readUntil proc)
      (quiet_readUntil received) hrun hidle
  · rw [readResults, hanswers]
    exact .inl ⟨value, delivers_readUntil h, heffects, hpending⟩
  · obtain ⟨parts, hresults, hundecided⟩ := blocks_readUntil h
    exact .inr ⟨parts, hresults, hundecided, heffects, by rw [hpending]; rfl⟩

/-- The reads came out as the sequence says. -/
theorem readResults_eq {p : ℕ → Except Io.Error Bytes}
    (hanswers : ∀ i a, (answers (notes es))[i]? = some a → a.2.result = p i) :
    readResults (notes es) = (List.range (answers (notes es)).length).map p := by
  refine List.ext_getElem (by simp [readResults]) fun i hi hi' => ?_
  simp only [readResults, List.getElem_map, List.getElem_range]
  exact hanswers i _ (List.getElem?_eq_getElem _)

/-- There is a run that reads what resolves. -/
theorem readUntil_exists_run {p : ℕ → Except Io.Error Bytes} {k : ℕ} {res : Except Io.Error Bytes}
    (hres : Resolves predicate received ((List.range k).map p) res) :
    ∃ es c, ProgRun (readUntilBodies predicate) (readUntilProg predicate received) es c ∧
      (∀ i a, (answers (notes es))[i]? = some a → a.2.result = p i) ∧ c.Idle ∧
      (answers (notes es)).length = k := by
  have hgood : (readUntil predicate received).Good readUntilEnds (readUntilBodies predicate) :=
    good_readUntil received
  obtain ⟨es, c, hrun, hidle, hanswers, -, hend⟩ :=
    hgood.exists_run (fun res => [res]) (fun i _ => .toRead (p i)) k
  have hresults : ∀ i a, (answers (notes es))[i]? = some a → a.2.result = p i := by
    intro i a ha
    rw [hanswers i a ha]
    rfl
  refine ⟨es, c, hrun, hresults, hidle, ?_⟩
  -- a run that stops early has resolved, which it does at `k` only
  obtain hpending | hlength := hend
  · obtain ⟨value, hvalue, -⟩ | ⟨_, -, -, -, hwaits⟩ := readUntil_idle hrun hidle
    · rw [readResults_eq hresults] at hvalue
      exact (hvalue.unique hres).1
    · rw [hpending, Multiset.card_zero] at hwaits
      exact absurd hwaits Nat.zero_ne_one
  · exact hlength

/-- What has come out is what the outcomes say when the threads have gone on. -/
theorem readUntil_settled {p : ℕ → Except Io.Error Bytes}
    (hrun : ProgRun (readUntilBodies predicate) (readUntilProg predicate received) es c)
    (hanswers : ∀ i a, (answers (notes es))[i]? = some a → a.2.result = p i) :
    (∃ value, Resolves predicate received ((List.range (answers (notes es)).length).map p) value ∧
      (effects es = [] ∨ effects es = [value])) ∨
    ∃ parts : List Bytes, (List.range (answers (notes es)).length).map p = parts.map .ok ∧
      Undecided predicate received parts ∧ effects es = [] := by
  have hgood : (readUntil predicate received).Good readUntilEnds (readUntilBodies predicate) :=
    good_readUntil received
  obtain ⟨es', c', hrun', hidle', hinternal⟩ := hgood.settles hrun
  -- no outcome is added on the way
  have hsame : readResults (notes (es ++ es')) =
      (List.range (answers (notes es)).length).map p := by
    rw [← readResults_eq hanswers, readResults, answers_notes_append_internal hinternal,
      readResults]
  have hbegins := effects_prefix_append es es'
  obtain ⟨value, hvalue, heffects, -⟩ | ⟨parts, hparts, hundecided, heffects, -⟩ :=
    readUntil_idle hrun' hidle'
  · rw [heffects] at hbegins
    refine .inl ⟨value, hsame ▸ hvalue, ?_⟩
    obtain hnil | ⟨rest, hcons, hrest⟩ := List.prefix_cons_iff.mp hbegins
    · exact .inl hnil
    · rw [List.prefix_nil.mp hrest] at hcons
      exact .inr hcons
  · rw [heffects] at hbegins
    exact .inr ⟨parts, hsame ▸ hparts, hundecided, List.prefix_nil.mp hbegins⟩

/-- The outcomes resolve at `k`: no more of them are read, and the result is theirs. -/
theorem readUntil_of_resolves {p : ℕ → Except Io.Error Bytes} {k : ℕ} {res : Except Io.Error Bytes}
    (hrun : ProgRun (readUntilBodies predicate) (readUntilProg predicate received) es c)
    (hanswers : ∀ i a, (answers (notes es))[i]? = some a → a.2.result = p i)
    (hres : Resolves predicate received ((List.range k).map p) res) :
    (answers (notes es)).length ≤ k ∧
    (effects es = [] ∨ effects es = [res] ∧ (answers (notes es)).length = k) ∧
    (c.Idle → (answers (notes es)).length = k → effects es = [res] ∧ c.pending = 0) := by
  obtain ⟨value, hvalue, heffects⟩ | ⟨parts, hparts, hundecided, heffects⟩ :=
    readUntil_settled hrun hanswers
  · obtain ⟨hlength, rfl⟩ := hvalue.unique hres
    refine ⟨hlength.le, heffects.imp_right fun hone => ⟨hone, hlength⟩, fun hidle _ => ?_⟩
    obtain ⟨value', hvalue', heffects', hpending⟩ | ⟨parts, hparts, hundecided, -⟩ :=
      readUntil_idle hrun hidle
    · rw [readResults_eq hanswers] at hvalue'
      exact ⟨hvalue.eq_res hvalue' ▸ heffects', hpending⟩
    · rw [← readResults_eq hanswers, hparts] at hvalue
      exact absurd hundecided hvalue.not_undecided
  · -- undecided outcomes do not begin with some that resolve
    have hshort : (answers (notes es)).length < k := by
      by_contra hlong
      have hfront := range_map_begins p (Nat.le_of_not_lt hlong)
      rw [hparts] at hfront
      exact hres.not_prefix hundecided hfront
    exact ⟨hshort.le, .inl heffects, fun _ hlength => absurd hlength hshort.ne⟩

/-- The outcomes that were read are undecided: there is no result, and a handler waits. -/
theorem readUntil_of_undecided {p : ℕ → Except Io.Error Bytes} {parts : List Bytes}
    (hrun : ProgRun (readUntilBodies predicate) (readUntilProg predicate received) es c)
    (hanswers : ∀ i a, (answers (notes es))[i]? = some a → a.2.result = p i)
    (hparts : (List.range (answers (notes es)).length).map p = parts.map .ok)
    (hundecided : Undecided predicate received parts) :
    effects es = [] ∧ (c.Idle → c.pending.card = 1) := by
  -- the outcomes do not resolve, so nothing is delivered
  have hnot : ∀ value,
      ¬Resolves predicate received ((List.range (answers (notes es)).length).map p) value := by
    intro value hvalue
    rw [hparts] at hvalue
    exact hvalue.not_undecided hundecided
  constructor
  · obtain ⟨value, hvalue, -⟩ | ⟨_, -, -, heffects⟩ := readUntil_settled hrun hanswers
    · exact absurd hvalue (hnot value)
    · exact heffects
  · intro hidle
    obtain ⟨value, hvalue, -⟩ | ⟨_, -, -, -, hpending⟩ := readUntil_idle hrun hidle
    · rw [readResults_eq hanswers] at hvalue
      exact absurd hvalue (hnot value)
    · exact hpending

/-- The future resolves with the shortest run of parts that satisfies the predicate, or with
    an error that comes before, and reads no further; until then it is not resolved. -/
theorem readUntil_shortest {p : ℕ → Except Io.Error Bytes}
    (hrun : ProgRun (readUntilBodies predicate) (readUntilProg predicate received) es c)
    (hanswers : ∀ i a, (answers (notes es))[i]? = some a → a.2.result = p i) :
    (∀ k res, Resolves predicate received ((List.range k).map p) res →
      (answers (notes es)).length ≤ k ∧
      (effects es = [] ∨ effects es = [res] ∧ (answers (notes es)).length = k) ∧
      (c.Idle → (answers (notes es)).length = k → effects es = [res] ∧ c.pending = 0)) ∧
    (∀ parts, (List.range (answers (notes es)).length).map p = parts.map .ok →
      Undecided predicate received parts →
      effects es = [] ∧ (c.Idle → c.pending.card = 1)) ∧
    .uncaught ∉ es ∧
    Inevitably (Step (readUntilBodies predicate)) Event.Internal Config.Idle c := by
  have hgood : (readUntil predicate received).Good readUntilEnds (readUntilBodies predicate) :=
    good_readUntil received
  -- decided at a part, or undecided so far
  exact ⟨fun _ _ hres => readUntil_of_resolves hrun hanswers hres,
    fun _ hparts hundecided => readUntil_of_undecided hrun hanswers hparts hundecided,
    hgood.not_uncaught hrun, hgood.returns hrun⟩

end runs

/-- Two parts, then errors. -/
def twoParts (i : ℕ) : Except Io.Error Bytes :=
  [.ok [1, 2], .ok [3]].getD i (.error .connectionClosed)

/-- Three bytes come in two parts. -/
theorem readUntil_shortest_twoParts : ∃ es c,
    ProgRun (readUntilBodies fun data => 3 ≤ data.length)
      (readUntilProg (fun data => 3 ≤ data.length) []) es c ∧
    effects es = [.ok [1, 2, 3]] ∧ c.pending = 0 := by
  have hbefore : Undecided (fun data => 3 ≤ data.length) [] [[1, 2]] := by
    intro run hrun hne
    obtain hnil | ⟨rest, rfl, hrest⟩ := List.prefix_cons_iff.mp hrun
    · exact absurd hnil hne
    · rw [List.prefix_nil.mp hrest]
      decide
  have hres : Resolves (fun data => 3 ≤ data.length) [] ((List.range 2).map twoParts)
      (.ok [1, 2, 3]) := @Resolves.found _ _ [[1, 2]] [3] hbefore (by decide)
  obtain ⟨es, c, hrun, hanswers, hidle, hlength⟩ := readUntil_exists_run hres
  exact ⟨es, c, hrun, ((readUntil_shortest hrun hanswers).1 2 _ hres).2.2 hidle hlength⟩

end Webserv.Fut
