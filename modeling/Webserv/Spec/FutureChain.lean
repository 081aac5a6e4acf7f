import Webserv.ForStd.List
import Webserv.Spec.FutureRuns

/-!
# Chains of futures

A chain starts with the future of a contract and goes on with `map` and `flatmap`
stages.  What a `flatmap` function returns is a chain again: the future of a
contract made before, of one the function makes, of `from_val`, or a chain on
one of these.

`Chain.eval` applies the stage functions in order to the values that were set,
as far as there are any.

## Key results

- `Chain.delivers_eval`, `Chain.blocks_eval`: the meaning of a chain is its evaluation
- `Chain.delivers_once`: so is what the threads do, at any timing
-/

namespace Webserv.Futures

open Transition

/-- Where in a chain: in front of a stage, or in what its function returned. -/
abbrev Path : Type := List Bool

section chain
variable {Ty : Type} [DecidableEq Ty]

/-- What the functions of a chain let us see. -/
inductive ChainEffect (Val : Ty → Type) where
  /-- The function of a stage ran. -/
  | ran (path : Path) (t : Ty) (value : Val t)
  /-- The callback behind the chain ran. -/
  | completed (t : Ty) (value : Val t)

/-- Chains of futures with these values, on these contracts. -/
abbrev chainSignature (Val Contract : Ty → Type) [∀ t, DecidableEq (Contract t)] : Signature where
  Ty := Ty
  Val := Val
  Contract := Contract
  -- a contract that is made in the chain is told by its place
  Query := Ty × Path
  Answer query := Val query.1
  Proc _ := Empty
  Effect := ChainEffect Val

inductive Chain (Val Contract : Ty → Type) : Ty → Type where
  /-- The future of a contract that was made before. -/
  | given {t : Ty} (contract : Contract t) : Chain Val Contract t
  /-- The future of a contract that is made, its promise being handed to somebody. -/
  | made {t : Ty} : Chain Val Contract t
  | fromVal {t : Ty} (value : Val t) : Chain Val Contract t
  | map {s t : Ty} (chain : Chain Val Contract s) (func : Val s → Val t) : Chain Val Contract t
  | flatmap {s t : Ty} (chain : Chain Val Contract s) (func : Val s → Chain Val Contract t) :
      Chain Val Contract t

variable {Val Contract : Ty → Type} [∀ t, DecidableEq (Contract t)] {t : Ty}

namespace Chain

/-- The chain as an expression; its functions say when they run. -/
def expr : {t : Ty} → Chain Val Contract t → Path → Expr (chainSignature Val Contract) t
  | _, given contract, _ => .given contract
  | t, made, path => .when (t, path) fun value => value
  | _, fromVal value, _ => .fromVal value
  | _, @map _ _ _ s _ chain func, path =>
    .map (chain.expr (false :: path)) fun value => ([.ran path s value], func value)
  | _, @flatmap _ _ _ s _ chain func, path =>
    .flatmap (chain.expr (false :: path)) fun value =>
      .perform (.ran path s value) ((func value).expr (true :: path))

/-- The chain with a callback. -/
def prog (chain : Chain Val Contract t) : Prog (chainSignature Val Contract) :=
  (chain.expr []).onComplete fun value => [.completed t value]

/-- The contracts of a chain.  A `Future` cannot be copied: a function returns a future
    that it has captured, and no other stage has it. -/
inductive Owns : Multiset (Σ t : Ty, Contract t) → {t : Ty} → Chain Val Contract t → Prop where
  | given {D : Multiset (Σ t : Ty, Contract t)} {t : Ty} {contract : Contract t}
      (h : ⟨t, contract⟩ ∈ D) : Owns D (given contract)
  | made {D : Multiset (Σ t : Ty, Contract t)} {t : Ty} : Owns D (made (t := t))
  | fromVal {D : Multiset (Σ t : Ty, Contract t)} {t : Ty} (value : Val t) : Owns D (fromVal value)
  | map {D : Multiset (Σ t : Ty, Contract t)} {s t : Ty} {chain : Chain Val Contract s}
      (func : Val s → Val t) (h : Owns D chain) : Owns D (map chain func)
  | flatmap {D D₁ D₂ : Multiset (Σ t : Ty, Contract t)} {s t : Ty} {chain : Chain Val Contract s}
      {func : Val s → Chain Val Contract t} (hD : D = D₁ + D₂) (h : Owns D₁ chain)
      (hfunc : ∀ value, Owns D₂ (func value)) : Owns D (flatmap chain func)

/-- No future is used twice. -/
def Linear (chain : Chain Val Contract t) : Prop :=
  ∃ D : Multiset (Σ t : Ty, Contract t), D.Nodup ∧ Owns D chain

end Chain

/-! ## The evaluation of a chain -/

/-- The values that promises were set to. -/
structure Settings (Val Contract : Ty → Type) where
  given : ∀ t, Contract t → Option (Val t)
  made : ∀ t, Path → Option (Val t)

/-- The stage functions applied in order: what runs, and the value at the end if all
    the promises it depends on are set. -/
def Chain.eval (s : Settings Val Contract) :
    {t : Ty} → Chain Val Contract t → Path → List (ChainEffect Val) × Option (Val t)
  | t, given contract, _ => ([], s.given t contract)
  | t, made, path => ([], s.made t path)
  | _, fromVal value, _ => ([], some value)
  | _, @map _ _ _ u _ chain func, path =>
    match chain.eval s (false :: path) with
    | (log, none) => (log, none)
    | (log, some value) => (log ++ [.ran path u value], some (func value))
  | _, @flatmap _ _ _ u _ chain func, path =>
    match chain.eval s (false :: path) with
    | (log, none) => (log, none)
    | (log, some value) =>
      let (log', result) := (func value).eval s (true :: path)
      (log ++ .ran path u value :: log', result)

/-- All that should have run. -/
def Chain.expected (s : Settings Val Contract) (chain : Chain Val Contract t) :
    List (ChainEffect Val) :=
  (chain.eval s []).1 ++ ((chain.eval s []).2.map (ChainEffect.completed t)).toList

/-! ## The meaning of a chain is its evaluation -/

/-- There is no recursive function. -/
def chainBodies : Bodies (chainSignature Val Contract) := fun _ proc => nomatch proc

/-- What a note is about is known. -/
def Settings.Knows (s : Settings Val Contract) : Note (chainSignature Val Contract) → Prop
  | .performed _ => True
  | .answered (t, path) value => s.made t path = some value
  | .got t contract value => s.given t contract = some value

/-- What is waited for is not set. -/
def Settings.Lacks (s : Settings Val Contract) : Wait (chainSignature Val Contract) → Prop
  | .answer (t, path) => s.made t path = none
  | .value t contract => s.given t contract = none

section eval
variable {s : Settings Val Contract}

/-- A chain that delivers delivers what it is expected to, with the same stages. -/
theorem Chain.delivers_eval (chain : Chain Val Contract t) {path : Path}
    {trace : Trace (chainSignature Val Contract)} {value : Val t}
    (h : Delivers chainBodies (chain.expr path) trace value) (hknows : ∀ n ∈ trace, s.Knows n) :
    chain.eval s path = (trace.filterMap Note.effect?, some value) := by
  induction chain generalizing path trace with
  -- the trace holds the value of each contract that is looked at
  | given contract =>
    obtain rfl := delivers_given.mp h
    have hvalue : s.given _ contract = some value := hknows _ (List.mem_singleton_self _)
    rw [Chain.eval, hvalue]
    rfl
  | made =>
    obtain ⟨answer, rfl, rfl⟩ := delivers_when.mp h
    have hvalue : s.made _ path = some value := hknows _ (List.mem_singleton_self _)
    rw [Chain.eval, hvalue]
    rfl
  | fromVal val =>
    obtain ⟨rfl, rfl⟩ := delivers_fromVal.mp h
    rfl
  | map chain func ih =>
    obtain ⟨trace, value, hchain, rfl, rfl⟩ := delivers_map.mp h
    replace hchain := ih hchain fun n hn => hknows n (List.mem_append_left _ hn)
    rw [Chain.eval, hchain, List.filterMap_append]
    rfl
  | flatmap chain func ih ihfunc =>
    obtain ⟨trace, value', _, hchain, hnext, rfl⟩ := delivers_flatmap.mp h
    -- the function runs, then the inner chain
    obtain ⟨trace', hinner, rfl⟩ := delivers_perform.mp hnext
    replace hchain := ih hchain fun n hn => hknows n (List.mem_append_left _ hn)
    replace hinner := ihfunc value' hinner fun n hn =>
      hknows n (List.mem_append_right _ (List.mem_cons_of_mem _ hn))
    rw [Chain.eval, hchain, List.filterMap_append]
    simp only [hinner]
    rfl

/-- A chain that waits has run the stages it could. -/
theorem Chain.blocks_eval (chain : Chain Val Contract t) {path : Path}
    {trace : Trace (chainSignature Val Contract)} {wait : Wait (chainSignature Val Contract)}
    (h : Blocks chainBodies (chain.expr path) trace wait) (hknows : ∀ n ∈ trace, s.Knows n)
    (hlacks : s.Lacks wait) :
    chain.eval s path = (trace.filterMap Note.effect?, none) := by
  induction chain generalizing path trace with
  | given contract =>
    obtain ⟨rfl, rfl⟩ := blocks_given.mp h
    have hnone : s.given _ contract = none := hlacks
    rw [Chain.eval, hnone]
    rfl
  | made =>
    obtain ⟨rfl, rfl⟩ := blocks_when.mp h
    have hnone : s.made _ path = none := hlacks
    rw [Chain.eval, hnone]
    rfl
  -- a value that is there does not wait
  | fromVal value => exact absurd h not_blocks_fromVal
  | map chain func ih => rw [Chain.eval, ih (blocks_map.mp h) hknows]
  | flatmap chain func ih ihfunc =>
    obtain hchain | ⟨trace, value, _, hchain, hnext, rfl⟩ := blocks_flatmap.mp h
    · rw [Chain.eval, ih hchain hknows]
    · obtain ⟨trace', hinner, rfl⟩ := blocks_perform.mp hnext
      replace hchain := chain.delivers_eval hchain fun n hn => hknows n (List.mem_append_left _ hn)
      replace hinner := ihfunc value hinner fun n hn =>
        hknows n (List.mem_append_right _ (List.mem_cons_of_mem _ hn))
      rw [Chain.eval, hchain, List.filterMap_append]
      simp only [hinner]
      rfl

end eval

/-! ## Every place of a chain is passed once -/

/-- Different places in a part of a chain. -/
structure Path.Apart (path : Path) (l : List Path) : Prop where
  nodup : l.Nodup
  suffix : ∀ q ∈ l, path <:+ q

namespace Path.Apart
variable {path : Path} {b : Bool} {l l' : List Path}

/-- No place at all. -/
theorem nil : Apart path [] := ⟨List.nodup_nil, by simp⟩

/-- The place of the chain itself. -/
theorem singleton : Apart path [path] := ⟨List.nodup_singleton _, by simp⟩

/-- The places of a part are places of the whole. -/
theorem of_cons (h : Apart (b :: path) l) : Apart path l :=
  ⟨h.nodup, fun q hq => (List.suffix_cons b path).trans (h.suffix q hq)⟩

/-- The place of the whole is not one of a part. -/
theorem not_mem (h : Apart (b :: path) l) : path ∉ l := by
  intro hmem
  have hlength := (h.suffix path hmem).length_le
  rw [List.length_cons] at hlength
  omega

/-- The place of a stage is behind the ones before it and those in what its function returned. -/
theorem join (h : Apart (false :: path) l) (h' : Apart (true :: path) l') :
    Apart path (l ++ path :: l') := by
  refine ⟨List.nodup_append'.mpr ⟨h.nodup, List.nodup_cons.mpr ⟨h'.not_mem, h'.nodup⟩, ?_⟩, ?_⟩
  · intro q hq hq'
    -- the path itself is a proper suffix of both sides
    obtain rfl | hq' := List.mem_cons.mp hq'
    · exact h.not_mem hq
    · -- two suffixes of one list, told apart by the bit in front of the path
      have hsame := List.suffix_of_suffix_length_le (h.suffix q hq) (h'.suffix q hq') (Nat.le_refl _)
      cases hsame.eq_of_length rfl
  · intro q hq
    obtain hq | hq := List.mem_append.mp hq
    · exact h.of_cons.suffix q hq
    · obtain rfl | hq := List.mem_cons.mp hq
      · exact List.suffix_rfl
      · exact h'.of_cons.suffix q hq

end Path.Apart

def Note.place? : Note (chainSignature Val Contract) → Option Path
  | .performed (.ran path _ _) => some path
  | .answered (_, path) _ => some path
  | _ => none

def Wait.place? : Wait (chainSignature Val Contract) → Option Path
  | .answer (_, path) => some path
  | .value _ _ => none

/-- Each stage of a chain has a place of its own. -/
theorem Chain.delivers_apart (chain : Chain Val Contract t) {path : Path}
    {trace : Trace (chainSignature Val Contract)} {value : Val t}
    (h : Delivers chainBodies (chain.expr path) trace value) :
    path.Apart (trace.filterMap Note.place?) := by
  induction chain generalizing path trace with
  | given contract =>
    obtain rfl := delivers_given.mp h
    exact .nil
  | made =>
    obtain ⟨answer, rfl, rfl⟩ := delivers_when.mp h
    exact .singleton
  | fromVal val =>
    obtain ⟨rfl, rfl⟩ := delivers_fromVal.mp h
    exact .nil
  | map chain func ih =>
    obtain ⟨trace, value, hchain, rfl, rfl⟩ := delivers_map.mp h
    rw [List.filterMap_append]
    exact (ih hchain).join .nil
  -- the chain and the inner one are on different sides of the fork
  | flatmap chain func ih ihfunc =>
    obtain ⟨trace, value', _, hchain, hnext, rfl⟩ := delivers_flatmap.mp h
    obtain ⟨trace', hinner, rfl⟩ := delivers_perform.mp hnext
    rw [List.filterMap_append]
    exact (ih hchain).join (ihfunc value' hinner)

/-- Nor was the place passed where the chain waits. -/
theorem Chain.blocks_apart (chain : Chain Val Contract t) {path : Path}
    {trace : Trace (chainSignature Val Contract)} {wait : Wait (chainSignature Val Contract)}
    (h : Blocks chainBodies (chain.expr path) trace wait) :
    path.Apart (trace.filterMap Note.place? ++ wait.place?.toList) := by
  induction chain generalizing path trace with
  | given contract =>
    obtain ⟨rfl, rfl⟩ := blocks_given.mp h
    exact .nil
  | made =>
    obtain ⟨rfl, rfl⟩ := blocks_when.mp h
    exact .singleton
  | fromVal value => exact absurd h not_blocks_fromVal
  -- the place that is waited for is one of the first future
  | map chain func ih => exact (ih (blocks_map.mp h)).of_cons
  | flatmap chain func ih ihfunc =>
    obtain hchain | ⟨trace, value, _, hchain, hnext, rfl⟩ := blocks_flatmap.mp h
    · exact (ih hchain).of_cons
    · -- the first future is set, and the inner one waits
      obtain ⟨trace', hinner, rfl⟩ := blocks_perform.mp hnext
      rw [List.filterMap_append, List.append_assoc]
      exact (chain.delivers_apart hchain).join (ihfunc value hinner)

/-- The place whose function an effect shows, none for the callback behind the chain. -/
def ChainEffect.stage? {Val : Ty → Type} : ChainEffect Val → Option Path
  | .ran path _ _ => some path
  | .completed _ _ => none

omit [DecidableEq Ty] [∀ t, DecidableEq (Contract t)] in
/-- No stage function is run twice. -/
theorem Chain.eval_apart (chain : Chain Val Contract t) (s : Settings Val Contract) (path : Path) :
    ∃ l, path.Apart l ∧ (chain.eval s path).1.map ChainEffect.stage? = l.map some := by
  induction chain generalizing path with
  | given contract => exact ⟨[], .nil, rfl⟩
  | made => exact ⟨[], .nil, rfl⟩
  | fromVal value => exact ⟨[], .nil, rfl⟩
  | map chain func ih =>
    obtain ⟨l, hl, hlog⟩ := ih (false :: path)
    rw [Chain.eval]
    rcases hchain : chain.eval s (false :: path) with ⟨log, _ | value⟩
    · rw [hchain] at hlog
      exact ⟨l, hl.of_cons, hlog⟩
    · rw [hchain] at hlog
      refine ⟨_, hl.join .nil, ?_⟩
      dsimp only at hlog ⊢
      rw [List.map_append, hlog, List.map_append]
      rfl
  | flatmap chain func ih ihfunc =>
    obtain ⟨l, hl, hlog⟩ := ih (false :: path)
    rw [Chain.eval]
    rcases hchain : chain.eval s (false :: path) with ⟨log, _ | value⟩
    · rw [hchain] at hlog
      exact ⟨l, hl.of_cons, hlog⟩
    · rw [hchain] at hlog
      -- the inner chain has places under the other branch
      obtain ⟨l', hl', hlog'⟩ := ihfunc value (true :: path)
      refine ⟨_, hl.join hl', ?_⟩
      dsimp only at hlog ⊢
      rw [List.map_append, hlog, List.map_append, List.map_cons, hlog', List.map_cons]
      rfl

omit [DecidableEq Ty] [∀ t, DecidableEq (Contract t)] in
/-- No stage is expected twice. -/
theorem Chain.expected_nodup (chain : Chain Val Contract t) (s : Settings Val Contract) :
    ((chain.expected s).map ChainEffect.stage?).Nodup := by
  obtain ⟨l, hl, hlog⟩ := chain.eval_apart s []
  have hstages : (l.map some).Nodup := hl.nodup.map (Option.some_injective _)
  rw [Chain.expected, List.map_append, hlog]
  cases (chain.eval s []).2 with
  | none => simpa using hstages
  | some value =>
    refine List.nodup_append'.mpr ⟨hstages, List.nodup_singleton _, ?_⟩
    simp [ChainEffect.stage?]

/-! ## Runs of a chain -/

/-- The values the promises were set to in a run. -/
def settings (es : List (Event (chainSignature Val Contract))) : Settings Val Contract where
  given t contract := es.findSome? fun
    | .gave t' contract' value =>
      if h : t' = t then if h ▸ contract' = contract then some (h ▸ value) else none else none
    | _ => none
  made t path := es.findSome? fun
    | .answered (t', path') value => if h : t' = t ∧ path' = path then some (h.1 ▸ value) else none
    | _ => none

section settings
variable {es : List (Event (chainSignature Val Contract))}

/-- A contract that was given one value is set to it. -/
theorem settings_given_eq_some {contract : Contract t} {value : Val t}
    (hmem : .gave t contract value ∈ es)
    (hunique : ∀ value', .gave t contract value' ∈ es → value' = value) :
    (settings es).given t contract = some value := by
  refine List.findSome?_eq_some_of_unique hmem (by simp) fun e he value' hvalue => ?_
  cases e with
  -- another contract is skipped over
  | gave t' contract' value =>
    dsimp only at hvalue
    split_ifs at hvalue with ht hcontract
    subst ht hcontract
    cases hvalue
    exact hunique _ he
  | _ => cases hvalue

/-- A contract that was given none is not set. -/
theorem settings_given_eq_none {contract : Contract t}
    (hfresh : ∀ value, .gave t contract value ∉ es) : (settings es).given t contract = none := by
  refine List.findSome?_eq_none_iff.mpr fun e he => ?_
  cases e with
  -- no value is found for the contract, whatever was given to the others
  | gave t' contract' value =>
    dsimp only
    split_ifs with ht hcontract
    · subst ht hcontract
      exact absurd he (hfresh value)
    · rfl
    · rfl
  | _ => rfl

/-- The same for a promise made inside the chain. -/
theorem settings_made_eq_some {path : Path} {value : Val t} (hmem : .answered (t, path) value ∈ es)
    (hunique : ∀ value', .answered (t, path) value' ∈ es → value' = value) :
    (settings es).made t path = some value := by
  refine List.findSome?_eq_some_of_unique hmem (by simp) fun e he value' hvalue => ?_
  cases e with
  -- another promise is skipped over
  | answered query value =>
    dsimp only at hvalue
    split_ifs at hvalue with hsame
    obtain ⟨rfl, rfl⟩ := hsame
    cases hvalue
    exact hunique _ he
  | _ => cases hvalue

/-- The same for one that was not answered. -/
theorem settings_made_eq_none {path : Path} (hfresh : ∀ value, .answered (t, path) value ∉ es) :
    (settings es).made t path = none := by
  refine List.findSome?_eq_none_iff.mpr fun e he => ?_
  cases e with
  | answered query value =>
    dsimp only
    split_ifs with hsame
    · obtain ⟨rfl, rfl⟩ := hsame
      exact absurd he (hfresh value)
    · rfl
  | _ => rfl

/-- What was set first stays. -/
theorem settings_append (es es' : List (Event (chainSignature Val Contract))) :
    settings (es ++ es') =
      { given := fun t contract => ((settings es).given t contract).or ((settings es').given t contract)
        made := fun t path => ((settings es).made t path).or ((settings es').made t path) } := by
  rw [settings, Settings.mk.injEq]
  constructor
  · funext t contract
    exact List.findSome?_append
  · funext t path
    exact List.findSome?_append

/-- The threads set no promise that they were not given. -/
theorem settings_append_internal {es' : List (Event (chainSignature Val Contract))}
    (h : ∀ e ∈ es', e.Internal) : settings (es ++ es') = settings es := by
  rw [settings_append]
  -- the steps of the loop set no promise from outside
  congr
  · funext t contract
    have hnone : (settings es').given t contract = none :=
      settings_given_eq_none fun value he => (h _ he).elim
    rw [hnone, Option.or_none]
    rfl
  · funext t path
    have hnone : (settings es').made t path = none :=
      settings_made_eq_none fun value he => (h _ he).elim
    rw [hnone, Option.or_none]
    rfl

end settings

/-- The expression uses the contracts the chain owns. -/
theorem Chain.Owns.takes {D : Multiset (Σ t : Ty, Contract t)} {chain : Chain Val Contract t}
    (h : Owns D chain) (path : Path) :
    Takes (S := chainSignature Val Contract) D (chain.expr path) := by
  induction h generalizing path with
  | given hmem => exact .given hmem
  | made => exact .when _
  | fromVal value => exact .fromVal _
  | map func _ ih => exact .map _ (ih _)
  | flatmap hD _ _ ih ihfunc => exact .flatmap hD (ih _) fun value => .perform _ (ihfunc value _)

/-- There are no calls to pay for. -/
abbrev chainEnds (t : Ty) (proc : (chainSignature Val Contract).Proc t) : ℕ := nomatch proc

/-- It calls no function. -/
theorem Chain.pays (chain : Chain Val Contract t) (path : Path) :
    Pays (S := chainSignature Val Contract) chainEnds 0 (chain.expr path) 0 := by
  induction chain generalizing path with
  | given contract => exact .given _ (Nat.le_refl 0)
  | made => exact .when _ (Nat.zero_le 1)
  | fromVal value => exact .fromVal _ (Nat.le_refl 0)
  | map chain func ih => exact .map _ (ih _)
  | flatmap chain func ih ihfunc => exact .flatmap (ih _) fun value => .perform _ (ihfunc value _)

/-- So the expression of a linear chain is sound. -/
theorem Chain.Linear.good {chain : Chain Val Contract t} (h : chain.Linear) :
    (chain.expr []).Good chainEnds chainBodies := by
  obtain ⟨D, hD, howns⟩ := h
  have hguarded : Guarded (S := chainSignature Val Contract) chainEnds chainBodies := by
    constructor
    · exact fun t proc => nomatch proc
    · exact fun t proc => nomatch proc
  exact ⟨hguarded, ⟨D, hD, howns.takes []⟩, 0, 0, chain.pays []⟩

section runs
variable {chain : Chain Val Contract t} {es : List (Event (chainSignature Val Contract))}
  {c : Config (chainSignature Val Contract)}

/-- What is noted agrees with the settings, since no place is noted twice. -/
theorem Chain.knows (hrun : ProgRun chainBodies chain.prog es c)
    {trace : Trace (chainSignature Val Contract)} (hagrees : Agrees trace es)
    (hplaces : (trace.filterMap Note.place?).Nodup) : ∀ n ∈ trace, (settings es).Knows n := by
  intro n hn
  cases n with
  | performed effect => trivial
  | answered query value =>
    obtain ⟨t', path⟩ := query
    refine settings_made_eq_some (hagrees.answered_iff.mp hn) fun value' hvalue' => ?_
    -- two answers at one place would be the same note
    have hsame := List.eq_of_nodup_filterMap hplaces hn (hagrees.answered_iff.mpr hvalue')
      (b := path) rfl rfl
    cases hsame
    rfl
  | got t' contract value =>
    have hgave := hagrees.got t' contract value hn
    exact settings_given_eq_some hgave fun value' hvalue' =>
      ((hrun.gave t' contract value hgave).2 value' hvalue').symm

/-- Once every call has returned the stages that ran are those expected. -/
theorem Chain.effects_of_idle (hlinear : chain.Linear) (hrun : ProgRun chainBodies chain.prog es c)
    (hidle : c.Idle) : effects es = chain.expected (settings es) := by
  obtain ⟨trace, hagrees, houtcome⟩ := hlinear.good.outcome hrun hidle
  rw [hagrees.effects, Chain.expected]
  cases houtcome with
  | @finished trace' value _ h htrace =>
    have hplaces : trace.filterMap Note.place? = trace'.filterMap Note.place? := by
      rw [htrace, List.filterMap_append]
      exact List.append_nil _
    have hapart := chain.delivers_apart h
    rw [← hplaces] at hapart
    have hknows := Chain.knows hrun hagrees hapart.nodup
    have heval := chain.delivers_eval h fun n hn => hknows n (htrace ▸ List.mem_append_left _ hn)
    rw [heval, htrace, List.filterMap_append]
    rfl
  | @asks handler _ h =>
    have hapart := chain.blocks_apart h
    have hknows := Chain.knows hrun hagrees hapart.nodup.of_append_left
    -- an answer would be noted at the place that waits
    have hlacks : (settings es).made handler.1.1 handler.1.2 = none := by
      refine settings_made_eq_none fun value hvalue => ?_
      have hplace : handler.1.2 ∈ trace.filterMap Note.place? :=
        List.mem_filterMap.mpr ⟨_, hagrees.answered_iff.mpr hvalue, rfl⟩
      exact List.disjoint_of_nodup_append hapart.nodup hplace (List.mem_singleton_self _)
    rw [chain.blocks_eval h hknows hlacks]
    exact (List.append_nil _).symm
  | @waits t' contract _ h hunset =>
    have hapart := chain.blocks_apart h
    have hknows := Chain.knows hrun hagrees hapart.nodup.of_append_left
    -- a value would have filled the contract
    have hlacks : (settings es).given t' contract = none :=
      settings_given_eq_none fun value hvalue => (hrun.gave t' contract value hvalue).1 hunset
    rw [chain.blocks_eval h hknows hlacks]
    exact (List.append_nil _).symm

/-- What has run is the beginning of what should have. -/
theorem Chain.effects_prefix (hlinear : chain.Linear) (hrun : ProgRun chainBodies chain.prog es c) :
    effects es <+: chain.expected (settings es) := by
  obtain ⟨es', c', hrest, hidle, hinternal⟩ := (hlinear.good.returns hrun).exists_run
  have heffects := Chain.effects_of_idle hlinear (hrun.append hrest) hidle
  rw [settings_append_internal hinternal] at heffects
  rw [← heffects]
  exact effects_prefix_append es es'

/-- No stage function and no callback runs twice, none before the values it depends on are
    set, and each with the value of the stage before it; when the threads have returned, as
    they will, all that can run has run.  So it does not matter when the values are set. -/
theorem Chain.delivers_once (chain : Chain Val Contract t) (hlinear : chain.Linear)
    (hrun : ProgRun chainBodies chain.prog es c) :
    effects es <+: chain.expected (settings es) ∧
      ((effects es).map ChainEffect.stage?).Nodup ∧ .uncaught ∉ es ∧
      Inevitably (Step chainBodies) Event.Internal Config.Idle c ∧
      (c.Idle → effects es = chain.expected (settings es)) ∧
      ∀ es' c', ProgRun chainBodies chain.prog es' c' → settings es' = settings es →
        c.Idle → c'.Idle → effects es' = effects es := by
  have hbegins := Chain.effects_prefix hlinear hrun
  refine ⟨hbegins, ?_, hlinear.good.not_uncaught hrun, hlinear.good.returns hrun,
    Chain.effects_of_idle hlinear hrun, fun es' c' hrun' hsettings hidle hidle' => ?_⟩
  · -- no stage is expected twice, so none of a part of the list is
    exact (chain.expected_nodup (settings es)).sublist (hbegins.sublist.map _)
  · rw [Chain.effects_of_idle hlinear hrun' hidle', hsettings,
      Chain.effects_of_idle hlinear hrun hidle]

end runs

end chain

/-- Chains of numbers, on contracts that have numbers. -/
abbrev numberSignature : Signature := chainSignature (fun _ : ℕ => ℕ) fun _ => ℕ

/-- A chain of two stages, the second of which makes a contract of its own. -/
def multiplied : Chain (fun _ : ℕ => ℕ) (fun _ => ℕ) 0 :=
  .flatmap (s := 0) (.map (s := 0) (.given 0) fun n => n + 1) fun n =>
    .map (s := 0) .made fun m => n * m

/-- Its contracts are apart. -/
theorem multiplied_linear : multiplied.Linear :=
  ⟨{⟨0, 0⟩}, Multiset.nodup_singleton _,
    .flatmap (add_zero _).symm (.map _ (.given (Multiset.mem_singleton_self _))) fun _ => .map _ .made⟩

/-- It waits for its first value, or for the one of the contract it has made. -/
theorem multiplied_blocks {trace : Trace numberSignature} {wait : Wait numberSignature}
    (h : Blocks chainBodies (multiplied.expr []) trace wait) :
    wait = .value 0 (0 : ℕ) ∨ wait = .answer (0, [false, true]) := by
  obtain hsource | ⟨_, value, _, -, hnext, -⟩ := blocks_flatmap.mp h
  · exact .inl (blocks_given.mp (blocks_map.mp hsource)).2
  · obtain ⟨_, hinner, -⟩ := blocks_perform.mp hnext
    exact .inr (blocks_when.mp (blocks_map.mp hinner)).2

/-- The first value is set before anything is attached; then two functions have run, and a
    handler waits for the second value. -/
theorem multiplied_run : ∃ (es : List (Event numberSignature)) (c : Config numberSignature)
    (handler : ℕ → Prog numberSignature), ProgRun chainBodies multiplied.prog es c ∧
      effects es = [.ran [false] 0 2, .ran [] 0 3] ∧ settings es = settings [.gave 0 0 2] ∧
      c.pending = {⟨(0, [false, true]), handler⟩} := by
  have hset : ProgRun chainBodies multiplied.prog [.gave 0 0 2] _ :=
    .snoc .nil (.give rfl rfl .nothing)
  obtain ⟨es, c, hrest, hidle, hinternal⟩ := (multiplied_linear.good.returns hset).exists_run
  have hrun : ProgRun chainBodies multiplied.prog ([.gave 0 0 2] ++ es) c := hset.append hrest
  have hsettings : settings ([.gave 0 0 2] ++ es) = settings [.gave 0 0 2] :=
    settings_append_internal hinternal
  have hran := Chain.effects_of_idle multiplied_linear hrun hidle
  rw [hsettings] at hran
  obtain ⟨trace, hagrees, houtcome⟩ := multiplied_linear.good.outcome hrun hidle
  cases houtcome with
  | @finished trace' value _ _ htrace =>
    -- the callback has not run
    have hmem : (.completed 0 value : numberSignature.Effect) ∈
        effects (S := numberSignature) ([.gave 0 0 2] ++ es) := by
      rw [hagrees.effects, htrace, List.filterMap_append]
      exact List.mem_append_right _ (List.mem_singleton_self _)
    rw [hran] at hmem
    simp [multiplied, Chain.expected, Chain.eval, settings] at hmem
  | @waits t contract _ h hunset =>
    -- it waits for the inner promise, as the contract is set
    obtain hwait | hwait := multiplied_blocks h
    · cases hwait
      exact absurd hunset (hrun.gave 0 0 2 (by simp)).1
    · cases hwait
  | @asks handler hpending h =>
    obtain ⟨query, handler⟩ := handler
    obtain hwait | hwait := multiplied_blocks h
    · cases hwait
    · cases hwait
      exact ⟨_, c, handler, hrun, hran, hsettings, hpending⟩

/-- The value of the contract that the chain has made is set when the chain waits for it. -/
theorem Chain.delivers_once_multiplied : ∃ (es : List (Event numberSignature))
    (c : Config numberSignature), ProgRun chainBodies multiplied.prog es c ∧
      effects es = [.ran [false] 0 2, .ran [] 0 3, .ran [true] 0 5, .completed 0 15] := by
  -- the inner promise is set behind all the rest
  obtain ⟨es, c, handler, hrun, -, hsettings, hpending⟩ := multiplied_run
  have hanswered : ProgRun chainBodies multiplied.prog
      (es ++ [.answered (0, [false, true]) (5 : ℕ)]) _ := hrun.snoc (.answer (5 : ℕ) hpending)
  obtain ⟨-, -, -, hreturns, -⟩ := Chain.delivers_once multiplied multiplied_linear hanswered
  obtain ⟨es', c', hrest, hidle, hinternal⟩ := hreturns.exists_run
  refine ⟨_, c', hanswered.append hrest, ?_⟩
  obtain ⟨-, -, -, -, heffects, -⟩ :=
    Chain.delivers_once multiplied multiplied_linear (hanswered.append hrest)
  have hsame : settings (es ++ [.answered (0, [false, true]) 5]) =
      settings ([.gave 0 0 2] ++ [.answered (0, [false, true]) 5]) := by
    rw [settings_append, hsettings, ← settings_append]
  rw [heffects hidle, settings_append_internal hinternal, hsame]
  rfl

end Webserv.Futures
