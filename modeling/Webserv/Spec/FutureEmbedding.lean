import Webserv.Native.Task
import Webserv.Spec.FutureRuns

/-!
# Embedded expressions

What an expression does where it is embedded is what it does by itself, under
the other names.  The effects an embedding leaves out are not seen there, so an
expression is looked at behind the effects it begins with.

## Key results

- `delivers_embed`, `blocks_embed`: the meaning of an embedded expression
- `Takes.embed`, `Pays.embed`: it is well-formed if the expression is
-/

namespace Webserv.Futures

variable {S S' : Signature}

/-! ## Traces -/

/-- What a note is called where the expression is embedded. -/
def Embedding.note (φ : Embedding S S') : Note S → List (Note S')
  | .performed effect => (φ.effects effect).map .performed
  | .answered query answer => [.answered (φ.query query) (φ.answer query answer)]
  | .got t contract value => [.got (φ.ty t) (φ.contract t contract) (φ.val t value)]

def Embedding.trace (φ : Embedding S S') (trace : Trace S) : Trace S' := trace.flatMap φ.note

def Embedding.wait (φ : Embedding S S') : Wait S → Wait S'
  | .answer query => .answer (φ.query query)
  | .value t contract => .value (φ.ty t) (φ.contract t contract)

section trace
variable (φ : Embedding S S')

/-- The image of a trace that goes on. -/
@[simp] theorem Embedding.trace_append (trace trace' : Trace S) :
    φ.trace (trace ++ trace') = φ.trace trace ++ φ.trace trace' := List.flatMap_append

/-- The image of one note, and of the others. -/
theorem Embedding.trace_cons (n : Note S) (trace : Trace S) :
    φ.trace (n :: trace) = φ.note n ++ φ.trace trace := rfl

/-- Effects become effects. -/
@[simp] theorem Embedding.trace_performed (effects : List S.Effect) :
    φ.trace (effects.map .performed) = (effects.flatMap φ.effects).map .performed := by
  induction effects with
  | nil => rfl
  | cons effect effects ih =>
    rw [List.map_cons, trace_cons, ih, List.flatMap_cons, List.map_append]
    rfl

/-- Answers become answers. -/
theorem Embedding.answers_trace (trace : Trace S) :
    answers (φ.trace trace) = (answers trace).map fun a => ⟨φ.query a.1, φ.answer a.1 a.2⟩ := by
  induction trace with
  | nil => rfl
  | cons n trace ih =>
    rw [trace_cons, answers_append, ih]
    cases n with
    -- only an answer is kept
    | performed effect =>
      rw [note, answers_performed, List.nil_append]
      rfl
    | answered query answer => rfl
    | got t contract value => rfl

/-- The effects that are seen where the expression is embedded. -/
theorem Embedding.effects_trace (trace : Trace S) :
    (φ.trace trace).filterMap Note.effect? = (trace.filterMap Note.effect?).flatMap φ.effects := by
  induction trace with
  | nil => rfl
  | cons n trace ih =>
    rw [trace_cons, List.filterMap_append, ih]
    -- only effects make effects
    cases n with
    | performed effect =>
      have hnote : ((φ.effects effect).map Note.performed).filterMap Note.effect? =
          φ.effects effect := by
        rw [List.filterMap_map]
        exact List.filterMap_some
      rw [note, hnote]
      rfl
    | answered query answer => rfl
    | got t contract value => rfl

end trace

/-! ## Effects at the beginning -/

section behind
variable {bodies : Bodies S} {t : S.Ty} {e : Expr S t} {effects : List S.Effect} {trace : Trace S}

/-- One effect in front, then the others. -/
theorem Expr.behind_cons (effect : S.Effect) :
    e.behind (effect :: effects) = .perform effect (e.behind effects) := rfl

/-- Two lists of effects in front are one. -/
theorem Expr.behind_append (effects' : List S.Effect) :
    e.behind (effects ++ effects') = (e.behind effects').behind effects := List.foldr_append

/-- What an expression delivers behind effects. -/
theorem delivers_behind {value : S.Val t} : Delivers bodies (e.behind effects) trace value ↔
    ∃ trace', Delivers bodies e trace' value ∧ trace = effects.map .performed ++ trace' := by
  -- induction on the effects, which come before everything else
  induction effects generalizing trace with
  | nil => exact ⟨fun h => ⟨trace, h, rfl⟩, fun ⟨_, h, htrace⟩ => htrace ▸ h⟩
  | cons effect effects ih =>
    rw [Expr.behind_cons, delivers_perform]
    constructor
    · rintro ⟨_, h, rfl⟩
      obtain ⟨trace', hdelivers, rfl⟩ := ih.mp h
      exact ⟨trace', hdelivers, rfl⟩
    · rintro ⟨trace', hdelivers, rfl⟩
      exact ⟨_, ih.mpr ⟨trace', hdelivers, rfl⟩, rfl⟩

/-- Where an expression waits behind effects. -/
theorem blocks_behind {wait : Wait S} : Blocks bodies (e.behind effects) trace wait ↔
    ∃ trace', Blocks bodies e trace' wait ∧ trace = effects.map .performed ++ trace' := by
  -- induction on the effects, which come before everything else
  induction effects generalizing trace with
  | nil => exact ⟨fun h => ⟨trace, h, rfl⟩, fun ⟨_, h, htrace⟩ => htrace ▸ h⟩
  | cons effect effects ih =>
    rw [Expr.behind_cons, blocks_perform]
    constructor
    · rintro ⟨_, h, rfl⟩
      obtain ⟨trace', hblocks, rfl⟩ := ih.mp h
      exact ⟨trace', hblocks, rfl⟩
    · rintro ⟨trace', hblocks, rfl⟩
      exact ⟨_, ih.mpr ⟨trace', hblocks, rfl⟩, rfl⟩

/-- The expression does not begin with an effect. -/
def Expr.IsHead : Expr S t → Prop
  | .perform _ _ => False
  | _ => True

/-- Every expression is one without an effect in front, behind some effects. -/
theorem Expr.exists_head (e : Expr S t) :
    ∃ (effects : List S.Effect) (head : Expr S t), head.IsHead ∧ e = head.behind effects := by
  induction e with
  -- only perform puts an effect in front, every other form is its own head
  | perform effect future ih =>
    obtain ⟨effects, head, hhead, rfl⟩ := ih
    exact ⟨effect :: effects, head, hhead, rfl⟩
  | given contract => exact ⟨[], .given contract, trivial, rfl⟩
  | fromVal val => exact ⟨[], .fromVal val, trivial, rfl⟩
  | when query handler => exact ⟨[], .when query handler, trivial, rfl⟩
  | map future func => exact ⟨[], .map future func, trivial, rfl⟩
  | flatmap future func => exact ⟨[], .flatmap future func, trivial, rfl⟩
  | call proc => exact ⟨[], .call proc, trivial, rfl⟩

/-- An effect in front is not a head. -/
theorem Expr.IsHead.effects_eq_nil (h : (e.behind effects).IsHead) : effects = [] := by
  cases effects with
  | nil => rfl
  | cons effect effects => exact h.elim

/-- The effects in front are embedded one by one. -/
theorem Expr.embed_behind (φ : Embedding S S') (e : Expr S t) (effects : List S.Effect) :
    (e.behind effects).embed φ = (e.embed φ).behind (effects.flatMap φ.effects) := by
  induction effects with
  | nil => rfl
  | cons effect effects ih =>
    rw [behind_cons, List.flatMap_cons, behind_append, ← ih]
    rfl

end behind

/-! ## The meaning of an embedded expression -/

/-- The recursive functions are embedded with the expressions that call them. -/
def Embedding.Carries (φ : Embedding S S') (bodies : Bodies S) (bodies' : Bodies S') : Prop :=
  ∀ (t : S.Ty) (proc : S.Proc t), bodies' (φ.ty t) (φ.proc t proc) = (bodies t proc).embed φ

section embed
variable {φ : Embedding S S'} {bodies : Bodies S} {bodies' : Bodies S'}

/-- What `delivers_embed` says of one expression. -/
def DeliversAs (φ : Embedding S S') (bodies : Bodies S) {t : S.Ty} (e : Expr S t) {t' : S'.Ty}
    (trace' : Trace S') (value' : S'.Val t') : Prop :=
  ∃ trace value, Delivers bodies e trace value ∧ trace' = φ.trace trace ∧ HEq value' (φ.val t value)

/-- The effects in front are told apart from the rest. -/
def HeadDelivers (φ : Embedding S S') (bodies : Bodies S) {t' : S'.Ty} (e' : Expr S' t')
    (trace' : Trace S') (value' : S'.Val t') : Prop :=
  ∀ (t : S.Ty) (e : Expr S t) (effects' : List S'.Effect), e.IsHead → t' = φ.ty t →
    HEq e' ((e.embed φ).behind effects') →
    ∃ trace'', trace' = effects'.map .performed ++ trace'' ∧ DeliversAs φ bodies e trace'' value'

/-- What holds behind effects holds of every expression. -/
theorem HeadDelivers.deliversAs {t' : S'.Ty} {e' : Expr S' t'} {trace' : Trace S'}
    {value' : S'.Val t'} (h : HeadDelivers φ bodies e' trace' value') {t : S.Ty} (e : Expr S t)
    (hty : t' = φ.ty t) (he : HEq e' (e.embed φ)) : DeliversAs φ bodies e trace' value' := by
  obtain ⟨effects, head, hhead, rfl⟩ := e.exists_head
  rw [Expr.embed_behind] at he
  obtain ⟨_, rfl, trace, value, hdelivers, rfl, hvalue⟩ := h _ head _ hhead hty he
  refine ⟨_, value, delivers_behind.mpr ⟨trace, hdelivers, rfl⟩, ?_, hvalue⟩
  rw [Embedding.trace_append, Embedding.trace_performed]

/-- An expression that does not begin with an effect is no other one behind effects. -/
theorem HeadDelivers.of_isHead {t' : S'.Ty} {e' : Expr S' t'} {trace' : Trace S'}
    {value' : S'.Val t'} (hhead' : e'.IsHead)
    (h : ∀ (t : S.Ty) (e : Expr S t), e.IsHead → t' = φ.ty t → HEq e' (e.embed φ) →
      DeliversAs φ bodies e trace' value') : HeadDelivers φ bodies e' trace' value' := by
  intro t e effects' hhead hty he
  subst hty
  -- no effect stands in front
  rw [eq_of_heq he] at hhead'
  obtain rfl := hhead'.effects_eq_nil
  exact ⟨trace', rfl, h t e hhead rfl he⟩

/-- The embedded expression delivers the image of what the expression delivers. -/
theorem headDelivers (hbodies : φ.Carries bodies bodies') {t' : S'.Ty} {e' : Expr S' t'}
    {trace' : Trace S'} {value' : S'.Val t'} (h : Delivers bodies' e' trace' value') :
    HeadDelivers φ bodies e' trace' value' := by
  -- induction on what the embedded expression does
  induction h with
  | given contract value =>
    refine HeadDelivers.of_isHead (by trivial) fun t e hhead hty he => ?_
    subst hty
    cases e with
    | given contract' =>
      cases eq_of_heq he
      refine ⟨_, (φ.val t).symm value, .given contract' _, ?_, ?_⟩
      · show _ = [Note.got (φ.ty t) (φ.contract t contract') (φ.val t ((φ.val t).symm value))]
        rw [Equiv.apply_symm_apply]
      · rw [Equiv.apply_symm_apply]
    | perform => exact hhead.elim
    | _ => cases eq_of_heq he
  | fromVal value =>
    refine HeadDelivers.of_isHead (by trivial) fun t e hhead hty he => ?_
    subst hty
    cases e with
    | fromVal val =>
      cases eq_of_heq he
      exact ⟨[], val, .fromVal val, rfl, .rfl⟩
    | perform => exact hhead.elim
    | _ => cases eq_of_heq he
  | when handler answer =>
    refine HeadDelivers.of_isHead (by trivial) fun t e hhead hty he => ?_
    subst hty
    cases e with
    | when query handler' =>
      cases eq_of_heq he
      refine ⟨_, _, .when handler' ((φ.answer query).symm answer), ?_, .rfl⟩
      show _ = [Note.answered (φ.query query) (φ.answer query ((φ.answer query).symm answer))]
      rw [Equiv.apply_symm_apply]
    | perform => exact hhead.elim
    | _ => cases eq_of_heq he
  | map _ ih =>
    refine HeadDelivers.of_isHead (by trivial) fun t e hhead hty he => ?_
    subst hty
    cases e with
    | map future func =>
      cases eq_of_heq he
      -- the function behind takes the value back through the embedding
      obtain ⟨trace, value, hdelivers, rfl, hvalue⟩ := ih.deliversAs future rfl .rfl
      obtain rfl := eq_of_heq hvalue
      dsimp only
      rw [Equiv.symm_apply_apply, ← Embedding.trace_performed, ← Embedding.trace_append]
      exact ⟨_, _, .map hdelivers, rfl, .rfl⟩
    | perform => exact hhead.elim
    | _ => cases eq_of_heq he
  | flatmap _ _ ih ihnext =>
    refine HeadDelivers.of_isHead (by trivial) fun t e hhead hty he => ?_
    subst hty
    cases e with
    | flatmap future func =>
      cases eq_of_heq he
      obtain ⟨trace, value, hdelivers, rfl, hvalue⟩ := ih.deliversAs future rfl .rfl
      obtain rfl := eq_of_heq hvalue
      dsimp only at ihnext
      rw [Equiv.symm_apply_apply] at ihnext
      obtain ⟨trace', value', hdelivers', rfl, hvalue'⟩ := ihnext.deliversAs (func value) rfl .rfl
      rw [← Embedding.trace_append]
      exact ⟨_, value', .flatmap hdelivers hdelivers', rfl, hvalue'⟩
    | perform => exact hhead.elim
    | _ => cases eq_of_heq he
  | perform _ ih =>
    intro t e effects' hhead hty he
    subst hty
    cases effects' with
    | cons effect effects' =>
      cases eq_of_heq he
      obtain ⟨trace, rfl, hdelivers⟩ := ih t e effects' hhead rfl .rfl
      exact ⟨trace, rfl, hdelivers⟩
    -- without an effect in front the expression would be another one
    | nil =>
      cases e with
      | perform => exact hhead.elim
      | _ => cases eq_of_heq he
  | call _ ih =>
    refine HeadDelivers.of_isHead (by trivial) fun t e hhead hty he => ?_
    subst hty
    cases e with
    | call proc =>
      cases eq_of_heq he
      -- the body of the procedure is the embedded body
      rw [hbodies] at ih
      obtain ⟨trace, value, hdelivers, rfl, hvalue⟩ := ih.deliversAs (bodies t proc) rfl .rfl
      exact ⟨trace, value, .call hdelivers, rfl, hvalue⟩
    | perform => exact hhead.elim
    | _ => cases eq_of_heq he

/-- What an embedded expression delivers. -/
theorem delivers_embed (hbodies : φ.Carries bodies bodies') {t : S.Ty} {e : Expr S t}
    {trace' : Trace S'} {value' : S'.Val (φ.ty t)}
    (h : Delivers bodies' (e.embed φ) trace' value') : ∃ trace value,
      Delivers bodies e trace value ∧ trace' = φ.trace trace ∧ value' = φ.val t value := by
  obtain ⟨trace, value, hdelivers, htrace, hvalue⟩ :=
    (headDelivers hbodies h).deliversAs e rfl .rfl
  exact ⟨trace, value, hdelivers, htrace, eq_of_heq hvalue⟩

/-! ## Where it waits -/

/-- What `blocks_embed` says of one expression. -/
def BlocksAs (φ : Embedding S S') (bodies : Bodies S) {t : S.Ty} (e : Expr S t)
    (trace' : Trace S') (wait' : Wait S') : Prop :=
  ∃ trace wait, Blocks bodies e trace wait ∧ trace' = φ.trace trace ∧ wait' = φ.wait wait

def HeadBlocks (φ : Embedding S S') (bodies : Bodies S) {t' : S'.Ty} (e' : Expr S' t')
    (trace' : Trace S') (wait' : Wait S') : Prop :=
  ∀ (t : S.Ty) (e : Expr S t) (effects' : List S'.Effect), e.IsHead → t' = φ.ty t →
    HEq e' ((e.embed φ).behind effects') →
    ∃ trace'', trace' = effects'.map .performed ++ trace'' ∧ BlocksAs φ bodies e trace'' wait'

/-- What holds behind effects holds of every expression. -/
theorem HeadBlocks.blocksAs {t' : S'.Ty} {e' : Expr S' t'} {trace' : Trace S'} {wait' : Wait S'}
    (h : HeadBlocks φ bodies e' trace' wait') {t : S.Ty} (e : Expr S t) (hty : t' = φ.ty t)
    (he : HEq e' (e.embed φ)) : BlocksAs φ bodies e trace' wait' := by
  obtain ⟨effects, head, hhead, rfl⟩ := e.exists_head
  rw [Expr.embed_behind] at he
  obtain ⟨_, rfl, trace, wait, hblocks, rfl, rfl⟩ := h _ head _ hhead hty he
  refine ⟨_, wait, blocks_behind.mpr ⟨trace, hblocks, rfl⟩, ?_, rfl⟩
  rw [Embedding.trace_append, Embedding.trace_performed]

/-- An expression without an effect in front is read by its constructor. -/
theorem HeadBlocks.of_isHead {t' : S'.Ty} {e' : Expr S' t'} {trace' : Trace S'} {wait' : Wait S'}
    (hhead' : e'.IsHead) (h : ∀ (t : S.Ty) (e : Expr S t), e.IsHead → t' = φ.ty t →
      HEq e' (e.embed φ) → BlocksAs φ bodies e trace' wait') :
    HeadBlocks φ bodies e' trace' wait' := by
  intro t e effects' hhead hty he
  subst hty
  -- no effect stands in front
  rw [eq_of_heq he] at hhead'
  obtain rfl := hhead'.effects_eq_nil
  exact ⟨trace', rfl, h t e hhead rfl he⟩

/-- The embedded expression waits where the expression does. -/
theorem headBlocks (hbodies : φ.Carries bodies bodies') {t' : S'.Ty} {e' : Expr S' t'}
    {trace' : Trace S'} {wait' : Wait S'} (h : Blocks bodies' e' trace' wait') :
    HeadBlocks φ bodies e' trace' wait' := by
  induction h with
  -- the same as for what delivers, case by case
  | given contract =>
    refine HeadBlocks.of_isHead (by trivial) fun t e hhead hty he => ?_
    subst hty
    cases e with
    | given contract' =>
      cases eq_of_heq he
      exact ⟨[], _, .given contract', rfl, rfl⟩
    | perform => exact hhead.elim
    | _ => cases eq_of_heq he
  | when query handler =>
    refine HeadBlocks.of_isHead (by trivial) fun t e hhead hty he => ?_
    subst hty
    cases e with
    | when query handler' =>
      cases eq_of_heq he
      exact ⟨[], _, .when query handler', rfl, rfl⟩
    | perform => exact hhead.elim
    | _ => cases eq_of_heq he
  | map _ ih =>
    refine HeadBlocks.of_isHead (by trivial) fun t e hhead hty he => ?_
    subst hty
    cases e with
    | map future func =>
      cases eq_of_heq he
      obtain ⟨trace, wait, hblocks, htrace, hwait⟩ := ih.blocksAs future rfl .rfl
      exact ⟨trace, wait, .map hblocks, htrace, hwait⟩
    | perform => exact hhead.elim
    | _ => cases eq_of_heq he
  | flatmap _ ih =>
    refine HeadBlocks.of_isHead (by trivial) fun t e hhead hty he => ?_
    subst hty
    cases e with
    | flatmap future func =>
      cases eq_of_heq he
      obtain ⟨trace, wait, hblocks, htrace, hwait⟩ := ih.blocksAs future rfl .rfl
      exact ⟨trace, wait, .flatmap hblocks, htrace, hwait⟩
    | perform => exact hhead.elim
    | _ => cases eq_of_heq he
  | next h _ ihnext =>
    refine HeadBlocks.of_isHead (by trivial) fun t e hhead hty he => ?_
    subst hty
    cases e with
    | flatmap future func =>
      cases eq_of_heq he
      -- the first future has delivered, and the second waits
      obtain ⟨trace, value, hdelivers, rfl, rfl⟩ := delivers_embed hbodies h
      dsimp only at ihnext
      rw [Equiv.symm_apply_apply] at ihnext
      obtain ⟨trace', wait, hblocks, rfl, rfl⟩ := ihnext.blocksAs (func value) rfl .rfl
      rw [← Embedding.trace_append]
      exact ⟨_, wait, .next hdelivers hblocks, rfl, rfl⟩
    | perform => exact hhead.elim
    | _ => cases eq_of_heq he
  | perform _ ih =>
    intro t e effects' hhead hty he
    subst hty
    cases effects' with
    | cons effect effects' =>
      cases eq_of_heq he
      obtain ⟨trace, rfl, hblocks⟩ := ih t e effects' hhead rfl .rfl
      exact ⟨trace, rfl, hblocks⟩
    | nil =>
      cases e with
      | perform => exact hhead.elim
      | _ => cases eq_of_heq he
  | call _ ih =>
    refine HeadBlocks.of_isHead (by trivial) fun t e hhead hty he => ?_
    subst hty
    cases e with
    | call proc =>
      cases eq_of_heq he
      -- the body of the procedure is the embedded body
      rw [hbodies] at ih
      obtain ⟨trace, wait, hblocks, htrace, hwait⟩ := ih.blocksAs (bodies t proc) rfl .rfl
      exact ⟨trace, wait, .call hblocks, htrace, hwait⟩
    | perform => exact hhead.elim
    | _ => cases eq_of_heq he

/-- What an embedded expression waits for. -/
theorem blocks_embed (hbodies : φ.Carries bodies bodies') {t : S.Ty} {e : Expr S t}
    {trace' : Trace S'} {wait' : Wait S'} (h : Blocks bodies' (e.embed φ) trace' wait') :
    ∃ trace wait, Blocks bodies e trace wait ∧ trace' = φ.trace trace ∧ wait' = φ.wait wait :=
  (headBlocks hbodies h).blocksAs e rfl .rfl

end embed

/-! ## Well-formed expressions -/

section wellFormed
variable {φ : Embedding S S'} {t : S.Ty} {e : Expr S t}

/-- Effects use no contract. -/
theorem Takes.behind {D : Multiset (Σ t : S.Ty, S.Contract t)} (h : Takes D e)
    (effects : List S.Effect) : Takes D (e.behind effects) := by
  induction effects with
  | nil => exact h
  | cons effect effects ih => exact .perform effect ih

/-- Effects use no call. -/
theorem Pays.behind {ends : ∀ t : S.Ty, S.Proc t → ℕ} {n m : ℕ} (h : Pays ends n e m)
    (effects : List S.Effect) : Pays ends n (e.behind effects) m := by
  induction effects with
  | nil => exact h
  | cons effect effects ih => exact .perform effect ih

/-- The embedded expression uses the images of the contracts. -/
theorem Takes.embed {D : Multiset (Σ t : S.Ty, S.Contract t)} (h : Takes D e) :
    Takes (D.map fun x => ⟨φ.ty x.1, φ.contract x.1 x.2⟩) (e.embed φ) := by
  induction h with
  | given hmem => exact .given (Multiset.mem_map_of_mem _ hmem)
  | fromVal value => exact .fromVal _
  | when handler => exact .when _
  | map func _ ih => exact .map _ ih
  | flatmap hD _ _ ih ihfunc => exact .flatmap (by rw [hD, Multiset.map_add]) ih fun value => ihfunc _
  | perform effect _ ih => exact ih.behind _
  | call proc => exact .call _

/-- It uses as many calls. -/
theorem Pays.embed {ends : ∀ t : S.Ty, S.Proc t → ℕ} {ends' : ∀ t : S'.Ty, S'.Proc t → ℕ}
    (hends : ∀ t proc, ends' (φ.ty t) (φ.proc t proc) = ends t proc) {n m : ℕ}
    (h : Pays ends n e m) : Pays ends' n (e.embed φ) m := by
  -- the payments follow the expression, and the procedures ask for as much
  induction h with
  | given contract h => exact .given _ h
  | fromVal value h => exact .fromVal _ h
  | when handler h => exact .when _ h
  | map func _ ih => exact .map _ ih
  | flatmap _ _ ih ihfunc => exact .flatmap ih fun value => ihfunc _
  | perform effect _ ih => exact ih.behind _
  | call hn hm => exact .call hn (hm.trans (hends _ _).ge)

end wellFormed

end Webserv.Futures
