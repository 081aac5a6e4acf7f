import Mathlib.Data.Sum.Basic
import Webserv.ForStd.Transition

/-!
# Systems over streams

Two transition systems with a stream of values each way between them.  A value
that one of them has sent is under way until the other one takes it; nothing is
lost, and nothing overtakes.

## Key results

- `LinkedRun.left`, `LinkedRun.right`: what each of the two does is a run of its own
- `LinkedRun.toRight`, `LinkedRun.toLeft`: what was taken and what is under way was sent
-/

namespace Transition

variable {σ τ ε δ α : Type*}

/-- What an event puts on a stream, and what it takes off the other one. -/
structure Port (ε α : Type*) where
  sent : ε → List α
  taken : ε → List α

/-- Two systems, and what is under way between them. -/
structure Linked (σ τ α : Type*) where
  left : σ
  right : τ
  toRight : List α
  toLeft : List α

/-- One of the two takes a step; what it takes off its stream was under way to it. -/
inductive LinkedStep (stepLeft : σ → ε → σ → Prop) (stepRight : τ → δ → τ → Prop)
    (portLeft : Port ε α) (portRight : Port δ α) : Linked σ τ α → ε ⊕ δ → Linked σ τ α → Prop where
  | left {s : Linked σ τ α} {e : ε} {left' : σ} {rest : List α} (h : stepLeft s.left e left')
      (htaken : s.toLeft = portLeft.taken e ++ rest) :
      LinkedStep stepLeft stepRight portLeft portRight s (.inl e)
        { s with left := left', toRight := s.toRight ++ portLeft.sent e, toLeft := rest }
  | right {s : Linked σ τ α} {e : δ} {right' : τ} {rest : List α} (h : stepRight s.right e right')
      (htaken : s.toRight = portRight.taken e ++ rest) :
      LinkedStep stepLeft stepRight portLeft portRight s (.inr e)
        { s with right := right', toLeft := s.toLeft ++ portRight.sent e, toRight := rest }

/-- A run of both, from states with nothing under way. -/
def LinkedRun (stepLeft : σ → ε → σ → Prop) (stepRight : τ → δ → τ → Prop) (portLeft : Port ε α)
    (portRight : Port δ α) (left : σ) (right : τ) (es : List (ε ⊕ δ)) (s : Linked σ τ α) : Prop :=
  Run (LinkedStep stepLeft stepRight portLeft portRight) ⟨left, right, [], []⟩ es s

/-- What the left one does. -/
def lefts (es : List (ε ⊕ δ)) : List ε := es.filterMap Sum.getLeft?

/-- What the right one does. -/
def rights (es : List (ε ⊕ δ)) : List δ := es.filterMap Sum.getRight?

section events
variable {es es' : List (ε ⊕ δ)}

/-- What the left one does in two runs, one behind the other. -/
@[simp] theorem lefts_append : lefts (es ++ es') = lefts es ++ lefts es' := List.filterMap_append

/-- What the right one does in two runs, one behind the other. -/
@[simp] theorem rights_append : rights (es ++ es') = rights es ++ rights es' := List.filterMap_append

/-- All events of the left one are its own. -/
@[simp] theorem lefts_map_inl (es : List ε) : lefts (es.map (.inl : ε → ε ⊕ δ)) = es := by
  rw [lefts, List.filterMap_map]
  exact List.filterMap_some

/-- All events of the right one are its own. -/
@[simp] theorem rights_map_inr (es : List δ) : rights (es.map (.inr : δ → ε ⊕ δ)) = es := by
  rw [rights, List.filterMap_map]
  exact List.filterMap_some

/-- The right one does nothing in a run of the left one. -/
@[simp] theorem rights_map_inl (es : List ε) : rights (es.map (.inl : ε → ε ⊕ δ)) = [] := by
  rw [rights, List.filterMap_map, List.filterMap_eq_nil_iff]
  exact fun _ _ => rfl

/-- The left one does nothing in a run of the right one. -/
@[simp] theorem lefts_map_inr (es : List δ) : lefts (es.map (.inr : δ → ε ⊕ δ)) = [] := by
  rw [lefts, List.filterMap_map, List.filterMap_eq_nil_iff]
  exact fun _ _ => rfl

end events

section run
variable {stepLeft : σ → ε → σ → Prop} {stepRight : τ → δ → τ → Prop} {portLeft : Port ε α}
  {portRight : Port δ α} {left₀ : σ} {right₀ : τ} {es : List (ε ⊕ δ)} {s : Linked σ τ α}

/-- What the left one does is a run of its own. -/
theorem LinkedRun.left (h : LinkedRun stepLeft stepRight portLeft portRight left₀ right₀ es s) :
    Run stepLeft left₀ (lefts es) s.left := by
  refine h.history (P := fun es s => Run stepLeft left₀ (lefts es) s.left) .nil ?_
  intro es s e s' hrun hstep
  rw [lefts_append]
  cases hstep with
  | left hleft => exact hrun.snoc hleft
  -- a step of the other one adds nothing
  | right => rwa [show lefts [(.inr _ : ε ⊕ δ)] = [] from rfl, List.append_nil]

/-- What the right one does is a run of its own. -/
theorem LinkedRun.right (h : LinkedRun stepLeft stepRight portLeft portRight left₀ right₀ es s) :
    Run stepRight right₀ (rights es) s.right := by
  refine h.history (P := fun es s => Run stepRight right₀ (rights es) s.right) .nil ?_
  intro es s e s' hrun hstep
  rw [rights_append]
  cases hstep with
  -- a step of the other one adds nothing
  | left => rwa [show rights [(.inl _ : ε ⊕ δ)] = [] from rfl, List.append_nil]
  | right hright => exact hrun.snoc hright

/-- What the left one has sent was taken by the right one, or is under way. -/
theorem LinkedRun.toRight (h : LinkedRun stepLeft stepRight portLeft portRight left₀ right₀ es s) :
    (lefts es).flatMap portLeft.sent = (rights es).flatMap portRight.taken ++ s.toRight := by
  refine h.history (P := fun es s => (lefts es).flatMap portLeft.sent =
    (rights es).flatMap portRight.taken ++ s.toRight) rfl ?_
  intro es s e s' hsent hstep
  rw [lefts_append, rights_append, List.flatMap_append, List.flatMap_append, hsent]
  cases hstep with
  | left => simp [lefts, rights]
  | right _ htaken => simp [lefts, rights, htaken]

theorem LinkedRun.toLeft (h : LinkedRun stepLeft stepRight portLeft portRight left₀ right₀ es s) :
    (rights es).flatMap portRight.sent = (lefts es).flatMap portLeft.taken ++ s.toLeft := by
  refine h.history (P := fun es s => (rights es).flatMap portRight.sent =
    (lefts es).flatMap portLeft.taken ++ s.toLeft) rfl ?_
  intro es s e s' hsent hstep
  rw [lefts_append, rights_append, List.flatMap_append, List.flatMap_append, hsent]
  cases hstep with
  | left _ htaken => simp [lefts, rights, htaken]
  | right => simp [lefts, rights]

/-- The left one goes on alone, with what is under way to it. -/
theorem LinkedRun.goOnLeft (h : LinkedRun stepLeft stepRight portLeft portRight left₀ right₀ es s)
    {es' : List ε} {left' : σ} {rest : List α} (hrun : Run stepLeft s.left es' left')
    (htaken : s.toLeft = es'.flatMap portLeft.taken ++ rest) :
    LinkedRun stepLeft stepRight portLeft portRight left₀ right₀ (es ++ es'.map .inl)
      ⟨left', s.right, s.toRight ++ es'.flatMap portLeft.sent, rest⟩ := by
  induction hrun generalizing rest with
  | nil =>
    obtain ⟨left, right, toRight, toLeft⟩ := s
    obtain rfl : toLeft = rest := htaken
    simpa using h
  | snoc _ hstep ih =>
    -- the events in front of the last one leave what the last one takes
    rw [List.flatMap_append, List.flatMap_singleton, List.append_assoc] at htaken
    rw [List.map_append, ← List.append_assoc, List.flatMap_append, ← List.append_assoc,
      List.flatMap_singleton]
    exact (ih htaken).snoc (.left hstep rfl)

/-- The right one goes on alone, with what is under way to it. -/
theorem LinkedRun.goOnRight (h : LinkedRun stepLeft stepRight portLeft portRight left₀ right₀ es s)
    {es' : List δ} {right' : τ} {rest : List α} (hrun : Run stepRight s.right es' right')
    (htaken : s.toRight = es'.flatMap portRight.taken ++ rest) :
    LinkedRun stepLeft stepRight portLeft portRight left₀ right₀ (es ++ es'.map .inr)
      ⟨s.left, right', rest, s.toLeft ++ es'.flatMap portRight.sent⟩ := by
  induction hrun generalizing rest with
  | nil =>
    obtain ⟨left, right, toRight, toLeft⟩ := s
    obtain rfl : toRight = rest := htaken
    simpa using h
  | snoc _ hstep ih =>
    -- the events in front of the last one leave what the last one takes
    rw [List.flatMap_append, List.flatMap_singleton, List.append_assoc] at htaken
    rw [List.map_append, ← List.append_assoc, List.flatMap_append, ← List.append_assoc,
      List.flatMap_singleton]
    exact (ih htaken).snoc (.right hstep rfl)

end run

end Transition
