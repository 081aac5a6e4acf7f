import Mathlib.Tactic.TypeStar

/-!
# Checks and what they return

`r.OkWhen P a` says at once when a fallible computation returns and what it
returns then.  The rules follow the shapes such computations are written in.

## Key results

- `OkWhen.bind`: one computation behind the other
- `OkWhen.foldlM`: a loop that leaves at the first error
-/

namespace Except

universe u v

variable {ε : Type u} {α β σ : Type v} {P Q : Prop}

/-- A computation that has returned is followed by the next one. -/
theorem ok_bind (a : α) (f : α → Except ε β) : (ok a : Except ε α) >>= f = f a := rfl

/-- `r` is `ok a` if `P` holds, and an error otherwise. -/
def OkWhen (r : Except ε α) (P : Prop) (a : α) : Prop := ∀ a', r = .ok a' ↔ P ∧ a' = a

/-- `ok a` always returns. -/
theorem okWhen_ok (a : α) : (ok a : Except ε α).OkWhen True a := by
  intro a'
  rw [Except.ok.injEq, true_and]
  exact eq_comm

/-- An error never returns. -/
theorem okWhen_error (e : ε) (a : α) (hP : ¬ P) : (error e : Except ε α).OkWhen P a := by
  intro a'
  simp [hP]

/-- What is returned under the condition. -/
theorem OkWhen.eq_ok {r : Except ε α} {a : α} (h : r.OkWhen P a) (hP : P) : r = .ok a :=
  (h a).mpr ⟨hP, rfl⟩

/-- The condition may be written in another way. -/
theorem OkWhen.congr {r : Except ε α} {a : α} (h : r.OkWhen P a) (hPQ : P ↔ Q) :
    r.OkWhen Q a := by
  intro a'
  rw [h a', hPQ]

/-- What is not an error has a value. -/
theorem exists_ok_of_isOk {r : Except ε α} (h : r.isOk = true) : ∃ a, r = .ok a := by
  cases r with
  | error e => cases h
  | ok a => exact ⟨a, rfl⟩

/-- The computation returns exactly under the condition. -/
theorem OkWhen.isOk_iff {r : Except ε α} {a : α} (h : r.OkWhen P a) : r.isOk = true ↔ P := by
  constructor
  · intro hok
    cases r with
    | error e => cases hok
    | ok a' => exact ((h a').mp rfl).1
  · intro hP
    rw [h.eq_ok hP]
    rfl

/-- What the second computation has to return is asked of it at the first one's value
    only. -/
theorem OkWhen.bind {r : Except ε α} {f : α → Except ε β} {a : α} {b : β} (h : r.OkWhen P a)
    (hf : (f a).OkWhen Q b) : (r >>= f).OkWhen (P ∧ Q) b := by
  intro b'
  cases r with
  -- the first one fails, so its condition does
  | error e =>
    have hnot : ¬ P := fun hP => nomatch h.eq_ok hP
    show error e = ok b' ↔ _
    simp [hnot]
  | ok a' =>
    obtain ⟨hP, rfl⟩ := (h a').mp rfl
    show f a' = ok b' ↔ _
    rw [hf b', and_assoc, and_iff_right hP]

/-- A loop that leaves at the first error. -/
theorem OkWhen.foldlM {f : σ → α → Except ε σ} {R : α → Prop} {g : σ → α → σ} {l : List α}
    (h : ∀ s, ∀ a ∈ l, (f s a).OkWhen (R a) (g s a)) (s : σ) :
    (l.foldlM f s).OkWhen (∀ a ∈ l, R a) (l.foldl g s) := by
  induction l generalizing s with
  | nil => exact (okWhen_ok s).congr (by simp)
  | cons a l ih =>
    have hrest := ih (fun s a' ha' => h s a' (List.mem_cons_of_mem _ ha')) (g s a)
    rw [List.foldlM_cons]
    exact ((h s a List.mem_cons_self).bind (f := fun s' => l.foldlM f s') hrest).congr
      List.forall_mem_cons.symm

end Except
