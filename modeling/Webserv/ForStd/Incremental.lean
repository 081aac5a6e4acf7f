import Mathlib.Data.List.Induction
import Mathlib.Tactic.TypeStar

/-!
# Incremental consumers

A consumer takes its input in parts: each call either asks for more
(`pending`), is done (`ready`), or fails.  `feed` is the plain loop around
such a consumer.  `feed_eq_step_flatten` says when the cutting of the input
into parts does not matter.
-/

namespace Incremental

/-- What a consumer answers to one part. -/
inductive Status where
  | pending
  | ready
deriving DecidableEq, Repr

variable {σ α ε : Type*} {step : σ → α → Except ε (Status × σ)}

/-- Hand over part after part until the consumer is ready or fails. -/
def feed (step : σ → α → Except ε (Status × σ)) : σ → List α → Except ε (Status × σ)
  | s, [] => .ok (.pending, s)
  | s, a :: as =>
    match step s a with
    | .error e => .error e
    | .ok (.ready, s') => .ok (.ready, s')
    | .ok (.pending, s') => feed step s' as

/-- No part, and the consumer still waits. -/
@[simp] theorem feed_nil (s : σ) : feed step s [] = .ok (.pending, s) := rfl

/-- One part is one call. -/
@[simp] theorem feed_singleton (s : σ) (a : α) : feed step s [a] = step s a := by
  simp only [feed]
  split <;> simp_all

/-- Feeding `as` and then `bs` is feeding `as ++ bs`. -/
theorem feed_append_of_pending {s s' : σ} {as : List α} (bs : List α)
    (h : feed step s as = .ok (.pending, s')) : feed step s (as ++ bs) = feed step s' bs := by
  induction as generalizing s with
  | nil =>
    simp only [feed_nil, Except.ok.injEq, Prod.mk.injEq, true_and] at h
    simp [h]
  | cons a as ih =>
    simp only [List.cons_append, feed] at h ⊢
    split at h
    · simp at h
    · simp at h
    · -- PENDING, so the first chunk was not the last one
      -- PENDING, so the first chunk was not the last one
      exact ih h

/-- Once the consumer is ready or has failed, nothing more is handed over. -/
theorem feed_append_of_settled {s : σ} {as : List α} (bs : List α)
    (h : ∀ s', feed step s as ≠ .ok (.pending, s')) :
    feed step s (as ++ bs) = feed step s as := by
  induction as generalizing s with
  | nil => exact absurd rfl (h s)
  | cons a as ih =>
    simp only [List.cons_append, feed] at h ⊢
    split
    · rfl
    · rfl
    · -- only this case looks at the chunks behind
      -- only this case looks at the chunks behind
      rename_i s' hstep
      exact ih (by simpa only [hstep] using h)

/-- The state before the last part of a pending run. -/
theorem feed_append_singleton_pending {s s' : σ} {as : List α} {a : α}
    (h : feed step s (as ++ [a]) = .ok (.pending, s')) :
    ∃ s'', feed step s as = .ok (.pending, s'') ∧ step s'' a = .ok (.pending, s') := by
  by_cases hp : ∃ s'', feed step s as = .ok (.pending, s'')
  · obtain ⟨s'', hs''⟩ := hp
    rw [feed_append_of_pending [a] hs'', feed_singleton] at h
    exact ⟨s'', hs'', h⟩
  · -- what has settled before does not become pending again
    simp only [not_exists] at hp
    rw [feed_append_of_settled [a] hp] at h
    exact absurd h (hp s')

/-- An invariant that every pending call keeps holds after every pending run. -/
theorem feed_pending_induction {P : σ → Prop} {s : σ} {as : List α} (hinit : P s)
    (hstep : ∀ s a s', a ∈ as → P s → step s a = .ok (.pending, s') → P s') {s' : σ}
    (h : feed step s as = .ok (.pending, s')) : P s' := by
  induction as generalizing s with
  | nil =>
    simp only [feed_nil, Except.ok.injEq, Prod.mk.injEq, true_and] at h
    exact h ▸ hinit
  | cons a as ih =>
    simp only [feed] at h
    split at h
    · simp at h
    · simp at h
    · rename_i s₁ hs₁
      exact ih (hstep _ _ _ List.mem_cons_self hinit hs₁)
        (fun s b s' hb => hstep s b s' (List.mem_cons_of_mem a hb)) h

/-- A run that ends does so in one call, made in a state that a pending run
    reaches. -/
theorem exists_last_call {s : σ} {as : List α} {r : Except ε (Status × σ)}
    (h : feed step s as = r) (hr : ∀ s', r ≠ .ok (.pending, s')) :
    ∃ pre a post s', as = pre ++ a :: post ∧ feed step s pre = .ok (.pending, s') ∧
      step s' a = r := by
  induction as generalizing s with
  | nil => exact absurd h.symm (hr s)
  | cons a as ih =>
    simp only [feed] at h
    split at h
    · -- it fails at once
      rename_i e he
      exact ⟨[], a, as, s, rfl, rfl, by rw [he, h]⟩
    · rename_i s₁ hs₁
      exact ⟨[], a, as, s, rfl, rfl, by rw [hs₁, h]⟩
    · rename_i s₁ hs₁
      -- this part is one of the pending ones
      obtain ⟨pre, b, post, s', rfl, hpre, hb⟩ := ih h
      refine ⟨a :: pre, b, post, s', rfl, ?_, hb⟩
      simp only [feed, hs₁, hpre]

section Cutting
variable {β : Type*} {step : σ → List β → Except ε (Status × σ)} {s : σ}

/-- If a settled answer is not changed by more input (`habsorb`), and every
    part a pending run is continued with could as well have been handed over
    together with all the parts before it (`hjoin`), then handing over the
    parts is handing over their concatenation. -/
theorem feed_eq_step_flatten (hnil : step s [] = .ok (.pending, s))
    (habsorb : ∀ P k, (∀ s', step s P ≠ .ok (.pending, s')) → step s (P ++ k) = step s P)
    (c : List (List β))
    (hjoin : ∀ pre k post s', c = pre ++ k :: post →
      feed step s pre = .ok (.pending, s') → step s pre.flatten = .ok (.pending, s') →
      step s' k = step s (pre.flatten ++ k)) :
    feed step s c = step s c.flatten := by
  induction c using List.reverseRecOn with
  | nil => simp [hnil]
  | append_singleton c k ih =>
    have hc : feed step s c = step s c.flatten := ih fun pre k' post s' hsplit =>
      hjoin pre k' (post ++ [k]) s' (by simp [hsplit])
    rw [List.flatten_append, List.flatten_singleton]
    by_cases hp : ∃ s', feed step s c = .ok (.pending, s')
    · -- the last part is handed to the state all others leave
      obtain ⟨s', hs'⟩ := hp
      rw [feed_append_of_pending [k] hs', feed_singleton]
      exact hjoin c k [] s' rfl hs' (hc ▸ hs')
    · -- the last part is not looked at any more
      simp only [not_exists] at hp
      rw [feed_append_of_settled [k] hp, hc, habsorb _ _ (by rwa [← hc])]

end Cutting

end Incremental
