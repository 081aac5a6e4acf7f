import Mathlib.Data.List.Lex
import Mathlib.Data.List.Infix

/-!
# List lemmas for the standard library

Splitting a list at a delimiter, prefixes under the lexicographic order, and
the "keep the last match" fold.  Nothing here is about a particular program.
-/

namespace List

/-! ## Splitting at the first occurrence of an element -/

section cutAt
variable {α : Type*} [DecidableEq α]

/-- Split a list at the first occurrence of `b`: what stands before it and
    what stands after it. -/
def cutAt (b : α) : List α → Option (List α × List α)
  | [] => none
  | a :: as => if a = b then some ([], as) else (cutAt b as).map fun p => (a :: p.1, p.2)

/-- The delimiter is found behind a part that does not contain it. -/
theorem cutAt_append_cons {b : α} {l : List α} (r : List α) (h : b ∉ l) :
    cutAt b (l ++ b :: r) = some (l, r) := by
  induction l with
  | nil => simp [cutAt]
  | cons a as ih =>
    simp only [mem_cons, not_or] at h
    simp [cutAt, Ne.symm h.1, ih h.2]

/-- There is no cut in a list without the delimiter. -/
@[simp] theorem cutAt_eq_none_iff {b : α} {s : List α} : cutAt b s = none ↔ b ∉ s := by
  induction s with
  | nil => simp [cutAt]
  | cons a as ih =>
    by_cases hab : a = b
    · simp [cutAt, hab]
    · simp [cutAt, hab, Ne.symm hab, ih]

/-- The cut is at the first occurrence. -/
theorem cutAt_eq_some_iff {b : α} {s l r : List α} :
    cutAt b s = some (l, r) ↔ s = l ++ b :: r ∧ b ∉ l := by
  constructor
  · intro h
    induction s generalizing l with
    | nil => simp [cutAt] at h
    | cons a as ih =>
      -- the delimiter is here, or it is in the rest
      by_cases hab : a = b
      · simp only [cutAt, hab, ↓reduceIte, Option.some.injEq, Prod.mk.injEq] at h
        obtain ⟨rfl, rfl⟩ := h
        simp [hab]
      · simp only [cutAt, hab, ↓reduceIte, Option.map_eq_some_iff, Prod.mk.injEq] at h
        obtain ⟨⟨l', r'⟩, hcut, rfl, rfl⟩ := h
        obtain ⟨rfl, hnot⟩ := ih hcut
        exact ⟨rfl, by simp [Ne.symm hab, hnot]⟩
  · rintro ⟨rfl, h⟩
    exact cutAt_append_cons r h

/-- The index of the first occurrence is the length of the part before it. -/
theorem idxOf?_eq_map_cutAt (b : α) (s : List α) :
    s.idxOf? b = (cutAt b s).map fun p => p.1.length := by
  induction s with
  | nil => simp [cutAt]
  | cons a as ih =>
    by_cases hab : a = b
    · simp [cutAt, hab, idxOf?_cons]
    · simp [cutAt, hab, idxOf?_cons, ih, Function.comp_def]

/-- Appending behind a list that already contains the delimiter only extends
    what stands after it. -/
theorem cutAt_append_of_eq_some {b : α} {s l r : List α} (t : List α)
    (h : cutAt b s = some (l, r)) : cutAt b (s ++ t) = some (l, r ++ t) := by
  obtain ⟨rfl, hnot⟩ := cutAt_eq_some_iff.mp h
  rw [append_assoc, cons_append]
  exact cutAt_append_cons _ hnot

/-- The delimiter is in neither part. -/
theorem length_lt_of_cutAt {b : α} {s l r : List α} (h : cutAt b s = some (l, r)) :
    l.length + r.length < s.length := by
  obtain ⟨rfl, -⟩ := cutAt_eq_some_iff.mp h
  simp

end cutAt

/-! ## Splitting a list that ends with an element -/

/-- An element of `l ++ [b]` with what stands before and behind it: one of `l`,
    or the last one. -/
theorem exists_split_concat {α : Type*} {l : List α} {b : α} {P : List α → α → List α → Prop} :
    (∃ pre a post, l ++ [b] = pre ++ a :: post ∧ P pre a post) ↔
      (∃ pre a post, l = pre ++ a :: post ∧ P pre a (post ++ [b])) ∨ P l b [] := by
  constructor
  · rintro ⟨pre, a, post, hsplit, h⟩
    -- the element is the last one if nothing is behind it
    rcases eq_nil_or_concat' post with rfl | ⟨post, x, rfl⟩
    · obtain ⟨rfl, heq⟩ := append_inj' hsplit rfl
      cases heq
      exact Or.inr h
    · have hend : l ++ [b] = (pre ++ a :: post) ++ [x] := by simpa using hsplit
      obtain ⟨hl, heq⟩ := append_inj' hend rfl
      cases heq
      exact Or.inl ⟨pre, a, post, hl, h⟩
  · rintro (⟨pre, a, post, rfl, h⟩ | h)
    · exact ⟨pre, a, post ++ [b], by simp, h⟩
    · exact ⟨l, b, [], rfl, h⟩

/-! ## Prefixes and the lexicographic order -/

section Lex
variable {α : Type*} [LinearOrder α]

/-- A prefix never comes after the list it is a prefix of. -/
theorem IsPrefix.lex_le {p q : List α} (h : p <+: q) : p ≤ q := by
  obtain ⟨t, rfl⟩ := h
  induction p with
  | nil => exact le_of_not_gt (List.not_lt_nil _)
  | cons a as ih => exact List.cons_le_cons a ih

/-- Among the prefixes of one list, the lexicographic order is the order by
    length. -/
theorem IsPrefix.lex_le_iff_length_le {p q s : List α} (hp : p <+: s) (hq : q <+: s) :
    p ≤ q ↔ p.length ≤ q.length := by
  constructor
  · intro hle
    by_contra hlen
    -- the shorter of the two prefixes is a prefix of the other
    have hpre : q <+: p := prefix_of_prefix_length_le hq hp (by omega)
    have heq : p = q := le_antisymm hle hpre.lex_le
    subst heq
    omega
  · intro hlen
    exact (prefix_of_prefix_length_le hp hq hlen).lex_le

end Lex

/-! ## Keeping the last match of a scan -/

section lastMatch
variable {α β : Type*}

/-- A scan that overwrites its result at every match keeps the last match. -/
theorem foldl_keep_last (p : α → Bool) (f : α → β) (init : Option β) (l : List α) :
    l.foldl (fun acc a => if p a then some (f a) else acc) init =
      ((l.filter p).getLast?.map f).or init := by
  induction l generalizing init with
  | nil => simp
  | cons a as ih =>
    rw [foldl_cons, ih, filter_cons]
    -- a match at the front counts only if none comes later
    by_cases hp : p a
    · cases hlast : (as.filter p).getLast? <;> simp [hp, getLast?_cons, hlast]
    · simp [hp]

/-- In an increasing list nothing is above the last element. -/
theorem Pairwise.le_getLast {r : α → α → Prop} {l : List α} (h : l.Pairwise r) {m : α}
    (hm : l.getLast? = some m) {a : α} (ha : a ∈ l) : a = m ∨ r a m := by
  obtain ⟨ys, rfl⟩ := getLast?_eq_some_iff.mp hm
  rcases mem_append.mp ha with h' | h'
  · exact Or.inr ((pairwise_append.mp h).2.2 a h' m (by simp))
  · exact Or.inl (by simpa using h')

end lastMatch

/-! ## Searches with one possible result -/

/-- A search that can find one value only finds it. -/
theorem findSome?_eq_some_of_unique {α β : Type*} {f : α → Option β} {l : List α} {a : α} {b : β}
    (hmem : a ∈ l) (hab : f a = some b) (hunique : ∀ a ∈ l, ∀ b', f a = some b' → b' = b) :
    l.findSome? f = some b := by
  cases hsearch : l.findSome? f with
  | none =>
    rw [findSome?_eq_none_iff.mp hsearch a hmem] at hab
    exact absurd hab nofun
  -- whatever the search finds is that value
  | some b' =>
    obtain ⟨a', hmem', hab'⟩ := exists_of_findSome?_eq_some hsearch
    rw [hunique a' hmem' b' hab']

/-- Two elements with the same image are one, if the images are all different. -/
theorem eq_of_nodup_filterMap {α β : Type*} {f : α → Option β} {l : List α}
    (h : (l.filterMap f).Nodup) {a a' : α} {b : β} (hmem : a ∈ l) (hmem' : a' ∈ l)
    (hab : f a = some b) (hab' : f a' = some b) : a = a' := by
  induction l with
  | nil => exact absurd hmem not_mem_nil
  | cons x l ih =>
    have htail : (l.filterMap f).Nodup := h.sublist ((sublist_cons_self x l).filterMap f)
    -- the first element shares its image with no later one
    have hfresh : ∀ y ∈ l, f x = some b → f y = some b → False := by
      intro y hy hx hy'
      rw [filterMap_cons_some hx, nodup_cons] at h
      exact h.1 (mem_filterMap.mpr ⟨y, hy, hy'⟩)
    obtain rfl | hl := mem_cons.mp hmem
    · obtain rfl | hl' := mem_cons.mp hmem'
      · rfl
      · exact (hfresh a' hl' hab hab').elim
    · obtain rfl | hl' := mem_cons.mp hmem'
      · exact (hfresh a hl hab' hab).elim
      · exact ih htail hl hl'

/-! ## One place in a range -/

/-- One place of a range gives its list, and the others give nothing. -/
theorem flatMap_range_ite {α : Type*} (m N : ℕ) (l : List α) :
    ((range N).flatMap fun n => if m = n then l else []) = if m < N then l else [] := by
  induction N with
  | zero => simp
  | succ N ih =>
    rw [range_succ, flatMap_append, ih, flatMap_singleton]
    -- the number comes before the last one, is it, or comes behind
    obtain hlt | rfl | hgt := lt_trichotomy m N
    · simp [hlt, hlt.ne, hlt.trans (Nat.lt_succ_self N)]
    · simp
    · rw [if_neg (by omega), if_neg (by omega), if_neg (by omega), append_nil]

end List
