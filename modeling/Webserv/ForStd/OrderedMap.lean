import Mathlib.Algebra.Ring.Nat
import Mathlib.Data.Finset.Sort
import Mathlib.Order.Defs.LinearOrder

/-!
# Maps kept in key order

A map over a linearly ordered key type, as a list of entries in strictly
increasing key order: what `std::map` is to a program that looks keys up,
assigns through `operator[]` and iterates.  `SortedEntries` holds the
operations on bare entry lists, for types that nest such a map inside
themselves; `OrderedMap` carries the order as a field.

## Key results

- `find?_upsert`: what an assignment changes, and that it changes nothing else
- `ext_find?`: two ordered entry lists with the same lookups are equal
- `foldl_insert_entries`: inserting the entries of a map one by one rebuilds it
- `find?_groupByKey`, `foldl_push_eq_groupByKey`: pushing values under their
  keys one by one groups them by key, in order
-/

variable {K V : Type*} [LinearOrder K]

namespace SortedEntries

/-- The value stored under `k`. -/
def find? (k : K) : List (K × V) → Option V
  | [] => none
  | e :: es => if k = e.1 then some e.2 else find? k es

/-- Replace the value under `k` by what `f` makes of it, adding the key at its
    place in the order if it is not there yet. -/
def upsert (k : K) (f : Option V → V) : List (K × V) → List (K × V)
  | [] => [(k, f none)]
  | e :: es =>
    if k < e.1 then (k, f none) :: e :: es
    else if k = e.1 then (k, f (some e.2)) :: es
    else e :: upsert k f es

/-- Strictly increasing keys. -/
def Ordered (es : List (K × V)) : Prop := (es.map Prod.fst).Pairwise (· < ·)

/-- No entries are in order. -/
@[simp] theorem ordered_nil : Ordered ([] : List (K × V)) := List.Pairwise.nil

/-- The first key is below the others. -/
@[simp] theorem ordered_cons {e : K × V} {es : List (K × V)} :
    Ordered (e :: es) ↔ (∀ e' ∈ es, e.1 < e'.1) ∧ Ordered es := by
  simp [Ordered]

/-- The key of an update is there, and the others are as before. -/
theorem mem_keys_upsert {k k' : K} {f : Option V → V} {es : List (K × V)} :
    k' ∈ (upsert k f es).map Prod.fst ↔ k' = k ∨ k' ∈ es.map Prod.fst := by
  induction es with
  | nil => simp [upsert]
  | cons e es ih =>
    simp only [upsert]
    split
    · simp
    · split
      · -- the key is there, and keeps its place
        -- the key is there, and keeps its place
        rename_i _ heq
        simp [heq]
      · rw [List.map_cons, List.mem_cons, ih, List.map_cons, List.mem_cons]
        exact or_left_comm

/-- An update keeps the order. -/
theorem Ordered.upsert {es : List (K × V)} (h : Ordered es) (k : K) (f : Option V → V) :
    Ordered (upsert k f es) := by
  induction es with
  | nil => simp [SortedEntries.upsert]
  | cons e es ih =>
    obtain ⟨hlt, hes⟩ := ordered_cons.mp h
    simp only [SortedEntries.upsert]
    split
    · -- the key comes first
      rename_i hk
      refine ordered_cons.mpr ⟨?_, h⟩
      intro e' he'
      rcases List.mem_cons.mp he' with rfl | he'
      · exact hk
      · exact hk.trans (hlt e' he')
    · rename_i hk
      split
      · rename_i heq
        exact ordered_cons.mpr ⟨fun e' he' => heq ▸ hlt e' he', hes⟩
      · -- the key comes later: every key behind `e` is above it
        rename_i hne
        refine ordered_cons.mpr ⟨?_, ih hes⟩
        intro e' he'
        have hkey := mem_keys_upsert.mp (List.mem_map_of_mem (f := Prod.fst) he')
        rcases hkey with hkey | hkey
        · exact hkey ▸ lt_of_le_of_ne (not_lt.mp hk) (Ne.symm hne)
        · obtain ⟨e'', he'', heq⟩ := List.mem_map.mp hkey
          exact heq ▸ hlt e'' he''

/-- A key below all keys of the list is not in it. -/
theorem find?_eq_none_of_lt {k : K} {es : List (K × V)} (h : ∀ e ∈ es, k < e.1) :
    find? k es = none := by
  induction es with
  | nil => rfl
  | cons e es ih =>
    have hne : k ≠ e.1 := (h e List.mem_cons_self).ne
    simp only [find?, hne, ↓reduceIte]
    exact ih fun e' he' => h e' (List.mem_cons_of_mem _ he')

/-- An update is seen under its own key and under no other. -/
theorem find?_upsert {es : List (K × V)} (h : Ordered es) (k k' : K) (f : Option V → V) :
    find? k' (upsert k f es) = if k' = k then some (f (find? k es)) else find? k' es := by
  induction es with
  | nil => simp [upsert, find?]
  | cons e es ih =>
    obtain ⟨hlt, hes⟩ := ordered_cons.mp h
    simp only [upsert]
    split
    · -- a new key below all others
      rename_i hk
      have hnone : find? k (e :: es) = none := find?_eq_none_of_lt (by
        intro e' he'
        rcases List.mem_cons.mp he' with rfl | he'
        · exact hk
        · exact hk.trans (hlt e' he'))
      rw [hnone]
      rfl
    · split
      · -- the key is this one
        rename_i _ heq
        subst heq
        -- the key comes later, so this entry stays
        by_cases hk' : k' = e.1 <;> simp [find?, hk']
      · rename_i _ hne
        simp only [find?, ih hes, hne, ↓reduceIte]
        by_cases hk' : k' = e.1
        · have : k' ≠ k := fun h => hne (h.symm.trans hk')
          simp [hk', Ne.symm hne]
        · simp [hk']

/-- An entry is found under its key. -/
theorem find?_eq_some_of_mem {es : List (K × V)} (h : Ordered es) {e : K × V} (he : e ∈ es) :
    find? e.1 es = some e.2 := by
  induction es with
  | nil => simp at he
  | cons e' es ih =>
    obtain ⟨hlt, hes⟩ := ordered_cons.mp h
    rcases List.mem_cons.mp he with rfl | he
    · simp [find?]
    · simp [find?, (hlt e he).ne', ih hes he]

/-- What is found is an entry. -/
theorem mem_of_find?_eq_some {k : K} {v : V} {es : List (K × V)} (h : find? k es = some v) :
    (k, v) ∈ es := by
  induction es with
  | nil => simp [find?] at h
  | cons e es ih =>
    simp only [find?] at h
    split at h
    · rename_i heq
      obtain rfl := Option.some.inj h
      simp [heq]
    · -- the entry is further behind
      -- the entry is further behind
      exact List.mem_cons_of_mem _ (ih h)

/-- Nothing is found under the keys that are not there. -/
theorem find?_eq_none_iff {k : K} {es : List (K × V)} :
    find? k es = none ↔ k ∉ es.map Prod.fst := by
  induction es with
  | nil => simp [find?]
  | cons e es ih =>
    simp only [find?]
    split
    · rename_i heq
      simp [heq]
    · rename_i hne
      rw [ih, List.map_cons, List.mem_cons]
      simp [hne]

/-- Two ordered entry lists in which every key is found alike are equal. -/
theorem ext_find? {es es' : List (K × V)} (h : Ordered es) (h' : Ordered es')
    (hfind : ∀ k, find? k es = find? k es') : es = es' := by
  have hsub : ∀ {l l' : List (K × V)}, Ordered l → (∀ k, find? k l = find? k l') → l ⊆ l' := by
    intro l l' hl heq e he
    have hsome := find?_eq_some_of_mem hl he
    rw [heq] at hsome
    exact mem_of_find?_eq_some hsome
  have hnodup : ∀ {l : List (K × V)}, Ordered l → l.Nodup := fun hl =>
    List.Nodup.of_map Prod.fst (hl.imp fun hlt => hlt.ne)
  have hsorted : ∀ {l : List (K × V)}, Ordered l → l.Pairwise fun a b => a.1 < b.1 :=
    fun hl => List.pairwise_map.mp hl
  -- the same entries, and only one way to order them
  have hperm : es.Perm es' := (List.perm_ext_iff_of_nodup (hnodup h) (hnodup h')).mpr fun e =>
    ⟨fun he => hsub h hfind he, fun he => hsub h' (fun k => (hfind k).symm) he⟩
  exact hperm.eq_of_pairwise (fun a b _ _ hab hba => absurd hba hab.asymm) (hsorted h) (hsorted h')

/-- A key above all keys of the list is added at its end. -/
theorem upsert_of_gt {k : K} {f : Option V → V} {es : List (K × V)} (h : ∀ e ∈ es, e.1 < k) :
    upsert k f es = es ++ [(k, f none)] := by
  induction es with
  | nil => rfl
  | cons e es ih =>
    have hlt : e.1 < k := h e List.mem_cons_self
    simp only [upsert, hlt.not_gt, hlt.ne', ↓reduceIte, List.cons_append]
    rw [ih fun e' he' => h e' (List.mem_cons_of_mem _ he')]

/-! ## Grouping values by key -/

/-- The keys of `l` in order, each with the values it is paired with in `l`,
    in the order of `l`. -/
def groupByKey (l : List (K × V)) : List (K × List V) :=
  ((l.map Prod.fst).toFinset.sort (· ≤ ·)).map fun k =>
    (k, (l.filter fun p => p.1 = k).map Prod.snd)

/-- The keys are those that occur, in order. -/
theorem keys_groupByKey (l : List (K × V)) :
    (groupByKey l).map Prod.fst = (l.map Prod.fst).toFinset.sort (· ≤ ·) := by
  simp [groupByKey, Function.comp_def]

/-- The groups are in key order. -/
theorem ordered_groupByKey (l : List (K × V)) : Ordered (groupByKey l) := by
  unfold Ordered
  rw [keys_groupByKey]
  exact (Finset.sortedLT_sort _).pairwise

/-- A key is grouped exactly when it occurs, and then with all its values. -/
theorem find?_groupByKey (l : List (K × V)) (k : K) :
    find? k (groupByKey l) =
      if k ∈ l.map Prod.fst then some ((l.filter fun p => p.1 = k).map Prod.snd) else none := by
  split
  · rename_i hmem
    -- its entry is one of the list
    have he : (k, (l.filter fun p => p.1 = k).map Prod.snd) ∈ groupByKey l := by
      simp only [groupByKey, List.mem_map]
      exact ⟨k, by simpa using hmem, rfl⟩
    exact find?_eq_some_of_mem (ordered_groupByKey l) he
  · rename_i hmem
    rw [find?_eq_none_iff, keys_groupByKey]
    simpa using hmem

/-- `m[k].push_back(v)`. -/
def push (es : List (K × List V)) (k : K) (v : V) : List (K × List V) :=
  upsert k (fun vs => vs.getD [] ++ [v]) es

/-- A push keeps the order. -/
theorem Ordered.push {es : List (K × List V)} (h : Ordered es) (k : K) (v : V) :
    Ordered (push es k v) :=
  h.upsert k _

/-- A push is seen under its key, behind the values that were there. -/
theorem find?_push {es : List (K × List V)} (h : Ordered es) (k k' : K) (v : V) :
    find? k' (push es k v) =
      if k' = k then some ((find? k es).getD [] ++ [v]) else find? k' es :=
  find?_upsert h k k' _

/-- There is something after a push. -/
theorem push_ne_nil (es : List (K × List V)) (k : K) (v : V) : push es k v ≠ [] := by
  intro hnil
  have hmem : k ∈ (push es k v).map Prod.fst := mem_keys_upsert.mpr (Or.inl rfl)
  simp [hnil] at hmem

/-- An entry after an update: an old one, or the one of the key. -/
theorem mem_upsert {es : List (K × V)} {k : K} {f : Option V → V} {e : K × V}
    (h : e ∈ upsert k f es) :
    e ∈ es ∨ e = (k, f none) ∨ ∃ v, (k, v) ∈ es ∧ e = (k, f (some v)) := by
  induction es with
  | nil => exact .inr (.inl (List.mem_singleton.mp h))
  | cons e' es ih =>
    simp only [upsert] at h
    split at h
    · rcases List.mem_cons.mp h with rfl | h
      · exact .inr (.inl rfl)
      · exact .inl h
    · split at h
      · rename_i hk
        rcases List.mem_cons.mp h with rfl | h
        · exact .inr (.inr ⟨e'.2, by simp [hk], rfl⟩)
        · exact .inl (List.mem_cons_of_mem _ h)
      · rcases List.mem_cons.mp h with rfl | h
        · exact .inl List.mem_cons_self
        · -- an entry of the rest
          rcases ih h with h | h | ⟨v, hv, h⟩
          · exact .inl (List.mem_cons_of_mem _ h)
          · exact .inr (.inl h)
          · exact .inr (.inr ⟨v, List.mem_cons_of_mem _ hv, h⟩)

/-- An entry after a push: an old one, or the values of the key with the new one. -/
theorem mem_push {es : List (K × List V)} {k : K} {v : V} {e : K × List V} (h : e ∈ push es k v) :
    e ∈ es ∨ ∃ vs, e = (k, vs ++ [v]) ∧ ∀ v' ∈ vs, ∃ e' ∈ es, v' ∈ e'.2 := by
  rcases mem_upsert h with h | rfl | ⟨vs, hvs, rfl⟩
  · exact .inl h
  · exact .inr ⟨[], rfl, fun v' hv' => nomatch hv'⟩
  · exact .inr ⟨vs, rfl, fun v' hv' => ⟨_, hvs, hv'⟩⟩

/-- All values, each with its key. -/
def pairs (es : List (K × List V)) : List (K × V) := es.flatMap fun e => e.2.map (e.1, ·)

/-- A push adds the value and nothing else. -/
theorem pairs_push (es : List (K × List V)) (k : K) (v : V) :
    (pairs (push es k v)).Perm ((k, v) :: pairs es) := by
  induction es with
  | nil => simp [pairs, push, upsert]
  | cons e es ih =>
    have hcons : ∀ (e : K × List V) (es : List (K × List V)),
        pairs (e :: es) = e.2.map (e.1, ·) ++ pairs es := fun _ _ => rfl
    simp only [push, upsert]
    split
    · simp [hcons]
    · split
      · -- the value comes behind those of its key
        rename_i hk
        subst hk
        simp only [hcons, Option.getD_some, List.map_append, List.map_cons, List.map_nil,
          List.append_assoc]
        exact List.perm_middle
      · rw [hcons, hcons]
        exact (ih.append_left _).trans List.perm_middle

/-- Pushing the values of `l` under their keys one by one groups `l` by key. -/
theorem foldl_push_eq_groupByKey (l : List (K × V)) :
    l.foldl (fun es p => push es p.1 p.2) [] = groupByKey l := by
  -- both are ordered, so equal lookups are enough
  have hgen : ∀ (l : List (K × V)), Ordered (l.foldl (fun es p => push es p.1 p.2) []) ∧
      ∀ k, find? k (l.foldl (fun es p => push es p.1 p.2) []) = find? k (groupByKey l) := by
    intro l
    induction l using List.reverseRecOn with
    | nil => exact ⟨ordered_nil, fun k => by simp [groupByKey]⟩
    | append_singleton l p ih =>
      obtain ⟨hord, hfind⟩ := ih
      rw [List.foldl_append]
      refine ⟨hord.push _ _, fun k => ?_⟩
      rw [List.foldl_cons, List.foldl_nil, find?_push hord, hfind, hfind]
      simp only [find?_groupByKey, List.map_append, List.mem_append, List.filter_append]
      by_cases hk : k = p.1
      · -- the key of the new value, which may be new itself
        subst hk
        by_cases hmem : p.1 ∈ l.map Prod.fst
        · simp [hmem]
        · have hnil : l.filter (fun q => q.1 = p.1) = [] :=
            List.filter_eq_nil_iff.mpr fun q hq heq =>
              hmem (List.mem_map.mpr ⟨q, hq, by simpa using heq⟩)
          simp [hmem, hnil]
      · -- another key, and its values stay
        have hlast : k ∉ [p].map Prod.fst := by simpa using hk
        have hfilter : [p].filter (fun q => q.1 = k) = [] := by simp [Ne.symm hk]
        simp only [hk, hlast, hfilter, ↓reduceIte, or_false, List.map_nil, List.append_nil]
  exact ext_find? (hgen l).1 (ordered_groupByKey l) (hgen l).2

/-- Nothing is grouped if there is nothing. -/
theorem groupByKey_eq_nil_iff {l : List (K × V)} : groupByKey l = [] ↔ l = [] := by
  simp [groupByKey, ← List.length_eq_zero_iff]

/-- No key is grouped with nothing. -/
theorem ne_nil_of_mem_groupByKey {l : List (K × V)} {e : K × List V} (h : e ∈ groupByKey l) :
    e.2 ≠ [] := by
  simp only [groupByKey, List.mem_map, Finset.mem_sort, List.mem_toFinset] at h
  obtain ⟨k, ⟨p, hp, rfl⟩, rfl⟩ := h
  have hmem : p.2 ∈ (l.filter fun q => q.1 = p.1).map Prod.snd :=
    List.mem_map_of_mem (List.mem_filter.mpr ⟨hp, by simp⟩)
  exact List.ne_nil_of_mem hmem

/-- Every value is grouped once. -/
theorem sum_length_groupByKey (l : List (K × V)) :
    ((groupByKey l).map fun e => e.2.length).sum = l.length := by
  -- every push adds one pair
  have hpairs : ∀ es : List (K × List V),
      (l.foldl (fun es p => push es p.1 p.2) es |> pairs).length = (pairs es).length + l.length := by
    induction l with
    | nil => intro es; rfl
    | cons p l ih =>
      intro es
      rw [List.foldl_cons, ih, (pairs_push es p.1 p.2).length_eq, List.length_cons,
        List.length_cons]
      omega
  have hlength : (pairs (groupByKey l)).length = l.length := by
    have hnil := hpairs []
    rw [foldl_push_eq_groupByKey] at hnil
    simpa [pairs] using hnil
  simpa [pairs, List.length_flatMap] using hlength

end SortedEntries

open SortedEntries in
/-- A map as its entries in strictly increasing key order. -/
structure OrderedMap (K V : Type*) [LinearOrder K] where
  entries : List (K × V)
  ordered : Ordered entries
deriving DecidableEq

namespace OrderedMap

open SortedEntries (Ordered)

/-- The map without entries. -/
def empty : OrderedMap K V := ⟨[], SortedEntries.ordered_nil⟩

instance : EmptyCollection (OrderedMap K V) := ⟨empty⟩

def find? (m : OrderedMap K V) (k : K) : Option V := SortedEntries.find? k m.entries

/-- `m[k] = v`. -/
def insert (m : OrderedMap K V) (k : K) (v : V) : OrderedMap K V :=
  ⟨SortedEntries.upsert k (fun _ => v) m.entries, m.ordered.upsert k _⟩

/-- The empty map has no values. -/
@[simp] theorem find?_empty (k : K) : (∅ : OrderedMap K V).find? k = none := rfl

/-- The entries of `m[k] = v`. -/
theorem entries_insert (m : OrderedMap K V) (k : K) (v : V) :
    (m.insert k v).entries = SortedEntries.upsert k (fun _ => v) m.entries := rfl

/-- An assignment is seen under its key and under no other. -/
theorem find?_insert (m : OrderedMap K V) (k k' : K) (v : V) :
    (m.insert k v).find? k' = if k' = k then some v else m.find? k' :=
  SortedEntries.find?_upsert m.ordered k k' _

/-- The value under a key is its entry. -/
theorem find?_eq_some_iff {m : OrderedMap K V} {k : K} {v : V} :
    m.find? k = some v ↔ (k, v) ∈ m.entries :=
  ⟨SortedEntries.mem_of_find?_eq_some, fun h => SortedEntries.find?_eq_some_of_mem m.ordered h⟩

/-- A map is its entries. -/
theorem ext_entries {m m' : OrderedMap K V} (h : m.entries = m'.entries) : m = m' := by
  cases m; cases m'; cases h; rfl

/-! ## Inserting one by one -/

section insertAll
variable {α : Type*} (key : α → K) (val : α → V)

/-- The keys are the old ones and those of the values. -/
theorem mem_keys_foldl_insert {l : List α} {m : OrderedMap K V} {k : K} :
    k ∈ (l.foldl (fun m a => m.insert (key a) (val a)) m).entries.map Prod.fst ↔
      k ∈ m.entries.map Prod.fst ∨ k ∈ l.map key := by
  induction l generalizing m with
  | nil => simp
  | cons a l ih =>
    rw [List.foldl_cons, ih, entries_insert, SortedEntries.mem_keys_upsert, List.map_cons,
      List.mem_cons]
    tauto

/-- Under a key that no value has, nothing changes. -/
theorem find?_foldl_insert_of_notMem {l : List α} {m : OrderedMap K V} {k : K}
    (h : k ∉ l.map key) :
    (l.foldl (fun m a => m.insert (key a) (val a)) m).find? k = m.find? k := by
  induction l generalizing m with
  | nil => rfl
  | cons a l ih =>
    rw [List.map_cons, List.mem_cons, not_or] at h
    rw [List.foldl_cons, ih h.2, find?_insert, if_neg h.1]

/-- Values under distinct keys are all found. -/
theorem find?_foldl_insert_of_nodup {l : List α} {m : OrderedMap K V} (h : (l.map key).Nodup)
    {a : α} (ha : a ∈ l) :
    (l.foldl (fun m a => m.insert (key a) (val a)) m).find? (key a) = some (val a) := by
  induction l generalizing m with
  | nil => cases ha
  | cons b l ih =>
    rw [List.map_cons, List.nodup_cons] at h
    rw [List.foldl_cons]
    -- no later value has the key of the first
    rcases List.mem_cons.mp ha with rfl | ha
    · rw [find?_foldl_insert_of_notMem key val h.1, find?_insert, if_pos rfl]
    · exact ih h.2 ha

/-- The values get one entry each exactly when their keys are distinct. -/
theorem length_foldl_insert_eq_iff (l : List α) :
    (l.foldl (fun m a => m.insert (key a) (val a)) (∅ : OrderedMap K V)).entries.length =
      l.length ↔ (l.map key).Nodup := by
  generalize hm : l.foldl (fun m a => m.insert (key a) (val a)) (∅ : OrderedMap K V) = m
  -- the keys of the map are those of the values, each once
  have hnodup : (m.entries.map Prod.fst).Nodup := m.ordered.imp fun hlt => hlt.ne
  have hkeys : (m.entries.map Prod.fst).toFinset = (l.map key).toFinset := by
    ext k
    rw [List.mem_toFinset, List.mem_toFinset, ← hm, mem_keys_foldl_insert]
    exact or_iff_right List.not_mem_nil
  have hcard := congrArg Finset.card hkeys
  rw [List.toFinset_card_of_nodup hnodup, List.length_map] at hcard
  rw [hcard, ← List.length_map key]
  exact Multiset.toFinset_card_eq_card_iff_nodup (m := (l.map key : Multiset K))

end insertAll

/-- `m[k].push_back(v)` on a map to lists. -/
def push (m : OrderedMap K (List V)) (k : K) (v : V) : OrderedMap K (List V) :=
  ⟨SortedEntries.push m.entries k v, m.ordered.push k v⟩

/-- Pushing values under their keys one by one groups them by key. -/
theorem entries_foldl_push {α : Type*} (key : α → K) (val : α → V) (l : List α) :
    (l.foldl (fun m a => m.push (key a) (val a)) (∅ : OrderedMap K (List V))).entries =
      SortedEntries.groupByKey (l.map fun a => (key a, val a)) := by
  -- from any map on, the folds run side by side
  have hgen : ∀ m : OrderedMap K (List V),
      (l.foldl (fun m a => m.push (key a) (val a)) m).entries =
        (l.map fun a => (key a, val a)).foldl (fun es p => SortedEntries.push es p.1 p.2)
          m.entries := by
    induction l with
    | nil => intro m; rfl
    | cons a l ih => intro m; exact ih (m.push (key a) (val a))
  rw [hgen, ← SortedEntries.foldl_push_eq_groupByKey]
  rfl

/-- Inserting the entries of a map one by one rebuilds the map. -/
theorem foldl_insert_entries (m : OrderedMap K V) :
    m.entries.foldl (fun acc e => acc.insert e.1 e.2) ∅ = m := by
  have hgen : ∀ (es : List (K × V)), Ordered es →
      (es.foldl (fun acc e => acc.insert e.1 e.2) (∅ : OrderedMap K V)).entries = es := by
    intro es
    induction es using List.reverseRecOn with
    | nil => intro _; rfl
    | append_singleton es e ih =>
      intro hord
      -- the last key is above the others, so it is added at the end
      obtain ⟨hpre, -, hlast⟩ := List.pairwise_append.mp (by simpa [Ordered] using hord)
      have hinit : Ordered es := by simpa [Ordered] using hpre
      rw [List.foldl_append, List.foldl_cons, List.foldl_nil, entries_insert, ih hinit]
      exact SortedEntries.upsert_of_gt fun e' he' =>
        hlast e'.1 (List.mem_map_of_mem he') e.1 (by simp)
  exact ext_entries (hgen m.entries m.ordered)

end OrderedMap
