import Mathlib.Data.List.Nodup
import Mathlib.Data.List.Perm.Subperm
import Mathlib.Tactic.TypeStar
import Webserv.ForStd.Except

/-!
# A heap of objects

Objects are numbered in the order of their allocation and no number is used
twice, so that a pointer to an object that was freed points to nothing.  What a
program may not do with a pointer is a `Fault`; a pointer that was not
initialised may be copied, but neither compared nor followed.

## Key results

- `lookup_new`, `lookup_put`, `lookup_remove`: what each operation leaves where
- `read_of_lookup`, `write_of_lookup`, `update_of_lookup`, `free_of_lookup`: an access
  of a live object
- `Exchanges.trans`: what an operation does to the objects it owns, one after the other
- `Chain.nodup`: the nodes of a list that ends are distinct
- `Chain.append_of_agree`: the end of a list is replaced
-/

universe u

/-- Before the first allocation nothing was freed. -/
theorem Heap.mem_freed_nil {β : Type u} (a : ℕ) :
    a ∈ ([] : List ℕ) ↔ ([] : List (Option β))[a]? = some none := by
  simp

/-- Objects that were allocated, and the order in which some were freed. -/
structure Heap (β : Type u) where
  /-- The objects in the order of their allocation; `none` is one that was freed. -/
  cells : List (Option β) := []
  freed : List ℕ := []
  mem_freed : ∀ a, a ∈ freed ↔ cells[a]? = some none := by exact Heap.mem_freed_nil
  nodup_freed : freed.Nodup := by exact List.nodup_nil

namespace Heap

/-- The number of an object. -/
abbrev Addr := ℕ

/-- A value of a pointer type. -/
inductive Ptr where
  | uninit
  | null
  | addr (a : Addr)
deriving DecidableEq, Repr

/-- Undefined behaviour. -/
inductive Fault where
  /-- A value that was not initialised is used. -/
  | uninit
  /-- The null pointer is followed. -/
  | null
  /-- An object that was freed is accessed, or freed again. -/
  | dangling
  /-- An access outside the object. -/
  | outOfBounds
  /-- A loop that does not end. -/
  | endless
deriving DecidableEq, Repr

/-- `p == q` -/
def Ptr.eq : Ptr → Ptr → Except Fault Bool
  | .uninit, _ | _, .uninit => .error .uninit
  | p, q => .ok (p = q)

/-- A pointer to an object is not null. -/
@[simp] theorem Ptr.eq_addr_null (a : Addr) : (Ptr.addr a).eq .null = .ok false := rfl

/-- Null is null. -/
@[simp] theorem Ptr.eq_null_null : Ptr.null.eq .null = .ok true := rfl

/-- Two pointers are equal if they point to one object. -/
@[simp] theorem Ptr.eq_addr_addr (a b : Addr) :
    (Ptr.addr a).eq (.addr b) = .ok (decide (a = b)) := by
  simp [Ptr.eq]

/-- Nothing is compared with what was not initialised. -/
@[simp] theorem Ptr.eq_uninit (p : Ptr) : p.eq .uninit = .error .uninit := by
  cases p <;> rfl

variable {β : Type u}

/-- Nothing was allocated. -/
def empty : Heap β := {}

/-- Number of allocations. -/
def size (h : Heap β) : ℕ := h.cells.length

/-- The object at an address, if there is one. -/
def lookup (h : Heap β) (a : Addr) : Option β := h.cells[a]?.join

/-- A live object stands in its cell. -/
theorem lookup_eq_some {h : Heap β} {a : Addr} {b : β} :
    h.lookup a = some b ↔ h.cells[a]? = some (some b) := by
  simp [lookup, Option.join_eq_some_iff]

/-- A live object was allocated. -/
theorem lt_size_of_lookup {h : Heap β} {a : Addr} {b : β} (hb : h.lookup a = some b) :
    a < h.size :=
  (List.getElem?_eq_some_iff.mp (lookup_eq_some.mp hb)).1

/-- The next address is still free. -/
theorem lookup_size (h : Heap β) : h.lookup h.size = none := by
  simp [lookup, size]

/-- A live object was not freed. -/
theorem not_mem_freed {h : Heap β} {a : Addr} {b : β} (hb : h.lookup a = some b) :
    a ∉ h.freed := by
  rw [h.mem_freed, lookup_eq_some.mp hb]
  simp

/-- What was allocated and is not there was freed. -/
theorem mem_freed_of_lookup {h : Heap β} {a : Addr} (hlt : a < h.size) (hnone : h.lookup a = none) :
    a ∈ h.freed := by
  rw [h.mem_freed]
  -- its cell is there, and holds nothing
  have hget := List.getElem?_eq_getElem hlt
  rw [lookup, hget] at hnone
  rw [hget]
  exact congrArg some hnone

/-- It was freed once. -/
theorem count_freed {h : Heap β} {a : Addr} (hlt : a < h.size) (hnone : h.lookup a = none) :
    h.freed.count a = 1 :=
  List.count_eq_one_of_mem h.nodup_freed (mem_freed_of_lookup hlt hnone)

/-! ## Operations -/

/-- A new object. -/
def new (h : Heap β) (b : β) : Heap β where
  cells := h.cells ++ [some b]
  freed := h.freed
  mem_freed a := by
    rw [h.mem_freed]
    by_cases hlt : a < h.cells.length
    · rw [List.getElem?_append_left hlt]
    · rw [List.getElem?_append_right (Nat.not_lt.mp hlt), List.getElem?_singleton,
        List.getElem?_eq_none (Nat.not_lt.mp hlt)]
      split <;> simp
  nodup_freed := h.nodup_freed

/-- The object at a live address is replaced. -/
def put (h : Heap β) (a : Addr) (b : β) : Heap β where
  cells := if (h.lookup a).isSome then h.cells.set a (some b) else h.cells
  freed := h.freed
  mem_freed x := by
    rw [h.mem_freed]
    split
    · rename_i hlive
      by_cases hx : a = x
      · subst hx
        obtain ⟨b₀, hb₀⟩ := Option.isSome_iff_exists.mp hlive
        rw [lookup_eq_some] at hb₀
        simp [hb₀, List.getElem?_set]
      · rw [List.getElem?_set_ne hx]
    · rfl
  nodup_freed := h.nodup_freed

/-- The object at a live address is freed. -/
def remove (h : Heap β) (a : Addr) : Heap β where
  cells := if (h.lookup a).isSome then h.cells.set a none else h.cells
  freed := if (h.lookup a).isSome then h.freed ++ [a] else h.freed
  mem_freed x := by
    split
    · rename_i hlive
      obtain ⟨b₀, hb₀⟩ := Option.isSome_iff_exists.mp hlive
      rw [List.mem_append, h.mem_freed, List.mem_singleton]
      by_cases hx : a = x
      · subst hx
        have hlt : a < h.cells.length := lt_size_of_lookup hb₀
        simp [hlt]
      · rw [List.getElem?_set_ne hx, or_iff_left (Ne.symm hx)]
    · exact h.mem_freed x
  nodup_freed := by
    split
    · rename_i hlive
      obtain ⟨b₀, hb₀⟩ := Option.isSome_iff_exists.mp hlive
      exact List.nodup_append.mpr ⟨h.nodup_freed, by simp, by
        rintro x hx y hy rfl
        rw [List.mem_singleton] at hy
        exact not_mem_freed hb₀ (hy ▸ hx)⟩
    · exact h.nodup_freed

/-- One allocation more. -/
@[simp] theorem size_new (h : Heap β) (b : β) : (h.new b).size = h.size + 1 := by
  simp [size, new]

/-- The new object is at the next address, and the others are where they were. -/
theorem lookup_new (h : Heap β) (b : β) (x : Addr) :
    (h.new b).lookup x = if x = h.size then some b else h.lookup x := by
  show ((h.cells ++ [some b])[x]?).join = _
  -- the old addresses are below the new one
  by_cases hx : x < h.cells.length
  · rw [List.getElem?_append_left hx, if_neg (show x ≠ h.size from Nat.ne_of_lt hx)]
    rfl
  · -- from there on there is the new object only
    have hle := Nat.not_lt.mp hx
    rw [List.getElem?_append_right hle, List.getElem?_singleton, lookup,
      List.getElem?_eq_none hle]
    by_cases heq : x = h.size
    · rw [if_pos heq, if_pos (show x - h.cells.length = 0 from heq ▸ Nat.sub_self _)]
      rfl
    · have hne : x - h.cells.length ≠ 0 := fun hzero =>
        heq (Nat.le_antisymm (Nat.sub_eq_zero_iff_le.mp hzero) hle)
      rw [if_neg heq, if_neg hne]

section live
variable {h : Heap β} {a : Addr} {b₀ : β}

/-- An assignment allocates nothing. -/
theorem size_put (b : β) : (h.put a b).size = h.size := by
  unfold put size
  dsimp only
  split
  · exact List.length_set
  · rfl

/-- The object at the address is the new one, and the others are as they were. -/
theorem lookup_put (hlive : h.lookup a = some b₀) (b : β) (x : Addr) :
    (h.put a b).lookup x = if x = a then some b else h.lookup x := by
  -- the object is alive, so the assignment takes place
  have hcells : (h.put a b).cells = h.cells.set a (some b) := if_pos (by rw [hlive]; rfl)
  rw [lookup, hcells]
  by_cases hx : x = a
  · subst hx
    rw [List.getElem?_set_self (lt_size_of_lookup hlive), if_pos rfl]
    rfl
  · rw [List.getElem?_set_ne (Ne.symm hx), if_neg hx]
    rfl

/-- A deallocation allocates nothing. -/
theorem size_remove : (h.remove a).size = h.size := by
  unfold remove size
  dsimp only
  split
  · exact List.length_set
  · rfl

/-- The object is the last one freed. -/
theorem freed_remove (hlive : h.lookup a = some b₀) : (h.remove a).freed = h.freed ++ [a] :=
  if_pos (by rw [hlive]; rfl)

/-- The object is gone, and the others are as they were. -/
theorem lookup_remove (hlive : h.lookup a = some b₀) (x : Addr) :
    (h.remove a).lookup x = if x = a then none else h.lookup x := by
  -- the object is alive, so there is something to remove
  have hcells : (h.remove a).cells = h.cells.set a none := if_pos (by rw [hlive]; rfl)
  rw [lookup, hcells]
  by_cases hx : x = a
  · subst hx
    rw [List.getElem?_set_self (lt_size_of_lookup hlive), if_pos rfl]
    rfl
  · rw [List.getElem?_set_ne (Ne.symm hx), if_neg hx]
    rfl

end live

/-! ## Accesses through pointers -/

/-- `*p` -/
def read (h : Heap β) : Ptr → Except Fault β
  | .uninit => .error .uninit
  | .null => .error .null
  | .addr a =>
    match h.lookup a with
    | none => .error .dangling
    | some b => .ok b

/-- `*p = b` -/
def write (h : Heap β) (p : Ptr) (b : β) : Except Fault (Heap β) :=
  match p with
  | .uninit => .error .uninit
  | .null => .error .null
  | .addr a => if (h.lookup a).isSome then .ok (h.put a b) else .error .dangling

/-- The object is deallocated. -/
def free (h : Heap β) (p : Ptr) : Except Fault (Heap β) :=
  match p with
  | .uninit => .error .uninit
  | .null => .error .null
  | .addr a => if (h.lookup a).isSome then .ok (h.remove a) else .error .dangling

/-- An operation on the object. -/
def update (h : Heap β) (p : Ptr) (f : β → Except Fault β) : Except Fault (Heap β) := do
  let b ← h.read p
  let b ← f b
  h.write p b

section live
variable {h : Heap β} {a : Addr} {b : β}

/-- A live object is read. -/
theorem read_of_lookup (hlive : h.lookup a = some b) : h.read (.addr a) = .ok b := by
  simp only [read, hlive]

/-- A live object is written. -/
theorem write_of_lookup (hlive : h.lookup a = some b) (b' : β) :
    h.write (.addr a) b' = .ok (h.put a b') := by
  simp [write, hlive]

/-- An operation that succeeds replaces the object. -/
theorem update_of_lookup (hlive : h.lookup a = some b) {f : β → Except Fault β} {b' : β}
    (hf : f b = .ok b') : h.update (.addr a) f = .ok (h.put a b') := by
  rw [update, read_of_lookup hlive, Except.ok_bind, hf, Except.ok_bind, write_of_lookup hlive]

/-- A live object is deallocated. -/
theorem free_of_lookup (hlive : h.lookup a = some b) :
    h.free (.addr a) = .ok (h.remove a) := by
  simp [free, hlive]

end live

/-! ## What an operation owns -/

/-- The objects at `old` are exchanged for those at `new`, and no other is touched. -/
structure Exchanges (h h' : Heap β) (old new : List Addr) : Prop where
  size : h.size ≤ h'.size
  frame : ∀ x, x ∉ old → x ∉ new → h'.lookup x = h.lookup x
  fresh : ∀ x ∈ new, x ∈ old ∨ h.size ≤ x
  dead : ∀ x ∈ old, x ∉ new → h'.lookup x = none

section exchanges
variable {h h' h'' : Heap β} {old mid new : List Addr}

/-- Nothing is at an address that was not allocated. -/
theorem lookup_of_size_le {x : Addr} (hx : h.size ≤ x) : h.lookup x = none := by
  rw [lookup, List.getElem?_eq_none hx]
  rfl

/-- What was allocated since and is not owned was freed, once. -/
theorem Exchanges.count_freed (hex : Exchanges h h' [] new) {x : Addr} (hx : h.size ≤ x)
    (hlt : x < h'.size) (hnew : x ∉ new) : h'.freed.count x = 1 := by
  refine Heap.count_freed hlt ?_
  rw [hex.frame x List.not_mem_nil hnew]
  exact lookup_of_size_le hx

/-- What is neither owned nor new is as before. -/
theorem Exchanges.lookup_eq (hex : Exchanges h h' old new) {x : Addr} (hold : x ∉ old)
    (hlt : x < h.size) : h'.lookup x = h.lookup x := by
  refine hex.frame x hold fun hnew => ?_
  -- a new object is one of the old ones, or was not there
  rcases hex.fresh x hnew with hx | hx
  · exact hold hx
  · exact absurd hlt (Nat.not_lt.mpr hx)

/-- Nothing is done. -/
theorem Exchanges.refl (h : Heap β) (as : List Addr) : Exchanges h h as as where
  size := Nat.le_refl _
  frame _ _ _ := rfl
  fresh _ hnew := .inl hnew
  dead _ hold hnew := absurd hold hnew

/-- What one operation leaves is what the next one takes. -/
theorem Exchanges.trans (hex : Exchanges h h' old mid) (hex' : Exchanges h' h'' mid new) :
    Exchanges h h'' old new where
  size := Nat.le_trans hex.size hex'.size
  frame x hold hnew := by
    by_cases hmid : x ∈ mid
    · -- allocated by the first, freed by the second
      rw [hex'.dead x hmid hnew]
      exact (lookup_of_size_le ((hex.fresh x hmid).resolve_left hold)).symm
    · -- no object of either
      rw [hex'.frame x hmid hnew, hex.frame x hold hmid]
  fresh x hnew := by
    rcases hex'.fresh x hnew with hmid | hx
    · exact hex.fresh x hmid
    · exact .inr (Nat.le_trans hex.size hx)
  dead x hold hnew := by
    by_cases hmid : x ∈ mid
    · exact hex'.dead x hmid hnew
    · rw [hex'.frame x hmid hnew, hex.dead x hold hmid]

/-- The order of the objects does not matter. -/
theorem Exchanges.congr {old' new' : List Addr} (hex : Exchanges h h' old new)
    (hold : ∀ x, x ∈ old' ↔ x ∈ old) (hnew : ∀ x, x ∈ new' ↔ x ∈ new) :
    Exchanges h h' old' new' where
  size := hex.size
  frame x hx hx' := hex.frame x (mt (hold x).mpr hx) (mt (hnew x).mpr hx')
  fresh x hx := (hex.fresh x ((hnew x).mp hx)).imp_left (hold x).mpr
  dead x hx hx' := hex.dead x ((hold x).mp hx) (mt (hnew x).mpr hx')

/-- More objects may be owned. -/
theorem Exchanges.append (hex : Exchanges h h' old new) (more : List Addr) :
    Exchanges h h' (old ++ more) (new ++ more) where
  size := hex.size
  frame x hold hnew := by
    rw [List.mem_append, not_or] at hold hnew
    exact hex.frame x hold.1 hnew.1
  fresh x hnew := by
    rw [List.mem_append] at hnew ⊢
    rcases hnew with hnew | hmore
    · exact (hex.fresh x hnew).imp_left Or.inl
    · exact .inl (.inr hmore)
  -- what is old and not new is none of the others
  dead x hold hnew := by
    rw [List.mem_append, not_or] at hnew
    exact hex.dead x ((List.mem_append.mp hold).resolve_right hnew.2) hnew.1

/-- An allocation adds one object. -/
theorem exchanges_new (h : Heap β) (b : β) : Exchanges h (h.new b) [] [h.size] where
  size := by simp
  frame x _ hnew := by
    rw [List.mem_singleton] at hnew
    rw [lookup_new, if_neg hnew]
  fresh x hnew := .inr (List.mem_singleton.mp hnew ▸ Nat.le_refl _)
  dead x hold := by cases hold

/-- An assignment keeps the object that it owns. -/
theorem exchanges_put {a : Addr} {b₀ : β} (hlive : h.lookup a = some b₀) (b : β) :
    Exchanges h (h.put a b) [a] [a] where
  size := Nat.le_of_eq (size_put b).symm
  frame x hold _ := by
    rw [List.mem_singleton] at hold
    rw [lookup_put hlive, if_neg hold]
  fresh x hnew := .inl hnew
  dead x hold hnew := absurd hold hnew

/-- One of the objects is replaced. -/
theorem exchanges_put_of_mem {a : Addr} {b₀ : β} {as : List Addr} (hlive : h.lookup a = some b₀)
    (b : β) (ha : a ∈ as) : Exchanges h (h.put a b) as as :=
  ((exchanges_put hlive b).append as).congr
    (fun x => by simpa using fun heq : x = a => heq ▸ ha)
    fun x => by simpa using fun heq : x = a => heq ▸ ha

/-- A deallocation takes one object away. -/
theorem exchanges_remove {a : Addr} {b₀ : β} (hlive : h.lookup a = some b₀) :
    Exchanges h (h.remove a) [a] [] where
  size := Nat.le_of_eq size_remove.symm
  frame x hold _ := by
    rw [List.mem_singleton] at hold
    rw [lookup_remove hlive, if_neg hold]
  fresh x hnew := by cases hnew
  dead x hold _ := by rw [lookup_remove hlive, if_pos (List.mem_singleton.mp hold)]

end exchanges

/-! ## Singly linked lists -/

section chain
variable {link : β → Ptr} {h h' : Heap β} {p : Ptr} {a : Addr} {as : List Addr}

/-- The nodes from `p` on, each of which links the next one, and the last one null. -/
def Chain (link : β → Ptr) (h : Heap β) : Ptr → List Addr → Prop
  | p, [] => p = .null
  | p, a :: as => p = .addr a ∧ ∃ b, h.lookup a = some b ∧ Chain link h (link b) as

/-- The nodes of a list are live. -/
theorem Chain.lookup (hchain : Chain link h p as) (ha : a ∈ as) : ∃ b, h.lookup a = some b := by
  induction as generalizing p with
  | nil => cases ha
  | cons a' as ih =>
    obtain ⟨-, b, hb, hrest⟩ := hchain
    -- the first object, or one behind it
    rcases List.mem_cons.mp ha with rfl | ha
    · exact ⟨b, hb⟩
    · exact ih hrest ha

/-- A pointer starts one list only. -/
theorem Chain.unique {as' : List Addr} (hchain : Chain link h p as) (hchain' : Chain link h p as') :
    as = as' := by
  induction as generalizing p as' with
  | nil =>
    cases as' with
    | nil => rfl
    | cons a' as' =>
      cases hchain.symm.trans hchain'.1
  | cons a as ih =>
    cases as' with
    | nil => cases hchain.1.symm.trans hchain'
    | cons a' as' =>
      obtain ⟨rfl, b, hb, hrest⟩ := hchain
      -- the first node is the same, and so is its link
      obtain ⟨hp, b', hb', hrest'⟩ := hchain'
      cases hp
      obtain rfl := Option.some.inj (hb.symm.trans hb')
      rw [ih hrest hrest']

/-- A node of a list starts the rest of it. -/
theorem Chain.suffix {pre post : List Addr} (hchain : Chain link h p (pre ++ a :: post)) :
    Chain link h (.addr a) (a :: post) := by
  -- induction on the part of the chain in front
  induction pre generalizing p with
  | nil =>
    obtain ⟨rfl, hrest⟩ := hchain
    exact ⟨rfl, hrest⟩
  | cons a' pre ih =>
    obtain ⟨-, b, -, hrest⟩ := hchain
    exact ih hrest

/-- A list that ends comes to no node twice. -/
theorem Chain.nodup (hchain : Chain link h p as) : as.Nodup := by
  induction as generalizing p with
  | nil => exact List.nodup_nil
  | cons a as ih =>
    obtain ⟨rfl, b, hb, hrest⟩ := hchain
    refine List.nodup_cons.mpr ⟨fun hmem => ?_, ih hrest⟩
    -- the rest of the list from there on would be as long as all of it
    obtain ⟨pre, post, rfl⟩ := List.append_of_mem hmem
    have hwhole : Chain link h (.addr a) (a :: (pre ++ a :: post)) := ⟨rfl, b, hb, hrest⟩
    have hsame := hwhole.unique hrest.suffix
    have hlength := congrArg List.length hsame
    simp only [List.length_cons, List.length_append] at hlength
    omega

/-- A list has no more nodes than were allocated. -/
theorem Chain.length_le (hchain : Chain link h p as) : as.length ≤ h.size := by
  -- the nodes are distinct addresses below the size
  have hsub : as ⊆ List.range h.size := fun a ha => by
    obtain ⟨b, hb⟩ := hchain.lookup ha
    exact List.mem_range.mpr (lt_size_of_lookup hb)
  have hlength := (List.subperm_of_subset hchain.nodup hsub).length_le
  rwa [List.length_range] at hlength

/-- Other objects play no part. -/
theorem Chain.of_agree (hchain : Chain link h p as)
    (hagree : ∀ x ∈ as, h'.lookup x = h.lookup x) : Chain link h' p as := by
  induction as generalizing p with
  | nil => exact hchain
  | cons a as ih =>
    obtain ⟨rfl, b, hb, hrest⟩ := hchain
    -- the first object, then the rest of the chain
    refine ⟨rfl, b, ?_, ih hrest fun x hx => hagree x (List.mem_cons_of_mem a hx)⟩
    rw [hagree a List.mem_cons_self]
    exact hb

/-- What follows a node is replaced. -/
theorem Chain.append_of_agree {b : β} {pre post post' : List Addr}
    (hchain : Chain link h p (pre ++ a :: post)) (hagree : ∀ x ∈ pre, h'.lookup x = h.lookup x)
    (hlast : h'.lookup a = some b) (hpost : Chain link h' (link b) post') :
    Chain link h' p (pre ++ a :: post') := by
  -- induction on the part of the chain that stays
  induction pre generalizing p with
  | nil => exact ⟨hchain.1, b, hlast, hpost⟩
  | cons a' pre ih =>
    obtain ⟨rfl, b', hb', hrest⟩ := hchain
    refine ⟨rfl, b', ?_, ih hrest fun x hx => hagree x (List.mem_cons_of_mem a' hx)⟩
    rw [hagree a' List.mem_cons_self]
    exact hb'

end chain

end Heap
