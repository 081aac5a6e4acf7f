import Mathlib.Data.List.Forall2
import Mathlib.Data.List.TakeWhile
import Webserv.ForStd.List
import Webserv.Native.CgiEnv

/-!
# The environment block says what the headers say

Every buffer is as long as the string that is put together in it needs, so no
write goes outside, and the block that results is freed again.

## Key results

- `addItem_spec`, `addItems_spec`: what the loop leaves
- `clearEnv_filled`: what is freed
- `envFromHeaders_spec`: the block, and `clear_env` on it
-/

namespace Webserv.Cgi

open CString (holding)
open Heap (Addr Ptr Exchanges)
open Http (Headers)

/-! ## Entries -/

/-- What the entry of a header says. -/
def entry (item : Bytes × Bytes) : Bytes := cStr item.1 ++ ascii "=" ++ cStr item.2

/-- The buffer of an entry, with what is left over if there are NULs in the header. -/
def entryArray (item : Bytes × Bytes) : CString.CharArray :=
  holding (entry item) (item.1.length + item.2.length + 1 - (entry item).length)

/-- The text between a name and its value is one character. -/
theorem ascii_equals : ascii "=" = [Byte.equals] := by decide +kernel

/-- A C string is not longer than the string. -/
theorem length_cStr_le (s : Bytes) : (cStr s).length ≤ s.length :=
  (List.takeWhile_prefix _).length_le

/-- A C string ends in front of the first NUL. -/
theorem nul_not_mem_cStr (s : Bytes) : Byte.nul ∉ cStr s := by
  intro hmem
  rw [cStr] at hmem
  simpa using List.mem_takeWhile_imp hmem

/-- Without a NUL the whole string is read. -/
theorem cStr_eq_self {s : Bytes} (h : Byte.nul ∉ s) : cStr s = s :=
  List.takeWhile_eq_self_iff.mpr fun _ hc => decide_eq_true fun heq => h (heq ▸ hc)

/-- An entry fits into its buffer, with room for the terminator. -/
theorem length_entry_le (item : Bytes × Bytes) :
    (entry item).length ≤ item.1.length + item.2.length + 1 := by
  have hname := length_cStr_le item.1
  have hvalue := length_cStr_le item.2
  rw [entry, ascii_equals]
  simp only [List.length_append, List.length_singleton]
  omega

/-- An entry is one C string. -/
theorem nul_not_mem_entry (item : Bytes × Bytes) : Byte.nul ∉ entry item := by
  have hequals : Byte.nul ≠ Byte.equals := by decide
  simp [entry, ascii_equals, nul_not_mem_cStr, hequals]

/-- The buffer has the size it was allocated with. -/
theorem length_entryArray (item : Bytes × Bytes) :
    (entryArray item).length = item.1.length + item.2.length + 2 := by
  have hle := length_entry_le item
  rw [entryArray, CString.length_holding]
  omega

/-- The buffer is read as the entry. -/
theorem read_entryArray (item : Bytes × Bytes) :
    CString.read (entryArray item) = .ok (entry item) :=
  CString.read_holding (nul_not_mem_entry item) _

/-- The first `=` ends the name. -/
theorem cutAt_entry {item : Bytes × Bytes} (hequals : Byte.equals ∉ item.1)
    (hname : Byte.nul ∉ item.1) (hvalue : Byte.nul ∉ item.2) :
    List.cutAt Byte.equals (entry item) = some item := by
  rw [entry, cStr_eq_self hname, cStr_eq_self hvalue, ascii_equals, List.append_assoc]
  exact List.cutAt_append_cons item.2 hequals

/-! ## One entry -/

/-- The heap has one more array. -/
structure Buffered (h h' : Heap CString.CharArray) (x : Addr) (array : CString.CharArray) :
    Prop where
  exchanges : Exchanges h h' [] [x]
  freed : h'.freed = h.freed
  size : h'.size = h.size + 1
  lookup : h'.lookup x = some array

section item
variable {h : Heap CString.CharArray} {m : Memory} {a x : Addr} {ptrs : List Ptr} {i : ℕ}

/-- A new buffer. -/
theorem buffered_new (h : Heap CString.CharArray) (array : CString.CharArray) :
    Buffered h (h.new array) h.size array where
  exchanges := Heap.exchanges_new h array
  freed := rfl
  size := Heap.size_new h array
  lookup := (Heap.lookup_new h array h.size).trans (if_pos rfl)

/-- The buffer is written, and nothing else is. -/
theorem Buffered.put {h' : Heap CString.CharArray} {array : CString.CharArray}
    (hb : Buffered h h' x array) (array' : CString.CharArray) :
    Buffered h (h'.put x array') x array' where
  exchanges := hb.exchanges.trans (Heap.exchanges_put hb.lookup array')
  freed := hb.freed
  size := (Heap.size_put array').trans hb.size
  lookup := (Heap.lookup_put hb.lookup array' x).trans (if_pos rfl)

/-- `env[i] = p` inside the array. -/
theorem setEnv_of_lookup (henv : m.envs.lookup a = some ptrs) (hi : i < ptrs.length) (p : Ptr) :
    m.setEnv (.addr a) i p = .ok { m with envs := m.envs.put a (ptrs.set i p) } := by
  rw [Memory.setEnv, Heap.update_of_lookup henv (if_pos hi)]
  rfl

/-- `env[i]` inside the array. -/
theorem getEnv_of_lookup {p : Ptr} (henv : m.envs.lookup a = some ptrs) (hp : ptrs[i]? = some p) :
    m.getEnv (.addr a) i = .ok p := by
  rw [Memory.getEnv, Heap.read_of_lookup henv, Except.ok_bind, hp]
  rfl

/-- The buffer is made the empty string. -/
theorem setChar_buffered {n : ℕ} (hb : Buffered h m.chars x (CString.uninit (n + 1))) :
    ∃ m', m.setChar (.addr x) 0 Byte.nul = .ok m' ∧ m'.envs = m.envs ∧
      Buffered h m'.chars x (holding [] n) := by
  have hstore : CString.store (CString.uninit (n + 1)) 0 Byte.nul = .ok (holding [] n) :=
    CString.store_uninit n
  refine ⟨{ m with chars := m.chars.put x (holding [] n) }, ?_, rfl, hb.put _⟩
  rw [Memory.setChar, Heap.update_of_lookup hb.lookup hstore]
  rfl

/-- The string is appended if the buffer has room for it. -/
theorem strcat_buffered {s : Bytes} {spare : ℕ} (hb : Buffered h m.chars x (holding s spare))
    (hs : Byte.nul ∉ s) (src : Bytes) (hsrc : (cStr src).length ≤ spare) :
    ∃ m', m.strcat (.addr x) src = .ok m' ∧ m'.envs = m.envs ∧
      Buffered h m'.chars x (holding (s ++ cStr src) (spare - (cStr src).length)) := by
  refine ⟨{ m with chars := m.chars.put x _ }, ?_, rfl, hb.put _⟩
  rw [Memory.strcat, Heap.update_of_lookup hb.lookup (CString.strcat_holding hs hsrc)]
  rfl

/-- The buffer of a header is new, and the three strings are put together in it. -/
theorem addItem_spec (henv : m.envs.lookup a = some ptrs) (hi : i < ptrs.length)
    (item : Bytes × Bytes) : ∃ m', addItem (.addr a) i item m = .ok m' ∧
      m'.envs = m.envs.put a (ptrs.set i (.addr m.chars.size)) ∧
      Buffered m.chars m'.chars m.chars.size (entryArray item) := by
  -- `env[i]` is read again and again
  have hget : ∀ {m' : Memory}, m'.envs = m.envs.put a (ptrs.set i (.addr m.chars.size)) →
      m'.getEnv (.addr a) i = .ok (.addr m.chars.size) := by
    intro m' hsame
    have hlookup : m'.envs.lookup a = some (ptrs.set i (.addr m.chars.size)) := by
      rw [hsame, Heap.lookup_put henv, if_pos rfl]
    exact getEnv_of_lookup hlookup (by simp [hi])
  -- what the two strings need is what was allocated
  have hname := length_cStr_le item.1
  have hvalue := length_cStr_le item.2
  have hequals : cStr (ascii "=") = [Byte.equals] := by decide +kernel
  have hnul : Byte.nul ≠ Byte.equals := by decide
  obtain ⟨m₀, hset, henvs₀, hb₀⟩ : ∃ m₀,
      Memory.setEnv ⟨m.chars.new (CString.uninit (item.1.length + item.2.length + 2)), m.envs⟩
        (.addr a) i (.addr m.chars.size) = .ok m₀ ∧
      m₀.envs = m.envs.put a (ptrs.set i (.addr m.chars.size)) ∧
      Buffered m.chars m₀.chars m.chars.size
        (CString.uninit (item.1.length + item.2.length + 2)) :=
    ⟨⟨m.chars.new _, _⟩, setEnv_of_lookup (m := ⟨m.chars.new _, m.envs⟩) henv hi _, rfl,
      buffered_new _ _⟩
  -- after every statement `env[i]` is the buffer, and the string in it has grown
  obtain ⟨m₁, hchar, henvs₁, hb₁⟩ := setChar_buffered hb₀
  have henvs₁ := henvs₁.trans henvs₀
  obtain ⟨m₂, hcat₁, henvs₂, hb₂⟩ := strcat_buffered hb₁ (by simp) item.1 (by omega)
  obtain ⟨m₃, hcat₂, henvs₃, hb₃⟩ := strcat_buffered hb₂ (by simp [nul_not_mem_cStr]) (ascii "=")
    (by rw [hequals, List.length_singleton]; omega)
  obtain ⟨m₄, hcat₃, henvs₄, hb₄⟩ := strcat_buffered hb₃
    (by simp [nul_not_mem_cStr, hequals, hnul]) item.2
    (by rw [hequals, List.length_singleton]; omega)
  have henvs₂ := henvs₂.trans henvs₁
  have henvs₃ := henvs₃.trans henvs₂
  refine ⟨m₄, ?_, henvs₄.trans henvs₃, ?_⟩
  · rw [addItem]
    dsimp only [Memory.newChars]
    rw [hset, Except.ok_bind, hget henvs₀, Except.ok_bind, hchar, Except.ok_bind, hget henvs₁,
      Except.ok_bind, hcat₁, Except.ok_bind, hget henvs₂, Except.ok_bind, hcat₂, Except.ok_bind,
      hget henvs₃, Except.ok_bind, hcat₃]
  · have hentry : [] ++ cStr item.1 ++ cStr (ascii "=") ++ cStr item.2 = entry item := by
      rw [entry, hequals, ascii_equals]
      rfl
    -- the spare room is what the arithmetic of the three strings leaves
    have hlength : (entry item).length = (cStr item.1).length + (1 + (cStr item.2).length) := by
      rw [entry, ascii_equals, List.length_append, List.length_append, List.length_singleton,
        Nat.add_assoc]
    rw [hentry, hequals, List.length_singleton, Nat.sub_sub, Nat.sub_sub, ← hlength] at hb₄
    exact hb₄

end item

/-! ## All entries -/

/-- The block is filled up: the buffers are new, and each says what its header says. -/
structure Filled (m m' : Memory) (a : Addr) (before : List Ptr) (items : List (Bytes × Bytes))
    (buffers : List Addr) : Prop where
  env : m'.envs.lookup a = some (before ++ buffers.map .addr ++ [.null])
  envExchanges : Exchanges m.envs m'.envs [a] [a]
  envFreed : m'.envs.freed = m.envs.freed
  exchanges : Exchanges m.chars m'.chars [] buffers
  freed : m'.chars.freed = m.chars.freed
  nodup : buffers.Nodup
  holds : List.Forall₂ (fun x item => m'.chars.lookup x = some (entryArray item)) buffers items

/-- Each buffer is the one of a header. -/
theorem Filled.exists_item {m m' : Memory} {a x : Addr} {before : List Ptr}
    {items : List (Bytes × Bytes)} {buffers : List Addr}
    (h : Filled m m' a before items buffers) (hx : x ∈ buffers) :
    ∃ item, m'.chars.lookup x = some (entryArray item) := by
  obtain ⟨i, hi, rfl⟩ := List.mem_iff_getElem.mp hx
  exact ⟨_, h.holds.get hi (h.holds.length_eq ▸ hi)⟩

/-- The loop over the headers fills up the array and ends it with `NULL`. -/
theorem addItems_spec {a : Addr} (items : List (Bytes × Bytes)) {m : Memory} {before : List Ptr}
    (henv : m.envs.lookup a = some (before ++ List.replicate (items.length + 1) .uninit)) :
    ∃ m' buffers, addItems (.addr a) before.length items m = .ok m' ∧
      Filled m m' a before items buffers := by
  induction items generalizing m before with
  | nil =>
    -- behind the last header the `NULL` is written
    have hset : (before ++ [Ptr.uninit]).set before.length .null = before ++ [.null] := by simp
    refine ⟨_, [], setEnv_of_lookup henv (by simp) .null, ?_, ?_, rfl, .refl _ _, rfl,
      List.nodup_nil, .nil⟩
    · rw [Heap.lookup_put henv, if_pos rfl, List.map_nil, List.append_nil, ← hset]
      rfl
    · exact Heap.exchanges_put henv _
  | cons item items ih =>
    obtain ⟨m₁, hitem, henvs₁, hb⟩ := addItem_spec (i := before.length) henv (by simp) item
    -- the array in front of the next header is longer by this one
    have hset : (before ++ List.replicate (items.length + 1 + 1) Ptr.uninit).set before.length
        (.addr m.chars.size) =
        before ++ [.addr m.chars.size] ++ List.replicate (items.length + 1) .uninit := by
      simp [List.replicate_succ]
    have henv₁ : m₁.envs.lookup a =
        some (before ++ [.addr m.chars.size] ++ List.replicate (items.length + 1) .uninit) := by
      rw [henvs₁, Heap.lookup_put henv, if_pos rfl, ← hset]
      rfl
    obtain ⟨m', buffers, hitems, hfilled⟩ := ih henv₁
    have hexchanges := hb.exchanges.trans (hfilled.exchanges.append [m.chars.size])
    -- the later buffers are newer
    have hnew : m.chars.size ∉ buffers := fun hmem => by
      have hlt := (hfilled.exchanges.fresh _ hmem).resolve_left List.not_mem_nil
      rw [hb.size] at hlt
      omega
    refine ⟨m', m.chars.size :: buffers, ?_, ?_, ?_, ?_, ?_, ?_, ?_, ?_⟩
    · rw [addItems, hitem, Except.ok_bind, ← hitems, List.length_append, List.length_singleton]
    · rw [hfilled.env]
      simp
    · exact (henvs₁ ▸ Heap.exchanges_put henv _).trans hfilled.envExchanges
    · rw [hfilled.envFreed, henvs₁]
      rfl
    · exact hexchanges.congr (fun _ => Iff.rfl) fun x => by simp [or_comm]
    · rw [hfilled.freed, hb.freed]
    · exact List.nodup_cons.mpr ⟨hnew, hfilled.nodup⟩
    · refine .cons ?_ hfilled.holds
      -- the later headers leave this buffer alone
      rw [hfilled.exchanges.frame _ List.not_mem_nil hnew]
      exact hb.lookup

/-! ## Freeing the block -/

/-- The loop of `clear_env` frees the buffers in front of the `NULL`. -/
theorem clearLoop_spec {buffers : List Addr} {m : Memory} (hnodup : buffers.Nodup)
    (hlive : ∀ x ∈ buffers, ∃ array, m.chars.lookup x = some array) :
    ∃ m', clearLoop (buffers.map .addr ++ [.null]) m = .ok m' ∧ m'.envs = m.envs ∧
      m'.chars.freed = m.chars.freed ++ buffers ∧ Exchanges m.chars m'.chars buffers [] ∧
      m'.chars.size = m.chars.size := by
  -- the loop stops at the `NULL`, and no buffer is another one again
  induction buffers generalizing m with
  | nil => exact ⟨m, rfl, rfl, (List.append_nil _).symm, .refl _ _, rfl⟩
  | cons x buffers ih =>
    obtain ⟨hnot, hrest⟩ := List.nodup_cons.mp hnodup
    obtain ⟨array, harray⟩ := hlive x List.mem_cons_self
    -- the buffers behind this one are still live
    have hlive' : ∀ y ∈ buffers, ∃ array, (m.chars.remove x).lookup y = some array := by
      intro y hy
      have hne : y ≠ x := fun heq => hnot (heq ▸ hy)
      rw [Heap.lookup_remove harray, if_neg hne]
      exact hlive y (List.mem_cons_of_mem x hy)
    obtain ⟨m', hclear, henvs, hfreed, hexchanges, hsize⟩ :=
      ih (m := { m with chars := m.chars.remove x }) hrest hlive'
    refine ⟨m', ?_, henvs, ?_, ?_, hsize.trans Heap.size_remove⟩
    · rw [List.map_cons, List.cons_append, clearLoop, Heap.Ptr.eq_addr_null, Except.ok_bind,
        if_neg Bool.false_ne_true, Heap.free_of_lookup harray, Except.ok_bind, hclear]
    · rw [hfreed, Heap.freed_remove harray, List.append_assoc, List.singleton_append]
    · exact ((Heap.exchanges_remove harray).append buffers).trans hexchanges

/-! ## The block -/

/-- The entries in front of the `NULL`, as the program that is started finds them. -/
def readEntries (m : Memory) : List Ptr → Except Heap.Fault (List Bytes)
  | [] => .error .outOfBounds
  | p :: ptrs => do
    if ← p.eq .null then
      return []
    else
      let array ← m.chars.read p
      let e ← CString.read array
      let es ← readEntries m ptrs
      return e :: es

/-- The program that is started finds all entries. -/
theorem readEntries_filled {m : Memory} {buffers : List Addr} {items : List (Bytes × Bytes)}
    (h : List.Forall₂ (fun x item => m.chars.lookup x = some (entryArray item)) buffers items) :
    readEntries m (buffers.map .addr ++ [.null]) = .ok (items.map entry) := by
  induction h with
  | nil => rfl
  | cons hhead _ ih =>
    rw [List.map_cons, List.cons_append, readEntries, Heap.Ptr.eq_addr_null, Except.ok_bind,
      if_neg Bool.false_ne_true, Heap.read_of_lookup hhead, Except.ok_bind, read_entryArray,
      Except.ok_bind, ih, Except.ok_bind]
    rfl

/-- The buffers and the array are freed, each of them once. -/
theorem clearEnv_filled {m m' : Memory} {a : Addr} {items : List (Bytes × Bytes)}
    {buffers : List Addr} (h : Filled m m' a [] items buffers) : ∃ m'',
      clearEnv (.addr a) m' = .ok m'' ∧
      m''.chars.freed = m.chars.freed ++ buffers ∧ m''.envs.freed = m.envs.freed ++ [a] ∧
      (∀ x ∈ buffers, m''.chars.freed.count x = 1) ∧ m''.envs.freed.count a = 1 ∧
      Exchanges m.chars m''.chars [] [] ∧ Exchanges m.envs m''.envs [a] [] := by
  have hlookup : m'.envs.lookup a = some (buffers.map .addr ++ [.null]) := h.env
  have hlive : ∀ x ∈ buffers, ∃ array, m'.chars.lookup x = some array := by
    intro x hx
    obtain ⟨item, hitem⟩ := h.exists_item hx
    exact ⟨_, hitem⟩
  obtain ⟨m₁, hclear, henvs, hfreed, hexchanges, -⟩ := clearLoop_spec h.nodup hlive
  have hlookup₁ : m₁.envs.lookup a = some (buffers.map .addr ++ [.null]) := henvs ▸ hlookup
  have hchars : m₁.chars.freed = m.chars.freed ++ buffers := by rw [hfreed, h.freed]
  -- the array is freed behind its buffers
  have henvFreed : (m₁.envs.remove a).freed = m.envs.freed ++ [a] := by
    rw [Heap.freed_remove hlookup₁, henvs, h.envFreed]
  refine ⟨{ m₁ with envs := m₁.envs.remove a }, ?_, hchars, henvFreed, fun x hx => ?_, ?_,
    h.exchanges.trans hexchanges, ?_⟩
  · rw [clearEnv, Heap.read_of_lookup hlookup, Except.ok_bind, hclear, Except.ok_bind,
      Heap.free_of_lookup hlookup₁]
    rfl
  · -- nothing is freed twice
    have hmem : x ∈ m₁.chars.freed := hchars ▸ List.mem_append_right _ hx
    exact List.count_eq_one_of_mem m₁.chars.nodup_freed hmem
  · have hmem : a ∈ (m₁.envs.remove a).freed :=
      henvFreed ▸ List.mem_append_right _ (List.mem_singleton_self a)
    exact List.count_eq_one_of_mem (m₁.envs.remove a).nodup_freed hmem
  · have hremove := Heap.exchanges_remove hlookup₁
    rw [henvs] at hremove
    exact h.envExchanges.trans (henvs ▸ hremove)

/-- The block has an entry for every header and then `NULL`.  Each is in a buffer of its own,
    of the size the name and the value need, and says what they say; if there is no `=` in a
    name and no NUL, the headers can be read off.  `clear_env` frees all of it once. -/
theorem envFromHeaders_spec (headers : Headers) (m : Memory) : ∃ a buffers m',
    envFromHeaders headers m = .ok (.addr a, m') ∧
    m'.envs.lookup a = some (buffers.map .addr ++ [.null]) ∧
    buffers.length = headers.entries.length ∧ buffers.Nodup ∧
    List.Forall₂ (fun x item => ∃ array, m'.chars.lookup x = some array ∧
      array.length = item.1.length + item.2.length + 2 ∧
      CString.read array = .ok (entry item)) buffers headers.entries ∧
    readEntries m' (buffers.map .addr ++ [.null]) = .ok (headers.entries.map entry) ∧
    ((∀ item ∈ headers.entries, Byte.equals ∉ item.1 ∧ Byte.nul ∉ item.1 ∧ Byte.nul ∉ item.2) →
      (headers.entries.map entry).map (List.cutAt Byte.equals) = headers.entries.map some) ∧
    ∃ m'', clearEnv (.addr a) m' = .ok m'' ∧
      m''.chars.freed = m.chars.freed ++ buffers ∧ m''.envs.freed = m.envs.freed ++ [a] ∧
      (∀ x ∈ buffers, m''.chars.freed.count x = 1) ∧ m''.envs.freed.count a = 1 ∧
      Exchanges m.chars m''.chars [] [] ∧ Exchanges m.envs m''.envs [] [] := by
  -- the array is new, and has a place more than there are headers
  have henv : (m.envs.new (List.replicate (headers.entries.length + 1) .uninit)).lookup
      m.envs.size = some ([] ++ List.replicate (headers.entries.length + 1) .uninit) :=
    (Heap.lookup_new _ _ _).trans (if_pos rfl)
  obtain ⟨m', buffers, hitems, hfilled⟩ :=
    addItems_spec (m := ⟨m.chars, m.envs.new _⟩) headers.entries henv
  obtain ⟨m'', hclear, hfreed, henvFreed, hcount, henvCount, hexchanges, henvExchanges⟩ :=
    clearEnv_filled hfilled
  refine ⟨m.envs.size, buffers, m', ?_, hfilled.env, hfilled.holds.length_eq, hfilled.nodup, ?_,
    readEntries_filled hfilled.holds, fun hplain => ?_, m'', hclear, hfreed, henvFreed, hcount,
    henvCount, hexchanges, (Heap.exchanges_new m.envs _).trans henvExchanges⟩
  · rw [envFromHeaders]
    dsimp only [Memory.newEnv]
    rw [← List.length_nil (α := Ptr), hitems]
    rfl
  · exact hfilled.holds.imp fun x item hitem =>
      ⟨_, hitem, length_entryArray item, read_entryArray item⟩
  · -- an entry is split where the name ends
    rw [List.map_map]
    refine List.map_congr_left fun item hitem => ?_
    obtain ⟨hequals, hname, hvalue⟩ := hplain item hitem
    exact cutAt_entry hequals hname hvalue

/-- The headers `A: b=c` and `D: e`. -/
def twoHeaders : Headers :=
  ((∅ : Headers).insert (ascii "A") (ascii "b=c")).insert (ascii "D") (ascii "e")

/-- Two entries are written, can be split at their first `=`, and are freed with the array. -/
theorem envFromHeaders_spec_twoHeaders : ∃ a x y m' m'',
    envFromHeaders twoHeaders {} = .ok (.addr a, m') ∧
    m'.envs.lookup a = some [.addr x, .addr y, .null] ∧ x ≠ y ∧
    readEntries m' [.addr x, .addr y, .null] = .ok [ascii "A=b=c", ascii "D=e"] ∧
    [ascii "A=b=c", ascii "D=e"].map (List.cutAt Byte.equals) =
      [some (ascii "A", ascii "b=c"), some (ascii "D", ascii "e")] ∧
    clearEnv (.addr a) m' = .ok m'' ∧ m''.chars.freed = [x, y] ∧ m''.envs.freed = [a] := by
  obtain ⟨a, buffers, m', hok, henv, hlength, hnodup, -, hread, hsplit, m'', hclear, hfreed,
    henvFreed, -⟩ := envFromHeaders_spec twoHeaders {}
  have hentries : twoHeaders.entries.map entry = [ascii "A=b=c", ascii "D=e"] := by decide +kernel
  have htwo : buffers.length = 2 := hlength.trans (by decide +kernel)
  obtain ⟨x, y, rfl⟩ := List.length_eq_two.mp htwo
  -- neither name holds an equals sign, so each entry is cut behind it
  have hplain := hsplit (by decide +kernel)
  rw [hentries] at hread hplain
  refine ⟨a, x, y, m', m'', hok, henv, ?_, hread, hplain.trans (by decide +kernel), hclear, hfreed,
    henvFreed⟩
  simpa using hnodup

end Webserv.Cgi
