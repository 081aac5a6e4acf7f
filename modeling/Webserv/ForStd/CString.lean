import Webserv.ForStd.Heap

/-!
# C strings in arrays of characters

An array of `char` as it comes from `new char[n]`, with every access checked: a
character that was not initialised is not read, and none is written outside the
array.

## Key results

- `store_uninit`: the empty string is put into a new array
- `strcat_holding`: a string is appended if the rest of the array has room for it
-/

namespace CString

open Heap (Fault)

/-- The characters of an array; `none` was not initialised. -/
abbrev CharArray := List (Option UInt8)

/-- The character that ends a string. -/
def terminator : UInt8 := 0

/-- `new char[n]` -/
def uninit (n : ℕ) : CharArray := List.replicate n none

/-- The string at the start of the array, without its terminator. -/
def read : CharArray → Except Fault (List UInt8)
  | [] => .error .outOfBounds
  | none :: _ => .error .uninit
  | some c :: rest => if c = terminator then .ok [] else (c :: ·) <$> read rest

/-- `array[pos] = c` -/
def store (array : CharArray) (pos : ℕ) (c : UInt8) : Except Fault CharArray :=
  if pos < array.length then .ok (array.set pos (some c)) else .error .outOfBounds

/-- Characters are written one after the other, from `pos` on. -/
def storeAll (array : CharArray) (pos : ℕ) : List UInt8 → Except Fault CharArray
  | [] => .ok array
  | c :: cs => do
    let array ← store array pos c
    storeAll array (pos + 1) cs

/-- `strcat(array, src)`, for a string `src` without its terminator. -/
def strcat (array : CharArray) (src : List UInt8) : Except Fault CharArray := do
  let s ← read array
  storeAll array s.length (src ++ [terminator])

/-- An array that holds a string, with room for `spare` characters behind it. -/
def holding (s : List UInt8) (spare : ℕ) : CharArray :=
  s.map some ++ some terminator :: uninit spare

/-- The string, its terminator, and what is spare. -/
@[simp] theorem length_holding (s : List UInt8) (spare : ℕ) :
    (holding s spare).length = s.length + 1 + spare := by
  simp only [holding, uninit, List.length_append, List.length_map, List.length_cons,
    List.length_replicate]
  omega

/-- The empty string is put into a new array. -/
theorem store_uninit (n : ℕ) : store (uninit (n + 1)) 0 terminator = .ok (holding [] n) := by
  simp [store, uninit, holding, List.replicate_succ]

variable {s : List UInt8}

/-- The string is read back up to its terminator. -/
theorem read_holding (hs : terminator ∉ s) (spare : ℕ) : read (holding s spare) = .ok s := by
  induction s with
  | nil => simp [holding, read]
  | cons c s ih =>
    rw [List.mem_cons, not_or] at hs
    rw [holding, List.map_cons, List.cons_append, read, if_neg (Ne.symm hs.1), ← holding, ih hs.2]
    rfl

/-- What is behind the characters is overwritten. -/
theorem storeAll_append (pre rest : CharArray) {cs : List UInt8} (hcs : cs.length ≤ rest.length) :
    storeAll (pre ++ rest) pre.length cs = .ok (pre ++ cs.map some ++ rest.drop cs.length) := by
  induction cs generalizing pre rest with
  | nil => simp [storeAll]
  | cons c cs ih =>
    cases rest with
    | nil => simp at hcs
    | cons r rest =>
      -- the first character lengthens the part in front
      have hset : (pre ++ r :: rest).set pre.length (some c) = (pre ++ [some c]) ++ rest := by
        simp
      have hlt : pre.length < (pre ++ r :: rest).length := by simp
      have hlength : pre.length + 1 = (pre ++ [some c]).length := by simp
      rw [storeAll, store, if_pos hlt, Except.ok_bind, hset, hlength,
        ih _ _ (Nat.le_of_succ_le_succ hcs)]
      simp

/-- A string is appended in place if what is spare suffices for it. -/
theorem strcat_holding (hs : terminator ∉ s) {src : List UInt8} {spare : ℕ}
    (hsrc : src.length ≤ spare) :
    strcat (holding s spare) src = .ok (holding (s ++ src) (spare - src.length)) := by
  have hlength : s.length = (s.map some).length := (List.length_map some).symm
  -- the old terminator is overwritten, so one character more has room
  have hroom : (src ++ [terminator]).length ≤ (some terminator :: uninit spare).length := by
    simpa [uninit] using hsrc
  rw [strcat, read_holding hs, Except.ok_bind, holding, hlength, storeAll_append _ _ hroom]
  simp [holding, uninit]

end CString
