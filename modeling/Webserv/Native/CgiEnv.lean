import Webserv.ForStd.CString
import Webserv.Native.HttpMessage

/-!
# The environment of a CGI program

`env_from_headers` and `clear_env`, on the arrays they allocate.  Every access
is checked against the array it goes to.
-/

namespace Webserv.Cgi

open Heap (Ptr)
open Http (Headers)

/-- The arrays of type `char[]`, and those of type `char *[]`. -/
structure Memory where
  chars : Heap CString.CharArray := {}
  envs : Heap (List Ptr) := {}

namespace Memory

/-- `new char[n]` -/
def newChars (m : Memory) (n : ℕ) : Ptr × Memory :=
  (.addr m.chars.size, { m with chars := m.chars.new (CString.uninit n) })

/-- `new char*[n]` -/
def newEnv (m : Memory) (n : ℕ) : Ptr × Memory :=
  (.addr m.envs.size, { m with envs := m.envs.new (List.replicate n .uninit) })

/-- `env[i]` -/
def getEnv (m : Memory) (env : Ptr) (i : ℕ) : Except Heap.Fault Ptr := do
  let ptrs ← m.envs.read env
  match ptrs[i]? with
  | none => throw .outOfBounds
  | some p => return p

/-- `env[i] = p` -/
def setEnv (m : Memory) (env : Ptr) (i : ℕ) (p : Ptr) : Except Heap.Fault Memory := do
  let envs ← m.envs.update env fun ptrs =>
    if i < ptrs.length then .ok (ptrs.set i p) else .error .outOfBounds
  return { m with envs := envs }

/-- `p[pos] = c` -/
def setChar (m : Memory) (p : Ptr) (pos : ℕ) (c : UInt8) : Except Heap.Fault Memory := do
  let chars ← m.chars.update p fun array => CString.store array pos c
  return { m with chars := chars }

/-- `std::strcat(p, s.c_str())` -/
def strcat (m : Memory) (p : Ptr) (s : Bytes) : Except Heap.Fault Memory := do
  let chars ← m.chars.update p fun array => CString.strcat array (cStr s)
  return { m with chars := chars }

end Memory

/-- The body of the loop over `headers`. -/
def addItem (env : Ptr) (i : ℕ) (item : Bytes × Bytes) (m : Memory) : Except Heap.Fault Memory := do
  -- two more, for the equals sign and the end of the string
  let (buffer, m) := m.newChars (item.1.length + item.2.length + 2)
  let m ← m.setEnv env i buffer
  -- `strcat` looks for the end of what is there
  let m ← m.setChar (← m.getEnv env i) 0 Byte.nul
  let m ← m.strcat (← m.getEnv env i) item.1
  let m ← m.strcat (← m.getEnv env i) (ascii "=")
  m.strcat (← m.getEnv env i) item.2

/-- The loop from `i` on, and the statement behind it. -/
def addItems (env : Ptr) : (i : ℕ) → List (Bytes × Bytes) → Memory → Except Heap.Fault Memory
  | i, [], m => m.setEnv env i .null
  | i, item :: items, m => do
    let m ← addItem env i item m
    addItems env (i + 1) items m

/-- `env_from_headers` -/
def envFromHeaders (headers : Headers) (m : Memory) : Except Heap.Fault (Ptr × Memory) := do
  let (env, m) := m.newEnv (headers.entries.length + 1)
  let m ← addItems env 0 headers.entries m
  return (env, m)

/-- The loop of `clear_env` on what is left of the array, to which nothing is written. -/
def clearLoop : List Ptr → Memory → Except Heap.Fault Memory
  | [], _ => .error .outOfBounds
  | p :: ptrs, m => do
    -- the loop has no count and stops at the null pointer
    if ← p.eq .null then
      return m
    else
      let chars ← m.chars.free p
      clearLoop ptrs { m with chars := chars }

/-- `clear_env` -/
def clearEnv (env : Ptr) (m : Memory) : Except Heap.Fault Memory := do
  let ptrs ← m.envs.read env
  let m ← clearLoop ptrs m
  -- the array itself, behind its strings
  let envs ← m.envs.free env
  return { m with envs := envs }

end Webserv.Cgi
