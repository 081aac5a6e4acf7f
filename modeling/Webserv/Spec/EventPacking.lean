import Mathlib.Data.Nat.Bitwise
import Webserv.Native.ExecutionContext

/-!
# The packed event

The descriptor is in the upper half of the word and comes back as it was.  The
mask for the lower half has 34 bits, so the two lowest bits of the descriptor
are read with the type.

## Key results

- `toNat_data`: the word as a number
- `fd_ofFd`: the descriptor comes back
- `decodes_iff`: the descriptors with which the type comes back
-/

namespace Webserv.Io.Event

/-- The descriptor and the type are read back, and the type is a value of the
    enumeration, whose largest enumerator takes three bits. -/
structure Decodes (ev : Event) (fd : Fd) (t : EventType) : Prop where
  fd : ev.fd = fd
  type : ev.typeData = t.value.toUInt64
  range : ev.typeData < 8

/-- The types are below eight. -/
theorem value_lt (t : EventType) : t.value.toNat < 8 := by
  cases t <;> decide

/-- The sign bits are shifted out. -/
theorem toNat_shiftLeft (fd : Fd) :
    (fd.toInt64.toUInt64 <<< 32).toNat = fd.toUInt32.toNat * 2 ^ 32 := by
  -- a descriptor is extended with its sign before it is shifted
  have hshift : (fd.toInt64.toUInt64 <<< 32).toNat =
      (fd.toUInt32.toBitVec.signExtend 64).toNat * 2 ^ 32 % 2 ^ 64 := by
    rw [UInt64.toNat_shiftLeft, Nat.shiftLeft_eq]
    rfl
  have hnat : fd.toUInt32.toBitVec.toNat = fd.toUInt32.toNat := rfl
  have hlt := fd.toUInt32.toNat_lt
  rw [hshift, BitVec.toNat_signExtend, BitVec.toNat_setWidth, hnat]
  split <;> omega

/-- The two halves of `_data`. -/
theorem toNat_data (fd : Fd) (t : EventType) :
    (ofFd fd t).data.toNat = fd.toUInt32.toNat * 2 ^ 32 + t.value.toNat := by
  have hlt : t.value.toNat < 2 ^ 32 := Nat.lt_trans (value_lt t) (by decide)
  rw [ofFd, UInt64.toNat_or, toNat_shiftLeft, UInt32.toNat_toUInt64, Nat.or_comm,
    ← Nat.shiftLeft_eq, Nat.shiftLeft_add_eq_or_of_lt hlt]

/-- The descriptor is read back. -/
@[simp] theorem fd_ofFd (fd : Fd) (t : EventType) : (ofFd fd t).fd = fd := by
  have hlt := value_lt t
  -- the type does not reach into the upper half
  have hupper : ((ofFd fd t).data >>> 32).toUInt32 = fd.toUInt32 := by
    apply UInt32.toNat_inj.mp
    have hfd := fd.toUInt32.toNat_lt
    rw [UInt64.toNat_toUInt32, UInt64.toNat_shiftRight, toNat_data, Nat.shiftRight_eq_div_pow,
      show (32 : UInt64).toNat % 64 = 32 from rfl]
    omega
  rw [Event.fd, hupper]
  rfl

/-- Two bits of the descriptor are read with the type. -/
theorem toNat_typeData (fd : Fd) (t : EventType) :
    (ofFd fd t).typeData.toNat = fd.toUInt32.toNat % 4 * 2 ^ 32 + t.value.toNat := by
  have hlt := value_lt t
  have hmask : rightHalf.toNat = 2 ^ 34 - 1 := by decide
  rw [typeData, UInt64.toNat_and, hmask, Nat.and_two_pow_sub_one_eq_mod, toNat_data]
  omega

theorem decodes_ofFd_iff (fd : Fd) (t : EventType) :
    (ofFd fd t).Decodes fd t ↔ fd.toUInt32.toNat % 4 = 0 := by
  have hlt := value_lt t
  have hnat := toNat_typeData fd t
  constructor
  · -- the two low bits of the descriptor end up in the type
    -- the two low bits of the descriptor end up in the type
    intro h
    have htype := congrArg UInt64.toNat h.type
    rw [hnat, UInt32.toNat_toUInt64] at htype
    omega
  · intro hzero
    rw [hzero, Nat.zero_mul, Nat.zero_add] at hnat
    refine ⟨fd_ofFd fd t, ?_, ?_⟩
    · apply UInt64.toNat_inj.mp
      rw [hnat, UInt32.toNat_toUInt64]
    · rw [UInt64.lt_iff_toNat_lt, hnat]
      exact hlt

/-- The two lowest bits of a descriptor are zero if it is a multiple of four. -/
theorem toNat_mod_four (fd : Fd) : fd.toUInt32.toNat % 4 = 0 ↔ fd &&& 3 = 0 := by
  have hand : (fd &&& 3).toUInt32.toNat = fd.toUInt32.toNat % 4 := by
    have hmask : (fd &&& 3).toUInt32 = fd.toUInt32 &&& 3 := rfl
    rw [hmask, UInt32.toNat_and]
    exact Nat.and_two_pow_sub_one_eq_mod _ 2
  rw [← hand]
  constructor
  · intro hzero
    exact congrArg UInt32.toInt32 (UInt32.toNat_inj.mp hzero)
  · intro hzero
    rw [hzero]
    rfl

/-- An event, and the one rebuilt from its data, are read back exactly when the two lowest
    bits of the descriptor are zero. -/
theorem decodes_iff (fd : Fd) (t : EventType) :
    ((ofFd fd t).Decodes fd t ∧ ({ data := (ofFd fd t).data } : Event).Decodes fd t) ↔
      fd &&& 3 = 0 := by
  rw [← toNat_mod_four, ← decodes_ofFd_iff fd t]
  exact and_self_iff

/-- The type of an event on descriptor 1 is out of range. -/
theorem decodes_false : ¬ ∀ fd t, (ofFd fd t).Decodes fd t := by
  intro h
  exact absurd (h 1 .closed).range (by decide +kernel)

end Webserv.Io.Event
