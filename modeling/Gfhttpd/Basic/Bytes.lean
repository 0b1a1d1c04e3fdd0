import Mathlib.Algebra.Group.Int.Defs
import Mathlib.Algebra.Group.Nat.Defs
import Mathlib.Data.List.TakeWhile
import Mathlib.Logic.Basic

/-!
# Bytes, C strings and C integers

Strings of the source are lists of bytes.  A C string is given by the bytes before its
terminating NUL, so the string functions of `string.h` read `cstr b` of a buffer `b`.

- `strndup s n`: the copy the heap gets, which ends at the first NUL
- `strncasecmpEq a b n`: `strncasecmp(a, b, n) == 0`
- `wrap32`, `wrap64`, `toSizeT`: conversions to `int`, `int64_t` and `size_t`
-/

namespace Gfhttpd

abbrev Bytes := List UInt8

/-- The bytes of a string literal of the source. -/
def ascii (s : String) : Bytes :=
  s.toList.map fun c => c.toNat.toUInt8

/-! ## C strings -/

/-- The C string stored at the start of a buffer. -/
def cstr (b : Bytes) : Bytes :=
  b.takeWhile (· != 0)

/-- `strndup(s, n)`. -/
def strndup (s : Bytes) (n : ℕ) : Bytes :=
  cstr (s.take n)

theorem not_mem_cstr (b : Bytes) : (0 : UInt8) ∉ cstr b := by
  intro h
  simpa using List.mem_takeWhile_imp h

theorem cstr_eq_self {b : Bytes} (h : (0 : UInt8) ∉ b) : cstr b = b := by
  refine List.takeWhile_eq_self_iff.mpr fun c hc => ?_
  have hne : c ≠ 0 := fun heq => h (heq ▸ hc)
  simpa using hne

theorem length_cstr_le (b : Bytes) : (cstr b).length ≤ b.length :=
  (List.takeWhile_prefix _).length_le

/-- A NUL ends the C string. -/
theorem cstr_append_nul {b : Bytes} (h : (0 : UInt8) ∉ b) (rest : Bytes) :
    cstr (b ++ 0 :: rest) = b := by
  unfold cstr
  rw [List.takeWhile_append_of_pos, List.takeWhile_cons_of_neg (by simp), List.append_nil]
  intro c hc
  have hne : c ≠ 0 := fun heq => h (heq ▸ hc)
  simpa using hne

/-- A buffer with a NUL goes on with it behind its C string. -/
theorem exists_append_nul {b : Bytes} (h : (0 : UInt8) ∈ b) : ∃ rest, b = cstr b ++ 0 :: rest := by
  have hsplit : cstr b ++ b.dropWhile (· != 0) = b := List.takeWhile_append_dropWhile
  cases hrest : b.dropWhile (· != 0) with
  | nil =>
      rw [hrest, List.append_nil] at hsplit
      rw [← hsplit] at h
      exact absurd h (not_mem_cstr b)
  | cons c rest =>
      have hhead := List.head_dropWhile_not (fun c : UInt8 => c != 0) (l := b) (by simp [hrest])
      obtain rfl : c = 0 := by simpa [hrest] using hhead
      rw [hrest] at hsplit
      exact ⟨rest, hsplit.symm⟩

/-- `tolower` on ASCII letters. -/
def toLower (c : UInt8) : UInt8 :=
  if 65 ≤ c ∧ c ≤ 90 then c + 32 else c

theorem toLower_eq_zero_iff (c : UInt8) : toLower c = 0 ↔ c = 0 := by
  unfold toLower
  grind

theorem zero_mem_map_toLower {b : Bytes} : (0 : UInt8) ∈ b.map toLower ↔ (0 : UInt8) ∈ b := by
  simp only [List.mem_map, toLower_eq_zero_iff, exists_eq_right]

/-- `strncasecmp(a, b, n) == 0` of two buffers. -/
def strncasecmpEq (a b : Bytes) (n : ℕ) : Bool :=
  ((cstr a).take n).map toLower == ((cstr b).take n).map toLower

/-! ## C integers -/

/-- Conversion to a 32-bit `int`. -/
def wrap32 (z : ℤ) : ℤ :=
  (z + 2 ^ 31) % 2 ^ 32 - 2 ^ 31

/-- Conversion to a 64-bit `int64_t`. -/
def wrap64 (z : ℤ) : ℤ :=
  (z + 2 ^ 63) % 2 ^ 64 - 2 ^ 63

/-- `SIZE_MAX`, which is `-1` as a `size_t`. -/
def SIZE_MAX : ℕ := 2 ^ 64 - 1

/-- Conversion to `size_t`. -/
def toSizeT (z : ℤ) : ℕ :=
  (z % 2 ^ 64).toNat

theorem wrap32_of_lt {z : ℤ} (hlo : -2 ^ 31 ≤ z) (hhi : z < 2 ^ 31) : wrap32 z = z := by
  simp only [wrap32]
  omega

end Gfhttpd
