import Mathlib.Data.UInt
import Mathlib.Data.List.Basic

/-!
# Base64url

RFC 4648 §5 without padding, over a lenient reader: characters outside the alphabet are skipped, the
standard alphabet's `+` and `/` are read as well, and a last lone digit carries no byte. Leniency
makes many strings decode to one byte string, so the round trip holds in one direction only.
-/

namespace Base64Url

/-- Six bits. -/
abbrev Digit := Fin 64

instance neZero_digits : NeZero 64 := ⟨by decide⟩

/-- The alphabet: `A-Z`, `a-z`, `0-9`, `-`, `_`. -/
def digitUnit (d : Digit) : UInt16 :=
  if d.val < 26 then UInt16.ofNat (0x41 + d.val)
  else if d.val < 52 then UInt16.ofNat (0x61 + (d.val - 26))
  else if d.val < 62 then UInt16.ofNat (0x30 + (d.val - 52))
  else if d.val = 62 then 0x2D else 0x5F

/-- The digit a character stands for, `none` for a character the reader skips. -/
def unitDigit (u : UInt16) : Option Digit :=
  if 0x41 ≤ u ∧ u ≤ 0x5A then some (Fin.ofNat 64 (u.toNat - 0x41))
  else if 0x61 ≤ u ∧ u ≤ 0x7A then some (Fin.ofNat 64 (u.toNat - 0x61 + 26))
  else if 0x30 ≤ u ∧ u ≤ 0x39 then some (Fin.ofNat 64 (u.toNat - 0x30 + 52))
  else if u = 0x2D ∨ u = 0x2B then some 62
  else if u = 0x5F ∨ u = 0x2F then some 63
  else none

theorem unitDigit_digitUnit (d : Digit) : unitDigit (digitUnit d) = some d := by
  revert d
  decide

/-- Three bytes are four digits; a shorter tail is padded with zero bits. -/
def toDigits : List UInt8 → List Digit
  | [] => []
  | [a] => [Fin.ofNat 64 (a.toNat / 4), Fin.ofNat 64 (a.toNat * 16)]
  | [a, b] => [Fin.ofNat 64 (a.toNat / 4), Fin.ofNat 64 (a.toNat * 16 + b.toNat / 16),
      Fin.ofNat 64 (b.toNat * 4)]
  | a :: b :: c :: rest =>
      Fin.ofNat 64 (a.toNat / 4) :: Fin.ofNat 64 (a.toNat * 16 + b.toNat / 16)
        :: Fin.ofNat 64 (b.toNat * 4 + c.toNat / 64) :: Fin.ofNat 64 c.toNat :: toDigits rest

/-- Four digits are three bytes; a shorter tail yields the bytes it completes. -/
def ofDigits : List Digit → List UInt8
  | [] => []
  | [_] => []
  | [p, q] => [UInt8.ofNat (p.val * 4 + q.val / 16)]
  | [p, q, r] => [UInt8.ofNat (p.val * 4 + q.val / 16), UInt8.ofNat (q.val * 16 + r.val / 4)]
  | p :: q :: r :: s :: rest =>
      UInt8.ofNat (p.val * 4 + q.val / 16) :: UInt8.ofNat (q.val * 16 + r.val / 4)
        :: UInt8.ofNat (r.val * 64 + s.val) :: ofDigits rest

theorem ofNat_eq_of_toNat {n : Nat} {a : UInt8} (h : n % 256 = a.toNat) : UInt8.ofNat n = a := by
  apply UInt8.toNat_inj.mp
  simpa using h

theorem ofDigits_toDigits (bytes : List UInt8) : ofDigits (toDigits bytes) = bytes := by
  fun_induction toDigits bytes with
  | case1 => rfl
  | case2 a =>
      have ha := a.toNat_lt
      simp only [ofDigits, Fin.ofNat]
      rw [ofNat_eq_of_toNat (a := a) (by omega)]
  | case3 a b =>
      have ha := a.toNat_lt
      have hb := b.toNat_lt
      simp only [ofDigits, Fin.ofNat]
      rw [ofNat_eq_of_toNat (a := a) (by omega), ofNat_eq_of_toNat (a := b) (by omega)]
  | case4 a b c rest ih =>
      have ha := a.toNat_lt
      have hb := b.toNat_lt
      have hc := c.toNat_lt
      simp only [ofDigits, Fin.ofNat, ih]
      rw [ofNat_eq_of_toNat (a := a) (by omega), ofNat_eq_of_toNat (a := b) (by omega),
        ofNat_eq_of_toNat (a := c) (by omega)]

def encode (bytes : List UInt8) : List UInt16 := (toDigits bytes).map digitUnit

def decode (text : List UInt16) : List UInt8 := ofDigits (text.filterMap unitDigit)

/-- **Decoding undoes encoding.** -/
theorem decode_encode (bytes : List UInt8) : decode (encode bytes) = bytes := by
  have hdigits : ((toDigits bytes).map digitUnit).filterMap unitDigit = toDigits bytes := by
    rw [List.filterMap_map]
    simp [unitDigit_digitUnit]
  rw [decode, encode, hdigits, ofDigits_toDigits]

theorem encode_injective {a b : List UInt8} (h : encode a = encode b) : a = b := by
  rw [← decode_encode a, h, decode_encode]

theorem digitUnit_ne_dot (d : Digit) : digitUnit d ≠ 0x2E := by
  revert d
  decide

/-- A full stop is outside the alphabet, so it can separate encoded parts. -/
theorem dot_notMem_encode (bytes : List UInt8) : 0x2E ∉ encode bytes := by
  simp only [encode, List.mem_map, not_exists, not_and]
  exact fun d _ => digitUnit_ne_dot d

end Base64Url
