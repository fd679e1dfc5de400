import Mathlib.Data.List.Basic

/-!
# Percent-encoding

A byte that is not safe stands as a percent sign and two digits to the base of 16. Decoding undoes that as long as the
percent sign itself is not safe.
-/

namespace Percent

/-- A digit to the base of 16, in upper case. -/
def digit (n : Nat) : UInt8 := UInt8.ofNat (if n < 10 then 0x30 + n else 0x37 + n)

/-- The value of a digit. -/
def value? (b : UInt8) : Option Nat :=
  if 0x30 ≤ b ∧ b ≤ 0x39 then some (b.toNat - 0x30)
  else if 0x41 ≤ b ∧ b ≤ 0x46 then some (b.toNat - 0x37)
  else if 0x61 ≤ b ∧ b ≤ 0x66 then some (b.toNat - 0x57)
  else none

def percent : UInt8 := 0x25

def encodeByte (safe : UInt8 → Bool) (b : UInt8) : List UInt8 :=
  if safe b then [b] else [percent, digit (b.toNat / 16), digit (b.toNat % 16)]

def encode (safe : UInt8 → Bool) (bytes : List UInt8) : List UInt8 := bytes.flatMap (encodeByte safe)

/-- A percent sign that is not followed by two digits stands for itself. -/
def decode : List UInt8 → List UInt8
  | [] => []
  | b :: rest =>
      match b == percent, rest with
      | true, high :: low :: more =>
          match value? high, value? low with
          | some h, some l => UInt8.ofNat (16 * h + l) :: decode more
          | _, _ => b :: decode (high :: low :: more)
      | _, rest => b :: decode rest

theorem value?_digit {n : Nat} (h : n < 16) : value? (digit n) = some n := by
  have hall : ∀ n < 16, value? (digit n) = some n := by decide
  exact hall n h

variable {safe : UInt8 → Bool}

theorem decode_encodeByte (hsafe : safe percent = false) (b : UInt8) (rest : List UInt8) :
    decode (encodeByte safe b ++ rest) = b :: decode rest := by
  rw [encodeByte]
  split
  case isTrue h =>
    have hne : (b == percent) = false := beq_false_of_ne fun heq => by rw [heq, hsafe] at h; cases h
    rw [List.singleton_append, decode.eq_def]
    simp only [hne]
  case isFalse =>
    have hb := b.toNat_lt
    have hvalue : UInt8.ofNat (16 * (b.toNat / 16) + b.toNat % 16) = b := by
      rw [Nat.div_add_mod, UInt8.ofNat_toNat]
    simp only [List.cons_append, List.nil_append]
    rw [decode.eq_def]
    simp only [beq_self_eq_true, value?_digit (show b.toNat / 16 < 16 by omega),
      value?_digit (show b.toNat % 16 < 16 by omega), hvalue]

/-- **What is encoded is decoded.** -/
theorem decode_encode (hsafe : safe percent = false) (bytes : List UInt8) : decode (encode safe bytes) = bytes := by
  induction bytes with
  | nil => rw [encode, List.flatMap_nil, decode]
  | cons b rest ih =>
      have hsplit : encode safe (b :: rest) = encodeByte safe b ++ encode safe rest := List.flatMap_cons
      rw [hsplit, decode_encodeByte hsafe, ih]

/-- An encoded text has safe bytes, percent signs and digits. -/
theorem mem_encode {bytes : List UInt8} {c : UInt8} (h : c ∈ encode safe bytes) :
    safe c = true ∨ c = percent ∨ ∃ n < 16, c = digit n := by
  obtain ⟨b, -, hc⟩ := List.mem_flatMap.mp h
  rw [encodeByte] at hc
  split at hc
  case isTrue hb =>
    rw [List.mem_singleton.mp hc]
    exact .inl hb
  case isFalse =>
    have hb := b.toNat_lt
    simp only [List.mem_cons, List.not_mem_nil, or_false] at hc
    rcases hc with rfl | rfl | rfl
    · exact .inr (.inl rfl)
    · exact .inr (.inr ⟨_, by omega, rfl⟩)
    · exact .inr (.inr ⟨_, by omega, rfl⟩)

end Percent
