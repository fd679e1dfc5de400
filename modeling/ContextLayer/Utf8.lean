import Mathlib.Data.UInt
import ContextLayer.Text

/-!
# UTF-8

The bytes behind `Buffer.from(text)` and `createHash(..).update(text)`, and the decoder behind
`buffer.toString("utf-8")`. The encoder replaces a lone surrogate by U+FFFD, so what survives a
round trip is `toWellFormed`, and two strings have the same bytes exactly when they agree there.
-/

namespace ContextLayer

open Text

/-- The bytes of a scalar value. -/
def utf8Scalar (n : Nat) : List UInt8 :=
  if n < 0x80 then [UInt8.ofNat n]
  else if n < 0x800 then [UInt8.ofNat (0xC0 + n / 0x40), UInt8.ofNat (0x80 + n % 0x40)]
  else if n < 0x10000 then
    [UInt8.ofNat (0xE0 + n / 0x1000), UInt8.ofNat (0x80 + n / 0x40 % 0x40),
      UInt8.ofNat (0x80 + n % 0x40)]
  else
    [UInt8.ofNat (0xF0 + n / 0x40000), UInt8.ofNat (0x80 + n / 0x1000 % 0x40),
      UInt8.ofNat (0x80 + n / 0x40 % 0x40), UInt8.ofNat (0x80 + n % 0x40)]

/-- The scalar value of a code point, U+FFFD for a lone surrogate. -/
def Text.CodePoint.scalar : CodePoint → Nat
  | .pair high low _ _ => 0x10000 + (high.toNat - 0xD800) * 0x400 + (low.toNat - 0xDC00)
  | .unit u => if isSurrogate u then 0xFFFD else u.toNat

/-- `Buffer.from(text)`. -/
def utf8 (s : Text) : List UInt8 := (codePoints s).flatMap fun p => utf8Scalar p.scalar

/-- The UTF-16 units of a scalar value. -/
def scalarUnits (n : Nat) : Text :=
  if n < 0x10000 then [UInt16.ofNat n]
  else [UInt16.ofNat (0xD800 + (n - 0x10000) / 0x400), UInt16.ofNat (0xDC00 + (n - 0x10000) % 0x400)]

/-- Inside a sequence: the continuation bytes still needed beyond the next one, the range the next
one has to be in, and the bits read so far. -/
structure Utf8State where
  more : Nat
  lower : Nat
  upper : Nat
  bits : Nat

/-- A byte at the start of a sequence: what it emits and what state it leaves. -/
def utf8Start (b : UInt8) : Text × Option Utf8State :=
  if b.toNat < 0x80 then ([UInt16.ofNat b.toNat], none)
  else if 0xC2 ≤ b.toNat ∧ b.toNat ≤ 0xDF then ([], some ⟨0, 0x80, 0xBF, b.toNat - 0xC0⟩)
  else if 0xE0 ≤ b.toNat ∧ b.toNat ≤ 0xEF then
    ([], some ⟨1, if b.toNat = 0xE0 then 0xA0 else 0x80, if b.toNat = 0xED then 0x9F else 0xBF,
      b.toNat - 0xE0⟩)
  else if 0xF0 ≤ b.toNat ∧ b.toNat ≤ 0xF4 then
    ([], some ⟨2, if b.toNat = 0xF0 then 0x90 else 0x80, if b.toNat = 0xF4 then 0x8F else 0xBF,
      b.toNat - 0xF0⟩)
  else ([0xFFFD], none)

/-- A continuation byte in range. -/
def Utf8State.feed (s : Utf8State) (b : UInt8) : Text × Option Utf8State :=
  let bits := s.bits * 0x40 + (b.toNat - 0x80)
  match s.more with
  | 0 => (scalarUnits bits, none)
  | more + 1 => ([], some ⟨more, 0x80, 0xBF, bits⟩)

/-- The decoder. A sequence cut short is one U+FFFD, and the byte that cut it starts a new one. -/
def utf8Decode : Option Utf8State → List UInt8 → Text
  | none, [] => []
  | some _, [] => [0xFFFD]
  | none, b :: rest => (utf8Start b).1 ++ utf8Decode (utf8Start b).2 rest
  | some s, b :: rest =>
      if s.lower ≤ b.toNat ∧ b.toNat ≤ s.upper then (s.feed b).1 ++ utf8Decode (s.feed b).2 rest
      else 0xFFFD :: (utf8Start b).1 ++ utf8Decode (utf8Start b).2 rest

/-- `buffer.toString("utf-8")`. -/
def ofUtf8 (bytes : List UInt8) : Text := utf8Decode none bytes

/-! ### The round trip -/

theorem toNat_byte {n : Nat} (h : n < 0x100) : (UInt8.ofNat n).toNat = n := by
  simpa using Nat.mod_eq_of_lt h

/-- A byte in the range a state asks for is consumed. -/
theorem utf8Decode_feed {s : Utf8State} {b : UInt8} (rest : List UInt8)
    (hrange : s.lower ≤ b.toNat ∧ b.toNat ≤ s.upper) :
    utf8Decode (some s) (b :: rest) = (s.feed b).1 ++ utf8Decode (s.feed b).2 rest := by
  rw [utf8Decode, if_pos hrange]

/-- A scalar value that is not a surrogate decodes from its bytes. -/
theorem utf8Decode_utf8Scalar {n : Nat} (hmax : n < 0x110000) (hsur : n < 0xD800 ∨ 0xDFFF < n)
    (rest : List UInt8) :
    utf8Decode none (utf8Scalar n ++ rest) = scalarUnits n ++ utf8Decode none rest := by
  unfold utf8Scalar
  split
  case isTrue h1 =>
    have hb := toNat_byte (n := n) (by omega)
    simp only [List.cons_append, List.nil_append, utf8Decode, utf8Start, hb, if_pos h1]
    rw [scalarUnits, if_pos (by omega), List.singleton_append]
  case isFalse h1 =>
    split
    case isTrue h2 =>
      have hb := toNat_byte (n := 0xC0 + n / 0x40) (by omega)
      have hc := toNat_byte (n := 0x80 + n % 0x40) (by omega)
      simp only [List.cons_append, List.nil_append, utf8Decode, utf8Start, hb]
      rw [if_neg (by omega), if_pos (by omega)]
      simp only [List.nil_append]
      rw [utf8Decode_feed _ (by simp only [hc]; omega)]
      have hbits : (0xC0 + n / 0x40 - 0xC0) * 0x40 + (0x80 + n % 0x40 - 0x80) = n := by omega
      simp only [Utf8State.feed, hc, hbits]
    case isFalse h2 =>
      split
      case isTrue h3 =>
        have hb := toNat_byte (n := 0xE0 + n / 0x1000) (by omega)
        have hc := toNat_byte (n := 0x80 + n / 0x40 % 0x40) (by omega)
        have hd := toNat_byte (n := 0x80 + n % 0x40) (by omega)
        simp only [List.cons_append, List.nil_append, utf8Decode, utf8Start, hb]
        rw [if_neg (by omega), if_neg (by omega), if_pos (by omega)]
        simp only [List.nil_append]
        rw [utf8Decode_feed _ (by simp only [hc]; split <;> split <;> omega)]
        simp only [Utf8State.feed, hc, List.nil_append]
        rw [utf8Decode_feed _ (by simp only [hd]; omega)]
        have hbits : ((0xE0 + n / 0x1000 - 0xE0) * 0x40 + (0x80 + n / 0x40 % 0x40 - 0x80)) * 0x40
            + (0x80 + n % 0x40 - 0x80) = n := by omega
        simp only [Utf8State.feed, hd, hbits]
      case isFalse h3 =>
        have hb := toNat_byte (n := 0xF0 + n / 0x40000) (by omega)
        have hc := toNat_byte (n := 0x80 + n / 0x1000 % 0x40) (by omega)
        have hd := toNat_byte (n := 0x80 + n / 0x40 % 0x40) (by omega)
        have he := toNat_byte (n := 0x80 + n % 0x40) (by omega)
        simp only [List.cons_append, List.nil_append, utf8Decode, utf8Start, hb]
        rw [if_neg (by omega), if_neg (by omega), if_neg (by omega), if_pos (by omega)]
        simp only [List.nil_append]
        rw [utf8Decode_feed _ (by simp only [hc]; split <;> split <;> omega)]
        simp only [Utf8State.feed, hc, List.nil_append]
        rw [utf8Decode_feed _ (by simp only [hd]; omega)]
        simp only [Utf8State.feed, hd, List.nil_append]
        rw [utf8Decode_feed _ (by simp only [he]; omega)]
        have hbits : (((0xF0 + n / 0x40000 - 0xF0) * 0x40 + (0x80 + n / 0x1000 % 0x40 - 0x80)) * 0x40
            + (0x80 + n / 0x40 % 0x40 - 0x80)) * 0x40 + (0x80 + n % 0x40 - 0x80) = n := by omega
        simp only [Utf8State.feed, he, hbits]

theorem isHighSurrogate_iff {u : UInt16} :
    isHighSurrogate u = true ↔ 0xD800 ≤ u.toNat ∧ u.toNat ≤ 0xDBFF := by
  simp [isHighSurrogate, UInt16.le_iff_toNat_le]

theorem isLowSurrogate_iff {u : UInt16} :
    isLowSurrogate u = true ↔ 0xDC00 ≤ u.toNat ∧ u.toNat ≤ 0xDFFF := by
  simp [isLowSurrogate, UInt16.le_iff_toNat_le]

theorem isSurrogate_iff {u : UInt16} :
    isSurrogate u = true ↔ 0xD800 ≤ u.toNat ∧ u.toNat ≤ 0xDFFF := by
  simp [isSurrogate, UInt16.le_iff_toNat_le]

theorem toNat_unit {n : Nat} (h : n < 0x10000) : (UInt16.ofNat n).toNat = n := by
  simpa using Nat.mod_eq_of_lt h

theorem ofNat_unit {n : Nat} {u : UInt16} (h : n = u.toNat) : UInt16.ofNat n = u := by
  subst h
  simp

namespace Text.CodePoint

theorem scalar_lt (p : CodePoint) : p.scalar < 0x110000 := by
  cases p with
  | pair high low hhigh hlow =>
      have hh := isHighSurrogate_iff.mp hhigh
      have hl := isLowSurrogate_iff.mp hlow
      unfold scalar
      dsimp only
      omega
  | unit u =>
      have hu := u.toNat_lt
      unfold scalar
      dsimp only
      split <;> omega

theorem scalar_not_surrogate (p : CodePoint) : p.scalar < 0xD800 ∨ 0xDFFF < p.scalar := by
  cases p with
  | pair high low hhigh hlow =>
      unfold scalar
      dsimp only
      omega
  | unit u =>
      unfold scalar
      dsimp only
      split
      case isTrue h => omega
      case isFalse h =>
        have hu := isSurrogate_iff.not.mp h
        omega

/-- The units a code point comes back as. -/
theorem scalarUnits_scalar (p : CodePoint) : scalarUnits p.scalar = p.replaceLone := by
  cases p with
  | pair high low hhigh hlow =>
      have hh := isHighSurrogate_iff.mp hhigh
      have hl := isLowSurrogate_iff.mp hlow
      unfold scalar scalarUnits
      dsimp only
      rw [if_neg (by omega), ofNat_unit (u := high) (by omega), ofNat_unit (u := low) (by omega)]
      rfl
  | unit u =>
      have hu := u.toNat_lt
      unfold scalar scalarUnits replaceLone isLone
      dsimp only [units]
      split <;> simp_all

end Text.CodePoint

theorem utf8Decode_flatMap (points : List CodePoint) :
    utf8Decode none (points.flatMap fun p => utf8Scalar p.scalar)
      = points.flatMap CodePoint.replaceLone := by
  induction points with
  | nil => rfl
  | cons p points ih =>
      rw [List.flatMap_cons, List.flatMap_cons,
        utf8Decode_utf8Scalar p.scalar_lt p.scalar_not_surrogate, p.scalarUnits_scalar, ih]

/-- **Decoding what was encoded replaces the lone surrogates and nothing else.** -/
theorem ofUtf8_utf8 (s : Text) : ofUtf8 (utf8 s) = toWellFormed s := utf8Decode_flatMap _

theorem ofUtf8_utf8_of_isWellFormed {s : Text} (h : isWellFormed s = true) :
    ofUtf8 (utf8 s) = s := by
  rw [ofUtf8_utf8, toWellFormed_of_isWellFormed h]

/-- Unicode text is determined by its bytes. -/
theorem utf8_injective {s t : Text} (hs : isWellFormed s = true) (ht : isWellFormed t = true)
    (h : utf8 s = utf8 t) : s = t := by
  rw [← ofUtf8_utf8_of_isWellFormed hs, h, ofUtf8_utf8_of_isWellFormed ht]

end ContextLayer
