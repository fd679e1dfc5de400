import Mathlib.Data.List.Basic

/-!
# Text

Strings as the TypeScript core holds them: sequences of UTF-16 code units. A request body is parsed
from JSON, whose `\u` escapes can name half of a surrogate pair, so a string is not always Unicode
text, and the two places where bytes are bound treat such a half differently: `JSON.stringify`
escapes it, and the UTF-8 encoder behind `createHash(..).update` replaces it.
-/

namespace ContextLayer

/-- A JavaScript string: its UTF-16 code units. -/
abbrev Text := List UInt16

instance : LawfulBEq Text := inferInstanceAs (LawfulBEq (List UInt16))

namespace Text

/-- One character as UTF-16. -/
def ofChar (c : Char) : Text :=
  if c.toNat < 0x10000 then [UInt16.ofNat c.toNat]
  else [UInt16.ofNat (0xD800 + (c.toNat - 0x10000) / 0x400),
    UInt16.ofNat (0xDC00 + (c.toNat - 0x10000) % 0x400)]

/-- A string literal of the source. -/
def js (s : String) : Text := s.toList.flatMap ofChar

def isHighSurrogate (u : UInt16) : Bool := decide (0xD800 ≤ u) && decide (u ≤ 0xDBFF)

def isLowSurrogate (u : UInt16) : Bool := decide (0xDC00 ≤ u) && decide (u ≤ 0xDFFF)

def isSurrogate (u : UInt16) : Bool := decide (0xD800 ≤ u) && decide (u ≤ 0xDFFF)

theorem isSurrogate_of_isHighSurrogate {u : UInt16} (h : isHighSurrogate u = true) :
    isSurrogate u = true := by
  simp only [isHighSurrogate, isSurrogate, Bool.and_eq_true, decide_eq_true_eq] at h ⊢
  exact ⟨h.1, UInt16.le_trans h.2 (by decide)⟩

theorem isSurrogate_of_isLowSurrogate {u : UInt16} (h : isLowSurrogate u = true) :
    isSurrogate u = true := by
  simp only [isLowSurrogate, isSurrogate, Bool.and_eq_true, decide_eq_true_eq] at h ⊢
  exact ⟨UInt16.le_trans (by decide) h.1, h.2⟩

/-- What string iteration yields: a surrogate pair, or one code unit. -/
inductive CodePoint where
  | pair (high low : UInt16) (hhigh : isHighSurrogate high = true) (hlow : isLowSurrogate low = true)
  | unit (u : UInt16)
  deriving DecidableEq

theorem high_of_pair {u v : UInt16} (h : isHighSurrogate u = true ∧ isLowSurrogate v = true) :
    isHighSurrogate u = true := h.1

theorem low_of_pair {u v : UInt16} (h : isHighSurrogate u = true ∧ isLowSurrogate v = true) :
    isLowSurrogate v = true := h.2

def CodePoint.units : CodePoint → Text
  | .pair high low _ _ => [high, low]
  | .unit u => [u]

/-- A surrogate without its other half. -/
def CodePoint.isLone : CodePoint → Bool
  | .pair _ _ _ _ => false
  | .unit u => isSurrogate u

/-- String iteration: a high surrogate followed by a low one is one code point. -/
def codePoints : Text → List CodePoint
  | [] => []
  | [u] => [.unit u]
  | u :: v :: rest =>
      if h : isHighSurrogate u = true ∧ isLowSurrogate v = true then
        .pair u v h.1 h.2 :: codePoints rest
      else .unit u :: codePoints (v :: rest)

theorem flatMap_units_codePoints (s : Text) : (codePoints s).flatMap CodePoint.units = s := by
  fun_induction codePoints s with
  | case1 => rfl
  | case2 u => rfl
  | case3 u v rest hpair ih => simp [CodePoint.units, ih]
  | case4 u v rest hpair ih => simp [CodePoint.units, ih]

theorem codePoints_injective {s t : Text} (h : codePoints s = codePoints t) : s = t := by
  rw [← flatMap_units_codePoints s, h, flatMap_units_codePoints]

/-- Unicode text: no surrogate outside a pair. -/
def isWellFormed (s : Text) : Bool := (codePoints s).all fun p => !p.isLone

/-- The UTF-8 encoder's view of one code point: a lone surrogate becomes U+FFFD. -/
def CodePoint.replaceLone (p : CodePoint) : Text :=
  if p.isLone then [0xFFFD] else p.units

/-- The UTF-8 encoder's view of a string. -/
def toWellFormed (s : Text) : Text := (codePoints s).flatMap CodePoint.replaceLone

theorem toWellFormed_of_isWellFormed {s : Text} (h : isWellFormed s = true) :
    toWellFormed s = s := by
  have hunits : ∀ p ∈ codePoints s, p.replaceLone = p.units := by
    intro p hp
    have hlone := List.all_eq_true.mp h p hp
    simp only [Bool.not_eq_true'] at hlone
    simp [CodePoint.replaceLone, hlone]
  rw [toWellFormed, List.flatMap_congr hunits, flatMap_units_codePoints]

/-- Nothing straddles the end of a well-formed string. -/
theorem codePoints_append {s t : Text} (h : isWellFormed s = true) :
    codePoints (s ++ t) = codePoints s ++ codePoints t := by
  fun_induction codePoints s with
  | case1 => rfl
  | case2 u =>
      have hu : isHighSurrogate u = false := by
        by_contra hhigh
        have := isSurrogate_of_isHighSurrogate (by simpa using hhigh)
        simp [isWellFormed, codePoints, CodePoint.isLone, this] at h
      cases t <;> simp [codePoints, hu]
  | case3 u v rest hpair ih =>
      have hrest : isWellFormed rest = true := by
        simpa [isWellFormed, codePoints, hpair, CodePoint.isLone] using h
      simp [codePoints, hpair, ih hrest]
  | case4 u v rest hpair ih =>
      have hrest : isWellFormed (v :: rest) = true := by
        simp only [isWellFormed, codePoints, dif_neg hpair, List.all_cons, Bool.and_eq_true] at h
        exact h.2
      simp only [List.cons_append] at ih ⊢
      simp [codePoints, hpair, ih hrest]

theorem isWellFormed_append {s t : Text} (hs : isWellFormed s = true) (ht : isWellFormed t = true) :
    isWellFormed (s ++ t) = true := by
  simp only [isWellFormed, codePoints_append hs, List.all_append, Bool.and_eq_true]
  exact ⟨hs, ht⟩

theorem isWellFormed_units {p : CodePoint} (h : p.isLone = false) : isWellFormed p.units = true := by
  cases p with
  | pair high low hhigh hlow => simp [isWellFormed, CodePoint.units, codePoints, hhigh, hlow,
      CodePoint.isLone]
  | unit u => simpa [isWellFormed, CodePoint.units, codePoints, CodePoint.isLone] using h

theorem isWellFormed_flatMap {α : Type} {f : α → Text} {xs : List α}
    (h : ∀ x ∈ xs, isWellFormed (f x) = true) : isWellFormed (xs.flatMap f) = true := by
  induction xs with
  | nil => rfl
  | cons x xs ih =>
      rw [List.flatMap_cons]
      exact isWellFormed_append (h x (by simp)) (ih fun y hy => h y (by simp [hy]))

end Text

end ContextLayer
