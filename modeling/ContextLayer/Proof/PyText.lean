import Mathlib.Data.List.Chain
import ContextLayer.PyText
import ContextLayer.Proof.PyJson

/-!
# What front matter and cells determine

A field of front matter is read off its line, for a scalar holds no line break but a last one. So an emitted
block is told from what follows it, and the block of one date from the block of another.
-/

namespace ContextLayer.PyText

open Text

/-! ### Line breaks -/

theorem newlinesAfter_append {a : PyStr} (ha : carriageReturn ∉ a) (hne : a ≠ []) (b : PyStr) :
    newlinesAfter false (a ++ b) = a ++ newlinesAfter false b := by
  induction a with
  | nil => exact absurd rfl hne
  | cons p a ih =>
      rw [List.mem_cons, not_or] at ha
      rw [List.cons_append, newlinesAfter, if_neg (Ne.symm ha.1), if_neg (by simp), List.cons_append]
      by_cases hnil : a = []
      · rw [hnil, List.nil_append, List.nil_append]
      · rw [ih ha.2 hnil]

/-- What has no carriage return stays. -/
theorem newlines_append {a : PyStr} (ha : carriageReturn ∉ a) (b : PyStr) :
    newlines (a ++ b) = a ++ newlines b := by
  by_cases hne : a = []
  · rw [hne, List.nil_append, List.nil_append]
  · exact newlinesAfter_append ha hne b

theorem newlines_eq_self {a : PyStr} (ha : carriageReturn ∉ a) : newlines a = a := by
  have h := newlines_append ha []
  rwa [List.append_nil, show newlines [] = [] from rfl, List.append_nil] at h

theorem carriageReturn_notMem_newlinesAfter (f : Bool) (s : PyStr) :
    carriageReturn ∉ newlinesAfter f s := by
  induction s generalizing f with
  | nil => exact List.not_mem_nil
  | cons p s ih =>
      rw [newlinesAfter]
      by_cases hreturn : p = carriageReturn
      · rw [if_pos hreturn, List.mem_cons, not_or]
        exact ⟨by decide, ih true⟩
      · rw [if_neg hreturn]
        by_cases hfeed : p = newline ∧ f = true
        · rw [if_pos hfeed]
          exact ih false
        · rw [if_neg hfeed, List.mem_cons, not_or]
          exact ⟨Ne.symm hreturn, ih false⟩

theorem carriageReturn_notMem_newlines (s : PyStr) : carriageReturn ∉ newlines s :=
  carriageReturn_notMem_newlinesAfter false s

theorem newlinesAfter_append_of_getLast {a : PyStr} {c : CodePoint} (hlast : a.getLast? = some c)
    (hc : c ≠ carriageReturn) (f : Bool) (b : PyStr) :
    newlinesAfter f (a ++ b) = newlinesAfter f a ++ newlinesAfter false b := by
  induction a generalizing f with
  | nil => cases hlast
  | cons p a ih =>
      by_cases hnil : a = []
      · subst hnil
        obtain rfl : p = c := Option.some.inj hlast
        rw [List.singleton_append, newlinesAfter, newlinesAfter, if_neg hc, if_neg hc, newlinesAfter]
        by_cases hfeed : p = newline ∧ f = true
        · rw [if_pos hfeed, if_pos hfeed, List.nil_append]
        · rw [if_neg hfeed, if_neg hfeed, List.singleton_append]
      · have hrest : a.getLast? = some c := by
          rwa [List.getLast?_cons_of_ne_nil hnil] at hlast
        rw [List.cons_append, newlinesAfter, newlinesAfter]
        by_cases hreturn : p = carriageReturn
        · rw [if_pos hreturn, if_pos hreturn, ih hrest, List.cons_append]
        · rw [if_neg hreturn, if_neg hreturn]
          by_cases hfeed : p = newline ∧ f = true
          · rw [if_pos hfeed, if_pos hfeed, ih hrest]
          · rw [if_neg hfeed, if_neg hfeed, ih hrest, List.cons_append]

/-- A line break ends with the text it is in, unless that ends in a carriage return. -/
theorem newlines_append_of_getLast {a : PyStr} {c : CodePoint} (hlast : a.getLast? = some c)
    (hc : c ≠ carriageReturn) (b : PyStr) : newlines (a ++ b) = newlines a ++ newlines b :=
  newlinesAfter_append_of_getLast hlast hc false b

/-! ### Bytes -/

theorem encodeUtf8_eq_some {s : PyStr} {bytes : List UInt8} : encodeUtf8 s = some bytes ↔
    s.any CodePoint.isLone = false ∧ (s.flatMap fun p => utf8Scalar p.scalar) = bytes := by
  unfold encodeUtf8
  by_cases hlone : s.any CodePoint.isLone = true
  · rw [if_pos hlone, hlone]
    simp
  · rw [if_neg hlone, Option.some_inj]
    exact (and_iff_right (Bool.eq_false_iff.mpr hlone)).symm

theorem encodeUtf8_inj {s t : PyStr} {bytes : List UInt8} (hs : encodeUtf8 s = some bytes)
    (ht : encodeUtf8 t = some bytes) : s = t := by
  obtain ⟨hs, hbytes⟩ := encodeUtf8_eq_some.mp hs
  obtain ⟨ht, hbytes'⟩ := encodeUtf8_eq_some.mp ht
  exact PyJson.flatMap_utf8Scalar_inj hs ht (hbytes.trans hbytes'.symm)

/-- What is written is read back. -/
theorem codePoints_of_encode {s : PyStr} {bytes : List UInt8} (h : encodeUtf8 s = some bytes) :
    codePoints (ofUtf8 bytes) = s := by
  obtain ⟨hlone, rfl⟩ := encodeUtf8_eq_some.mp h
  have hreplace : s.flatMap CodePoint.replaceLone = units s :=
    List.flatMap_congr fun p hp => by
      rw [CodePoint.replaceLone, if_neg (List.any_eq_false.mp hlone p hp)]
  rw [ofUtf8, utf8Decode_flatMap, hreplace, codePoints_units hlone]

/-- What is written is read back, with its line breaks made newlines. -/
theorem readText_of_encode {s : PyStr} {bytes : List UInt8} (h : encodeUtf8 s = some bytes) :
    readText bytes = newlines s := by
  rw [readText, codePoints_of_encode h]

/-! ### Quoting -/

theorem pyEscape_cases (p : CodePoint) :
    (∃ u c, p = .unit u ∧ shortEscape u = some c ∧ pyEscape p = [.unit 0x5C, .unit c]) ∨
      (∃ u, p = .unit u ∧ u < 0x20 ∧ pyEscape p = (unicodeEscape u).map .unit) ∨
        pyEscape p = [p] ∧ p ≠ .unit 0x22 ∧ p ≠ .unit 0x5C ∧ p ≠ newline ∧ p ≠ carriageReturn := by
  cases p with
  | pair high low hhigh hlow => exact .inr (.inr ⟨rfl, nofun, nofun, nofun, nofun⟩)
  | unit u =>
      cases hshort : shortEscape u with
      | some c => exact .inl ⟨u, c, rfl, hshort, by simp [pyEscape, hshort]⟩
      | none =>
          by_cases hcode : u < 0x20
          · exact .inr (.inl ⟨u, rfl, hcode, by simp [pyEscape, hshort, hcode]⟩)
          · refine .inr (.inr ⟨by simp [pyEscape, hshort, hcode], ?_, ?_, ?_, ?_⟩) <;>
              · intro heq
                obtain rfl := CodePoint.unit.inj heq
                revert hshort
                decide

theorem pyEscape_append_inj {p q : CodePoint} {x y : PyStr} (h : pyEscape p ++ x = pyEscape q ++ y) :
    p = q ∧ x = y := by
  obtain ⟨u, c, rfl, hc, hp⟩ | ⟨u, rfl, hu, hp⟩ | ⟨hp, -, hslash, -⟩ := pyEscape_cases p <;>
    obtain ⟨v, d, rfl, hd, hq⟩ | ⟨v, rfl, hv, hq⟩ | ⟨hq, -, hslash', -⟩ := pyEscape_cases q <;>
    rw [hp, hq] at h
  · simp only [List.cons_append, List.nil_append, List.cons.injEq, true_and, CodePoint.unit.injEq] at h
    obtain ⟨rfl, hxy⟩ := h
    exact ⟨congrArg _ (shortEscape_inj hc hd), hxy⟩
  · simp only [unicodeEscape, List.map_cons, List.cons_append, List.nil_append, List.cons.injEq, true_and,
      CodePoint.unit.injEq] at h
    exact absurd h.1 (shortEscape_ne hc)
  · simp only [List.cons_append, List.nil_append, List.cons.injEq] at h
    exact absurd h.1.symm hslash'
  · simp only [unicodeEscape, List.map_cons, List.cons_append, List.nil_append, List.cons.injEq, true_and,
      CodePoint.unit.injEq] at h
    exact absurd h.1.symm (shortEscape_ne hd)
  · have hunits := congrArg units h
    rw [units_append, units_append, units_map_unit, units_map_unit] at hunits
    obtain ⟨rfl, -⟩ := unicodeEscape_append_inj hunits
    exact ⟨rfl, List.append_cancel_left h⟩
  · simp only [unicodeEscape, List.map_cons, List.cons_append, List.cons.injEq] at h
    exact absurd h.1.symm hslash'
  · simp only [List.cons_append, List.nil_append, List.cons.injEq] at h
    exact absurd h.1 hslash
  · simp only [unicodeEscape, List.map_cons, List.cons_append, List.cons.injEq] at h
    exact absurd h.1 hslash
  · simpa using h

theorem pyEscape_append_ne_quote {p : CodePoint} {x y : PyStr} : pyEscape p ++ x ≠ .unit 0x22 :: y := by
  intro h
  obtain ⟨u, c, rfl, hc, hp⟩ | ⟨u, rfl, hu, hp⟩ | ⟨hp, hquote, -⟩ := pyEscape_cases p <;> rw [hp] at h
  · exact absurd (List.cons.inj h).1 (by decide)
  · exact absurd (List.cons.inj h).1 (by decide)
  · exact hquote (List.cons.inj h).1

theorem escaped_append_inj {s t x y : PyStr}
    (h : s.flatMap pyEscape ++ .unit 0x22 :: x = t.flatMap pyEscape ++ .unit 0x22 :: y) :
    s = t ∧ x = y := by
  induction s generalizing t with
  | nil =>
      cases t with
      | nil => simpa using h
      | cons q t =>
          rw [List.flatMap_cons, List.append_assoc] at h
          exact absurd h.symm pyEscape_append_ne_quote
  | cons p s ih =>
      rw [List.flatMap_cons, List.append_assoc] at h
      cases t with
      | nil => exact absurd h pyEscape_append_ne_quote
      | cons q t =>
          rw [List.flatMap_cons, List.append_assoc] at h
          obtain ⟨rfl, hrest⟩ := pyEscape_append_inj h
          obtain ⟨rfl, hxy⟩ := ih hrest
          exact ⟨rfl, hxy⟩

/-- A quoted text ends at its closing quote. -/
theorem pyQuote_append_inj {s t x y : PyStr} (h : pyQuote s ++ x = pyQuote t ++ y) : s = t ∧ x = y := by
  simp only [pyQuote, List.cons_append, List.append_assoc, List.nil_append, List.cons.injEq,
    true_and] at h
  exact escaped_append_inj h

theorem notMem_unicodeEscape {u : UInt16} {c : UInt16} (hc : c < 0x20) : c ∉ unicodeEscape u := by
  have hdigit : ∀ n < 16, ∀ c : UInt16, c < 0x20 → c ≠ hexDigit n := by
    intro n hn c hc heq
    have : ∀ n < 16, ¬ hexDigit n < 0x20 := by decide
    exact this n hn (heq ▸ hc)
  have hu := u.toNat_lt
  simp only [unicodeEscape, List.mem_cons, List.not_mem_nil, or_false, not_or]
  refine ⟨?_, ?_, hdigit _ (by omega) c hc, hdigit _ (by omega) c hc, hdigit _ (by omega) c hc,
    hdigit _ (by omega) c hc⟩ <;>
    · rintro rfl
      exact absurd hc (by decide)

/-- No line break is in a quoted text. -/
theorem notMem_pyQuote {c : CodePoint} (hc : c = newline ∨ c = carriageReturn) (s : PyStr) :
    c ∉ pyQuote s := by
  have hquote : c ≠ .unit 0x22 := by
    rintro rfl
    revert hc
    decide
  rw [pyQuote, List.mem_cons, List.mem_append, List.mem_singleton, not_or, not_or]
  refine ⟨hquote, fun hmem => ?_, hquote⟩
  obtain ⟨p, -, hp⟩ := List.mem_flatMap.mp hmem
  obtain ⟨u, d, rfl, hd, heq⟩ | ⟨u, rfl, hu, heq⟩ | ⟨heq, -, -, hfeed, hreturn⟩ := pyEscape_cases p <;>
    rw [heq] at hp
  · have hall : (shortEscapes.all fun e => decide (e.2 ≠ 0x0A ∧ e.2 ≠ 0x0D)) = true := by decide
    obtain ⟨hfeed, hreturn⟩ := of_decide_eq_true (List.all_eq_true.mp hall _ (mem_shortEscapes hd))
    rw [List.mem_cons, List.mem_singleton] at hp
    obtain rfl | rfl := hc
    · exact hp.elim (by decide) fun heq => hfeed (CodePoint.unit.inj heq).symm
    · exact hp.elim (by decide) fun heq => hreturn (CodePoint.unit.inj heq).symm
  · obtain ⟨d, hd, rfl⟩ := List.mem_map.mp hp
    refine notMem_unicodeEscape ?_ hd
    obtain heq | heq := hc <;> obtain rfl := CodePoint.unit.inj heq <;> decide
  · obtain rfl := List.mem_singleton.mp hp
    obtain rfl | rfl := hc
    · exact hfeed rfl
    · exact hreturn rfl

/-- A text ends at the first of a mark it does not hold. -/
theorem append_mark_inj {α : Type} {mark : α} {s t u v : List α} (hs : mark ∉ s) (ht : mark ∉ t)
    (h : s ++ mark :: u = t ++ mark :: v) : s = t ∧ u = v := by
  induction s generalizing t with
  | nil =>
      cases t with
      | nil => exact ⟨rfl, (List.cons.inj h).2⟩
      | cons b t => exact absurd ((List.cons.inj h).1 ▸ List.mem_cons_self) ht
  | cons a s ih =>
      cases t with
      | nil => exact absurd ((List.cons.inj h).1.symm ▸ List.mem_cons_self) hs
      | cons b t =>
          obtain ⟨rfl, hrest⟩ := List.cons.inj h
          obtain ⟨rfl, huv⟩ := ih (List.not_mem_of_not_mem_cons hs) (List.not_mem_of_not_mem_cons ht) hrest
          exact ⟨rfl, huv⟩

end ContextLayer.PyText

namespace ContextLayer.Frontmatter

open Text PyText

/-! ### Scalars -/

variable {unicode : Unicode}

theorem isDecimal_lineBreak {c : CodePoint} (hc : c = newline ∨ c = carriageReturn ∨ c = .unit 0x22) :
    unicode.isDecimal c = false := by
  obtain rfl | rfl | rfl := hc <;>
    · refine (unicode.isDecimal_ascii _ (by decide)).trans (by decide)

/-- Neither line breaks nor quotes are in what a date or a plain scalar has ahead of a last newline. -/
theorem notMem_upToNewline {s : PyStr} (h : (isDate unicode s || isPlain s) = true) {c : CodePoint}
    (hc : c = newline ∨ c = carriageReturn ∨ c = .unit 0x22) : c ∉ upToNewline s := by
  have hdash : c ≠ .unit 0x2D := by
    obtain rfl | rfl | rfl := hc <;> decide
  rw [Bool.or_eq_true] at h
  obtain h | h := h
  · unfold isDate at h
    split at h
    case h_1 a b c' d dash e f dash' g k heq =>
      rw [Bool.and_eq_true, Bool.and_eq_true, beq_iff_eq, beq_iff_eq, List.all_eq_true] at h
      obtain ⟨⟨hdigits, rfl⟩, rfl⟩ := h
      rw [heq]
      intro hmem
      have hdecimal : c ∈ [a, b, c', d, e, f, g, k] := by
        simp only [List.mem_cons, List.not_mem_nil, or_false] at hmem ⊢
        tauto
      have := hdigits c hdecimal
      rw [isDecimal_lineBreak hc] at this
      cases this
    case h_2 => cases h
  · unfold isPlain at h
    split at h
    case h_1 => cases h
    case h_2 p rest heq =>
      rw [Bool.and_eq_true, List.all_eq_true] at h
      rw [heq, List.mem_cons, not_or]
      constructor
      · rintro rfl
        revert h
        obtain rfl | rfl | rfl := hc <;> · rintro ⟨h, -⟩; revert h; decide
      · intro hmem
        have := h.2 c hmem
        revert this
        obtain rfl | rfl | rfl := hc <;> decide

theorem upToNewline_eq (s : PyStr) : s = upToNewline s ∨ s = upToNewline s ++ [newline] := by
  unfold upToNewline
  by_cases hlast : s.getLast? = some newline
  · rw [if_pos hlast]
    exact .inr (List.dropLast_append_getLast? newline hlast).symm
  · rw [if_neg hlast]
    exact .inl rfl

/-- A scalar is one line, and perhaps a line break. -/
theorem scalar_cases (unicode : Unicode) (value : PyStr) : ∃ text, newline ∉ text ∧ carriageReturn ∉ text ∧
    (scalar unicode value = text ∨ scalar unicode value = text ++ [newline]) := by
  unfold scalar
  by_cases h : (isDate unicode value || isPlain value) = true
  · rw [if_pos h]
    exact ⟨upToNewline value, notMem_upToNewline h (.inl rfl), notMem_upToNewline h (.inr (.inl rfl)),
      upToNewline_eq value⟩
  · rw [if_neg h]
    exact ⟨pyQuote value, notMem_pyQuote (.inl rfl) value, notMem_pyQuote (.inr rfl) value, .inl rfl⟩

theorem head?_ne_quote {s : PyStr} (h : (isDate unicode s || isPlain s) = true) :
    s.head? ≠ some (.unit 0x22) := by
  intro hhead
  have hnotMem := notMem_upToNewline h (.inr (.inr rfl))
  obtain heq | heq := upToNewline_eq s
  · rw [← heq] at hnotMem
    exact hnotMem (List.mem_of_head? hhead)
  · have hmem := List.mem_of_head? hhead
    rw [heq, List.mem_append, List.mem_singleton] at hmem
    exact hmem.elim hnotMem (by decide)

theorem scalar_injective : Function.Injective (scalar unicode) := by
  intro a b h
  unfold scalar at h
  by_cases ha : (isDate unicode a || isPlain a) = true
  · by_cases hb : (isDate unicode b || isPlain b) = true
    · rwa [if_pos ha, if_pos hb] at h
    · rw [if_pos ha, if_neg hb] at h
      exact absurd (congrArg List.head? h) (head?_ne_quote ha)
  · by_cases hb : (isDate unicode b || isPlain b) = true
    · rw [if_neg ha, if_pos hb] at h
      exact absurd (congrArg List.head? h).symm (head?_ne_quote hb)
    · rw [if_neg ha, if_neg hb] at h
      exact (pyQuote_append_inj (congrArg (· ++ []) h)).1

/-- A scalar ends at its line break, if no other line break follows. -/
theorem scalar_append_inj {a b u v : PyStr} (hu : u.head? ≠ some newline) (hv : v.head? ≠ some newline)
    (h : scalar unicode a ++ newline :: u = scalar unicode b ++ newline :: v) : a = b ∧ u = v := by
  obtain ⟨s, hs, -, hscalar⟩ := scalar_cases unicode a
  obtain ⟨t, ht, -, hscalar'⟩ := scalar_cases unicode b
  have hsame : scalar unicode a = scalar unicode b ∧ u = v := by
    obtain heq | heq := hscalar <;> obtain heq' | heq' := hscalar' <;> rw [heq, heq'] at h ⊢
    · obtain ⟨hst, huv⟩ := append_mark_inj hs ht h
      exact ⟨hst, huv⟩
    · rw [List.append_assoc, List.singleton_append] at h
      obtain ⟨-, huv⟩ := append_mark_inj hs ht h
      exact absurd (congrArg List.head? huv) hu
    · rw [List.append_assoc, List.singleton_append] at h
      obtain ⟨-, huv⟩ := append_mark_inj hs ht h
      exact absurd (congrArg List.head? huv).symm hv
    · rw [List.append_assoc, List.append_assoc, List.singleton_append, List.singleton_append] at h
      obtain ⟨hst, huv⟩ := append_mark_inj hs ht h
      exact ⟨hst ▸ rfl, (List.cons.inj huv).2⟩
  exact ⟨scalar_injective hsame.1, hsame.2⟩

theorem carriageReturn_notMem_scalar (value : PyStr) : carriageReturn ∉ scalar unicode value := by
  obtain ⟨text, -, htext, heq | heq⟩ := scalar_cases unicode value <;> rw [heq]
  · exact htext
  · rw [List.mem_append, List.mem_singleton, not_or]
    exact ⟨htext, by decide⟩

/-! ### The emitted block -/

/-- The mark is found where nothing ahead of it starts with one. -/
theorem find?_append {needle a b : PyStr}
    (h : ∀ x y, a = x ++ y → y ≠ [] → ¬ needle <+: y ++ (needle ++ b)) :
    find? needle (a ++ (needle ++ b)) = some a.length := by
  induction a with
  | nil =>
      rw [List.nil_append, List.length_nil]
      cases hsplit : needle ++ b with
      | nil =>
          rw [find?, if_pos (List.append_eq_nil_iff.mp hsplit).1]
      | cons p rest =>
          rw [find?, ← hsplit, if_pos (List.prefix_append needle b)]
  | cons p a ih =>
      have hne := h [] (p :: a) rfl (List.cons_ne_nil p a)
      rw [List.cons_append] at hne ⊢
      rw [find?, if_neg hne, ih fun x y hsplit => h (p :: x) y (hsplit ▸ rfl)]
      rfl

/-- No line starts with a dash. -/
def Calm (c d : CodePoint) : Prop := c = newline → d ≠ .unit 0x2D

theorem isChain_calm {s : PyStr} (h : newline ∉ s) (rest : PyStr)
    (hrest : List.IsChain Calm (newline :: rest)) : List.IsChain Calm (s ++ newline :: rest) := by
  induction s with
  | nil => exact hrest
  | cons c s ih =>
      rw [List.mem_cons, not_or] at h
      have hhead : ∀ d, Calm c d := fun d hc => absurd hc.symm h.1
      cases s with
      | nil => exact List.isChain_cons_cons.mpr ⟨hhead _, hrest⟩
      | cons d s => exact List.isChain_cons_cons.mpr ⟨hhead d, ih h.2⟩

theorem isChain_line {s : PyStr} (h : newline ∉ s) (hdash : s.head? ≠ some (.unit 0x2D)) (rest : PyStr)
    (hrest : List.IsChain Calm (newline :: rest)) : List.IsChain Calm (newline :: (s ++ newline :: rest)) := by
  have hchain := isChain_calm h rest hrest
  cases s with
  | nil => exact List.isChain_cons_cons.mpr ⟨fun _ => by decide, hchain⟩
  | cons c s => exact List.isChain_cons_cons.mpr ⟨fun _ hc => hdash (hc ▸ rfl), hchain⟩

/-- Fields under names that start no fence, and kinds on one line. -/
def Plain (fields : Fields) : Prop :=
  ∀ f ∈ fields, newline ∉ f.1 ∧ f.1 ≠ [] ∧ f.1.head? ≠ some (.unit 0x2D) ∧
    ∀ roster, f.2 = .objects roster → ∀ e ∈ roster, newline ∉ e.kind

theorem notMem_intText {c : CodePoint} (hc : c = newline ∨ c = carriageReturn) (n : Int) : c ∉ intText n := by
  intro hmem
  obtain ⟨u, hu, rfl⟩ := List.mem_map.mp hmem
  have hnumeric := (JsNumber.ofInt n).numeric u hu
  obtain heq | heq := hc <;>
    · obtain rfl := CodePoint.unit.inj heq
      exact absurd hnumeric (by decide)

/-- What is printed of a field is a roster, or one line behind the name and perhaps a line break. -/
theorem fieldLines_cases (unicode : Unicode) (f : PyStr × FieldValue) : (∃ roster, f.2 = .objects roster) ∨
    ∃ text, newline ∉ text ∧ carriageReturn ∉ text ∧ (fieldLines unicode f = f.1 ++ py ": " ++ text ++ [newline] ∨
      fieldLines unicode f = f.1 ++ py ": " ++ (text ++ [newline]) ++ [newline]) := by
  have hnewline : py "\n" = [newline] := by decide
  obtain ⟨key, value⟩ := f
  cases value with
  | objects roster => exact .inl ⟨roster, rfl⟩
  | null =>
      refine .inr ⟨py "null", by decide, by decide, .inl ?_⟩
      rw [fieldLines, List.append_assoc, List.append_assoc]
      exact congrArg _ (by decide)
  | bool b =>
      refine .inr ⟨py (if b then "true" else "false"), ?_, ?_, .inl (hnewline ▸ rfl)⟩ <;> cases b <;> decide
  | int n =>
      exact .inr ⟨intText n, notMem_intText (.inl rfl) n, notMem_intText (.inr rfl) n, .inl (hnewline ▸ rfl)⟩
  | text value =>
      obtain ⟨text, hfeed, hreturn, hscalar⟩ := scalar_cases unicode value
      refine .inr ⟨text, hfeed, hreturn, ?_⟩
      rw [fieldLines, hnewline]
      exact hscalar.imp (fun heq => by rw [heq]) fun heq => by rw [heq]

/-- A line of its own: no line break inside, and no dash in front. -/
def IsLine (line : PyStr) : Prop := ∃ s, newline ∉ s ∧ s.head? ≠ some (.unit 0x2D) ∧ line = s ++ [newline]

/-- An emitted field is made of lines. -/
theorem exists_lines {f : PyStr × FieldValue} (hline : newline ∉ f.1) (hne : f.1 ≠ [])
    (hdash : f.1.head? ≠ some (.unit 0x2D))
    (hkinds : ∀ roster, f.2 = .objects roster → ∀ e ∈ roster, newline ∉ e.kind) :
    ∃ ls : List PyStr, ls ≠ [] ∧ (∀ l ∈ ls, IsLine l) ∧ fieldLines unicode f = ls.flatten := by
  obtain ⟨roster, hroster⟩ | ⟨text, htext, -, hcases⟩ := fieldLines_cases unicode f
  · refine ⟨py "objects:\n" :: roster.map rosterLine, List.cons_ne_nil _ _, ?_, ?_⟩
    · rintro l hl
      obtain rfl | hl := List.mem_cons.mp hl
      · exact ⟨py "objects:", by decide, by decide, by decide⟩
      · obtain ⟨e, he, rfl⟩ := List.mem_map.mp hl
        refine ⟨py "  - \x7b object: " ++ pyQuote e.object ++ py ", kind: " ++ e.kind ++ py ", schema_hash: " ++
          pyQuote e.schemaHash ++ py " \x7d", ?_, ?_, ?_⟩
        · simp only [List.mem_append, not_or]
          exact ⟨⟨⟨⟨⟨⟨by decide, notMem_pyQuote (.inl rfl) _⟩, by decide⟩, hkinds roster hroster e he⟩, by decide⟩,
            notMem_pyQuote (.inl rfl) _⟩, by decide⟩
        · simp only [List.append_assoc]
          rw [List.head?_append_of_ne_nil _ (by decide)]
          decide
        · have hend : py " \x7d\n" = py " \x7d" ++ [newline] := by decide
          rw [rosterLine, hend]
          simp only [List.append_assoc]
    · obtain ⟨key, value⟩ := f
      obtain rfl : value = .objects roster := hroster
      rw [fieldLines, List.flatten_cons, ← List.flatMap_def]
  · have hbody : newline ∉ f.1 ++ py ": " ++ text := by
      rw [List.mem_append, List.mem_append, not_or, not_or]
      exact ⟨⟨hline, by decide⟩, htext⟩
    have hhead : (f.1 ++ py ": " ++ text).head? ≠ some (.unit 0x2D) := by
      rw [List.append_assoc, List.head?_append_of_ne_nil _ hne]
      exact hdash
    obtain heq | heq := hcases
    · refine ⟨[f.1 ++ py ": " ++ text ++ [newline]], List.cons_ne_nil _ _, ?_, ?_⟩
      · rintro l hl
        exact ⟨_, hbody, hhead, List.mem_singleton.mp hl⟩
      · rw [heq, List.flatten_singleton]
    · refine ⟨[f.1 ++ py ": " ++ text ++ [newline], [newline]], List.cons_ne_nil _ _, ?_, ?_⟩
      · rintro l hl
        obtain rfl | hl := List.mem_cons.mp hl
        · exact ⟨_, hbody, hhead, rfl⟩
        · exact ⟨[], List.not_mem_nil, nofun, List.mem_singleton.mp hl⟩
      · rw [heq]
        simp only [List.flatten_cons, List.flatten_nil, List.append_assoc, List.append_nil]

theorem isChain_lines {ls : List PyStr} (h : ∀ l ∈ ls, IsLine l) {rest : PyStr}
    (hrest : List.IsChain Calm (newline :: rest)) : List.IsChain Calm (newline :: (ls.flatten ++ rest)) := by
  induction ls with
  | nil => exact hrest
  | cons l ls ih =>
      obtain ⟨s, hs, hdash, rfl⟩ := h l List.mem_cons_self
      rw [List.flatten_cons, List.append_assoc, List.append_assoc, List.singleton_append]
      exact isChain_line hs hdash _ (ih fun l hl => h l (List.mem_cons_of_mem _ hl))

theorem getLast?_lines {ls : List PyStr} (hne : ls ≠ []) (h : ∀ l ∈ ls, IsLine l) :
    ls.flatten.getLast? = some newline := by
  obtain ⟨init, l, rfl⟩ := List.eq_nil_or_concat' ls |>.resolve_left hne
  obtain ⟨s, -, -, rfl⟩ := h l (List.mem_append_right _ (List.mem_singleton_self l))
  rw [List.flatten_append, List.flatten_singleton, ← List.append_assoc, List.getLast?_concat]

theorem isChain_fields (unicode : Unicode) {fields : Fields} (h : Plain fields) :
    List.IsChain Calm (newline :: fields.flatMap (fieldLines unicode)) := by
  induction fields with
  | nil => exact List.IsChain.singleton _
  | cons f fields ih =>
      obtain ⟨hline, hne, hdash, hkinds⟩ := h f List.mem_cons_self
      obtain ⟨ls, -, hls, hlines⟩ := @exists_lines unicode f hline hne hdash hkinds
      rw [List.flatMap_cons, hlines]
      exact isChain_lines hls (ih fun g hg => h g (List.mem_cons_of_mem f hg))

theorem getLast?_fields (unicode : Unicode) (fields : Fields) (h : Plain fields) :
    (newline :: fields.flatMap (fieldLines unicode)).getLast? = some newline := by
  induction fields with
  | nil => rfl
  | cons f fields ih =>
      have hrest := ih fun g hg => h g (List.mem_cons_of_mem f hg)
      obtain ⟨hline, hne, hdash, hkinds⟩ := h f List.mem_cons_self
      obtain ⟨ls, hls, hlines, heq⟩ := @exists_lines unicode f hline hne hdash hkinds
      have hlast := getLast?_lines hls hlines
      rw [List.flatMap_cons, heq]
      cases hfields : fields.flatMap (fieldLines unicode) with
      | nil => rw [List.append_nil, List.getLast?_cons, hlast, Option.getD_some]
      | cons c rest =>
          rw [← List.cons_append, List.getLast?_append_of_ne_nil _ (List.cons_ne_nil _ _)]
          rwa [hfields, List.getLast?_cons_cons] at hrest

/-- Where an emitted block is cut from what follows it. -/
theorem cut_emit (unicode : Unicode) {fields : Fields} (h : Plain fields) (rest : PyStr) :
    let text := emit unicode fields ++ rest
    let block := fields.flatMap (fieldLines unicode)
    fence <+: text ∧ find? (py "\n---\n") (text.drop 3) = some block.length ∧
      (text.drop 4).take block.length = block ∧ text.drop (block.length + 8) = rest := by
  have hfence : fence = [.unit 0x2D, .unit 0x2D, .unit 0x2D, newline] := by decide
  have hneedle : py "\n---\n" = newline :: fence := by decide
  obtain ⟨a, ha⟩ := List.getLast?_eq_some_iff.mp (getLast?_fields unicode fields h)
  have hchain := isChain_fields unicode h
  set block := fields.flatMap (fieldLines unicode) with hblock
  have htext : emit unicode fields ++ rest = fence ++ (block ++ (fence ++ rest)) := by
    rw [emit, ← hblock]
    simp only [List.append_assoc]
  have hfind : find? (py "\n---\n") ((emit unicode fields ++ rest).drop 3) = some block.length := by
    have hdrop : (emit unicode fields ++ rest).drop 3 = a ++ (py "\n---\n" ++ rest) := by
      calc (emit unicode fields ++ rest).drop 3
          = newline :: block ++ (fence ++ rest) := by rw [htext, hfence]; rfl
        _ = a ++ (py "\n---\n" ++ rest) := by rw [ha, hneedle, List.append_assoc]; rfl
    have hlength : a.length = block.length := by
      have := congrArg List.length ha
      rw [List.length_cons, List.length_append, List.length_singleton] at this
      omega
    rw [hdrop, ← hlength]
    refine find?_append fun x y hsplit hne hprefix => ?_
    -- A line break that starts the mark has a dash behind it.
    rw [ha, hsplit, List.append_assoc] at hchain
    have hsuffix := (hchain.suffix (List.suffix_append x _) :)
    cases y with
    | nil => exact hne rfl
    | cons c y =>
        rw [hneedle, hfence, List.cons_append, List.cons_prefix_cons] at hprefix
        obtain ⟨rfl, hprefix⟩ := hprefix
        cases y with
        | nil =>
            rw [List.nil_append, List.cons_append, List.cons_prefix_cons] at hprefix
            exact absurd hprefix.1 (by decide)
        | cons d y =>
            rw [List.cons_append, List.cons_prefix_cons] at hprefix
            exact (List.isChain_cons_cons.mp hsuffix).1 rfl hprefix.1.symm
  refine ⟨htext ▸ List.prefix_append _ _, hfind, ?_, ?_⟩
  · rw [htext, hfence]
    exact List.take_left
  · rw [htext, hfence, Nat.add_comm]
    calc List.drop (8 + block.length) ([.unit 0x2D, .unit 0x2D, .unit 0x2D, newline] ++ (block ++
          ([.unit 0x2D, .unit 0x2D, .unit 0x2D, newline] ++ rest)))
        = List.drop 4 (List.drop block.length (block ++
          ([.unit 0x2D, .unit 0x2D, .unit 0x2D, newline] ++ rest))) := by
          rw [List.drop_drop, show 8 + block.length = 4 + (block.length + 4) by omega, ← List.drop_drop]
          rfl
      _ = rest := by rw [List.drop_left]; rfl

/-- **An emitted block is read back** as it was written. -/
theorem split_emit {yaml : PyStr → Option PyJson} {fields : Fields} (h : Plain fields) (rest : PyStr) :
    split yaml (emit unicode fields ++ rest) =
      match yaml (fields.flatMap (fieldLines unicode)) with
      | some (.obj members) => (some members, rest)
      | _ => (none, emit unicode fields ++ rest) := by
  obtain ⟨hfence, hfind, hraw, hbody⟩ := cut_emit unicode h rest
  rw [split, if_pos hfence, hfind]
  dsimp only
  rw [hraw]
  cases yaml (fields.flatMap (fieldLines unicode)) with
  | none => rfl
  | some v =>
      cases v with
      | obj members => exact congrArg (Prod.mk (some members)) hbody
      | _ => rfl

theorem carriageReturn_notMem_fieldLines {f : PyStr × FieldValue} (hkey : carriageReturn ∉ f.1)
    (hkinds : ∀ roster, f.2 = .objects roster → ∀ e ∈ roster, carriageReturn ∉ e.kind) :
    carriageReturn ∉ fieldLines unicode f := by
  obtain ⟨roster, hroster⟩ | ⟨text, -, htext, hcases⟩ := fieldLines_cases unicode f
  · obtain ⟨key, value⟩ := f
    obtain rfl : value = .objects roster := hroster
    rw [fieldLines, List.mem_append, not_or]
    refine ⟨by decide, fun hmem => ?_⟩
    obtain ⟨e, he, hmem⟩ := List.mem_flatMap.mp hmem
    revert hmem
    simp only [rosterLine, List.mem_append, imp_false, not_or]
    exact ⟨⟨⟨⟨⟨⟨by decide, notMem_pyQuote (.inr rfl) _⟩, by decide⟩, hkinds roster rfl e he⟩, by decide⟩,
      notMem_pyQuote (.inr rfl) _⟩, by decide⟩
  · have hfeed : carriageReturn ∉ [newline] := by decide
    obtain heq | heq := hcases <;> rw [heq] <;> simp only [List.mem_append, not_or]
    · exact ⟨⟨⟨hkey, by decide⟩, htext⟩, hfeed⟩
    · exact ⟨⟨⟨hkey, by decide⟩, htext, hfeed⟩, hfeed⟩

theorem carriageReturn_notMem_emit {fields : Fields}
    (h : ∀ f ∈ fields, carriageReturn ∉ fieldLines unicode f) : carriageReturn ∉ emit unicode fields := by
  rw [emit, List.mem_append, List.mem_append, not_or, not_or]
  refine ⟨⟨by decide, fun hmem => ?_⟩, by decide⟩
  obtain ⟨f, hf, hmem⟩ := List.mem_flatMap.mp hmem
  exact h f hf hmem

end ContextLayer.Frontmatter
