import Mathlib.Data.Nat.Digits.Lemmas
import ContextLayer.Pages
import ContextLayer.Proof.RenderTree

/-!
# Front matter round trips

A quoted string is read back when the reader takes its characters, no blank stands beside a line separator and no
line in it ends the document; a plain one when it is one line, no word of YAML's and no impossible day.
-/

namespace ContextLayer.Frontmatter

open Text PyText YamlScalars Render

/-! ### Pieces of a quoted string -/

/-- The line breaks `json.dumps` prints as they are. -/
def isRawBreak (c : CodePoint) : Bool := decide (c = nextLine) || isLineSeparator c

def pieceOf (c : CodePoint) : ScalarPiece :=
  if c = space then .blank c else if isRawBreak c then .lineBreak (lineBreakOf c) else .text [c]

theorem escape_short {u c : UInt16} (h : shortEscape u = some c) (rest : PyStr) :
    escape (.unit c :: rest) = some (.text [.unit u], 1) := by
  have hall : (shortEscapes.all fun e => decide (Dict.get? escapeReplacements e.2 = some e.1)) = true := by decide
  have hreplaced := of_decide_eq_true (List.all_eq_true.mp hall _ (mem_shortEscapes h))
  simp only [escape, hreplaced]

/-- A control character is read back from its code. -/
theorem escape_code {u : UInt16} (h : u < 0x20) (rest : PyStr) :
    escape (((unicodeEscape u).map CodePoint.unit).tail ++ rest) = some (.text [.unit u], 5) := by
  have hall : ∀ n < 0x20, (((((unicodeEscape (UInt16.ofNat n)).map CodePoint.unit).drop 2).mapM hexValue?).bind fun digits =>
      chr (Nat.ofDigits 16 digits.reverse)) = some [.unit (UInt16.ofNat n)] := by decide
  have hu := hall u.toNat (UInt16.lt_iff_toNat_lt.mp h)
  rw [UInt16.ofNat_toNat] at hu
  have hcode : Dict.get? escapeReplacements 0x75 = none ∧ Dict.get? escapeCodes 0x75 = some 4 := by decide
  set hex := ((unicodeEscape u).map CodePoint.unit).drop 2 with hhex
  have htail : ((unicodeEscape u).map CodePoint.unit).tail ++ rest = .unit 0x75 :: (hex ++ rest) := rfl
  have hlength : hex.length = 4 := rfl
  have htake : (hex ++ rest).take 4 = hex := by rw [← hlength, List.take_left]
  have henough : ¬ (hex ++ rest).length < 4 := by
    rw [List.length_append, hlength]
    omega
  obtain ⟨digits, hdigits, hchr⟩ := Option.bind_eq_some_iff.mp hu
  rw [htail]
  simp only [escape, hcode, if_neg henough, htake, hdigits, Option.bind_some, hchr, Option.map_some]

theorem pieces_skip (skip : Nat) (a rest : PyStr) (h : a.length = skip) : pieces skip (a ++ rest) = pieces 0 rest := by
  induction a generalizing skip with
  | nil => rw [← h]; rfl
  | cons c a ih =>
      rw [← h, List.length_cons, List.cons_append, pieces]
      exact ih _ rfl

/-- One character of a quoted string is one piece, and a separator the end of the scalar if a document may end there. -/
theorem pieces_pyEscape (c : CodePoint) (rest : PyStr) :
    pieces 0 (pyEscape c ++ rest) =
      if (isRawBreak c && isDocumentEnd rest) = true then none else (pieces 0 rest).map (pieceOf c :: ·) := by
  obtain ⟨u, d, rfl, hd, hp⟩ | ⟨u, rfl, hu, hp⟩ | ⟨hp, hquote, hslash, hfeed, hreturn⟩ := pyEscape_cases c
  · have hplain : isRawBreak (.unit u) = false ∧ pieceOf (.unit u) = .text [.unit u] := by
      have hall : (shortEscapes.all fun e => decide (isRawBreak (.unit e.1) = false ∧ CodePoint.unit e.1 ≠ space)) = true := by
        decide
      obtain ⟨hbreak, hspace⟩ := of_decide_eq_true (List.all_eq_true.mp hall _ (mem_shortEscapes hd))
      exact ⟨hbreak, by rw [pieceOf, if_neg hspace, if_neg (by simp [hbreak])]⟩
    rw [hp, hplain.1, hplain.2]
    simp only [List.cons_append, List.nil_append, pieces, escape_short hd]
    simp
  · have hplain : isRawBreak (.unit u) = false ∧ pieceOf (.unit u) = .text [.unit u] := by
      have hall : ∀ n < 0x20, isRawBreak (.unit (UInt16.ofNat n)) = false ∧ CodePoint.unit (UInt16.ofNat n) ≠ space := by
        decide
      have hn := hall u.toNat (UInt16.lt_iff_toNat_lt.mp hu)
      rw [UInt16.ofNat_toNat] at hn
      exact ⟨hn.1, by rw [pieceOf, if_neg hn.2, if_neg (by simp [hn.1])]⟩
    have hhead : (unicodeEscape u).map CodePoint.unit = .unit 0x5C :: ((unicodeEscape u).map CodePoint.unit).tail := rfl
    rw [hp, hplain.1, hplain.2, hhead, List.cons_append, pieces]
    have hskip := pieces_skip 5 ((unicodeEscape u).map CodePoint.unit).tail rest rfl
    simp only [escape_code hu, hskip]
    simp
  · have htab : c ≠ tab := by
      rintro rfl
      exact absurd hp (by decide)
    have hblank : isBlank c = decide (c = space) := by simp [isBlank, htab]
    have hbreak : isScalarBreak c = isRawBreak c := by simp [isScalarBreak, isRawBreak, hfeed, hreturn]
    rw [hp, List.singleton_append, pieces, if_neg hquote, if_neg hslash, hblank, hbreak]
    by_cases hspace : c = space
    · subst hspace
      simp [pieceOf, show isRawBreak space = false by decide]
    · by_cases hraw : isRawBreak c = true
      · simp [pieceOf, hspace, hraw, hreturn]
      · simp [pieceOf, hspace, hraw]

/-- A line break in a string behind which a document may end. -/
def endsScalar : PyStr → Bool
  | [] => false
  | c :: rest => (isRawBreak c && isDocumentEnd (rest.flatMap pyEscape ++ [.unit 0x22])) || endsScalar rest

theorem pieces_quoted (s : PyStr) :
    pieces 0 (s.flatMap pyEscape ++ [.unit 0x22]) = if endsScalar s = true then none else some (s.map pieceOf) := by
  induction s with
  | nil => rfl
  | cons c s ih =>
      rw [List.flatMap_cons, List.append_assoc, pieces_pyEscape, ih, endsScalar]
      by_cases hend : (isRawBreak c && isDocumentEnd (s.flatMap pyEscape ++ [.unit 0x22])) = true
      · simp [hend]
      · by_cases hrest : endsScalar s = true <;> simp [hend, hrest]

/-! ### Folding -/

theorem length_fold_le (b : Bool) (s : PyStr) : (fold b (s.map pieceOf)).length ≤ s.length := by
  induction s generalizing b with
  | nil => rfl
  | cons c s ih =>
      have htrue := ih true
      have hfalse := ih false
      rw [List.map_cons, pieceOf]
      by_cases hspace : c = space
      · rw [if_pos hspace, fold]
        split
        · exact (ih b).trans (Nat.le_succ _)
        · exact Nat.succ_le_succ hfalse
      · rw [if_neg hspace]
        by_cases hraw : isRawBreak c = true
        · rw [if_pos hraw, fold, List.length_append, List.length_cons]
          split
          · rw [List.length_singleton]
            omega
          · split
            · rw [List.length_nil]
              omega
            · rw [List.length_singleton]
              omega
        · rw [if_neg hraw, fold, List.length_append, List.length_singleton, List.length_cons]
          omega

/-- Spaces ahead of a separator stand beside it in the end. -/
theorem not_isChain_of_breakAhead {s : PyStr} (hnext : nextLine ∉ s) (h : breakAhead (s.map pieceOf) = true) :
    ¬ (space :: s).IsChain fun c d => ¬ Folds c d := by
  induction s with
  | nil => cases h
  | cons c s ih =>
      rw [List.mem_cons, not_or] at hnext
      rw [List.isChain_cons_cons]
      rintro ⟨hfolds, hchain⟩
      rw [List.map_cons, pieceOf] at h
      by_cases hspace : c = space
      · subst hspace
        exact ih hnext.2 h hchain
      · rw [if_neg hspace] at h
        by_cases hraw : isRawBreak c = true
        · rw [isRawBreak, Bool.or_eq_true, decide_eq_true_eq] at hraw
          exact hfolds (.inl ⟨rfl, hraw.resolve_left fun heq => hnext.1 heq.symm⟩)
        · rw [if_neg hraw] at h
          cases h

/-- Folding leaves a string alone exactly when it has nothing to fold. -/
theorem fold_eq_iff (b : Bool) (s : PyStr) : fold b (s.map pieceOf) = s ↔
    nextLine ∉ s ∧ (s.IsChain fun c d => ¬ Folds c d) ∧ (b = true → s.head? ≠ some space) := by
  induction s generalizing b with
  | nil => simp [fold]
  | cons c s ih =>
      have hlonger : ∀ b, fold b (s.map pieceOf) ≠ c :: s := by
        intro b heq
        have hle := length_fold_le b s
        rw [heq, List.length_cons] at hle
        omega
      rw [List.map_cons, pieceOf]
      by_cases hspace : c = space
      · subst hspace
        rw [if_pos rfl, fold]
        by_cases hb : b = true
        · simp [hb, hlonger]
        · by_cases hahead : breakAhead (s.map pieceOf) = true
          · have hnot : ¬ (nextLine ∉ space :: s ∧ ((space :: s).IsChain fun c d => ¬ Folds c d)) := by
              rintro ⟨hnext, hchain⟩
              exact not_isChain_of_breakAhead (fun hmem => hnext (List.mem_cons_of_mem _ hmem)) hahead hchain
            rw [if_pos (by simp [hahead])]
            exact iff_of_false (hlonger b) fun hall => hnot ⟨hall.1, hall.2.1⟩
          · rw [if_neg (by simp [hb, hahead]), List.cons.injEq, ih false]
            have hhead : ∀ d ∈ s.head?, ¬ Folds space d := by
              rintro d hd (⟨-, hsep⟩ | ⟨hsep, -⟩)
              · cases s with
                | nil => cases hd
                | cons e s =>
                    obtain rfl : e = d := by simpa using hd
                    refine hahead ?_
                    have hne : e ≠ space := by
                      rintro rfl
                      exact absurd hsep (by decide)
                    have hraw : isRawBreak e = true := by simp [isRawBreak, hsep]
                    rw [List.map_cons, pieceOf, if_neg hne, if_pos hraw]
                    rfl
              · exact absurd hsep (by decide)
            have hnext : nextLine ≠ space := by decide
            simp only [List.mem_cons, not_or, List.isChain_cons, hb]
            tauto
      · by_cases hnext : c = nextLine
        · subst hnext
          refine iff_of_false ?_ fun hall => hall.1 List.mem_cons_self
          have hpiece : ∀ rest, fold b (.lineBreak newline :: rest) =
              (if b then [newline] else if breakAhead rest then [] else [space]) ++ fold true rest := by
            intro rest
            simp [fold]
          rw [if_neg hspace, if_pos (by decide), show lineBreakOf nextLine = newline by decide, hpiece]
          split
          · intro heq
            exact absurd (List.cons.inj heq).1 (by decide)
          · split
            · exact hlonger true
            · intro heq
              exact absurd (List.cons.inj heq).1 (by decide)
        · by_cases hsep : isLineSeparator c = true
          · have hne : c ≠ newline := by
              rintro rfl
              exact absurd hsep (by decide)
            rw [if_neg hspace, if_pos (by simp [isRawBreak, hsep]), lineBreakOf, if_pos hsep, fold,
              if_pos (by simp [hne]), List.singleton_append, List.cons.injEq, ih true]
            have hhead : (∀ d ∈ s.head?, ¬ Folds c d) ↔ s.head? ≠ some space := by
              cases s with
              | nil => simp
              | cons d s => simp [Folds, hspace, hsep]
            have hnext' : nextLine ≠ c := fun heq => hnext heq.symm
            simp only [List.mem_cons, not_or, List.isChain_cons, hhead, List.head?_cons, ne_eq, Option.some.injEq]
            tauto
          · rw [if_neg hspace, if_neg (by simp [isRawBreak, hsep, hnext]), fold, List.singleton_append,
              List.cons.injEq, ih false]
            have hhead : ∀ d ∈ s.head?, ¬ Folds c d := by
              rintro d - (⟨heq, -⟩ | ⟨heq, -⟩)
              · exact hspace heq
              · exact hsep heq
            have hnext' : nextLine ≠ c := fun heq => hnext heq.symm
            simp only [List.mem_cons, not_or, List.isChain_cons, List.head?_cons, ne_eq, Option.some.injEq]
            tauto

/-! ### Ends of a document -/

theorem flatMap_pyEscape_self {s : PyStr} (h : ∀ c ∈ s, pyEscape c = [c]) : s.flatMap pyEscape = s := by
  induction s with
  | nil => rfl
  | cons c s ih =>
      rw [List.flatMap_cons, h c List.mem_cons_self, ih fun d hd => h d (List.mem_cons_of_mem _ hd)]
      rfl

/-- Characters that need no escape stand in front of a quoted string as they do in front of the string. -/
theorem prefix_quoted_iff {marker : PyStr} (hmarker : ∀ c ∈ marker, pyEscape c = [c] ∧ c ≠ .unit 0x22 ∧ c ≠ .unit 0x5C)
    (s : PyStr) : marker <+: s.flatMap pyEscape ++ [CodePoint.unit 0x22] ↔ marker <+: s := by
  induction marker generalizing s with
  | nil => simp
  | cons m marker ih =>
      obtain ⟨-, hquote, hslash⟩ := hmarker m List.mem_cons_self
      cases s with
      | nil => simp [hquote]
      | cons c s =>
          rw [List.flatMap_cons, List.append_assoc]
          obtain ⟨u, d, rfl, -, hp⟩ | ⟨u, rfl, -, hp⟩ | ⟨hp, -⟩ := pyEscape_cases c
          · refine iff_of_false (fun h => ?_) fun h => ?_
            · rw [hp] at h
              exact hslash (List.cons_prefix_cons.mp h).1
            · obtain rfl := (List.cons_prefix_cons.mp h).1
              have hself := (hmarker _ List.mem_cons_self).1
              rw [hp] at hself
              cases hself
          · refine iff_of_false (fun h => ?_) fun h => ?_
            · rw [hp] at h
              exact hslash (List.cons_prefix_cons.mp h).1
            · obtain rfl := (List.cons_prefix_cons.mp h).1
              have hself := (hmarker _ List.mem_cons_self).1
              rw [hp] at hself
              cases hself
          · rw [hp, List.singleton_append, List.cons_prefix_cons, List.cons_prefix_cons,
              ih fun d hd => hmarker d (List.mem_cons_of_mem _ hd)]

/-- What may stand behind a marker that ends a document, in quotes. -/
theorem head?_quoted (s : PyStr) :
    (s.flatMap pyEscape ++ [CodePoint.unit 0x22]).head?.all (fun c => isBlank c || isScalarBreak c || decide (c = CodePoint.unit 0x00)) =
      s.head?.any fun c => decide (c = space) || isRawBreak c := by
  cases s with
  | nil => rfl
  | cons c s =>
      have hslash : (isBlank (.unit 0x5C) || isScalarBreak (.unit 0x5C) || decide (CodePoint.unit 0x5C = .unit 0x00)) = false := by
        decide
      rw [List.flatMap_cons, List.append_assoc]
      obtain ⟨u, d, rfl, hd, hp⟩ | ⟨u, rfl, hu, hp⟩ | ⟨hp, -, -, hfeed, hreturn⟩ := pyEscape_cases c
      · have hall : (shortEscapes.all fun e => decide ((decide (CodePoint.unit e.1 = space) || isRawBreak (.unit e.1)) = false)) =
            true := by decide
        have hplain := of_decide_eq_true (List.all_eq_true.mp hall _ (mem_shortEscapes hd))
        rw [hp]
        exact hslash.trans hplain.symm
      · have hall : ∀ n < 0x20,
            (decide (CodePoint.unit (UInt16.ofNat n) = space) || isRawBreak (.unit (UInt16.ofNat n))) = false := by
          decide
        have hplain := hall u.toNat (UInt16.lt_iff_toNat_lt.mp hu)
        rw [UInt16.ofNat_toNat] at hplain
        rw [hp]
        exact hslash.trans hplain.symm
      · have htab : c ≠ tab := by
          rintro rfl
          exact absurd hp (by decide)
        have hzero : c ≠ .unit 0x00 := by
          rintro rfl
          exact absurd hp (by decide)
        rw [hp]
        simp [isBlank, htab, hzero, isScalarBreak, isRawBreak, hfeed, hreturn]

theorem isDocumentEnd_quoted (s : PyStr) : isDocumentEnd (s.flatMap pyEscape ++ [CodePoint.unit 0x22]) =
    ((decide (py "---" <+: s) || decide (py "..." <+: s)) &&
      (s.drop 3).head?.any fun c => decide (c = space) || isRawBreak c) := by
  have hmarkers : ∀ marker ∈ [py "---", py "..."], marker.length = 3 ∧
      ∀ c ∈ marker, pyEscape c = [c] ∧ c ≠ .unit 0x22 ∧ c ≠ .unit 0x5C := by
    decide
  have hdrop : ∀ marker ∈ [py "---", py "..."], marker <+: s →
      (s.flatMap pyEscape ++ [CodePoint.unit 0x22]).drop 3 = (s.drop 3).flatMap pyEscape ++ [CodePoint.unit 0x22] := by
    rintro marker hmem ⟨r, rfl⟩
    obtain ⟨hlength, hplain⟩ := hmarkers marker hmem
    rw [List.flatMap_append, flatMap_pyEscape_self fun c hc => (hplain c hc).1, List.append_assoc, ← hlength,
      List.drop_left, List.drop_left]
  rw [isDocumentEnd]
  simp only [prefix_quoted_iff (hmarkers (py "---") (by decide)).2, prefix_quoted_iff (hmarkers (py "...") (by decide)).2]
  by_cases hdash : py "---" <+: s
  · rw [hdrop _ (by decide) hdash, head?_quoted]
  · by_cases hdots : py "..." <+: s
    · rw [hdrop _ (by decide) hdots, head?_quoted]
    · simp [hdash, hdots]

theorem endsScalar_eq_false_iff {s : PyStr} (hnext : nextLine ∉ s) :
    endsScalar s = false ↔ ∀ text ∈ s.tails, endsDocument text = false := by
  induction s with
  | nil => simp [endsScalar, endsDocument]
  | cons c s ih =>
      rw [List.mem_cons, not_or] at hnext
      have hraw : ∀ d, d ∈ c :: s → isRawBreak d = isLineSeparator d := by
        intro d hd
        have hne : d ≠ nextLine := by
          rintro rfl
          exact (List.mem_cons.mp hd).elim hnext.1 hnext.2
        simp [isRawBreak, hne]
      have hbehind : ((s.drop 3).head?.any fun d => decide (d = space) || isRawBreak d) =
          (s.drop 3).head?.any fun d => decide (d = space) || isLineSeparator d := by
        cases hhead : (s.drop 3).head? with
        | none => rfl
        | some d =>
            have hmem : d ∈ c :: s := List.mem_cons_of_mem _ (List.mem_of_mem_drop (List.mem_of_head? hhead))
            simp only [Option.any_some, hraw d hmem]
      have hfirst : (isRawBreak c && isDocumentEnd (s.flatMap pyEscape ++ [CodePoint.unit 0x22])) = endsDocument (c :: s) := by
        rw [isDocumentEnd_quoted, hbehind, hraw c List.mem_cons_self, endsDocument, Bool.and_assoc]
        rfl
      rw [endsScalar, hfirst, Bool.or_eq_false_iff, ih hnext.2]
      simp

/-- **A quoted string is read back** exactly when nothing in it folds or ends the document. -/
theorem readQuoted_iff (s : PyStr) : readQuoted (pyQuote s) = some s ↔
    nextLine ∉ s ∧ (s.IsChain fun c d => ¬ Folds c d) ∧ ∀ text ∈ s.tails, endsDocument text = false := by
  have hread : readQuoted (pyQuote s) = if endsScalar s = true then none else some (fold false (s.map pieceOf)) := by
    rw [readQuoted, pyQuote, List.head?_cons, if_pos rfl, List.tail_cons, pieces_quoted]
    split <;> rfl
  rw [hread]
  by_cases hnext : nextLine ∈ s
  · refine iff_of_false ?_ fun h => h.1 hnext
    split
    · intro heq
      cases heq
    · intro heq
      exact ((fold_eq_iff false s).mp (Option.some.inj heq)).1 hnext
  · rw [← endsScalar_eq_false_iff hnext]
    by_cases hends : endsScalar s = true
    · simp [hends]
    · rw [if_neg hends, Option.some.injEq, fold_eq_iff]
      simp [hends]

/-! ### Plain scalars -/

theorem digits?_eq_none {s : PyStr} {c : CodePoint} (hc : c ∈ s)
    (h : ¬ (CodePoint.unit 0x30 ≤ c ∧ c ≤ .unit 0x39)) : digits? s = none := by
  rw [digits?, if_neg]
  rintro ⟨-, hall⟩
  exact h (of_decide_eq_true (List.all_eq_true.mp hall c hc))

theorem decimal?_eq_none {s : PyStr} {c : CodePoint} (hc : c ∈ s) (h : ¬ (CodePoint.unit 0x30 ≤ c ∧ c ≤ .unit 0x39))
    (hhead : s.head? ≠ some (.unit 0x2D)) : decimal? s = none := by
  rw [decimal?, if_neg hhead, natural?]
  split
  · rfl
  · rw [digits?_eq_none hc h]
    rfl

variable {unicode : Unicode}

/-- What is emitted without quotes is no number. -/
theorem decimal?_upToNewline {value : PyStr} (h : (isDate unicode value || isPlain value) = true) :
    decimal? (upToNewline value) = none := by
  rw [Bool.or_eq_true] at h
  obtain h | h := h
  · unfold isDate at h
    split at h
    case h_1 a b c' d dash e f dash' g k heq =>
      rw [Bool.and_eq_true, Bool.and_eq_true, beq_iff_eq, beq_iff_eq, List.all_eq_true] at h
      obtain ⟨⟨hdigits, rfl⟩, rfl⟩ := h
      rw [heq]
      refine decimal?_eq_none (c := .unit 0x2D) (by simp) (by decide) ?_
      intro hhead
      obtain rfl : a = .unit 0x2D := by simpa using hhead
      have hdash := hdigits _ List.mem_cons_self
      rw [unicode.isDecimal_ascii 0x2D (by decide)] at hdash
      cases hdash
    case h_2 => cases h
  · unfold isPlain at h
    split at h
    case h_1 => cases h
    case h_2 p rest heq =>
      rw [Bool.and_eq_true] at h
      rw [heq]
      have hletter : ∀ n < 0x41, isLetter (.unit (UInt16.ofNat n)) = false := by decide
      have hnot : ∀ u : UInt16, p = .unit u → ¬ u < 0x41 := by
        rintro u rfl hlt
        have hu := hletter u.toNat (UInt16.lt_iff_toNat_lt.mp hlt)
        rw [UInt16.ofNat_toNat, h.1] at hu
        cases hu
      refine decimal?_eq_none (c := p) List.mem_cons_self (fun hdigit => ?_) fun hhead => ?_
      · cases p with
        | pair high low hhigh hlow => exact absurd h.1 (by simp [isLetter])
        | unit u =>
            refine hnot u rfl (UInt16.lt_iff_toNat_lt.mpr ?_)
            have hle : u.toNat ≤ 0x39 := hdigit.2
            show u.toNat < 0x41
            omega
      · exact hnot 0x2D (by simpa using hhead) (by decide)

/-- A plain scalar that is no number is a string, if it is no word and no impossible day. -/
theorem readPlain_eq_str_iff {text s : PyStr} (h : decimal? text = none) :
    readPlain text = .value (.str s) ↔ text ∉ nullWords ++ trueWords ++ falseWords ∧ day? text ≠ some false ∧ text = s := by
  rw [List.mem_append, List.mem_append, not_or, not_or, readPlain]
  by_cases hnull : text ∈ nullWords
  · simp [hnull]
  · by_cases htrue : text ∈ trueWords
    · simp [hnull, htrue]
    · by_cases hfalse : text ∈ falseWords
      · simp [hnull, htrue, hfalse]
      · simp only [hnull, htrue, hfalse, if_false, h]
        cases hday : day? text with
        | none => simp
        | some b => cases b <;> simp

theorem upToNewline_eq_self_iff {value : PyStr} (h : (isDate unicode value || isPlain value) = true) :
    upToNewline value = value ↔ newline ∉ value := by
  constructor
  · intro heq
    exact heq ▸ notMem_upToNewline h (.inl rfl)
  · intro hnot
    exact (upToNewline_eq value).elim Eq.symm fun heq =>
      absurd (heq ▸ List.mem_append_right _ (List.mem_singleton_self newline)) hnot

/-- A string comes back from its line. -/
theorem readScalar_scalar_iff (value : PyStr) : readScalar (scalar unicode value) = .value (.str value) ↔
    if (isDate unicode value || isPlain value) = true then
      newline ∉ value ∧ value ∉ nullWords ++ trueWords ++ falseWords ∧ day? value ≠ some false
    else readQuoted (pyQuote value) = some value := by
  by_cases h : (isDate unicode value || isPlain value) = true
  · rw [scalar, if_pos h, if_pos h, readScalar, if_neg (head?_ne_quote h),
      readPlain_eq_str_iff (decimal?_upToNewline h), upToNewline_eq_self_iff h]
    constructor
    · rintro ⟨hword, hday, hline⟩
      rw [(upToNewline_eq_self_iff h).mpr hline] at hword hday
      exact ⟨hline, hword, hday⟩
    · rintro ⟨hline, hword, hday⟩
      rw [(upToNewline_eq_self_iff h).mpr hline]
      exact ⟨hword, hday, hline⟩
  · rw [scalar, if_neg h, if_neg h, readScalar, if_pos (by rfl)]
    cases readQuoted (pyQuote value) with
    | none => simp
    | some s => simp

/-! ### Integers -/

theorem flatMap_units_map_unit (t : Text) : (t.map CodePoint.unit).flatMap CodePoint.units = t := by
  induction t with
  | nil => rfl
  | cons u t ih => rw [List.map_cons, List.flatMap_cons, ih]; rfl

/-- The digits of a natural number, none of them a leading zero. -/
theorem natural?_ofNat (n : Nat) : natural? ((JsNumber.ofNat n).text.map CodePoint.unit) = some n := by
  have hdigit : ∀ d < 10, CodePoint.unit 0x30 ≤ .unit (UInt16.ofNat (0x30 + d)) ∧
      CodePoint.unit (UInt16.ofNat (0x30 + d)) ≤ .unit 0x39 := by decide
  have hzero : ∀ d < 10, UInt16.ofNat (0x30 + d) = 0x30 → d = 0 := by decide
  have hread : digits? ((JsNumber.ofNat n).text.map CodePoint.unit) = some n := by
    have hne : (JsNumber.ofNat n).text.map CodePoint.unit ≠ [] :=
      List.map_eq_nil_iff.not.mpr (JsNumber.ofNat n).nonempty
    have hall : ((JsNumber.ofNat n).text.map CodePoint.unit).all
        (fun c => decide (CodePoint.unit 0x30 ≤ c ∧ c ≤ .unit 0x39)) = true := by
      rw [List.all_map, List.all_eq_true]
      intro u hu
      simp only [JsNumber.ofNat] at hu
      split at hu
      · obtain rfl := List.mem_singleton.mp hu
        decide
      · obtain ⟨d, hd, rfl⟩ := List.mem_map.mp hu
        exact decide_eq_true (hdigit d (Nat.digits_lt_base (by decide) (List.mem_reverse.mp hd)))
    rw [digits?, if_pos ⟨hne, hall⟩, flatMap_units_map_unit, digitsValue_ofNat]
  have hlead : ¬ (((JsNumber.ofNat n).text.map CodePoint.unit).head? = some (.unit 0x30) ∧
      ((JsNumber.ofNat n).text.map CodePoint.unit).tail ≠ []) := by
    rintro ⟨hhead, htail⟩
    simp only [JsNumber.ofNat] at hhead htail
    split at hhead
    case isTrue h => exact htail (by rw [if_pos h]; rfl)
    case isFalse h =>
      rw [List.head?_map, List.head?_map, List.head?_reverse] at hhead
      have hne : Nat.digits 10 n ≠ [] := Nat.digits_ne_nil_iff_ne_zero.mpr h
      rw [List.getLast?_eq_some_getLast hne, Option.map_some, Option.map_some, Option.some.injEq,
        CodePoint.unit.injEq] at hhead
      exact Nat.getLast_digit_ne_zero 10 h
        (hzero _ (Nat.digits_lt_base (by decide) (List.getLast_mem hne)) hhead)
  rw [natural?, if_neg hlead, hread]

/-- The sign or the first digit of an integer. -/
theorem head?_intText (n : Int) : ∃ u : UInt16, (intText n).head? = some (.unit u) ∧
    (u = 0x2D ∧ (∃ m : Nat, n = Int.negSucc m) ∨ (0x30 ≤ u ∧ u ≤ 0x39) ∧ ∃ m : Nat, n = Int.ofNat m) := by
  cases n with
  | negSucc m => exact ⟨0x2D, rfl, .inl ⟨rfl, m, rfl⟩⟩
  | ofNat m =>
      have hdigits := natural?_ofNat m
      cases htext : (JsNumber.ofNat m).text with
      | nil => exact absurd htext (JsNumber.ofNat m).nonempty
      | cons u rest =>
          refine ⟨u, by rw [intText, JsNumber.ofInt, htext]; rfl, .inr ⟨?_, m, rfl⟩⟩
          by_contra hnot
          have hmem : CodePoint.unit u ∈ (JsNumber.ofNat m).text.map CodePoint.unit := by
            rw [htext]
            exact List.mem_cons_self
          have hnone := digits?_eq_none hmem fun hle =>
            hnot ⟨UInt16.le_iff_toNat_le.mpr hle.1, UInt16.le_iff_toNat_le.mpr hle.2⟩
          rw [natural?, hnone, ite_self] at hdigits
          cases hdigits

theorem decimal?_intText (n : Int) : decimal? (intText n) = some n := by
  obtain ⟨u, hhead, ⟨rfl, m, rfl⟩ | ⟨hdigit, m, rfl⟩⟩ := head?_intText n
  · rw [decimal?, if_pos hhead]
    have htail : (intText (Int.negSucc m)).tail = (JsNumber.ofNat (m + 1)).text.map CodePoint.unit := rfl
    rw [htail, natural?_ofNat, Option.map_some, Int.negSucc_eq]
    rfl
  · have hdash : (intText (Int.ofNat m)).head? ≠ some (.unit 0x2D) := by
      rw [hhead]
      rintro heq
      obtain rfl := CodePoint.unit.inj (Option.some.inj heq)
      exact absurd hdigit.1 (by decide)
    have htext : intText (Int.ofNat m) = (JsNumber.ofNat m).text.map CodePoint.unit := rfl
    rw [decimal?, if_neg hdash, htext, natural?_ofNat]
    rfl

theorem readPlain_intText (n : Int) : readPlain (intText n) = .value (.number (.int n)) := by
  obtain ⟨u, hhead, hcases⟩ := head?_intText n
  have hu : u ≤ 0x39 := by
    obtain ⟨rfl, -⟩ | ⟨⟨-, hle⟩, -⟩ := hcases
    · decide
    · exact hle
  -- A word starts with a letter or a tilde.
  have hwords : ∀ words ∈ [nullWords, trueWords, falseWords], intText n ∉ words := by
    have hall : ([nullWords, trueWords, falseWords].all fun words => words.all fun word =>
        word.head?.all fun c => decide (CodePoint.unit 0x39 < c)) = true := by decide
    intro words hmem hword
    have hfirst := List.all_eq_true.mp (List.all_eq_true.mp hall words hmem) _ hword
    rw [hhead, Option.all_some, decide_eq_true_eq] at hfirst
    exact absurd (show (CodePoint.unit u) ≤ .unit 0x39 from UInt16.le_iff_toNat_le.mp hu) (not_le.mpr hfirst)
  rw [readPlain, if_neg (hwords _ (by decide)), if_neg (hwords _ (by decide)), if_neg (hwords _ (by decide)),
    decimal?_intText]

/-! ### Entries -/

theorem collect_map_iff {α β : Type} {f : α → Reading β} {g : α → β} (l : List α) :
    Reading.collect (l.map f) = .value (l.map g) ↔ ∀ a ∈ l, f a = .value (g a) := by
  induction l with
  | nil => simp [Reading.collect]
  | cons a l ih =>
      rw [List.map_cons, List.map_cons, Reading.collect, List.forall_mem_cons, ← ih]
      cases f a <;> cases Reading.collect (l.map f) <;> simp [Reading.cons]

theorem map_eq_value_iff {α β : Type} {f : α → β} (hf : Function.Injective f) {r : Reading α} {a : α} :
    r.map f = .value (f a) ↔ r = .value a := by
  cases r with
  | value b => simp [Reading.map, hf.eq_iff]
  | malformed => simp [Reading.map]
  | raises => simp [Reading.map]

theorem readScalar_pyQuote (s : PyStr) : readScalar (pyQuote s) =
    match readQuoted (pyQuote s) with
    | some s => .value (.str s)
    | none => .malformed := if_pos rfl

theorem readEntry_iff (e : RosterEntry) : readEntry e = .value (rosterValue e) ↔
    readQuoted (pyQuote e.object) = some e.object ∧ readQuoted (pyQuote e.schemaHash) = some e.schemaHash := by
  rw [readEntry, readScalar_pyQuote, readScalar_pyQuote]
  cases readQuoted (pyQuote e.object) <;> cases readQuoted (pyQuote e.schemaHash) <;> simp [rosterValue]

/-- A field comes back, its characters taken for granted. -/
theorem readField_iff (f : PyStr × FieldValue) : readField unicode f = .value (f.1, f.2.toJson) ↔
    match f.2 with
    | .text value => readScalar (scalar unicode value) = .value (.str value)
    | .objects roster => roster ≠ [] ∧ ∀ e ∈ roster,
        readQuoted (pyQuote e.object) = some e.object ∧ readQuoted (pyQuote e.schemaHash) = some e.schemaHash
    | _ => True := by
  obtain ⟨key, value⟩ := f
  rw [readField, map_eq_value_iff (Prod.mk_right_injective key)]
  cases value with
  | null => exact iff_of_true rfl trivial
  | bool b => exact iff_of_true (by cases b <;> rfl) trivial
  | int n => exact iff_of_true (readPlain_intText n) trivial
  | text value => exact Iff.rfl
  | objects roster =>
      dsimp only [FieldValue.toJson]
      by_cases hroster : roster = []
      · simp [hroster]
      · rw [if_neg hroster, map_eq_value_iff (fun _ _ => PyJson.arr.inj), collect_map_iff]
        simp only [readEntry_iff]
        exact (and_iff_right hroster).symm

/-! ### Characters the reader takes -/

theorem isPrintable_of_isPlainChar {c : CodePoint} (h : isPlainChar c = true) : isPrintable c = true := by
  cases c with
  | pair high low hhigh hlow => rfl
  | unit u =>
      simp only [isPlainChar, isLetter, Bool.or_eq_true, decide_eq_true_eq, UInt16.le_iff_toNat_le,
        ← UInt16.toNat_inj, UInt16.toNat_ofNat] at h
      refine decide_eq_true (.inr (.inr (.inr (.inl ?_))))
      simp only [UInt16.le_iff_toNat_le, UInt16.toNat_ofNat]
      omega

theorem isPlainChar_of_mem {key : PyStr} (hplain : isPlain key = true) (hline : newline ∉ key) {c : CodePoint}
    (hc : c ∈ key) : isPlainChar c = true := by
  have hself : upToNewline key = key :=
    (@upToNewline_eq_self_iff asciiOnly key (by simp [hplain])).mpr hline
  rw [isPlain, hself] at hplain
  have hletter : ∀ {p : CodePoint}, isLetter p = true → isPlainChar p = true := by
    intro p hp
    cases p with
    | pair => cases hp
    | unit u => simp [isPlainChar, hp]
  cases key with
  | nil => cases hc
  | cons p rest =>
      rw [Bool.and_eq_true] at hplain
      exact (List.mem_cons.mp hc).elim (fun heq => heq ▸ hletter hplain.1) (List.all_eq_true.mp hplain.2 c)

theorem printable_pyQuote_iff (s : PyStr) : (pyQuote s).all isPrintable = true ↔
    ∀ c ∈ s, CodePoint.unit 0x20 ≤ c → isPrintable c = true := by
  have hescape : ∀ c, (pyEscape c).all isPrintable = true ↔ (CodePoint.unit 0x20 ≤ c → isPrintable c = true) := by
    intro c
    obtain ⟨u, d, rfl, hd, hp⟩ | ⟨u, rfl, hu, hp⟩ | ⟨hp, -⟩ := pyEscape_cases c
    · have hall : (shortEscapes.all fun e =>
          [CodePoint.unit 0x5C, .unit e.2].all isPrintable && isPrintable (.unit e.1) || decide (e.1 < 0x20) &&
            [CodePoint.unit 0x5C, .unit e.2].all isPrintable) = true := by decide
      have he := List.all_eq_true.mp hall _ (mem_shortEscapes hd)
      rw [hp]
      simp only [Bool.or_eq_true, Bool.and_eq_true, decide_eq_true_eq] at he
      obtain ⟨hprintable, hself⟩ | ⟨hlt, hprintable⟩ := he
      · exact iff_of_true hprintable fun _ => hself
      · exact iff_of_true hprintable fun hle => absurd (UInt16.lt_iff_toNat_lt.mp hlt) (not_lt.mpr hle)
    · have hall : ∀ n < 0x20, ((unicodeEscape (UInt16.ofNat n)).map CodePoint.unit).all isPrintable = true := by decide
      have hn := hall u.toNat (UInt16.lt_iff_toNat_lt.mp hu)
      rw [UInt16.ofNat_toNat] at hn
      rw [hp]
      exact iff_of_true hn fun hle => absurd (UInt16.lt_iff_toNat_lt.mp hu) (not_lt.mpr hle)
    · by_cases hle : CodePoint.unit 0x20 ≤ c
      · simp [hp, hle]
      · have hlow : ∀ n < 0x20, pyEscape (.unit (UInt16.ofNat n)) ≠ [.unit (UInt16.ofNat n)] := by decide
        cases c with
        | pair high low hhigh hlow' => exact absurd (Nat.le_trans (by decide) CodePoint.ord_pair_ge) hle
        | unit u =>
            have hu := hlow u.toNat (not_le.mp hle)
            rw [UInt16.ofNat_toNat] at hu
            exact absurd hp hu
  have hquote : isPrintable (.unit 0x22) = true := by decide
  rw [pyQuote, List.all_cons, hquote, Bool.true_and, List.all_append, List.all_cons, hquote, List.all_nil,
    Bool.and_true, Bool.and_true, List.all_flatMap, List.all_eq_true]
  exact forall₂_congr fun c _ => hescape c

/-- What the reader has to take of a field. -/
def PrintableField (unicode : Unicode) : FieldValue → Prop
  | .text value => (scalar unicode value).all isPrintable = true
  | .objects roster => ∀ e ∈ roster, (pyQuote e.object).all isPrintable = true ∧
      (pyQuote e.schemaHash).all isPrintable = true
  | _ => True

theorem printable_fieldLines_iff {fields : Fields} (h : Built fields) {f : PyStr × FieldValue} (hf : f ∈ fields) :
    (fieldLines unicode f).all isPrintable = true ↔ PrintableField unicode f.2 := by
  have hkey : f.1.all isPrintable = true := by
    obtain ⟨hplain, hline, -⟩ := h.names f hf
    exact List.all_eq_true.mpr fun c hc => isPrintable_of_isPlainChar (isPlainChar_of_mem hplain hline hc)
  have hkinds := h.kinds f hf
  obtain ⟨key, value⟩ := f
  have hcolon : (py ": ").all isPrintable = true := by decide
  have hend : (py "\n").all isPrintable = true := by decide
  cases value with
  | null => exact iff_of_true (by rw [fieldLines, List.all_append, hkey]; decide) trivial
  | bool b =>
      refine iff_of_true ?_ trivial
      rw [fieldLines, List.all_append, List.all_append, List.all_append, hkey, hcolon, hend]
      cases b <;> decide
  | int n =>
      refine iff_of_true ?_ trivial
      have hint : (intText n).all isPrintable = true := by
        rw [intText, List.all_map, List.all_eq_true]
        intro u hu
        have hnumeric := (JsNumber.ofInt n).numeric u hu
        refine decide_eq_true (.inr (.inr (.inr (.inl ?_))))
        simp only [isNumeric, Bool.or_eq_true, Bool.and_eq_true, decide_eq_true_eq, beq_iff_eq,
          UInt16.le_iff_toNat_le, ← UInt16.toNat_inj, UInt16.toNat_ofNat] at hnumeric ⊢
        omega
      rw [fieldLines, List.all_append, List.all_append, List.all_append, hkey, hcolon, hint, hend]
      rfl
  | text value =>
      rw [fieldLines, List.all_append, List.all_append, List.all_append, hkey, hcolon, hend, Bool.and_true,
        Bool.and_self, Bool.true_and]
      exact Iff.rfl
  | objects roster =>
      have hentry : ∀ e ∈ roster, (rosterLine e).all isPrintable = true ↔
          (pyQuote e.object).all isPrintable = true ∧ (pyQuote e.schemaHash).all isPrintable = true := by
        intro e he
        have hkind : e.kind.all isPrintable = true := by
          have hall : ∀ kind ∈ family .api, kind.all isPrintable = true := by decide
          exact hall _ (hkinds roster rfl e he)
        have hparts : (py "  - \x7b object: ").all isPrintable = true ∧ (py ", kind: ").all isPrintable = true ∧
            (py ", schema_hash: ").all isPrintable = true ∧ (py " \x7d\n").all isPrintable = true := by decide
        simp only [rosterLine, List.all_append, Bool.and_eq_true, hparts, hkind, true_and, and_true]
      have hname : (py "objects:\n").all isPrintable = true := by decide
      rw [fieldLines, List.all_append, hname, Bool.true_and, List.all_flatMap, List.all_eq_true]
      exact forall₂_congr hentry

theorem quotable_iff (s : PyStr) : Quotable s ↔
    readQuoted (pyQuote s) = some s ∧ (pyQuote s).all isPrintable = true := by
  rw [readQuoted_iff, printable_pyQuote_iff]
  constructor
  · intro h
    refine ⟨⟨fun hmem => ?_, h.unfolded, h.within⟩, fun c hc hle => (h.printable c hc hle).1⟩
    exact (h.printable nextLine hmem (by decide)).2 rfl
  · rintro ⟨⟨hnext, hchain, hends⟩, hprintable⟩
    exact ⟨fun c hc hle => ⟨hprintable c hc hle, fun heq => hnext (heq ▸ hc)⟩, hchain, hends⟩

/-- What survives is read back, and taken by the reader. -/
theorem survives_iff (f : PyStr × FieldValue) : f.2.Survives unicode ↔
    readField unicode f = .value (f.1, f.2.toJson) ∧ PrintableField unicode f.2 := by
  rw [readField_iff]
  obtain ⟨key, value⟩ := f
  cases value with
  | text value =>
      dsimp only [FieldValue.Survives, SurvivesText, PrintableField]
      rw [readScalar_scalar_iff]
      by_cases h : (isDate unicode value || isPlain value) = true
      · rw [if_pos h, if_pos h, scalar, if_pos h, List.all_eq_true]
        tauto
      · rw [if_neg h, if_neg h, scalar, if_neg h]
        exact quotable_iff value
  | objects roster =>
      dsimp only [FieldValue.Survives, PrintableField]
      simp only [quotable_iff]
      constructor
      · rintro ⟨hne, hall⟩
        exact ⟨⟨hne, fun e he => ⟨(hall e he).1.1, (hall e he).2.1⟩⟩, fun e he => ⟨(hall e he).1.2, (hall e he).2.2⟩⟩
      · rintro ⟨⟨hne, hread⟩, hprintable⟩
        exact ⟨hne, fun e he => ⟨⟨(hread e he).1, (hprintable e he).1⟩, (hread e he).2, (hprintable e he).2⟩⟩
  | _ => exact iff_of_true trivial ⟨trivial, trivial⟩

/-! ### Round trips -/

theorem Built.plain {fields : Fields} (h : Built fields) : Plain fields := by
  intro f hf
  obtain ⟨hplain, hline, -⟩ := h.names f hf
  have hne : f.1 ≠ [] := by
    intro heq
    rw [heq] at hplain
    cases hplain
  refine ⟨hline, hne, fun hhead => ?_, fun roster hroster e he => ?_⟩
  · obtain ⟨p, rest, heq⟩ := List.exists_cons_of_ne_nil hne
    have hself : upToNewline f.1 = f.1 :=
      (@upToNewline_eq_self_iff asciiOnly f.1 (by simp [hplain])).mpr hline
    rw [isPlain, hself, heq, Bool.and_eq_true] at hplain
    obtain rfl : p = .unit 0x2D := by simpa [heq] using hhead
    exact absurd hplain.1 (by decide)
  · have hall : ∀ kind ∈ family .api, newline ∉ kind := by decide
    exact hall _ (h.kinds f hf roster hroster e he)

/-- A block is read back when all of its fields survive. -/
theorem readBlock_iff {fields : Fields} (h : Built fields) :
    readBlock unicode fields = .value (.obj (membersOf fields)) ↔ ∀ f ∈ fields, f.2.Survives unicode := by
  have hprintable : (fields.flatMap (fieldLines unicode)).all isPrintable = true ↔
      ∀ f ∈ fields, PrintableField unicode f.2 := by
    rw [List.all_flatMap, List.all_eq_true]
    exact forall₂_congr fun f hf => printable_fieldLines_iff h hf
  have hread : (Reading.collect (fields.map (readField unicode))).map PyJson.obj =
      .value (.obj (membersOf fields)) ↔ ∀ f ∈ fields, readField unicode f = .value (f.1, f.2.toJson) := by
    rw [map_eq_value_iff (fun _ _ => PyJson.obj.inj), membersOf, collect_map_iff]
  rw [readBlock]
  constructor
  · intro heq f hf
    split at heq
    case isTrue hall => exact (survives_iff f).mpr ⟨hread.mp heq f hf, hprintable.mp hall f hf⟩
    case isFalse => cases heq
  · intro hall
    rw [if_pos (hprintable.mpr fun f hf => ((survives_iff f).mp (hall f hf)).2)]
    exact hread.mpr fun f hf => ((survives_iff f).mp (hall f hf)).1

/-- A block that is read back, whatever the body, is one whose fields are. -/
theorem roundTrips_iff_readBlock {yaml : Yaml} {fields : Fields} (hfields : Built fields)
    (hyaml : Reads unicode yaml fields) (body : PyStr) : RoundTrips unicode yaml fields body ↔
      readBlock unicode fields = .value (.obj (membersOf fields)) := by
  obtain ⟨hfence, hfind, hraw, -⟩ := cut_emit unicode hfields.plain body
  set block := fields.flatMap (fieldLines unicode) with hblock
  have hrefuses : yaml.refuses (emit unicode fields ++ body) = yaml.raises block := by
    rw [Yaml.refuses, hfind, Option.elim_some, hraw, decide_eq_true hfence, Bool.true_and]
  rw [RoundTrips, hrefuses, split_emit hfields.plain, ← hblock]
  rw [Reads, ← hblock] at hyaml
  cases hread : readBlock unicode fields with
  | value v =>
      obtain ⟨hload, hraises⟩ : yaml.load block = some v ∧ yaml.raises block = false := by rwa [hread] at hyaml
      have hobj : ∃ members, v = .obj members := by
        rw [readBlock] at hread
        split at hread
        · cases hcollect : Reading.collect (fields.map (readField unicode)) with
          | value members => exact ⟨members, by rw [hcollect] at hread; exact (Reading.value.inj hread).symm⟩
          | malformed => rw [hcollect] at hread; cases hread
          | raises => rw [hcollect] at hread; cases hread
        · cases hread
      obtain ⟨members, rfl⟩ := hobj
      rw [hload, hraises]
      simp
  | malformed =>
      obtain ⟨hload, -⟩ : yaml.load block = none ∧ yaml.raises block = false := by rwa [hread] at hyaml
      rw [hload]
      simp
  | raises =>
      have hraises : yaml.raises block = true := by rwa [hread] at hyaml
      rw [hraises]
      simp

/-- **Front matter round trips** exactly when every value in it survives, whatever the body. -/
theorem roundTrips_iff {yaml : Yaml} {fields : Fields} (hfields : Built fields) (hyaml : Reads unicode yaml fields)
    (body : PyStr) : RoundTrips unicode yaml fields body ↔ ∀ f ∈ fields, f.2.Survives unicode :=
  (roundTrips_iff_readBlock hfields hyaml body).trans (readBlock_iff hfields)

/-! ### The fields of a page -/

def provenanceNames : List PyStr := ["generated_at", "source_mode", "snapshot_version", "status"].map py

/-- The names of a document's fields, ahead of the provenance. -/
def identityNames : DocEntry → List PyStr
  | .object _ => ["doc_class", "object", "kind", "schema_hash"].map py
  | .group _ _ => ["doc_class", "objects"].map py
  | .schemaIndex _ _ => ["doc_class", "system", "scope", "schema"].map py
  | .systemIndex => ["doc_class", "system", "scope"].map py

theorem map_fst_fieldsFor (s : Snapshot) (entry : DocEntry) (date : PyStr) :
    (fieldsFor s entry date).map Prod.fst = identityNames entry ++ provenanceNames := by
  cases entry <;> rfl

theorem identityNames_mem (entry : DocEntry) : identityNames entry ∈
    [["doc_class", "object", "kind", "schema_hash"], ["doc_class", "objects"],
      ["doc_class", "system", "scope", "schema"], ["doc_class", "system", "scope"]].map (List.map py) := by
  cases entry <;> simp [identityNames]

theorem names_fieldsFor (s : Snapshot) (entry : DocEntry) (date : PyStr) :
    (∀ f ∈ fieldsFor s entry date, IsName f.1) ∧ ((fieldsFor s entry date).map Prod.fst).Nodup := by
  have hall : ∀ names ∈ [["doc_class", "object", "kind", "schema_hash"], ["doc_class", "objects"],
      ["doc_class", "system", "scope", "schema"], ["doc_class", "system", "scope"]].map (List.map py),
      (∀ key ∈ names ++ provenanceNames, IsName key) ∧ (names ++ provenanceNames).Nodup := by decide +kernel
  obtain ⟨hnames, hnodup⟩ := hall _ (identityNames_mem entry)
  rw [map_fst_fieldsFor]
  refine ⟨fun f hf => hnames f.1 ?_, hnodup⟩
  exact map_fst_fieldsFor s entry date ▸ List.mem_map_of_mem hf

/-- A roster is what a group has, under its name. -/
theorem roster_fieldsFor {s : Snapshot} {entry : DocEntry} {date : PyStr} {f : PyStr × FieldValue}
    (hf : f ∈ fieldsFor s entry date) : (f.1 ≠ py "objects" ∧ ∃ value, f.2 = .text value) ∨
      f.1 = py "objects" ∧ ∃ group members, entry = .group group members ∧
        f.2 = .objects (members.map (rosterEntry s.system)) := by
  have hname : f.1 ∈ identityNames entry ++ provenanceNames :=
    map_fst_fieldsFor s entry date ▸ List.mem_map_of_mem hf
  have hprovenance : ∀ key ∈ provenanceNames, key ≠ py "objects" := by decide
  rw [fieldsFor, List.mem_append] at hf
  obtain hf | hf := hf
  · cases entry with
    | group group members =>
        rw [identityFields, List.mem_cons, List.mem_singleton] at hf
        obtain rfl | rfl := hf
        · exact .inl ⟨by decide, _, rfl⟩
        · exact .inr ⟨rfl, group, members, rfl, rfl⟩
    | object o =>
        have hother : ∀ key ∈ ["doc_class", "object", "kind", "schema_hash"].map py ++ provenanceNames, key ≠ py "objects" := by
          decide
        refine .inl ⟨hother _ hname, ?_⟩
        simp only [identityFields, List.mem_cons, List.not_mem_nil, or_false] at hf
        rcases hf with rfl | rfl | rfl | rfl <;> exact ⟨_, rfl⟩
    | schemaIndex schema members =>
        have hother : ∀ key ∈ ["doc_class", "system", "scope", "schema"].map py ++ provenanceNames, key ≠ py "objects" := by
          decide
        refine .inl ⟨hother _ hname, ?_⟩
        simp only [identityFields, List.mem_cons, List.not_mem_nil, or_false] at hf
        rcases hf with rfl | rfl | rfl | rfl <;> exact ⟨_, rfl⟩
    | systemIndex =>
        have hother : ∀ key ∈ ["doc_class", "system", "scope"].map py ++ provenanceNames, key ≠ py "objects" := by
          decide
        refine .inl ⟨hother _ hname, ?_⟩
        simp only [identityFields, List.mem_cons, List.not_mem_nil, or_false] at hf
        rcases hf with rfl | rfl | rfl <;> exact ⟨_, rfl⟩
  · simp only [List.mem_cons, List.not_mem_nil, or_false] at hf
    refine .inl ⟨?_, ?_⟩
    · rcases hf with rfl | rfl | rfl | rfl <;> exact hprovenance _ (by simp [provenanceNames])
    · rcases hf with rfl | rfl | rfl | rfl <;> exact ⟨_, rfl⟩

/-- The fields of every document the renderer plans are such. -/
theorem built_fieldsFor {s : Snapshot} {doc : PyStr × DocEntry} (h : doc ∈ docsOf s) (date : PyStr) :
    Built (fieldsFor s doc.2 date) where
  nonempty := by
    rw [fieldsFor]
    exact List.append_ne_nil_of_right_ne_nil _ (List.cons_ne_nil _ _)
  names := (names_fieldsFor s doc.2 date).1
  nodup := (names_fieldsFor s doc.2 date).2
  roster := by
    intro f hf
    obtain ⟨hne, value, heq⟩ | ⟨heq, group, members, -, hroster⟩ := roster_fieldsFor hf
    · refine iff_of_false hne ?_
      rintro ⟨roster, hroster⟩
      rw [heq] at hroster
      cases hroster
    · exact iff_of_true heq ⟨_, hroster⟩
  kinds := by
    intro f hf roster hroster e he
    obtain ⟨-, value, heq⟩ | ⟨-, group, members, hentry, heq⟩ := roster_fieldsFor hf
    · rw [heq] at hroster
      cases hroster
    · rw [heq] at hroster
      obtain rfl := FieldValue.objects.inj hroster
      obtain ⟨o, ho, rfl⟩ := List.mem_map.mp he
      obtain ⟨-, o', -, rfl⟩ | ⟨-, schema, -, rfl⟩ | ⟨hclass, group', -, rfl⟩ | rfl := mem_docsOf.mp h
      · cases hentry
      · cases hentry
      · obtain ⟨-, rfl⟩ := DocEntry.group.inj hentry
        exact hclass ▸ (mem_known.mp (mem_membersOf.mp ho).1).2
      · cases hentry

/-! ### Names that YAML reads as something else -/

section Example

/-- The index of a system. -/
def indexFields (system : PyStr) (h : system ≠ []) : Fields :=
  fieldsFor (shop system [signup] h) .systemIndex (py "2024-05-01")

theorem built_indexFields (system : PyStr) (h : system ≠ []) : Built (indexFields system h) :=
  @built_fieldsFor (shop system [signup] h) (systemIndexPath system, .systemIndex)
    (mem_docsOf.mpr (.inr (.inr (.inr rfl)))) _

/-- A loader of YAML 1.1 that knows one block. -/
def blockYaml (fields : Fields) : Yaml where
  load := fun text =>
    match readBlock asciiOnly fields with
    | .value v => if text = fields.flatMap (fieldLines asciiOnly) then some v else none
    | _ => none
  raises := fun _ =>
    match readBlock asciiOnly fields with
    | .raises => true
    | _ => false

theorem reads_blockYaml (fields : Fields) : Reads asciiOnly (blockYaml fields) fields := by
  rw [Reads]
  cases hread : readBlock asciiOnly fields with
  | value v => exact ⟨by simp [blockYaml, hread], by simp [blockYaml, hread]⟩
  | malformed => exact ⟨by simp [blockYaml, hread], by simp [blockYaml, hread]⟩
  | raises => simp [blockYaml, hread]

def crmFields : Fields := indexFields (py "crm") (by decide)

theorem roundTrips_crm : RoundTrips asciiOnly (blockYaml crmFields) crmFields (py "\n# crm\n") :=
  (roundTrips_iff (built_indexFields _ _) (reads_blockYaml crmFields) (py "\n# crm\n")).mpr (by decide +kernel)

/-- A system may be called `no`, or like a day there is not. -/
def noFields : Fields := indexFields (py "no") (by decide)

def lateFields : Fields := indexFields (py "2024-13-45") (by decide)

example : noFields.map Prod.fst = crmFields.map Prod.fst := by decide +kernel

theorem not_roundTrips_no : ¬ RoundTrips asciiOnly (blockYaml noFields) noFields [] ∧
    ¬ RoundTrips asciiOnly (blockYaml lateFields) lateFields [] := by
  have hfails : ∀ (system : PyStr) (h : system ≠ []), (¬ ∀ f ∈ indexFields system h, f.2.Survives asciiOnly) →
      ¬ RoundTrips asciiOnly (blockYaml (indexFields system h)) (indexFields system h) [] := by
    intro system h hnot htrip
    have hblock := (roundTrips_iff_readBlock (built_indexFields system h) (reads_blockYaml _) []).mp htrip
    exact hnot ((readBlock_iff (built_indexFields system h)).mp hblock)
  exact ⟨hfails _ _ (by decide +kernel), hfails _ _ (by decide +kernel)⟩

end Example

end ContextLayer.Frontmatter
