import ContextLayer.Benchmark
import ContextLayer.Lib.Pointwise
import ContextLayer.Proof.Pages
import ContextLayer.Proof.PyText

/-!
# What a comparison of results decides

Sorted by what they print, the rows of two tables are held against each other in one order, so the comparison of values
finds the pairs that do not cross. The canonical CSV is read back field by field: a field without special characters ends
at the first of them, and one in quotes at the first quotation mark that is not doubled.
-/

namespace ContextLayer.Benchmark

open Text StableSort PyValues Alignment Pointwise

/-! ### Values -/

theorem all_zip_iff {α β : Type} {p : α → β → Bool} {l : List α} {l' : List β} (h : l.length = l'.length) :
    ((l.zip l').all fun e => p e.1 e.2) = true ↔ List.Forall₂ (fun a b => p a b = true) l l' := by
  induction l generalizing l' with
  | nil =>
      rw [List.eq_nil_of_length_eq_zero h.symm]
      simp
  | cons a rest ih =>
      cases l' with
      | nil => cases h
      | cons b rest' =>
          rw [List.zip_cons_cons, List.all_cons, Bool.and_eq_true, ih (Nat.succ.inj h), List.forall₂_cons]

theorem not_any_width {rows : List (List Cell)} {n : Nat} (h : ∀ row ∈ rows, row.length = n) :
    (rows.any fun row => row.length != n) = false := by
  rw [List.any_eq_false]
  intro row hrow
  simp [h row hrow]

/-- **The values match exactly where the rows are equal one to one, in the order they are printed in.** -/
theorem valuesMultisetMatch_iff (golden agent : Table) :
    (valuesMultisetMatch golden.columns golden.rows agent.rows).1 = true ↔
      MatchableInOrder RowsEqual rowKey rowKey golden.rows agent.rows := by
  rw [valuesMultisetMatch, ← forall₂_sortOn_iff]
  by_cases hlength : golden.rows.length ≠ agent.rows.length
  · rw [if_pos hlength]
    refine iff_of_false Bool.false_ne_true fun h => hlength ?_
    have hsorted := h.length_eq
    rwa [sortOn_perm.length_eq, sortOn_perm.length_eq] at hsorted
  rw [if_neg hlength, not_any_width golden.width, if_neg Bool.false_ne_true]
  rw [not_not] at hlength
  by_cases hwidth : (agent.rows.any fun row => row.length != golden.columns.length) = true
  · rw [if_pos hwidth]
    refine iff_of_false Bool.false_ne_true fun h => ?_
    obtain ⟨row, hrow, hne⟩ := List.any_eq_true.mp hwidth
    obtain ⟨row', hrow', hequal⟩ := exists_of_mem_forall₂ h (mem_sortOn.mpr hrow)
    rw [← hequal.length_eq, golden.width row' (mem_sortOn.mp hrow')] at hne
    simp at hne
  · rw [if_neg hwidth]
    have hrows : ∀ row ∈ agent.rows, row.length = golden.columns.length := by simpa using hwidth
    have hsorted : (StableSort.sortOn rowKey golden.rows).length = (StableSort.sortOn rowKey agent.rows).length := by
      rw [sortOn_perm.length_eq, sortOn_perm.length_eq, hlength]
    dsimp only
    rw [all_zip_iff (p := fun rg ra => (rg.zip ra).all fun e => valuesEqual e.1 e.2) hsorted]
    have hrow : ∀ rg ∈ StableSort.sortOn rowKey golden.rows, ∀ ra ∈ StableSort.sortOn rowKey agent.rows,
        (((rg.zip ra).all fun e => valuesEqual e.1 e.2) = true ↔ RowsEqual rg ra) := fun rg hrg ra hra =>
      all_zip_iff ((golden.width rg (mem_sortOn.mp hrg)).trans (hrows ra (mem_sortOn.mp hra)).symm)
    exact ⟨fun h => forall₂_mono h fun rg hrg ra hra => (hrow rg hrg ra hra).mp,
      fun h => forall₂_mono h fun rg hrg ra hra => (hrow rg hrg ra hra).mpr⟩

/-! ### Fields -/

/-- A field of a line: without a special character, or in quotes. -/
def IsField (f : PyStr) : Prop := (∀ p ∈ f, isSpecial p = false) ∨ ∃ text, f = quotedField text

theorem isField_csvEscape (text : PyStr) : IsField (csvEscape text) := by
  rw [csvEscape]
  split
  case isTrue => exact .inr ⟨text, rfl⟩
  case isFalse h => exact .inl (by simpa using h)

theorem quoteMark_special : isSpecial quoteMark = true := by decide

/-- The doubled text ends at the first quotation mark that is not doubled. -/
theorem doubled_append_inj {s s' rest rest' : PyStr} {p p' : CodePoint} (hp : p ≠ quoteMark) (hp' : p' ≠ quoteMark)
    (h : s.flatMap doubled ++ quoteMark :: p :: rest = s'.flatMap doubled ++ quoteMark :: p' :: rest') :
    s = s' ∧ p :: rest = p' :: rest' := by
  induction s generalizing s' with
  | nil =>
      cases s' with
      | nil => exact ⟨rfl, (List.cons.inj h).2⟩
      | cons c s' =>
          by_cases hc : c = quoteMark
          · rw [List.flatMap_cons, doubled, if_pos hc] at h
            exact absurd (List.cons.inj (List.cons.inj h).2).1 hp
          · rw [List.flatMap_cons, doubled, if_neg hc] at h
            exact absurd (List.cons.inj h).1.symm hc
  | cons c s ih =>
      by_cases hc : c = quoteMark
      · subst hc
        rw [List.flatMap_cons, doubled, if_pos rfl] at h
        cases s' with
        | nil => exact absurd (List.cons.inj (List.cons.inj h).2).1.symm hp'
        | cons c' s' =>
            by_cases hc' : c' = quoteMark
            · rw [List.flatMap_cons, doubled, if_pos hc'] at h
              obtain ⟨hs, hrest⟩ := ih (List.cons.inj (List.cons.inj h).2).2
              exact ⟨by rw [hs, hc'], hrest⟩
            · rw [List.flatMap_cons, doubled, if_neg hc'] at h
              exact absurd (List.cons.inj h).1.symm hc'
      · rw [List.flatMap_cons, doubled, if_neg hc] at h
        cases s' with
        | nil => exact absurd (List.cons.inj h).1 hc
        | cons c' s' =>
            by_cases hc' : c' = quoteMark
            · rw [List.flatMap_cons, doubled, if_pos hc'] at h
              exact absurd ((List.cons.inj h).1.trans rfl) hc
            · rw [List.flatMap_cons, doubled, if_neg hc'] at h
              obtain ⟨hs, hrest⟩ := ih (List.cons.inj h).2
              exact ⟨by rw [hs, (List.cons.inj h).1], hrest⟩

/-- A separator of fields or lines. -/
def IsSeparator (p : CodePoint) : Prop := p = comma ∨ p = PyText.newline

theorem IsSeparator.special {p : CodePoint} (h : IsSeparator p) : isSpecial p = true := by
  rcases h with rfl | rfl <;> decide

theorem IsSeparator.ne_quoteMark {p : CodePoint} (h : IsSeparator p) : p ≠ quoteMark := by
  rcases h with rfl | rfl <;> decide

/-- What has no special character ends at the first one. -/
theorem plain_append_inj {f f' rest rest' : PyStr} {p p' : CodePoint} (hf : ∀ c ∈ f, isSpecial c = false)
    (hf' : ∀ c ∈ f', isSpecial c = false) (hp : isSpecial p = true) (hp' : isSpecial p' = true)
    (h : f ++ p :: rest = f' ++ p' :: rest') : f = f' ∧ p :: rest = p' :: rest' := by
  induction f generalizing f' with
  | nil =>
      cases f' with
      | nil => exact ⟨rfl, h⟩
      | cons c f' =>
          have hc := hf' c List.mem_cons_self
          rw [← (List.cons.inj h).1, hp] at hc
          cases hc
  | cons c f ih =>
      rw [List.forall_mem_cons] at hf
      cases f' with
      | nil =>
          have hc := hf.1
          rw [(List.cons.inj h).1, hp'] at hc
          cases hc
      | cons c' f' =>
          rw [List.forall_mem_cons] at hf'
          obtain ⟨heq, hrest⟩ := ih hf.2 hf'.2 (List.cons.inj h).2
          exact ⟨by rw [heq, (List.cons.inj h).1], hrest⟩

/-- A field is read back up to its separator. -/
theorem field_append_inj {f f' rest rest' : PyStr} {p p' : CodePoint} (hf : IsField f) (hf' : IsField f')
    (hp : IsSeparator p) (hp' : IsSeparator p') (h : f ++ p :: rest = f' ++ p' :: rest') :
    f = f' ∧ p :: rest = p' :: rest' := by
  -- a field without quotes and one in quotes do not start alike
  have hapart : ∀ {g text more more' : PyStr} {q : CodePoint}, (∀ c ∈ g, isSpecial c = false) → q ≠ quoteMark →
      g ++ q :: more ≠ quotedField text ++ more' := by
    intro g text more more' q hg hq heq
    cases g with
    | nil => exact hq (List.cons.inj heq).1
    | cons c g =>
        have hc := hg c List.mem_cons_self
        rw [(List.cons.inj heq).1, quoteMark_special] at hc
        cases hc
  rcases hf with hplain | ⟨text, rfl⟩
  · rcases hf' with hplain' | ⟨text', rfl⟩
    · exact plain_append_inj hplain hplain' hp.special hp'.special h
    · exact absurd h (hapart hplain hp.ne_quoteMark)
  · rcases hf' with hplain' | ⟨text', rfl⟩
    · exact absurd h.symm (hapart hplain' hp'.ne_quoteMark)
    · simp only [quotedField, List.cons_append, List.append_assoc, List.nil_append] at h
      obtain ⟨rfl, hrest⟩ := doubled_append_inj hp.ne_quoteMark hp'.ne_quoteMark (List.cons.inj h).2
      exact ⟨rfl, hrest⟩

/-! ### Lines -/

theorem csvLine_cons {f : PyStr} {rest : List PyStr} (h : rest ≠ []) :
    csvLine (pyJoinComma (f :: rest)) = f ++ comma :: csvLine (pyJoinComma rest) := by
  rw [csvLine, csvLine, pyJoinComma, pyJoinComma, List.intercalate_cons_of_ne_nil h, List.append_assoc, List.append_assoc]
  rfl

theorem csvLine_singleton (f : PyStr) : csvLine (pyJoinComma [f]) = f ++ [PyText.newline] := by
  rw [csvLine, pyJoinComma, List.intercalate_singleton]

/-- A line is read back field by field. -/
theorem line_append_inj {fs fs' : List PyStr} {rest rest' : PyStr} (hfs : fs ≠ []) (hfs' : fs' ≠ [])
    (hall : ∀ f ∈ fs, IsField f) (hall' : ∀ f ∈ fs', IsField f)
    (h : csvLine (pyJoinComma fs) ++ rest = csvLine (pyJoinComma fs') ++ rest') : fs = fs' ∧ rest = rest' := by
  induction fs generalizing fs' with
  | nil => exact absurd rfl hfs
  | cons f more ih =>
      cases fs' with
      | nil => exact absurd rfl hfs'
      | cons f' more' =>
          rw [List.forall_mem_cons] at hall hall'
          by_cases hmore : more = []
          · by_cases hmore' : more' = []
            · subst hmore hmore'
              rw [csvLine_singleton, csvLine_singleton, List.append_assoc, List.append_assoc] at h
              obtain ⟨rfl, hrest⟩ := field_append_inj hall.1 hall'.1 (.inr rfl) (.inr rfl) h
              exact ⟨rfl, (List.cons.inj hrest).2⟩
            · subst hmore
              rw [csvLine_singleton, csvLine_cons hmore', List.append_assoc, List.append_assoc] at h
              obtain ⟨-, hrest⟩ := field_append_inj hall.1 hall'.1 (.inr rfl) (.inl rfl) h
              exact absurd (List.cons.inj hrest).1 (by decide)
          · by_cases hmore' : more' = []
            · subst hmore'
              rw [csvLine_singleton, csvLine_cons hmore, List.append_assoc, List.append_assoc] at h
              obtain ⟨-, hrest⟩ := field_append_inj hall.1 hall'.1 (.inl rfl) (.inr rfl) h
              exact absurd (List.cons.inj hrest).1 (by decide)
            · rw [csvLine_cons hmore, csvLine_cons hmore', List.append_assoc, List.append_assoc] at h
              obtain ⟨rfl, hrest⟩ := field_append_inj hall.1 hall'.1 (.inl rfl) (.inl rfl) h
              obtain ⟨rfl, heq⟩ := ih hmore hmore' hall.2 hall'.2 (List.cons.inj hrest).2
              exact ⟨rfl, heq⟩

/-- A file is read back line by line. -/
theorem file_inj {L L' : List (List PyStr)} (hL : ∀ fs ∈ L, fs ≠ [] ∧ ∀ f ∈ fs, IsField f)
    (hL' : ∀ fs ∈ L', fs ≠ [] ∧ ∀ f ∈ fs, IsField f)
    (h : (L.flatMap fun fs => csvLine (pyJoinComma fs)) = L'.flatMap fun fs => csvLine (pyJoinComma fs)) : L = L' := by
  have hne : ∀ line : PyStr, csvLine line ≠ [] := fun line => List.append_ne_nil_of_right_ne_nil _ (by simp)
  induction L generalizing L' with
  | nil =>
      cases L' with
      | nil => rfl
      | cons fs' L' => exact absurd (List.append_eq_nil_iff.mp h.symm).1 (hne _)
  | cons fs L ih =>
      cases L' with
      | nil => exact absurd (List.append_eq_nil_iff.mp h).1 (hne _)
      | cons fs' L' =>
          rw [List.forall_mem_cons] at hL hL'
          rw [List.flatMap_cons, List.flatMap_cons] at h
          obtain ⟨rfl, hrest⟩ := line_append_inj hL.1.1 hL'.1.1 hL.1.2 hL'.1.2 h
          rw [ih hL.2 hL'.2 hrest]

/-! ### Plain cells -/

theorem notSpecial_digit {u : UInt16} (h : 0x30 ≤ u.toNat ∧ u.toNat ≤ 0x39) : isSpecial (.unit u) = false := by
  have hall : ∀ d < 10, isSpecial (.unit (UInt16.ofNat (0x30 + d))) = false := by decide
  have hu : UInt16.ofNat (0x30 + (u.toNat - 0x30)) = u := by rw [Nat.add_sub_cancel' h.1, UInt16.ofNat_toNat]
  exact hu ▸ hall (u.toNat - 0x30) (by omega)

/-- A text without a special character. -/
def IsBare (s : PyStr) : Prop := ∀ p ∈ s, isSpecial p = false

instance (s : PyStr) : Decidable (IsBare s) := inferInstanceAs (Decidable (∀ p ∈ s, isSpecial p = false))

theorem IsBare.append {s t : PyStr} (hs : IsBare s) (ht : IsBare t) : IsBare (s ++ t) :=
  fun p hp => (List.mem_append.mp hp).elim (hs p) (ht p)

theorem isBare_natText (n : Nat) : IsBare (PyText.natText n) := by
  intro p hp
  obtain ⟨u, hu, rfl⟩ := List.mem_map.mp hp
  exact notSpecial_digit (digit_ofNat hu)

theorem isBare_intText (n : Int) : IsBare (Frontmatter.intText n) := by
  cases n with
  | ofNat m => exact isBare_natText m
  | negSucc m =>
      exact List.forall_mem_cons.mpr ⟨by decide, isBare_natText (m + 1)⟩

theorem isBare_padded (width n : Nat) : IsBare (padded width n) := by
  refine IsBare.append (fun p hp => ?_) (isBare_natText n)
  rw [(List.mem_replicate.mp hp).2]
  decide

theorem isBare_date (d : Date) : IsBare d.isoformat :=
  ((((isBare_padded 4 _).append (t := py "-") (by decide)).append (isBare_padded 2 _)).append (t := py "-")
    (by decide)).append (isBare_padded 2 _)

theorem isBare_fraction (n : Nat) : IsBare (fraction n) := by
  rw [fraction]
  split
  · exact fun p hp => nomatch hp
  · exact IsBare.append (s := py ".") (by decide) (isBare_padded 6 n)

theorem isBare_offset (o : Offset) : IsBare o.text := by
  rw [Offset.text]
  refine ((IsBare.append ?_ (isBare_padded 2 _)).append (t := py ":") (by decide)).append (isBare_padded 2 _) |>.append ?_
  · cases o.negative <;> decide
  · split
    · exact fun p hp => nomatch hp
    · exact (IsBare.append (s := py ":") (by decide) (isBare_padded 2 _)).append (isBare_fraction _)

theorem isBare_time (t : Time) : IsBare t.isoformat := by
  rw [Time.isoformat]
  refine IsBare.append ((((((isBare_padded 2 _).append (t := py ":") (by decide)).append (isBare_padded 2 _)).append
    (t := py ":") (by decide)).append (isBare_padded 2 _)).append (isBare_fraction _)) ?_
  cases t.offset with
  | none => exact fun p hp => nomatch hp
  | some o => exact isBare_offset o

theorem isField_renderCell {c : Cell} (h : c.isPlain = true) : IsField (renderCell c) := by
  cases c with
  | null => exact .inl fun p hp => nomatch hp
  | int n => exact .inl (isBare_intText n)
  | date d => exact .inl (isBare_date d)
  | datetime t => exact .inl (((isBare_date _).append (t := py "T") (by decide)).append (isBare_time _))
  | text s => exact isField_csvEscape s
  | bool | decimal | float => cases h

/-! ### What is printed alike -/

theorem csvEscape_injective : Function.Injective csvEscape := by
  intro s t h
  -- a text in quotes has a special character
  have hquoted : ∀ text : PyStr, (quotedField text).any isSpecial = true :=
    fun text => List.any_eq_true.mpr ⟨quoteMark, List.mem_cons_self, quoteMark_special⟩
  rw [csvEscape, csvEscape] at h
  split at h
  case isTrue hs =>
    split at h
    case isTrue ht =>
      have hline : quotedField s ++ [comma] = quotedField t ++ [comma] := by rw [h]
      simp only [quotedField, List.cons_append, List.append_assoc, List.nil_append] at hline
      exact (doubled_append_inj (by decide) (by decide) (List.cons.inj hline).2).1
    case isFalse ht => exact absurd (h ▸ hquoted s) ht
  case isFalse hs =>
    split at h
    case isTrue ht => exact absurd (h ▸ hquoted t) hs
    case isFalse ht => exact h

theorem pyJoinComma_fieldsOf (fs : List PyStr) : pyJoinComma (fieldsOf fs) = pyJoinComma fs := by
  rw [fieldsOf]
  split
  case isTrue h => rw [h]; rfl
  case isFalse => rfl

theorem fieldsOf_ne_nil (fs : List PyStr) : fieldsOf fs ≠ [] := by
  rw [fieldsOf]
  split
  case isTrue => exact List.cons_ne_nil _ _
  case isFalse h => exact h

theorem isField_fieldsOf {fs : List PyStr} (h : ∀ f ∈ fs, IsField f) : ∀ f ∈ fieldsOf fs, IsField f := by
  rw [fieldsOf]
  split
  case isTrue => exact fun f hf => .inl fun p hp => by rw [List.mem_singleton.mp hf] at hp; cases hp
  case isFalse => exact h

theorem fieldsOf_inj {fs fs' : List PyStr} (hlength : fs.length = fs'.length) (h : fieldsOf fs = fieldsOf fs') :
    fs = fs' := by
  rw [fieldsOf, fieldsOf] at h
  split at h
  case isTrue hnil =>
    rw [hnil] at hlength
    rw [hnil, List.eq_nil_of_length_eq_zero hlength.symm]
  case isFalse hne =>
    have hne' : fs' ≠ [] := fun hnil => hne (List.eq_nil_of_length_eq_zero (by rw [hlength, hnil, List.length_nil]))
    rwa [if_neg hne'] at h

namespace Table

/-- The fields of the printed row. -/
def printed (row : List Cell) : List PyStr := fieldsOf (row.map renderCell)

/-- The fields of the canonical CSV, line by line. -/
def lines (t : Table) : List (List PyStr) :=
  fieldsOf (t.columns.map csvEscape) :: StableSort.sortOn pyJoinComma (t.rows.map printed)

theorem canonicalCsv_eq (t : Table) :
    canonicalCsv t.columns t.rows = t.lines.flatMap fun fs => csvLine (pyJoinComma fs) := by
  have hrows : StableSort.sortOn id (t.rows.map rowKey) = (StableSort.sortOn pyJoinComma (t.rows.map printed)).map pyJoinComma := by
    have hsorted : StableSort.sortOn id ((t.rows.map printed).map pyJoinComma) =
        (StableSort.sortOn pyJoinComma (t.rows.map printed)).map pyJoinComma := sortOn_map pyJoinComma fun _ => rfl
    rw [← hsorted, List.map_map]
    exact congrArg _ (List.map_congr_left fun row _ => (pyJoinComma_fieldsOf _).symm)
  rw [canonicalCsv, lines, List.flatMap_cons, List.flatMap_cons, pyJoinComma_fieldsOf, hrows, List.flatMap_map]

theorem isField_lines {t : Table} (h : t.IsPlain) : ∀ fs ∈ t.lines, fs ≠ [] ∧ ∀ f ∈ fs, IsField f := by
  rw [lines, List.forall_mem_cons]
  refine ⟨⟨fieldsOf_ne_nil _, isField_fieldsOf fun f hf => ?_⟩, fun fs hfs => ?_⟩
  · obtain ⟨name, -, rfl⟩ := List.mem_map.mp hf
    exact isField_csvEscape name
  · obtain ⟨row, hrow, rfl⟩ := List.mem_map.mp (mem_sortOn.mp hfs)
    refine ⟨fieldsOf_ne_nil _, isField_fieldsOf fun f hf => ?_⟩
    obtain ⟨c, hc, rfl⟩ := List.mem_map.mp hf
    exact isField_renderCell (h row hrow c hc)

end Table

/-- A joined line is read back, so lines of one text have the same fields. -/
theorem pyJoinComma_inj {fs fs' : List PyStr} (hfs : fs ≠ [] ∧ ∀ f ∈ fs, IsField f)
    (hfs' : fs' ≠ [] ∧ ∀ f ∈ fs', IsField f) (h : pyJoinComma fs = pyJoinComma fs') : fs = fs' := by
  have hline : csvLine (pyJoinComma fs) ++ [] = csvLine (pyJoinComma fs') ++ [] := by rw [h]
  exact (line_append_inj hfs.1 hfs'.1 hfs.2 hfs'.2 hline).1

/-- **Plain tables have one canonical CSV exactly where they are printed alike.** -/
theorem canonicalCsv_eq_iff {golden agent : Table} (hg : golden.IsPlain) (ha : agent.IsPlain) :
    canonicalCsv golden.columns golden.rows = canonicalCsv agent.columns agent.rows ↔ PrintAlike golden agent := by
  have hfields := Table.isField_lines hg
  have hfields' := Table.isField_lines ha
  have hfile : canonicalCsv golden.columns golden.rows = canonicalCsv agent.columns agent.rows ↔
      golden.lines = agent.lines := by
    rw [Table.canonicalCsv_eq, Table.canonicalCsv_eq]
    exact ⟨file_inj hfields hfields', fun h => by rw [h]⟩
  have hheader : ∀ columns columns' : List PyStr,
      fieldsOf (columns.map csvEscape) = fieldsOf (columns'.map csvEscape) ↔ fieldsOf columns = fieldsOf columns' := by
    have hescape : ∀ columns : List PyStr,
        fieldsOf (columns.map csvEscape) = (fieldsOf columns).map csvEscape := fun columns => by
      cases columns <;> rfl
    intro columns columns'
    rw [hescape, hescape]
    exact (List.map_injective_iff.mpr csvEscape_injective).eq_iff
  rw [hfile, Table.lines, Table.lines, List.cons.injEq, hheader]
  refine and_congr_right fun _ => ⟨fun h => ?_, fun h => ?_⟩
  · exact sortOn_perm.symm.trans ((List.Perm.of_eq h).trans sortOn_perm)
  · refine sortOn_eq_of_perm (fun fs hfs fs' hfs' heq => ?_) h
    exact pyJoinComma_inj (hfields' fs (List.mem_cons_of_mem _ (mem_sortOn.mpr hfs)))
      (hfields' fs' (List.mem_cons_of_mem _ (mem_sortOn.mpr hfs'))) heq

/-! ### What plain rows are equal -/

theorem intText_inj {m n : Int} : Frontmatter.intText m = Frontmatter.intText n ↔ m = n := by
  refine ⟨fun h => ?_, fun h => by rw [h]⟩
  have hread := Frontmatter.decimal?_intText m
  rw [h, Frontmatter.decimal?_intText] at hread
  exact (Option.some.inj hread).symm

/-- Plain cells are equal where they show the same. -/
theorem valuesEqual_iff {a b : Cell} (ha : a.isPlain = true) (hb : b.isPlain = true) :
    valuesEqual a b = true ↔ shown a = shown b := by
  rw [shown, shown, Prod.mk.injEq, valuesEqual]
  cases a with
  | null => cases b <;> simp [Cell.isNull, renderCell]
  | int m =>
      cases b with
      | int n => simp [Cell.isNull, Cell.number?, Cell.isInt, renderCell, intText_inj]
      | null | date | datetime | text => simp [Cell.isNull, Cell.number?]
      | bool | decimal | float => cases hb
  | date d => cases b <;> simp [Cell.isNull, Cell.number?]
  | datetime t => cases b <;> simp [Cell.isNull, Cell.number?]
  | text s => cases b <;> simp [Cell.isNull, Cell.number?]
  | bool | decimal | float => cases ha

theorem rowsEqual_iff {row row' : List Cell} (h : ∀ c ∈ row, c.isPlain = true) (h' : ∀ c ∈ row', c.isPlain = true) :
    RowsEqual row row' ↔ row.map shown = row'.map shown := by
  rw [← List.forall₂_eq_eq_eq, List.forall₂_map_left_iff, List.forall₂_map_right_iff, RowsEqual]
  exact ⟨fun hrows => forall₂_mono hrows fun a ha b hb => (valuesEqual_iff (h a ha) (h' b hb)).mp,
    fun hrows => forall₂_mono hrows fun a ha b hb => (valuesEqual_iff (h a ha) (h' b hb)).mpr⟩

/-- Plain tables agree where their rows show the same, in any order. -/
theorem agree_iff {golden agent : Table} (hg : golden.IsPlain) (ha : agent.IsPlain) :
    Agree golden agent ↔ (golden.rows.map (List.map shown)).Perm (agent.rows.map (List.map shown)) := by
  rw [← matchable_iff_perm]
  refine exists_congr fun σ => forall_congr' fun i => rowsEqual_iff ?_ ?_
  · exact hg _ (List.get_mem _ _)
  · exact ha _ (List.get_mem _ _)

/-! ### The checksum -/

section Checksum

variable {sha256 : List UInt8 → PyStr} {golden agent : Table}

theorem csvChecksum_eq_some {columns : List PyStr} {rows : List (List Cell)} {text : PyStr}
    (h : csvChecksum sha256 columns rows = some text) :
    ∃ bytes, encodeUtf8 (canonicalCsv columns rows) = some bytes ∧ text = py "sha256:" ++ sha256 bytes := by
  obtain ⟨bytes, hbytes, rfl⟩ := Option.map_eq_some_iff.mp h
  exact ⟨bytes, hbytes, rfl⟩

/-- A byte-stable comparison is correct where the two files are one. -/
theorem correct_iff (hinj : Function.Injective sha256) :
    (∃ r, compareResults sha256 true golden agent = some r ∧ r.correct = true) ↔
      (canonicalCsv golden.columns golden.rows).any CodePoint.isLone = false ∧
        canonicalCsv golden.columns golden.rows = canonicalCsv agent.columns agent.rows := by
  constructor
  · rintro ⟨r, hr, hcorrect⟩
    obtain ⟨checksumG, hG, hr⟩ := Option.bind_eq_some_iff.mp hr
    obtain ⟨checksumA, hA, hr⟩ := Option.bind_eq_some_iff.mp hr
    cases hr
    obtain ⟨bytesG, hbytesG, rfl⟩ := csvChecksum_eq_some hG
    obtain ⟨bytesA, hbytesA, rfl⟩ := csvChecksum_eq_some hA
    have hsame : bytesG = bytesA := hinj (List.append_cancel_left (of_decide_eq_true hcorrect))
    subst hsame
    exact ⟨(PyText.encodeUtf8_eq_some.mp hbytesG).1, PyText.encodeUtf8_inj hbytesG hbytesA⟩
  · rintro ⟨hlone, heq⟩
    have hbytes := PyText.encodeUtf8_eq_some.mpr ⟨hlone, rfl⟩
    rw [compareResults, csvChecksum, csvChecksum, ← heq, hbytes]
    exact ⟨_, rfl, decide_eq_true rfl⟩

theorem exists_of_forall_correct {P : Prop} :
    (∀ r, compareResults sha256 true golden agent = some r → r.correct = true → P) ↔
      ((∃ r, compareResults sha256 true golden agent = some r ∧ r.correct = true) → P) :=
  ⟨fun h ⟨r, hr, hcorrect⟩ => h r hr hcorrect, fun h r hr hcorrect => h ⟨r, hr, hcorrect⟩⟩

end Checksum

/-- **The comparison of values is a matching and a checksum vouches for one exactly where** the rows that are equal are
so in the order they are printed in, and no null is printed where the other table has an empty text. -/
theorem sound_iff {sha256 : List UInt8 → PyStr} (hinj : Function.Injective sha256) (golden agent : Table) :
    Sound sha256 golden agent ↔ IsStraight golden agent := by
  have hvalues : ((valuesMultisetMatch golden.columns golden.rows agent.rows).1 = true ↔ Agree golden agent) ↔
      (Agree golden agent → MatchableInOrder RowsEqual rowKey rowKey golden.rows agent.rows) := by
    rw [valuesMultisetMatch_iff]
    exact ⟨fun h => h.mpr, fun h => ⟨MatchableInOrder.matchable, h⟩⟩
  have hchecksum : ∀ _ : golden.IsPlain, ∀ _ : agent.IsPlain,
      ((∀ r, compareResults sha256 true golden agent = some r → r.correct = true →
          golden.columns = agent.columns ∧ Agree golden agent) ↔
        ((canonicalCsv golden.columns golden.rows).any CodePoint.isLone = false → PrintAlike golden agent →
          golden.columns = agent.columns ∧
            (golden.rows.map (List.map shown)).Perm (agent.rows.map (List.map shown)))) := by
    intro hg ha
    rw [exists_of_forall_correct, correct_iff hinj, canonicalCsv_eq_iff hg ha, agree_iff hg ha, and_imp]
  constructor
  · rintro ⟨h, h'⟩
    exact ⟨hvalues.mp h, fun hg ha => (hchecksum hg ha).mp (h' hg ha)⟩
  · rintro ⟨h, h'⟩
    exact ⟨hvalues.mpr h, fun hg ha => (hchecksum hg ha).mpr (h' hg ha)⟩

/-! ### Two comparisons -/

/-- A digest that is the bytes themselves. -/
def digest (bytes : List UInt8) : PyStr := bytes.map fun b => .unit b.toUInt16

theorem digest_injective : Function.Injective digest :=
  List.map_injective_iff.mpr fun _ _ h => UInt8.toUInt16_inj.mp (CodePoint.unit.inj h)

def regionTotals : Table where
  columns := [py "region", py "total"]
  rows := [[.text (py "north"), .int 12], [.null, .int 7]]
  width := by decide

def regionTotalsAgain : Table where
  columns := [py "region", py "total"]
  rows := [[.null, .int 7], [.text (py "north"), .int 12]]
  width := by decide

theorem sound_regionTotals : Sound digest regionTotals regionTotalsAgain := by
  refine (sound_iff digest_injective _ _).mpr ⟨fun _ => ?_, fun _ _ _ _ => ⟨rfl, ?_⟩⟩
  · exact (valuesMultisetMatch_iff regionTotals regionTotalsAgain).mp (by decide +kernel)
  · exact List.Perm.swap _ _ _

/-- The averages `9.9999999999` and `9.5`. -/
def averages : Table where
  columns := [py "average"]
  rows := [[.decimal ⟨false, 99999999999, -10⟩], [.decimal ⟨false, 95, -1⟩]]
  width := by decide

/-- The averages `10` and `9.5`. -/
def averagesRounded : Table where
  columns := [py "average"]
  rows := [[.int 10], [.decimal ⟨false, 95, -1⟩]]
  width := by decide

def missingRegion : Table where
  columns := [py "region"]
  rows := [[.null]]
  width := by decide

def emptyRegion : Table where
  columns := [py "region"]
  rows := [[.text []]]
  width := by decide

/-- A number and the one it is rounded to are printed in different places, and a null is printed as an empty text. -/
theorem not_sound : ¬ Sound digest averages averagesRounded ∧ ¬ Sound digest missingRegion emptyRegion := by
  constructor
  · intro h
    have hagree : Agree averages averagesRounded := by
      refine ⟨Equiv.refl (Fin 2), fun (i : Fin 2) => ?_⟩
      match i with
      | 0 => exact .cons (by decide +kernel) .nil
      | 1 => exact .cons (by decide +kernel) .nil
    have hmatch := h.values.mpr hagree
    revert hmatch
    decide +kernel
  · intro h
    have hplain : missingRegion.IsPlain ∧ emptyRegion.IsPlain := by
      rw [Table.IsPlain, Table.IsPlain]
      decide
    have hcsv : canonicalCsv missingRegion.columns missingRegion.rows =
      canonicalCsv emptyRegion.columns emptyRegion.rows := rfl
    obtain ⟨r, hr, hcorrect⟩ := (correct_iff digest_injective).mpr ⟨by decide, hcsv⟩
    have hperm := (agree_iff hplain.1 hplain.2).mp (h.checksum hplain.1 hplain.2 r hr hcorrect).2
    revert hperm
    decide

example : (valuesMultisetMatch averages.columns averages.rows averagesRounded.rows).1 = false := by decide +kernel

end ContextLayer.Benchmark
