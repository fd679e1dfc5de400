import ContextLayer.Scrub

/-!
# What a scrub leaves

No replacement makes a match of an earlier pattern: a blank is no character of theirs, and a word is
blanked whole or not at all. What the scrub does at last, cutting the text, can end it in a blank, or in
the digits of a word.
-/

namespace ContextLayer.Scrub

open Text Regex Partition

variable {s t u v : Text} {re m a : Regex UInt16} {prev next : Bool} {max : Nat}

/-- The pattern matches somewhere. -/
abbrev Has (re : Regex UInt16) (s : Text) : Prop := Regex.Occurs isWord re s

/-! ### Units -/

theorem isWord_of_isDigit {c : UInt16} (h : isDigit c = true) : isWord c = true := by
  simp only [isDigit, Bool.and_eq_true] at h
  simp only [isWord, h.1, h.2, Bool.and_self, Bool.or_true, Bool.true_or]

theorem isWord_of_isPoint {c : UInt16} (h : isPoint c = true) : isWord c = false := by
  simp only [isPoint, Bool.or_eq_true, beq_iff_eq] at h
  obtain rfl | rfl := h <;> decide

theorem isWord_of_isJsSpace {c : UInt16} (h : isJsSpace c = true) : isWord c = false := by
  by_contra hword
  rw [Bool.not_eq_false] at hword
  simp only [isWord, isJsSpace, Bool.or_eq_true, Bool.and_eq_true, decide_eq_true_eq, beq_iff_eq,
    UInt16.le_iff_toNat_le, ← UInt16.toNat_inj] at h hword
  simp at h hword
  omega

/-! ### Quotes -/

/-- Neither quote occurs twice. -/
def Unquoted (s : Text) : Prop := s.count 0x22 ≤ 1 ∧ s.count 0x27 ≤ 1

theorem matches_quotedBy {q : UInt16} : Regex.Matches isWord (quotedBy q) prev u next ↔
    ∃ v, q ∉ v ∧ u = q :: (v ++ [q]) := by
  have hunit : ∀ {prev next : Bool} {u : Text}, Regex.Matches isWord (unit q) prev u next ↔ u = [q] := by
    intro prev next u
    constructor
    · intro h
      cases h with
      | char hp => rw [eq_of_beq hp]
    · rintro rfl
      exact .char (beq_self_eq_true q)
  simp only [quotedBy, matches_seq, hunit, matches_star_char_iff]
  constructor
  · rintro ⟨_, _, rfl, rfl, v, _, rfl, hv, rfl⟩
    exact ⟨v, fun hq => absurd (hv q hq) (by simp), rfl⟩
  · rintro ⟨v, hv, rfl⟩
    refine ⟨[q], v ++ [q], rfl, rfl, v, [q], rfl, fun c hc => ?_, rfl⟩
    exact bne_iff_ne.mpr fun heq => hv (heq ▸ hc)

theorem not_has_quoted (h : Unquoted s) : ¬ Has quotedRe s := by
  have htwice : ∀ q (before v after : Text), 2 ≤ (before ++ (q :: (v ++ [q]) ++ after)).count q := by
    intro q before v after
    simp only [List.count_append, List.count_cons_self, List.count_nil]
    omega
  rintro ⟨before, u, after, rfl, hmatch⟩
  cases hmatch with
  | left hmatch =>
      obtain ⟨v, -, rfl⟩ := matches_quotedBy.mp hmatch
      exact absurd h.1 (Nat.not_le.mpr (htwice _ before v after))
  | right hmatch =>
      obtain ⟨v, -, rfl⟩ := matches_quotedBy.mp hmatch
      exact absurd h.2 (Nat.not_le.mpr (htwice _ before v after))

theorem count_blanked_le {q : UInt16} (hq : q ≠ 0x20) (ps : List (Regex.Piece UInt16)) :
    (ps.map (Regex.Piece.blanked 0x20)).count q ≤ (ps.flatMap Regex.Piece.text).count q := by
  induction ps with
  | nil => exact le_rfl
  | cons p ps ih =>
      rw [List.map_cons, List.flatMap_cons, List.count_append, ← List.singleton_append, List.count_append]
      refine Nat.add_le_add ?_ ih
      cases p with
      | kept c => exact le_rfl
      | found u =>
          have hzero : List.count q [(0x20 : UInt16)] = 0 := List.count_eq_zero.mpr (by simpa using hq)
          exact hzero.le.trans (Nat.zero_le _)

/-- A quote that is kept has no other behind it. -/
theorem count_quotes {q : UInt16} (hq : q ≠ 0x20)
    (hkept : ∀ {prev next u}, Regex.Matches isWord (quotedBy q) prev u next → Regex.Matches isWord quotedRe prev u next)
    {ps : List (Regex.Piece UInt16)} (h : IsScan isWord quotedRe prev ps) :
    (ps.map (Regex.Piece.blanked 0x20)).count q ≤ 1 := by
  induction h with
  | nil => exact Nat.zero_le _
  | @kept prev c ps hnone _ ih =>
      by_cases hc : c = q
      · subst hc
        have hrest : c ∉ ps.flatMap Regex.Piece.text := by
          intro hmem
          obtain ⟨v, w, htext, hv⟩ := List.eq_append_cons_of_mem hmem
          refine first_eq_none_iff.mp hnone (c :: (v ++ [c])) w ?_
            (hkept (matches_quotedBy.mpr ⟨v, hv, rfl⟩))
          rw [htext, List.cons_append, List.append_assoc, List.singleton_append]
        have hzero := (count_blanked_le hq ps).trans (List.count_eq_zero.mpr hrest).le
        rw [List.map_cons, Regex.Piece.blanked, List.count_cons_self]
        omega
      · rwa [List.map_cons, Regex.Piece.blanked, List.count_cons_of_ne hc]
  | @found prev u ps hne hfirst hscan ih =>
      rwa [List.map_cons, Regex.Piece.blanked, List.count_cons_of_ne (Ne.symm hq)]

/-! ### Replacements -/

theorem blankOut_eq (re : Regex UInt16) (s : Text) :
    blankOut re s = (scan isWord re s).map (Regex.Piece.blanked 0x20) := replace_blank s

theorem unquoted_blankOut (s : Text) : Unquoted (blankOut quotedRe s) := by
  rw [blankOut_eq]
  have hscan := (scan_isScan isWord (r := quotedRe) rfl s).2
  exact ⟨count_quotes (by decide) .left hscan, count_quotes (by decide) .right hscan⟩

theorem Unquoted.blankOut (hre : re.nullable = false) (h : Unquoted s) : Unquoted (blankOut re s) := by
  have htext := (scan_isScan isWord hre s).1
  rw [blankOut_eq]
  refine ⟨(count_blanked_le (by decide) _).trans ?_, (count_blanked_le (by decide) _).trans ?_⟩ <;> rw [htext]
  · exact h.1
  · exact h.2

/-- A pattern without boundaries. -/
structure IsPlain (m : Regex UInt16) : Prop where
  nullable : m.nullable = false
  plain : m.isPlain = true
  avoids : m.avoids 0x20 = true

/-- What a pattern between boundaries has inside. -/
structure IsInner (a : Regex UInt16) : Prop where
  nullable : a.nullable = false
  avoids : a.avoids 0x20 = true

theorem not_has_self (hm : IsPlain m) (s : Text) : ¬ Has m (blankOut m s) := by
  rw [blankOut_eq]
  exact fun h => (scan_isScan isWord hm.nullable s).2.not_occursKept hm.nullable
    (occursKept_plain hm.plain hm.avoids h)

theorem not_has_blankOut (hm : IsPlain m) (hre : re.nullable = false) (h : ¬ Has m s) :
    ¬ Has m (blankOut re s) := by
  rw [blankOut_eq]
  intro hocc
  have hkept := (occursKept_plain hm.plain hm.avoids hocc).occurs
  rw [(scan_isScan isWord hre s).1] at hkept
  exact h hkept

theorem not_has_self_bounded (ha : IsInner a) (s : Text) : ¬ Has (bounded a) (blankOut (bounded a) s) := by
  have hnullable : (bounded a).nullable = false := by simp [bounded, nullable, ha.nullable]
  rw [blankOut_eq]
  intro h
  have hscan := (scan_isScan isWord hnullable s).2
  exact hscan.not_occursKept hnullable
    (occursKept_bounded ha.nullable ha.avoids hscan (whole_bounded ha.nullable) (by decide) h)

theorem not_has_blankOut_bounded (ha : IsInner a) (hre : re.nullable = false) (hwhole : Whole isWord re)
    (h : ¬ Has (bounded a) s) : ¬ Has (bounded a) (blankOut re s) := by
  rw [blankOut_eq]
  intro hocc
  obtain ⟨htext, hscan⟩ := scan_isScan isWord hre s
  have hkept := (occursKept_bounded ha.nullable ha.avoids hscan hwhole (by decide) hocc).occurs
  rw [htext] at hkept
  exact h hkept

theorem isPlain_email : IsPlain emailRe := ⟨rfl, rfl, by decide⟩

theorem isPlain_uuid : IsPlain uuidRe := ⟨rfl, rfl, by decide⟩

/-- What `DIGIT_RUN_RE` has between its boundaries. -/
def digitRun : Regex UInt16 := seq (star wordUnit) (seq (times digit 4) (seq (star digit) (star wordUnit)))

/-- What `NUMBER_RE` has between its boundaries. -/
def number : Regex UInt16 := seq (plus digit) (star (seq (.char isPoint) (plus digit)))

theorem isInner_digitRun : IsInner digitRun := ⟨rfl, by decide⟩

theorem isInner_number : IsInner number := ⟨rfl, by decide⟩

theorem whole_spaces : Whole isWord spacesRe := by
  refine whole_of_reads rfl ?_
  have hout : ∀ c, isJsSpace c = true → (!isWord c) = true := by
    intro c hc
    rw [isWord_of_isJsSpace hc]
    rfl
  exact ⟨hout, hout⟩

/-! ### The text ahead of the cut -/

/-- No pattern matches. -/
structure Clean (s : Text) : Prop where
  quoted : Unquoted s
  email : ¬ Has emailRe s
  uuid : ¬ Has uuidRe s
  digitRun : ¬ Has digitRunRe s
  number : ¬ Has numberRe s

theorem Clean.spaces (h : Clean s) : Clean (blankOut spacesRe s) where
  quoted := h.quoted.blankOut rfl
  email := not_has_blankOut isPlain_email rfl h.email
  uuid := not_has_blankOut isPlain_uuid rfl h.uuid
  digitRun := not_has_blankOut_bounded isInner_digitRun rfl whole_spaces h.digitRun
  number := not_has_blankOut_bounded isInner_number rfl whole_spaces h.number

theorem clean_values (s : Text) :
    Clean (blankOut numberRe (blankOut digitRunRe (blankOut uuidRe (blankOut emailRe (blankOut quotedRe s))))) where
  quoted := ((((unquoted_blankOut s).blankOut rfl).blankOut rfl).blankOut rfl).blankOut rfl
  email := not_has_blankOut isPlain_email rfl (not_has_blankOut isPlain_email rfl
    (not_has_blankOut isPlain_email rfl (not_has_self isPlain_email _)))
  uuid := not_has_blankOut isPlain_uuid rfl (not_has_blankOut isPlain_uuid rfl (not_has_self isPlain_uuid _))
  digitRun := not_has_blankOut_bounded isInner_digitRun rfl (whole_bounded rfl)
    (not_has_self_bounded isInner_digitRun _)
  number := not_has_self_bounded isInner_number _

/-! ### Parts of a text -/

/-- No white space at either end, and none doubled. -/
structure Tidy (s : Text) : Prop where
  head : ∀ c ∈ s.head?, isJsSpace c = false
  last : ∀ c ∈ s.getLast?, isJsSpace c = false
  single : s.IsChain fun c d => ¬ (isJsSpace c = true ∧ isJsSpace d = true)

def Blank (s : Text) : Prop := ∀ c ∈ s, isJsSpace c = true → c = 0x20

theorem Has.extend (hm : m.isPlain = true) (h : Has m s) (before after : Text) :
    Has m (before ++ (s ++ after)) := by
  obtain ⟨x, u, y, rfl, hmatch⟩ := h
  refine ⟨before ++ x, u, y ++ after, ?_, hmatch.plain hm _ _⟩
  simp only [List.append_assoc]

theorem behind_spaces (h : ∀ c ∈ s, isJsSpace c = true) : Regex.behind isWord false s = false := by
  obtain rfl | ⟨v, c, rfl⟩ := List.eq_nil_or_concat' s
  · rfl
  · rw [behind_concat]
    exact isWord_of_isJsSpace (h c (List.mem_append_right _ List.mem_cons_self))

theorem ahead_spaces (h : ∀ c ∈ s, isJsSpace c = true) : Regex.ahead isWord s false = false := by
  cases s with
  | nil => rfl
  | cons c s => exact isWord_of_isJsSpace (h c List.mem_cons_self)

theorem ahead_word (hne : s ≠ []) (h : ∀ c ∈ s, isWord c = true) : Regex.ahead isWord s next = true := by
  obtain ⟨c, s, rfl⟩ := List.exists_cons_of_ne_nil hne
  exact h c List.mem_cons_self

theorem behind_word (hne : s ≠ []) (h : ∀ c ∈ s, isWord c = true) : Regex.behind isWord prev s = true := by
  obtain ⟨v, c, rfl⟩ := (List.eq_nil_or_concat' s).resolve_left hne
  rw [behind_concat]
  exact h c (List.mem_append_right _ List.mem_cons_self)

/-- White space at the ends is seen as their absence is. -/
theorem Has.pad {before after : Text} (h : Has m s) (hbefore : ∀ c ∈ before, isJsSpace c = true)
    (hafter : ∀ c ∈ after, isJsSpace c = true) : Has m (before ++ (s ++ after)) := by
  obtain ⟨x, u, y, rfl, hmatch⟩ := h
  refine ⟨before ++ x, u, y ++ after, by simp only [List.append_assoc], ?_⟩
  rwa [behind_append, behind_spaces hbefore, ahead_append, ahead_spaces hafter]

theorem Unquoted.sublist (h : Unquoted t) (hs : s.Sublist t) : Unquoted s :=
  ⟨(hs.count_le _).trans h.1, (hs.count_le _).trans h.2⟩

theorem Clean.trim (h : Clean s) : Clean (Connections.trim s) := by
  obtain ⟨before, after, hs, hbefore, hafter, -, -⟩ := exists_strip isJsSpace s
  rw [← Connections.trim] at hs
  generalize Connections.trim s = t at hs
  subst hs
  have hsub : t.Sublist (before ++ (t ++ after)) :=
    (List.sublist_append_left _ _).trans (List.sublist_append_right _ _)
  exact ⟨h.quoted.sublist hsub, fun h' => h.email (h'.pad hbefore hafter),
    fun h' => h.uuid (h'.pad hbefore hafter), fun h' => h.digitRun (h'.pad hbefore hafter),
    fun h' => h.number (h'.pad hbefore hafter)⟩

theorem withoutValues_clean (text : Text) : Clean (withoutValues text) := (clean_values text).spaces.trim

theorem withoutValues_tidy (text : Text) : Tidy (withoutValues text) ∧ Blank (withoutValues text) := by
  unfold withoutValues
  generalize blankOut numberRe _ = s
  have hscan := (scan_isScan isWord (r := spacesRe) rfl s).2
  obtain ⟨hblank, hchain⟩ := hscan.collapsed 0x20
  rw [← blankOut_eq] at hblank hchain
  obtain ⟨before, after, hs, -, -, hhead, hlast⟩ := exists_strip isJsSpace (blankOut spacesRe s)
  rw [← Connections.trim] at hs hhead hlast
  have hpart : Connections.trim (blankOut spacesRe s) <:+: blankOut spacesRe s := by
    refine ⟨before, after, ?_⟩
    rw [List.append_assoc]
    exact hs.symm
  exact ⟨⟨hhead, hlast, hchain.infix hpart⟩, fun c hc => hblank c (List.IsInfix.subset hpart hc)⟩

/-- **What is clean and tidy stays as it is.** -/
theorem withoutValues_eq_self (hclean : Clean s) (htidy : Tidy s) (hblank : Blank s) :
    withoutValues s = s := by
  have hquoted : blankOut quotedRe s = s := replace_eq_self rfl (not_has_quoted hclean.quoted) _
  have hemail : blankOut emailRe s = s := replace_eq_self rfl hclean.email _
  have huuid : blankOut uuidRe s = s := replace_eq_self rfl hclean.uuid _
  have hrun : blankOut digitRunRe s = s := replace_eq_self rfl hclean.digitRun _
  have hnumber : blankOut numberRe s = s := replace_eq_self rfl hclean.number _
  have hspaces : blankOut spacesRe s = s := by
    obtain ⟨htext, hscan⟩ := scan_isScan isWord (r := spacesRe) rfl s
    rw [blankOut_eq, hscan.blanked_eq_text (htext.symm ▸ hblank) (htext.symm ▸ htidy.single), htext]
  have htrim : Connections.trim s = s := by
    have hstrip := strip_append (p := isJsSpace) (a := []) (b := []) (c := s)
      (fun x hx => absurd hx List.not_mem_nil) (fun x hx => absurd hx List.not_mem_nil) htidy.head htidy.last
    rwa [List.append_nil] at hstrip
  rw [withoutValues, hquoted, hemail, huuid, hrun, hnumber, hspaces, htrim]

/-! ### The cut -/

theorem matches_digitRun : Regex.Matches isWord digitRun prev u next ↔ ∃ x d y, u = x ++ (d ++ y) ∧ d.length = 4 ∧
    (∀ c ∈ d, isDigit c = true) ∧ (∀ c ∈ x, isWord c = true) ∧ ∀ c ∈ y, isWord c = true := by
  simp only [digitRun, matches_seq, wordUnit, digit, matches_star_char_iff, matches_times_char]
  constructor
  · rintro ⟨x, _, rfl, hx, d, _, rfl, ⟨hlength, hd⟩, y, y', rfl, hy, hy'⟩
    refine ⟨x, d, y ++ y', rfl, hlength, hd, hx, fun c hc => ?_⟩
    exact (List.mem_append.mp hc).elim (fun hc => isWord_of_isDigit (hy c hc)) (hy' c)
  · rintro ⟨x, d, y, rfl, hlength, hd, hx, hy⟩
    exact ⟨x, _, rfl, hx, d, y, rfl, ⟨hlength, hd⟩, [], y, rfl, fun c hc => absurd hc List.not_mem_nil, hy⟩

/-- The digits that a word is cut to still belong to a longer one. -/
theorem has_digitRun_of_take (rest : Text) (h : Has digitRunRe s) : Has digitRunRe (s ++ rest) := by
  obtain ⟨x, u, y, rfl, hmatch⟩ := h
  cases y with
  | cons c y =>
      refine ⟨x, u, c :: (y ++ rest), by simp only [List.append_assoc, List.cons_append], hmatch⟩
  | nil =>
      obtain ⟨hne, hprev, hnext, hmatch⟩ := (matches_bounded isInner_digitRun.nullable).mp hmatch
      obtain ⟨p, d, q, rfl, hlength, hd, hp, hq⟩ := matches_digitRun.mp hmatch
      have hword : ∀ c ∈ p ++ (d ++ (q ++ rest.takeWhile isWord)), isWord c = true := by
        intro c hc
        simp only [List.mem_append] at hc
        rcases hc with hc | hc | hc | hc
        · exact hp c hc
        · exact isWord_of_isDigit (hd c hc)
        · exact hq c hc
        · exact List.mem_takeWhile_imp hc
      have hlonger : p ++ (d ++ (q ++ rest.takeWhile isWord)) = p ++ (d ++ q) ++ rest.takeWhile isWord := by
        simp only [List.append_assoc]
      have hne' : p ++ (d ++ (q ++ rest.takeWhile isWord)) ≠ [] :=
        hlonger ▸ List.append_ne_nil_of_left_ne_nil hne _
      have hword' : ∀ c ∈ p ++ (d ++ q), isWord c = true := fun c hc =>
        hword c (hlonger ▸ List.mem_append_left _ hc)
      have hend : Regex.ahead isWord (rest.dropWhile isWord) false = false := by
        cases hdrop : rest.dropWhile isWord with
        | nil => rfl
        | cons c t =>
            have hnot := List.head?_dropWhile_not isWord rest
            rw [hdrop] at hnot
            exact hnot
      refine ⟨x, p ++ (d ++ (q ++ rest.takeWhile isWord)), rest.dropWhile isWord, ?_,
        (matches_bounded isInner_digitRun.nullable).mpr ⟨hne', ?_, ?_, ?_⟩⟩
      · simp only [List.append_assoc, List.append_nil, List.takeWhile_append_dropWhile]
      · rwa [ahead_word hne' hword, ← ahead_word hne hword']
      · rw [behind_word hne' hword, hend]
        exact Bool.true_eq_false_eq_False
      · refine matches_digitRun.mpr ⟨p, d, _, rfl, hlength, hd, hp, fun c hc => ?_⟩
        exact hword c (List.mem_append_right _ (List.mem_append_right _ hc))

/-- The last word is a number, or the start of one. -/
def EndsInDigits (s : Text) : Prop := ∃ x d, s = x ++ d ∧ d ≠ [] ∧ (∀ c ∈ d, isDigit c = true) ∧
  ∀ c ∈ x.getLast?, isWord c = false

theorem behind_eq_false_iff : Regex.behind isWord false s = false ↔ ∀ c ∈ s.getLast?, isWord c = false := by
  obtain rfl | ⟨v, c, rfl⟩ := List.eq_nil_or_concat' s
  · exact iff_of_true rfl fun c hc => absurd hc (Option.not_mem_none c)
  · rw [behind_concat, List.getLast?_concat]
    exact ⟨fun h d hd => Option.some.inj hd ▸ h, fun h => h c rfl⟩

/-- A number ends in digits, behind its start or a point. -/
theorem exists_of_matches_number (h : Regex.Matches isWord number prev u next) :
    ∃ x d, u = x ++ d ∧ d ≠ [] ∧ (∀ c ∈ d, isDigit c = true) ∧
      (x = [] ∨ ∃ y c, x = y ++ [c] ∧ isPoint c = true) := by
  have hgroups : ∀ {r : Regex UInt16} {prev next : Bool} {u : Text}, Regex.Matches isWord r prev u next →
      r = star (seq (.char isPoint) (plus digit)) → u = [] ∨ ∃ y c d, u = y ++ [c] ++ d ∧ isPoint c = true ∧
        d ≠ [] ∧ ∀ c ∈ d, isDigit c = true := by
    intro r prev next u hmatch
    induction hmatch with
    | done => exact fun _ => .inl rfl
    | @more a _ _ u v _ hgroup _ _ ih =>
        intro heq
        obtain rfl := (Regex.star.inj heq)
        obtain ⟨p, d, rfl, hp, hd⟩ := matches_seq.mp hgroup
        cases hp with
        | @char _ c _ _ hc =>
            obtain ⟨hne, hdigits⟩ := matches_plus_char.mp hd
            obtain rfl | ⟨y, c', d', rfl, hc', hd'⟩ := ih rfl
            · exact .inr ⟨[], c, d, by rw [List.append_nil]; rfl, hc, hne, hdigits⟩
            · exact .inr ⟨[c] ++ d ++ y, c', d', by simp only [List.append_assoc], hc', hd'⟩
    | _ => exact fun heq => nomatch heq
  obtain ⟨d, v, rfl, hd, hv⟩ := matches_seq.mp h
  obtain ⟨hne, hdigits⟩ := matches_plus_char.mp hd
  obtain rfl | ⟨y, c, d', rfl, hc, hne', hd'⟩ := hgroups hv rfl
  · exact ⟨[], d, by rw [List.append_nil, List.nil_append], hne, hdigits, .inl rfl⟩
  · exact ⟨d ++ (y ++ [c]), d', by simp only [List.append_assoc], hne', hd',
      .inr ⟨d ++ y, c, by simp only [List.append_assoc], hc⟩⟩

/-- The cut makes a number of a word that begins with its digits, and of nothing else. -/
theorem has_number_of_take (rest : Text) (hnone : ¬ Has numberRe (s ++ rest)) :
    Has numberRe s ↔ EndsInDigits s := by
  constructor
  · rintro ⟨x, u, y, rfl, hmatch⟩
    cases y with
    | cons c y =>
        refine absurd ⟨x, u, c :: (y ++ rest), ?_, hmatch⟩ hnone
        simp only [List.append_assoc, List.cons_append]
    | nil =>
        obtain ⟨hne, hprev, -, hmatch⟩ := (matches_bounded isInner_number.nullable).mp hmatch
        obtain ⟨p, d, rfl, hd, hdigits, hp⟩ := exists_of_matches_number hmatch
        refine ⟨x ++ p, d, by simp only [List.append_assoc, List.append_nil], hd, hdigits, ?_⟩
        rw [← behind_eq_false_iff, behind_append]
        obtain rfl | ⟨q, c, rfl, hc⟩ := hp
        · rw [List.nil_append, ahead_word hd fun c hc => isWord_of_isDigit (hdigits c hc)] at hprev
          exact Bool.eq_false_iff.mpr hprev
        · rw [behind_concat]
          exact isWord_of_isPoint hc
  · rintro ⟨x, d, rfl, hd, hdigits, hx⟩
    have hword : ∀ c ∈ d, isWord c = true := fun c hc => isWord_of_isDigit (hdigits c hc)
    refine ⟨x, d, [], by rw [List.append_nil], (matches_bounded isInner_number.nullable).mpr ⟨hd, ?_, ?_, ?_⟩⟩
    · rw [behind_eq_false_iff.mpr hx, ahead_word hd hword]
      exact Bool.false_ne_true
    · rw [behind_word hd hword]
      exact Bool.true_eq_false_eq_False
    · exact matches_seq.mpr ⟨d, [], (List.append_nil d).symm, matches_plus_char.mpr ⟨hd, hdigits⟩, .done⟩

/-! ### Value-free texts -/

/-- What a scrub is for. -/
structure ValueFree (max : Nat) (out : Text) : Prop where
  length : out.length ≤ max
  noMatch : ∀ p ∈ valuePatterns, ¬ Has p.2 out
  tidy : Tidy out
  stable : scrubText out max = out

theorem Clean.noMatch (h : Clean s) : ∀ p ∈ valuePatterns, ¬ Has p.2 s := by
  simp only [valuePatterns, List.forall_mem_cons, List.not_mem_nil, false_imp_iff, implies_true, and_true]
  exact ⟨not_has_quoted h.quoted, h.email, h.uuid, h.digitRun, h.number⟩

theorem Has.of_take (hm : m.isPlain = true) (h : Has m (s.take max)) : Has m s := by
  have hmore := h.extend hm [] (s.drop max)
  rwa [List.nil_append, List.take_append_drop] at hmore

/-- A cut text is clean, but for the digits it may end in. -/
theorem Clean.take (h : Clean s) : Clean (s.take max) ↔ ¬ EndsInDigits (s.take max) := by
  have hsplit := List.take_append_drop max s
  have hnumber : Has numberRe (s.take max) ↔ EndsInDigits (s.take max) :=
    has_number_of_take (s.drop max) (hsplit.symm ▸ h.number)
  rw [← hnumber]
  constructor
  · exact fun hclean => hclean.number
  · intro hnone
    refine ⟨h.quoted.sublist (List.take_sublist max s), fun h' => h.email (h'.of_take rfl),
      fun h' => h.uuid (h'.of_take rfl), fun h' => h.digitRun ?_, hnone⟩
    exact hsplit ▸ has_digitRun_of_take (s.drop max) h'

theorem Tidy.take (h : Tidy s) :
    Tidy (s.take max) ↔ ∀ c ∈ (s.take max).getLast?, isJsSpace c = false := by
  constructor
  · exact fun htidy => htidy.last
  · intro hlast
    refine ⟨fun c hc => h.head c ?_, hlast, h.single.take max⟩
    cases max with
    | zero => cases hc
    | succ max => rwa [List.head?_take, if_neg (Nat.succ_ne_zero max)] at hc

/-- A replacement takes at least one character for its blank. -/
theorem length_blankOut_le (hre : re.nullable = false) (s : Text) : (blankOut re s).length ≤ s.length := by
  have hpieces : ∀ {prev : Bool} {ps : List (Regex.Piece UInt16)}, IsScan isWord re prev ps →
      ps.length ≤ (ps.flatMap Regex.Piece.text).length := by
    intro prev ps h
    induction h with
    | nil => exact Nat.le_refl _
    | kept _ _ ih =>
        rw [List.flatMap_cons, List.length_append, Regex.Piece.text, List.length_singleton, List.length_cons]
        omega
    | found hne _ _ ih =>
        have hpos := List.length_pos_of_ne_nil hne
        rw [List.flatMap_cons, List.length_append, Regex.Piece.text, List.length_cons]
        omega
  obtain ⟨htext, hscan⟩ := scan_isScan isWord hre s
  calc (blankOut re s).length
      = (scan isWord re s).length := by rw [blankOut_eq, List.length_map]
    _ ≤ ((scan isWord re s).flatMap Regex.Piece.text).length := hpieces hscan
    _ = s.length := by rw [htext]

theorem length_withoutValues_le (text : Text) : (withoutValues text).length ≤ text.length := by
  have htrim : ∀ s : Text, (Connections.trim s).length ≤ s.length := by
    intro s
    obtain ⟨before, after, hs, -⟩ := exists_strip isJsSpace s
    rw [← Connections.trim] at hs
    have hlength := congrArg List.length hs
    simp only [List.length_append] at hlength
    omega
  calc (withoutValues text).length
      ≤ _ := htrim _
    _ ≤ _ := length_blankOut_le rfl _
    _ ≤ _ := length_blankOut_le rfl _
    _ ≤ _ := length_blankOut_le rfl _
    _ ≤ _ := length_blankOut_le rfl _
    _ ≤ _ := length_blankOut_le rfl _
    _ ≤ text.length := length_blankOut_le rfl _

/-- **A scrubbed text is free of values unless the cut goes wrong**: within its length nothing is cut, and
else the cut is to end neither in white space nor in the digits that a word begins with. -/
theorem scrubText_valueFree_iff (text : Text) (max : Nat) :
    (text.length ≤ max → ValueFree max (scrubText text max)) ∧
      (ValueFree max (scrubText text max) ↔ (withoutValues text).length ≤ max ∨
        (∀ c ∈ ((withoutValues text).take max).getLast?, isJsSpace c = false) ∧
          ¬ EndsInDigits ((withoutValues text).take max)) := by
  have hclean := withoutValues_clean text
  obtain ⟨htidy, hblank⟩ := withoutValues_tidy text
  have hfree : Clean (scrubText text max) → Tidy (scrubText text max) → ValueFree max (scrubText text max) := by
    intro hclean' htidy'
    have hlength : (scrubText text max).length ≤ max := List.length_take_le max _
    refine ⟨hlength, hclean'.noMatch, htidy', ?_⟩
    rw [scrubText, withoutValues_eq_self hclean' htidy' fun c hc => hblank c (List.mem_of_mem_take hc)]
    exact List.take_of_length_le hlength
  have hshort : (withoutValues text).length ≤ max → ValueFree max (scrubText text max) := by
    intro hle
    have hwhole : scrubText text max = withoutValues text := List.take_of_length_le hle
    exact hfree (hwhole ▸ hclean) (hwhole ▸ htidy)
  refine ⟨fun hle => hshort ((length_withoutValues_le text).trans hle), ?_⟩
  constructor
  · intro h
    refine .inr ⟨h.tidy.last, ?_⟩
    rw [← has_number_of_take ((withoutValues text).drop max)]
    · exact h.noMatch (.number, numberRe) (by simp [valuePatterns])
    · rw [List.take_append_drop]
      exact hclean.number
  · rintro (hle | ⟨hlast, hdigits⟩)
    · exact hshort hle
    · exact hfree (hclean.take.mpr hdigits) (htidy.take.mpr hlast)

/-- Eighty words of one letter, and one more, in a title. -/
theorem not_scrubText_valueFree : ¬ ∀ (text : Text) (max : Nat), ValueFree max (scrubText text max) := by
  intro h
  have hlast := (h ((List.replicate 80 (js "a ")).flatten ++ js "b") 160).tidy.last 0x20
  exact absurd (hlast (by decide +kernel)) (by decide)

end ContextLayer.Scrub
