import ContextLayer.Statuses
import ContextLayer.Triage
import ContextLayer.Proof.Loads

/-!
# Markers are read back

A quoted string is left alone unless a comma or a brace in it stands before white space, a name and a colon. There the
expression puts a quote into the string, which ends it ahead of the name, and no JSON goes on with a name.
-/

namespace ContextLayer.Triage

open Text PyText YamlScalars Frontmatter StableSort PyJson

/-! ### Characters -/

theorem pyEscape_slash {c : CodePoint} (h : ¬ IsRaw c) : ∃ tail, pyEscape c = .unit 0x5C :: tail ∧
    ∀ d ∈ tail, isOpener d = false := by
  have hshort : (shortEscapes.all fun e => !isOpener (.unit e.2)) = true := by decide
  have hdigit : ∀ n < 16, isOpener (.unit (hexDigit n)) = false := by decide
  obtain ⟨u, d, rfl, hd, hp⟩ | ⟨u, rfl, hu, hp⟩ | ⟨hp, -⟩ := pyEscape_cases c
  · refine ⟨_, hp, fun e he => ?_⟩
    rw [List.mem_singleton.mp he]
    simpa using List.all_eq_true.mp hshort _ (mem_shortEscapes hd)
  · have hlt : u.toNat < 0x20 := UInt16.lt_iff_toNat_lt.mp hu
    refine ⟨((unicodeEscape u).map CodePoint.unit).tail, hp, fun e he => ?_⟩
    simp only [unicodeEscape, List.map_cons, List.map_nil, List.tail_cons, List.mem_cons, List.not_mem_nil,
      or_false] at he
    rcases he with rfl | rfl | rfl | rfl | rfl
    · decide
    all_goals exact hdigit _ (by omega)
  · exact absurd hp h

theorem isKeyChar_iff {c : CodePoint} : isKeyChar c = true ↔ ∃ u : UInt16, c = .unit u ∧
    ((0x41 ≤ u ∧ u ≤ 0x5A) ∨ (0x61 ≤ u ∧ u ≤ 0x7A) ∨ u = 0x5F ∨ (0x30 ≤ u ∧ u ≤ 0x39)) := by
  cases c with
  | pair high low hhigh hlow =>
      have hgt : ¬ CodePoint.pair high low hhigh hlow ≤ .unit 0x39 := not_le.mpr (unit_lt_pair 0x39 hhigh hlow)
      simp [isKeyChar, isLetter, hgt]
  | unit u =>
      have hunit : ∀ v w : UInt16, CodePoint.unit v ≤ .unit w ↔ v ≤ w := fun v w => Iff.rfl
      simp only [isKeyChar, isLetter, hunit, Bool.or_eq_true, decide_eq_true_eq, CodePoint.unit.injEq, exists_eq_left',
        or_assoc]

/-- A character of a key is none of the others the expression and the reader look for. -/
theorem isKeyChar_apart {c : CodePoint} (h : isKeyChar c = true) : IsRaw c ∧ Sdk.isSpace c = false ∧ isOpener c = false ∧
    isJsonSpace c = false ∧ c ≠ .unit 0x22 ∧ c ≠ .unit 0x5C ∧ c ≠ .unit 0x3A ∧ c ≠ newline ∧ c ≠ .unit 0x7D ∧
    c ≠ .unit 0x5D ∧ c ≠ .unit 0x2C := by
  obtain ⟨u, rfl, hu⟩ := isKeyChar_iff.mp h
  have hne : ∀ v : UInt16, (v < 0x30 ∨ (0x39 < v ∧ v < 0x41) ∨ (0x5A < v ∧ v < 0x5F) ∨ (0x5F < v ∧ v < 0x61) ∨ 0x7A < v) →
      CodePoint.unit u ≠ .unit v := by
    intro v hv heq
    obtain rfl := CodePoint.unit.inj heq
    simp only [UInt16.lt_iff_toNat_lt, UInt16.le_iff_toNat_le, ← UInt16.toNat_inj, UInt16.toNat_ofNat] at hu hv
    omega
  have hlow : CodePoint.unit 0x20 ≤ .unit u := by
    change (0x20 : UInt16) ≤ u
    simp only [UInt16.le_iff_toNat_le, ← UInt16.toNat_inj, UInt16.toNat_ofNat] at hu ⊢
    omega
  refine ⟨isRaw_of_ge hlow (hne _ (by decide)) (hne _ (by decide)), ?_, ?_, ?_, hne _ (by decide), hne _ (by decide),
    hne _ (by decide), hne _ (by decide), hne _ (by decide), hne _ (by decide), hne _ (by decide)⟩
  · simp only [Sdk.isSpace, ← Bool.not_eq_true, Bool.or_eq_true, Bool.and_eq_true, decide_eq_true_eq]
    simp only [UInt16.le_iff_toNat_le, ← UInt16.toNat_inj, UInt16.toNat_ofNat] at hu ⊢
    omega
  · simp [isOpener, hne 0x2C (by decide), hne 0x7B (by decide)]
  · simp [isJsonSpace, hne 0x20 (by decide), hne 0x09 (by decide), hne 0x0A (by decide), hne 0x0D (by decide)]

theorem isKeyChar_of_isLetter {c : CodePoint} (h : isLetter c = true) : isKeyChar c = true := by rw [isKeyChar, h, Bool.true_or]

theorem isSpace_apart {c : CodePoint} (h : Sdk.isSpace c = true) : c ≠ .unit 0x22 ∧ c ≠ .unit 0x5C ∧ isLetter c = false := by
  refine ⟨?_, ?_, ?_⟩
  · rintro rfl
    revert h
    decide
  · rintro rfl
    revert h
    decide
  · by_contra hletter
    have := (isKeyChar_apart (isKeyChar_of_isLetter (Bool.not_eq_false _ ▸ hletter))).2.1
    rw [h] at this
    cases this

/-! ### Quoting the keys -/

theorem quoteKeysFrom_eq (skip : Nat) (s : PyStr) : quoteKeysFrom skip s = quoteKeys (s.drop skip) := by
  induction skip generalizing s with
  | zero => rfl
  | succ skip ih =>
      cases s with
      | nil => rfl
      | cons c s => exact ih s

theorem quoteKeys_cons {c : CodePoint} {rest : PyStr} (h : isOpener c = true → bareKey? rest = none) :
    quoteKeys (c :: rest) = c :: quoteKeys rest := by
  have hnone : (if isOpener c then bareKey? rest else none) = none := by
    by_cases hc : isOpener c = true
    · rw [if_pos hc, h hc]
    · rw [if_neg hc]
  rw [quoteKeys, quoteKeysFrom, hnone]
  rfl

theorem quoteKeys_cons_key {c : CodePoint} {rest blanks key : PyStr} (hc : isOpener c = true)
    (h : bareKey? rest = some (blanks, key)) :
    quoteKeys (c :: rest) = c :: (blanks ++ .unit 0x22 :: key ++ py "\":") ++
      quoteKeys (rest.drop (blanks.length + key.length + 1)) := by
  rw [quoteKeys, quoteKeysFrom, if_pos hc, h]
  simp only [quoteKeysFrom_eq]

theorem quoteKeys_append {a rest : PyStr} (h : ∀ c ∈ a, isOpener c = false) : quoteKeys (a ++ rest) = a ++ quoteKeys rest := by
  induction a with
  | nil => rfl
  | cons c a ih =>
      have hc : isOpener c = true → bareKey? (a ++ rest) = none := fun hopen => by
        rw [h c List.mem_cons_self] at hopen
        cases hopen
      rw [List.cons_append, quoteKeys_cons hc, ih fun d hd => h d (List.mem_cons_of_mem _ hd), List.cons_append]

theorem length_quoteKeys (s : PyStr) : s.length ≤ (quoteKeys s).length := by
  have key : ∀ (skip : Nat), s.length ≤ skip + (quoteKeysFrom skip s).length := by
    induction s with
    | nil => intro skip; simp
    | cons c s ih =>
        intro skip
        cases skip with
        | succ skip =>
            have := ih skip
            simp only [quoteKeysFrom, List.length_cons]
            omega
        | zero =>
            rw [quoteKeysFrom]
            cases hkey : (if isOpener c then bareKey? s else none) with
            | none =>
                have := ih 0
                simp only [List.length_cons]
                omega
            | some e =>
                obtain ⟨blanks, name⟩ := e
                have := ih (blanks.length + name.length + 1)
                simp only [List.length_cons, List.length_append]
                omega
  simpa [quoteKeys] using key 0

theorem bareKey?_key {blanks key : PyStr} (hblanks : ∀ b ∈ blanks, Sdk.isSpace b = true) (hkey : IsKey key) (rest : PyStr) :
    bareKey? (blanks ++ key ++ .unit 0x3A :: rest) = some (blanks, key) := by
  obtain ⟨hhead, hall⟩ := hkey
  have hcolon : isKeyChar (.unit 0x3A) = false := by decide
  have hall' : ∀ c ∈ key, isKeyChar c = true := List.all_eq_true.mp hall
  obtain ⟨c, name, rfl⟩ : ∃ c name, key = c :: name := by
    cases key with
    | nil => simp at hhead
    | cons c name => exact ⟨c, name, rfl⟩
  have hspace : ¬ Sdk.isSpace c = true := by
    rw [(isKeyChar_apart (hall' c List.mem_cons_self)).2.1]
    exact Bool.false_ne_true
  have hrest : (blanks ++ c :: name ++ .unit 0x3A :: rest).dropWhile Sdk.isSpace = c :: name ++ .unit 0x3A :: rest := by
    rw [List.append_assoc, List.dropWhile_append_of_pos hblanks, List.cons_append, List.dropWhile_cons_of_neg hspace]
  have hfront : (blanks ++ c :: name ++ .unit 0x3A :: rest).takeWhile Sdk.isSpace = blanks := by
    rw [List.append_assoc, List.takeWhile_append_of_pos hblanks, List.cons_append, List.takeWhile_cons_of_neg hspace,
      List.append_nil]
  have hname : (c :: name ++ .unit 0x3A :: rest).takeWhile isKeyChar = c :: name := by
    rw [List.takeWhile_append_of_pos hall', List.takeWhile_cons_of_neg (by rw [hcolon]; exact Bool.false_ne_true),
      List.append_nil]
  have hback : (c :: name ++ .unit 0x3A :: rest).dropWhile isKeyChar = .unit 0x3A :: rest := by
    rw [List.dropWhile_append_of_pos hall', List.dropWhile_cons_of_neg (by rw [hcolon]; exact Bool.false_ne_true)]
  simp only [bareKey?, hrest, hfront, hname, hback]
  rw [if_pos ⟨hhead, rfl⟩]

theorem bareKey?_eq_some {s blanks key : PyStr} (h : bareKey? s = some (blanks, key)) :
    (∀ b ∈ blanks, Sdk.isSpace b = true) ∧ IsKey key ∧ ∃ rest, s = blanks ++ key ++ .unit 0x3A :: rest := by
  simp only [bareKey?] at h
  split_ifs at h with hmatch
  · obtain ⟨rfl, rfl⟩ := Prod.mk.inj (Option.some.inj h)
    obtain ⟨hhead, hcolon⟩ := hmatch
    refine ⟨fun b hb => List.mem_takeWhile_imp hb, ⟨hhead, List.all_eq_true.mpr fun c hc => List.mem_takeWhile_imp hc⟩,
      ((s.dropWhile Sdk.isSpace).dropWhile isKeyChar).tail, ?_⟩
    have hback : (s.dropWhile Sdk.isSpace).dropWhile isKeyChar =
        .unit 0x3A :: ((s.dropWhile Sdk.isSpace).dropWhile isKeyChar).tail := by
      cases hlist : (s.dropWhile Sdk.isSpace).dropWhile isKeyChar with
      | nil =>
          rw [hlist] at hcolon
          cases hcolon
      | cons c rest =>
          rw [hlist] at hcolon
          rw [Option.some.inj hcolon, List.tail_cons]
    calc s = s.takeWhile Sdk.isSpace ++ s.dropWhile Sdk.isSpace := List.takeWhile_append_dropWhile.symm
      _ = s.takeWhile Sdk.isSpace ++ ((s.dropWhile Sdk.isSpace).takeWhile isKeyChar ++
            (s.dropWhile Sdk.isSpace).dropWhile isKeyChar) :=
          congrArg (s.takeWhile Sdk.isSpace ++ ·) List.takeWhile_append_dropWhile.symm
      _ = _ := by rw [← hback, List.append_assoc]

/-! ### In a quoted string -/

/-- What stands at the start of a quoted string, without a quote or a backslash, stands at the start of the string. -/
theorem split_quoted {m r s rest : PyStr} (hm : ∀ c ∈ m, c ≠ .unit 0x22 ∧ c ≠ .unit 0x5C)
    (h : m ++ r = esc s ++ .unit 0x22 :: rest) :
    (∀ c ∈ m, IsRaw c) ∧ ∃ after, s = m ++ after := by
  induction m generalizing s with
  | nil => exact ⟨by simp, s, rfl⟩
  | cons c m ih =>
      obtain ⟨hquote, hslash⟩ := hm c List.mem_cons_self
      cases s with
      | nil => exact absurd (List.cons.inj h).1 hquote
      | cons d s =>
          by_cases hraw : IsRaw d
          · rw [esc_cons, hraw, List.cons_append, List.singleton_append, List.cons_append] at h
            obtain ⟨rfl, hrest⟩ := List.cons.inj h
            obtain ⟨hall, after, rfl⟩ := ih (fun e he => hm e (List.mem_cons_of_mem _ he)) hrest
            exact ⟨List.forall_mem_cons.mpr ⟨hraw, hall⟩, after, rfl⟩
          · obtain ⟨tail, htail, -⟩ := pyEscape_slash hraw
            rw [esc_cons, htail] at h
            exact absurd (List.cons.inj h).1 hslash

/-- White space that is printed as it is, a key and a colon. -/
def StartsKey (s : PyStr) : Prop :=
  ∃ blanks key after, s = blanks ++ key ++ .unit 0x3A :: after ∧
    (∀ b ∈ blanks, Sdk.isSpace b = true ∧ CodePoint.unit 0x20 ≤ b) ∧ IsKey key

theorem hasBareKey_nil : ¬ HasBareKey [] := by
  rintro ⟨before, c, blanks, key, after, h, -⟩
  simp at h

theorem hasBareKey_cons (c : CodePoint) (s : PyStr) :
    HasBareKey (c :: s) ↔ isOpener c = true ∧ StartsKey s ∨ HasBareKey s := by
  constructor
  · rintro ⟨before, d, blanks, key, after, h, hopen, hblanks, hkey⟩
    cases before with
    | nil =>
        obtain ⟨rfl, rfl⟩ := List.cons.inj h
        exact .inl ⟨hopen, blanks, key, after, rfl, hblanks, hkey⟩
    | cons e before =>
        obtain ⟨-, rfl⟩ := List.cons.inj h
        exact .inr ⟨before, d, blanks, key, after, rfl, hopen, hblanks, hkey⟩
  · rintro (⟨hopen, blanks, key, after, rfl, hblanks, hkey⟩ | ⟨before, d, blanks, key, after, rfl, hopen, hblanks, hkey⟩)
    · exact ⟨[], c, blanks, key, after, rfl, hopen, hblanks, hkey⟩
    · exact ⟨c :: before, d, blanks, key, after, rfl, hopen, hblanks, hkey⟩

theorem esc_raw {s : PyStr} (h : ∀ c ∈ s, IsRaw c) (rest : PyStr) : esc (s ++ rest) = s ++ esc rest := by
  induction s with
  | nil => rfl
  | cons c s ih =>
      rw [List.cons_append, esc_cons, h c List.mem_cons_self, ih fun d hd => h d (List.mem_cons_of_mem _ hd)]
      rfl

theorem bareKey?_quoted_eq_some {s rest blanks key : PyStr}
    (h : bareKey? (esc s ++ .unit 0x22 :: rest) = some (blanks, key)) :
    StartsKey s ∧ IsKey key ∧ (∀ b ∈ blanks, IsRaw b) := by
  obtain ⟨hblanks, hkey, tail, hsplit⟩ := bareKey?_eq_some h
  have hm : ∀ c ∈ blanks ++ key ++ [.unit 0x3A], c ≠ .unit 0x22 ∧ c ≠ .unit 0x5C := by
    intro c hc
    simp only [List.mem_append, List.mem_singleton] at hc
    rcases hc with (hb | hk) | rfl
    · exact ⟨(isSpace_apart (hblanks c hb)).1, (isSpace_apart (hblanks c hb)).2.1⟩
    · have hapart := isKeyChar_apart (List.all_eq_true.mp hkey.2 c hk)
      exact ⟨hapart.2.2.2.2.1, hapart.2.2.2.2.2.1⟩
    · decide
  have hsplit' : (blanks ++ key ++ [.unit 0x3A]) ++ tail = esc s ++ .unit 0x22 :: rest := by
    rw [hsplit, List.append_assoc, List.singleton_append]
  obtain ⟨hraw, after, rfl⟩ := split_quoted hm hsplit'
  have hraws : ∀ b ∈ blanks, IsRaw b := fun b hb => hraw b (by simp [hb])
  exact ⟨⟨blanks, key, after, by simp, fun b hb => ⟨hblanks b hb, isRaw_ge (hraws b hb)⟩, hkey⟩, hkey, hraws⟩

theorem bareKey?_quoted_of_startsKey {s : PyStr} (h : StartsKey s) (rest : PyStr) :
    bareKey? (esc s ++ .unit 0x22 :: rest) ≠ none := by
  obtain ⟨blanks, key, after, rfl, hblanks, hkey⟩ := h
  have hraw : ∀ c ∈ blanks ++ key ++ [.unit 0x3A], IsRaw c := by
    intro c hc
    simp only [List.mem_append, List.mem_singleton] at hc
    rcases hc with (hb | hk) | rfl
    · obtain ⟨hspace, hge⟩ := hblanks c hb
      exact isRaw_of_ge hge (isSpace_apart hspace).1 (isSpace_apart hspace).2.1
    · exact (isKeyChar_apart (List.all_eq_true.mp hkey.2 c hk)).1
    · decide
  have hesc : esc (blanks ++ key ++ .unit 0x3A :: after) = blanks ++ key ++ .unit 0x3A :: esc after := by
    have := esc_raw hraw after
    simpa using this
  rw [hesc, List.append_assoc, List.cons_append, bareKey?_key (fun b hb => (hblanks b hb).1) hkey]
  exact Option.some_ne_none _

/-- **A quoted string** is left alone, or ends where a letter follows. -/
theorem quoteKeys_quoted (s rest : PyStr) :
    (¬ HasBareKey s ∧ quoteKeys (esc s ++ .unit 0x22 :: rest) = esc s ++ .unit 0x22 :: quoteKeys rest) ∨
      (HasBareKey s ∧ ∃ t k, quoteKeys (esc s ++ .unit 0x22 :: rest) = esc t ++ .unit 0x22 :: k ∧
        k.head?.any isLetter = true) := by
  induction s with
  | nil => exact .inl ⟨hasBareKey_nil, quoteKeys_cons fun h => absurd h (by decide)⟩
  | cons c s ih =>
      rw [esc_cons, hasBareKey_cons, List.append_assoc]
      by_cases hfound : isOpener c = true ∧ bareKey? (esc s ++ .unit 0x22 :: rest) ≠ none
      · obtain ⟨hopen, hne⟩ := hfound
        obtain ⟨⟨blanks, key⟩, hsome⟩ := Option.ne_none_iff_exists'.mp hne
        obtain ⟨hstarts, hkey, hraws⟩ := bareKey?_quoted_eq_some hsome
        have hraw : IsRaw c := by
          by_contra hnot
          obtain ⟨tail, htail, -⟩ := pyEscape_slash hnot
          simp only [isOpener, decide_eq_true_eq] at hopen
          rcases hopen with rfl | rfl
          · exact hnot (by decide)
          · exact hnot (by decide)
        refine .inr ⟨.inl ⟨hopen, hstarts⟩, c :: blanks, key ++ py "\":" ++
          quoteKeys ((esc s ++ .unit 0x22 :: rest).drop (blanks.length + key.length + 1)), ?_, ?_⟩
        · have hesc : esc (c :: blanks) = c :: blanks := by
            have := esc_raw (List.forall_mem_cons.mpr ⟨hraw, hraws⟩) []
            simpa [esc] using this
          rw [hraw, List.singleton_append, quoteKeys_cons_key hopen hsome, hesc]
          simp
        · obtain ⟨hhead, -⟩ := hkey
          cases key with
          | nil => simp at hhead
          | cons d key => simpa using hhead
      · have hstep : quoteKeys (pyEscape c ++ (esc s ++ .unit 0x22 :: rest)) =
            pyEscape c ++ quoteKeys (esc s ++ .unit 0x22 :: rest) := by
          by_cases hraw : IsRaw c
          · rw [hraw, List.singleton_append, List.singleton_append]
            exact quoteKeys_cons fun hopen => of_not_not fun hne => hfound ⟨hopen, hne⟩
          · obtain ⟨tail, htail, hclosed⟩ := pyEscape_slash hraw
            rw [htail]
            exact quoteKeys_append (List.forall_mem_cons.mpr ⟨by decide, hclosed⟩)
        have hiff : (isOpener c = true ∧ StartsKey s ∨ HasBareKey s) ↔ HasBareKey s :=
          or_iff_right fun h => hfound ⟨h.1, bareKey?_quoted_of_startsKey h.2 rest⟩
        rw [hstep, hiff]
        rcases ih with ⟨hnot, heq⟩ | ⟨hhas, t, k, heq, hk⟩
        · exact .inl ⟨hnot, by rw [heq, List.append_assoc]⟩
        · exact .inr ⟨hhas, c :: t, k, by rw [heq, esc_cons, List.append_assoc], hk⟩

/-! ### The line of an object -/

def valueText : Field → PyStr
  | .text s => pyQuote s
  | .texts items => py "[" ++ (py ", ").intercalate (items.map pyQuote) ++ py "]"

def fieldText (f : PyStr × Field) : PyStr := f.1 ++ py ": " ++ valueText f.2

def flowText (c : Contamination) : PyStr := py "\x7b" ++ (py ", ").intercalate (c.fields.map fieldText) ++ py "\x7d"

theorem flowScalar_toJson (v : Field) : flowScalar v.toJson = some (valueText v) := by
  cases v with
  | text s => rfl
  | texts items =>
      have hitems : flowItems (items.map .str) = some (items.map pyQuote) := by
        induction items with
        | nil => rfl
        | cons s items ih => rw [List.map_cons, flowItems, ih]; rfl
      rw [Field.toJson, flowScalar, hitems]
      rfl

theorem flowMapping_members (c : Contamination) : flowMapping c.members = some (flowText c) := by
  have hfields : ∀ fields : List (PyStr × Field), (fields.map fun f => (f.1, f.2.toJson)).mapM
      (fun m => (flowScalar m.2).map fun v => m.1 ++ py ": " ++ v) = some (fields.map fieldText) := by
    intro fields
    induction fields with
    | nil => rfl
    | cons f fields ih =>
        rw [List.map_cons, List.mapM_cons, ih, flowScalar_toJson]
        rfl
  rw [flowMapping, Contamination.members, hfields]
  rfl

theorem contaminationLine_toJson (c : Contamination) :
    contaminationLine c.toJson = some (py "contamination: " ++ flowText c ++ py "\n") := by
  rw [Contamination.toJson, contaminationLine, flowMapping_members, Option.map_some]

/-- The object a sync marks a document with. -/
def markerOf (r : Scan.Reason) : Contamination where
  fields := [(py "object", .text r.object), (py "change", .text r.impact.change), (py "detail", .text r.impact.detail)] ++
    if r.path = [] then [] else [(py "path", .texts r.path)]
  keys := by
    by_cases h : r.path = []
    · rw [if_pos h, List.append_nil]
      simp only [List.forall_mem_cons]
      exact ⟨by decide, by decide, by decide, List.forall_mem_nil _⟩
    · rw [if_neg h, List.cons_append, List.cons_append, List.cons_append, List.nil_append]
      simp only [List.forall_mem_cons]
      exact ⟨by decide, by decide, by decide, by decide, List.forall_mem_nil _⟩
  nodup := by
    by_cases h : r.path = []
    · rw [if_pos h]
      exact (by decide : [py "object", py "change", py "detail"].Nodup)
    · rw [if_neg h]
      exact (by decide : [py "object", py "change", py "detail", py "path"].Nodup)

/-- What the sync writes into a document is the line of its object. -/
theorem contaminationLine_markerOf (r : Scan.Reason) :
    contaminationLine (markerOf r).toJson = some (Statuses.contaminationText (some r) ++ py "\n") := by
  have hfields : (markerOf r).fields.map fieldText = Statuses.reasonEntries r := by
    by_cases h : r.path = []
    · simp only [markerOf, Statuses.reasonEntries, if_pos h]
      rfl
    · simp only [markerOf, Statuses.reasonEntries, if_neg h]
      rfl
  have hbrace : py "contamination: \x7b" = py "contamination: " ++ py "\x7b" := rfl
  rw [contaminationLine_toJson, flowText, hfields, Statuses.contaminationText, hbrace]
  simp only [List.append_assoc]

/-! ### The keys of the line -/

theorem quoteKeys_quote (rest : PyStr) : quoteKeys (.unit 0x22 :: rest) = .unit 0x22 :: quoteKeys rest :=
  quoteKeys_cons fun h => absurd h (by decide)

theorem quoteKeys_comma_quote (rest : PyStr) :
    quoteKeys (py ", " ++ .unit 0x22 :: rest) = py ", " ++ quoteKeys (.unit 0x22 :: rest) := by
  have hnone : bareKey? (.unit 0x20 :: .unit 0x22 :: rest) = none := by
    have hspace : Sdk.isSpace (.unit 0x20) = true := by decide
    have hquote : ¬ Sdk.isSpace (.unit 0x22) = true := by decide
    have hkey : ¬ isKeyChar (.unit 0x22) = true := by decide
    simp only [bareKey?]
    rw [List.dropWhile_cons_of_pos hspace, List.dropWhile_cons_of_neg hquote, List.takeWhile_cons_of_neg hkey]
    exact if_neg fun h => absurd h.1 (by decide)
  change quoteKeys (.unit 0x2C :: .unit 0x20 :: .unit 0x22 :: rest) = _
  rw [quoteKeys_cons fun _ => hnone, quoteKeys_cons fun h => absurd h (by decide)]
  rfl

theorem quoteKeys_key {c : CodePoint} {blanks key : PyStr} (hc : isOpener c = true)
    (hblanks : ∀ b ∈ blanks, Sdk.isSpace b = true) (hkey : IsKey key) (rest : PyStr) :
    quoteKeys (c :: (blanks ++ key ++ .unit 0x3A :: rest)) =
      c :: (blanks ++ .unit 0x22 :: key ++ py "\":") ++ quoteKeys rest := by
  have hdrop : (blanks ++ key ++ .unit 0x3A :: rest).drop (blanks.length + key.length + 1) = rest := by
    have happend : blanks ++ key ++ .unit 0x3A :: rest = (blanks ++ key ++ [.unit 0x3A]) ++ rest := by simp
    rw [happend]
    exact List.drop_left' (by simp; omega)
  rw [quoteKeys_cons_key hc (bareKey?_key hblanks hkey rest), hdrop]

theorem py_braces : py "\x7b" = [.unit 0x7B] ∧ py "\x7d" = [.unit 0x7D] ∧ py "[" = [.unit 0x5B] ∧ py "]" = [.unit 0x5D] :=
  ⟨rfl, rfl, rfl, rfl⟩

theorem py_marks : py ", " = [.unit 0x2C, .unit 0x20] ∧ py ": " = [.unit 0x3A, .unit 0x20] ∧
    py "\":" = [.unit 0x22, .unit 0x3A] ∧ py "\": " = [.unit 0x22, .unit 0x3A, .unit 0x20] := ⟨rfl, rfl, rfl, rfl⟩

theorem length_marks : (py ", ").length = 2 ∧ (py ": ").length = 2 ∧ (py "\x7b").length = 1 := ⟨rfl, rfl, rfl⟩

/-- A member of the line, its key in quotes. -/
def quotedMember (key rest : PyStr) : PyStr := .unit 0x22 :: key ++ py "\": " ++ rest

theorem quoteKeys_brace {f : PyStr × Field} (h : IsKey f.1) (rest : PyStr) :
    quoteKeys (py "\x7b" ++ (fieldText f ++ rest)) =
      py "\x7b" ++ quotedMember f.1 (quoteKeys (valueText f.2 ++ rest)) := by
  have := quoteKeys_key (show isOpener (.unit 0x7B) = true by decide) (List.forall_mem_nil _) h
    (.unit 0x20 :: (valueText f.2 ++ rest))
  rw [quoteKeys_cons (c := .unit 0x20) fun h => absurd h (by decide)] at this
  simpa [fieldText, quotedMember, py_braces, py_marks] using this

theorem quoteKeys_comma {f : PyStr × Field} (h : IsKey f.1) (rest : PyStr) :
    quoteKeys (py ", " ++ (fieldText f ++ rest)) =
      py ", " ++ quotedMember f.1 (quoteKeys (valueText f.2 ++ rest)) := by
  have := quoteKeys_key (show isOpener (.unit 0x2C) = true by decide)
    (show ∀ b ∈ [CodePoint.unit 0x20], Sdk.isSpace b = true by decide) h (.unit 0x20 :: (valueText f.2 ++ rest))
  rw [quoteKeys_cons (c := .unit 0x20) fun h => absurd h (by decide)] at this
  simpa [fieldText, quotedMember, py_braces, py_marks] using this

/-! ### Reading the line -/

section

variable (number : PyStr → Option (PyJson × PyStr))

/-- What no JSON goes on with. -/
def Stuck (k : PyStr) : Prop := k.head?.any isLetter = true

theorem Stuck.apart {k : PyStr} (h : Stuck k) : skipSpace k = k ∧ k.head? ≠ some (.unit 0x7D) ∧
    k.head? ≠ some (.unit 0x5D) ∧ k.head? ≠ some (.unit 0x2C) := by
  cases k with
  | nil => simp [Stuck] at h
  | cons c k =>
      have hc : isLetter c = true := by simpa [Stuck] using h
      obtain ⟨-, -, -, hspace, -, -, -, -, hbrace, hbracket, hcomma⟩ := isKeyChar_apart (isKeyChar_of_isLetter hc)
      exact ⟨skipSpace_cons hspace k, by simpa using hbrace, by simpa using hbracket, by simpa using hcomma⟩

/-- A string is read up to its end, or up to a letter where it was cut. -/
theorem scanOnce_text (s rest : PyStr) (fuel : Nat) :
    (¬ HasBareKey s ∧ scanOnce number (fuel + 1) (quoteKeys (pyQuote s ++ rest)) = some (.str s, quoteKeys rest)) ∨
      (HasBareKey s ∧ ∃ w k, scanOnce number (fuel + 1) (quoteKeys (pyQuote s ++ rest)) = some (w, k) ∧ Stuck k) := by
  rw [pyQuote_append, quoteKeys_quote, scanOnce_quote]
  rcases quoteKeys_quoted s rest with ⟨hnot, heq⟩ | ⟨hhas, t, k, heq, hk⟩
  · exact .inl ⟨hnot, by rw [heq, scanString_quoted, Option.map_some]⟩
  · exact .inr ⟨hhas, .str t, k, by rw [heq, scanString_quoted, Option.map_some], hk⟩

/-- The items of a list behind its first, up to its end. -/
def moreItems (l : List PyStr) (rest : PyStr) : PyStr := l.flatMap (fun s => py ", " ++ pyQuote s) ++ .unit 0x5D :: rest

theorem quoteKeys_moreItems_nil (rest : PyStr) : quoteKeys (moreItems [] rest) = .unit 0x5D :: quoteKeys rest :=
  quoteKeys_cons fun h => absurd h (by decide)

theorem quoteKeys_moreItems_cons (s : PyStr) (l : List PyStr) (rest : PyStr) :
    quoteKeys (moreItems (s :: l) rest) = .unit 0x2C :: .unit 0x20 :: quoteKeys (pyQuote s ++ moreItems l rest) := by
  have hsplit : moreItems (s :: l) rest = py ", " ++ (pyQuote s ++ moreItems l rest) := by simp [moreItems]
  rw [hsplit, pyQuote_append, quoteKeys_comma_quote, py_marks.1]
  rfl

theorem skipSpace_item (s rest : PyStr) : skipSpace (quoteKeys (pyQuote s ++ rest)) = quoteKeys (pyQuote s ++ rest) := by
  rw [pyQuote_append, quoteKeys_quote]
  exact skipSpace_cons (by decide) _

theorem scanItems_texts (s : PyStr) (l : List PyStr) (rest : PyStr) {fuel : Nat} (hfuel : l.length + 2 ≤ fuel) :
    ((∀ t ∈ s :: l, ¬ HasBareKey t) ∧ scanItems number fuel (quoteKeys (pyQuote s ++ moreItems l rest)) =
        some ((s :: l).map PyJson.str, quoteKeys rest)) ∨
      (¬ (∀ t ∈ s :: l, ¬ HasBareKey t) ∧
        scanItems number fuel (quoteKeys (pyQuote s ++ moreItems l rest)) = none) := by
  induction l generalizing s fuel with
  | nil =>
      obtain ⟨fuel, rfl⟩ : ∃ n, fuel = n + 2 := ⟨fuel - 2, by simp at hfuel; omega⟩
      rw [scanItems]
      rcases scanOnce_text number s (moreItems [] rest) fuel with ⟨hnot, heq⟩ | ⟨hhas, w, k, heq, hk⟩
      · refine .inl ⟨by simpa using hnot, ?_⟩
        rw [heq, Option.bind_some, quoteKeys_moreItems_nil, skipSpace_cons (by decide)]
        exact if_pos rfl
      · obtain ⟨hskip, -, hbracket, hcomma⟩ := hk.apart
        refine .inr ⟨fun h => h s List.mem_cons_self hhas, ?_⟩
        rw [heq, Option.bind_some, hskip, if_neg hbracket, if_neg hcomma]
  | cons t l ih =>
      obtain ⟨fuel, rfl⟩ : ∃ n, fuel = n + 2 := ⟨fuel - 2, by simp at hfuel; omega⟩
      rw [scanItems]
      rcases scanOnce_text number s (moreItems (t :: l) rest) fuel with ⟨hnot, heq⟩ | ⟨hhas, w, k, heq, hk⟩
      · have hcomma : (.unit 0x2C :: .unit 0x20 :: quoteKeys (pyQuote t ++ moreItems l rest) : PyStr).head? =
            some (.unit 0x2C) := rfl
        rw [heq, Option.bind_some, quoteKeys_moreItems_cons, skipSpace_cons (by decide), if_neg (by simp), if_pos hcomma,
          List.tail_cons, skipSpace_space, skipSpace_item]
        rcases ih t (show l.length + 2 ≤ fuel + 1 by simp at hfuel; omega) with ⟨hcalm, hrest⟩ | ⟨hbare, hrest⟩
        · exact .inl ⟨List.forall_mem_cons.mpr ⟨hnot, hcalm⟩, by rw [hrest]; rfl⟩
        · exact .inr ⟨fun h => hbare (List.forall_mem_cons.mp h).2, by rw [hrest]; rfl⟩
      · obtain ⟨hskip, -, hbracket, hcomma⟩ := hk.apart
        refine .inr ⟨fun h => h s List.mem_cons_self hhas, ?_⟩
        rw [heq, Option.bind_some, hskip, if_neg hbracket, if_neg hcomma]

/-- A value is read up to its end; where it is not, nothing behind it is. -/
theorem scanOnce_value (v : Field) (rest : PyStr) {fuel : Nat} (hfuel : v.strings.length + 2 ≤ fuel) :
    ((∀ s ∈ v.strings, ¬ HasBareKey s) ∧
        scanOnce number fuel (quoteKeys (valueText v ++ rest)) = some (v.toJson, quoteKeys rest)) ∨
      (¬ (∀ s ∈ v.strings, ¬ HasBareKey s) ∧
        ∀ w k, scanOnce number fuel (quoteKeys (valueText v ++ rest)) = some (w, k) → Stuck k) := by
  obtain ⟨fuel, rfl⟩ : ∃ n, fuel = n + 1 := ⟨fuel - 1, by omega⟩
  cases v with
  | text s =>
      rcases scanOnce_text number s rest fuel with ⟨hnot, heq⟩ | ⟨hhas, w, k, heq, hk⟩
      · exact .inl ⟨by simpa [Field.strings] using hnot, heq⟩
      · refine .inr ⟨by simpa [Field.strings] using hhas, fun w' k' h => ?_⟩
        obtain ⟨-, rfl⟩ := Prod.mk.inj (Option.some.inj (heq.symm.trans h))
        exact hk
  | texts items =>
      have hopen : ∀ x, quoteKeys (.unit 0x5B :: x) = .unit 0x5B :: quoteKeys x :=
        fun x => quoteKeys_cons fun h => absurd h (by decide)
      cases items with
      | nil =>
          refine .inl ⟨by simp [Field.strings], ?_⟩
          have htext : valueText (.texts []) ++ rest = .unit 0x5B :: moreItems [] rest := rfl
          rw [htext, hopen, quoteKeys_moreItems_nil, scanOnce, if_neg (by decide), if_neg (by decide), if_pos rfl,
            skipSpace_cons (by decide)]
          exact if_pos rfl
      | cons s l =>
          have htext : valueText (.texts (s :: l)) ++ rest = .unit 0x5B :: (pyQuote s ++ moreItems l rest) := by
            simp [valueText, intercalate_cons, moreItems, py_braces, List.flatMap_map]
          have hhead : (quoteKeys (pyQuote s ++ moreItems l rest)).head? ≠ some (.unit 0x5D) := by
            rw [pyQuote_append, quoteKeys_quote]
            simp
          have hscan : scanOnce number (fuel + 1) (quoteKeys (valueText (.texts (s :: l)) ++ rest)) =
              (scanItems number fuel (quoteKeys (pyQuote s ++ moreItems l rest))).map fun r => (.arr r.1, r.2) := by
            rw [htext, hopen, scanOnce, if_neg (by decide), if_neg (by decide), if_pos rfl, skipSpace_item, if_neg hhead]
          rw [hscan]
          have hlength : l.length + 2 ≤ fuel := by
            simp [Field.strings] at hfuel
            omega
          rcases scanItems_texts number s l rest hlength with
            ⟨hcalm, hitems⟩ | ⟨hbare, hitems⟩
          · exact .inl ⟨hcalm, by rw [hitems]; rfl⟩
          · refine .inr ⟨hbare, fun w k h => ?_⟩
            rw [hitems] at h
            cases h

/-- The members of the line behind its first, up to its end. -/
def moreFields (l : List (PyStr × Field)) : PyStr := l.flatMap (fun f => py ", " ++ fieldText f) ++ [.unit 0x7D]

theorem quoteKeys_moreFields_nil : quoteKeys (moreFields []) = [.unit 0x7D] := by decide

theorem quoteKeys_moreFields_cons {f : PyStr × Field} (h : IsKey f.1) (l : List (PyStr × Field)) :
    quoteKeys (moreFields (f :: l)) = .unit 0x2C :: .unit 0x20 ::
      quotedMember f.1 (quoteKeys (valueText f.2 ++ moreFields l)) := by
  have hsplit : moreFields (f :: l) = py ", " ++ (fieldText f ++ moreFields l) := by simp [moreFields]
  rw [hsplit, quoteKeys_comma h, py_marks.1]
  rfl

theorem skipSpace_member (key rest : PyStr) : skipSpace (quotedMember key rest) = quotedMember key rest :=
  skipSpace_cons (by decide) _

theorem skipSpace_value (v : Field) (rest : PyStr) :
    skipSpace (quoteKeys (valueText v ++ rest)) = quoteKeys (valueText v ++ rest) := by
  cases v with
  | text s => exact skipSpace_item s rest
  | texts items =>
      have htext : valueText (.texts items) ++ rest =
          .unit 0x5B :: ((py ", ").intercalate (items.map pyQuote) ++ py "]" ++ rest) := by simp [valueText, py_braces]
      rw [htext, quoteKeys_cons fun h => absurd h (by decide)]
      exact skipSpace_cons (by decide) _

/-- Behind its key, a member is read as its value is. -/
theorem scanMembers_member {key : PyStr} (hkey : IsKey key) (v : Field) (rest : PyStr) (fuel : Nat) :
    scanMembers number (fuel + 1) (quotedMember key (quoteKeys (valueText v ++ rest))) =
      (scanOnce number fuel (quoteKeys (valueText v ++ rest))).bind fun value =>
        if (skipSpace value.2).head? = some (.unit 0x7D) then some ([(key, value.1)], (skipSpace value.2).tail)
        else if (skipSpace value.2).head? = some (.unit 0x2C) then
          (scanMembers number fuel (skipSpace (skipSpace value.2).tail)).map fun r => ((key, value.1) :: r.1, r.2)
        else none := by
  have hraw : ∀ c ∈ key, IsRaw c := fun c hc => (isKeyChar_apart (List.all_eq_true.mp hkey.2 c hc)).1
  have hesc : esc key = key := by simpa [esc] using esc_raw hraw []
  have hscan : scanString (key ++ py "\": " ++ quoteKeys (valueText v ++ rest)) =
      some (key, .unit 0x3A :: .unit 0x20 :: quoteKeys (valueText v ++ rest)) := by
    have := scanString_quoted key (.unit 0x3A :: .unit 0x20 :: quoteKeys (valueText v ++ rest))
    rw [hesc] at this
    simpa [py_marks] using this
  rw [quotedMember, List.cons_append, List.cons_append, scanMembers, if_neg (by simp), hscan, Option.bind_some,
    skipSpace_cons (by decide), if_neg (by simp), List.tail_cons, skipSpace_space, skipSpace_value]

theorem scanMembers_fields (f : PyStr × Field) (l : List (PyStr × Field)) (hkeys : ∀ g ∈ f :: l, IsKey g.1) {fuel : Nat}
    (hfuel : l.length + ((f :: l).flatMap fun g => g.2.strings).length + 3 ≤ fuel) :
    ((∀ g ∈ f :: l, ∀ s ∈ g.2.strings, ¬ HasBareKey s) ∧
        scanMembers number fuel (quotedMember f.1 (quoteKeys (valueText f.2 ++ moreFields l))) =
          some ((f :: l).map fun g => (g.1, g.2.toJson), [])) ∨
      (¬ (∀ g ∈ f :: l, ∀ s ∈ g.2.strings, ¬ HasBareKey s) ∧
        scanMembers number fuel (quotedMember f.1 (quoteKeys (valueText f.2 ++ moreFields l))) = none) := by
  induction l generalizing f fuel with
  | nil =>
      obtain ⟨fuel, rfl⟩ : ∃ n, fuel = n + 1 := ⟨fuel - 1, by omega⟩
      rw [scanMembers_member number (hkeys f List.mem_cons_self)]
      rcases scanOnce_value number f.2 (moreFields []) (show f.2.strings.length + 2 ≤ fuel by simp at hfuel; omega) with
        ⟨hcalm, heq⟩ | ⟨hbare, hstuck⟩
      · refine .inl ⟨by simpa using hcalm, ?_⟩
        rw [heq, Option.bind_some, quoteKeys_moreFields_nil, skipSpace_cons (by decide)]
        exact if_pos rfl
      · refine .inr ⟨fun h => hbare (h f List.mem_cons_self), ?_⟩
        cases hscan : scanOnce number fuel (quoteKeys (valueText f.2 ++ moreFields [])) with
        | none => rfl
        | some r =>
            obtain ⟨hskip, hbrace, -, hcomma⟩ := (hstuck r.1 r.2 hscan).apart
            rw [Option.bind_some, hskip, if_neg hbrace, if_neg hcomma]
  | cons g l ih =>
      obtain ⟨fuel, rfl⟩ : ∃ n, fuel = n + 1 := ⟨fuel - 1, by omega⟩
      simp only [List.flatMap_cons, List.length_append, List.length_cons] at hfuel
      have hg : IsKey g.1 := hkeys g (List.mem_cons_of_mem _ List.mem_cons_self)
      rw [scanMembers_member number (hkeys f List.mem_cons_self)]
      rcases scanOnce_value number f.2 (moreFields (g :: l)) (show f.2.strings.length + 2 ≤ fuel by omega) with
        ⟨hcalm, heq⟩ | ⟨hbare, hstuck⟩
      · have hcomma : (.unit 0x2C :: .unit 0x20 :: quotedMember g.1 (quoteKeys (valueText g.2 ++ moreFields l)) :
            PyStr).head? = some (.unit 0x2C) := rfl
        rw [heq, Option.bind_some, quoteKeys_moreFields_cons hg, skipSpace_cons (by decide), if_neg (by simp),
          if_pos hcomma, List.tail_cons, skipSpace_space, skipSpace_member]
        have hfuel' : l.length + ((g :: l).flatMap fun g => g.2.strings).length + 3 ≤ fuel := by
          simp only [List.flatMap_cons, List.length_append]
          omega
        rcases ih g (fun h hh => hkeys h (List.mem_cons_of_mem _ hh)) hfuel' with ⟨hcalms, hrest⟩ | ⟨hbare, hrest⟩
        · exact .inl ⟨List.forall_mem_cons.mpr ⟨hcalm, hcalms⟩, by rw [hrest]; rfl⟩
        · exact .inr ⟨fun h => hbare (List.forall_mem_cons.mp h).2, by rw [hrest]; rfl⟩
      · refine .inr ⟨fun h => hbare (h f List.mem_cons_self), ?_⟩
        cases hscan : scanOnce number fuel (quoteKeys (valueText f.2 ++ moreFields (g :: l))) with
        | none => rfl
        | some r =>
            obtain ⟨hskip, hbrace, -, hcomma⟩ := (hstuck r.1 r.2 hscan).apart
            rw [Option.bind_some, hskip, if_neg hbrace, if_neg hcomma]

theorem length_valueText (v : Field) : v.strings.length + 1 ≤ (valueText v).length := by
  cases v with
  | text s => simp [valueText, Field.strings, pyQuote]
  | texts items =>
      cases items with
      | nil => simp [valueText, Field.strings, py_braces]
      | cons s l =>
          have hall : l.length ≤ (l.flatMap fun t => py ", " ++ pyQuote t).length := by
            induction l with
            | nil => simp
            | cons t l ih =>
                simp only [List.flatMap_cons, List.length_append, List.length_cons, length_marks]
                omega
          simp only [valueText, Field.strings, List.map_cons, intercalate_cons, List.flatMap_map, List.length_append,
            List.length_cons, py_braces]
          omega

theorem length_fieldText (l : List (PyStr × Field)) : l.length + (l.flatMap fun g => g.2.strings).length ≤
    (l.flatMap fun f => py ", " ++ fieldText f).length := by
  induction l with
  | nil => simp
  | cons f l ih =>
      have := length_valueText f.2
      simp only [List.flatMap_cons, List.length_append, List.length_cons, fieldText, length_marks] at ih ⊢
      omega

theorem strings_eq (c : Contamination) : c.Calm ↔ ∀ f ∈ c.fields, ∀ s ∈ f.2.strings, ¬ HasBareKey s := by
  simp only [Contamination.Calm, Contamination.strings, List.mem_flatMap]
  exact ⟨fun h f hf s hs => h s ⟨f, hf, hs⟩, fun h s ⟨f, hf, hs⟩ => h f hf s hs⟩

/-- **The line is JSON** once its keys are quoted, or no JSON. -/
theorem loads_flowText (c : Contamination) : (c.Calm ∧ loads number (quoteKeys (flowText c)) = some c.toJson) ∨
    (¬ c.Calm ∧ loads number (quoteKeys (flowText c)) = none) := by
  cases hfields : c.fields with
  | nil =>
      refine .inl ⟨by simp [strings_eq, hfields], ?_⟩
      have hflow : quoteKeys (flowText c) = [.unit 0x7B, .unit 0x7D] := by
        rw [flowText, hfields]
        decide
      have hjson : c.toJson = .obj [] := by rw [Contamination.toJson, Contamination.members, hfields, List.map_nil]
      rw [hflow, hjson, loads, skipSpace_cons (by decide), scanOnce, if_neg (by decide), if_pos rfl,
        skipSpace_cons (by decide)]
      rfl
  | cons f l =>
      have hkeys : ∀ g ∈ f :: l, IsKey g.1 := hfields ▸ c.keys
      have hsplit : flowText c = py "\x7b" ++ (fieldText f ++ moreFields l) := by
        simp [flowText, hfields, intercalate_cons, moreFields, py_braces, List.flatMap_map]
      have hflow : quoteKeys (flowText c) =
          .unit 0x7B :: quotedMember f.1 (quoteKeys (valueText f.2 ++ moreFields l)) := by
        rw [hsplit, quoteKeys_brace (hkeys f List.mem_cons_self), py_braces.1]
        rfl
      have hfuel : l.length + ((f :: l).flatMap fun g => g.2.strings).length + 3 ≤ (quoteKeys (flowText c)).length := by
        have hvalue := length_valueText f.2
        have hrest := length_fieldText l
        have hlength := length_quoteKeys (flowText c)
        refine le_trans ?_ hlength
        rw [hsplit, moreFields, fieldText]
        simp only [List.flatMap_cons, List.length_append, List.length_cons, List.length_nil, length_marks]
        omega
      have hjson : c.toJson = .obj (Dict.ofList ((f :: l).map fun g => (g.1, g.2.toJson))) := by
        have hmembers : c.members = (f :: l).map fun g => (g.1, g.2.toJson) := by rw [Contamination.members, hfields]
        have hnodup : (((f :: l).map fun g => (g.1, g.2.toJson)).map Prod.fst).Nodup := by
          rw [List.map_map]
          exact hfields ▸ c.nodup
        rw [Contamination.toJson, hmembers, Dict.ofList_eq_self hnodup]
      have hscan : loads number (quoteKeys (flowText c)) =
          ((scanMembers number (quoteKeys (flowText c)).length
            (quotedMember f.1 (quoteKeys (valueText f.2 ++ moreFields l)))).map fun r =>
              (PyJson.obj (Dict.ofList r.1), r.2)).bind fun r => if skipSpace r.2 = [] then some r.1 else none := by
        rw [loads]
        generalize (quoteKeys (flowText c)).length = n
        rw [hflow, skipSpace_cons (by decide), scanOnce, if_neg (by decide), if_pos rfl, skipSpace_member, if_neg (by
          simp [quotedMember])]
      rw [strings_eq, hfields, hscan, hjson]
      rcases scanMembers_fields number f l hkeys hfuel with ⟨hcalm, hmembers⟩ | ⟨hbare, hmembers⟩
      · exact .inl ⟨hcalm, by rw [hmembers]; rfl⟩
      · exact .inr ⟨hbare, by rw [hmembers]; rfl⟩

theorem length_flowText_unparsed {c : Contamination} (h : c.toJson = .obj [(py "unparsed", .str (flowText c))]) : False := by
  have hmembers : c.fields.map (fun f => (f.1, f.2.toJson)) = [(py "unparsed", .str (flowText c))] := PyJson.obj.inj h
  obtain ⟨f, hfields⟩ : ∃ f, c.fields = [f] := List.length_eq_one_iff.mp (by
    rw [← List.length_map (f := fun f : PyStr × Field => (f.1, f.2.toJson)), hmembers]
    rfl)
  rw [hfields, List.map_singleton, List.singleton_inj, Prod.mk.injEq] at hmembers
  obtain ⟨key, v⟩ := f
  cases v with
  | texts items => cases hmembers.2
  | text s =>
      have hs : s = flowText c := PyJson.str.inj hmembers.2
      have hlength : s.length < (flowText c).length := by
        have hesc : s.length ≤ (esc s).length := by
          rw [esc, List.length_flatMap]
          have hpos : ∀ n ∈ s.map fun d => (pyEscape d).length, 1 ≤ n := by
            intro n hn
            obtain ⟨d, -, rfl⟩ := List.mem_map.mp hn
            by_cases hraw : IsRaw d
            · rw [hraw]
              exact le_refl 1
            · obtain ⟨tail, htail, -⟩ := pyEscape_slash hraw
              simp [htail]
          simpa using List.length_le_sum_of_one_le _ hpos
        have hquote : (pyQuote s).length = (esc s).length + 2 := by simp [pyQuote, esc]
        rw [flowText, hfields]
        simp only [List.map_singleton, List.intercalate_singleton, fieldText, valueText, List.length_append]
        omega
      rw [hs] at hlength
      exact lt_irrefl _ hlength

theorem readFlow_iff (c : Contamination) : readFlow number (flowText c) = c.toJson ↔ c.Calm := by
  rw [readFlow]
  rcases loads_flowText number c with ⟨hcalm, hload⟩ | ⟨hbare, hload⟩
  · rw [hload]
    exact iff_of_true rfl hcalm
  · rw [hload]
    exact iff_of_false (fun h => length_flowText_unparsed h.symm) hbare

/-- The line without its ends. -/
theorem flowText_ends (c : Contamination) : ∃ inner, flowText c = .unit 0x7B :: (inner ++ [.unit 0x7D]) :=
  ⟨(py ", ").intercalate (c.fields.map fieldText), by
    rw [flowText, py_braces.1, py_braces.2.1, List.singleton_append, List.cons_append]⟩

theorem rdropWhile_flowText (c : Contamination) : (flowText c).rdropWhile Sdk.isSpace = flowText c := by
  obtain ⟨inner, hinner⟩ := flowText_ends c
  rw [hinner, ← List.cons_append, List.rdropWhile_concat_neg _ _ _ (by decide)]

theorem strip_flowText (c : Contamination) : Partition.strip Sdk.isSpace (flowText c) = flowText c := by
  obtain ⟨inner, hinner⟩ := flowText_ends c
  have hfront : (flowText c).dropWhile Sdk.isSpace = flowText c := by
    rw [hinner, List.dropWhile_cons_of_neg (by decide)]
  rw [Partition.strip, hfront, rdropWhile_flowText]

theorem flowText_ne (c : Contamination) : flowText c ≠ py "null" ∧ flowText c ≠ py "~" ∧ flowText c ≠ [] := by
  obtain ⟨inner, hinner⟩ := flowText_ends c
  rw [hinner]
  refine ⟨fun h => ?_, fun h => ?_, List.cons_ne_nil _ _⟩
  · exact absurd (List.cons.inj h).1 (by decide)
  · exact absurd (List.cons.inj h).1 (by decide)

theorem decoded_iff (c : Contamination) : Decoded number c ↔ c.Calm := by
  have hlist : Partition.strip Sdk.isSpace (flowText c) ∉ [py "null", py "~", []] := by
    obtain ⟨hnull, htilde, hnil⟩ := flowText_ne c
    rw [strip_flowText]
    simp [hnull, htilde, hnil]
  have hwork : worklistContamination number (flowText c) = some (readFlow number (flowText c)) := if_neg hlist
  rw [← readFlow_iff number c]
  constructor
  · rintro ⟨raw, hline, hread⟩
    rw [contaminationLine_toJson, Option.some.injEq] at hline
    obtain rfl := List.append_cancel_left (List.append_cancel_right hline)
    rw [hwork] at hread
    exact Option.some.inj hread
  · intro h
    exact ⟨flowText c, contaminationLine_toJson c, by rw [hwork, h]⟩

/-! ### The front matter that carries it -/

theorem prefix_of_prefix_cons {m l rest : PyStr} {c : CodePoint} (hc : c ∉ m) (h : m <+: l ++ c :: rest) : m <+: l := by
  induction l generalizing m with
  | nil =>
      cases m with
      | nil => exact List.prefix_refl _
      | cons d m =>
          obtain ⟨rfl, -⟩ := List.cons_prefix_cons.mp h
          exact absurd List.mem_cons_self hc
  | cons d l ih =>
      cases m with
      | nil => exact List.nil_prefix
      | cons e m =>
          obtain ⟨rfl, htail⟩ := List.cons_prefix_cons.mp h
          exact List.cons_prefix_cons.mpr ⟨rfl, ih (fun hmem => hc (List.mem_cons_of_mem _ hmem)) htail⟩

theorem searchAfter_line {α : Type} (here : PyStr → Option α) {l : PyStr} (h : newline ∉ l) (rest : PyStr) :
    searchAfter here (l ++ newline :: rest) = search here rest := by
  induction l with
  | nil => rw [List.nil_append, searchAfter, if_pos rfl, search]
  | cons c l ih =>
      rw [List.mem_cons, not_or] at h
      rw [List.cons_append, searchAfter, if_neg (Ne.symm h.1), ih h.2]

/-- Lines that do not match are passed over. -/
theorem search_lines {α : Type} (here : PyStr → Option α) {ls : List PyStr} (h : ∀ l ∈ ls, newline ∉ l ∧
    ∀ rest, here (l ++ newline :: rest) = none) (rest : PyStr) :
    search here (ls.flatMap (· ++ [newline]) ++ rest) = search here rest := by
  induction ls with
  | nil => rfl
  | cons l ls ih =>
      obtain ⟨hline, hnone⟩ := h l List.mem_cons_self
      have hsplit : (l :: ls).flatMap (· ++ [newline]) ++ rest = l ++ newline :: (ls.flatMap (· ++ [newline]) ++ rest) := by
        simp
      rw [hsplit, search, hnone, Option.none_or, searchAfter_line here hline,
        ih fun k hk => h k (List.mem_cons_of_mem _ hk)]

theorem newline_notMem_pyQuote (s : PyStr) : newline ∉ pyQuote s := fun h => absurd (le_of_mem_pyQuote h) (by decide)

theorem newline_notMem_intercalate {sep : PyStr} {l : List PyStr} (hsep : newline ∉ sep) (hl : ∀ x ∈ l, newline ∉ x) :
    newline ∉ sep.intercalate l := by
  cases l with
  | nil => simp
  | cons x l =>
      rw [intercalate_cons]
      simp only [List.mem_append, List.mem_flatMap, not_or, not_exists, not_and]
      exact ⟨hl x List.mem_cons_self, fun y hy => ⟨hsep, hl y (List.mem_cons_of_mem _ hy)⟩⟩

theorem newline_notMem_flowText (c : Contamination) : newline ∉ flowText c := by
  have hfield : ∀ x ∈ c.fields.map fieldText, newline ∉ x := by
    intro x hx
    obtain ⟨f, hf, rfl⟩ := List.mem_map.mp hx
    have hkey : newline ∉ f.1 := fun hmem =>
      (isKeyChar_apart (List.all_eq_true.mp (c.keys f hf).2 _ hmem)).2.2.2.2.2.2.2.1 rfl
    have hvalue : newline ∉ valueText f.2 := by
      cases f.2 with
      | text s => exact newline_notMem_pyQuote s
      | texts items =>
          simp only [valueText, List.mem_append, not_or]
          refine ⟨⟨by decide, newline_notMem_intercalate (by decide) fun x hx => ?_⟩, by decide⟩
          obtain ⟨s, -, rfl⟩ := List.mem_map.mp hx
          exact newline_notMem_pyQuote s
    simp only [fieldText, List.mem_append, not_or]
    exact ⟨⟨hkey, by decide⟩, hvalue⟩
  simp only [flowText, List.mem_append, not_or]
  exact ⟨⟨by decide, newline_notMem_intercalate (by decide) hfield⟩, by decide⟩

theorem contaminationMatch_line (c : Contamination) (rest : PyStr) :
    contaminationMatch (py "contamination: " ++ flowText c ++ py "\n" ++ rest) = some (flowText c) := by
  have hprefix : py "contamination:" <+: py "contamination: " ++ flowText c ++ py "\n" ++ rest :=
    ⟨.unit 0x20 :: (flowText c ++ py "\n" ++ rest), by
      have : py "contamination: " = py "contamination:" ++ [.unit 0x20] := rfl
      simp [this]⟩
  have hdrop : (py "contamination: " ++ flowText c ++ py "\n" ++ rest).drop 14 =
      .unit 0x20 :: (flowText c ++ newline :: rest) := by
    have : py "contamination: " = py "contamination:" ++ [.unit 0x20] := rfl
    rw [this]
    have hlength : (py "contamination:").length = 14 := rfl
    rw [List.append_assoc, List.append_assoc, List.append_assoc, List.drop_left' hlength]
    rfl
  obtain ⟨inner, hinner⟩ := flowText_ends c
  have hspace : (.unit 0x20 :: (flowText c ++ newline :: rest) : PyStr).dropWhile Sdk.isSpace = flowText c ++ newline :: rest := by
    rw [List.dropWhile_cons_of_pos (by decide), hinner, List.cons_append, List.dropWhile_cons_of_neg (by decide)]
  have hne : flowText c ++ newline :: rest ≠ [] := by simp
  have hline : (flowText c ++ newline :: rest).takeWhile (· ≠ newline) = flowText c := by
    rw [List.takeWhile_append_of_pos fun d hd => by
      simpa using fun h : d = newline => newline_notMem_flowText c (h ▸ hd),
      List.takeWhile_cons_of_neg (by simp), List.append_nil]
  simp only [contaminationMatch, if_pos hprefix, hdrop, hspace, if_neg hne, hline, rdropWhile_flowText]

theorem contaminationOf_carries {text : PyStr} {c : Contamination} (h : Carries text c) :
    (frontMatter? text).bind contaminationOf = some (flowText c) := by
  obtain ⟨before, head, line, after, hhead, hline, rfl, hbefore⟩ := h
  rw [contaminationLine_toJson, Option.some.injEq] at hline
  have hpass : ∀ l ∈ before, newline ∉ l ∧ ∀ rest, contaminationMatch (l ++ newline :: rest) = none := by
    intro l hl
    obtain ⟨hnew, hnot⟩ := hbefore l hl
    exact ⟨hnew, fun rest => if_neg fun hprefix => hnot (prefix_of_prefix_cons (by decide) hprefix)⟩
  rw [hhead, Option.bind_some, contaminationOf, List.append_assoc, search_lines contaminationMatch hpass, search, ← hline,
    contaminationMatch_line, Option.some_or]

theorem entryOf_carries {f : File} {c : Contamination} (h : Carries f.text c) :
    entryOf number f = ⟨f.rel, some (some (readFlow number (flowText c)))⟩ := by
  rw [entryOf, contaminationOf_carries h, Option.map_some, triageContamination, if_neg (flowText_ne c).1]

end

/-! ### Grouping -/

theorem get?_byObject (docs : List (PyStr × PyStr)) (o : PyStr) :
    ((byObject docs).map Prod.fst).Nodup ∧ Dict.get? (byObject docs) o =
      if ∃ e ∈ docs, e.1 = o then some ((docs.filter fun e => decide (e.1 = o)).map Prod.snd) else none := by
  induction docs using List.reverseRecOn with
  | nil => exact ⟨List.nodup_nil, rfl⟩
  | append_singleton docs e ih =>
      have hstep : byObject (docs ++ [e]) = addDoc (byObject docs) e := by rw [byObject, List.foldl_append]; rfl
      have hfilter : ((docs ++ [e]).filter fun d => decide (d.1 = o)).map Prod.snd =
          (docs.filter fun d => decide (d.1 = o)).map Prod.snd ++ if e.1 = o then [e.2] else [] := by
        by_cases he : e.1 = o <;> simp [he]
      refine ⟨by rw [hstep]; exact Dict.nodup_set ih.1 _ _, ?_⟩
      rw [hstep, addDoc, Dict.get?_set, hfilter]
      by_cases he : e.1 = o
      · have hex : ∃ d ∈ docs ++ [e], d.1 = o := ⟨e, by simp, he⟩
        rw [if_pos he, if_pos he, if_pos hex, he, ih.2]
        by_cases hold : ∃ d ∈ docs, d.1 = o
        · rw [if_pos hold, Option.getD_some]
        · have hempty : docs.filter (fun d => decide (d.1 = o)) = [] := by
            rw [List.filter_eq_nil_iff]
            intro d hd hkey
            exact hold ⟨d, hd, of_decide_eq_true hkey⟩
          rw [if_neg hold, hempty]
          rfl
      · have hiff : (∃ d ∈ docs ++ [e], d.1 = o) ↔ ∃ d ∈ docs, d.1 = o := by simp [or_and_right, exists_or, he]
        rw [if_neg he, if_neg he, List.append_nil, ih.2]
        simp only [hiff]

theorem mem_byObject {docs : List (PyStr × PyStr)} {g : PyStr × List PyStr} : g ∈ byObject docs ↔
    g.2 ≠ [] ∧ g.2 = (docs.filter fun e => decide (e.1 = g.1)).map Prod.snd := by
  obtain ⟨o, ds⟩ := g
  obtain ⟨hnodup, hget⟩ := get?_byObject docs o
  rw [Dict.mem_iff_get? hnodup, hget]
  have hsome : (docs.filter fun e => decide (e.1 = o)).map Prod.snd ≠ [] ↔ ∃ e ∈ docs, e.1 = o := by
    simp [List.filter_eq_nil_iff]
  by_cases hex : ∃ e ∈ docs, e.1 = o
  · rw [if_pos hex, Option.some.injEq]
    constructor
    · rintro rfl
      exact ⟨hsome.mpr hex, rfl⟩
    · exact fun h => h.2.symm
  · rw [if_neg hex]
    refine iff_of_false nofun fun ⟨hne, heq⟩ => hex (hsome.mp ?_)
    exact heq ▸ hne

/-- The objects of marked documents. -/
def objectsOf (mark : PyStr → Contamination) (files : List File) : List (PyStr × PyStr) :=
  files.filterMap fun f => (mark f.rel).object.map fun o => (o, f.rel)

theorem filter_objectsOf (mark : PyStr → Contamination) (files : List File) (o : PyStr) :
    ((objectsOf mark files).filter fun e => decide (e.1 = o)).map Prod.snd =
      (files.filter fun f => decide ((mark f.rel).object = some o)).map File.rel := by
  induction files with
  | nil => rfl
  | cons f files ih =>
      rw [objectsOf] at ih ⊢
      cases hobject : (mark f.rel).object with
      | none =>
          rw [List.filterMap_cons_none (by rw [hobject]; rfl), ih, List.filter_cons_of_neg (by simp [hobject])]
      | some p =>
          rw [List.filterMap_cons_some (by rw [hobject]; rfl)]
          by_cases hp : p = o
          · rw [List.filter_cons_of_pos (by simpa using hp), List.filter_cons_of_pos (by simpa [hobject] using hp),
              List.map_cons, List.map_cons, ih]
          · rw [List.filter_cons_of_neg (by simpa using hp), List.filter_cons_of_neg (by simpa [hobject] using hp), ih]

theorem group_marked (mark : PyStr → Contamination) (files : List File) :
    (files.map fun f => (⟨f.rel, some (some (mark f.rel).toJson)⟩ : Entry)).mapM Entry.group =
      some (files.map fun f => (mark f.rel).object.map fun o => (o, f.rel)) := by
  induction files with
  | nil => rfl
  | cons f files ih =>
      rw [List.map_cons, List.mapM_cons, ih]
      rfl

/-- Where every marker is read back, the report groups the documents by the objects of their markers. -/
theorem reported_of_entries {number : PyStr → Option (PyJson × PyStr)} {files : List File}
    {mark : PyStr → Contamination} (h : (withStatus "contaminated" files).map (entryOf number) =
      (withStatus "contaminated" files).map fun f => ⟨f.rel, some (some (mark f.rel).toJson)⟩) :
    ∃ report, Reported number files mark report := by
  have htriage : triage number files = some
      { counts := (StableSort.sortOn id ((statuses files).map Prod.snd).dedup).map fun status =>
          (status, ((statuses files).map Prod.snd).count status)
        contaminated := (withStatus "contaminated" files).map fun f => ⟨f.rel, some (some (mark f.rel).toJson)⟩
        stale := (withStatus "stale" files).map File.rel
        blast := StableSort.sortOn Blast.rank ((byObject (objectsOf mark (withStatus "contaminated" files))).map fun g =>
          ⟨g.1, StableSort.sortOn id g.2, g.2.length⟩) } := by
    have hreduce : ∀ l : List File, (l.map fun f => (mark f.rel).object.map fun o => (o, f.rel)).reduceOption =
        objectsOf mark l := fun l => by
      change (l.map _).filterMap id = _
      rw [List.filterMap_map]
      rfl
    rw [triage, h, group_marked, Option.map_some, hreduce]
  refine ⟨_, htriage, rfl, fun b => ?_, ?_⟩
  · dsimp only
    rw [StableSort.mem_sortOn, List.mem_map]
    constructor
    · rintro ⟨g, hg, rfl⟩
      obtain ⟨hne, hdocs⟩ := mem_byObject.mp hg
      have hperm : (StableSort.sortOn id g.2).Perm g.2 := StableSort.sortOn_perm
      refine ⟨fun hnil => hne (List.perm_nil.mp (hperm.symm.trans (List.Perm.of_eq hnil))), hperm.length_eq.symm, ?_⟩
      dsimp only
      rw [← filter_objectsOf, ← hdocs]
    · rintro ⟨hne, hcount, hdocs⟩
      rw [← filter_objectsOf] at hdocs
      set ds := ((objectsOf mark (withStatus "contaminated" files)).filter fun e => decide (e.1 = b.object)).map Prod.snd
        with hds
      have hperm : (StableSort.sortOn id ds).Perm ds := StableSort.sortOn_perm
      refine ⟨(b.object, ds), mem_byObject.mpr ⟨fun hnil => hne ?_, hds⟩, ?_⟩
      · have hempty : ds = [] := hnil
        rw [hdocs, hempty]
        rfl
      · have hlength : ds.length = b.count := by rw [hcount, hdocs, hperm.length_eq]
        cases b
        simp only [Blast.mk.injEq, true_and]
        exact ⟨hdocs.symm, hlength⟩
  · have hperm : ∀ l : List Blast, ((StableSort.sortOn Blast.rank l).map Blast.object).Perm (l.map Blast.object) :=
      fun l => StableSort.sortOn_perm.map _
    refine (hperm _).nodup_iff.mpr ?_
    rw [List.map_map]
    exact (get?_byObject _ []).1

/-! ### The markers of a checkout -/

/-- **Which markers are read back.** The work list reads the object of a marker from its line, and the triage reports
the objects of a checkout and groups the documents by them, exactly where no string holds what is taken for a key. -/
theorem contamination_read_back (number : PyStr → Option (PyJson × PyStr)) :
    (∀ c : Contamination, Decoded number c ↔ c.Calm) ∧
      ∀ (files : List File) (mark : PyStr → Contamination),
        (∀ f ∈ withStatus "contaminated" files, Carries f.text (mark f.rel)) →
        ((∃ report, Reported number files mark report) ↔
          ∀ f ∈ withStatus "contaminated" files, (mark f.rel).Calm) := by
  refine ⟨decoded_iff number, fun files mark hcarries => ?_⟩
  have hentry : ∀ f ∈ withStatus "contaminated" files,
      entryOf number f = ⟨f.rel, some (some (readFlow number (flowText (mark f.rel))))⟩ :=
    fun f hf => entryOf_carries number (hcarries f hf)
  constructor
  · rintro ⟨report, hreport⟩ f hf
    have hentries : report.contaminated = (withStatus "contaminated" files).map (entryOf number) := by
      have htriage := hreport.triage
      rw [triage, Option.map_eq_some_iff] at htriage
      obtain ⟨objects, -, rfl⟩ := htriage
      rfl
    have hsame := List.map_inj_left.mp (hentries.symm.trans hreport.contaminated) f hf
    rw [hentry f hf] at hsame
    have hread : readFlow number (flowText (mark f.rel)) = (mark f.rel).toJson := by
      injection hsame with _ hsome
      exact Option.some.inj (Option.some.inj hsome)
    exact (readFlow_iff number _).mp hread
  · intro hcalm
    refine reported_of_entries (List.map_congr_left fun f hf => ?_)
    rw [hentry f hf, (readFlow_iff number _).mpr (hcalm f hf)]

theorem not_hasBareKey {s : PyStr} (h : s.all (fun c => !isOpener c) = true) : ¬ HasBareKey s := by
  rintro ⟨before, c, blanks, key, after, rfl, hopen, -⟩
  have hc := List.all_eq_true.mp h c (by simp)
  rw [hopen] at hc
  cases hc

/-- The marker of one document. -/
def orderMarker : Contamination :=
  ⟨[(py "object", .text (py "crm.orders")), (py "path", .texts [py "sha256:1"])], by decide, by decide⟩

def orderFile : File :=
  ⟨py "orders.md", py "---\nstatus: contaminated\ncontamination: \x7bobject: \"crm.orders\", " ++
    py "path: [\"sha256:1\"]\x7d\n---\n# Orders\n"⟩

theorem contamination_read_back_order : Decoded (fun _ => none) orderMarker ∧
    ∃ report, Reported (fun _ => none) [orderFile] (fun _ => orderMarker) report := by
  have hcalm : orderMarker.Calm := by
    intro s hs
    have hall : (orderMarker.strings.all fun s => s.all fun c => !isOpener c) = true := by decide
    exact not_hasBareKey (List.all_eq_true.mp hall s hs)
  obtain ⟨hdecoded, hreported⟩ := contamination_read_back fun _ => none
  refine ⟨(hdecoded orderMarker).mpr hcalm, (hreported [orderFile] (fun _ => orderMarker) fun f hf => ?_).mpr fun _ _ => hcalm⟩
  have hlist : withStatus "contaminated" [orderFile] = [orderFile] := by decide +kernel
  obtain rfl := List.mem_singleton.mp (hlist ▸ hf)
  refine ⟨[py "status: contaminated"], _, _, [], ?_, contaminationLine_toJson orderMarker, rfl, ?_⟩
  · decide +kernel
  · decide

/-- A measure is named like a key behind a comma. -/
def measureMarker : Contamination :=
  ⟨[(py "object", .text (py "bi.sales")), (py "detail", .text (py "measure sales, yoy: pct removed"))], by decide,
    by decide⟩

theorem measure_not_read_back : ¬ Decoded (fun _ => none) measureMarker := by
  rw [decoded_iff]
  intro hcalm
  refine hcalm (py "measure sales, yoy: pct removed") (by decide) ⟨py "measure sales", .unit 0x2C, [.unit 0x20], py "yoy",
    py " pct removed", ?_, ?_, ?_, ?_⟩ <;> decide

end ContextLayer.Triage
