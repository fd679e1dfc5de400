import ContextLayer.Loads
import ContextLayer.Proof.Acceptance
import ContextLayer.Proof.PyText

/-!
# What is read of a printed value

A quoted string is read up to the quote that ends it. A value printed with an indent is read up to the comma or the line
break behind it, so the whole text is read as the value it prints.
-/

namespace ContextLayer.PyJson

open Text PyText YamlScalars StableSort

/-! ### Characters -/

/-- A character that a string prints as it is. -/
def IsRaw (c : CodePoint) : Prop := pyEscape c = [c]

instance (c : CodePoint) : Decidable (IsRaw c) := inferInstanceAs (Decidable (_ = _))

theorem unit_lt_pair (u : UInt16) {high low : UInt16} (hhigh : isHighSurrogate high = true)
    (hlow : isLowSurrogate low = true) : CodePoint.unit u < .pair high low hhigh hlow :=
  lt_of_lt_of_le (b := (0x10000 : Nat)) u.toNat_lt CodePoint.ord_pair_ge

theorem isRaw_ge {c : CodePoint} (h : IsRaw c) : CodePoint.unit 0x20 ≤ c := by
  cases c with
  | pair high low hhigh hlow => exact le_of_lt (unit_lt_pair 0x20 hhigh hlow)
  | unit u =>
      by_contra hlt
      have hu : u < 0x20 := not_le.mp hlt
      unfold IsRaw at h
      cases hshort : shortEscape u with
      | some d => simp [pyEscape, hshort] at h
      | none => simp [pyEscape, hshort, hu, unicodeEscape] at h

theorem isRaw_of_ge {c : CodePoint} (hge : CodePoint.unit 0x20 ≤ c) (hquote : c ≠ .unit 0x22) (hslash : c ≠ .unit 0x5C) :
    IsRaw c := by
  obtain ⟨u, d, rfl, hd, -⟩ | ⟨u, rfl, hu, -⟩ | ⟨hp, -⟩ := pyEscape_cases c
  · have hall : (shortEscapes.all fun e => decide (CodePoint.unit 0x20 ≤ .unit e.1 →
        CodePoint.unit e.1 = .unit 0x22 ∨ CodePoint.unit e.1 = .unit 0x5C)) = true := by decide
    have := of_decide_eq_true (List.all_eq_true.mp hall _ (mem_shortEscapes hd)) hge
    exact absurd this (by simp [hquote, hslash])
  · exact absurd hu (not_lt.mpr hge)
  · exact hp

/-! ### Quoted strings -/

/-- What a string is printed as, between the quotes. -/
def esc (s : PyStr) : PyStr := s.flatMap pyEscape

theorem esc_cons (c : CodePoint) (s : PyStr) : esc (c :: s) = pyEscape c ++ esc s := List.flatMap_cons

theorem pyQuote_append (s rest : PyStr) : pyQuote s ++ rest = .unit 0x22 :: (esc s ++ .unit 0x22 :: rest) := by
  simp [pyQuote, esc]

/-- No control character is printed. -/
theorem le_of_mem_pyQuote {s : PyStr} {c : CodePoint} (h : c ∈ pyQuote s) : CodePoint.unit 0x20 ≤ c := by
  rw [pyQuote, List.mem_cons, List.mem_append, List.mem_singleton] at h
  rcases h with rfl | h | rfl
  · decide
  · obtain ⟨d, -, hd⟩ := List.mem_flatMap.mp h
    obtain ⟨u, e, rfl, he, hp⟩ | ⟨u, rfl, hu, hp⟩ | ⟨hp, -⟩ := pyEscape_cases d
    · have hall : (shortEscapes.all fun e => decide (∀ c ∈ [CodePoint.unit 0x5C, .unit e.2], CodePoint.unit 0x20 ≤ c)) =
        true := by decide
      rw [hp] at hd
      exact of_decide_eq_true (List.all_eq_true.mp hall _ (mem_shortEscapes he)) c hd
    · have hall : ∀ n < 0x20, ∀ c ∈ (unicodeEscape (UInt16.ofNat n)).map CodePoint.unit, CodePoint.unit 0x20 ≤ c := by decide
      have hcode := hall u.toNat (UInt16.lt_iff_toNat_lt.mp hu)
      rw [UInt16.ofNat_toNat] at hcode
      rw [hp] at hd
      exact hcode c hd
    · rw [hp, List.mem_singleton] at hd
      rw [hd]
      exact isRaw_ge hp
  · decide

/-- What the reader makes of a character. -/
def charOf : CodePoint → StringChar
  | .pair high low hhigh hlow => .raw (.pair high low hhigh hlow)
  | .unit u => if u < 0x20 ∧ shortEscape u = none then .code u else .raw (.unit u)

example (rest : PyStr) : scanChars (.unit 0x22 :: rest) = some ([], rest) := by
  rw [scanChars.eq_def]
  rfl

theorem scanChars_short {u d : UInt16} (h : shortEscape u = some d) (rest : PyStr) :
    scanChars (.unit 0x5C :: .unit d :: rest) = (scanChars rest).map fun r => (.raw (.unit u) :: r.1, r.2) := by
  have hall : (shortEscapes.all fun e => decide (CodePoint.unit e.2 ≠ .unit 0x75 ∧
      unescape (.unit e.2) = some (.unit e.1))) = true := by decide
  obtain ⟨hne, hunescape⟩ := of_decide_eq_true (List.all_eq_true.mp hall _ (mem_shortEscapes h))
  rw [scanChars.eq_def]
  dsimp only
  rw [if_neg (by decide), if_pos rfl, if_neg hne, hunescape, Option.bind_some]

theorem scanChars_code {u : UInt16} (h : u < 0x20) (rest : PyStr) :
    scanChars ((unicodeEscape u).map .unit ++ rest) = (scanChars rest).map fun r => (.code u :: r.1, r.2) := by
  have hall : ∀ n < 0x20, (([CodePoint.unit (hexDigit (n / 0x1000)), .unit (hexDigit (n / 0x100 % 0x10)),
      .unit (hexDigit (n / 0x10 % 0x10)), .unit (hexDigit (n % 0x10))].mapM hexValue?).map fun digits =>
        UInt16.ofNat (Nat.ofDigits 16 digits.reverse)) = some (UInt16.ofNat n) := by decide
  have hu := hall u.toNat (UInt16.lt_iff_toNat_lt.mp h)
  rw [UInt16.ofNat_toNat] at hu
  obtain ⟨digits, hdigits, hvalue⟩ := Option.map_eq_some_iff.mp hu
  simp only [unicodeEscape, List.map_cons, List.map_nil, List.cons_append, List.nil_append]
  rw [scanChars.eq_def]
  dsimp only
  rw [if_neg (by decide), if_pos rfl, if_pos rfl, hdigits, Option.bind_some, hvalue]

theorem scanChars_pyEscape (c : CodePoint) (rest : PyStr) :
    scanChars (pyEscape c ++ rest) = (scanChars rest).map fun r => (charOf c :: r.1, r.2) := by
  by_cases hraw : IsRaw c
  · have hge := isRaw_ge hraw
    have hquote : c ≠ .unit 0x22 ∧ c ≠ .unit 0x5C := by
      constructor
      · rintro rfl
        revert hraw
        decide
      · rintro rfl
        revert hraw
        decide
    have hchar : charOf c = .raw c := by
      cases c with
      | pair high low hhigh hlow => rfl
      | unit u => exact if_neg fun h => absurd h.1 (not_lt.mpr hge)
    rw [hraw, List.singleton_append, scanChars.eq_def]
    dsimp only
    rw [if_neg hquote.1, if_neg hquote.2, if_neg (not_lt.mpr hge), hchar]
  · cases c with
    | pair high low hhigh hlow => exact absurd rfl hraw
    | unit u =>
        cases hshort : shortEscape u with
        | some d =>
            have hchar : charOf (.unit u) = .raw (.unit u) := if_neg fun h => by
              rw [hshort] at h
              exact Option.some_ne_none _ h.2
            have hesc : pyEscape (.unit u) = [.unit 0x5C, .unit d] := by simp only [pyEscape, hshort]
            rw [hesc, hchar]
            exact scanChars_short hshort rest
        | none =>
            have hu : u < 0x20 := by
              by_contra hnot
              exact hraw (by simp [IsRaw, pyEscape, hshort, hnot])
            have hesc : pyEscape (.unit u) = (unicodeEscape u).map .unit := by simp only [pyEscape, hshort, if_pos hu]
            rw [hesc, charOf, if_pos ⟨hu, hshort⟩]
            exact scanChars_code hu rest

theorem joinCodes_code {u : UInt16} (h : u < 0x20) (l : List StringChar) :
    joinCodes (.code u :: l) = .unit u :: joinCodes l := by
  have hhigh : ¬ isHighSurrogate u = true := by
    rw [isHighSurrogate_iff]
    have : u.toNat < 0x20 := UInt16.lt_iff_toNat_lt.mp h
    omega
  cases l with
  | nil => simp [joinCodes]
  | cons p l =>
      cases p with
      | raw c => simp [joinCodes]
      | code v => simp [joinCodes, hhigh]

theorem joinCodes_map_charOf (s : PyStr) : joinCodes (s.map charOf) = s := by
  induction s with
  | nil => rfl
  | cons c s ih =>
      cases c with
      | pair high low hhigh hlow => rw [List.map_cons, charOf, joinCodes, ih]
      | unit u =>
          by_cases hcode : u < 0x20 ∧ shortEscape u = none
          · rw [List.map_cons, charOf, if_pos hcode, joinCodes_code hcode.1, ih]
          · rw [List.map_cons, charOf, if_neg hcode, joinCodes, ih]

/-- **A quoted string is read back**, and the text behind it is left. -/
theorem scanString_quoted (s rest : PyStr) : scanString (esc s ++ .unit 0x22 :: rest) = some (s, rest) := by
  have hchars : scanChars (esc s ++ .unit 0x22 :: rest) = some (s.map charOf, rest) := by
    induction s with
    | nil =>
        rw [esc, List.flatMap_nil, List.nil_append, scanChars.eq_def]
        exact if_pos rfl
    | cons c s ih => rw [esc_cons, List.append_assoc, scanChars_pyEscape, ih, Option.map_some, List.map_cons]
  rw [scanString, hchars, Option.map_some, joinCodes_map_charOf]

/-! ### White space -/

theorem skipSpace_cons {c : CodePoint} (h : isJsonSpace c = false) (rest : PyStr) : skipSpace (c :: rest) = c :: rest :=
  List.dropWhile_cons_of_neg (by rw [h]; exact Bool.false_ne_true)

theorem skipSpace_space (rest : PyStr) : skipSpace (.unit 0x20 :: rest) = skipSpace rest := List.dropWhile_cons_of_pos (by decide)

theorem intercalate_cons (sep x : PyStr) (l : List PyStr) : sep.intercalate (x :: l) = x ++ l.flatMap (sep ++ ·) := by
  induction l generalizing x with
  | nil => simp
  | cons y l ih =>
      rw [List.intercalate_cons_cons, ih, List.flatMap_cons, List.append_assoc, List.append_assoc]

section

variable (number : PyStr → Option (PyJson × PyStr))

theorem scanOnce_quote (fuel : Nat) (rest : PyStr) :
    scanOnce number (fuel + 1) (.unit 0x22 :: rest) = (scanString rest).map fun r => (.str r.1, r.2) := by
  rw [scanOnce, if_pos rfl]

end

/-! ### Printed values -/

section Printed

variable {read : PyStr → Option (PyJson × PyStr)}

theorem numbersRead_arr {items : List PyJson} : (arr items).NumbersRead read ↔ ∀ v ∈ items, v.NumbersRead read := by
  rw [NumbersRead]
  induction items with
  | nil => simp [NumbersReadItems]
  | cons v rest ih => rw [NumbersReadItems, ih, List.forall_mem_cons]

theorem numbersRead_obj {members : List (PyStr × PyJson)} :
    (obj members).NumbersRead read ↔ ∀ m ∈ members, m.2.NumbersRead read := by
  rw [NumbersRead]
  induction members with
  | nil => simp [NumbersReadMembers]
  | cons m rest ih => rw [NumbersReadMembers, ih, List.forall_mem_cons]

theorem NumbersRead.sortKeys {v : PyJson} (h : v.NumbersRead read) : v.sortKeys.NumbersRead read := by
  induction v using PyJson.induction with
  | null | bool | number | nonFinite | str => exact h
  | arr items ih =>
      rw [sortKeys_arr, numbersRead_arr]
      exact List.forall_mem_map.mpr fun v hv => ih v hv (numbersRead_arr.mp h v hv)
  | obj members ih =>
      rw [sortKeys_obj, numbersRead_obj]
      intro m hm
      obtain ⟨m', hm', rfl⟩ := List.mem_map.mp (mem_sortOn.mp hm)
      exact ih m' hm' (numbersRead_obj.mp h m' hm')

/-- What stands behind a value: a comma or a line break. -/
def IsEnd (c : CodePoint) : Prop := c = .unit 0x2C ∨ c = .unit 0x0A

theorem skipSpace_indentation (level : Nat) (s : PyStr) : skipSpace (indentation level ++ s) = skipSpace s := by
  have hblank : ∀ c ∈ indentation level, isJsonSpace c = true := by
    intro c hc
    rcases List.mem_cons.mp hc with rfl | hc
    · decide
    · rw [(List.mem_replicate.mp hc).2]
      decide
  exact List.dropWhile_append_of_pos hblank

/-! #### The parts of a block -/

/-- The items behind the first, and the bracket. -/
def itemsText (level : Nat) : List PyJson → PyStr
  | [] => indentation level ++ [.unit 0x5D]
  | v :: rest => .unit 0x2C :: (indentation (level + 1) ++ (dumpsIndented (level + 1) v ++ itemsText level rest))

def memberLine (level : Nat) (m : PyStr × PyJson) : PyStr :=
  pyQuote m.1 ++ (py ": " ++ dumpsIndented (level + 1) m.2)

/-- The members behind the first, and the brace. -/
def membersText (level : Nat) : List (PyStr × PyJson) → PyStr
  | [] => indentation level ++ [.unit 0x7D]
  | m :: rest => .unit 0x2C :: (indentation (level + 1) ++ (memberLine level m ++ membersText level rest))

theorem dumpsIndented_arr (level : Nat) (v : PyJson) (rest : List PyJson) : dumpsIndented level (.arr (v :: rest)) =
    .unit 0x5B :: (indentation (level + 1) ++ (dumpsIndented (level + 1) v ++ itemsText level rest)) := by
  have hrest : (indentedItems (level + 1) rest).flatMap (py "," ++ indentation (level + 1) ++ ·) ++
      indentation level ++ py "]" = itemsText level rest := by
    induction rest with
    | nil => rfl
    | cons w rest ih =>
        rw [indentedItems, List.flatMap_cons, itemsText, ← ih]
        simp only [List.append_assoc]
        rfl
  rw [dumpsIndented, indentedItems, block, if_neg (List.cons_ne_nil _ _), intercalate_cons, ← hrest]
  simp only [List.append_assoc]
  rfl

theorem dumpsIndented_obj (level : Nat) (m : PyStr × PyJson) (rest : List (PyStr × PyJson)) :
    dumpsIndented level (.obj (m :: rest)) =
      .unit 0x7B :: (indentation (level + 1) ++ (memberLine level m ++ membersText level rest)) := by
  have hrest : (indentedMembers (level + 1) rest).flatMap (py "," ++ indentation (level + 1) ++ ·) ++
      indentation level ++ py "\x7d" = membersText level rest := by
    induction rest with
    | nil => rfl
    | cons m rest ih =>
        rw [indentedMembers, List.flatMap_cons, membersText, ← ih, memberLine]
        simp only [List.append_assoc]
        rfl
  rw [dumpsIndented, indentedMembers, block, if_neg (List.cons_ne_nil _ _), intercalate_cons, ← hrest, memberLine]
  simp only [List.append_assoc]
  rfl

theorem itemsText_append (level : Nat) (items : List PyJson) (rest : PyStr) :
    ∃ c tail, itemsText level items ++ rest = c :: tail ∧ IsEnd c := by
  cases items with
  | nil => exact ⟨_, _, rfl, .inr rfl⟩
  | cons v items => exact ⟨_, _, rfl, .inl rfl⟩

theorem membersText_append (level : Nat) (members : List (PyStr × PyJson)) (rest : PyStr) :
    ∃ c tail, membersText level members ++ rest = c :: tail ∧ IsEnd c := by
  cases members with
  | nil => exact ⟨_, _, rfl, .inr rfl⟩
  | cons m members => exact ⟨_, _, rfl, .inl rfl⟩

theorem unit_ne_of_isNumeric {u c : UInt16} (h : isNumeric u = true) (hc : isNumeric c = false) :
    CodePoint.unit u ≠ .unit c := by
  intro heq
  rw [CodePoint.unit.inj heq, hc] at h
  cases h

theorem isJsonSpace_of_isNumeric {u : UInt16} (h : isNumeric u = true) : isJsonSpace (.unit u) = false := by
  refine decide_eq_false fun hspace => ?_
  rcases hspace with heq | heq | heq | heq
  all_goals exact unit_ne_of_isNumeric h (by decide) heq

/-- A value does not start with white space or a closing bracket. -/
theorem dumpsIndented_head (level : Nat) (v : PyJson) :
    ∃ c tail, dumpsIndented level v = c :: tail ∧ isJsonSpace c = false ∧ c ≠ .unit 0x5D := by
  cases v with
  | null => exact ⟨_, _, rfl, by decide, by decide⟩
  | bool b => cases b <;> exact ⟨_, _, rfl, by decide, by decide⟩
  | number n =>
      obtain ⟨u, text, htext⟩ := List.exists_cons_of_ne_nil n.text.nonempty
      have hu : isNumeric u = true := n.text.numeric u (htext ▸ List.mem_cons_self)
      refine ⟨.unit u, text.map .unit, ?_, isJsonSpace_of_isNumeric hu, unit_ne_of_isNumeric hu (by decide)⟩
      rw [dumpsIndented, htext, List.map_cons]
  | nonFinite f => cases f <;> exact ⟨_, _, rfl, by decide, by decide⟩
  | str s => exact ⟨_, _, rfl, by decide, by decide⟩
  | arr items =>
      cases items with
      | nil => exact ⟨_, _, rfl, by decide, by decide⟩
      | cons v items => exact ⟨_, _, dumpsIndented_arr level v items, by decide, by decide⟩
  | obj members =>
      cases members with
      | nil => exact ⟨_, _, rfl, by decide, by decide⟩
      | cons m members => exact ⟨_, _, dumpsIndented_obj level m members, by decide, by decide⟩

/-! #### How far a value is read -/

mutual

/-- The steps the reader takes into a value. -/
def cost : PyJson → Nat
  | .null | .bool _ | .number _ | .nonFinite _ | .str _ => 1
  | .arr items => 1 + costItems items
  | .obj members => 1 + costMembers members

def costItems : List PyJson → Nat
  | [] => 0
  | v :: rest => v.cost + 1 + costItems rest

def costMembers : List (PyStr × PyJson) → Nat
  | [] => 0
  | (_, v) :: rest => v.cost + 1 + costMembers rest

end

theorem costItems_le_length {level : Nat} {items : List PyJson}
    (h : ∀ v ∈ items, v.cost ≤ (dumpsIndented (level + 1) v).length) : costItems items + 2 ≤ (itemsText level items).length := by
  induction items with
  | nil => simp [costItems, itemsText, indentation]
  | cons v rest ih =>
      rw [List.forall_mem_cons] at h
      have hrest := ih h.2
      have hv := h.1
      simp only [costItems, itemsText, List.length_cons, List.length_append]
      omega

theorem costMembers_le_length {level : Nat} {members : List (PyStr × PyJson)}
    (h : ∀ m ∈ members, m.2.cost ≤ (dumpsIndented (level + 1) m.2).length) :
    costMembers members + 2 ≤ (membersText level members).length := by
  induction members with
  | nil => simp [costMembers, membersText, indentation]
  | cons m rest ih =>
      rw [List.forall_mem_cons] at h
      have hrest := ih h.2
      have hm := h.1
      simp only [costMembers, membersText, memberLine, List.length_cons, List.length_append]
      omega

theorem cost_le_length (v : PyJson) (level : Nat) : v.cost ≤ (dumpsIndented level v).length := by
  induction v using PyJson.induction generalizing level with
  | null | str | nonFinite | bool | number =>
      obtain ⟨c, tail, htext, -⟩ := dumpsIndented_head level _
      rw [htext, cost, List.length_cons]
      omega
  | arr items ih =>
      cases items with
      | nil => exact Nat.le_succ 1
      | cons v rest =>
          have hrest : costItems rest + 2 ≤ (itemsText level rest).length :=
            costItems_le_length fun w hw => ih w (List.mem_cons_of_mem _ hw) (level + 1)
          have hv := ih v List.mem_cons_self (level + 1)
          rw [dumpsIndented_arr, cost, costItems]
          simp only [List.length_cons, List.length_append]
          omega
  | obj members ih =>
      cases members with
      | nil => exact Nat.le_succ 1
      | cons m rest =>
          have hrest : costMembers rest + 2 ≤ (membersText level rest).length :=
            costMembers_le_length fun w hw => ih w (List.mem_cons_of_mem _ hw) (level + 1)
          have hm := ih m List.mem_cons_self (level + 1)
          rw [dumpsIndented_obj, cost, costMembers, memberLine]
          simp only [List.length_cons, List.length_append]
          omega

/-! #### Reading the parts -/

/-- The value is read up to what ends it. -/
def IsScanned (read : PyStr → Option (PyJson × PyStr)) (level : Nat) (v : PyJson) : Prop :=
  ∀ c rest fuel, IsEnd c → v.cost ≤ fuel →
    scanOnce read fuel (dumpsIndented level v ++ c :: rest) = some (v, c :: rest)

theorem scanItems_printed {level : Nat} {v : PyJson} {items : List PyJson} (rest : PyStr) {fuel : Nat}
    (h : ∀ w ∈ v :: items, IsScanned read (level + 1) w) (hfuel : costItems (v :: items) ≤ fuel) :
    scanItems read fuel (dumpsIndented (level + 1) v ++ (itemsText level items ++ rest)) = some (v :: items, rest) := by
  induction items generalizing v fuel with
  | nil =>
      rw [List.forall_mem_cons] at h
      rw [costItems, costItems] at hfuel
      obtain ⟨fuel, rfl⟩ : ∃ f, fuel = f + 1 := ⟨fuel - 1, by omega⟩
      have hscan := h.1 (.unit 0x0A) ((indentation level).tail ++ .unit 0x5D :: rest) fuel (.inr rfl) (by omega)
      have htext : itemsText level [] ++ rest = .unit 0x0A :: ((indentation level).tail ++ .unit 0x5D :: rest) := by
        simp [itemsText, indentation, newline]
      have hclose : skipSpace (itemsText level [] ++ rest) = .unit 0x5D :: rest := by
        rw [itemsText, List.append_assoc, skipSpace_indentation]
        exact skipSpace_cons (by decide) rest
      rw [scanItems, htext, hscan, Option.bind_some, ← htext, hclose, if_pos List.head?_cons]
      rfl
  | cons w items ih =>
      rw [List.forall_mem_cons] at h
      rw [costItems] at hfuel
      obtain ⟨fuel, rfl⟩ : ∃ f, fuel = f + 1 := ⟨fuel - 1, by omega⟩
      have hmore : itemsText level (w :: items) ++ rest = .unit 0x2C :: (indentation (level + 1) ++
          (dumpsIndented (level + 1) w ++ (itemsText level items ++ rest))) := by
        simp [itemsText]
      have hnext : skipSpace (indentation (level + 1) ++ (dumpsIndented (level + 1) w ++ (itemsText level items ++ rest))) =
          dumpsIndented (level + 1) w ++ (itemsText level items ++ rest) := by
        obtain ⟨c, tail, htext, hspace, -⟩ := dumpsIndented_head (level + 1) w
        rw [skipSpace_indentation, htext]
        exact skipSpace_cons hspace _
      rw [scanItems, hmore, h.1 _ _ fuel (.inl rfl) (by omega), Option.bind_some]
      dsimp only
      rw [skipSpace_cons (by decide), List.head?_cons, if_neg (by decide), if_pos rfl, List.tail_cons, hnext,
        ih h.2 (by omega), Option.map_some]

theorem scanMembers_printed {level : Nat} {m : PyStr × PyJson} {members : List (PyStr × PyJson)} (rest : PyStr) {fuel : Nat}
    (h : ∀ w ∈ m :: members, IsScanned read (level + 1) w.2) (hfuel : costMembers (m :: members) ≤ fuel) :
    scanMembers read fuel (memberLine level m ++ (membersText level members ++ rest)) = some (m :: members, rest) := by
  -- the key, the colon and the blank
  have hkey : ∀ (w : PyStr × PyJson) (more : PyStr) (fuel : Nat), scanMembers read (fuel + 1) (memberLine level w ++ more) =
      (scanOnce read fuel (dumpsIndented (level + 1) w.2 ++ more)).bind fun value =>
        if (skipSpace value.2).head? = some (.unit 0x7D) then some ([(w.1, value.1)], (skipSpace value.2).tail)
        else if (skipSpace value.2).head? = some (.unit 0x2C) then
          (scanMembers read fuel (skipSpace (skipSpace value.2).tail)).map fun r => ((w.1, value.1) :: r.1, r.2)
        else none := by
    intro w more fuel
    obtain ⟨c, tail, htext, hspace, -⟩ := dumpsIndented_head (level + 1) w.2
    have hsplit : memberLine level w ++ more = .unit 0x22 :: (esc w.1 ++ .unit 0x22 :: .unit 0x3A :: .unit 0x20 ::
        (dumpsIndented (level + 1) w.2 ++ more)) := by
      rw [memberLine, List.append_assoc, pyQuote_append]
      rfl
    rw [hsplit, scanMembers, if_neg (by simp), scanString_quoted, Option.bind_some]
    dsimp only
    rw [skipSpace_cons (by decide), List.head?_cons, if_neg (by simp), List.tail_cons, skipSpace_space, htext,
      List.cons_append, skipSpace_cons hspace]
  induction members generalizing m fuel with
  | nil =>
      rw [List.forall_mem_cons] at h
      rw [costMembers, costMembers] at hfuel
      obtain ⟨fuel, rfl⟩ : ∃ f, fuel = f + 1 := ⟨fuel - 1, by omega⟩
      have hscan := h.1 (.unit 0x0A) ((indentation level).tail ++ .unit 0x7D :: rest) fuel (.inr rfl) (by omega)
      have htext : membersText level [] ++ rest = .unit 0x0A :: ((indentation level).tail ++ .unit 0x7D :: rest) := by
        simp [membersText, indentation, newline]
      have hclose : skipSpace (membersText level [] ++ rest) = .unit 0x7D :: rest := by
        rw [membersText, List.append_assoc, skipSpace_indentation]
        exact skipSpace_cons (by decide) rest
      rw [hkey, htext, hscan, Option.bind_some, ← htext, hclose, if_pos List.head?_cons]
      rfl
  | cons w members ih =>
      rw [List.forall_mem_cons] at h
      rw [costMembers] at hfuel
      obtain ⟨fuel, rfl⟩ : ∃ f, fuel = f + 1 := ⟨fuel - 1, by omega⟩
      have hmore : membersText level (w :: members) ++ rest = .unit 0x2C :: (indentation (level + 1) ++
          (memberLine level w ++ (membersText level members ++ rest))) := by
        simp [membersText]
      have hnext : skipSpace (indentation (level + 1) ++ (memberLine level w ++ (membersText level members ++ rest))) =
          memberLine level w ++ (membersText level members ++ rest) := by
        rw [skipSpace_indentation, memberLine, List.append_assoc, pyQuote_append]
        exact skipSpace_cons (by decide) _
      rw [hkey, hmore, h.1 _ _ fuel (.inl rfl) (by omega), Option.bind_some]
      dsimp only
      rw [skipSpace_cons (by decide), List.head?_cons, if_neg (by decide), if_pos rfl, List.tail_cons, hnext,
        ih h.2 (by omega), Option.map_some]

/-! #### Reading the whole -/

/-- A number does not start like a constant. -/
theorem find?_constants {text : Text} {c : CodePoint} (htext : text ≠ []) (h : ∀ u ∈ text, isNumeric u = true)
    (hc : IsEnd c) (rest : PyStr) :
    constants.find? (fun e => e.1.isPrefixOf (text.map CodePoint.unit ++ c :: rest)) = none := by
  obtain ⟨u, text, rfl⟩ := List.exists_cons_of_ne_nil htext
  rw [List.forall_mem_cons] at h
  have hletter : ∀ (d : UInt16) (more : PyStr), isNumeric d = false →
      List.isPrefixOf (.unit d :: more) ((u :: text).map CodePoint.unit ++ c :: rest) = false := by
    intro d more hd
    rw [List.map_cons, List.cons_append, List.isPrefixOf_cons_cons, beq_false_of_ne (unit_ne_of_isNumeric h.1 hd).symm,
      Bool.false_and]
  have hminus : List.isPrefixOf (py "-Infinity") ((u :: text).map CodePoint.unit ++ c :: rest) = false := by
    have hsecond : ∀ more : PyStr, List.isPrefixOf (.unit 0x49 :: more) (text.map CodePoint.unit ++ c :: rest) = false := by
      intro more
      cases text with
      | nil =>
          have hne : CodePoint.unit 0x49 ≠ c := by
            rintro rfl
            rcases hc with hc | hc <;> exact absurd hc (by decide)
          rw [List.map_nil, List.nil_append, List.isPrefixOf_cons_cons, beq_false_of_ne hne, Bool.false_and]
      | cons v text =>
          rw [List.map_cons, List.cons_append, List.isPrefixOf_cons_cons,
            beq_false_of_ne (unit_ne_of_isNumeric (h.2 v List.mem_cons_self) (by decide)).symm, Bool.false_and]
    have hsplit : py "-Infinity" = .unit 0x2D :: .unit 0x49 :: py "nfinity" := rfl
    rw [hsplit, List.map_cons, List.cons_append, List.isPrefixOf_cons_cons, hsecond, Bool.and_false]
  rw [List.find?_eq_none]
  intro e he
  simp only [constants, List.mem_cons, List.not_mem_nil, or_false] at he
  rcases he with rfl | rfl | rfl | rfl | rfl | rfl
  · exact Bool.eq_false_iff.mp (hletter 0x6E _ (by decide))
  · exact Bool.eq_false_iff.mp (hletter 0x74 _ (by decide))
  · exact Bool.eq_false_iff.mp (hletter 0x66 _ (by decide))
  · exact Bool.eq_false_iff.mp (hletter 0x4E _ (by decide))
  · exact Bool.eq_false_iff.mp (hletter 0x49 _ (by decide))
  · exact Bool.eq_false_iff.mp hminus

theorem IsScanned.of_succ {level : Nat} {v : PyJson} (h : ∀ c rest fuel, IsEnd c → v.cost ≤ fuel + 1 →
    scanOnce read (fuel + 1) (dumpsIndented level v ++ c :: rest) = some (v, c :: rest)) : IsScanned read level v := by
  intro c rest fuel hc hfuel
  cases fuel with
  | zero => cases v <;> rw [cost] at hfuel <;> omega
  | succ fuel => exact h c rest fuel hc hfuel

theorem isScanned_number (n : PyNumber) (h : (number n).NumbersRead read) (level : Nat) :
    IsScanned read level (.number n) := by
  refine .of_succ fun c rest fuel hc _ => ?_
  obtain ⟨u, text, htext⟩ := List.exists_cons_of_ne_nil n.text.nonempty
  have hu : isNumeric u = true := n.text.numeric u (htext ▸ List.mem_cons_self)
  have hconstant := find?_constants n.text.nonempty n.text.numeric hc rest
  have hread := h c rest hc
  rw [dumpsIndented]
  rw [htext, List.map_cons, List.cons_append] at hconstant hread ⊢
  rw [scanOnce, if_neg (unit_ne_of_isNumeric hu (by decide)), if_neg (unit_ne_of_isNumeric hu (by decide)),
    if_neg (unit_ne_of_isNumeric hu (by decide)), hconstant]
  exact hread

/-- A value is read up to what ends it. -/
theorem isScanned {v : PyJson} (hdistinct : v.Distinct) (hnumbers : v.NumbersRead read) (level : Nat) :
    IsScanned read level v := by
  induction v using PyJson.induction generalizing level with
  | null => exact .of_succ fun _ _ _ _ _ => rfl
  | bool b => cases b <;> exact .of_succ fun _ _ _ _ _ => rfl
  | nonFinite f => cases f <;> exact .of_succ fun _ _ _ _ _ => rfl
  | number n => exact isScanned_number n hnumbers level
  | str s =>
      refine .of_succ fun c rest fuel _ _ => ?_
      rw [dumpsIndented, pyQuote_append, scanOnce_quote, scanString_quoted, Option.map_some]
  | arr items ih =>
      refine .of_succ fun c rest fuel _ hfuel => ?_
      rw [cost] at hfuel
      cases items with
      | nil => rfl
      | cons v items =>
          have hitems : ∀ w ∈ v :: items, IsScanned read (level + 1) w := fun w hw =>
            ih w hw (distinct_arr.mp hdistinct w hw) (numbersRead_arr.mp hnumbers w hw) (level + 1)
          obtain ⟨d, tail, htext, hspace, hbracket⟩ := dumpsIndented_head (level + 1) v
          have hopen : skipSpace (indentation (level + 1) ++ (dumpsIndented (level + 1) v ++ (itemsText level items ++ c :: rest))) =
              dumpsIndented (level + 1) v ++ (itemsText level items ++ c :: rest) := by
            rw [skipSpace_indentation, htext]
            exact skipSpace_cons hspace _
          rw [dumpsIndented_arr, List.cons_append, List.append_assoc, List.append_assoc, scanOnce, if_neg (by decide),
            if_neg (by decide), if_pos rfl, hopen, if_neg, scanItems_printed (c :: rest) hitems (by omega), Option.map_some]
          rw [htext, List.cons_append, List.head?_cons]
          exact fun heq => hbracket (Option.some.inj heq)
  | obj members ih =>
      refine .of_succ fun c rest fuel _ hfuel => ?_
      rw [cost] at hfuel
      cases members with
      | nil => rfl
      | cons m members =>
          obtain ⟨hnodup, hvalues⟩ := distinct_obj.mp hdistinct
          have hmembers : ∀ w ∈ m :: members, IsScanned read (level + 1) w.2 := fun w hw =>
            ih w hw (hvalues w hw) (numbersRead_obj.mp hnumbers w hw) (level + 1)
          have hopen : skipSpace (indentation (level + 1) ++ (memberLine level m ++ (membersText level members ++ c :: rest))) =
              memberLine level m ++ (membersText level members ++ c :: rest) := by
            rw [skipSpace_indentation, memberLine, List.append_assoc, pyQuote_append]
            exact skipSpace_cons (by decide) _
          rw [dumpsIndented_obj, List.cons_append, List.append_assoc, List.append_assoc, scanOnce, if_neg (by decide),
            if_pos rfl, hopen, if_neg, scanMembers_printed (c :: rest) hmembers (by omega), Option.map_some,
            Dict.ofList_eq_self hnodup]
          rw [memberLine, List.append_assoc, pyQuote_append, List.head?_cons]
          decide

/-- **A printed value is read back.** -/
theorem loads_dumpsIndented {v : PyJson} (hdistinct : v.Distinct) (hnumbers : v.NumbersRead read) :
    loads read (dumpsIndented 0 v ++ [newline]) = some v := by
  obtain ⟨c, tail, htext, hspace, -⟩ := dumpsIndented_head 0 v
  have hstart : skipSpace (dumpsIndented 0 v ++ [newline]) = dumpsIndented 0 v ++ [newline] := by
    rw [htext]
    exact skipSpace_cons hspace _
  have hcost := cost_le_length v 0
  rw [loads, hstart, isScanned hdistinct hnumbers 0 newline [] _ (.inr rfl) (by rw [List.length_append]; omega), Option.bind_some]
  rfl

end Printed

end ContextLayer.PyJson
