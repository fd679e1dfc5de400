import ContextLayer.Json

/-!
# Canonical JSON binds the value

A value's canonical text is read back from the left without looking ahead: a quoted string ends at
its first bare quote, a number at the first character that is not numeric, and every other value at
its own closing bracket. So the text of one value, followed by whatever ends it, determines the
value, and the canonical text determines the value up to the order of members.
-/

namespace ContextLayer

open Text

/-! ### Strings -/

def hexValue (u : UInt16) : Nat := if u < 0x3A then u.toNat - 0x30 else u.toNat - 0x57

theorem hexValue_hexDigit : ∀ n < 16, hexValue (hexDigit n) = n := by decide

theorem unicodeEscape_append_inj {u v : UInt16} {x y : Text}
    (h : unicodeEscape u ++ x = unicodeEscape v ++ y) : u = v ∧ x = y := by
  simp only [unicodeEscape, List.cons_append, List.nil_append, List.cons.injEq, true_and] at h
  obtain ⟨h3, h2, h1, h0, hxy⟩ := h
  have hu := u.toNat_lt
  have hv := v.toNat_lt
  have digit : ∀ m < 16, ∀ n < 16, hexDigit m = hexDigit n → m = n := by
    intro m hm n hn heq
    rw [← hexValue_hexDigit m hm, heq, hexValue_hexDigit n hn]
  have e3 := digit _ (by omega) _ (by omega) h3
  have e2 := digit _ (by omega) _ (by omega) h2
  have e1 := digit _ (by omega) _ (by omega) h1
  have e0 := digit _ (by omega) _ (by omega) h0
  exact ⟨UInt16.toNat_inj.mp (by omega), hxy⟩

theorem mem_shortEscapes {u c : UInt16} (h : shortEscape u = some c) : (u, c) ∈ shortEscapes := by
  simp only [shortEscape, Option.map_eq_some_iff, Prod.exists, exists_eq_right] at h
  obtain ⟨u', hfind⟩ := h
  have hu : u' = u := by simpa using List.find?_some hfind
  exact hu ▸ List.mem_of_find?_eq_some hfind

theorem shortEscape_inj {u v c : UInt16} (hu : shortEscape u = some c) (hv : shortEscape v = some c) :
    u = v := by
  have hnodup : (shortEscapes.map Prod.snd).Nodup := by decide
  exact congrArg Prod.fst
    (List.inj_on_of_nodup_map hnodup (mem_shortEscapes hu) (mem_shortEscapes hv) rfl)

theorem shortEscape_ne {u c : UInt16} (h : shortEscape u = some c) : c ≠ 0x75 := by
  have hnotMem : (0x75 : UInt16) ∉ shortEscapes.map Prod.snd := by decide
  rintro rfl
  exact hnotMem (List.mem_map_of_mem (mem_shortEscapes h))

/-- A unit printed as itself is neither a quote, nor a backslash, nor a surrogate. -/
theorem escapeUnit_cases (u : UInt16) :
    (∃ c, shortEscape u = some c ∧ escapeUnit u = [0x5C, c]) ∨
      escapeUnit u = unicodeEscape u ∨
      (escapeUnit u = [u] ∧ u ≠ 0x22 ∧ u ≠ 0x5C ∧ isSurrogate u = false) := by
  cases hshort : shortEscape u with
  | some c => exact .inl ⟨c, rfl, by simp [escapeUnit, hshort]⟩
  | none =>
      by_cases hcode : u < 0x20 ∨ isSurrogate u = true
      · exact .inr (.inl (by simp [escapeUnit, hshort, hcode]))
      · refine .inr (.inr ⟨by simp [escapeUnit, hshort, hcode], ?_, ?_, ?_⟩)
        · rintro rfl
          exact absurd hshort (by decide)
        · rintro rfl
          exact absurd hshort (by decide)
        · simpa using fun hs => hcode (.inr hs)

theorem escapeUnit_append_inj {u v : UInt16} {x y : Text}
    (h : escapeUnit u ++ x = escapeUnit v ++ y) : u = v ∧ x = y := by
  rcases escapeUnit_cases u with ⟨c, hc, hu⟩ | hu | ⟨hu, hq, hb, hs⟩ <;>
    rcases escapeUnit_cases v with ⟨d, hd, hv⟩ | hv | ⟨hv, hq', hb', hs'⟩ <;>
    rw [hu, hv] at h
  · simp only [List.cons_append, List.nil_append, List.cons.injEq, true_and] at h
    obtain ⟨rfl, hxy⟩ := h
    exact ⟨shortEscape_inj hc hd, hxy⟩
  · simp only [unicodeEscape, List.cons_append, List.nil_append, List.cons.injEq, true_and] at h
    exact absurd h.1 (shortEscape_ne hc)
  · simp only [List.cons_append, List.nil_append, List.cons.injEq] at h
    exact absurd h.1.symm hb'
  · simp only [unicodeEscape, List.cons_append, List.nil_append, List.cons.injEq, true_and] at h
    exact absurd h.1.symm (shortEscape_ne hd)
  · exact unicodeEscape_append_inj h
  · simp only [unicodeEscape, List.cons_append, List.nil_append, List.cons.injEq] at h
    exact absurd h.1.symm hb'
  · simp only [List.cons_append, List.nil_append, List.cons.injEq] at h
    exact absurd h.1 hb
  · simp only [unicodeEscape, List.cons_append, List.nil_append, List.cons.injEq] at h
    exact absurd h.1 hb
  · simpa using h

theorem escapePoint_append_inj {p q : CodePoint} {x y : Text}
    (h : escapePoint p ++ x = escapePoint q ++ y) : p = q ∧ x = y := by
  -- A pair is printed as its two halves, and no other code point is printed starting with a surrogate.
  have clash : ∀ {high low u : UInt16} {x y : Text}, isHighSurrogate high = true →
      high :: low :: x ≠ escapeUnit u ++ y := by
    intro high low u x y hhigh heq
    have hsur := isSurrogate_of_isHighSurrogate hhigh
    rcases escapeUnit_cases u with ⟨c, -, hu⟩ | hu | ⟨hu, -, -, hs⟩ <;> rw [hu] at heq
    · obtain ⟨rfl, -⟩ := List.cons.inj heq
      exact absurd hsur (by decide)
    · obtain ⟨rfl, -⟩ := List.cons.inj heq
      exact absurd hsur (by decide)
    · obtain ⟨rfl, -⟩ := List.cons.inj heq
      rw [hsur] at hs
      cases hs
  cases p with
  | pair high low hhigh hlow =>
      cases q with
      | pair high' low' hhigh' hlow' =>
          simp only [escapePoint, List.cons_append, List.nil_append, List.cons.injEq] at h
          obtain ⟨rfl, rfl, hxy⟩ := h
          exact ⟨rfl, hxy⟩
      | unit v => exact absurd h (clash hhigh)
  | unit u =>
      cases q with
      | pair high low hhigh hlow => exact absurd h.symm (clash hhigh)
      | unit v =>
          obtain ⟨rfl, hxy⟩ := escapeUnit_append_inj h
          exact ⟨rfl, hxy⟩

/-- No code point is printed starting with a bare quote. -/
theorem escapePoint_append_ne_quote {p : CodePoint} {x y : Text} :
    escapePoint p ++ x ≠ 0x22 :: y := by
  intro h
  cases p with
  | pair high low hhigh hlow =>
      obtain ⟨rfl, -⟩ := List.cons.inj h
      exact absurd hhigh (by decide)
  | unit u =>
      rcases escapeUnit_cases u with ⟨c, -, hu⟩ | hu | ⟨hu, hq, -, -⟩ <;>
        simp only [escapePoint] at h <;> rw [hu] at h
      · exact absurd (List.cons.inj h).1 (by decide)
      · exact absurd (List.cons.inj h).1 (by decide)
      · exact absurd (List.cons.inj h).1 hq

theorem escape_append_inj {ps qs : List CodePoint} {x y : Text}
    (h : ps.flatMap escapePoint ++ 0x22 :: x = qs.flatMap escapePoint ++ 0x22 :: y) :
    ps = qs ∧ x = y := by
  induction ps generalizing qs with
  | nil =>
      cases qs with
      | nil => simpa using h
      | cons q qs =>
          rw [List.flatMap_cons, List.append_assoc] at h
          exact absurd h.symm escapePoint_append_ne_quote
  | cons p ps ih =>
      rw [List.flatMap_cons, List.append_assoc] at h
      cases qs with
      | nil => exact absurd h escapePoint_append_ne_quote
      | cons q qs =>
          rw [List.flatMap_cons, List.append_assoc] at h
          obtain ⟨rfl, hrest⟩ := escapePoint_append_inj h
          obtain ⟨rfl, hxy⟩ := ih hrest
          exact ⟨rfl, hxy⟩

theorem quote_append_inj {s t x y : Text} (h : quote s ++ x = quote t ++ y) : s = t ∧ x = y := by
  simp only [quote, List.cons_append, List.append_assoc, List.nil_append, List.cons.injEq,
    true_and] at h
  obtain ⟨hpoints, hxy⟩ := escape_append_inj h
  exact ⟨codePoints_injective hpoints, hxy⟩

/-! ### Values -/

/-- To prove something of every value, prove it of an array from its items and of an object from its
members' values. -/
theorem Json.induction {P : Json → Prop} (null : P .null) (bool : ∀ b, P (.bool b))
    (num : ∀ n, P (.num n)) (str : ∀ s, P (.str s))
    (arr : ∀ items, (∀ v ∈ items, P v) → P (.arr items))
    (obj : ∀ members, (∀ m ∈ members, P m.2) → P (.obj members)) (v : Json) : P v :=
  Json.rec (motive_1 := P) (motive_2 := fun items => ∀ v ∈ items, P v)
    (motive_3 := fun members => ∀ m ∈ members, P m.2) (motive_4 := fun m => P m.2)
    null bool num str arr obj (by simp) (by simp_all) (by simp) (by simp_all) (fun _ _ h => h) v

theorem stringifyItems_eq_map (items : List Json) : stringifyItems items = items.map stringify := by
  induction items with
  | nil => rfl
  | cons v rest ih => simp [stringifyItems, ih]

theorem stringifyMembers_eq_map (members : List (Text × Json)) :
    stringifyMembers members = members.map fun m => (m.1, stringify m.2) := by
  induction members with
  | nil => rfl
  | cons m rest ih => simp [stringifyMembers, ih]

theorem canonicalItems_eq_map (items : List Json) :
    canonicalItems items = items.map canonicalJson := by
  induction items with
  | nil => rfl
  | cons v rest ih => simp [canonicalItems, ih]

theorem canonicalMembers_eq_map (members : List (Text × Json)) :
    canonicalMembers members = members.map fun m => (m.1, canonicalJson m.2) := by
  induction members with
  | nil => rfl
  | cons m rest ih => simp [canonicalMembers, ih]

theorem sortedItems_eq_map (items : List Json) : sortedItems items = items.map Json.sorted := by
  induction items with
  | nil => rfl
  | cons v rest ih => simp [sortedItems, ih]

theorem sortedMembers_eq_map (members : List (Text × Json)) :
    sortedMembers members = members.map fun m => (m.1, m.2.sorted) := by
  induction members with
  | nil => rfl
  | cons m rest ih => simp [sortedMembers, ih]

/-- Sorting looks at keys only. -/
theorem sortEntries_map {α β : Type} (f : α → β) (entries : List (Text × α)) :
    sortEntries (entries.map fun e => (e.1, f e.2))
      = (sortEntries entries).map fun e => (e.1, f e.2) := by
  exact (List.map_insertionSort (fun a b : Text × α => a.1 ≤ b.1) (fun a b : Text × β => a.1 ≤ b.1)
    (fun e => (e.1, f e.2)) entries fun a _ b _ => Iff.rfl).symm

/-- The canonical text is the plain text of the sorted value. -/
theorem canonicalJson_eq_stringify (v : Json) : canonicalJson v = stringify v.sorted := by
  induction v using Json.induction with
  | null => rfl
  | bool b => cases b <;> rfl
  | num n => rfl
  | str s => rfl
  | arr items ih =>
      have hitems : items.map canonicalJson = (items.map Json.sorted).map stringify := by
        rw [List.map_map]
        exact List.map_congr_left ih
      simp only [canonicalJson, Json.sorted, stringify, canonicalItems_eq_map, sortedItems_eq_map,
        stringifyItems_eq_map, hitems]
  | obj members ih =>
      have hmembers : (members.map fun m => (m.1, canonicalJson m.2))
          = (members.map fun m => (m.1, m.2.sorted)).map fun m => (m.1, stringify m.2) := by
        rw [List.map_map]
        refine List.map_congr_left fun m hm => ?_
        simp [ih m hm]
      simp only [canonicalJson, Json.sorted, stringify, canonicalMembers_eq_map,
        sortedMembers_eq_map, stringifyMembers_eq_map, hmembers, sortEntries_map]

/-- What ends a value inside a larger text. -/
def Ends (x : Text) : Prop := ∀ u ∈ x.head?, isNumeric u = false

/-- Each kind of value is printed starting with characters of its own. -/
def leadTag (u : UInt16) : Nat :=
  if u = 0x6E then 0 else if u = 0x74 then 1 else if u = 0x66 then 2 else if u = 0x22 then 3
  else if u = 0x5B then 4 else if u = 0x7B then 5 else if isNumeric u = true then 6 else 7

def valueTag : Json → Nat
  | .null => 0
  | .bool true => 1
  | .bool false => 2
  | .str _ => 3
  | .arr _ => 4
  | .obj _ => 5
  | .num _ => 6

theorem leadTag_of_isNumeric {u : UInt16} (h : isNumeric u = true) : leadTag u = 6 := by
  have hne : ∀ c ∈ [0x6E, 0x74, 0x66, 0x22, 0x5B, (0x7B : UInt16)], u ≠ c := by
    rintro c hc rfl
    have hnone : ([0x6E, 0x74, 0x66, 0x22, 0x5B, 0x7B].all fun c => !isNumeric c) = true := by decide
    have hnumeric := List.all_eq_true.mp hnone _ hc
    simp [h] at hnumeric
  simp [leadTag, h, hne]

theorem stringify_head (v : Json) : ∃ u rest, stringify v = u :: rest ∧ leadTag u = valueTag v := by
  cases v with
  | null => exact ⟨_, _, rfl, by decide⟩
  | bool b => cases b <;> exact ⟨_, _, rfl, by decide⟩
  | num n =>
      obtain ⟨u, rest, hn⟩ := List.exists_cons_of_ne_nil n.nonempty
      exact ⟨u, rest, hn, leadTag_of_isNumeric (n.numeric u (by simp [hn]))⟩
  | str s => exact ⟨_, _, rfl, rfl⟩
  | arr items => exact ⟨_, _, rfl, rfl⟩
  | obj members => exact ⟨_, _, rfl, rfl⟩

theorem valueTag_eq {v w : Json} {x y : Text} (h : stringify v ++ x = stringify w ++ y) :
    valueTag v = valueTag w := by
  obtain ⟨u, rest, hv, hu⟩ := stringify_head v
  obtain ⟨u', rest', hw, hu'⟩ := stringify_head w
  rw [hv, hw] at h
  rw [← hu, ← hu', (List.cons.inj h).1]

/-- A number ends where its characters end. -/
theorem numeric_append_inj {s t x y : Text} (hs : ∀ u ∈ s, isNumeric u = true)
    (ht : ∀ u ∈ t, isNumeric u = true) (hx : Ends x) (hy : Ends y) (h : s ++ x = t ++ y) :
    s = t ∧ x = y := by
  induction s generalizing t with
  | nil =>
      cases t with
      | nil => exact ⟨rfl, h⟩
      | cons u t =>
          have := hx u (by simp at h; simp [h])
          rw [ht u (by simp)] at this
          cases this
  | cons u s ih =>
      cases t with
      | nil =>
          have := hy u (by simp at h; simp [← h])
          rw [hs u (by simp)] at this
          cases this
      | cons v t =>
          simp only [List.cons_append, List.cons.injEq] at h
          obtain ⟨rfl, h⟩ := h
          obtain ⟨rfl, hxy⟩ := ih (fun w hw => hs w (by simp [hw])) (fun w hw => ht w (by simp [hw])) h
          exact ⟨rfl, hxy⟩

/-- A comma-separated list is read back if each part is, and no part can be taken for its end. -/
theorem joinComma_append_inj {α : Type} {f : α → Text} {close : UInt16} {as bs : List α} {x y : Text}
    (hclose : isNumeric close = false) (hcomma : close ≠ 0x2C)
    (hhead : ∀ b z w, f b ++ z ≠ close :: w)
    (hinj : ∀ a ∈ as, ∀ b z w, Ends z → Ends w → f a ++ z = f b ++ w → a = b ∧ z = w)
    (h : joinComma (as.map f) ++ close :: x = joinComma (bs.map f) ++ close :: y) :
    as = bs ∧ x = y := by
  have hendClose : ∀ z, Ends (close :: z) := fun z => by simpa [Ends] using hclose
  have hendComma : ∀ z, Ends (0x2C :: z) := fun z => by simp [Ends]; decide
  induction as generalizing bs with
  | nil =>
      match bs with
      | [] => simpa [joinComma] using h
      | [b] => exact absurd h.symm (hhead b _ _)
      | b :: b' :: bs =>
          simp only [List.map_cons, joinComma, List.append_assoc] at h
          exact absurd h.symm (hhead b _ _)
  | cons a as ih =>
      match as, bs with
      | [], [] => exact absurd h (hhead a _ _)
      | a' :: as, [] =>
          simp only [List.map_cons, joinComma, List.append_assoc] at h
          exact absurd h (hhead a _ _)
      | [], [b] =>
          obtain ⟨rfl, hrest⟩ := hinj a (by simp) b _ _ (hendClose x) (hendClose y) h
          exact ⟨rfl, (List.cons.inj hrest).2⟩
      | [], b :: b' :: bs =>
          simp only [List.map_cons, List.map_nil, joinComma, List.append_assoc, List.cons_append] at h
          obtain ⟨-, hrest⟩ := hinj a (by simp) b _ _ (hendClose x) (hendComma _) h
          exact absurd (List.cons.inj hrest).1 hcomma
      | a' :: as, [b] =>
          simp only [List.map_cons, List.map_nil, joinComma, List.append_assoc, List.cons_append] at h
          obtain ⟨-, hrest⟩ := hinj a (by simp) b _ _ (hendComma _) (hendClose y) h
          exact absurd (List.cons.inj hrest).1.symm hcomma
      | a' :: as, b :: b' :: bs =>
          simp only [List.map_cons, joinComma, List.append_assoc, List.cons_append] at h
          obtain ⟨rfl, hrest⟩ := hinj a (by simp) b _ _ (hendComma _) (hendComma _) h
          obtain ⟨htail, hxy⟩ := @ih (b' :: bs) (fun c hc => hinj c (by simp [hc]))
            (List.cons.inj hrest).2
          exact ⟨by rw [htail], hxy⟩

theorem stringify_append_ne {v : Json} {c : UInt16} {x y : Text} (hc : leadTag c = 7) :
    stringify v ++ x ≠ c :: y := by
  intro h
  obtain ⟨u, rest, hv, hu⟩ := stringify_head v
  rw [hv] at h
  have hu7 : leadTag u = 7 := (List.cons.inj h).1 ▸ hc
  cases v with
  | bool b => cases b <;> simp [valueTag, hu7] at hu
  | _ => simp [valueTag, hu7] at hu

/-- **JSON text is read back.** The text of a value, followed by anything that ends it, determines the
value and what follows. -/
theorem stringify_append_inj (v w : Json) {x y : Text} (hx : Ends x) (hy : Ends y)
    (h : stringify v ++ x = stringify w ++ y) : v = w ∧ x = y := by
  induction v using Json.induction generalizing w x y with
  | null =>
      have htag := valueTag_eq h
      cases w with
      | null => exact ⟨rfl, List.append_cancel_left h⟩
      | bool b => cases b <;> simp [valueTag] at htag
      | _ => simp [valueTag] at htag
  | bool b =>
      have htag := valueTag_eq h
      cases w with
      | bool c => cases b <;> cases c <;> simp_all [valueTag]
      | _ => cases b <;> simp [valueTag] at htag
  | num n =>
      have htag := valueTag_eq h
      cases w with
      | num m =>
          obtain ⟨htext, hxy⟩ := numeric_append_inj n.numeric m.numeric hx hy h
          cases n
          cases m
          cases htext
          exact ⟨rfl, hxy⟩
      | bool b => cases b <;> simp [valueTag] at htag
      | _ => simp [valueTag] at htag
  | str s =>
      have htag := valueTag_eq h
      cases w with
      | str t =>
          obtain ⟨rfl, hxy⟩ := quote_append_inj h
          exact ⟨rfl, hxy⟩
      | bool b => cases b <;> simp [valueTag] at htag
      | _ => simp [valueTag] at htag
  | arr items ih =>
      have htag := valueTag_eq h
      cases w with
      | arr items' =>
          simp only [stringify, stringifyItems_eq_map, List.cons_append, List.append_assoc,
            List.cons.injEq, true_and, List.nil_append] at h
          obtain ⟨rfl, hxy⟩ := joinComma_append_inj (by decide) (by decide)
            (fun b z t => stringify_append_ne (by decide))
            (fun a ha b z t hz ht heq => ih a ha b hz ht heq) h
          exact ⟨rfl, hxy⟩
      | bool b => cases b <;> simp [valueTag] at htag
      | _ => simp [valueTag] at htag
  | obj members ih =>
      have htag := valueTag_eq h
      cases w with
      | obj members' =>
          simp only [stringify, stringifyMembers_eq_map, List.map_map, List.cons_append,
            List.append_assoc, List.cons.injEq, true_and, List.nil_append] at h
          obtain ⟨rfl, hxy⟩ := joinComma_append_inj
            (f := memberText ∘ fun m : Text × Json => (m.1, stringify m.2)) (by decide) (by decide)
            (fun b z t heq => absurd (List.cons.inj heq).1 (by decide))
            (fun a ha b z t hz ht heq => by
              simp only [Function.comp_apply, memberText, List.append_assoc, List.cons_append] at heq
              obtain ⟨hkey, hvalue⟩ := quote_append_inj heq
              obtain ⟨hval, hzt⟩ := ih a ha b.2 hz ht (List.cons.inj hvalue).2
              exact ⟨Prod.ext hkey hval, hzt⟩) h
          exact ⟨rfl, hxy⟩
      | bool b => cases b <;> simp [valueTag] at htag
      | _ => simp [valueTag] at htag

theorem stringify_injective {v w : Json} (h : stringify v = stringify w) : v = w := by
  have hend : Ends [] := by simp [Ends]
  exact (stringify_append_inj v w hend hend (by rw [h])).1

/-- **The canonical text binds the value**, up to the order of members. -/
theorem canonicalJson_eq_iff {v w : Json} : canonicalJson v = canonicalJson w ↔ v.sorted = w.sorted := by
  rw [canonicalJson_eq_stringify, canonicalJson_eq_stringify]
  exact ⟨stringify_injective, fun h => by rw [h]⟩

/-! ### JSON text is Unicode text

`JSON.stringify` escapes the surrogates that have no other half, so hashing its output replaces
nothing. -/

theorem isWellFormed_cons {u : UInt16} {s : Text} (hu : isSurrogate u = false)
    (hs : isWellFormed s = true) : isWellFormed (u :: s) = true := by
  have hunit : isWellFormed [u] = true := by
    simp [isWellFormed, codePoints, CodePoint.isLone, hu]
  simpa using isWellFormed_append hunit hs

theorem isWellFormed_of_units {s : Text} (h : ∀ u ∈ s, isSurrogate u = false) :
    isWellFormed s = true := by
  induction s with
  | nil => rfl
  | cons u s ih => exact isWellFormed_cons (h u (by simp)) (ih fun v hv => h v (by simp [hv]))

theorem isSurrogate_hexDigit : ∀ n < 16, isSurrogate (hexDigit n) = false := by decide

theorem isWellFormed_unicodeEscape (u : UInt16) : isWellFormed (unicodeEscape u) = true := by
  have hu := u.toNat_lt
  apply isWellFormed_of_units
  simp only [unicodeEscape, List.mem_cons, List.not_mem_nil, or_false]
  rintro v (rfl | rfl | rfl | rfl | rfl | rfl)
  · decide
  · decide
  all_goals exact isSurrogate_hexDigit _ (by omega)

theorem isWellFormed_escapePoint (p : CodePoint) : isWellFormed (escapePoint p) = true := by
  cases p with
  | pair high low hhigh hlow => exact isWellFormed_units (p := .pair high low hhigh hlow) rfl
  | unit u =>
      rcases escapeUnit_cases u with ⟨c, hc, hu⟩ | hu | ⟨hu, -, -, hs⟩ <;>
        simp only [escapePoint, hu]
      · have hshort : (shortEscapes.all fun e => isWellFormed [0x5C, e.2]) = true := by decide
        exact List.all_eq_true.mp hshort _ (mem_shortEscapes hc)
      · exact isWellFormed_unicodeEscape u
      · exact isWellFormed_cons hs rfl

theorem isWellFormed_quote (s : Text) : isWellFormed (quote s) = true :=
  isWellFormed_cons (by decide) (isWellFormed_append
    (isWellFormed_flatMap fun p _ => isWellFormed_escapePoint p) (by decide))

theorem isWellFormed_joinComma {parts : List Text} (h : ∀ t ∈ parts, isWellFormed t = true) :
    isWellFormed (joinComma parts) = true := by
  fun_induction joinComma parts with
  | case1 => rfl
  | case2 t => exact h t (by simp)
  | case3 t ts hts ih =>
      exact isWellFormed_append (h t (by simp))
        (isWellFormed_cons (by decide) (ih fun t ht => h t (by simp [ht])))

theorem isSurrogate_of_isNumeric {u : UInt16} (h : isNumeric u = true) : isSurrogate u = false := by
  by_contra hs
  simp only [isNumeric, isSurrogate, Bool.not_eq_false, Bool.and_eq_true, Bool.or_eq_true,
    decide_eq_true_eq, beq_iff_eq, UInt16.le_iff_toNat_le, ← UInt16.toNat_inj] at h hs
  have := hs.1
  rcases h with (((⟨-, h⟩ | h) | h) | h) | h <;>
    simp only [UInt16.reduceToNat] at h this <;> omega

theorem isWellFormed_stringify (v : Json) : isWellFormed (stringify v) = true := by
  induction v using Json.induction with
  | null => decide
  | bool b => cases b <;> decide
  | num n => exact isWellFormed_of_units fun u hu => isSurrogate_of_isNumeric (n.numeric u hu)
  | str s => exact isWellFormed_quote s
  | arr items ih =>
      rw [stringify, stringifyItems_eq_map]
      refine isWellFormed_cons (by decide) (isWellFormed_append (isWellFormed_joinComma ?_) (by decide))
      simpa using ih
  | obj members ih =>
      rw [stringify, stringifyMembers_eq_map]
      refine isWellFormed_cons (by decide) (isWellFormed_append (isWellFormed_joinComma ?_) (by decide))
      simp only [List.map_map, List.mem_map, Function.comp_apply, forall_exists_index, and_imp]
      rintro t m hm rfl
      exact isWellFormed_append (isWellFormed_quote m.1) (isWellFormed_cons (by decide) (ih m hm))

theorem isWellFormed_canonicalJson (v : Json) : isWellFormed (canonicalJson v) = true := by
  rw [canonicalJson_eq_stringify]
  exact isWellFormed_stringify v.sorted

end ContextLayer
