import ContextLayer.PyJson
import ContextLayer.Proof.CanonicalJson

/-!
# What the bytes of a Python value bind

Where no surrogate is lone, the text Python prints is the text `JSON.stringify` prints of the same
value, so what is known of the one holds of the other: the bytes are those of the value up to the order
of members. A value with a lone surrogate or without JSON text has no bytes in any order.
-/

namespace ContextLayer

open Text StableSort

theorem any_congr_mem {α : Type} {l : List α} {p q : α → Bool} (h : ∀ a ∈ l, p a = q a) :
    l.any p = l.any q := by
  rw [Bool.eq_iff_iff, List.any_eq_true, List.any_eq_true]
  exact exists_congr fun a => and_congr_right fun ha => by rw [h a ha]

/-! ### Strings -/

/-- A string in UTF-16. -/
def units (s : PyStr) : Text := s.flatMap CodePoint.units

theorem units_append (s t : PyStr) : units (s ++ t) = units s ++ units t := List.flatMap_append

theorem units_cons (u : UInt16) (s : PyStr) : units (.unit u :: s) = u :: units s := rfl

theorem units_map_unit (t : Text) : units (t.map .unit) = t := by
  induction t with
  | nil => rfl
  | cons u t ih => rw [List.map_cons, units_cons, ih]

theorem any_isLone_map_unit (t : Text) :
    (t.map CodePoint.unit).any CodePoint.isLone = t.any isSurrogate := by
  rw [List.any_map]
  rfl

theorem codePoints_units {s : PyStr} (h : s.any CodePoint.isLone = false) :
    codePoints (units s) = s := by
  induction s with
  | nil => rfl
  | cons p s ih =>
      rw [List.any_cons, Bool.or_eq_false_iff] at h
      have hhead : codePoints p.units = [p] := by
        cases p with
        | pair high low hhigh hlow => simp [CodePoint.units, codePoints, hhigh, hlow]
        | unit u => rfl
      calc codePoints (units (p :: s))
          = codePoints p.units ++ codePoints (units s) := codePoints_append (isWellFormed_units h.1)
        _ = p :: s := by rw [hhead, ih h.2, List.singleton_append]

theorem units_inj {s t : PyStr} (hs : s.any CodePoint.isLone = false)
    (ht : t.any CodePoint.isLone = false) (h : units s = units t) : s = t := by
  rw [← codePoints_units hs, h, codePoints_units ht]

/-! ### Quoting -/

theorem isSurrogate_of_mem_unicodeEscape {u v : UInt16} (h : v ∈ unicodeEscape u) :
    isSurrogate v = false := by
  have hu := u.toNat_lt
  simp only [unicodeEscape, List.mem_cons, List.not_mem_nil, or_false] at h
  obtain rfl | rfl | rfl | rfl | rfl | rfl := h
  · decide
  · decide
  all_goals exact isSurrogate_hexDigit _ (by omega)

theorem isSurrogate_of_shortEscape {u c : UInt16} (h : shortEscape u = some c) :
    isSurrogate u = false ∧ isSurrogate c = false := by
  have hall : (shortEscapes.all fun e => !isSurrogate e.1 && !isSurrogate e.2) = true := by decide
  have hentry := List.all_eq_true.mp hall _ (mem_shortEscapes h)
  simpa only [Bool.and_eq_true, Bool.not_eq_true'] using hentry

theorem isSurrogate_of_lt {u : UInt16} (h : u < 0x20) : isSurrogate u = false := by
  rw [← Bool.not_eq_true, isSurrogate_iff]
  have : u.toNat < 0x20 := h
  omega

theorem any_isLone_pyEscape (p : CodePoint) : (pyEscape p).any CodePoint.isLone = p.isLone := by
  cases p with
  | pair high low hhigh hlow => rfl
  | unit u =>
      cases hshort : shortEscape u with
      | some c =>
          have hc := isSurrogate_of_shortEscape hshort
          have hbackslash : isSurrogate 0x5C = false := by decide
          simp [pyEscape, hshort, CodePoint.isLone, hc, hbackslash]
      | none =>
          by_cases hlt : u < 0x20
          · have hescape : (unicodeEscape u).any isSurrogate = false :=
              List.any_eq_false.mpr fun v hv => by simp [isSurrogate_of_mem_unicodeEscape hv]
            simp only [pyEscape, hshort, if_pos hlt, any_isLone_map_unit, hescape]
            exact (isSurrogate_of_lt hlt).symm
          · simp [pyEscape, hshort, hlt]

theorem any_isLone_pyQuote (s : PyStr) :
    (pyQuote s).any CodePoint.isLone = s.any CodePoint.isLone := by
  have hquote : (CodePoint.unit 0x22).isLone = false := by decide
  simp only [pyQuote, List.any_cons, List.any_append, List.any_flatMap, any_isLone_pyEscape, hquote,
    List.any_nil, Bool.false_or, Bool.or_false]

theorem units_pyEscape {p : CodePoint} (h : p.isLone = false) : units (pyEscape p) = escapePoint p := by
  cases p with
  | pair high low hhigh hlow => rfl
  | unit u =>
      have hu : isSurrogate u = false := h
      cases hshort : shortEscape u with
      | some c => simp [pyEscape, escapePoint, escapeUnit, hshort, units, CodePoint.units]
      | none =>
          by_cases hlt : u < 0x20
          · simp [pyEscape, escapePoint, escapeUnit, hshort, hlt, units_map_unit]
          · simp [pyEscape, escapePoint, escapeUnit, hshort, hlt, hu, units, CodePoint.units]

theorem units_pyQuote {s : PyStr} (h : s.any CodePoint.isLone = false) :
    units (pyQuote s) = quote (units s) := by
  have hescape : units (s.flatMap pyEscape) = s.flatMap escapePoint := by
    rw [units, List.flatMap_assoc]
    refine List.flatMap_congr fun p hp => units_pyEscape ?_
    simpa using List.any_eq_false.mp h p hp
  rw [pyQuote, units_cons, units_append, hescape, quote, codePoints_units h]
  rfl

theorem units_pyJoinComma (parts : List PyStr) :
    units (pyJoinComma parts) = joinComma (parts.map units) := by
  induction parts with
  | nil => rfl
  | cons s rest ih =>
      cases rest with
      | nil => simp [pyJoinComma, joinComma]
      | cons t rest =>
          rw [pyJoinComma, List.intercalate_cons_cons, units_append, units_append]
          rw [pyJoinComma] at ih
          rw [ih]
          simp [joinComma, units, CodePoint.units]

theorem any_isLone_pyJoinComma (parts : List PyStr) :
    (pyJoinComma parts).any CodePoint.isLone = parts.any fun s => s.any CodePoint.isLone := by
  have hcomma : (CodePoint.unit 0x2C).isLone = false := by decide
  induction parts with
  | nil => rfl
  | cons s rest ih =>
      cases rest with
      | nil => simp [pyJoinComma]
      | cons t rest =>
          rw [pyJoinComma] at ih
          rw [pyJoinComma, List.intercalate_cons_cons, List.any_append, List.any_append, ih,
            List.any_cons (a := s), List.any_cons, hcomma]
          simp

/-! ### Values -/

theorem digit_ofNat {n : Nat} {u : UInt16} (h : u ∈ (JsNumber.ofNat n).text) :
    0x30 ≤ u.toNat ∧ u.toNat ≤ 0x39 := by
  simp only [JsNumber.ofNat] at h
  split at h
  · obtain rfl : u = 0x30 := by simpa using h
    decide
  · obtain ⟨d, hd, rfl⟩ := List.mem_map.mp h
    have hlt : d < 10 := Nat.digits_lt_base (by decide) (List.mem_reverse.mp hd)
    rw [UInt16.toNat_ofNat']
    omega

theorem JsNumber.ofInt_inj {m n : Int} (h : (JsNumber.ofInt m).text = (JsNumber.ofInt n).text) :
    m = n := by
  have hsign : ∀ {k l : Nat}, (JsNumber.ofNat k).text = 0x2D :: (JsNumber.ofNat l).text → False := by
    intro k l heq
    have := digit_ofNat (n := k) (u := 0x2D) (heq ▸ List.mem_cons_self)
    revert this
    decide
  cases m with
  | ofNat k =>
      cases n with
      | ofNat l =>
          have hvalue := congrArg digitsValue h
          simp only [JsNumber.ofInt, digitsValue_ofNat] at hvalue
          rw [hvalue]
      | negSucc l => exact (hsign h).elim
  | negSucc k =>
      cases n with
      | ofNat l => exact (hsign h.symm).elim
      | negSucc l =>
          have hvalue := congrArg digitsValue (List.cons.inj h).2
          simp only [digitsValue_ofNat, Nat.add_right_cancel_iff] at hvalue
          rw [hvalue]

/-- An integer is printed without a point or an exponent. -/
theorem JsNumber.ofInt_notFloat (n : Int) :
    ((JsNumber.ofInt n).text.any fun u => u == 0x2E || u == 0x65) = false := by
  have hdigits : ∀ k, ((JsNumber.ofNat k).text.any fun u => u == 0x2E || u == 0x65) = false := by
    intro k
    refine List.any_eq_false.mpr fun u hu => ?_
    have hrange := digit_ofNat hu
    have hpoint : u ≠ 0x2E := by
      rintro rfl
      revert hrange
      decide
    have hexponent : u ≠ 0x65 := by
      rintro rfl
      revert hrange
      decide
    simp [hpoint, hexponent]
  cases n with
  | ofNat k => exact hdigits k
  | negSucc k =>
      have hminus : ((0x2D : UInt16) == 0x2E || (0x2D : UInt16) == 0x65) = false := by decide
      simp only [JsNumber.ofInt, List.any_cons, hdigits, hminus, Bool.or_self]

theorem PyNumber.text_injective {m n : PyNumber} (h : m.text = n.text) : m = n := by
  cases m with
  | int k =>
      cases n with
      | int l => rw [JsNumber.ofInt_inj (congrArg JsNumber.text h)]
      | float g =>
          have hfloat := g.isFloat
          rw [← show JsNumber.ofInt k = g.text from h, JsNumber.ofInt_notFloat] at hfloat
          cases hfloat
  | float f =>
      cases n with
      | int l =>
          have hfloat := f.isFloat
          rw [show f.text = JsNumber.ofInt l from h, JsNumber.ofInt_notFloat] at hfloat
          cases hfloat
      | float g =>
          obtain ⟨ft, hf⟩ := f
          obtain ⟨gt, hg⟩ := g
          obtain rfl : ft = gt := h
          rfl

namespace PyJson

/-- To prove something of every value, prove it of an array from its items and of an object from its
members' values. -/
theorem induction {P : PyJson → Prop} (null : P .null) (bool : ∀ b, P (.bool b))
    (number : ∀ n, P (.number n)) (nonFinite : ∀ f, P (.nonFinite f)) (str : ∀ s, P (.str s))
    (arr : ∀ items, (∀ v ∈ items, P v) → P (.arr items))
    (obj : ∀ members, (∀ m ∈ members, P m.2) → P (.obj members)) (v : PyJson) : P v :=
  PyJson.rec (motive_1 := P) (motive_2 := fun items => ∀ v ∈ items, P v)
    (motive_3 := fun members => ∀ m ∈ members, P m.2) (motive_4 := fun m => P m.2)
    null bool number nonFinite str arr obj (by simp) (by simp_all) (by simp) (by simp_all)
    (fun _ _ h => h) v

theorem dumpsItems_eq_map (items : List PyJson) : dumpsItems items = items.map dumps := by
  induction items with
  | nil => rfl
  | cons v rest ih => rw [dumpsItems, ih, List.map_cons]

theorem dumpsMembers_eq_map (members : List (PyStr × PyJson)) :
    dumpsMembers members = members.map fun m => pyQuote m.1 ++ .unit 0x3A :: m.2.dumps := by
  induction members with
  | nil => rfl
  | cons m rest ih => rw [dumpsMembers, ih, List.map_cons]

theorem sortKeysItems_eq_map (items : List PyJson) : sortKeysItems items = items.map sortKeys := by
  induction items with
  | nil => rfl
  | cons v rest ih => rw [sortKeysItems, ih, List.map_cons]

theorem sortKeysMembers_eq_map (members : List (PyStr × PyJson)) :
    sortKeysMembers members = members.map fun m => (m.1, m.2.sortKeys) := by
  induction members with
  | nil => rfl
  | cons m rest ih => rw [sortKeysMembers, ih, List.map_cons]

theorem isFiniteItems_eq_all (items : List PyJson) : isFiniteItems items = items.all isFinite := by
  induction items with
  | nil => rfl
  | cons v rest ih => rw [isFiniteItems, ih, List.all_cons]

theorem isFiniteMembers_eq_all (members : List (PyStr × PyJson)) :
    isFiniteMembers members = members.all fun m => m.2.isFinite := by
  induction members with
  | nil => rfl
  | cons m rest ih => rw [isFiniteMembers, ih, List.all_cons]

theorem isEncodableItems_eq_all (items : List PyJson) :
    isEncodableItems items = items.all isEncodable := by
  induction items with
  | nil => rfl
  | cons v rest ih => rw [isEncodableItems, ih, List.all_cons]

theorem isEncodableMembers_eq_all (members : List (PyStr × PyJson)) :
    isEncodableMembers members =
      members.all fun m => !m.1.any CodePoint.isLone && m.2.isEncodable := by
  induction members with
  | nil => rfl
  | cons m rest ih => rw [isEncodableMembers, ih, List.all_cons]

theorem sortKeys_arr (items : List PyJson) : (arr items).sortKeys = arr (items.map sortKeys) := by
  rw [sortKeys, sortKeysItems_eq_map]

theorem sortKeys_obj (members : List (PyStr × PyJson)) : (obj members).sortKeys =
    obj (sortOn Prod.fst (members.map fun m => (m.1, m.2.sortKeys))) := by
  rw [sortKeys, sortKeysMembers_eq_map]

theorem isEncodable_arr {items : List PyJson} :
    (arr items).isEncodable = true ↔ ∀ v ∈ items, v.isEncodable = true := by
  rw [isEncodable, isEncodableItems_eq_all, List.all_eq_true]

theorem isEncodable_obj {members : List (PyStr × PyJson)} : (obj members).isEncodable = true ↔
    ∀ m ∈ members, m.1.any CodePoint.isLone = false ∧ m.2.isEncodable = true := by
  rw [isEncodable, isEncodableMembers_eq_all, List.all_eq_true]
  simp only [Bool.and_eq_true, Bool.not_eq_true']

theorem isEncodable_sortKeys (v : PyJson) : v.sortKeys.isEncodable = v.isEncodable := by
  induction v using PyJson.induction with
  | null | bool | number | nonFinite | str => rfl
  | arr items ih =>
      rw [Bool.eq_iff_iff, sortKeys_arr, isEncodable_arr, isEncodable_arr, List.forall_mem_map]
      exact forall₂_congr fun v hv => by rw [ih v hv]
  | obj members ih =>
      rw [Bool.eq_iff_iff, sortKeys_obj, isEncodable_obj, isEncodable_obj]
      simp only [mem_sortOn, List.forall_mem_map]
      exact forall₂_congr fun m hm => by rw [ih m hm]

theorem isFinite_sortKeys (v : PyJson) : v.sortKeys.isFinite = v.isFinite := by
  induction v using PyJson.induction with
  | null | bool | number | nonFinite | str => rfl
  | arr items ih =>
      rw [Bool.eq_iff_iff, sortKeys_arr, isFinite, isFinite, isFiniteItems_eq_all,
        isFiniteItems_eq_all, List.all_eq_true, List.all_eq_true, List.forall_mem_map]
      exact forall₂_congr fun v hv => by rw [ih v hv]
  | obj members ih =>
      rw [Bool.eq_iff_iff, sortKeys_obj, isFinite, isFinite, isFiniteMembers_eq_all,
        isFiniteMembers_eq_all, List.all_eq_true, List.all_eq_true]
      simp only [mem_sortOn, List.forall_mem_map]
      exact forall₂_congr fun m hm => by rw [ih m hm]

theorem isFinite_of_isEncodable {v : PyJson} (h : v.isEncodable = true) : v.isFinite = true := by
  induction v using PyJson.induction with
  | null | bool | number | str => rfl
  | nonFinite f => cases h
  | arr items ih =>
      rw [isFinite, isFiniteItems_eq_all, List.all_eq_true]
      exact fun v hv => ih v hv (isEncodable_arr.mp h v hv)
  | obj members ih =>
      rw [isFinite, isFiniteMembers_eq_all, List.all_eq_true]
      exact fun m hm => ih m hm (isEncodable_obj.mp h m hm).2

/-- What is printed of a finite value has a lone surrogate where the value has one. -/
theorem any_isLone_dumps {v : PyJson} (h : v.isFinite = true) :
    v.dumps.any CodePoint.isLone = !v.isEncodable := by
  have hascii : ∀ {u : UInt16} {s : PyStr}, isSurrogate u = false →
      (CodePoint.unit u :: s).any CodePoint.isLone = s.any CodePoint.isLone := by
    intro u s hu
    rw [List.any_cons, CodePoint.isLone, hu, Bool.false_or]
  have hclose : ∀ {u : UInt16} {s : PyStr}, isSurrogate u = false →
      (s ++ [CodePoint.unit u]).any CodePoint.isLone = s.any CodePoint.isLone := by
    intro u s hu
    rw [List.any_append, hascii hu, List.any_nil, Bool.or_false]
  induction v using PyJson.induction with
  | null => decide
  | bool b => cases b <;> decide
  | number n =>
      rw [dumps, any_isLone_map_unit]
      exact List.any_eq_false.mpr fun u hu => by
        simp [isSurrogate_of_isNumeric (n.text.numeric u hu)]
  | nonFinite f => cases h
  | str s => rw [dumps, any_isLone_pyQuote, isEncodable, Bool.not_not]
  | arr items ih =>
      rw [isFinite, isFiniteItems_eq_all, List.all_eq_true] at h
      rw [dumps, hascii (by decide), hclose (by decide), any_isLone_pyJoinComma, dumpsItems_eq_map,
        List.any_map, isEncodable, isEncodableItems_eq_all, List.not_all_eq_any_not]
      exact any_congr_mem fun v hv => ih v hv (h v hv)
  | obj members ih =>
      rw [isFinite, isFiniteMembers_eq_all, List.all_eq_true] at h
      rw [dumps, hascii (by decide), hclose (by decide), any_isLone_pyJoinComma,
        dumpsMembers_eq_map, List.any_map, isEncodable, isEncodableMembers_eq_all,
        List.not_all_eq_any_not]
      refine any_congr_mem fun m hm => ?_
      rw [Function.comp_apply, List.any_append, any_isLone_pyQuote, hascii (by decide),
        ih m hm (h m hm), Bool.not_and, Bool.not_not]

/-! ### The same value for `JSON.stringify` -/

mutual

def toJson : PyJson → Json
  | .null => .null
  | .bool b => .bool b
  | .number n => .num n.text
  | .nonFinite _ => .null
  | .str s => .str (units s)
  | .arr items => .arr (toJsonItems items)
  | .obj members => .obj (toJsonMembers members)

def toJsonItems : List PyJson → List Json
  | [] => []
  | v :: rest => v.toJson :: toJsonItems rest

def toJsonMembers : List (PyStr × PyJson) → List (Text × Json)
  | [] => []
  | (k, v) :: rest => (units k, v.toJson) :: toJsonMembers rest

end

theorem toJsonItems_eq_map (items : List PyJson) : toJsonItems items = items.map toJson := by
  induction items with
  | nil => rfl
  | cons v rest ih => rw [toJsonItems, ih, List.map_cons]

theorem toJsonMembers_eq_map (members : List (PyStr × PyJson)) :
    toJsonMembers members = members.map fun m => (units m.1, m.2.toJson) := by
  induction members with
  | nil => rfl
  | cons m rest ih => rw [toJsonMembers, ih, List.map_cons]

theorem units_dumps {v : PyJson} (h : v.isEncodable = true) : units v.dumps = stringify v.toJson := by
  induction v using PyJson.induction with
  | null => decide
  | bool b => cases b <;> decide
  | number n => rw [dumps, units_map_unit, toJson, stringify]
  | nonFinite f => cases h
  | str s =>
      rw [isEncodable, Bool.not_eq_true'] at h
      rw [dumps, units_pyQuote h, toJson, stringify]
  | arr items ih =>
      rw [isEncodable_arr] at h
      have hitems : (items.map dumps).map units = (items.map toJson).map stringify := by
        rw [List.map_map, List.map_map]
        exact List.map_congr_left fun v hv => ih v hv (h v hv)
      rw [dumps, toJson, stringify, units_cons, units_append, units_pyJoinComma, dumpsItems_eq_map,
        hitems, toJsonItems_eq_map, stringifyItems_eq_map]
      rfl
  | obj members ih =>
      rw [isEncodable_obj] at h
      have hmembers : (members.map fun m => pyQuote m.1 ++ .unit 0x3A :: m.2.dumps).map units =
          ((members.map fun m => (units m.1, m.2.toJson)).map fun m =>
            (m.1, stringify m.2)).map memberText := by
        simp only [List.map_map]
        refine List.map_congr_left fun m hm => ?_
        simp only [Function.comp_apply, units_append, units_pyQuote (h m hm).1, units_cons,
          ih m hm (h m hm).2, memberText]
      rw [dumps, toJson, stringify, units_cons, units_append, units_pyJoinComma,
        dumpsMembers_eq_map, hmembers, toJsonMembers_eq_map, stringifyMembers_eq_map]
      rfl

theorem map_inj_mem {α β : Type} {f : α → β} {l l' : List α}
    (h : ∀ a ∈ l, ∀ b ∈ l', f a = f b → a = b) (hmap : l.map f = l'.map f) : l = l' := by
  induction l generalizing l' with
  | nil => exact (List.map_eq_nil_iff.mp hmap.symm).symm
  | cons a l ih =>
      cases l' with
      | nil => cases hmap
      | cons b l' =>
          rw [List.map_cons, List.map_cons, List.cons.injEq] at hmap
          rw [h a List.mem_cons_self b List.mem_cons_self hmap.1,
            ih (fun a ha b hb => h a (List.mem_cons_of_mem _ ha) b (List.mem_cons_of_mem _ hb)) hmap.2]

theorem toJson_inj {v w : PyJson} (hv : v.isEncodable = true) (hw : w.isEncodable = true)
    (h : v.toJson = w.toJson) : v = w := by
  induction v using PyJson.induction generalizing w with
  | null =>
      cases w with
      | null => rfl
      | nonFinite f => cases hw
      | _ => cases h
  | bool b =>
      cases w with
      | bool c =>
          cases h
          rfl
      | _ => cases h
  | number n =>
      cases w with
      | number m => rw [PyNumber.text_injective (Json.num.inj h)]
      | _ => cases h
  | nonFinite f => cases hv
  | str s =>
      cases w with
      | str t =>
          rw [isEncodable, Bool.not_eq_true'] at hv hw
          rw [units_inj hv hw (Json.str.inj h)]
      | _ => cases h
  | arr items ih =>
      cases w with
      | arr items' =>
          rw [isEncodable_arr] at hv hw
          have hmap := Json.arr.inj h
          rw [toJsonItems_eq_map, toJsonItems_eq_map] at hmap
          rw [map_inj_mem (fun a ha b hb => ih a ha (hv a ha) (hw b hb)) hmap]
      | _ => cases h
  | obj members ih =>
      cases w with
      | obj members' =>
          rw [isEncodable_obj] at hv hw
          have hmap := Json.obj.inj h
          rw [toJsonMembers_eq_map, toJsonMembers_eq_map] at hmap
          rw [map_inj_mem (fun a ha b hb heq => Prod.ext
            (units_inj (hv a ha).1 (hw b hb).1 (congrArg Prod.fst heq))
            (ih a ha (hv a ha).2 (hw b hb).2 (congrArg Prod.snd heq))) hmap]
      | _ => cases h

/-! ### Bytes -/

/-- The bytes of a value that has them. -/
theorem canonicalBytes_eq (v : PyJson) : v.canonicalBytes =
    if v.isEncodable then some (v.sortKeys.dumps.flatMap fun p => utf8Scalar p.scalar) else none := by
  unfold canonicalBytes canonicalJson
  cases hfinite : v.isFinite with
  | false =>
      have hnot : v.isEncodable = false := by
        by_contra hencodable
        have := isFinite_of_isEncodable (Bool.not_eq_false _ ▸ hencodable)
        rw [hfinite] at this
        cases this
      rw [hnot]
      rfl
  | true =>
      have hlone := any_isLone_dumps ((isFinite_sortKeys v).trans hfinite)
      rw [isEncodable_sortKeys] at hlone
      rw [if_pos rfl, Option.bind_some, encodeUtf8, hlone]
      cases v.isEncodable <;> rfl

theorem canonicalBytes_isSome (v : PyJson) : v.canonicalBytes.isSome = v.isEncodable := by
  rw [canonicalBytes_eq]
  cases v.isEncodable <;> rfl

theorem flatMap_utf8Scalar_inj {s t : PyStr} (hs : s.any CodePoint.isLone = false)
    (ht : t.any CodePoint.isLone = false)
    (h : (s.flatMap fun p => utf8Scalar p.scalar) = t.flatMap fun p => utf8Scalar p.scalar) :
    s = t := by
  have hreplace : ∀ {s : PyStr}, s.any CodePoint.isLone = false →
      s.flatMap CodePoint.replaceLone = units s := by
    intro s hs
    refine List.flatMap_congr fun p hp => ?_
    rw [CodePoint.replaceLone, if_neg (List.any_eq_false.mp hs p hp)]
  have hdecode := congrArg (utf8Decode none) h
  rw [utf8Decode_flatMap, utf8Decode_flatMap, hreplace hs, hreplace ht] at hdecode
  exact units_inj hs ht hdecode

/-- **The bytes bind the value**, up to the order of members. -/
theorem canonicalBytes_inj {v w : PyJson} (hv : v.isEncodable = true)
    (h : v.canonicalBytes = w.canonicalBytes) : v.sortKeys = w.sortKeys := by
  have hw : w.isEncodable = true := by
    rw [← canonicalBytes_isSome, ← h, canonicalBytes_isSome, hv]
  have hlone : ∀ {v : PyJson}, v.isEncodable = true →
      v.sortKeys.dumps.any CodePoint.isLone = false := by
    intro v hv
    rw [any_isLone_dumps (isFinite_of_isEncodable ((isEncodable_sortKeys v).trans hv)),
      isEncodable_sortKeys, hv, Bool.not_true]
  rw [canonicalBytes_eq, canonicalBytes_eq, if_pos hv, if_pos hw, Option.some.injEq] at h
  have hdumps := flatMap_utf8Scalar_inj (hlone hv) (hlone hw) h
  have hv' := (isEncodable_sortKeys v).trans hv
  have hw' := (isEncodable_sortKeys w).trans hw
  refine toJson_inj hv' hw' (stringify_injective ?_)
  rw [← units_dumps hv', hdumps, units_dumps hw']

theorem canonicalBytes_congr {v w : PyJson} (h : v.sortKeys = w.sortKeys) :
    v.canonicalBytes = w.canonicalBytes := by
  rw [canonicalBytes_eq, canonicalBytes_eq, ← isEncodable_sortKeys v, ← isEncodable_sortKeys w, h]

theorem canonicalBytes_eq_iff {v w : PyJson} : v.canonicalBytes = w.canonicalBytes ↔
    (v.isEncodable = false ∧ w.isEncodable = false) ∨
      (v.isEncodable = true ∧ v.sortKeys = w.sortKeys) := by
  constructor
  · intro h
    cases hv : v.isEncodable with
    | true => exact .inr ⟨rfl, canonicalBytes_inj hv h⟩
    | false => exact .inl ⟨rfl, by rw [← canonicalBytes_isSome, ← h, canonicalBytes_isSome, hv]⟩
  · rintro (⟨hv, hw⟩ | ⟨-, h⟩)
    · rw [canonicalBytes_eq, canonicalBytes_eq, hv, hw]
      rfl
    · exact canonicalBytes_congr h

/-! ### Members -/

theorem get?_orderedInsert {ν : Type} (m : PyStr × ν) (members : List (PyStr × ν)) (k : PyStr) :
    Dict.get? (members.orderedInsert (fun a b => a.1 ≤ b.1) m) k = Dict.get? (m :: members) k := by
  induction members with
  | nil => rfl
  | cons m' rest ih =>
      rw [List.orderedInsert_cons]
      by_cases hle : m.1 ≤ m'.1
      · rw [if_pos hle]
      · have hne : m'.1 ≠ m.1 := fun heq => hle heq.ge
        rw [if_neg hle, Dict.get?_cons, ih, Dict.get?_cons, Dict.get?_cons,
          Dict.get?_cons]
        by_cases hk : m'.1 = k
        · rw [if_pos hk, if_neg (fun heq => hne (hk.trans heq.symm)), if_pos hk]
        · rw [if_neg hk, if_neg hk]

theorem get?_sortOn {ν : Type} (members : List (PyStr × ν)) (k : PyStr) :
    Dict.get? (sortOn Prod.fst members) k = Dict.get? members k := by
  induction members with
  | nil => rfl
  | cons m rest ih =>
      change Dict.get? ((sortOn Prod.fst rest).orderedInsert _ m) k = _
      rw [get?_orderedInsert, Dict.get?_cons, Dict.get?_cons, ih]

theorem get?_map {ν μ : Type} (f : ν → μ) (members : List (PyStr × ν)) (k : PyStr) :
    Dict.get? (members.map fun m => (m.1, f m.2)) k = (Dict.get? members k).map f := by
  induction members with
  | nil => rfl
  | cons m rest ih =>
      rw [List.map_cons, Dict.get?_cons, Dict.get?_cons, ih]
      by_cases hk : m.1 = k
      · rw [if_pos hk, if_pos hk, Option.map_some]
      · rw [if_neg hk, if_neg hk]

/-- Sorting keys keeps what is under a key. -/
theorem field_sortKeys (v : PyJson) (key : String) :
    v.sortKeys.field key = (v.field key).map sortKeys := by
  cases v with
  | obj members => rw [sortKeys_obj, field, field, get?_sortOn, get?_map]
  | arr items => rfl
  | _ => rfl

end PyJson

end ContextLayer
