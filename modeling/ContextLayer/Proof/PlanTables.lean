import ContextLayer.PlanTables
import ContextLayer.Proof.PyJson
import ContextLayer.Lib.Pointwise

/-!
# What a delivered table keeps

A conversion keeps a cell of the kind its column takes, and of any other it keeps nothing: a fraction is cut, a text
is true, a text of no number is no JSON. A row object loses a cell where two columns have one name.
-/

namespace ContextLayer.PushTables

open Text Frontmatter Pointwise Encoding

variable {unicode : Unicode} {decimals : Decimals} {lower : PyStr → PyStr} {limits : PushLimits}

/-! ### Integers beyond the safe range -/

theorem natural_ofNat (n : Nat) : natural decimals ((JsNumber.ofNat n).text.map .unit) = some n := by
  have hvalue : ∀ u ∈ (JsNumber.ofNat n).text,
      (decimals.value ∘ CodePoint.unit) u = some (Fin.ofNat 10 (u.toNat - 0x30)) := by
    intro u hu
    have hdigit := digit_ofNat hu
    have hascii : u < 0x80 := UInt16.lt_iff_toNat_lt.mpr (lt_of_le_of_lt hdigit.2 (by decide))
    have hrange : 0x30 ≤ u ∧ u ≤ 0x39 :=
      ⟨UInt16.le_iff_toNat_le.mpr hdigit.1, UInt16.le_iff_toNat_le.mpr hdigit.2⟩
    rw [Function.comp_apply, decimals.value_ascii u hascii, if_pos hrange]
  rw [natural, List.mapM_map, mapM_eq_some_map hvalue, Option.map_some, ← List.map_reverse, List.map_map]
  conv_rhs => rw [← digitsValue_ofNat n, digitsValue]
  congr 2
  refine List.map_congr_left fun u hu => Nat.mod_eq_of_lt ?_
  have hdigit := digit_ofNat (List.mem_reverse.mp hu)
  omega

theorem ungroup_eq_self {s : PyStr} (h : CodePoint.unit 0x5F ∉ s) (afterDigit : Bool) :
    ungroup decimals afterDigit s = s := by
  induction s generalizing afterDigit with
  | nil => rfl
  | cons p rest ih =>
      rw [List.mem_cons, not_or] at h
      rw [ungroup, if_neg fun hp => h.1 hp.1.symm, ih h.2]

theorem numeral_eq_self {s : PyStr}
    (h : ∀ p ∈ s, p = .unit 0x2D ∨ ∃ u : UInt16, p = .unit u ∧ 0x30 ≤ u.toNat ∧ u.toNat ≤ 0x39) :
    numeral decimals s = s := by
  have hdigits : ∀ d < 10, Sdk.isSpace (.unit (UInt16.ofNat (0x30 + d))) = false := by decide
  have hspace : ∀ p ∈ s, Sdk.isSpace p = false := by
    intro p hp
    obtain rfl | ⟨u, rfl, hlow, hhigh⟩ := h p hp
    · decide
    · have hu : UInt16.ofNat (0x30 + (u.toNat - 0x30)) = u := by
        rw [Nat.add_sub_cancel' hlow, UInt16.ofNat_toNat]
      exact hu ▸ hdigits (u.toNat - 0x30) (by omega)
  have hstrip : Partition.strip Sdk.isSpace s = s := by
    have hends := Partition.strip_append (p := Sdk.isSpace) (a := []) (b := []) (c := s) (by simp) (by simp)
      (fun p hp => hspace p (List.mem_of_mem_head? hp)) (fun p hp => hspace p (List.mem_of_mem_getLast? hp))
    rwa [List.nil_append, List.append_nil] at hends
  rw [numeral, hstrip]
  refine ungroup_eq_self (fun hmem => ?_) false
  obtain heq | ⟨u, heq, hlow, hhigh⟩ := h _ hmem
  · exact absurd heq (by decide)
  · cases heq
    exact absurd hhigh (by decide)

/-- **An integer of any length is read as it was written.** -/
theorem intOf_intText (n : Int) (hlength : (JsNumber.ofNat n.natAbs).text.length ≤ maxStrDigits) :
    intOf decimals (Frontmatter.intText n) = some n := by
  have hdigits : ∀ (m : Nat), ∀ p ∈ (JsNumber.ofNat m).text.map CodePoint.unit,
      ∃ u : UInt16, p = .unit u ∧ 0x30 ≤ u.toNat ∧ u.toNat ≤ 0x39 := by
    intro m p hp
    obtain ⟨u, hu, rfl⟩ := List.mem_map.mp hp
    exact ⟨u, rfl, digit_ofNat hu⟩
  have hne : ∀ m : Nat, (JsNumber.ofNat m).text.map CodePoint.unit ≠ [] := fun m =>
    mt List.map_eq_nil_iff.mp (JsNumber.ofNat m).nonempty
  cases n with
  | negSucc m =>
      have htext : Frontmatter.intText (Int.negSucc m) =
          .unit 0x2D :: (JsNumber.ofNat (m + 1)).text.map CodePoint.unit := rfl
      have hlong : ¬ ((JsNumber.ofNat (m + 1)).text.map CodePoint.unit = [] ∨
          maxStrDigits < ((JsNumber.ofNat (m + 1)).text.map CodePoint.unit).length) := by
        rw [not_or, List.length_map, not_lt]
        exact ⟨hne _, hlength⟩
      rw [intOf, numeral_eq_self (htext ▸ List.forall_mem_cons.mpr ⟨.inl rfl, fun p hp => .inr (hdigits _ p hp)⟩),
        htext, signed, if_pos rfl]
      dsimp only
      rw [if_neg hlong, natural_ofNat]
      rfl
  | ofNat m =>
      have htext : Frontmatter.intText (Int.ofNat m) = (JsNumber.ofNat m).text.map CodePoint.unit := rfl
      have hlong : ¬ ((JsNumber.ofNat m).text.map CodePoint.unit = [] ∨
          maxStrDigits < ((JsNumber.ofNat m).text.map CodePoint.unit).length) := by
        rw [not_or, List.length_map, not_lt]
        exact ⟨hne _, hlength⟩
      have hsigned : signed ((JsNumber.ofNat m).text.map CodePoint.unit) =
          (false, (JsNumber.ofNat m).text.map CodePoint.unit) := by
        cases hdigit : (JsNumber.ofNat m).text.map CodePoint.unit with
        | nil => exact absurd hdigit (hne m)
        | cons p rest =>
            obtain ⟨u, rfl, hlow, hhigh⟩ := hdigits m p (hdigit ▸ List.mem_cons_self)
            have hminus : CodePoint.unit u ≠ .unit 0x2D := fun heq => by
              cases heq
              exact absurd hlow (by decide)
            have hplus : CodePoint.unit u ≠ .unit 0x2B := fun heq => by
              cases heq
              exact absurd hlow (by decide)
            rw [signed, if_neg hminus, if_neg hplus]
      rw [intOf, htext, numeral_eq_self fun p hp => .inr (hdigits m p hp), hsigned]
      dsimp only
      rw [if_neg hlong, natural_ofNat]
      rfl

/-! ### One cell -/

theorem convertCell_of_encodeCell {type : PbiType} {value : PyJson} {e : Encoded}
    (h : encodeCell unicode decimals limits type value = some e) :
    (value = .null ∧ e = .null) ∨ (value ≠ .null ∧ convertCell unicode decimals type value = some e) := by
  cases value with
  | null => exact .inl ⟨rfl, (Option.some.inj h).symm⟩
  | bool | number | nonFinite | str | arr | obj => exact .inr ⟨nofun, (Option.filter_eq_some_iff.mp h).1⟩

theorem holds_int_iff {value : PyJson} {n : Int} (hvalue : value ≠ .null) (h : intCell decimals value = some n) :
    Holds unicode decimals .int64 value (.int n) ↔ Suits decimals .int64 value := by
  cases value with
  | null => exact absurd rfl hvalue
  | bool b => exact Iff.rfl
  | number k =>
      simp only [intCell, Option.some.injEq] at h
      simp only [Holds, Suits]
      refine ⟨fun hk => ⟨n, hk⟩, ?_⟩
      rintro ⟨m, hm⟩
      rw [← h, hm]
      by_cases hpos : (0 : ℚ) ≤ (m : ℚ) <;> simp [hpos]
  | str s =>
      simp only [Holds, Suits, iff_true]
      exact h
  | nonFinite f => cases h
  | arr items => cases h
  | obj members => cases h

theorem holds_double_iff {value : PyJson} {e : Encoded} (hvalue : value ≠ .null)
    (h : floatCell decimals value = some e) :
    (Holds unicode decimals .double value e ∧ e.isStrict = true) ↔ Suits decimals .double value := by
  cases value with
  | null => exact absurd rfl hvalue
  | bool b =>
      obtain rfl := Option.some.inj h
      simp [Holds, Suits]
  | number k =>
      obtain ⟨x, hx, rfl⟩ := Option.map_eq_some_iff.mp h
      simp only [Holds, Suits, iff_true]
      exact ⟨hx, rfl⟩
  | nonFinite f =>
      obtain rfl := Option.some.inj h
      simp [Suits, Encoded.isStrict]
  | str s =>
      obtain ⟨read, hread, rfl⟩ := Option.map_eq_some_iff.mp h
      cases read with
      | nonFinite f => simp [Suits, Encoded.isStrict, hread]
      | number q =>
          by_cases hq : |q| < doubleLimit
          · simp only [if_pos hq, Holds, Suits, hread]
            exact iff_of_true ⟨⟨q, rfl, rfl⟩, rfl⟩ ⟨q, rfl, hq⟩
          · simp only [if_neg hq, Suits, hread]
            refine iff_of_false (fun hholds => by cases hholds.2) ?_
            rintro ⟨q', heq, hlt⟩
            cases heq
            exact hq hlt
  | arr items => cases h
  | obj members => cases h

theorem holds_boolean_iff {value : PyJson} (hvalue : value ≠ .null) :
    Holds unicode decimals .boolean value (.bool value.truthy) ↔ Suits decimals .boolean value := by
  cases value with
  | null => exact absurd rfl hvalue
  | bool b => simp [Holds, Suits, PyJson.truthy]
  | number k => exact Iff.rfl
  | nonFinite f => exact Iff.rfl
  | str s => exact Iff.rfl
  | arr items => exact Iff.rfl
  | obj members => exact Iff.rfl

/-- A converted cell is kept exactly where it suits its column. -/
theorem holds_iff {type : PbiType} {value : PyJson} {e : Encoded}
    (h : encodeCell unicode decimals limits type value = some e) :
    (Holds unicode decimals type value e ∧ e.isStrict = true) ↔ Suits decimals type value := by
  rcases convertCell_of_encodeCell h with ⟨rfl, rfl⟩ | ⟨hvalue, hconvert⟩
  · simp [Holds, Suits, Encoded.isStrict]
  · cases type with
    | int64 =>
        obtain ⟨n, hn, rfl⟩ := Option.map_eq_some_iff.mp hconvert
        exact (and_iff_left rfl).trans (holds_int_iff hvalue hn)
    | double => exact holds_double_iff hvalue hconvert
    | boolean =>
        obtain rfl := Option.some.inj hconvert
        exact (and_iff_left rfl).trans (holds_boolean_iff hvalue)
    | dateTime =>
        obtain rfl := Option.some.inj hconvert
        cases value <;> simp_all [Holds, Suits, Encoded.isStrict]
    | string =>
        obtain rfl := Option.some.inj hconvert
        cases value <;> simp_all [Holds, Suits, Encoded.isStrict]

/-- The integers of a source reach an integer column as they are. -/
theorem encodeCell_int {n : Int} {value : PyJson} (h : Scalar.jsonValue (.int n) = some value) :
    encodeCell unicode decimals limits .int64 value = some (.int n) := by
  rw [Scalar.jsonValue] at h
  split at h
  · obtain rfl := Option.some.inj h
    have hvalue : (PyNumber.int n).value = n := rfl
    rw [encodeCell, convertCell, intCell, hvalue]
    · by_cases hpos : (0 : ℚ) ≤ n <;> simp [hpos]
    · exact nofun
  · obtain ⟨s, hs, rfl⟩ := Option.map_eq_some_iff.mp h
    rw [strInt] at hs
    split at hs
    · obtain rfl := Option.some.inj hs
      rename_i hshort
      rw [PyText.natText, List.length_map] at hshort
      rw [encodeCell, convertCell, intCell, intOf_intText n hshort]
      · rfl
      · exact nofun
    · cases hs

/-- What is not finite in a source is no JSON in a column of doubles. -/
theorem not_suits_nonFinite (f : NonFinite) : ¬ Suits decimals .double (.str (PyText.nonFiniteRepr f)) := by
  have hread : floatText decimals (PyText.nonFiniteRepr f) = some (.nonFinite f) := by
    cases f <;> rfl
  rintro ⟨q, hq, -⟩
  rw [hread] at hq
  cases hq

/-! ### One row -/

theorem rowKept_iff {columns : List PlanColumn} {row : PyJson} {encoded : List (PyStr × Encoded)}
    (h : encodeRow unicode decimals limits columns row = some encoded) :
    RowKept unicode decimals columns row encoded ↔ (columns.map PlanColumn.name).Nodup ∧
      ∀ cells, row = .arr cells → ∀ e ∈ columns.zip cells, Suits decimals e.1.dataType e.2 := by
  cases row with
  | null | bool | number | nonFinite | str | obj => cases h
  | arr cells =>
      rw [encodeRow] at h
      by_cases hlength : cells.length ≠ columns.length
      · rw [if_pos hlength] at h
        cases h
      · rw [if_neg hlength] at h
        obtain ⟨members, hmembers, rfl⟩ := Option.map_eq_some_iff.mp h
        have hforall := forall₂_of_mapM hmembers
        have hnames : members.map Prod.fst = columns.map PlanColumn.name := by
          have hzip := map_eq_of_forall₂ (f := fun e => e.1.name) (g := Prod.fst) hforall fun e _ m hm => by
            obtain ⟨encoded, -, rfl⟩ := Option.map_eq_some_iff.mp hm
            rfl
          have hfst : (columns.zip cells).map Prod.fst = columns := List.map_fst_zip (by omega)
          rw [← hzip]
          conv_rhs => rw [← hfst, List.map_map]
          rfl
        have hcells : ∀ (e : PlanColumn × PyJson) m, m ∈ members → ((encodeCell unicode decimals limits e.1.dataType e.2).map fun encoded =>
            (e.1.name, encoded)) = some m → ((Holds unicode decimals e.1.dataType e.2 m.2 ∧ m.2.isStrict = true) ↔
              Suits decimals e.1.dataType e.2) := by
          intro e m _ hm
          obtain ⟨encoded, hencoded, rfl⟩ := Option.map_eq_some_iff.mp hm
          exact holds_iff hencoded
        constructor
        · rintro ⟨cells', heq, hkeys, hholds⟩
          cases heq
          have hnodup : (columns.map PlanColumn.name).Nodup := hkeys ▸ Dict.nodup_ofList members
          rw [Dict.ofList_eq_self (hnames ▸ hnodup)] at hholds
          refine ⟨hnodup, fun cells' heq => ?_⟩
          cases heq
          exact (forall₂_iff_forall hforall hcells).mp hholds
        · rintro ⟨hnodup, hsuits⟩
          rw [Dict.ofList_eq_self (hnames ▸ hnodup)]
          exact ⟨cells, rfl, hnames, (forall₂_iff_forall hforall hcells).mpr (hsuits cells rfl)⟩

/-! ### One table -/

theorem planColumn_eq {column : PyJson} {described : ColumnMeta} (h : planColumn lower column = some described) :
    described.name = columnName column ∧ described.type = columnType lower column := by
  cases column with
  | null | bool | number | nonFinite | str | arr => cases h
  | obj members =>
      obtain ⟨name, hname, h⟩ := Option.bind_eq_some_iff.mp h
      rw [nonEmptyName, Option.filter_eq_some_iff] at hname
      rw [← Option.some.inj h, columnName, hname.1]
      exact ⟨rfl, rfl⟩

theorem kept_iff {qname : PyStr} {result : Members} {plan : TablePlan}
    (h : planTable unicode decimals lower limits qname result = some plan) :
    plan.name = qname ∧ (Kept unicode decimals result plan ↔ Deliverable decimals lower result) := by
  obtain ⟨⟨columns, rows⟩, htable, h⟩ := Option.bind_eq_some_iff.mp h
  dsimp only at h
  split at h
  · cases h
  obtain ⟨described, hdescribed, h⟩ := Option.bind_eq_some_iff.mp h
  obtain ⟨encoded, hencoded, h⟩ := Option.bind_eq_some_iff.mp h
  have hcolumns : columnsOf result = columns := by rw [columnsOf, htable]; rfl
  have hrows : rowsOf result = rows := by rw [rowsOf, htable]; rfl
  have hplanned : columns.map (fun column => PlanColumn.mk (columnName column) (columnType lower column)) =
      described.map fun column => PlanColumn.mk column.name column.type := by
    refine map_eq_of_forall₂ (forall₂_of_mapM hdescribed) fun column _ d hd => ?_
    rw [(planColumn_eq hd).1, (planColumn_eq hd).2]
  have hnames : (described.map fun column => PlanColumn.mk column.name column.type).map PlanColumn.name =
      columns.map columnName := by
    rw [← hplanned, List.map_map]
    rfl
  have hsuits : ∀ cells : List PyJson,
      (∀ e ∈ (described.map fun column => PlanColumn.mk column.name column.type).zip cells,
        Suits decimals e.1.dataType e.2) ↔ ∀ e ∈ columns.zip cells, Suits decimals (columnType lower e.1) e.2 := by
    intro cells
    rw [← hplanned, List.zip_map_left]
    exact List.forall_mem_map
  have hkept : List.Forall₂ (RowKept unicode decimals (described.map fun column =>
      PlanColumn.mk column.name column.type)) rows encoded ↔ ∀ row ∈ rows,
        ((described.map fun column => PlanColumn.mk column.name column.type).map PlanColumn.name).Nodup ∧
          ∀ cells, row = .arr cells → ∀ e ∈ (described.map fun column =>
            PlanColumn.mk column.name column.type).zip cells, Suits decimals e.1.dataType e.2 :=
    forall₂_iff_forall (forall₂_of_mapM hencoded) fun row e _ he => rowKept_iff he
  rw [← Option.some.inj h]
  refine ⟨rfl, ?_⟩
  constructor
  · rintro ⟨-, hrowsKept⟩
    rw [hrows] at hrowsKept
    have hall := hkept.mp hrowsKept
    refine ⟨fun hne => ?_, fun row hrow cells hcells => ?_⟩
    · rw [hrows] at hne
      obtain ⟨row, hrow⟩ := List.exists_mem_of_ne_nil _ hne
      rw [hcolumns, ← hnames]
      exact (hall row hrow).1
    · rw [hrows] at hrow
      rw [hcolumns]
      exact (hsuits cells).mp ((hall row hrow).2 cells hcells)
  · rintro ⟨hnodup, hcells⟩
    rw [hrows, hcolumns] at hnodup hcells
    refine ⟨?_, ?_⟩
    · rw [hcolumns]
      exact hnames
    · rw [hrows]
      refine hkept.mpr fun row hrow => ⟨?_, fun cells heq => ?_⟩
      · rw [hnames]
        exact hnodup (List.ne_nil_of_mem hrow)
      · exact (hsuits cells).mpr (hcells row hrow cells heq)

/-! ### A delivery -/

/-- A result with one row of two integers. -/
def twoColumns (first second : String) : Members :=
  [(py "orders", .obj [(py "columns", .arr [.obj [(py "name", .str (py first)), (py "type", .str (py "int8"))],
      .obj [(py "name", .str (py second)), (py "type", .str (py "int8"))]]),
    (py "rows", .arr [.arr [.number (.int 1), .number (.int 2)]])])]

def ordersQuery : Members := [(py "queries", .arr [.obj [(py "name", .str (py "orders"))]])]

theorem planned_twoColumns :
    (planTables asciiOnly asciiDecimals id pushLimits ordersQuery (twoColumns "id" "total")).isSome = true ∧
      (planTables asciiOnly asciiDecimals id pushLimits ordersQuery (twoColumns "id" "id")).isSome = true := by
  decide +kernel

example : (queriesOf ordersQuery).length = 1 := by decide +kernel

/-- Of two columns with one name a row object has one. -/
theorem keys_twin : (planTables asciiOnly asciiDecimals id pushLimits ordersQuery (twoColumns "id" "id")).map
    (fun plans => plans.map fun plan =>
      (plan.columns.map PlanColumn.name, plan.rows.map fun row => row.map Prod.fst)) =
    some [([py "id", py "id"], [[py "id"]])] := by
  decide +kernel

end ContextLayer.PushTables
