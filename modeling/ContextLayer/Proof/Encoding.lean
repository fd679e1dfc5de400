import Mathlib.Data.Nat.Digits.Lemmas
import ContextLayer.Encoding
import ContextLayer.Proof.Acceptance
import ContextLayer.Lib.Pointwise

/-!
# What the encoding of a result keeps

Whatever `json_value` answers is strict JSON that is encoded as itself: the containers of the answer hold answers, and
its keys are texts. What can be lost is an entry, where two keys of a dictionary have one text, and the whole value,
where an integer has more digits than `str` prints.
-/

namespace ContextLayer.Encoding

open Text Pointwise PyJson

/-- To prove something of every value, prove it of a container from what the container holds. -/
theorem SourceValue.induction {P : SourceValue → Prop} (scalar : ∀ v, P (.scalar v))
    (dict : ∀ members, (∀ m ∈ members, P m.2) → P (.dict members))
    (list : ∀ items, (∀ v ∈ items, P v) → P (.list items))
    (tuple : ∀ items, (∀ v ∈ items, P v) → P (.tuple items)) (v : SourceValue) : P v :=
  SourceValue.rec (motive_1 := P) (motive_2 := fun members => ∀ m ∈ members, P m.2)
    (motive_3 := fun items => ∀ v ∈ items, P v) (motive_4 := fun m => P m.2) scalar dict list tuple (by simp)
    (by simp_all) (by simp) (by simp_all) (fun _ _ h => h) v

/-! ### Containers by their elements -/

theorem jsonItems_eq_mapM (items : List SourceValue) : jsonItems items = items.mapM jsonValue := by
  induction items with
  | nil => rfl
  | cons v rest ih => rw [jsonItems, List.mapM_cons, ih]

theorem jsonItems_isSome (items : List SourceValue) :
    (∃ values, jsonItems items = some values) ↔ ∀ v ∈ items, ∃ value, jsonValue v = some value := by
  induction items with
  | nil => simp [jsonItems]
  | cons v rest ih =>
      rw [List.forall_mem_cons, ← ih]
      simp [jsonItems, Option.bind_eq_some_iff]

/-- The entry that a member becomes. -/
def IsEntry (m : Scalar × SourceValue) (e : PyStr × PyJson) : Prop :=
  m.1.str = some e.1 ∧ jsonValue m.2 = some e.2

theorem forall₂_of_jsonMembers {members : List (Scalar × SourceValue)} {entries : List (PyStr × PyJson)}
    (h : jsonMembers members = some entries) : List.Forall₂ IsEntry members entries := by
  induction members generalizing entries with
  | nil =>
      cases h
      exact .nil
  | cons m rest ih =>
      simp only [jsonMembers, Option.bind_eq_bind, Option.bind_eq_some_iff] at h
      obtain ⟨key, hkey, value, hvalue, more, hmore, h⟩ := h
      cases h
      exact .cons ⟨hkey, hvalue⟩ (ih hmore)

theorem exists_jsonMembers {members : List (Scalar × SourceValue)}
    (h : ∀ m ∈ members, (∃ key, m.1.str = some key) ∧ ∃ value, jsonValue m.2 = some value) :
    ∃ entries, jsonMembers members = some entries := by
  induction members with
  | nil => exact ⟨[], rfl⟩
  | cons m rest ih =>
      rw [List.forall_mem_cons] at h
      obtain ⟨⟨⟨key, hkey⟩, value, hvalue⟩, hrest⟩ := h
      obtain ⟨entries, hentries⟩ := ih hrest
      exact ⟨(key, value) :: entries, by simp [jsonMembers, hkey, hvalue, hentries]⟩

theorem isStrict_arr {items : List PyJson} : IsStrict (.arr items) ↔ ∀ v ∈ items, IsStrict v := by
  rw [IsStrict]
  induction items with
  | nil => simp [AreStrict]
  | cons v rest ih => rw [AreStrict, ih, List.forall_mem_cons]

theorem isStrict_obj {members : List (PyStr × PyJson)} :
    IsStrict (.obj members) ↔ ∀ m ∈ members, IsStrict m.2 := by
  rw [IsStrict]
  induction members with
  | nil => simp [StrictMembers]
  | cons m rest ih => rw [StrictMembers, ih, List.forall_mem_cons]

theorem ofJsonItems_eq_map (items : List PyJson) : ofJsonItems items = items.map ofJson := by
  induction items with
  | nil => rfl
  | cons v rest ih => rw [ofJsonItems, ih, List.map_cons]

theorem ofJsonMembers_eq_map (members : List (PyStr × PyJson)) :
    ofJsonMembers members = members.map fun m => (.text m.1, ofJson m.2) := by
  induction members with
  | nil => rfl
  | cons m rest ih => rw [ofJsonMembers, ih, List.map_cons]

theorem keepsItems_iff {items : List SourceValue} {values : List PyJson} :
    KeepsItems items values ↔ List.Forall₂ KeepsCounts items values := by
  induction items generalizing values with
  | nil => cases values <;> simp [KeepsItems]
  | cons v rest ih =>
      cases values with
      | nil => simp [KeepsItems]
      | cons value values => rw [KeepsItems, ih, List.forall₂_cons]

theorem keepsEntries_iff {members : List (Scalar × SourceValue)} {encoded : List (PyStr × PyJson)} :
    KeepsEntries members encoded ↔ ∀ m ∈ members, ∃ key value,
      m.1.str = some key ∧ Dict.get? encoded key = some value ∧ KeepsCounts m.2 value := by
  induction members with
  | nil => simp [KeepsEntries]
  | cons m rest ih => rw [KeepsEntries, ih, List.forall_mem_cons]

theorem areTellable_iff {items : List SourceValue} : AreTellable items ↔ ∀ v ∈ items, IsTellable v := by
  induction items with
  | nil => simp [AreTellable]
  | cons v rest ih => rw [AreTellable, ih, List.forall_mem_cons]

theorem tellableMembers_iff {members : List (Scalar × SourceValue)} :
    TellableMembers members ↔ ∀ m ∈ members, m.1.IsShort ∧ IsTellable m.2 := by
  induction members with
  | nil => simp [TellableMembers]
  | cons m rest ih => rw [TellableMembers, ih, List.forall_mem_cons, and_assoc]

/-! ### Scalars -/

theorem Scalar.str_isSome {v : Scalar} : (∃ s, v.str = some s) ↔ v.IsShort := by
  cases v with
  | int n => simp [Scalar.str, strInt, IsShort]
  | null | text | bool | float | nonFinite | decimal | special | datetime | date | time | uuid | bytes | other =>
      simp [Scalar.str, IsShort]

theorem length_natText_le_iff {n k : Nat} (hk : 0 < k) : (PyText.natText n).length ≤ k ↔ n < 10 ^ k := by
  have htext : (JsNumber.ofNat n).text =
      if n = 0 then [0x30] else (Nat.digits 10 n).reverse.map fun d => UInt16.ofNat (0x30 + d) := rfl
  rw [PyText.natText, List.length_map, htext]
  by_cases hzero : n = 0
  · rw [if_pos hzero, hzero]
    exact iff_of_true hk (Nat.pow_pos (by decide))
  · rw [if_neg hzero, List.length_map, List.length_reverse, Nat.digits_length_le_iff (by decide)]

theorem isShort_int_iff {n : Int} : (Scalar.int n).IsShort ↔ n.natAbs < 10 ^ maxStrDigits :=
  length_natText_le_iff (by decide)

/-- An integer that JSON holds is short. -/
theorem isShort_of_safe {n : Int} (h : |n| ≤ JSON_SAFE_INT_MAX) : (Scalar.int n).IsShort := by
  have hlt : n.natAbs < 10 ^ 16 := by
    have habs : |n| = (n.natAbs : Int) := Int.abs_eq_natAbs n
    rw [JSON_SAFE_INT_MAX, habs] at h
    omega
  exact isShort_int_iff.mpr (hlt.trans_le (Nat.pow_le_pow_right (by decide) (by decide)))

theorem Scalar.jsonValue_isSome {v : Scalar} : (∃ j, v.jsonValue = some j) ↔ v.IsShort := by
  cases v with
  | int n =>
      rw [Scalar.jsonValue]
      split
      · exact iff_of_true ⟨_, rfl⟩ (isShort_of_safe ‹_›)
      · simp [strInt, IsShort]
  | null | text | bool | float | nonFinite | decimal | special | datetime | date | time | uuid | bytes | other =>
      simp [Scalar.jsonValue, IsShort]

/-- What is made of a scalar is none of JSON's containers, and strict. -/
theorem Scalar.of_jsonValue {v : Scalar} {j : PyJson} (h : v.jsonValue = some j) :
    IsStrict j ∧ j.Distinct ∧ KeepsCounts (.scalar v) j := by
  cases v with
  | int n =>
      rw [Scalar.jsonValue] at h
      split at h
      · obtain rfl := Option.some.inj h
        exact ⟨‹_›, trivial, trivial⟩
      · obtain ⟨s, -, rfl⟩ := Option.map_eq_some_iff.mp h
        exact ⟨trivial, trivial, trivial⟩
  | null | text | bool | float | nonFinite | decimal | special | datetime | date | time | uuid | bytes | other =>
      obtain rfl := Option.some.inj h
      exact ⟨trivial, trivial, trivial⟩

/-! ### What is answered -/

theorem strict_of_jsonValue {v : SourceValue} {j : PyJson} (h : jsonValue v = some j) :
    IsStrict j ∧ j.Distinct := by
  induction v using SourceValue.induction generalizing j with
  | scalar v => exact ⟨(Scalar.of_jsonValue h).1, (Scalar.of_jsonValue h).2.1⟩
  | dict members ih =>
      obtain ⟨entries, hentries, rfl⟩ := Option.map_eq_some_iff.mp h
      have hall : ∀ e ∈ Dict.ofList entries, IsStrict e.2 ∧ e.2.Distinct := by
        intro e he
        obtain ⟨m, hm, -, hvalue⟩ := exists_of_mem_forall₂ (forall₂_of_jsonMembers hentries) (Dict.mem_of_mem_ofList he)
        exact ih m hm hvalue
      exact ⟨isStrict_obj.mpr fun e he => (hall e he).1,
        distinct_obj.mpr ⟨Dict.nodup_ofList entries, fun e he => (hall e he).2⟩⟩
  | list items ih | tuple items ih =>
      obtain ⟨values, hvalues, rfl⟩ := Option.map_eq_some_iff.mp h
      have hall : ∀ value ∈ values, IsStrict value ∧ value.Distinct := by
        intro value hmem
        rw [jsonItems_eq_mapM] at hvalues
        obtain ⟨v, hv, hvalue⟩ := exists_of_mem_forall₂ (forall₂_of_mapM hvalues) hmem
        exact ih v hv hvalue
      exact ⟨isStrict_arr.mpr fun value hmem => (hall value hmem).1,
        distinct_arr.mpr fun value hmem => (hall value hmem).2⟩

/-- Strict JSON is encoded as itself. -/
theorem jsonValue_ofJson {j : PyJson} (hstrict : IsStrict j) (hdistinct : j.Distinct) :
    jsonValue (ofJson j) = some j := by
  induction j using PyJson.induction with
  | null | bool | str => rfl
  | number n =>
      cases n with
      | int n => exact if_pos hstrict
      | float f => rfl
  | nonFinite f => exact absurd hstrict id
  | arr items ih =>
      rw [isStrict_arr] at hstrict
      rw [distinct_arr] at hdistinct
      have hitems : (items.map ofJson).mapM jsonValue = some items := by
        rw [List.mapM_map]
        exact (mapM_eq_some_map fun v hv => ih v hv (hstrict v hv) (hdistinct v hv)).trans (by rw [List.map_id'])
      rw [ofJson, jsonValue, jsonItems_eq_mapM, ofJsonItems_eq_map, hitems]
      rfl
  | obj members ih =>
      rw [isStrict_obj] at hstrict
      rw [distinct_obj] at hdistinct
      have hmembers : ∀ ms : List (PyStr × PyJson), (∀ m ∈ ms, jsonValue (ofJson m.2) = some m.2) →
          jsonMembers (ms.map fun m => (.text m.1, ofJson m.2)) = some ms := by
        intro ms hms
        induction ms with
        | nil => rfl
        | cons m rest hrest =>
            rw [List.forall_mem_cons] at hms
            simp [jsonMembers, Scalar.str, hms.1, hrest hms.2]
      rw [ofJson, jsonValue, ofJsonMembers_eq_map,
        hmembers members fun m hm => ih m hm (hstrict m hm) (hdistinct.2 m hm), Option.map_some,
        Dict.ofList_eq_self hdistinct.1]

/-- What an executor has encoded passes the boundary unchanged. -/
theorem jsonRow_again {row : List SourceValue} {encoded : List PyJson} (h : jsonRow row = some encoded) :
    jsonRow (encoded.map ofJson) = some encoded := by
  obtain ⟨hstrict, hdistinct⟩ := strict_of_jsonValue (v := .list row) (by rw [jsonValue, ← jsonRow, h, Option.map_some])
  have hagain := jsonValue_ofJson hstrict hdistinct
  rw [ofJson, ofJsonItems_eq_map, jsonValue] at hagain
  obtain ⟨encoded', hencoded, heq⟩ := Option.map_eq_some_iff.mp hagain
  cases heq
  exact hencoded

/-! ### What is kept -/

theorem map_str_eq {members : List (Scalar × SourceValue)} {entries : List (PyStr × PyJson)}
    (h : List.Forall₂ IsEntry members entries) :
    (members.map fun m => m.1.str) = (entries.map Prod.fst).map some := by
  rw [List.map_map]
  exact map_eq_of_forall₂ h fun m _ e he => he.1

theorem isTellable_of_keeps {v : SourceValue} {j : PyJson} (h : jsonValue v = some j) (hkeeps : KeepsCounts v j) :
    IsTellable v := by
  induction v using SourceValue.induction generalizing j with
  | scalar v => exact Scalar.jsonValue_isSome.mp ⟨j, h⟩
  | dict members ih =>
      obtain ⟨entries, hentries, rfl⟩ := Option.map_eq_some_iff.mp h
      have hforall := forall₂_of_jsonMembers hentries
      rw [KeepsCounts, keepsEntries_iff, hforall.length_eq] at hkeeps
      have hnodup := Dict.nodup_of_length_ofList hkeeps.1
      rw [IsTellable, tellableMembers_iff, map_str_eq hforall]
      refine ⟨hnodup.map (Option.some_injective _), fun m hm => ?_⟩
      obtain ⟨key, value, hkey, hget, hvalue⟩ := hkeeps.2 m hm
      obtain ⟨e, he, hentry⟩ := exists_of_mem_left_forall₂ hforall hm
      have hfst : e.1 = key := Option.some.inj (hentry.1.symm.trans hkey)
      rw [Dict.ofList_eq_self hnodup, ← hfst, Dict.get?_of_mem hnodup he] at hget
      obtain rfl := Option.some.inj hget
      exact ⟨Scalar.str_isSome.mp ⟨key, hkey⟩, ih m hm hentry.2 hvalue⟩
  | list items ih | tuple items ih =>
      obtain ⟨values, hvalues, rfl⟩ := Option.map_eq_some_iff.mp h
      rw [jsonItems_eq_mapM] at hvalues
      rw [KeepsCounts, keepsItems_iff] at hkeeps
      rw [IsTellable, areTellable_iff]
      refine fun v hv => ?_
      obtain ⟨value, -, hvalue, hkept⟩ := exists_of_mem_left_forall₂ (forall₂_and (forall₂_of_mapM hvalues) hkeeps) hv
      exact ih v hv hvalue hkept

theorem exists_keeps {v : SourceValue} (h : IsTellable v) : ∃ j, jsonValue v = some j ∧ KeepsCounts v j := by
  induction v using SourceValue.induction with
  | scalar v =>
      obtain ⟨j, hj⟩ := Scalar.jsonValue_isSome.mpr h
      exact ⟨j, hj, (Scalar.of_jsonValue hj).2.2⟩
  | dict members ih =>
      rw [IsTellable, tellableMembers_iff] at h
      obtain ⟨entries, hentries⟩ := exists_jsonMembers fun m hm =>
        ⟨Scalar.str_isSome.mpr (h.2 m hm).1, (ih m hm (h.2 m hm).2).imp fun _ hj => hj.1⟩
      have hforall := forall₂_of_jsonMembers hentries
      have hnodup : (entries.map Prod.fst).Nodup := (map_str_eq hforall ▸ h.1).of_map some
      refine ⟨.obj (Dict.ofList entries), by rw [jsonValue, hentries, Option.map_some], ?_⟩
      rw [KeepsCounts, keepsEntries_iff, Dict.ofList_eq_self hnodup, hforall.length_eq]
      refine ⟨rfl, fun m hm => ?_⟩
      obtain ⟨e, he, hkey, hvalue⟩ := exists_of_mem_left_forall₂ hforall hm
      obtain ⟨j, hj, hkeeps⟩ := ih m hm (h.2 m hm).2
      obtain rfl := Option.some.inj (hj.symm.trans hvalue)
      exact ⟨e.1, e.2, hkey, Dict.get?_of_mem hnodup he, hkeeps⟩
  | list items ih | tuple items ih =>
      rw [IsTellable, areTellable_iff] at h
      obtain ⟨values, hvalues⟩ := (jsonItems_isSome items).mpr fun v hv => (ih v hv (h v hv)).imp fun _ hj => hj.1
      refine ⟨.arr values, by rw [jsonValue, hvalues, Option.map_some], ?_⟩
      rw [KeepsCounts, keepsItems_iff]
      rw [jsonItems_eq_mapM] at hvalues
      refine forall₂_mono (forall₂_of_mapM hvalues) fun v hv value _ hvalue => ?_
      obtain ⟨j, hj, hkeeps⟩ := ih v hv (h v hv)
      obtain rfl := Option.some.inj (hj.symm.trans hvalue)
      exact hkeeps

/-- **The encoding keeps everything exactly where the keys of each dictionary differ in their texts and no integer is
too long for one.** -/
theorem isKept_iff {v : SourceValue} : IsKept v ↔ IsTellable v := by
  constructor
  · rintro ⟨j, hj, -, -, hkeeps⟩
    exact isTellable_of_keeps hj hkeeps
  · intro h
    obtain ⟨j, hj, hkeeps⟩ := exists_keeps h
    obtain ⟨hstrict, hdistinct⟩ := strict_of_jsonValue hj
    exact ⟨j, hj, hstrict, jsonValue_ofJson hstrict hdistinct, hkeeps⟩

theorem natAbs_pow_ten_not_lt (k : Nat) : ¬ ((10 : Int) ^ k).natAbs < 10 ^ k := by
  rw [Int.natAbs_pow]
  exact lt_irrefl _

/-- The keys `1` and `"1"` leave one entry, and an integer of 4301 digits has no text. -/
theorem not_isKept_twoKeys :
    ¬ IsKept (.dict [(.int 1, .scalar (.text (py "a"))), (.text (py "1"), .scalar (.text (py "b")))]) ∧
      ¬ IsKept (.scalar (.int (10 ^ maxStrDigits))) := by
  constructor
  · rintro ⟨j, hj, -, -, hkeeps⟩
    have htellable := isTellable_of_keeps hj hkeeps
    rw [IsTellable] at htellable
    exact absurd htellable.1 (by decide)
  · rintro ⟨j, hj, -, -, hkeeps⟩
    exact natAbs_pow_ten_not_lt maxStrDigits (isShort_int_iff.mp (isTellable_of_keeps hj hkeeps))

end ContextLayer.Encoding
