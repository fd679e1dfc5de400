import ContextLayer.SnapshotDiff
import ContextLayer.Proof.Snapshot

/-!
# What the sub-diffs explain

A sub-diff names one component of the projection, and the components named are those that still differ
in the indexes. What the hash tells apart and the indexes do not is either unexplained or, where it is
all there is, a structural change of no parts.
-/

namespace ContextLayer.Diff

open Text StableSort

/-! ### Indexes -/

theorem get?_columnsByName (o : SourceObject) (name : PyStr) :
    Dict.get? (columnsByName o) name = lastNamed o name :=
  Dict.get?_index Column.name o.columns name

theorem get?_foreignByColumns (o : SourceObject) (columns : List PyStr) :
    Dict.get? (foreignByColumns o) columns = lastForeignOn o columns :=
  Dict.get?_index ForeignKey.columns (o.keys.foreign.getD []) columns

theorem mem_columnsByName {o : SourceObject} {name : PyStr} {c : Column} :
    (name, c) ∈ columnsByName o ↔ lastNamed o name = some c := by
  rw [← get?_columnsByName]
  exact Dict.mem_iff_get? (Dict.nodup_ofList _)

theorem mem_foreignByColumns {o : SourceObject} {columns : List PyStr} {fk : ForeignKey} :
    (columns, fk) ∈ foreignByColumns o ↔ lastForeignOn o columns = some fk := by
  rw [← get?_foreignByColumns]
  exact Dict.mem_iff_get? (Dict.nodup_ofList _)

theorem name_of_lastNamed {o : SourceObject} {name : PyStr} {c : Column}
    (h : lastNamed o name = some c) : c ∈ o.columns ∧ c.name = name := by
  have hmem := List.mem_filter.mp (List.mem_of_getLast? h)
  exact ⟨hmem.1, of_decide_eq_true hmem.2⟩

theorem columns_of_lastForeignOn {o : SourceObject} {columns : List PyStr} {fk : ForeignKey}
    (h : lastForeignOn o columns = some fk) : fk.columns = columns :=
  of_decide_eq_true (List.mem_filter.mp (List.mem_of_getLast? h)).2

variable {spec : KindSpec} {old new : SourceObject} {c : Component}

theorem mem_addedColumns {column : Column} : column ∈ addedColumns old new ↔
    lastNamed new column.name = some column ∧ lastNamed old column.name = none := by
  simp only [addedColumns, List.mem_map, List.mem_filter, Prod.exists, exists_eq_right,
    get?_columnsByName, mem_columnsByName, Option.isNone_iff_eq_none]
  constructor
  · rintro ⟨name, hnew, hold⟩
    obtain rfl := (name_of_lastNamed hnew).2
    exact ⟨hnew, hold⟩
  · exact fun h => ⟨column.name, h⟩

theorem mem_addedForeign {fk : ForeignKey} : fk ∈ addedForeign old new ↔
    lastForeignOn new fk.columns = some fk ∧ lastForeignOn old fk.columns = none := by
  simp only [addedForeign, List.mem_map, List.mem_filter, Prod.exists, exists_eq_right,
    get?_foreignByColumns, mem_foreignByColumns, Option.isNone_iff_eq_none]
  constructor
  · rintro ⟨columns, hnew, hold⟩
    obtain rfl := columns_of_lastForeignOn hnew
    exact ⟨hnew, hold⟩
  · exact fun h => ⟨fk.columns, h⟩

theorem mem_addedUnique {columns : List PyStr} :
    columns ∈ addedUnique old new ↔ columns ∈ uniqueOf new ∧ columns ∉ uniqueOf old := by
  rw [addedUnique, mem_sortOn, List.mem_filter, List.mem_dedup, decide_eq_true_eq]

/-! ### What is named -/

/-- Some sub-diff names the component. -/
def Names (subs : List SubDiff) (c : Component) : Prop := ∃ s ∈ subs, s.change.component = c

@[simp]
theorem names_nil : ¬ Names [] c := fun ⟨_, hs, _⟩ => List.not_mem_nil hs

@[simp]
theorem names_singleton {s : SubDiff} : Names [s] c ↔ s.change.component = c := by
  simp [Names]

@[simp]
theorem names_append {a b : List SubDiff} : Names (a ++ b) c ↔ Names a c ∨ Names b c := by
  simp [Names, or_and_right, exists_or]

@[simp]
theorem names_map {α : Type} {l : List α} {f : α → SubDiff} :
    Names (l.map f) c ↔ ∃ a ∈ l, (f a).change.component = c := by
  simp [Names]

@[simp]
theorem names_flatMap {α : Type} {l : List α} {f : α → List SubDiff} :
    Names (l.flatMap f) c ↔ ∃ a ∈ l, Names (f a) c := by
  simp only [Names, List.mem_flatMap]
  constructor
  · rintro ⟨s, ⟨a, ha, hs⟩, hc⟩
    exact ⟨a, ha, s, hs, hc⟩
  · rintro ⟨a, ha, s, hs, hc⟩
    exact ⟨s, ⟨a, ha, hs⟩, hc⟩

theorem names_ite {p : Prop} [Decidable p] {a b : List SubDiff} :
    Names (if p then a else b) c ↔ (p ∧ Names a c) ∨ (¬ p ∧ Names b c) := by
  by_cases hp : p <;> simp [hp]

/-! ### Columns -/

example : PyJson.pyEq (.str (py "int8")) (.str (py "int4")) = false := by
  rw [PyJson.pyEq]
  decide

theorem pyEq_type {o n : Column} :
    (ColumnField.type.of o).pyEq (ColumnField.type.of n) = false ↔ o.type ≠ n.type := by
  rw [ColumnField.of, ColumnField.of, PyJson.pyEq, beq_eq_false_iff_ne]

theorem pyEq_nullable {o n : Column} :
    (ColumnField.nullable.of o).pyEq (ColumnField.nullable.of n) = false ↔
      o.nullable ≠ n.nullable := by
  rw [ColumnField.of, ColumnField.of, PyJson.pyEq, PyJson.asNumber]
  cases o.nullable <;> cases n.nullable <;> decide

theorem pyEq_default {o n : Column} :
    (ColumnField.default.of o).pyEq (ColumnField.default.of n) = false ↔ o.default ≠ n.default := by
  rw [ColumnField.of, ColumnField.of]
  cases o.default <;> cases n.default <;> simp [PyJson.ofOption, PyJson.pyEq]

theorem pyEq_ordinal {o n : Column} :
    (ColumnField.ordinal.of o).pyEq (ColumnField.ordinal.of n) = false ↔
      o.ordinal.value ≠ n.ordinal.value := by
  rw [ColumnField.of, ColumnField.of, PyJson.pyEq, PyJson.asNumber, beq_eq_false_iff_ne, ne_eq,
    Option.some.injEq, eq_comm]
  rfl

/-- A column of both is compared field by field. -/
theorem names_commonColumn {name : PyStr} {o n : Column} :
    Names (commonColumnSubDiffs name o n) c ↔
      ∃ f : ColumnField, c = .field f name ∧ (f.of o).pyEq (f.of n) = false := by
  have hnullable : Names (if o.nullable ≠ n.nullable then
      if o.nullable && !n.nullable then [sub .breaking (.columnNullableTightened name)]
      else [sub .additiveWithNote (.columnNullableLoosened name)]
    else []) c ↔ o.nullable ≠ n.nullable ∧ Component.field .nullable name = c := by
    by_cases hne : o.nullable ≠ n.nullable
    · rw [if_pos hne]
      by_cases htightened : (o.nullable && !n.nullable) = true
      · rw [if_pos htightened, names_singleton]
        exact (and_iff_right hne).symm
      · rw [if_neg htightened, names_singleton]
        exact (and_iff_right hne).symm
    · rw [if_neg hne]
      exact iff_of_false names_nil fun h => hne h.1
  rw [commonColumnSubDiffs, names_append, names_append, names_append, hnullable]
  simp only [names_ite, names_singleton, names_nil, and_false, or_false, sub, Change.component]
  constructor
  · rintro (((⟨hne, rfl⟩ | ⟨hne, rfl⟩) | ⟨hne, rfl⟩) | ⟨hne, rfl⟩)
    · exact ⟨.type, rfl, pyEq_type.mpr hne⟩
    · exact ⟨.nullable, rfl, pyEq_nullable.mpr hne⟩
    · exact ⟨.default, rfl, pyEq_default.mpr hne⟩
    · exact ⟨.ordinal, rfl, pyEq_ordinal.mpr hne⟩
  · rintro ⟨f, rfl, hne⟩
    cases f with
    | type => exact .inl (.inl (.inl ⟨pyEq_type.mp hne, rfl⟩))
    | nullable => exact .inl (.inl (.inr ⟨pyEq_nullable.mp hne, rfl⟩))
    | default => exact .inl (.inr ⟨pyEq_default.mp hne, rfl⟩)
    | ordinal => exact .inr ⟨pyEq_ordinal.mp hne, rfl⟩

theorem names_columnSubDiffs : Names (columnSubDiffs old new) c ↔
    (∃ name, c = .column name ∧ ¬ (lastNamed old name = none ↔ lastNamed new name = none)) ∨
      ∃ f name, c = .field f name ∧ ∃ o ∈ lastNamed old name, ∃ n ∈ lastNamed new name,
        (f.of o).pyEq (f.of n) = false := by
  simp only [columnSubDiffs, names_append, names_map, names_flatMap, mem_addedColumns, Prod.exists,
    get?_columnsByName, mem_columnsByName, sub, Change.component]
  refine or_congr ?_ ?_
  · constructor
    · rintro (⟨column, ⟨hnew, hold⟩, rfl⟩ | ⟨column, ⟨hold, hnew⟩, rfl⟩)
      · exact ⟨_, rfl, by simp [hnew, hold]⟩
      · exact ⟨_, rfl, by simp [hnew, hold]⟩
    · rintro ⟨name, rfl, hne⟩
      cases hold : lastNamed old name with
      | none =>
          cases hnew : lastNamed new name with
          | none => exact absurd (iff_of_true hold hnew) hne
          | some column =>
              obtain rfl := (name_of_lastNamed hnew).2
              exact .inl ⟨column, ⟨hnew, hold⟩, rfl⟩
      | some column =>
          obtain rfl := (name_of_lastNamed hold).2
          cases hnew : lastNamed new column.name with
          | none => exact .inr ⟨column, ⟨hold, hnew⟩, rfl⟩
          | some column' => exact absurd (iff_of_false (by simp [hold]) (by simp [hnew])) hne
  · constructor
    · rintro ⟨name, o, ho, hnames⟩
      cases hnew : lastNamed new name with
      | none =>
          rw [hnew] at hnames
          exact absurd hnames names_nil
      | some n =>
          rw [hnew, Option.map_some, Option.getD_some, names_commonColumn] at hnames
          obtain ⟨f, rfl, hne⟩ := hnames
          exact ⟨f, name, rfl, o, ho, n, hnew, hne⟩
    · rintro ⟨f, name, rfl, o, ho, n, hn, hne⟩
      refine ⟨name, o, ho, ?_⟩
      rw [hn, Option.map_some, Option.getD_some, names_commonColumn]
      exact ⟨f, rfl, hne⟩

/-! ### Keys -/

theorem names_primarySubDiffs :
    Names (primarySubDiffs old new) c ↔ c = .primary ∧ primaryOf old ≠ primaryOf new := by
  simp only [primarySubDiffs, names_ite, names_singleton, names_nil, sub, Change.component]
  by_cases hsame : primaryOf old = primaryOf new
  · simp [hsame]
  · by_cases hold : primaryOf old = []
    · simp [hold, eq_comm, hold ▸ hsame]
    · by_cases hnew : primaryOf new = []
      · simp [hold, hnew, eq_comm]
      · simp [hold, hnew, hsame, eq_comm]

theorem names_foreignSubDiffs : Names (foreignSubDiffs old new) c ↔
    ∃ columns, c = .foreign columns ∧ lastForeignOn old columns ≠ lastForeignOn new columns := by
  simp only [foreignSubDiffs, names_append, names_map, names_flatMap, mem_addedForeign, Prod.exists,
    get?_foreignByColumns, mem_foreignByColumns, sub, Change.component]
  constructor
  · rintro ((⟨fk, ⟨hnew, hold⟩, rfl⟩ | ⟨fk, ⟨hold, hnew⟩, rfl⟩) | ⟨columns, fk, hold, hnames⟩)
    · exact ⟨_, rfl, by simp [hnew, hold]⟩
    · exact ⟨_, rfl, by simp [hnew, hold]⟩
    · cases hnew : lastForeignOn new columns with
      | none =>
          rw [hnew] at hnames
          exact absurd hnames names_nil
      | some fk' =>
          rw [hnew, Option.map_some, Option.getD_some, names_ite, names_singleton] at hnames
          obtain ⟨hne, rfl⟩ := hnames.resolve_right fun h => names_nil h.2
          exact ⟨columns, rfl, by rw [hold, hnew]; exact fun h => hne (Option.some.inj h)⟩
  · rintro ⟨columns, rfl, hne⟩
    cases hold : lastForeignOn old columns with
    | none =>
        cases hnew : lastForeignOn new columns with
        | none => exact absurd (hold.trans hnew.symm) hne
        | some fk =>
            obtain rfl := columns_of_lastForeignOn hnew
            exact .inl (.inl ⟨fk, ⟨hnew, hold⟩, rfl⟩)
    | some fk =>
        obtain rfl := columns_of_lastForeignOn hold
        cases hnew : lastForeignOn new fk.columns with
        | none => exact .inl (.inr ⟨fk, ⟨hold, hnew⟩, rfl⟩)
        | some fk' =>
            refine .inr ⟨fk.columns, fk, hold, ?_⟩
            rw [hnew, Option.map_some, Option.getD_some, names_ite, names_singleton]
            exact .inl ⟨fun h => hne (by rw [hold, hnew, h]), rfl⟩

theorem names_keySubDiffs : Names (keySubDiffs old new) c ↔
    (c = .primary ∧ primaryOf old ≠ primaryOf new) ∨
      (∃ columns, c = .foreign columns ∧ lastForeignOn old columns ≠ lastForeignOn new columns) ∨
        ∃ columns, c = .unique columns ∧ ¬ (columns ∈ uniqueOf old ↔ columns ∈ uniqueOf new) := by
  rw [keySubDiffs, names_append, names_append, names_append, names_primarySubDiffs,
    names_foreignSubDiffs, or_assoc, or_assoc]
  refine or_congr_right (or_congr_right ?_)
  simp only [names_map, mem_addedUnique, sub, Change.component]
  constructor
  · rintro (⟨columns, ⟨hnew, hold⟩, rfl⟩ | ⟨columns, ⟨hold, hnew⟩, rfl⟩)
    · exact ⟨columns, rfl, fun h => hold (h.mpr hnew)⟩
    · exact ⟨columns, rfl, fun h => hnew (h.mp hold)⟩
  · rintro ⟨columns, rfl, hne⟩
    by_cases hold : columns ∈ uniqueOf old
    · exact .inr ⟨columns, ⟨hold, fun hnew => hne (iff_of_true hold hnew)⟩, rfl⟩
    · refine .inl ⟨columns, ⟨?_, hold⟩, rfl⟩
      by_contra hnew
      exact hne (iff_of_false hold hnew)

/-! ### Stats -/

theorem names_statsSubDiffs : Names (statsSubDiffs spec old new) c ↔
    ∃ stat ∈ spec.hashIncludedStats, c = .stat stat ∧
      PyJson.sameStat (Dict.get? old.stats stat) (Dict.get? new.stats stat) = false := by
  simp only [statsSubDiffs, names_flatMap, mem_sortOn]
  refine exists_congr fun stat => and_congr_right fun _ => ?_
  cases PyJson.sameStat (Dict.get? old.stats stat) (Dict.get? new.stats stat) with
  | true => simp
  | false =>
      rw [if_neg Bool.false_ne_true, and_iff_left rfl]
      by_cases hdefinition : stat = py "definition"
      · rw [if_pos hdefinition, names_singleton, hdefinition]
        exact eq_comm
      · rw [if_neg hdefinition, names_singleton]
        exact eq_comm

/-- **The components named** are those that survive the indexes. -/
theorem names_subDiffs : Names (subDiffs spec old new) c ↔ c.Survives spec old new := by
  rw [subDiffs, names_append, names_append, names_columnSubDiffs, names_keySubDiffs,
    names_statsSubDiffs]
  cases c <;> simp [Component.Survives]

theorem subDiffs_ne_nil :
    subDiffs spec old new ≠ [] ↔ ∃ c : Component, c.Survives spec old new := by
  constructor
  · intro hne
    obtain ⟨s, hs⟩ := List.exists_mem_of_ne_nil _ hne
    exact ⟨s.change.component, names_subDiffs.mp ⟨s, hs, rfl⟩⟩
  · rintro ⟨c, hc⟩ hnil
    have hnames := names_subDiffs.mpr hc
    rw [hnil] at hnames
    exact names_nil hnames

/-! ### Changes outside the projection -/

theorem mem_metadataChanges {m : MetadataChange} :
    m ∈ metadataChanges spec old new ↔ m.Survives spec old new := by
  have hcolumn : ∀ name, ((Dict.get? (columnsByName old) name).bind fun o =>
      (Dict.get? (columnsByName new) name).map fun n =>
        decide (o.description ≠ n.description)).getD false = true ↔
      ∃ o ∈ lastNamed old name, ∃ n ∈ lastNamed new name, o.description ≠ n.description := by
    intro name
    rw [get?_columnsByName, get?_columnsByName]
    cases lastNamed old name with
    | none => simp
    | some o => cases lastNamed new name <;> simp
  have hnamed : ∀ name, (∃ o ∈ lastNamed old name, ∃ n ∈ lastNamed new name,
      o.description ≠ n.description) → ∃ e ∈ columnsByName old, e.1 = name := by
    rintro name ⟨o, ho, -⟩
    exact ⟨(name, o), mem_columnsByName.mpr ho, rfl⟩
  cases m with
  | description =>
      by_cases hne : old.description ≠ new.description <;>
        simp [metadataChanges, MetadataChange.Survives, hne]
  | columnDescription name =>
      have hdescription : MetadataChange.columnDescription name ∉
          if old.description ≠ new.description then [MetadataChange.description] else [] := by
        by_cases hne : old.description ≠ new.description <;> simp [hne]
      simp only [metadataChanges, List.mem_append, hdescription, false_or, List.mem_map,
        List.mem_filter, mem_sortOn, MetadataChange.columnDescription.injEq, exists_eq_right,
        reduceCtorEq, and_false, exists_false, or_false, hcolumn]
      exact and_iff_right_of_imp (hnamed name)
  | stat name =>
      have hdescription : MetadataChange.stat name ∉
          if old.description ≠ new.description then [MetadataChange.description] else [] := by
        by_cases hne : old.description ≠ new.description <;> simp [hne]
      simp only [metadataChanges, List.mem_append, hdescription, false_or, List.mem_map,
        List.mem_filter, mem_sortOn, MetadataChange.stat.injEq, exists_eq_right, reduceCtorEq,
        and_false, exists_false, Bool.not_eq_true', MetadataChange.Survives]

/-! ### Equal objects -/

/-- Two functions that together tell elements apart tell lists of them apart. -/
theorem eq_of_maps {α β γ : Type} {f : α → β} {g : α → γ}
    (hinj : ∀ a b, f a = f b → g a = g b → a = b) {l l' : List α} (hf : l.map f = l'.map f)
    (hg : l.map g = l'.map g) : l = l' := by
  induction l generalizing l' with
  | nil => exact (List.map_eq_nil_iff.mp hf.symm).symm
  | cons a l ih =>
      cases l' with
      | nil => cases hf
      | cons b l' =>
          rw [List.map_cons, List.map_cons, List.cons.injEq] at hf hg
          rw [hinj a b hf.1 hg.1, ih hf.2 hg.2]

/-- A list is made of its keys and of the elements under each. -/
theorem eq_of_filter_eq {α κ : Type} [DecidableEq κ] {key : α → κ} {l l' : List α}
    (hkeys : l.map key = l'.map key)
    (hfilter : ∀ k, (l.filter fun a => key a = k) = l'.filter fun a => key a = k) : l = l' := by
  induction l generalizing l' with
  | nil => exact (List.map_eq_nil_iff.mp hkeys.symm).symm
  | cons a l ih =>
      cases l' with
      | nil => cases hkeys
      | cons b l' =>
          rw [List.map_cons, List.map_cons, List.cons.injEq] at hkeys
          have hhead := hfilter (key a)
          rw [List.filter_cons_of_pos (by simp), List.filter_cons_of_pos (by simp [hkeys.1]),
            List.cons.injEq] at hhead
          obtain rfl := hhead.1
          rw [ih hkeys.2 fun k => ?_]
          have hrest := hfilter k
          by_cases hk : key a = k
          · rw [List.filter_cons_of_pos (by simp [hk]), List.filter_cons_of_pos (by simp [hk])]
              at hrest
            exact (List.cons.inj hrest).2
          · rwa [List.filter_cons_of_neg (by simp [hk]), List.filter_cons_of_neg (by simp [hk])]
              at hrest

theorem sortKeys_eq_of_statOf (h : ∀ stat, statOf old stat = statOf new stat) :
    (PyJson.obj old.stats).sortKeys = (PyJson.obj new.stats).sortKeys := by
  have hfst : ∀ members : List (PyStr × PyJson),
      (members.map fun m => (m.1, m.2.sortKeys)).map Prod.fst = members.map Prod.fst := by
    intro members
    rw [List.map_map]
    rfl
  have hnodup : ∀ o : SourceObject,
      ((o.stats.map fun m => (m.1, m.2.sortKeys)).map Prod.fst).Nodup :=
    fun o => (hfst o.stats).symm ▸ o.stats_nodup
  have hlookup : ∀ (o : SourceObject) stat,
      Dict.get? (o.stats.map fun m => (m.1, m.2.sortKeys)) stat = statOf o stat :=
    fun o stat => PyJson.get?_map _ _ _
  rw [PyJson.sortKeys_obj, PyJson.sortKeys_obj]
  refine congrArg PyJson.obj (sortOn_eq_of_perm ?_ ?_)
  · intro m hm m' hm' hkey
    exact List.inj_on_of_nodup_map (hnodup new) hm hm' hkey
  · refine (List.perm_ext_iff_of_nodup (hnodup old).of_map (hnodup new).of_map).mpr ?_
    rintro ⟨stat, v⟩
    rw [Dict.mem_iff_get? (hnodup old), Dict.mem_iff_get? (hnodup new), hlookup, hlookup, h]

theorem lookup_of_sortKeys {a b : List (PyStr × PyJson)}
    (h : (PyJson.obj a).sortKeys = (PyJson.obj b).sortKeys) (k : PyStr) :
    (Dict.get? a k).map PyJson.sortKeys = (Dict.get? b k).map PyJson.sortKeys := by
  rw [PyJson.sortKeys_obj, PyJson.sortKeys_obj] at h
  have hlookup := congrArg (Dict.get? · k) (PyJson.obj.inj h)
  rwa [PyJson.get?_sortOn, PyJson.get?_sortOn, PyJson.get?_map, PyJson.get?_map] at hlookup

theorem columnsNamed_eq (o : SourceObject) (name : PyStr) :
    columnsNamed o name = (orderedObject o).columns.filter fun c => c.name = name := rfl

theorem column_ext (c c' : Column) (hstructural : c.structural = c'.structural)
    (hdescription : c.description = c'.description) : c = c' := by
  cases c
  cases c'
  simp only [Column.structural, Prod.mk.injEq] at hstructural
  obtain ⟨rfl, rfl, rfl, rfl, rfl⟩ := hstructural
  cases hdescription
  rfl

theorem statOf_of_projection
    (hproj : (structuralProjection spec old).sortKeys = (structuralProjection spec new).sortKeys)
    {stat : PyStr} (hstat : stat ∈ spec.hashIncludedStats) : statOf old stat = statOf new stat := by
  have hlookup := lookup_of_sortKeys (Option.some.inj (PyJson.field_eq hproj "stats")) stat
  have hfilter : ∀ o : SourceObject, Dict.get? ((orderedObject o).stats.filter fun m =>
      decide (m.1 ∈ spec.hashIncludedStats)) stat = Dict.get? o.stats stat :=
    fun o => (Dict.get?_filter_key (fun k => decide (k ∈ spec.hashIncludedStats)) _ _).trans
      (if_pos (decide_eq_true hstat))
  rwa [hfilter, hfilter] at hlookup

/-- Objects of one projection and one identity have the same canonical form exactly when nothing
outside the projection differs. -/
theorem toPy_eq_iff (hid : old.identity = new.identity) (hhash : old.schemaHash = new.schemaHash)
    (hproj : (structuralProjection spec old).sortKeys = (structuralProjection spec new).sortKeys) :
    (orderedObject old).toPy.sortKeys = (orderedObject new).toPy.sortKeys ↔
      ∀ m : MetadataChange, ¬ m.Differs spec old new := by
  obtain ⟨hcolumns, hkeys⟩ := SourceObject.columns_keys_of_structural hproj
  have hincluded : ∀ stat ∈ spec.hashIncludedStats, statOf old stat = statOf new stat :=
    fun _ hstat => statOf_of_projection hproj hstat
  constructor
  · intro h m hm
    have hsame := (SourceObject.columns_keys_of_toPy h).1
    cases m with
    | description =>
        have hdescription := Option.some.inj (PyJson.field_eq h "description")
        rw [PyJson.sortKeys_ofOption, PyJson.sortKeys_ofOption] at hdescription
        exact hm (PyJson.ofOption_inj hdescription)
    | columnDescription name =>
        exact hm (by rw [columnsNamed_eq, columnsNamed_eq, hsame])
    | stat name =>
        exact hm.2 (lookup_of_sortKeys (Option.some.inj (PyJson.field_eq h "stats")) name)
  · intro h
    have hdescription : old.description = new.description := by
      by_contra hne
      exact h .description hne
    have hstats : (PyJson.obj old.stats).sortKeys = (PyJson.obj new.stats).sortKeys := by
      refine sortKeys_eq_of_statOf fun stat => ?_
      by_cases hstat : stat ∈ spec.hashIncludedStats
      · exact hincluded stat hstat
      · by_contra hne
        exact h (.stat stat) ⟨hstat, hne⟩
    have hnames : (orderedObject old).columns.map Column.name =
        (orderedObject new).columns.map Column.name :=
      map_eq_map_of_factors (fun _ _ heq => congrArg Prod.fst heq) hcolumns
    have hordered : (orderedObject old).columns = (orderedObject new).columns := by
      refine eq_of_filter_eq hnames fun name => eq_of_maps column_ext ?_ ?_
      · have hfilter : ∀ l : List Column, (l.filter fun c => c.name = name).map Column.structural =
            (l.map Column.structural).filter fun t => t.1 = name := by
          intro l
          rw [List.filter_map]
          rfl
        rw [hfilter, hfilter, hcolumns]
      · by_contra hne
        exact h (.columnDescription name) hne
    have hfields : old.kind = new.kind ∧ old.schema = new.schema ∧ old.name = new.name := by
      simpa only [SourceObject.identity, Prod.mk.injEq] using hid
    have hmembers : ∀ o : SourceObject, (orderedObject o).toPy = .obj [(py "kind", .str o.kind),
        (py "schema", .str o.schema), (py "name", .str o.name),
        (py "description", .ofOption o.description), (py "schema_hash", .str o.schemaHash),
        (py "columns", .arr ((orderedObject o).columns.map Column.toPy)),
        (py "keys", (orderedObject o).keys.toPy), (py "stats", .obj o.stats)] := fun _ => rfl
    rw [hmembers, hmembers, PyJson.sortKeys_obj, PyJson.sortKeys_obj, List.map_cons]
    simp only [List.map_cons, List.map_nil, hfields, hdescription, hhash, hordered, hkeys, hstats]

/-! ### The classification -/

theorem canonicalObjectBytes_isSome (o : SourceObject) :
    (canonicalObjectBytes o).isSome = o.toPy.isEncodable := by
  rw [canonicalObjectBytes, PyJson.canonicalBytes_isSome]
  exact (SourceObject.reordered_orderedObject o).isEncodable_toPy

theorem toPy_eq_of_bytes {bytes : List UInt8} (hold : canonicalObjectBytes old = some bytes)
    (hnew : canonicalObjectBytes new = some bytes) :
    (orderedObject old).toPy.sortKeys = (orderedObject new).toPy.sortKeys := by
  refine PyJson.canonicalBytes_inj ?_ (hold.trans hnew.symm)
  rw [← PyJson.canonicalBytes_isSome]
  exact Option.isSome_of_mem hold

theorem schemaHash_eq_of_bytes {bytes : List UInt8} (hold : canonicalObjectBytes old = some bytes)
    (hnew : canonicalObjectBytes new = some bytes) : old.schemaHash = new.schemaHash :=
  PyJson.str.inj (Option.some.inj (PyJson.field_eq (toPy_eq_of_bytes hold hnew) "schema_hash"))

/-- **The hash** tells projections apart. -/
theorem schemaHash_eq_iff {sha256 : List UInt8 → PyStr} (hsha256 : Function.Injective sha256)
    (hold : schemaHash sha256 old = some old.schemaHash)
    (hnew : schemaHash sha256 new = some new.schemaHash) (hspec : old.kindSpec = some spec)
    (hspec' : new.kindSpec = some spec) : old.schemaHash = new.schemaHash ↔
      (structuralProjection spec old).sortKeys = (structuralProjection spec new).sortKeys := by
  simp only [schemaHash, hspec, hspec', Option.bind_eq_bind, Option.bind_some,
    Option.bind_eq_some_iff] at hold hnew
  obtain ⟨oldBytes, holdBytes, hold⟩ := hold
  obtain ⟨newBytes, hnewBytes, hnew⟩ := hnew
  rw [← Option.some.inj hold, ← Option.some.inj hnew, List.append_cancel_left_eq, hsha256.eq_iff]
  constructor
  · intro h
    refine PyJson.canonicalBytes_inj ?_ (by rw [holdBytes, hnewBytes, h])
    rw [← PyJson.canonicalBytes_isSome, holdBytes, Option.isSome_some]
  · intro h
    have hbytes := PyJson.canonicalBytes_congr h
    rw [holdBytes, hnewBytes] at hbytes
    exact Option.some.inj hbytes

theorem diffObject_structural (h : old.schemaHash ≠ new.schemaHash) : diffObject spec old new =
    some ⟨old.identity, .changedStructural, some (structuralSeverity (subDiffs spec old new)),
      some old.schemaHash, some new.schemaHash, subDiffs spec old new,
      renameCandidates old new, []⟩ :=
  if_pos h

theorem diffObject_same (h : old.schemaHash = new.schemaHash) {oldBytes newBytes : List UInt8}
    (hold : canonicalObjectBytes old = some oldBytes)
    (hnew : canonicalObjectBytes new = some newBytes) : diffObject spec old new =
      some (if oldBytes ≠ newBytes then
        ⟨old.identity, .changedMetadataOnly, none, some old.schemaHash, some new.schemaHash, [], [],
          metadataChanges spec old new⟩
        else ⟨old.identity, .unchanged, none, none, none, [], [], []⟩) := by
  rw [diffObject, if_neg (not_not.mpr h), hold, hnew]
  by_cases hbytes : oldBytes ≠ newBytes
  · simp [hbytes]
  · simp [hbytes]

theorem encodable_of_diffObject (h : old.schemaHash = new.schemaHash) {d : ObjectDiff}
    (hd : diffObject spec old new = some d) :
    old.toPy.isEncodable = true ∧ new.toPy.isEncodable = true := by
  rw [diffObject, if_neg (not_not.mpr h)] at hd
  obtain ⟨oldBytes, hold, hd⟩ := Option.bind_eq_some_iff.mp hd
  obtain ⟨newBytes, hnew, -⟩ := Option.bind_eq_some_iff.mp hd
  rw [← canonicalObjectBytes_isSome, ← canonicalObjectBytes_isSome, hold, hnew]
  exact ⟨rfl, rfl⟩

/-- A structural change is complete exactly when what differs survives. -/
theorem complete_structural (hhash : old.schemaHash ≠ new.schemaHash)
    (hproj : (structuralProjection spec old).sortKeys ≠ (structuralProjection spec new).sortKeys)
    {d : ObjectDiff} (hd : diffObject spec old new = some d) :
    d.Complete spec old new ↔ (∃ c : Component, c.Survives spec old new) ∧
      ∀ c : Component, c.Differs spec old new → c.Survives spec old new := by
  obtain rfl := Option.some.inj ((diffObject_structural hhash).symm.trans hd)
  constructor
  · intro h
    obtain ⟨hne, hnamed⟩ := h.subDiffs rfl
    exact ⟨subDiffs_ne_nil.mp hne, fun c hc => names_subDiffs.mp (hnamed c hc)⟩
  · rintro ⟨hne, hsurvives⟩
    constructor
    · refine iff_of_false nofun ?_
      rintro ⟨bytes, hold, hnew⟩
      exact hhash (schemaHash_eq_of_bytes hold hnew)
    · exact iff_of_true rfl hproj
    · exact fun _ => ⟨subDiffs_ne_nil.mpr hne, fun c hc => names_subDiffs.mpr (hsurvives c hc)⟩
    · exact fun _ h => absurd rfl h

/-- Without a structural change, the rest is complete exactly when what differs survives. -/
theorem complete_same (hid : old.identity = new.identity) (hhash : old.schemaHash = new.schemaHash)
    (hproj : (structuralProjection spec old).sortKeys = (structuralProjection spec new).sortKeys)
    {d : ObjectDiff} (hd : diffObject spec old new = some d) :
    d.Complete spec old new ↔
      ∀ m : MetadataChange, m.Differs spec old new → m.Survives spec old new := by
  obtain ⟨hold, hnew⟩ := encodable_of_diffObject hhash hd
  rw [← canonicalObjectBytes_isSome, Option.isSome_iff_exists] at hold hnew
  obtain ⟨oldBytes, hold⟩ := hold
  obtain ⟨newBytes, hnew⟩ := hnew
  rw [diffObject_same hhash hold hnew] at hd
  obtain rfl := Option.some.inj hd
  by_cases hbytes : oldBytes = newBytes
  · rw [if_neg (not_not.mpr hbytes)]
    have hsame := (toPy_eq_iff hid hhash hproj).mp (toPy_eq_of_bytes hold (hbytes ▸ hnew))
    refine iff_of_true ⟨?_, iff_of_false nofun (not_not.mpr hproj), nofun, fun h => absurd rfl h⟩
      fun m hm => absurd hm (hsame m)
    exact iff_of_true rfl ⟨oldBytes, hold, hbytes ▸ hnew⟩
  · rw [if_pos hbytes]
    have hne : ¬ ∀ m : MetadataChange, ¬ m.Differs spec old new := by
      intro hsame
      refine hbytes (Option.some.inj (hold.symm.trans (Eq.trans ?_ hnew)))
      exact PyJson.canonicalBytes_congr ((toPy_eq_iff hid hhash hproj).mpr hsame)
    obtain ⟨m, hm⟩ := not_forall_not.mp hne
    constructor
    · intro h m hm
      exact mem_metadataChanges.mp ((h.metadata nofun nofun).2.2 m hm)
    · intro hsurvives
      refine ⟨?_, iff_of_false nofun (not_not.mpr hproj), nofun, fun _ _ => ⟨rfl, ?_, ?_⟩⟩
      · refine iff_of_false nofun ?_
        rintro ⟨bytes, hold', hnew'⟩
        exact hbytes (Option.some.inj (hold.symm.trans (hold'.trans (hnew'.symm.trans hnew))))
      · exact List.ne_nil_of_mem (mem_metadataChanges.mpr (hsurvives m hm))
      · exact fun m hm => mem_metadataChanges.mpr (hsurvives m hm)

section

variable {sha256 : List UInt8 → PyStr} {s s' : Snapshot}

/-- **A diff is complete** exactly where the indexes tell apart what the hash does. -/
theorem classified_iff (hsha256 : Function.Injective sha256) (hs : s.IsAccepted sha256 true)
    (hs' : s'.IsAccepted sha256 true) (hold : old ∈ s.objects) (hnew : new ∈ s'.objects)
    (hid : old.identity = new.identity) (hspec : old.kindSpec = some spec) :
    (∃ d, diffObject spec old new = some d ∧ d.Complete spec old new) ↔
      Distinguishable spec old new := by
  have hkind : old.kind = new.kind := congrArg Prod.fst hid
  have hspec' : new.kindSpec = some spec := by
    rw [SourceObject.kindSpec, ← hkind]
    exact hspec
  have hhash := schemaHash_eq_iff hsha256 (hs.hash hold (Option.isSome_of_mem hspec))
    (hs'.hash hnew (Option.isSome_of_mem hspec')) hspec hspec'
  by_cases hproj : (structuralProjection spec old).sortKeys = (structuralProjection spec new).sortKeys
  · constructor
    · rintro ⟨d, hd, hcomplete⟩
      exact ⟨fun hne => absurd hproj hne, fun _ => ⟨encodable_of_diffObject (hhash.mpr hproj) hd,
        (complete_same hid (hhash.mpr hproj) hproj hd).mp hcomplete⟩⟩
    · intro h
      obtain ⟨⟨hencodable, hencodable'⟩, hsurvives⟩ := h.metadata hproj
      rw [← canonicalObjectBytes_isSome, Option.isSome_iff_exists] at hencodable hencodable'
      obtain ⟨oldBytes, hold⟩ := hencodable
      obtain ⟨newBytes, hnew⟩ := hencodable'
      have hd : diffObject spec old new = _ := diffObject_same (hhash.mpr hproj) hold hnew
      exact ⟨_, hd, (complete_same hid (hhash.mpr hproj) hproj hd).mpr hsurvives⟩
  · have hne : old.schemaHash ≠ new.schemaHash := fun h => hproj (hhash.mp h)
    have hd : diffObject spec old new = _ := diffObject_structural hne
    constructor
    · rintro ⟨d, hd, hcomplete⟩
      exact ⟨fun _ => (complete_structural hne hproj hd).mp hcomplete, fun h => absurd h hproj⟩
    · intro h
      exact ⟨_, hd, (complete_structural hne hproj hd).mpr (h.structural hproj)⟩

end

/-! ### Two snapshots -/

/-- The objects a diff looks at. -/
def knownObjects (objects : List SourceObject) : List SourceObject :=
  objects.filter fun o => o.kindSpec.isSome

theorem indexObjects_go {objects : List SourceObject} {index index' : List (Identity × SourceObject)}
    {skipped skipped' : List Identity} (h : objects.foldlM (fun (index, skipped) o =>
      if o.kindSpec.isNone then
        some (index, if o.identity ∈ skipped then skipped else skipped ++ [o.identity])
      else if (Dict.get? index o.identity).isSome then none
      else some (Dict.set index o.identity o, skipped)) (index, skipped) = some (index', skipped'))
    (hnodup : (index.map Prod.fst).Nodup) :
    index' = index ++ (knownObjects objects).map (fun o => (o.identity, o)) ∧
      (index'.map Prod.fst).Nodup := by
  induction objects generalizing index skipped with
  | nil =>
      obtain ⟨rfl, rfl⟩ := Prod.mk.inj (Option.some.inj h)
      exact ⟨(List.append_nil _).symm, hnodup⟩
  | cons o rest ih =>
      rw [List.foldlM_cons] at h
      obtain ⟨⟨mid, skippedMid⟩, hmid, hrest⟩ := Option.bind_eq_some_iff.mp h
      dsimp only at hmid
      by_cases hkind : o.kindSpec.isNone = true
      · rw [if_pos hkind] at hmid
        obtain ⟨rfl, -⟩ := Prod.mk.inj (Option.some.inj hmid)
        have hknown : knownObjects (o :: rest) = knownObjects rest :=
          List.filter_cons_of_neg (by simpa using hkind)
        rw [hknown]
        exact ih hrest hnodup
      · rw [if_neg hkind] at hmid
        by_cases hsome : (Dict.get? index o.identity).isSome
        · rw [if_pos hsome] at hmid
          cases hmid
        · rw [if_neg hsome] at hmid
          obtain ⟨rfl, -⟩ := Prod.mk.inj (Option.some.inj hmid)
          have hfresh : o.identity ∉ index.map Prod.fst := by
            intro hmem
            obtain ⟨e, he, heq⟩ := List.mem_map.mp hmem
            exact hsome (Dict.isSome_get?_iff.mpr ⟨e, he, heq⟩)
          obtain ⟨hindex, hnodup'⟩ := ih hrest (Dict.nodup_set hnodup _ _)
          have hknown : knownObjects (o :: rest) = o :: knownObjects rest :=
            List.filter_cons_of_pos (by simpa [Option.isSome_iff_ne_none] using hkind)
          refine ⟨?_, hnodup'⟩
          rw [hindex, hknown, Dict.set_eq_append hfresh, List.append_assoc]
          rfl

theorem indexObjects_eq {objects : List SourceObject} {skipped skipped' : List Identity}
    {index : List (Identity × SourceObject)}
    (h : indexObjects objects skipped = some (index, skipped')) :
    index = (knownObjects objects).map (fun o => (o.identity, o)) ∧ (index.map Prod.fst).Nodup :=
  indexObjects_go h List.nodup_nil

/-- A filter that can fail, when it does not. -/
theorem filterMapM_spec {α β : Type} {f : α → Option (Option β)} {l : List α} {r : List β}
    (h : l.filterMapM f = some r) :
    (∀ a ∈ l, ∃ b?, f a = some b?) ∧ ∀ b, b ∈ r ↔ ∃ a ∈ l, f a = some (some b) := by
  induction l generalizing r with
  | nil =>
      obtain rfl := Option.some.inj h
      simp
  | cons a rest ih =>
      rw [List.filterMapM_cons] at h
      obtain ⟨first, hfirst, h⟩ := Option.bind_eq_some_iff.mp h
      cases first with
      | none =>
          obtain ⟨hsome, hmem⟩ := ih h
          refine ⟨List.forall_mem_cons.mpr ⟨⟨none, hfirst⟩, hsome⟩, fun b => ?_⟩
          rw [hmem]
          simp [hfirst]
      | some b' =>
          obtain ⟨others, hothers, h⟩ := Option.bind_eq_some_iff.mp h
          obtain rfl := Option.some.inj h
          obtain ⟨hsome, hmem⟩ := ih hothers
          refine ⟨List.forall_mem_cons.mpr ⟨⟨some b', hfirst⟩, hsome⟩, fun b => ?_⟩
          simp [hmem, hfirst, eq_comm]

theorem commonDiffs_spec {oldIndex newIndex : List (Identity × SourceObject)}
    {common : List ObjectDiff} (h : commonDiffs oldIndex newIndex = some common) {i : Identity}
    {o n : SourceObject} {spec : KindSpec} (ho : (i, o) ∈ oldIndex)
    (hn : Dict.get? newIndex i = some n) (hspec : o.kindSpec = some spec) :
    ∃ d, diffObject spec o n = some d ∧ d ∈ common := by
  obtain ⟨hsome, hmem⟩ := filterMapM_spec h
  obtain ⟨d?, hd?⟩ := hsome (i, o) (mem_sortOn.mpr ho)
  have hentry := hd?
  dsimp only at hd?
  rw [hn, hspec] at hd?
  obtain ⟨d, hd, rfl⟩ := Option.map_eq_some_iff.mp hd?
  exact ⟨d, hd, (hmem d).mpr ⟨(i, o), mem_sortOn.mpr ho, hentry⟩⟩

theorem mem_onlyIn {index other : List (Identity × SourceObject)} {o : SourceObject} :
    o ∈ onlyIn index other ↔ ∃ i, (i, o) ∈ index ∧ Dict.get? other i = none := by
  simp only [onlyIn, List.mem_map, mem_sortOn, List.mem_filter, Prod.exists, exists_eq_right,
    Option.isNone_iff_eq_none]

/-- What a diff lists, in terms of the objects of the two snapshots. -/
structure SnapshotDiff.Lists (s s' : Snapshot) (d : SnapshotDiff) : Prop where
  system : d.system = s.system
  removed : ∀ o ∈ knownObjects s.objects, (∃ n ∈ knownObjects s'.objects, n.identity = o.identity) ∨
    removedObject o ∈ d.removed
  added : ∀ n ∈ knownObjects s'.objects, (∃ o ∈ knownObjects s.objects, o.identity = n.identity) ∨
    addedObject n ∈ d.added
  common : ∀ o ∈ knownObjects s.objects, ∀ n ∈ knownObjects s'.objects, o.identity = n.identity →
    ∃ spec od, o.kindSpec = some spec ∧ diffObject spec o n = some od ∧
      (od.classification = .changedStructural → od ∈ d.changedStructural) ∧
      (od.classification = .changedMetadataOnly → od ∈ d.changedMetadataOnly)

theorem lists_of_diffSnapshots {s s' : Snapshot} {d : SnapshotDiff}
    (h : diffSnapshots s s' = some d) : d.Lists s s' := by
  unfold diffSnapshots at h
  by_cases hsystem : s.system ≠ s'.system
  · rw [if_pos hsystem] at h
    cases h
  · rw [if_neg hsystem] at h
    obtain ⟨⟨oldIndex, skipped⟩, hold, h⟩ := Option.bind_eq_some_iff.mp h
    obtain ⟨⟨newIndex, skipped'⟩, hnew, h⟩ := Option.bind_eq_some_iff.mp h
    obtain ⟨common, hcommon, h⟩ := Option.bind_eq_some_iff.mp h
    obtain rfl := Option.some.inj h
    obtain ⟨holdEq, holdNodup⟩ := indexObjects_eq hold
    obtain ⟨hnewEq, hnewNodup⟩ := indexObjects_eq hnew
    have hmem : ∀ {objects : List SourceObject} {index : List (Identity × SourceObject)},
        index = (knownObjects objects).map (fun o => (o.identity, o)) → ∀ {i o},
          ((i, o) ∈ index ↔ o ∈ knownObjects objects ∧ o.identity = i) := by
      rintro objects index rfl i o
      simp only [List.mem_map, Prod.mk.injEq]
      constructor
      · rintro ⟨o', ho', rfl, rfl⟩
        exact ⟨ho', rfl⟩
      · rintro ⟨ho, rfl⟩
        exact ⟨o, ho, rfl, rfl⟩
    have hlookup : ∀ {objects : List SourceObject} {index : List (Identity × SourceObject)},
        index = (knownObjects objects).map (fun o => (o.identity, o)) → ∀ i,
          (∃ o ∈ knownObjects objects, o.identity = i) ∨ Dict.get? index i = none := by
      intro objects index heq i
      cases hget : Dict.get? index i with
      | none => exact .inr rfl
      | some o => exact .inl ⟨o, (hmem heq).mp (Dict.mem_of_get? hget)⟩
    refine ⟨rfl, fun o ho => ?_, fun n hn => ?_, fun o ho n hn hid => ?_⟩
    · refine (hlookup hnewEq o.identity).imp_right fun hnone => ?_
      exact List.mem_map_of_mem (mem_onlyIn.mpr ⟨_, (hmem holdEq).mpr ⟨ho, rfl⟩, hnone⟩)
    · refine (hlookup holdEq n.identity).imp_right fun hnone => ?_
      exact List.mem_map_of_mem (mem_onlyIn.mpr ⟨_, (hmem hnewEq).mpr ⟨hn, rfl⟩, hnone⟩)
    · obtain ⟨spec, hspec⟩ := Option.isSome_iff_exists.mp (List.mem_filter.mp ho).2
      have hget : Dict.get? newIndex o.identity = some n :=
        Dict.get?_of_mem hnewNodup ((hmem hnewEq).mpr ⟨hn, hid.symm⟩)
      obtain ⟨od, hod, hcommonMem⟩ := commonDiffs_spec hcommon ((hmem holdEq).mpr ⟨ho, rfl⟩) hget hspec
      exact ⟨spec, od, hspec, hod, fun hclass => List.mem_filter.mpr ⟨hcommonMem, decide_eq_true hclass⟩,
        fun hclass => List.mem_filter.mpr ⟨hcommonMem, decide_eq_true hclass⟩⟩

/-! ### A missing list of keys -/

/-- The digests of some texts, and elsewhere no digest. -/
def knownDigest (known : List (PyStr × PyStr)) (bytes : List UInt8) : PyStr :=
  ((known.find? fun e => encodeUtf8 e.1 = some bytes).map Prod.snd).getD
    (.unit 0x78 :: bytes.map fun b => .unit b.toUInt16)

theorem knownDigest_injective {known : List (PyStr × PyStr)} (hnodup : (known.map Prod.snd).Nodup)
    (hdigest : ∀ e ∈ known, e.2.head? ≠ some (.unit 0x78)) :
    Function.Injective (knownDigest known) := by
  intro b b' h
  unfold knownDigest at h
  cases hb : known.find? fun e => encodeUtf8 e.1 = some b with
  | none =>
      cases hb' : known.find? fun e => encodeUtf8 e.1 = some b' with
      | none =>
          rw [hb, hb'] at h
          exact Snapshot.unitBytes_injective (List.cons.inj h).2
      | some e' =>
          rw [hb, hb'] at h
          exact absurd (congrArg List.head? h).symm (hdigest e' (List.mem_of_find?_eq_some hb'))
  | some e =>
      cases hb' : known.find? fun e => encodeUtf8 e.1 = some b' with
      | none =>
          rw [hb, hb'] at h
          exact absurd (congrArg List.head? h) (hdigest e (List.mem_of_find?_eq_some hb))
      | some e' =>
          rw [hb, hb'] at h
          have hsame := List.inj_on_of_nodup_map hnodup (List.mem_of_find?_eq_some hb)
            (List.mem_of_find?_eq_some hb') h
          have htext : encodeUtf8 e.1 = some b := of_decide_eq_true (List.find?_some hb :)
          have htext' : encodeUtf8 e'.1 = some b' := of_decide_eq_true (List.find?_some hb' :)
          rw [hsame] at htext
          exact Option.some.inj (htext.symm.trans htext')

/-- SHA-256 of the projections of the tables below. -/
def ordersDigest : List UInt8 → PyStr := knownDigest [
  (py "\x7b\"columns\":[],\"keys\":\x7b\x7d,\"kind\":\"table\",\"name\":\"orders\",\"schema\":\"public\",\"stats\":\x7b\x7d\x7d",
    py "63a54c2cdb7d6135e45d9f97f0847cad8dfa4d494d774e3088505493276cd134"),
  (py "\x7b\"columns\":[],\"keys\":\x7b\"primary\":[\"id\"]\x7d,\"kind\":\"table\",\"name\":\"orders\",\"schema\":\"public\",\"stats\":\x7b\x7d\x7d",
    py "ff64742f7dc8301ff2a90ca610f1f9511166d51895460db08af093292f2fbfb2"),
  (py "\x7b\"columns\":[],\"keys\":\x7b\"primary\":[]\x7d,\"kind\":\"table\",\"name\":\"orders\",\"schema\":\"public\",\"stats\":\x7b\x7d\x7d",
    py "7c44a1c39c369d65c3d0121008fed6e785a2b5eca9a3e625ed1bdada03496f30")]

theorem ordersDigest_injective : Function.Injective ordersDigest := by
  unfold ordersDigest
  iterate 6 rw [py_ofList]
  exact knownDigest_injective (by decide) (by decide)

def keyedOrders (primary : Option (List PyStr)) (hash : PyStr) (h : isSchemaHash hash = true) :
    SourceObject :=
  { ordersTable [] with keys := ⟨primary, none, none⟩, schemaHash := hash, schemaHash_pattern := h }

def ordersWithoutKeys : SourceObject := keyedOrders none
  (py "sha256:63a54c2cdb7d6135e45d9f97f0847cad8dfa4d494d774e3088505493276cd134") (by rw [py_ofList]; decide)

def ordersById : SourceObject := keyedOrders (some [py "id"])
  (py "sha256:ff64742f7dc8301ff2a90ca610f1f9511166d51895460db08af093292f2fbfb2") (by rw [py_ofList]; decide)

def ordersByNothing : SourceObject := keyedOrders (some [])
  (py "sha256:7c44a1c39c369d65c3d0121008fed6e785a2b5eca9a3e625ed1bdada03496f30") (by rw [py_ofList]; decide)

theorem identity_keyedOrders (primary : Option (List PyStr)) (hash : PyStr)
    (h : isSchemaHash hash = true) :
    (keyedOrders primary hash h).identity = (py "table", py "public", py "orders") := rfl

theorem isAccepted_singleton {sha256 : List UInt8 → PyStr} {o : SourceObject} (hkind : o.kindSpec.isSome)
    (h : schemaHash sha256 o = some o.schemaHash) : (demoSnapshot [o]).IsAccepted sha256 true := by
  refine ⟨⟨[o.identity], [], []⟩, ?_, rfl⟩
  obtain ⟨spec, hspec⟩ := Option.isSome_iff_exists.mp hkind
  simp [validateSnapshot, validateObject, demoSnapshot, hspec, h]

theorem accepted_orders : (demoSnapshot [ordersWithoutKeys]).IsAccepted ordersDigest true ∧
    (demoSnapshot [ordersById]).IsAccepted ordersDigest true ∧
      (demoSnapshot [ordersByNothing]).IsAccepted ordersDigest true := by
  refine ⟨isAccepted_singleton rfl ?_, isAccepted_singleton rfl ?_, isAccepted_singleton rfl ?_⟩
  all_goals
    unfold ordersDigest
    iterate 6 rw [py_ofList]
    decide +kernel

example : ordersByNothing.keys.primary = some [] := by decide +kernel

def tableSpec : KindSpec := ⟨.sql, [py "checks"], [py "row_estimate", py "indexes"]⟩

theorem distinguishable_keyedOrders {primary primary' : Option (List PyStr)}
    (hne : primary.getD [] ≠ primary'.getD []) {hash hash' : PyStr} (h : isSchemaHash hash = true)
    (h' : isSchemaHash hash' = true) :
    Distinguishable tableSpec (keyedOrders primary hash h) (keyedOrders primary' hash' h') := by
  refine ⟨fun _ => ⟨⟨.primary, hne⟩, fun c hc => ?_⟩, fun hsame => ?_⟩
  · cases c with
    | column name => exact absurd Iff.rfl hc
    | field f name => exact absurd rfl hc.1
    | primary => exact hne
    | foreign columns => exact absurd rfl hc
    | unique columns => exact absurd rfl hc
    | stat name => exact absurd rfl hc.2
  · have hkeys : (keyedOrders primary hash h).keys.primary = (keyedOrders primary' hash' h').keys.primary :=
      congrArg Keys.primary (SourceObject.columns_keys_of_structural hsame).2
    exact absurd (congrArg (Option.getD · []) hkeys) hne

theorem classified_primaryAdded : Distinguishable tableSpec ordersWithoutKeys ordersById ∧
    ((∃ d, diffObject tableSpec ordersWithoutKeys ordersById = some d ∧
      d.Complete tableSpec ordersWithoutKeys ordersById) ↔
      Distinguishable tableSpec ordersWithoutKeys ordersById) := by
  have hid : ordersWithoutKeys.identity = ordersById.identity := by
    rw [ordersWithoutKeys, ordersById, identity_keyedOrders, identity_keyedOrders]
  exact ⟨distinguishable_keyedOrders (by decide) _ _,
    classified_iff ordersDigest_injective accepted_orders.1 accepted_orders.2.1
      List.mem_cons_self List.mem_cons_self hid rfl⟩

/-- `"keys": {}` becomes `"keys": {"primary": []}`: a structural change of no parts. -/
theorem not_classified_emptyPrimary :
    ¬ ∀ (sha256 : List UInt8 → PyStr), Function.Injective sha256 → ∀ (s s' : Snapshot),
      s.IsAccepted sha256 true → s'.IsAccepted sha256 true → ∀ old ∈ s.objects, ∀ new ∈ s'.objects,
        old.identity = new.identity → ∀ spec, old.kindSpec = some spec →
          ∃ d, diffObject spec old new = some d ∧ d.Complete spec old new := by
  intro hlaw
  have hid : ordersWithoutKeys.identity = ordersByNothing.identity := by
    rw [ordersWithoutKeys, ordersByNothing, identity_keyedOrders, identity_keyedOrders]
  obtain ⟨d, hd, hcomplete⟩ := hlaw ordersDigest ordersDigest_injective _ _
    accepted_orders.1 accepted_orders.2.2 _ List.mem_cons_self _ List.mem_cons_self hid
    tableSpec rfl
  rw [diffObject_structural (by decide)] at hd
  obtain rfl := Option.some.inj hd
  exact (hcomplete.subDiffs rfl).1 (by decide)

end ContextLayer.Diff
