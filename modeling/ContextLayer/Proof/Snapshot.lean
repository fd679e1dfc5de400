import ContextLayer.Snapshot
import ContextLayer.Proof.PyJson

/-!
# When the canonical form does not depend on the order

Objects have unique identities and unique keys are compared whole, so two of the four arrays come out
the same whatever their order. Columns are sorted by an ordinal that two of them can share, and foreign
keys by joined names: there the order shows, unless what is sorted alike is the same.
-/

namespace ContextLayer

open Text StableSort

/-! ### Accepted snapshots -/

section

variable {sha256 : List UInt8 → PyStr} {checkHashes : Bool}

theorem validateObject_eq_some {st st' : ValidationState} {o : SourceObject}
    (h : validateObject sha256 checkHashes st o = some st') :
    st'.seen = o.identity :: st.seen ∧
      (st'.errors = [] → st.errors = [] ∧ o.identity ∉ st.seen ∧
        (checkHashes = true → o.kindSpec.isSome → schemaHash sha256 o = some o.schemaHash)) := by
  have herrors : (if o.identity ∈ st.seen then st.errors ++ [.duplicateIdentity o.identity]
      else st.errors) = [] → st.errors = [] ∧ o.identity ∉ st.seen := by
    intro hnil
    by_cases hseen : o.identity ∈ st.seen
    · rw [if_pos hseen] at hnil
      exact absurd hnil (List.append_ne_nil_of_right_ne_nil _ (List.cons_ne_nil _ _))
    · rw [if_neg hseen] at hnil
      exact ⟨hnil, hseen⟩
  unfold validateObject at h
  dsimp only at h
  split at h
  · rename_i hkind
    obtain rfl := Option.some.inj h
    refine ⟨rfl, fun hnil => ⟨(herrors hnil).1, (herrors hnil).2, fun _ hsome => ?_⟩⟩
    rw [Option.isNone_iff_eq_none.mp hkind] at hsome
    cases hsome
  · split at h
    · obtain ⟨recomputed, hrecomputed, h⟩ := Option.bind_eq_some_iff.mp h
      split at h
      · obtain rfl := Option.some.inj h
        exact ⟨rfl, fun hnil =>
          absurd hnil (List.append_ne_nil_of_right_ne_nil _ (List.cons_ne_nil _ _))⟩
      · rename_i hsame
        obtain rfl := Option.some.inj h
        rw [not_not] at hsame
        exact ⟨rfl, fun hnil => ⟨(herrors hnil).1, (herrors hnil).2, fun _ _ =>
          hsame ▸ hrecomputed⟩⟩
    · rename_i hcheck
      obtain rfl := Option.some.inj h
      exact ⟨rfl, fun hnil => ⟨(herrors hnil).1, (herrors hnil).2, fun htrue =>
        absurd htrue hcheck⟩⟩

theorem validateObjects_eq_some {objects : List SourceObject} {st st' : ValidationState}
    (h : objects.foldlM (validateObject sha256 checkHashes) st = some st') (hnil : st'.errors = []) :
    st.errors = [] ∧ (objects.map SourceObject.identity).Nodup ∧
      (∀ o ∈ objects, o.identity ∉ st.seen) ∧ (checkHashes = true → ∀ o ∈ objects,
        o.kindSpec.isSome → schemaHash sha256 o = some o.schemaHash) := by
  induction objects generalizing st with
  | nil =>
      obtain rfl := Option.some.inj h
      exact ⟨hnil, List.nodup_nil, List.forall_mem_nil _, fun _ => List.forall_mem_nil _⟩
  | cons o rest ih =>
      rw [List.foldlM_cons] at h
      obtain ⟨mid, hmid, hrest⟩ := Option.bind_eq_some_iff.mp h
      obtain ⟨hseen, hobject⟩ := validateObject_eq_some hmid
      obtain ⟨hmidNil, hnodup, hfresh, hhash⟩ := ih hrest
      obtain ⟨hstNil, hnew, hown⟩ := hobject hmidNil
      rw [hseen] at hfresh
      refine ⟨hstNil, ?_, ?_, ?_⟩
      · rw [List.map_cons, List.nodup_cons]
        refine ⟨fun hmem => ?_, hnodup⟩
        obtain ⟨o', ho', heq⟩ := List.mem_map.mp hmem
        exact hfresh o' ho' (heq ▸ List.mem_cons_self)
      · exact List.forall_mem_cons.mpr ⟨hnew, fun o' ho' hmem =>
          hfresh o' ho' (List.mem_cons_of_mem _ hmem)⟩
      · exact fun hcheck => List.forall_mem_cons.mpr ⟨hown hcheck, hhash hcheck⟩

variable {s : Snapshot}

theorem Snapshot.IsAccepted.nodup (h : s.IsAccepted sha256 checkHashes) :
    (s.objects.map SourceObject.identity).Nodup := by
  obtain ⟨st, hst, hnil⟩ := h
  exact (validateObjects_eq_some hst hnil).2.1

theorem Snapshot.IsAccepted.hash (h : s.IsAccepted sha256 true) {o : SourceObject}
    (ho : o ∈ s.objects) (hkind : o.kindSpec.isSome) : schemaHash sha256 o = some o.schemaHash := by
  obtain ⟨st, hst, hnil⟩ := h
  exact (validateObjects_eq_some hst hnil).2.2.2 rfl o ho hkind

end

/-! ### Values -/

namespace PyJson

theorem field_eq {v w : PyJson} (h : v.sortKeys = w.sortKeys) (key : String) :
    (v.field key).map sortKeys = (w.field key).map sortKeys := by
  rw [← field_sortKeys, h, field_sortKeys]

theorem ofOption_inj {a b : Option PyStr} (h : ofOption a = ofOption b) : a = b := by
  cases a <;> cases b <;> cases h <;> rfl

theorem sortKeys_ofOption (a : Option PyStr) : (ofOption a).sortKeys = ofOption a := by
  cases a <;> rfl

theorem sortKeys_strings (items : List PyStr) : (strings items).sortKeys = strings items := by
  rw [strings, sortKeys_arr, List.map_map]
  rfl

theorem strings_inj {a b : List PyStr} (h : strings a = strings b) : a = b :=
  List.map_injective_iff.mpr (fun _ _ => PyJson.str.inj) (PyJson.arr.inj h)

end PyJson

open PyJson

theorem Ordinal.ext_number {m n : Ordinal} (h : m.number = n.number) : m = n := by
  cases m
  cases n
  cases h
  rfl

theorem Column.structural_of_toPy {c c' : Column}
    (h : (PyJson.obj c.structuralMembers).sortKeys = (PyJson.obj c'.structuralMembers).sortKeys) :
    c.structural = c'.structural := by
  have hname : c.name = c'.name := PyJson.str.inj (Option.some.inj (field_eq h "name"))
  have htype : c.type = c'.type := PyJson.str.inj (Option.some.inj (field_eq h "type"))
  have hnullable : c.nullable = c'.nullable :=
    PyJson.bool.inj (Option.some.inj (field_eq h "nullable"))
  have hdefault : (ofOption c.default).sortKeys = (ofOption c'.default).sortKeys :=
    Option.some.inj (field_eq h "default")
  have hordinal : c.ordinal.number = c'.ordinal.number :=
    PyJson.number.inj (Option.some.inj (field_eq h "ordinal"))
  rw [sortKeys_ofOption, sortKeys_ofOption] at hdefault
  rw [structural, structural, hname, htype, hnullable, ofOption_inj hdefault,
    Ordinal.ext_number hordinal]

theorem Column.toPy_inj {c c' : Column} (h : c.toPy.sortKeys = c'.toPy.sortKeys) : c = c' := by
  have hname : c.name = c'.name := PyJson.str.inj (Option.some.inj (field_eq h "name"))
  have htype : c.type = c'.type := PyJson.str.inj (Option.some.inj (field_eq h "type"))
  have hnullable : c.nullable = c'.nullable :=
    PyJson.bool.inj (Option.some.inj (field_eq h "nullable"))
  have hdefault : (ofOption c.default).sortKeys = (ofOption c'.default).sortKeys :=
    Option.some.inj (field_eq h "default")
  have hordinal : c.ordinal.number = c'.ordinal.number :=
    PyJson.number.inj (Option.some.inj (field_eq h "ordinal"))
  have hdescription : (ofOption c.description).sortKeys = (ofOption c'.description).sortKeys :=
    Option.some.inj (field_eq h "description")
  rw [sortKeys_ofOption, sortKeys_ofOption] at hdefault hdescription
  cases c
  cases c'
  cases hname
  cases htype
  cases hnullable
  cases ofOption_inj hdefault
  cases Ordinal.ext_number hordinal
  cases ofOption_inj hdescription
  rfl

theorem ForeignKey.toPy_inj {fk fk' : ForeignKey} (h : fk.toPy.sortKeys = fk'.toPy.sortKeys) :
    fk = fk' := by
  have hcolumns : (strings fk.columns).sortKeys = (strings fk'.columns).sortKeys :=
    Option.some.inj (field_eq h "columns")
  have href : fk.ref = fk'.ref := PyJson.str.inj (Option.some.inj (field_eq h "ref"))
  have hrefColumns : (strings fk.refColumns).sortKeys = (strings fk'.refColumns).sortKeys :=
    Option.some.inj (field_eq h "ref_columns")
  rw [sortKeys_strings, sortKeys_strings] at hcolumns hrefColumns
  cases fk
  cases fk'
  cases strings_inj hcolumns
  cases href
  cases strings_inj hrefColumns
  rfl

theorem map_sortKeys_inj {α : Type} {toPy : α → PyJson}
    (hinj : ∀ {a b : α}, (toPy a).sortKeys = (toPy b).sortKeys → a = b) {l l' : List α}
    (h : (PyJson.arr (l.map toPy)).sortKeys = (PyJson.arr (l'.map toPy)).sortKeys) : l = l' := by
  rw [sortKeys_arr, sortKeys_arr, List.map_map, List.map_map] at h
  exact List.map_injective_iff.mpr (fun _ _ => hinj) (PyJson.arr.inj h)

/-- What one function tells apart, lists of its values tell apart. -/
theorem map_eq_map_of_factors {α β γ : Type} {g : α → β} {f : α → γ}
    (hfactors : ∀ a b, g a = g b → f a = f b) {l l' : List α} (h : l.map g = l'.map g) :
    l.map f = l'.map f := by
  induction l generalizing l' with
  | nil => rw [List.map_eq_nil_iff.mp h.symm]
  | cons a l ih =>
      cases l' with
      | nil => cases h
      | cons b l' =>
          rw [List.map_cons, List.map_cons, List.cons.injEq] at h
          rw [List.map_cons, List.map_cons, hfactors a b h.1, ih h.2]

theorem option_map_inj {α β : Type} {f : α → β} (hinj : ∀ {a b : α}, f a = f b → a = b)
    {a b : Option α} (h : a.map f = b.map f) : a = b :=
  Option.map_injective (fun _ _ => hinj) h

namespace Keys

theorem field_primary (k : Keys) : k.toPy.field "primary" = k.primary.map strings := by
  obtain ⟨primary, foreign, unique⟩ := k
  cases primary <;> cases foreign <;> cases unique <;> rfl

theorem field_foreign (k : Keys) :
    k.toPy.field "foreign" = k.foreign.map fun fks => .arr (fks.map ForeignKey.toPy) := by
  obtain ⟨primary, foreign, unique⟩ := k
  cases primary <;> cases foreign <;> cases unique <;> rfl

theorem field_unique (k : Keys) :
    k.toPy.field "unique" = k.unique.map fun sets => .arr (sets.map strings) := by
  obtain ⟨primary, foreign, unique⟩ := k
  cases primary <;> cases foreign <;> cases unique <;> rfl

theorem toPy_inj {k k' : Keys} (h : k.toPy.sortKeys = k'.toPy.sortKeys) : k = k' := by
  have hprimary := field_eq h "primary"
  have hforeign := field_eq h "foreign"
  have hunique := field_eq h "unique"
  rw [field_primary, field_primary, Option.map_map, Option.map_map] at hprimary
  rw [field_foreign, field_foreign, Option.map_map, Option.map_map] at hforeign
  rw [field_unique, field_unique, Option.map_map, Option.map_map] at hunique
  have hstrings : ∀ {a b : List PyStr}, (strings a).sortKeys = (strings b).sortKeys → a = b := by
    intro a b hab
    rw [sortKeys_strings, sortKeys_strings] at hab
    exact strings_inj hab
  cases k
  cases k'
  cases option_map_inj hstrings hprimary
  cases option_map_inj (map_sortKeys_inj ForeignKey.toPy_inj) hforeign
  cases option_map_inj (map_sortKeys_inj hstrings) hunique
  rfl

end Keys

theorem SourceObject.columns_keys_of_toPy {o o' : SourceObject}
    (h : o.toPy.sortKeys = o'.toPy.sortKeys) : o.columns = o'.columns ∧ o.keys = o'.keys :=
  ⟨map_sortKeys_inj Column.toPy_inj (Option.some.inj (field_eq h "columns")),
    Keys.toPy_inj (Option.some.inj (field_eq h "keys"))⟩

theorem SourceObject.columns_keys_of_structural {spec : KindSpec} {o o' : SourceObject}
    (h : (o.structural spec).sortKeys = (o'.structural spec).sortKeys) :
    o.columns.map Column.structural = o'.columns.map Column.structural ∧ o.keys = o'.keys := by
  refine ⟨?_, Keys.toPy_inj (Option.some.inj (field_eq h "keys"))⟩
  have hcolumns : (PyJson.arr (o.columns.map fun c => .obj c.structuralMembers)).sortKeys =
      (PyJson.arr (o'.columns.map fun c => .obj c.structuralMembers)).sortKeys :=
    Option.some.inj (field_eq h "columns")
  rw [sortKeys_arr, sortKeys_arr, List.map_map, List.map_map] at hcolumns
  exact map_eq_map_of_factors (fun _ _ => Column.structural_of_toPy) (PyJson.arr.inj hcolumns)

/-! ### One object -/

theorem PyStr.sortOn_unique {sets sets' : List (List PyStr)} (h : sets'.Perm sets) :
    sortOn id sets' = sortOn id sets :=
  sortOn_eq_of_perm (fun _ _ _ _ heq => heq) h

namespace SourceObject

variable {o o' : SourceObject}

theorem Reordered.refl (o : SourceObject) : o.Reordered o := by
  refine ⟨.refl _, ⟨rfl, ?_, ?_⟩, rfl⟩
  · cases o.keys.foreign <;> constructor
    exact .refl _
  · cases o.keys.unique <;> constructor
    exact .refl _

theorem Reordered.identity_eq (h : o.Reordered o') : o'.identity = o.identity := by
  rw [h.2.2]
  rfl

theorem Reordered.kindSpec_eq (h : o.Reordered o') : o'.kindSpec = o.kindSpec := by
  rw [h.2.2]
  rfl

theorem reordered_orderedObject (o : SourceObject) : o.Reordered (orderedObject o) := by
  refine ⟨sortOn_perm, ⟨rfl, ?_, ?_⟩, rfl⟩
  · change Option.Rel List.Perm (o.keys.foreign.map (sortOn ForeignKey.sortKey)) o.keys.foreign
    cases o.keys.foreign <;> constructor
    exact sortOn_perm
  · change Option.Rel List.Perm (o.keys.unique.map (sortOn id)) o.keys.unique
    cases o.keys.unique <;> constructor
    exact sortOn_perm

/-- **One object** comes out the same in every order exactly when the sort keys decide. -/
theorem keysDecide_iff {β : Type} (look : Column → β) (o : SourceObject) : o.KeysDecide look ↔
    ∀ o', o.Reordered o' →
      (orderedObject o').columns.map look = (orderedObject o).columns.map look ∧
        (orderedObject o').keys = (orderedObject o).keys := by
  constructor
  · rintro ⟨hcolumns, hforeign⟩ o' ⟨hperm, ⟨hprimary, hforeignPerm, huniquePerm⟩, -⟩
    refine ⟨(map_sortOn_iff look).mpr hcolumns _ hperm, ?_⟩
    have hfks : o'.keys.foreign.map (sortOn ForeignKey.sortKey) =
        o.keys.foreign.map (sortOn ForeignKey.sortKey) := by
      generalize o.keys.foreign = fks at hforeign hforeignPerm
      generalize o'.keys.foreign = fks' at hforeignPerm
      cases hforeignPerm with
      | some hfks => exact congrArg some (sortOn_eq_of_perm hforeign hfks)
      | none => rfl
    have hsets : o'.keys.unique.map (sortOn id) = o.keys.unique.map (sortOn id) := by
      generalize o.keys.unique = sets at huniquePerm
      generalize o'.keys.unique = sets' at huniquePerm
      cases huniquePerm with
      | some hsets => exact congrArg some (PyStr.sortOn_unique hsets)
      | none => rfl
    change orderedKeys o'.keys = orderedKeys o.keys
    rw [orderedKeys, orderedKeys, hprimary, hfks, hsets]
  · intro h
    constructor
    · refine (map_sortOn_iff look).mp fun columns hperm => ?_
      exact (h { o with columns } ⟨hperm, (Reordered.refl o).2.1, rfl⟩).1
    · have hself := (Reordered.refl o).2.1
      cases hforeign : o.keys.foreign with
      | none => exact fun fk hfk => absurd hfk List.not_mem_nil
      | some fks =>
          refine (map_sortOn_iff id).mp fun fks' hperm => ?_
          have hkeys := (h { o with keys := { o.keys with foreign := some fks' } } ⟨.refl _,
            ⟨rfl, by rw [hforeign]; exact .some hperm, hself.2.2⟩, rfl⟩).2
          have hfks := congrArg Keys.foreign hkeys
          change some (sortOn ForeignKey.sortKey fks') =
            o.keys.foreign.map (sortOn ForeignKey.sortKey) at hfks
          rw [hforeign] at hfks
          exact congrArg (List.map id) (Option.some.inj hfks)

theorem isEncodable_obj_congr {members members' : List (PyStr × PyJson)}
    (h : (members.map fun m => (m.1, m.2.isEncodable)) =
      members'.map fun m => (m.1, m.2.isEncodable)) :
    (PyJson.obj members).isEncodable = (PyJson.obj members').isEncodable := by
  have hall : ∀ members : List (PyStr × PyJson), (PyJson.obj members).isEncodable =
      (members.map fun m => (m.1, m.2.isEncodable)).all
        fun m => !m.1.any CodePoint.isLone && m.2 := by
    intro members
    rw [PyJson.isEncodable, isEncodableMembers_eq_all, List.all_map]
    rfl
  rw [hall, hall, h]

theorem isEncodable_arr_perm {α : Type} (f : α → PyJson) {l l' : List α} (h : l'.Perm l) :
    (PyJson.arr (l'.map f)).isEncodable = (PyJson.arr (l.map f)).isEncodable := by
  rw [PyJson.isEncodable, PyJson.isEncodable, isEncodableItems_eq_all, isEncodableItems_eq_all]
  exact (h.map f).all_eq

theorem isEncodable_keys {k k' : Keys} (h : k.Reordered k') :
    k'.toPy.isEncodable = k.toPy.isEncodable := by
  obtain ⟨primary, foreign, unique⟩ := k
  obtain ⟨primary', foreign', unique'⟩ := k'
  obtain ⟨rfl, hforeign, hunique⟩ := h
  refine isEncodable_obj_congr ?_
  cases hforeign with
  | some hfks =>
      cases hunique with
      | some hsets => simp [isEncodable_arr_perm _ hfks, isEncodable_arr_perm _ hsets]
      | none => simp [isEncodable_arr_perm _ hfks]
  | none =>
      cases hunique with
      | some hsets => simp [isEncodable_arr_perm _ hsets]
      | none => rfl

theorem Reordered.isEncodable_toPy (h : o.Reordered o') :
    o'.toPy.isEncodable = o.toPy.isEncodable := by
  obtain ⟨hcolumns, hkeys, hrest⟩ := h
  rw [hrest]
  refine isEncodable_obj_congr ?_
  simp only [List.map_cons, List.map_nil, isEncodable_arr_perm _ hcolumns, isEncodable_keys hkeys]

theorem Reordered.isEncodable_structural (h : o.Reordered o') (spec : KindSpec) :
    (o'.structural spec).isEncodable = (o.structural spec).isEncodable := by
  obtain ⟨hcolumns, hkeys, hrest⟩ := h
  rw [hrest]
  refine isEncodable_obj_congr ?_
  simp only [List.map_cons, List.map_nil, isEncodable_arr_perm _ hcolumns, isEncodable_keys hkeys]

theorem toPy_congr (h : (orderedObject o').columns.map id = (orderedObject o).columns.map id)
    (hkeys : (orderedObject o').keys = (orderedObject o).keys) (hreordered : o.Reordered o') :
    orderedObject o' = orderedObject o := by
  rw [List.map_id, List.map_id] at h
  obtain ⟨-, -, hrest⟩ := hreordered
  rw [orderedObject] at h hkeys ⊢
  rw [hrest] at h hkeys ⊢
  rw [orderedObject] at h hkeys ⊢
  dsimp only at h hkeys ⊢
  rw [h, hkeys]

/-- The projection sees the structural part of the columns only. -/
theorem structuralProjection_congr {spec : KindSpec}
    (h : (orderedObject o').columns.map Column.structural =
      (orderedObject o).columns.map Column.structural)
    (hkeys : (orderedObject o').keys = (orderedObject o).keys) (hreordered : o.Reordered o') :
    structuralProjection spec o' = structuralProjection spec o := by
  have hmembers : ((orderedObject o').columns.map fun c => PyJson.obj c.structuralMembers) =
      (orderedObject o).columns.map fun c => PyJson.obj c.structuralMembers := by
    refine map_eq_map_of_factors (fun c c' heq => ?_) h
    simp only [Column.structural, Prod.mk.injEq] at heq
    obtain ⟨hname, htype, hnullable, hdefault, hordinal⟩ := heq
    simp only [Column.structuralMembers, hname, htype, hnullable, hdefault, hordinal]
  rw [structuralProjection, structuralProjection, structural, structural, hmembers, hkeys]
  obtain ⟨-, -, hrest⟩ := hreordered
  rw [hrest]
  rfl

end SourceObject

/-! ### Whole snapshots -/

namespace Snapshot

variable {s s' : Snapshot}

theorem body_congr {objects : List SourceObject} (h : (PyJson.arr (objects.map SourceObject.toPy)).isEncodable
      = (PyJson.arr (s.objects.map SourceObject.toPy)).isEncodable) :
    ({ s with objects } : Snapshot).body.isEncodable = s.body.isEncodable := by
  refine SourceObject.isEncodable_obj_congr ?_
  simp only [List.map_append, List.map_cons, List.map_nil, h]

theorem Reordered.isEncodable_body (h : s.Reordered s') : s'.body.isEncodable = s.body.isEncodable := by
  obtain ⟨⟨objects, hobjects, hperm⟩, hrest⟩ := h
  have heach : (objects.map SourceObject.toPy).map PyJson.isEncodable =
      (s.objects.map SourceObject.toPy).map PyJson.isEncodable := by
    rw [List.map_map, List.map_map]
    generalize s.objects = objects₀ at hobjects
    clear hperm
    induction hobjects with
    | nil => rfl
    | cons ho _ ih => rw [List.map_cons, List.map_cons, ih, Function.comp_apply, Function.comp_apply,
        ho.isEncodable_toPy]
  rw [hrest]
  refine body_congr ?_
  rw [SourceObject.isEncodable_arr_perm _ hperm, PyJson.isEncodable, PyJson.isEncodable,
    isEncodableItems_eq_all, isEncodableItems_eq_all, ← Function.id_comp PyJson.isEncodable,
    ← List.all_map, ← List.all_map, heach]

theorem reordered_ordered (s : Snapshot) : s.Reordered (ordered s) := by
  refine ⟨⟨s.objects.map orderedObject, ?_, sortOn_perm.map _⟩, rfl⟩
  rw [List.forall₂_map_right_iff]
  exact List.forall₂_same.mpr fun o _ => SourceObject.reordered_orderedObject o

theorem sortKey_inj {o o' : SourceObject} (h : o.sortKey = o'.sortKey) : o.identity = o'.identity := by
  have hpair := toLex.injective h
  exact Prod.ext (congrArg Prod.fst hpair) (toLex.injective (congrArg Prod.snd hpair))

/-- Where every object comes out the same in every order, so does the body. -/
theorem ordered_congr (hnodup : (s.objects.map SourceObject.identity).Nodup)
    (hdecide : ∀ o ∈ s.objects, o.KeysDecide id) (h : s.Reordered s') : ordered s' = ordered s := by
  obtain ⟨⟨objects, hobjects, hperm⟩, hrest⟩ := h
  have heach : objects.map orderedObject = s.objects.map orderedObject := by
    generalize s.objects = objects₀ at hobjects hdecide
    clear hnodup hperm
    induction hobjects with
    | nil => rfl
    | cons ho _ ih =>
        rw [List.forall_mem_cons] at hdecide
        have hself := (SourceObject.keysDecide_iff id _).mp hdecide.1 _ ho
        rw [List.map_cons, List.map_cons, ih hdecide.2,
          SourceObject.toPy_congr hself.1 hself.2 ho]
  have hsort : ∀ l : List SourceObject, (sortOn SourceObject.sortKey l).map orderedObject =
      sortOn SourceObject.sortKey (l.map orderedObject) :=
    fun l => (sortOn_map orderedObject fun o => (rfl : (orderedObject o).sortKey = o.sortKey)).symm
  have hobjects' : (sortOn SourceObject.sortKey s'.objects).map orderedObject =
      (sortOn SourceObject.sortKey s.objects).map orderedObject := by
    rw [hsort, hsort]
    refine sortOn_eq_of_perm ?_ (heach ▸ hperm.map orderedObject)
    intro o ho o' ho' hkey
    obtain ⟨o, hmem, rfl⟩ := List.mem_map.mp ho
    obtain ⟨o', hmem', rfl⟩ := List.mem_map.mp ho'
    rw [List.inj_on_of_nodup_map hnodup hmem hmem' (sortKey_inj hkey)]
  rw [ordered, ordered, hobjects', hrest]

/-- The snapshot with another object in the place of one. -/
def withObject (s : Snapshot) (o o' : SourceObject) : Snapshot :=
  { s with objects := s.objects.map fun x => if x.identity = o.identity then o' else x }

theorem reordered_withObject (hnodup : (s.objects.map SourceObject.identity).Nodup)
    {o o' : SourceObject} (ho : o ∈ s.objects) (h : o.Reordered o') :
    s.Reordered (s.withObject o o') := by
  refine ⟨⟨_, ?_, .refl _⟩, rfl⟩
  rw [withObject, List.forall₂_map_right_iff, List.forall₂_same]
  intro x hx
  by_cases hid : x.identity = o.identity
  · rw [if_pos hid, List.inj_on_of_nodup_map hnodup hx ho hid]
    exact h
  · rw [if_neg hid]
    exact .refl x

/-- Two snapshots with the same bytes have the same value in every object. -/
theorem orderedObject_of_bytes (hencodable : s.body.isEncodable = true) {o o' : SourceObject} (ho : o ∈ s.objects)
    (h : o.Reordered o')
    (hbytes : canonicalBodyBytes (s.withObject o o') = canonicalBodyBytes s) :
    (orderedObject o').toPy.sortKeys = (orderedObject o).toPy.sortKeys := by
  have hordered : (ordered s).body.isEncodable = true :=
    (reordered_ordered s).isEncodable_body.trans hencodable
  have hvalue := canonicalBytes_inj hordered hbytes.symm
  have hobjects : (PyJson.arr ((ordered s).objects.map SourceObject.toPy)).sortKeys =
      (PyJson.arr ((ordered (s.withObject o o')).objects.map SourceObject.toPy)).sortKeys :=
    Option.some.inj (field_eq hvalue "objects")
  have hkey : ∀ x : SourceObject,
      (if x.identity = o.identity then o' else x).sortKey = x.sortKey := by
    intro x
    by_cases hid : x.identity = o.identity
    · rw [if_pos hid]
      have := h.identity_eq.trans hid.symm
      simp only [SourceObject.identity, Prod.mk.injEq] at this
      simp only [SourceObject.sortKey, this]
    · rw [if_neg hid]
  have hsort : (ordered (s.withObject o o')).objects =
      ((sortOn SourceObject.sortKey s.objects).map fun x =>
        if x.identity = o.identity then o' else x).map orderedObject := by
    rw [ordered, withObject, sortOn_map _ hkey]
  rw [sortKeys_arr, sortKeys_arr, hsort] at hobjects
  simp only [ordered, List.map_map] at hobjects
  have hpoint := List.map_inj_left.mp (PyJson.arr.inj hobjects) o (mem_sortOn.mpr ho)
  simpa using hpoint.symm

/-- A digest that is no digest. -/
theorem unitBytes_injective :
    Function.Injective fun bytes : List UInt8 => bytes.map fun b => CodePoint.unit b.toUInt16 :=
  List.map_injective_iff.mpr fun a b h => by
    have hnat : a.toUInt16.toNat = b.toUInt16.toNat := congrArg UInt16.toNat (CodePoint.unit.inj h)
    rw [UInt8.toNat_toUInt16, UInt8.toNat_toUInt16] at hnat
    exact UInt8.toNat_inj.mp hnat

theorem structural_of_hash {spec : KindSpec} {o o' : SourceObject} (hspec : o.kindSpec = some spec)
    (hencodable : (o.structural spec).isEncodable = true) (h : o.Reordered o')
    (hhash : ∀ sha256, schemaHash sha256 o' = schemaHash sha256 o) :
    (structuralProjection spec o').sortKeys = (structuralProjection spec o).sortKeys := by
  have hordered : (structuralProjection spec o).isEncodable = true :=
    ((SourceObject.reordered_orderedObject o).isEncodable_structural spec).trans hencodable
  have hdigest := hhash fun bytes => bytes.map fun b => .unit b.toUInt16
  have hspec' : o'.kindSpec = some spec := h.kindSpec_eq.trans hspec
  simp only [schemaHash, hspec, hspec', Option.bind_eq_bind, Option.bind_some] at hdigest
  have hmap : ∀ bytes? : Option (List UInt8),
      (bytes?.bind fun bytes => pure (py "sha256:" ++ bytes.map fun b => CodePoint.unit b.toUInt16)) =
        bytes?.map fun bytes => py "sha256:" ++ bytes.map fun b => CodePoint.unit b.toUInt16 :=
    fun bytes? => by cases bytes? <;> rfl
  rw [hmap, hmap] at hdigest
  exact (canonicalBytes_inj hordered (option_map_inj (fun heq =>
    unitBytes_injective (List.append_cancel_left heq)) hdigest).symm).symm

/-- **The canonical form is independent of the order** exactly where the sort keys decide. -/
theorem orderIndependent_iff {sha256 : List UInt8 → PyStr} {checkHashes : Bool}
    (h : s.IsAccepted sha256 checkHashes) : s.OrderIndependent ↔ s.SortKeysDecide := by
  have hnodup := h.nodup
  constructor
  · intro hindependent
    constructor
    · intro hencodable o ho
      refine (SourceObject.keysDecide_iff id o).mpr fun o' hreordered => ?_
      have hvalue := orderedObject_of_bytes hencodable ho hreordered
        (hindependent.body _ (reordered_withObject hnodup ho hreordered))
      obtain ⟨hcolumns, hkeys⟩ := SourceObject.columns_keys_of_toPy hvalue
      exact ⟨by rw [hcolumns], hkeys⟩
    · intro o ho spec hspec hencodable
      refine (SourceObject.keysDecide_iff Column.structural o).mpr fun o' hreordered => ?_
      have hvalue := structural_of_hash hspec hencodable hreordered
        (hindependent.hash o ho (Option.isSome_of_mem hspec) o' hreordered)
      exact SourceObject.columns_keys_of_structural hvalue
  · intro hdecide
    constructor
    · intro s' hreordered
      cases hencodable : s.body.isEncodable with
      | true =>
          rw [canonicalBodyBytes, canonicalBodyBytes,
            ordered_congr hnodup (hdecide.body hencodable) hreordered]
      | false =>
          have hnone : ∀ {s'}, s.Reordered s' → canonicalBodyBytes s' = none := by
            intro s' hreordered
            rw [canonicalBodyBytes, canonicalBytes_eq, (reordered_ordered s').isEncodable_body,
              hreordered.isEncodable_body, hencodable]
            rfl
          have hself : canonicalBodyBytes s = none := by
            rw [canonicalBodyBytes, canonicalBytes_eq, (reordered_ordered s).isEncodable_body,
              hencodable]
            rfl
          rw [hnone hreordered, hself]
    · intro o ho hkind o' hreordered sha256
      obtain ⟨spec, hspec⟩ := Option.isSome_iff_exists.mp hkind
      have hspec' : o'.kindSpec = some spec := hreordered.kindSpec_eq.trans hspec
      have hbytes : (structuralProjection spec o').canonicalBytes =
          (structuralProjection spec o).canonicalBytes := by
        cases hencodable : (o.structural spec).isEncodable with
        | true =>
            have hkeys := (SourceObject.keysDecide_iff Column.structural o).mp
              (hdecide.hash o ho spec hspec hencodable) o' hreordered
            rw [SourceObject.structuralProjection_congr hkeys.1 hkeys.2 hreordered]
        | false =>
            rw [canonicalBytes_eq, canonicalBytes_eq, structuralProjection, structuralProjection,
              (SourceObject.reordered_orderedObject o').isEncodable_structural,
              (SourceObject.reordered_orderedObject o).isEncodable_structural,
              hreordered.isEncodable_structural, hencodable]
            rfl
      rw [schemaHash, schemaHash, hspec, hspec', Option.bind_eq_bind, Option.bind_eq_bind,
        Option.bind_some, Option.bind_some, hbytes]

end Snapshot

/-! ### Two columns at one place -/

/-- A literal is its list of characters, which spares the kernel its bytes. -/
theorem py_ofList (l : List Char) : py (String.ofList l) = codePoints (l.flatMap ofChar) := by
  rw [py, js, String.toList_ofList]

def ordinalAt (n : Nat) (h : 1 ≤ n) : Ordinal where
  number := .int n
  integral := Rat.den_intCast n
  minimum := by
    rw [PyNumber.value]
    exact_mod_cast h

def textColumn (name : PyStr) (hname : name ≠ []) (n : Nat) (h : 1 ≤ n) : Column where
  name := name
  type := py "text"
  nullable := true
  default := none
  ordinal := ordinalAt n h
  description := none
  name_ne := hname
  type_ne := by decide

def ordersTable (columns : List Column) : SourceObject where
  kind := py "table"
  schema := py "public"
  name := py "orders"
  description := none
  schemaHash := py "sha256:0000000000000000000000000000000000000000000000000000000000000000"
  columns := columns
  keys := ⟨none, none, none⟩
  stats := []
  kind_ne := by decide
  schema_ne := by decide
  name_ne := by decide
  schemaHash_pattern := by rw [py_ofList]; decide
  stats_nodup := List.nodup_nil

def demoSnapshot (objects : List SourceObject) : Snapshot where
  system := py "demo"
  systemClass := .sql
  sourceMode := .live
  capturedAt := py "2026-07-10T00:00:00Z"
  connectorName := py "static-demo"
  connectorVersion := py "0.1.0"
  sourceProperties := none
  objects := objects
  system_ne := by decide

def columnA (n : Nat) (h : 1 ≤ n) : Column := textColumn (py "a") (by decide) n h

def columnB (n : Nat) (h : 1 ≤ n) : Column := textColumn (py "b") (by decide) n h

theorem orderIndependent_twoColumns :
    let s := demoSnapshot [ordersTable [columnA 1 (by decide), columnB 2 (by decide)]]
    s.SortKeysDecide ∧ (s.OrderIndependent ↔ s.SortKeysDecide) := by
  have haccepted : (demoSnapshot [ordersTable [columnA 1 (by decide),
      columnB 2 (by decide)]]).IsAccepted (fun _ => []) false := ⟨_, rfl, rfl⟩
  refine ⟨⟨fun _ => by decide, fun o ho spec _ _ => ?_⟩, Snapshot.orderIndependent_iff haccepted⟩
  obtain rfl := List.mem_singleton.mp ho
  decide

/-- Two columns claim the first place, and come out in the order they were listed in. -/
theorem not_orderIndependent_sharedOrdinal :
    ¬ ∀ (sha256 : List UInt8 → PyStr) (s : Snapshot), s.IsAccepted sha256 false →
      s.OrderIndependent := by
  intro hlaw
  have haccepted : (demoSnapshot [ordersTable [columnA 1 (by decide),
      columnB 1 (by decide)]]).IsAccepted (fun _ => []) false := ⟨_, rfl, rfl⟩
  have hindependent := hlaw _ _ haccepted
  have hswapped : (ordersTable [columnA 1 (by decide), columnB 1 (by decide)]).Reordered
      (ordersTable [columnB 1 (by decide), columnA 1 (by decide)]) :=
    ⟨.swap _ _ _, (SourceObject.Reordered.refl _).2.1, rfl⟩
  have hvalue := Snapshot.orderedObject_of_bytes (by decide) List.mem_cons_self hswapped
    (hindependent.body _
      (Snapshot.reordered_withObject haccepted.nodup List.mem_cons_self hswapped))
  have hnames := congrArg (List.map Column.name) (SourceObject.columns_keys_of_toPy hvalue).1
  revert hnames
  decide

end ContextLayer
