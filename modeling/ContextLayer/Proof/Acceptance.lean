import ContextLayer.Acceptance
import ContextLayer.Proof.Snapshot

/-!
# Acceptance is a fixpoint

What is stored is read back as the ordered snapshot with its open members sorted. Ordering it again
changes nothing, the hashes do not see the difference, and so the gate answers with the same bytes.
-/

namespace ContextLayer

open Text StableSort

namespace PyJson

/-! ### Members in order -/

def orderedMembers (members : List (PyStr × PyJson)) : List (PyStr × PyJson) :=
  sortOn Prod.fst (members.map fun m => (m.1, m.2.sortKeys))

theorem sortKeys_eq_orderedMembers (members : List (PyStr × PyJson)) :
    (obj members).sortKeys = obj (orderedMembers members) := sortKeys_obj members

theorem orderedMembers_perm (members : List (PyStr × PyJson)) :
    (orderedMembers members).Perm (members.map fun m => (m.1, m.2.sortKeys)) := sortOn_perm

theorem nodup_orderedMembers {members : List (PyStr × PyJson)} (h : (members.map Prod.fst).Nodup) :
    ((orderedMembers members).map Prod.fst).Nodup := by
  rw [((orderedMembers_perm members).map Prod.fst).nodup_iff, List.map_map]
  exact h

theorem sortKeys_sortKeys (v : PyJson) : v.sortKeys.sortKeys = v.sortKeys := by
  induction v using PyJson.induction with
  | null | bool | number | nonFinite | str => rfl
  | arr items ih =>
      rw [sortKeys_arr, sortKeys_arr, List.map_map]
      exact congrArg arr (List.map_congr_left ih)
  | obj members ih =>
      have heach : (orderedMembers members).map (fun m => (m.1, m.2.sortKeys)) = orderedMembers members := by
        refine (List.map_congr_left fun m hm => ?_).trans (List.map_id _)
        obtain ⟨m', hm', rfl⟩ := List.mem_map.mp ((orderedMembers_perm members).subset hm)
        exact Prod.ext rfl (ih m' hm')
      rw [sortKeys_eq_orderedMembers, sortKeys_obj, heach]
      exact congrArg obj sortOn_sortOn

/-- Members that differ in their order, and in the order within them. -/
theorem sortKeys_obj_perm {members members' : List (PyStr × PyJson)}
    (hnodup : (members.map Prod.fst).Nodup)
    (h : (members'.map fun m => (m.1, m.2.sortKeys)).Perm (members.map fun m => (m.1, m.2.sortKeys))) :
    (obj members').sortKeys = (obj members).sortKeys := by
  have hinj : ∀ a ∈ members.map (fun m => (m.1, m.2.sortKeys)),
      ∀ b ∈ members.map (fun m => (m.1, m.2.sortKeys)), a.1 = b.1 → a = b := by
    have hkeys : ((members.map fun m => (m.1, m.2.sortKeys)).map Prod.fst).Nodup := by
      rw [List.map_map]
      exact hnodup
    exact fun a ha b hb hab => List.inj_on_of_nodup_map hkeys ha hb hab
  rw [sortKeys_obj, sortKeys_obj]
  exact congrArg obj (sortOn_eq_of_perm hinj h)

/-! ### Reading what was sorted -/

section

variable {α β : Type} {read : PyJson → Option α} {declared : List String} {key : String}

theorem isClosed_sortKeys (v : PyJson) : v.sortKeys.isClosed declared = v.isClosed declared := by
  cases v with
  | obj members =>
      rw [sortKeys_eq_orderedMembers, isClosed, (orderedMembers_perm members).all_eq, List.all_map]
      rfl
  | arr items => rfl
  | _ => rfl

theorem required_sortKeys {f : α → α} (h : ∀ w, read w.sortKeys = (read w).map f) (v : PyJson) :
    v.sortKeys.required key read = (v.required key read).map f := by
  rw [required, required, field_sortKeys]
  cases v.field key with
  | none => rfl
  | some w => exact h w

theorem required_sortKeys_eq (h : ∀ w, read w.sortKeys = read w) (v : PyJson) :
    v.sortKeys.required key read = v.required key read :=
  (required_sortKeys (fun w => (h w).trans Option.map_id'.symm) v).trans Option.map_id'

theorem optional_sortKeys {f : α → α} (h : ∀ w, read w.sortKeys = (read w).map f) (v : PyJson) :
    v.sortKeys.optional key read = (v.optional key read).map (Option.map f) := by
  rw [optional, optional, field_sortKeys]
  cases v.field key with
  | none => rfl
  | some w =>
      change (read w.sortKeys).map some = ((read w).map some).map (Option.map f)
      rw [h, Option.map_map, Option.map_map]
      rfl

theorem optional_sortKeys_eq (h : ∀ w, read w.sortKeys = read w) (v : PyJson) :
    v.sortKeys.optional key read = v.optional key read := by
  rw [optional_sortKeys (f := id) fun w => (h w).trans Option.map_id'.symm]
  cases v.optional key read with
  | none => rfl
  | some a => exact congrArg some Option.map_id'

theorem readArray_sortKeys {f : α → α} (h : ∀ w, read w.sortKeys = (read w).map f) (v : PyJson) :
    readArray read v.sortKeys = (readArray read v).map (List.map f) := by
  cases v with
  | arr items =>
      rw [sortKeys_arr, readArray, readArray, List.mapM_map]
      induction items with
      | nil => rfl
      | cons w items ih =>
          rw [List.mapM_cons, List.mapM_cons, ih]
          change (read w.sortKeys).bind _ = _
          rw [h]
          cases read w with
          | none => rfl
          | some a => cases List.mapM read items <;> rfl
  | obj members => rw [sortKeys_obj]; rfl
  | _ => rfl

theorem readArray_sortKeys_eq (h : ∀ w, read w.sortKeys = read w) (v : PyJson) :
    readArray read v.sortKeys = readArray read v := by
  rw [readArray_sortKeys (f := id) fun w => (h w).trans Option.map_id'.symm]
  cases readArray read v with
  | none => rfl
  | some l => exact congrArg some (List.map_id l)

end

theorem readString_sortKeys (v : PyJson) : v.sortKeys.readString = v.readString := by
  cases v with
  | obj members => rw [sortKeys_obj]; rfl
  | _ => rfl

theorem readNullable_sortKeys (v : PyJson) : v.sortKeys.readNullable = v.readNullable := by
  cases v with
  | obj members => rw [sortKeys_obj]; rfl
  | _ => rfl

theorem readBool_sortKeys (v : PyJson) : v.sortKeys.readBool = v.readBool := by
  cases v with
  | obj members => rw [sortKeys_obj]; rfl
  | _ => rfl

theorem readOrdinal_sortKeys (v : PyJson) : v.sortKeys.readOrdinal = v.readOrdinal := by
  cases v with
  | obj members => rw [sortKeys_obj]; rfl
  | _ => rfl

theorem readNonEmpty_sortKeys (v : PyJson) : v.sortKeys.readNonEmpty = v.readNonEmpty := by
  rw [readNonEmpty, readNonEmpty, readString_sortKeys]

theorem readStrings_sortKeys (v : PyJson) : v.sortKeys.readStrings = v.readStrings :=
  readArray_sortKeys_eq readString_sortKeys v

theorem readPattern_sortKeys (p : PyStr → Bool) (v : PyJson) :
    readPattern p v.sortKeys = readPattern p v := by
  rw [readPattern, readPattern, readString_sortKeys]

/-- An open object with its members sorted. -/
def sortedOpen (members : { members : List (PyStr × PyJson) // (members.map Prod.fst).Nodup }) :
    { members : List (PyStr × PyJson) // (members.map Prod.fst).Nodup } :=
  ⟨orderedMembers members, nodup_orderedMembers members.2⟩

theorem readOpen_sortKeys (v : PyJson) : v.sortKeys.readOpen = v.readOpen.map sortedOpen := by
  cases v with
  | obj members =>
      have hiff : ((orderedMembers members).map Prod.fst).Nodup ↔ (members.map Prod.fst).Nodup := by
        rw [((orderedMembers_perm members).map Prod.fst).nodup_iff, List.map_map]
        rfl
      rw [sortKeys_eq_orderedMembers, readOpen, readOpen]
      by_cases h : (members.map Prod.fst).Nodup
      · rw [dif_pos h, dif_pos (hiff.mpr h)]
        rfl
      · rw [dif_neg h, dif_neg (hiff.not.mpr h)]
        rfl
  | arr items => rfl
  | _ => rfl

end PyJson

open PyJson

theorem readColumn_sortKeys (v : PyJson) : readColumn v.sortKeys = readColumn v := by
  simp only [readColumn, isClosed_sortKeys, required_sortKeys_eq readNonEmpty_sortKeys,
    required_sortKeys_eq readBool_sortKeys, required_sortKeys_eq readNullable_sortKeys,
    required_sortKeys_eq readOrdinal_sortKeys]

theorem readForeignKey_sortKeys (v : PyJson) : readForeignKey v.sortKeys = readForeignKey v := by
  have hstrings : ∀ key, v.sortKeys.required key (fun w => w.readStrings.bind nonEmpty) =
      v.required key fun w => w.readStrings.bind nonEmpty :=
    fun key => required_sortKeys_eq (fun w => by rw [readStrings_sortKeys]) v
  simp only [readForeignKey, isClosed_sortKeys, hstrings, required_sortKeys_eq (readPattern_sortKeys isRef)]

theorem readKeys_sortKeys (v : PyJson) : readKeys v.sortKeys = readKeys v := by
  simp only [readKeys, isClosed_sortKeys, optional_sortKeys_eq readStrings_sortKeys,
    optional_sortKeys_eq (readArray_sortKeys_eq readForeignKey_sortKeys),
    optional_sortKeys_eq (readArray_sortKeys_eq readStrings_sortKeys)]

theorem readConnector_sortKeys (v : PyJson) : readConnector v.sortKeys = readConnector v := by
  simp only [readConnector, isClosed_sortKeys, required_sortKeys_eq readString_sortKeys]

theorem readSystemClass_sortKeys (v : PyJson) : readSystemClass v.sortKeys = readSystemClass v := by
  rw [readSystemClass, readSystemClass, readString_sortKeys]

theorem readSourceMode_sortKeys (v : PyJson) : readSourceMode v.sortKeys = readSourceMode v := by
  rw [readSourceMode, readSourceMode, readString_sortKeys]

/-- The object as it is printed. -/
def SourceObject.printed (o : SourceObject) : SourceObject :=
  { o with stats := orderedMembers o.stats, stats_nodup := nodup_orderedMembers o.stats_nodup }

/-- The snapshot as it is printed. -/
def Snapshot.printed (s : Snapshot) : Snapshot :=
  { s with
    sourceProperties := s.sourceProperties.map orderedMembers
    objects := s.objects.map SourceObject.printed }

theorem readObject_sortKeys (v : PyJson) :
    readObject v.sortKeys = (readObject v).map SourceObject.printed := by
  simp only [readObject, isClosed_sortKeys, required_sortKeys_eq readNonEmpty_sortKeys,
    required_sortKeys_eq readNullable_sortKeys, required_sortKeys_eq (readPattern_sortKeys isSchemaHash),
    required_sortKeys_eq (readArray_sortKeys_eq readColumn_sortKeys),
    required_sortKeys_eq readKeys_sortKeys, required_sortKeys readOpen_sortKeys]
  simp only [Option.bind_eq_bind, Option.map_bind, Option.bind_map, Function.comp_def, Option.pure_def,
    Option.map_some, sortedOpen, SourceObject.printed]

theorem readSnapshot_sortKeys (isDateTime : PyStr → Bool) (v : PyJson) :
    readSnapshot isDateTime v.sortKeys = (readSnapshot isDateTime v).map Snapshot.printed := by
  simp only [readSnapshot, isClosed_sortKeys, required_sortKeys_eq readNonEmpty_sortKeys,
    required_sortKeys_eq (readPattern_sortKeys _), required_sortKeys_eq readSystemClass_sortKeys,
    required_sortKeys_eq readSourceMode_sortKeys, required_sortKeys_eq readConnector_sortKeys,
    optional_sortKeys readOpen_sortKeys, required_sortKeys (readArray_sortKeys readObject_sortKeys)]
  simp only [Option.bind_eq_bind, Option.map_bind, Option.bind_map, Function.comp_def, Option.pure_def,
    Option.map_some, Snapshot.printed, Option.map_map, sortedOpen]

/-! ### Reading what was written -/

namespace PyJson

theorem readNonEmpty_str {s : PyStr} (h : s ≠ []) : readNonEmpty (.str s) = some ⟨s, h⟩ := by
  cases s with
  | nil => exact absurd rfl h
  | cons p s => rfl

theorem readPattern_str {p : PyStr → Bool} {s : PyStr} (h : p s = true) :
    readPattern p (.str s) = some ⟨s, h⟩ := dif_pos h

theorem readNullable_ofOption (a : Option PyStr) : readNullable (ofOption a) = some a := by
  cases a <;> rfl

theorem readOrdinal_number (n : Ordinal) : readOrdinal (.number n.number) = some n :=
  dif_pos ⟨n.integral, n.minimum⟩

theorem readArray_map {α : Type} {read : PyJson → Option α} {toPy : α → PyJson} {l : List α}
    (h : ∀ a ∈ l, read (toPy a) = some a) : readArray read (.arr (l.map toPy)) = some l := by
  rw [readArray]
  induction l with
  | nil => rfl
  | cons a l ih =>
      obtain ⟨ha, hl⟩ := List.forall_mem_cons.mp h
      rw [List.map_cons, List.mapM_cons, ha, ih hl]
      rfl

theorem readStrings_strings (items : List PyStr) : readStrings (strings items) = some items :=
  readArray_map fun _ _ => rfl

theorem nonEmpty_of_ne {α : Type} {l : List α} (h : l ≠ []) : nonEmpty l = some ⟨l, h⟩ := by
  cases l with
  | nil => exact absurd rfl h
  | cons a l => rfl

theorem readOpen_obj {members : List (PyStr × PyJson)} (h : (members.map Prod.fst).Nodup) :
    readOpen (.obj members) = some ⟨members, h⟩ := dif_pos h

end PyJson

theorem readColumn_toPy (c : Column) : readColumn c.toPy = some c := by
  have hname : c.toPy.required "name" readNonEmpty = some ⟨c.name, c.name_ne⟩ :=
    readNonEmpty_str c.name_ne
  have htype : c.toPy.required "type" readNonEmpty = some ⟨c.type, c.type_ne⟩ :=
    readNonEmpty_str c.type_ne
  have hnullable : c.toPy.required "nullable" readBool = some c.nullable := rfl
  have hdefault : c.toPy.required "default" readNullable = some c.default :=
    readNullable_ofOption c.default
  have hordinal : c.toPy.required "ordinal" readOrdinal = some c.ordinal := readOrdinal_number c.ordinal
  have hdescription : c.toPy.required "description" readNullable = some c.description :=
    readNullable_ofOption c.description
  rw [readColumn, hname, htype, hnullable, hdefault, hordinal, hdescription]
  rfl

theorem readForeignKey_toPy (fk : ForeignKey) : readForeignKey fk.toPy = some fk := by
  have hstrings : ∀ {items : List PyStr} (h : items ≠ []),
      ((strings items).readStrings.bind nonEmpty) = some ⟨items, h⟩ := by
    intro items h
    rw [readStrings_strings]
    exact nonEmpty_of_ne h
  have hcolumns : fk.toPy.required "columns" (fun w => w.readStrings.bind nonEmpty) =
      some ⟨fk.columns, fk.columns_ne⟩ := hstrings fk.columns_ne
  have href : fk.toPy.required "ref" (readPattern isRef) = some ⟨fk.ref, fk.ref_pattern⟩ :=
    readPattern_str fk.ref_pattern
  have hrefColumns : fk.toPy.required "ref_columns" (fun w => w.readStrings.bind nonEmpty) =
      some ⟨fk.refColumns, fk.refColumns_ne⟩ := hstrings fk.refColumns_ne
  rw [readForeignKey, hcolumns, href, hrefColumns]
  rfl

theorem readKeys_toPy (k : Keys) : readKeys k.toPy = some k := by
  have hclosed : k.toPy.isClosed ["primary", "foreign", "unique"] = true := by
    obtain ⟨primary, foreign, unique⟩ := k
    cases primary <;> cases foreign <;> cases unique <;> rfl
  have hprimary : k.toPy.optional "primary" readStrings = some k.primary := by
    rw [PyJson.optional, Keys.field_primary]
    cases k.primary with
    | none => rfl
    | some columns => exact congrArg (Option.map some) (readStrings_strings columns)
  have hforeign : k.toPy.optional "foreign" (readArray readForeignKey) = some k.foreign := by
    rw [PyJson.optional, Keys.field_foreign]
    cases k.foreign with
    | none => rfl
    | some fks => exact congrArg (Option.map some) (readArray_map fun fk _ => readForeignKey_toPy fk)
  have hunique : k.toPy.optional "unique" (readArray readStrings) = some k.unique := by
    rw [PyJson.optional, Keys.field_unique]
    cases k.unique with
    | none => rfl
    | some sets => exact congrArg (Option.map some) (readArray_map fun set _ => readStrings_strings set)
  rw [readKeys, hclosed, hprimary, hforeign, hunique]
  rfl

theorem readObject_toPy (o : SourceObject) : readObject o.toPy = some o := by
  have hkind : o.toPy.required "kind" readNonEmpty = some ⟨o.kind, o.kind_ne⟩ := readNonEmpty_str o.kind_ne
  have hschema : o.toPy.required "schema" readNonEmpty = some ⟨o.schema, o.schema_ne⟩ :=
    readNonEmpty_str o.schema_ne
  have hname : o.toPy.required "name" readNonEmpty = some ⟨o.name, o.name_ne⟩ := readNonEmpty_str o.name_ne
  have hdescription : o.toPy.required "description" readNullable = some o.description :=
    readNullable_ofOption o.description
  have hhash : o.toPy.required "schema_hash" (readPattern isSchemaHash) =
      some ⟨o.schemaHash, o.schemaHash_pattern⟩ := readPattern_str o.schemaHash_pattern
  have hcolumns : o.toPy.required "columns" (readArray readColumn) = some o.columns :=
    readArray_map fun c _ => readColumn_toPy c
  have hkeys : o.toPy.required "keys" readKeys = some o.keys := readKeys_toPy o.keys
  have hstats : o.toPy.required "stats" readOpen = some ⟨o.stats, o.stats_nodup⟩ := readOpen_obj o.stats_nodup
  rw [readObject, hkind, hschema, hname, hdescription, hhash, hcolumns, hkeys, hstats]
  rfl

namespace Snapshot

variable {s : Snapshot} {isDateTime : PyStr → Bool}

theorem readSnapshot_document (hdate : isDateTime s.capturedAt = true)
    (hproperties : ∀ members ∈ s.sourceProperties, (members.map Prod.fst).Nodup) :
    readSnapshot isDateTime s.document = some s := by
  have hclosed : s.document.isClosed ["snapshot_version", "system", "system_class", "source_mode",
      "captured_at", "connector", "source_properties", "objects"] = true := by
    obtain ⟨system, systemClass, sourceMode, capturedAt, connectorName, connectorVersion, properties,
      objects, hsystem⟩ := s
    cases properties <;> rfl
  have hversion : ∃ a, s.document.required "snapshot_version"
      (readPattern fun s => decide (s = py "1")) = some a := ⟨⟨py "1", rfl⟩, rfl⟩
  have hsystem : s.document.required "system" readNonEmpty = some ⟨s.system, s.system_ne⟩ :=
    readNonEmpty_str s.system_ne
  have hclass : s.document.required "system_class" readSystemClass = some s.systemClass := by
    change readSystemClass (.str s.systemClass.text) = _
    cases s.systemClass <;> rfl
  have hmembers : ∀ key, s.document.field key = (Dict.get? [(py "snapshot_version", .str (py "1")),
      (py "system", .str s.system), (py "system_class", .str s.systemClass.text),
      (py "objects", .arr (s.objects.map SourceObject.toPy))] (py key)).or
        ((Dict.get? (s.sourceProperties.toList.map fun properties =>
          (py "source_properties", PyJson.obj properties)) (py key)).or (Dict.get? s.envelope (py key))) := by
    intro key
    change Dict.get? ((_ ++ _) ++ _) _ = _
    rw [Dict.get?_append, Dict.get?_append, Option.or_assoc]
  have hproperty : ∀ key, py key ≠ py "source_properties" →
      Dict.get? (s.sourceProperties.toList.map fun properties =>
        (py "source_properties", PyJson.obj properties)) (py key) = none := by
    intro key hne
    cases s.sourceProperties with
    | none => rfl
    | some properties => exact (Dict.get?_cons _ _ _ _).trans (if_neg hne.symm)
  have hmode : s.document.required "source_mode" readSourceMode = some s.sourceMode := by
    rw [required, hmembers, hproperty _ (by decide)]
    change readSourceMode (.str s.sourceMode.text) = _
    cases s.sourceMode <;> rfl
  have hcaptured : s.document.required "captured_at" (readPattern isDateTime) = some ⟨s.capturedAt, hdate⟩ := by
    rw [required, hmembers, hproperty _ (by decide)]
    exact readPattern_str hdate
  have hconnector : s.document.required "connector" readConnector =
      some (s.connectorName, s.connectorVersion) := by
    rw [required, hmembers, hproperty _ (by decide)]
    rfl
  have hopen : ∃ properties, s.document.optional "source_properties" readOpen = some properties ∧
      properties.map Subtype.val = s.sourceProperties := by
    rw [PyJson.optional, hmembers]
    cases hsome : s.sourceProperties with
    | none => exact ⟨none, rfl, rfl⟩
    | some properties =>
        have hnodup := hproperties properties hsome
        exact ⟨some ⟨properties, hnodup⟩, congrArg (Option.map some) (readOpen_obj hnodup), rfl⟩
  have hobjects : s.document.required "objects" (readArray readObject) = some s.objects :=
    readArray_map fun o _ => readObject_toPy o
  obtain ⟨version, hversion⟩ := hversion
  obtain ⟨properties, hopen, hproperties⟩ := hopen
  rw [readSnapshot, hclosed, hversion, hsystem, hclass, hmode, hcaptured, hconnector, hopen, hobjects]
  change some (Snapshot.mk _ _ _ _ _ _ (properties.map Subtype.val) _ _) = some s
  rw [hproperties]

/-- What is printed is read as the snapshot with its open members sorted. -/
theorem readSnapshot_printed (hdate : isDateTime s.capturedAt = true)
    (hproperties : ∀ members ∈ s.sourceProperties, (members.map Prod.fst).Nodup) :
    readSnapshot isDateTime s.document.sortKeys = some s.printed := by
  rw [readSnapshot_sortKeys, readSnapshot_document hdate hproperties]
  rfl

end Snapshot

/-! ### Ordering again -/

theorem orderedKeys_orderedKeys (k : Keys) : orderedKeys (orderedKeys k) = orderedKeys k := by
  obtain ⟨primary, foreign, unique⟩ := k
  unfold orderedKeys
  simp only [Option.map_map, Function.comp_def, sortOn_sortOn]

theorem orderedObject_orderedObject (o : SourceObject) :
    orderedObject (orderedObject o) = orderedObject o := by
  unfold orderedObject
  simp only [sortOn_sortOn, orderedKeys_orderedKeys]

theorem sortKey_orderedObject (o : SourceObject) : (orderedObject o).sortKey = o.sortKey := rfl

theorem sortKey_printed (o : SourceObject) : o.printed.sortKey = o.sortKey := rfl

theorem ordered_ordered (s : Snapshot) : ordered (ordered s) = ordered s := by
  have hobjects : (sortOn SourceObject.sortKey ((sortOn SourceObject.sortKey s.objects).map
      orderedObject)).map orderedObject = (sortOn SourceObject.sortKey s.objects).map orderedObject := by
    rw [sortOn_map orderedObject sortKey_orderedObject, sortOn_sortOn, List.map_map]
    exact List.map_congr_left fun o _ => orderedObject_orderedObject o
  unfold ordered
  simp only [hobjects]

theorem ordered_printed (s : Snapshot) : ordered s.printed = (ordered s).printed := by
  have hobjects : (sortOn SourceObject.sortKey (s.objects.map SourceObject.printed)).map orderedObject =
      ((sortOn SourceObject.sortKey s.objects).map orderedObject).map SourceObject.printed := by
    rw [sortOn_map SourceObject.printed sortKey_printed, List.map_map,
      List.map_map]
    rfl
  unfold ordered Snapshot.printed
  simp only [hobjects]

/-! ### Printing again -/

theorem SourceObject.sortKeys_printed (o : SourceObject) : o.printed.toPy.sortKeys = o.toPy.sortKeys := by
  have hstats : (PyJson.obj (orderedMembers o.stats)).sortKeys = (PyJson.obj o.stats).sortKeys := by
    rw [← sortKeys_eq_orderedMembers, sortKeys_sortKeys]
  unfold toPy
  rw [sortKeys_obj, sortKeys_obj]
  simp only [List.map_cons, List.map_nil, printed, hstats]

namespace Snapshot

variable {s : Snapshot}

theorem sortKeys_objects (s : Snapshot) : (PyJson.arr (s.printed.objects.map SourceObject.toPy)).sortKeys =
    (PyJson.arr (s.objects.map SourceObject.toPy)).sortKeys := by
  rw [sortKeys_arr, sortKeys_arr]
  simp only [printed, List.map_map, Function.comp_def, SourceObject.sortKeys_printed]

theorem sortKeys_properties (s : Snapshot) :
    ((s.printed.sourceProperties.toList.map fun properties => (py "source_properties", PyJson.obj properties)).map
      fun m => (m.1, m.2.sortKeys)) =
    (s.sourceProperties.toList.map fun properties => (py "source_properties", PyJson.obj properties)).map
      fun m => (m.1, m.2.sortKeys) := by
  unfold printed
  cases s.sourceProperties with
  | none => rfl
  | some properties =>
      have hproperties : (PyJson.obj (orderedMembers properties)).sortKeys = (PyJson.obj properties).sortKeys := by
        rw [← sortKeys_eq_orderedMembers, sortKeys_sortKeys]
      simp only [Option.map_some, Option.toList_some, List.map_cons, List.map_nil, hproperties]

theorem sortKeys_body_printed (s : Snapshot) : s.printed.body.sortKeys = s.body.sortKeys := by
  unfold body
  rw [sortKeys_obj, sortKeys_obj, List.map_append, List.map_append, sortKeys_properties]
  simp only [List.map_cons, List.map_nil, sortKeys_objects]
  rfl

theorem sortKeys_document_printed (s : Snapshot) : s.printed.document.sortKeys = s.document.sortKeys := by
  unfold document body
  dsimp only
  rw [sortKeys_obj, sortKeys_obj, List.map_append, List.map_append, List.map_append, List.map_append,
    sortKeys_properties]
  simp only [List.map_cons, List.map_nil, sortKeys_objects]
  rfl

theorem canonicalBodyBytes_printed (s : Snapshot) :
    canonicalBodyBytes (ordered s).printed = canonicalBodyBytes s := by
  unfold canonicalBodyBytes
  rw [ordered_printed, ordered_ordered]
  exact canonicalBytes_congr (sortKeys_body_printed _)

theorem canonicalDocumentBytes_printed (s : Snapshot) :
    canonicalDocumentBytes (ordered s).printed = canonicalDocumentBytes s := by
  unfold canonicalDocumentBytes
  rw [ordered_printed, ordered_ordered, canonicalBytes_congr (sortKeys_document_printed _)]

end Snapshot

/-! ### Validating again -/

section

variable {sha256 : List UInt8 → PyStr}

theorem SourceObject.sortKeys_structural (spec : KindSpec) (o : SourceObject) :
    (o.printed.structural spec).sortKeys = (o.structural spec).sortKeys := by
  have hstats : (PyJson.obj ((orderedMembers o.stats).filter fun m =>
      decide (m.1 ∈ spec.hashIncludedStats))).sortKeys =
        (PyJson.obj (o.stats.filter fun m => decide (m.1 ∈ spec.hashIncludedStats))).sortKeys := by
    refine sortKeys_obj_perm (o.stats_nodup.sublist (List.filter_sublist.map _)) ?_
    have hperm := ((orderedMembers_perm o.stats).filter fun m =>
      decide (m.1 ∈ spec.hashIncludedStats)).map fun m => (m.1, m.2.sortKeys)
    rw [List.filter_map, List.map_map] at hperm
    refine hperm.trans (List.Perm.of_eq ?_)
    exact List.map_congr_left fun m _ => Prod.ext rfl (sortKeys_sortKeys m.2)
  unfold structural
  rw [sortKeys_obj, sortKeys_obj]
  simp only [List.map_cons, List.map_nil, printed, hstats]

/-- The hash is one of the ordered object, in whatever order its stats come. -/
theorem schemaHash_printed (o : SourceObject) :
    schemaHash sha256 (orderedObject o).printed = schemaHash sha256 o := by
  have hprojection : ∀ spec, (structuralProjection spec (orderedObject o).printed).sortKeys =
      (structuralProjection spec o).sortKeys := by
    intro spec
    change ((orderedObject (orderedObject o)).printed.structural spec).sortKeys = _
    rw [orderedObject_orderedObject, SourceObject.sortKeys_structural]
    rfl
  have hkind : (orderedObject o).printed.kindSpec = o.kindSpec := rfl
  unfold schemaHash
  rw [hkind]
  cases o.kindSpec with
  | none => rfl
  | some spec =>
      change ((structuralProjection spec (orderedObject o).printed).canonicalBytes).bind _ = _
      rw [canonicalBytes_congr (hprojection spec)]
      rfl

theorem validateObjects_sound {objects : List SourceObject} {st : ValidationState}
    (hnodup : (objects.map SourceObject.identity).Nodup) (hfresh : ∀ o ∈ objects, o.identity ∉ st.seen)
    (hhash : ∀ o ∈ objects, o.kindSpec.isSome → schemaHash sha256 o = some o.schemaHash) :
    ∃ seen, objects.foldlM (validateObject sha256 true) st = some ⟨seen, st.errors,
      st.warnings ++ (objects.filter fun o => o.kindSpec.isNone).map SourceObject.identity⟩ := by
  induction objects generalizing st with
  | nil => exact ⟨st.seen, by rw [List.filter_nil, List.map_nil, List.append_nil]; rfl⟩
  | cons o objects ih =>
      obtain ⟨hhead, hnodup⟩ := List.nodup_cons.mp hnodup
      obtain ⟨ho, hfresh⟩ := List.forall_mem_cons.mp hfresh
      obtain ⟨hsame, hhash⟩ := List.forall_mem_cons.mp hhash
      have hstep : validateObject sha256 true st o = some ⟨o.identity :: st.seen, st.errors,
          st.warnings ++ ([o].filter fun o => o.kindSpec.isNone).map SourceObject.identity⟩ := by
        unfold validateObject
        rw [if_neg ho]
        cases hkind : o.kindSpec with
        | none => simp [hkind]
        | some spec =>
            rw [hsame (by rw [hkind]; rfl)]
            simp [hkind]
      have hnext : ∀ o' ∈ objects, o'.identity ∉ o.identity :: st.seen := by
        intro o' ho' hmem
        obtain heq | hmem := List.mem_cons.mp hmem
        · exact hhead (heq ▸ List.mem_map_of_mem ho')
        · exact hfresh o' ho' hmem
      obtain ⟨seen, hrest⟩ := @ih ⟨o.identity :: st.seen, st.errors, _⟩ hnodup hnext hhash
      refine ⟨seen, ?_⟩
      rw [List.foldlM_cons, hstep]
      refine hrest.trans ?_
      rw [List.append_assoc, ← List.map_append, ← List.filter_append]
      rfl

/-- What is validated without an error. -/
theorem validateSnapshot_iff {s : Snapshot} {warnings : List Identity} :
    (∃ st, validateSnapshot sha256 true s = some st ∧ st.errors = [] ∧ st.warnings = warnings) ↔
      (s.objects.map SourceObject.identity).Nodup ∧
        (∀ o ∈ s.objects, o.kindSpec.isSome → schemaHash sha256 o = some o.schemaHash) ∧
        warnings = (s.objects.filter fun o => o.kindSpec.isNone).map SourceObject.identity := by
  have hsound : (s.objects.map SourceObject.identity).Nodup →
      (∀ o ∈ s.objects, o.kindSpec.isSome → schemaHash sha256 o = some o.schemaHash) →
        ∃ seen, validateSnapshot sha256 true s = some ⟨seen, [],
          (s.objects.filter fun o => o.kindSpec.isNone).map SourceObject.identity⟩ :=
    fun hnodup hhash => validateObjects_sound hnodup (fun _ _ => List.not_mem_nil) hhash
  constructor
  · rintro ⟨st, hst, herrors, rfl⟩
    obtain ⟨-, hnodup, -, hhash⟩ := validateObjects_eq_some hst herrors
    obtain ⟨seen, hvalid⟩ := hsound hnodup (hhash rfl)
    obtain rfl := Option.some.inj (hst.symm.trans hvalid)
    exact ⟨hnodup, hhash rfl, rfl⟩
  · rintro ⟨hnodup, hhash, rfl⟩
    obtain ⟨seen, hvalid⟩ := hsound hnodup hhash
    exact ⟨_, hvalid, rfl, rfl⟩

theorem acceptSnapshot_eq_valid {s : Snapshot} {a : Acceptance} {bytes : List UInt8} :
    acceptSnapshot sha256 s = some (.valid a bytes) ↔
      (∃ st, validateSnapshot sha256 true s = some st ∧ st.errors = [] ∧ st.warnings = a.warnings) ∧
        canonicalDocumentBytes s = some bytes ∧ ∃ body, canonicalBodyBytes s = some body ∧
          a = ⟨a.warnings, s.system, s.sourceMode, s.capturedAt, s.connectorName, s.connectorVersion,
            s.objects.length, sha256 bytes, sha256 body⟩ := by
  unfold acceptSnapshot
  cases validateSnapshot sha256 true s with
  | none => simp
  | some st =>
      by_cases herrors : st.errors = []
      · cases canonicalDocumentBytes s with
        | none => simp [herrors]
        | some bytes' =>
            cases canonicalBodyBytes s with
            | none => simp [herrors]
            | some body =>
                simp only [Option.bind_eq_bind, Option.bind_some, herrors, ne_eq, not_true_eq_false,
                  if_false, Option.pure_def, Option.some.injEq, AcceptVerdict.valid.injEq, exists_eq_left']
                constructor
                · rintro ⟨rfl, rfl⟩
                  exact ⟨⟨trivial, rfl⟩, rfl, rfl⟩
                · rintro ⟨⟨-, hwarnings⟩, rfl, ha⟩
                  rw [ha, hwarnings]
                  exact ⟨rfl, rfl⟩
      · simp [herrors]

theorem acceptSnapshot_valid {s : Snapshot} {warnings : List Identity} {bytes body : List UInt8}
    (hvalid : ∃ st, validateSnapshot sha256 true s = some st ∧ st.errors = [] ∧ st.warnings = warnings)
    (hbytes : canonicalDocumentBytes s = some bytes) (hbody : canonicalBodyBytes s = some body) :
    acceptSnapshot sha256 s = some (.valid ⟨warnings, s.system, s.sourceMode, s.capturedAt, s.connectorName,
      s.connectorVersion, s.objects.length, sha256 bytes, sha256 body⟩ bytes) :=
  acceptSnapshot_eq_valid.mpr ⟨hvalid, hbytes, body, hbody, rfl⟩

/-- The gate answers alike on what it has stored. -/
theorem acceptSnapshot_printed {s : Snapshot} {a : Acceptance} {bytes : List UInt8}
    (h : acceptSnapshot sha256 s = some (.valid a bytes)) :
    ∃ a', acceptSnapshot sha256 (ordered s).printed = some (.valid a' bytes) ∧ a'.sha256 = a.sha256 ∧
      a'.canonicalBodySha256 = a.canonicalBodySha256 ∧ a'.warnings.Perm a.warnings := by
  obtain ⟨hvalid, hbytes, body, hbody, ha⟩ := acceptSnapshot_eq_valid.mp h
  obtain ⟨hnodup, hhash, hwarnings⟩ := validateSnapshot_iff.mp hvalid
  have hobjects : (ordered s).printed.objects =
      (sortOn SourceObject.sortKey s.objects).map fun o => (orderedObject o).printed := by
    change ((sortOn SourceObject.sortKey s.objects).map orderedObject).map SourceObject.printed = _
    rw [List.map_map]
    rfl
  have hidentities : ((ordered s).printed.objects.map SourceObject.identity).Perm
      (s.objects.map SourceObject.identity) := by
    rw [hobjects, List.map_map]
    exact sortOn_perm.map _
  have hprinted : ∃ st, validateSnapshot sha256 true (ordered s).printed = some st ∧ st.errors = [] ∧
      st.warnings = ((ordered s).printed.objects.filter fun o => o.kindSpec.isNone).map
        SourceObject.identity := by
    refine validateSnapshot_iff.mpr ⟨hidentities.nodup_iff.mpr hnodup, ?_, rfl⟩
    rw [hobjects]
    refine List.forall_mem_map.mpr fun o ho hkind => ?_
    rw [schemaHash_printed]
    exact hhash o (mem_sortOn.mp ho) hkind
  have hperm : (((ordered s).printed.objects.filter fun o => o.kindSpec.isNone).map
      SourceObject.identity).Perm a.warnings := by
    rw [hwarnings, hobjects, List.filter_map, List.map_map]
    exact (sortOn_perm.filter _).map _
  refine ⟨_, acceptSnapshot_valid hprinted ((Snapshot.canonicalDocumentBytes_printed s).trans hbytes)
    ((Snapshot.canonicalBodyBytes_printed s).trans hbody), ?_, ?_, hperm⟩
  · rw [ha]
  · rw [ha]

end

/-! ### Keys that occur once -/

namespace PyJson

theorem distinct_arr {items : List PyJson} : (arr items).Distinct ↔ ∀ v ∈ items, v.Distinct := by
  rw [Distinct]
  induction items with
  | nil => exact ⟨fun _ => List.forall_mem_nil _, fun _ => trivial⟩
  | cons v rest ih => rw [DistinctItems, ih, List.forall_mem_cons]

theorem distinct_obj {members : List (PyStr × PyJson)} :
    (obj members).Distinct ↔ (members.map Prod.fst).Nodup ∧ ∀ m ∈ members, m.2.Distinct := by
  have hitems : DistinctMembers members ↔ ∀ m ∈ members, m.2.Distinct := by
    induction members with
    | nil => exact ⟨fun _ => List.forall_mem_nil _, fun _ => trivial⟩
    | cons m rest ih => rw [DistinctMembers, ih, List.forall_mem_cons]
  rw [Distinct, hitems]

theorem Distinct.sortKeys {v : PyJson} (h : v.Distinct) : v.sortKeys.Distinct := by
  induction v using PyJson.induction with
  | null | bool | number | nonFinite | str => exact h
  | arr items ih =>
      rw [sortKeys_arr, distinct_arr]
      exact List.forall_mem_map.mpr fun v hv => ih v hv (distinct_arr.mp h v hv)
  | obj members ih =>
      obtain ⟨hnodup, hvalues⟩ := distinct_obj.mp h
      rw [sortKeys_eq_orderedMembers, distinct_obj]
      refine ⟨nodup_orderedMembers hnodup, fun m hm => ?_⟩
      obtain ⟨m', hm', rfl⟩ := List.mem_map.mp ((orderedMembers_perm members).subset hm)
      exact ih m' hm' (hvalues m' hm')

theorem Distinct.field {v w : PyJson} {key : String} (h : v.Distinct) (hw : v.field key = some w) :
    w.Distinct := by
  cases v with
  | obj members => exact (distinct_obj.mp h).2 _ (Dict.mem_of_get? hw)
  | _ => cases hw

theorem distinct_ofOption (a : Option PyStr) : (ofOption a).Distinct := by
  cases a <;> trivial

theorem distinct_strings (items : List PyStr) : (strings items).Distinct :=
  distinct_arr.mpr (List.forall_mem_map.mpr fun _ _ => trivial)

theorem mem_readArray {α : Type} {read : PyJson → Option α} {v : PyJson} {l : List α}
    (h : readArray read v = some l) {a : α} (ha : a ∈ l) :
    ∃ items, v = .arr items ∧ ∃ w ∈ items, read w = some a := by
  cases v with
  | arr items =>
      refine ⟨items, rfl, ?_⟩
      rw [readArray] at h
      induction items generalizing l with
      | nil =>
          obtain rfl := Option.some.inj h
          cases ha
      | cons w items ih =>
          rw [List.mapM_cons] at h
          obtain ⟨b, hb, h⟩ := Option.bind_eq_some_iff.mp h
          obtain ⟨rest, hrest, h⟩ := Option.bind_eq_some_iff.mp h
          obtain rfl := Option.some.inj h
          obtain rfl | ha := List.mem_cons.mp ha
          · exact ⟨w, List.mem_cons_self, hb⟩
          · obtain ⟨w', hw', hread⟩ := ih ha hrest
            exact ⟨w', List.mem_cons_of_mem w hw', hread⟩
  | _ => cases h

theorem eq_obj_of_readOpen {v : PyJson} {members} (h : readOpen v = some members) : v = .obj members := by
  cases v with
  | obj members' =>
      rw [readOpen] at h
      by_cases hnodup : (members'.map Prod.fst).Nodup
      · rw [dif_pos hnodup] at h
        obtain rfl := Option.some.inj h
        rfl
      · rw [dif_neg hnodup] at h
        cases h
  | _ => cases h

end PyJson

theorem readObject_stats {v : PyJson} {o : SourceObject} (h : readObject v = some o) :
    v.required "stats" readOpen = some ⟨o.stats, o.stats_nodup⟩ := by
  simp only [readObject, Option.bind_eq_bind, Option.bind_eq_some_iff, Option.pure_def,
    Option.some.injEq] at h
  obtain ⟨-, -, kind, -, schema, -, name, -, description, -, hash, -, columns, -, keys, -, stats, hstats, rfl⟩ := h
  exact hstats

/-- What is read of the body. -/
theorem readSnapshot_eq_some {isDateTime : PyStr → Bool} {v : PyJson} {s : Snapshot}
    (h : readSnapshot isDateTime v = some s) :
    isDateTime s.capturedAt = true ∧ v.required "system" readNonEmpty = some ⟨s.system, s.system_ne⟩ ∧
      v.required "system_class" readSystemClass = some s.systemClass ∧
      (v.optional "source_properties" readOpen).map (Option.map Subtype.val) = some s.sourceProperties ∧
      v.required "objects" (readArray readObject) = some s.objects := by
  simp only [readSnapshot, Option.bind_eq_bind, Option.bind_eq_some_iff, Option.pure_def,
    Option.some.injEq] at h
  obtain ⟨-, -, version, -, system, hsystem, systemClass, hclass, sourceMode, -, capturedAt, -, connector, -,
    properties, hproperties, objects, hobjects, rfl⟩ := h
  exact ⟨capturedAt.2, hsystem, hclass, by rw [hproperties]; rfl, hobjects⟩

namespace Snapshot

/-- The members that the schema leaves open have no key twice. -/
def OpenDistinct (s : Snapshot) : Prop :=
  (∀ members ∈ s.sourceProperties, (PyJson.obj members).Distinct) ∧
    ∀ o ∈ s.objects, (PyJson.obj o.stats).Distinct

theorem OpenDistinct.of_read {isDateTime : PyStr → Bool} {v : PyJson} {s : Snapshot} (hv : v.Distinct)
    (h : readSnapshot isDateTime v = some s) : s.OpenDistinct := by
  obtain ⟨-, -, -, hproperties, hobjects⟩ := readSnapshot_eq_some h
  constructor
  · intro members hmembers
    rw [Option.mem_def.mp hmembers] at hproperties
    cases hfield : v.field "source_properties" with
    | none =>
        rw [PyJson.optional, hfield] at hproperties
        cases hproperties
    | some w =>
        rw [PyJson.optional, hfield] at hproperties
        dsimp only at hproperties
        cases hopen : readOpen w with
        | none =>
            rw [hopen] at hproperties
            cases hproperties
        | some members' =>
            rw [hopen] at hproperties
            obtain rfl : members'.1 = members := Option.some.inj (Option.some.inj hproperties)
            exact eq_obj_of_readOpen hopen ▸ hv.field hfield
  · intro o ho
    obtain ⟨w, hw, hread⟩ := Option.bind_eq_some_iff.mp hobjects
    obtain ⟨items, rfl, u, hu, hobject⟩ := mem_readArray hread ho
    obtain ⟨stats, hstats, hopen⟩ := Option.bind_eq_some_iff.mp (readObject_stats hobject)
    exact eq_obj_of_readOpen hopen ▸ (distinct_arr.mp (hv.field hw) u hu).field hstats

theorem OpenDistinct.ordered {s : Snapshot} (h : s.OpenDistinct) : (ordered s).OpenDistinct :=
  ⟨h.1, List.forall_mem_map.mpr fun o ho => h.2 o (mem_sortOn.mp ho)⟩

theorem distinct_column (c : Column) : c.toPy.Distinct := by
  refine distinct_obj.mpr ⟨by change List.Nodup [py "name", py "type", py "nullable", py "default",
    py "ordinal", py "description"]; decide, ?_⟩
  change ∀ m ∈ [_, _, _, _, _, _], _
  simp only [List.forall_mem_cons]
  exact ⟨trivial, trivial, trivial, distinct_ofOption _, trivial, distinct_ofOption _, List.forall_mem_nil _⟩

theorem distinct_foreignKey (fk : ForeignKey) : fk.toPy.Distinct := by
  refine distinct_obj.mpr ⟨by change List.Nodup [py "columns", py "ref", py "ref_columns"]; decide, ?_⟩
  simp only [List.forall_mem_cons]
  exact ⟨distinct_strings _, trivial, distinct_strings _, List.forall_mem_nil _⟩

/-- A member that may be left out. -/
theorem map_fst_toList {α : Type} (key : PyStr) (f : α → PyJson) (a : Option α) :
    ((a.toList.map fun x => (key, f x)).map Prod.fst).Sublist [key] := by
  cases a with
  | none => exact List.nil_sublist _
  | some x => exact List.Sublist.refl _

theorem distinct_keys (k : Keys) : k.toPy.Distinct := by
  obtain ⟨primary, foreign, unique⟩ := k
  refine distinct_obj.mpr ⟨?_, ?_⟩
  · rw [List.map_append, List.map_append]
    exact List.Nodup.sublist (((map_fst_toList _ _ _).append (map_fst_toList _ _ _)).append (map_fst_toList _ _ _))
      (by decide : [py "primary", py "foreign", py "unique"].Nodup)
  · simp only [List.forall_mem_append, List.forall_mem_map, Option.mem_toList]
    refine ⟨⟨fun columns _ => distinct_strings columns, fun fks _ => distinct_arr.mpr ?_⟩,
      fun sets _ => distinct_arr.mpr ?_⟩
    · exact List.forall_mem_map.mpr fun fk _ => distinct_foreignKey fk
    · exact List.forall_mem_map.mpr fun set _ => distinct_strings set

theorem distinct_object {o : SourceObject} (h : (PyJson.obj o.stats).Distinct) : o.toPy.Distinct := by
  refine distinct_obj.mpr ⟨by change List.Nodup [py "kind", py "schema", py "name", py "description",
    py "schema_hash", py "columns", py "keys", py "stats"]; decide, ?_⟩
  simp only [List.forall_mem_cons]
  exact ⟨trivial, trivial, trivial, distinct_ofOption _, trivial,
    distinct_arr.mpr (List.forall_mem_map.mpr fun c _ => distinct_column c), distinct_keys _, h,
    List.forall_mem_nil _⟩

theorem OpenDistinct.document {s : Snapshot} (h : s.OpenDistinct) : s.document.Distinct := by
  obtain ⟨system, systemClass, sourceMode, capturedAt, connectorName, connectorVersion, properties,
    objects, hsystem⟩ := s
  obtain ⟨hproperties, hobjects⟩ := h
  refine distinct_obj.mpr ⟨?_, ?_⟩
  · rw [List.map_append, List.map_append]
    exact List.Nodup.sublist (((List.Sublist.refl _).append (map_fst_toList _ _ _)).append (List.Sublist.refl _))
      (by decide : [py "snapshot_version", py "system", py "system_class", py "objects",
        py "source_properties", py "captured_at", py "connector", py "source_mode"].Nodup)
  · simp only [envelope, List.forall_mem_append, List.forall_mem_map, List.forall_mem_cons, Option.mem_toList]
    refine ⟨⟨⟨trivial, trivial, trivial, distinct_arr.mpr ?_, List.forall_mem_nil _⟩, hproperties⟩,
      trivial, distinct_obj.mpr ⟨?_, ?_⟩, trivial, List.forall_mem_nil _⟩
    · exact List.forall_mem_map.mpr fun o ho => distinct_object (hobjects o ho)
    · exact (by decide : [py "name", py "version"].Nodup)
    · simp only [List.forall_mem_cons]
      exact ⟨trivial, trivial, List.forall_mem_nil _⟩

end Snapshot

/-! ### The fixpoint -/

section

variable {sha256 : List UInt8 → PyStr} {isDateTime : PyStr → Bool} {loads : List UInt8 → Option PyJson}

theorem accept_eq_valid {doc : PyJson} {a : Acceptance} {bytes : List UInt8} :
    accept sha256 isDateTime doc = some (.valid a bytes) ↔
      ∃ s, readSnapshot isDateTime doc = some s ∧ acceptSnapshot sha256 s = some (.valid a bytes) := by
  cases doc with
  | obj members =>
      rw [accept]
      cases hread : readSnapshot isDateTime (.obj members) with
      | none => exact ⟨fun h => (nomatch h), fun ⟨s, hs, _⟩ => (nomatch hs)⟩
      | some s => exact ⟨fun h => ⟨s, rfl, h⟩, fun ⟨s', hs', h⟩ => Option.some.inj hs' ▸ h⟩
  | _ =>
      refine ⟨fun h => (nomatch h), fun ⟨s, hs, _⟩ => ?_⟩
      rw [readSnapshot] at hs
      cases hs

/-- The stored bytes are those of a value that is read back. -/
theorem loads_serialized (hloads : ReadsBack loads) {s : Snapshot} (hopen : s.OpenDistinct)
    {bytes : List UInt8} (hbytes : canonicalDocumentBytes s = some bytes) :
    loads bytes = some (ordered s).document.sortKeys := by
  obtain ⟨line, hline, rfl⟩ := Option.map_eq_some_iff.mp hbytes
  have hencodable : (ordered s).document.isEncodable = true := by
    rw [← canonicalBytes_isSome, hline]
    rfl
  refine hloads _ hopen.ordered.document.sortKeys ((isEncodable_sortKeys _).trans hencodable) line ?_
  rw [canonicalBytes, PyJson.canonicalJson, if_pos (isFinite_of_isEncodable hencodable)] at hline
  exact hline

/-- A stored document is accepted as it was. -/
theorem accept_serialized (hloads : ReadsBack loads) {doc : PyJson} (hdoc : doc.Distinct) {a : Acceptance}
    {bytes : List UInt8} (h : accept sha256 isDateTime doc = some (.valid a bytes)) :
    ∃ doc' a', loads bytes = some doc' ∧ accept sha256 isDateTime doc' = some (.valid a' bytes) ∧
      a'.sha256 = a.sha256 ∧ a'.canonicalBodySha256 = a.canonicalBodySha256 ∧ a'.warnings.Perm a.warnings := by
  obtain ⟨s, hread, hs⟩ := accept_eq_valid.mp h
  obtain ⟨a', haccept, hhash, hbody, hwarnings⟩ := acceptSnapshot_printed hs
  have hopen := Snapshot.OpenDistinct.of_read hdoc hread
  have hprinted : readSnapshot isDateTime (ordered s).document.sortKeys = some (ordered s).printed :=
    Snapshot.readSnapshot_printed (readSnapshot_eq_some hread).1
      fun members hmembers => (distinct_obj.mp (hopen.1 members hmembers)).1
  exact ⟨_, a', loads_serialized hloads hopen (acceptSnapshot_eq_valid.mp hs).2.1,
    accept_eq_valid.mpr ⟨_, hprinted, haccept⟩, hhash, hbody, hwarnings⟩

/-- Two documents have the same fields outside `excluded`, as dictionaries. -/
def PyJson.AgreesOutside (excluded : List String) (v w : PyJson) : Prop :=
  ∀ key, key ∉ excluded → (v.field key).map sortKeys = (w.field key).map sortKeys

theorem body_of_agrees {doc doc' : PyJson} (h : doc.AgreesOutside canonicalBodyExcluded doc')
    {s s' : Snapshot} (hs : readSnapshot isDateTime doc = some s)
    (hs' : readSnapshot isDateTime doc' = some s') :
    (ordered s.printed).body = (ordered s'.printed).body := by
  have hfield : ∀ {α : Type} {read : PyJson → Option α} {key : String}, key ∉ canonicalBodyExcluded →
      doc.sortKeys.required key read = doc'.sortKeys.required key read := by
    intro α read key hkey
    rw [required, required, field_sortKeys, field_sortKeys, h key hkey]
  have hoptional : doc.sortKeys.optional "source_properties" readOpen =
      doc'.sortKeys.optional "source_properties" readOpen := by
    rw [PyJson.optional, PyJson.optional, field_sortKeys, field_sortKeys, h _ (by decide)]
  have hprinted : ∀ {doc : PyJson} {s : Snapshot}, readSnapshot isDateTime doc = some s →
      readSnapshot isDateTime doc.sortKeys = some s.printed := by
    intro doc s hs
    rw [readSnapshot_sortKeys, hs]
    rfl
  obtain ⟨-, hsystem, hclass, hproperties, hobjects⟩ := readSnapshot_eq_some (hprinted hs)
  obtain ⟨-, hsystem', hclass', hproperties', hobjects'⟩ := readSnapshot_eq_some (hprinted hs')
  rw [hfield (by decide)] at hsystem hclass hobjects
  rw [hoptional] at hproperties
  have heq : s.printed.system = s'.printed.system :=
    congrArg Subtype.val (Option.some.inj (hsystem.symm.trans hsystem'))
  have hclasses := Option.some.inj (hclass.symm.trans hclass')
  have hopens := Option.some.inj (hproperties.symm.trans hproperties')
  have harrays := Option.some.inj (hobjects.symm.trans hobjects')
  unfold Snapshot.body ordered
  dsimp only
  rw [heq, hclasses, hopens, harrays]

/-- **Acceptance is a fixpoint**, and the hash of the body is one of the fields that are not excluded. -/
theorem accept_fixpoint (hloads : ReadsBack loads) :
    (∀ doc : PyJson, doc.Distinct → ∀ a bytes, accept sha256 isDateTime doc = some (.valid a bytes) →
      ∃ doc' a', loads bytes = some doc' ∧ accept sha256 isDateTime doc' = some (.valid a' bytes) ∧
        a'.sha256 = a.sha256 ∧ a'.canonicalBodySha256 = a.canonicalBodySha256) ∧
    ∀ doc doc' : PyJson, doc.AgreesOutside canonicalBodyExcluded doc' → ∀ a bytes a' bytes',
      accept sha256 isDateTime doc = some (.valid a bytes) →
      accept sha256 isDateTime doc' = some (.valid a' bytes') →
        a.canonicalBodySha256 = a'.canonicalBodySha256 := by
  constructor
  · intro doc hdoc a bytes h
    obtain ⟨doc', a', hdoc', haccept, hhash, hbody, -⟩ := accept_serialized hloads hdoc h
    exact ⟨doc', a', hdoc', haccept, hhash, hbody⟩
  · intro doc doc' hagrees a bytes a' bytes' h h'
    obtain ⟨s, hread, hs⟩ := accept_eq_valid.mp h
    obtain ⟨s', hread', hs'⟩ := accept_eq_valid.mp h'
    obtain ⟨-, -, body, hbody, ha⟩ := acceptSnapshot_eq_valid.mp hs
    obtain ⟨-, -, body', hbody', ha'⟩ := acceptSnapshot_eq_valid.mp hs'
    have hprinted : ∀ s : Snapshot, canonicalBodyBytes s = (ordered s.printed).body.canonicalBytes := by
      intro s
      rw [ordered_printed]
      exact canonicalBytes_congr (Snapshot.sortKeys_body_printed _).symm
    have hsame : body = body' := by
      rw [hprinted, body_of_agrees hagrees hread hread', ← hprinted, hbody'] at hbody
      exact (Option.some.inj hbody).symm
    rw [ha, ha', hsame]

end

/-! ### A stored document -/

/-- What is printed with bytes is printed by one value. -/
theorem PyJson.dumps_inj {v w : PyJson} (hv : v.isEncodable = true) (hw : w.isEncodable = true)
    (h : encodeUtf8 v.dumps = encodeUtf8 w.dumps) : v = w := by
  have hlone : ∀ {v : PyJson}, v.isEncodable = true → v.dumps.any CodePoint.isLone = false := by
    intro v hv
    rw [any_isLone_dumps (isFinite_of_isEncodable hv), hv, Bool.not_true]
  unfold encodeUtf8 at h
  rw [hlone hv, hlone hw] at h
  have hdumps := flatMap_utf8Scalar_inj (hlone hv) (hlone hw) (Option.some.inj h)
  refine toJson_inj hv hw (stringify_injective ?_)
  rw [← units_dumps hv, hdumps, units_dumps hw]

/-- A line that prints the value. -/
def PyJson.IsLine (bytes : List UInt8) (v : PyJson) : Prop :=
  v.isEncodable = true ∧ ∃ line, encodeUtf8 v.dumps = some line ∧ bytes = line ++ [0x0A]

open Classical in
/-- The value a line prints, if it is a printed line. -/
noncomputable def loadsPrinted (bytes : List UInt8) : Option PyJson :=
  if h : ∃ v, IsLine bytes v then some h.choose else none

theorem readsBack_loadsPrinted : ReadsBack loadsPrinted := by
  intro v _ hv bytes hbytes
  have hline : ∃ w, IsLine (bytes ++ [0x0A]) w := ⟨v, hv, bytes, hbytes, rfl⟩
  obtain ⟨hchosen, line, hprinted, heq⟩ := hline.choose_spec
  have hsame : line = bytes := (List.append_cancel_right heq).symm
  rw [loadsPrinted, dif_pos hline]
  exact congrArg some (dumps_inj hchosen hv (by rw [hprinted, hsame, hbytes]))

def zeroDigest : List UInt8 → PyStr := fun _ => List.replicate 64 (.unit 0x30)

/-- Two columns at one place, in an order that is kept. -/
def sharedOrdinal : Snapshot := demoSnapshot [ordersTable [columnB 1 (by decide), columnA 1 (by decide)]]

theorem accept_sharedOrdinal : ∃ a bytes, accept zeroDigest (fun _ => true) sharedOrdinal.document =
    some (.valid a bytes) := by
  have hread : readSnapshot (fun _ => true) sharedOrdinal.document = some sharedOrdinal :=
    Snapshot.readSnapshot_document rfl fun _ hmembers => nomatch hmembers
  have hdocument : (ordered sharedOrdinal).document.canonicalBytes.isSome := by
    rw [canonicalBytes_isSome]
    decide
  have hbody : (canonicalBodyBytes sharedOrdinal).isSome := by
    rw [canonicalBodyBytes, canonicalBytes_isSome]
    decide
  obtain ⟨bytes, hbytes⟩ := Option.isSome_iff_exists.mp hdocument
  obtain ⟨body, hbody⟩ := Option.isSome_iff_exists.mp hbody
  have hserialized : canonicalDocumentBytes sharedOrdinal = some (bytes ++ [0x0A]) := by
    rw [canonicalDocumentBytes, hbytes]
    rfl
  have hhash : ∀ o ∈ sharedOrdinal.objects, o.kindSpec.isSome →
      schemaHash zeroDigest o = some o.schemaHash := by
    intro o ho _
    obtain rfl := List.mem_singleton.mp ho
    have hkind : (ordersTable [columnB 1 (by decide), columnA 1 (by decide)]).kindSpec =
        some ⟨.sql, [py "checks"], [py "row_estimate", py "indexes"]⟩ := rfl
    have hstored : py "sha256:" ++ List.replicate 64 (.unit 0x30) =
      (ordersTable [columnB 1 (by decide), columnA 1 (by decide)]).schemaHash := by decide +kernel
    have hsome : (structuralProjection ⟨.sql, [py "checks"], [py "row_estimate", py "indexes"]⟩
        (ordersTable [columnB 1 (by decide), columnA 1 (by decide)])).canonicalBytes.isSome := by
      rw [canonicalBytes_isSome]
      decide
    obtain ⟨hashed, hhashed⟩ := Option.isSome_iff_exists.mp hsome
    unfold schemaHash
    rw [hkind, Option.bind_eq_bind, Option.bind_some, hhashed, ← hstored]
    exact Option.bind_some _ _
  exact ⟨_, _, accept_eq_valid.mpr ⟨_, hread, acceptSnapshot_valid
    (validateSnapshot_iff.mpr ⟨by decide, hhash, rfl⟩) hserialized hbody⟩⟩

theorem accept_fixpoint_sharedOrdinal : ∃ a bytes doc' a',
    accept zeroDigest (fun _ => true) sharedOrdinal.document = some (.valid a bytes) ∧
      loadsPrinted bytes = some doc' ∧ accept zeroDigest (fun _ => true) doc' = some (.valid a' bytes) ∧
      a'.sha256 = a.sha256 ∧ a'.canonicalBodySha256 = a.canonicalBodySha256 := by
  obtain ⟨a, bytes, h⟩ := accept_sharedOrdinal
  have hopen : sharedOrdinal.OpenDistinct := by
    refine ⟨fun _ hmembers => (nomatch hmembers), fun o ho => ?_⟩
    obtain rfl := List.mem_singleton.mp ho
    exact distinct_obj.mpr ⟨List.nodup_nil, List.forall_mem_nil _⟩
  obtain ⟨doc', a', hrest⟩ := (accept_fixpoint readsBack_loadsPrinted).1 _ hopen.document a bytes h
  exact ⟨a, bytes, doc', a', h, hrest⟩

end ContextLayer
