import ContextLayer.Proof.SnapshotDiff

/-!
# What two diffs of one pair of snapshots say of each other

A diff puts every known identity of the two snapshots into one class. Diffing the other way round
exchanges what was added for what was removed and keeps the other classes, since both the stored hashes
and the canonical bytes are compared for equality only. The sub-diffs are read from indexes of the two
objects, and what is found in one index and not in the other is an addition seen one way and a removal
seen the other.
-/

namespace ContextLayer

open Text StableSort

namespace Diff

/-- Accepted, with a canonical body that has a hash. -/
structure Delivered (sha256 : List UInt8 → PyStr) (s : Snapshot) : Prop where
  accepted : s.IsAccepted sha256 true
  encodable : (canonicalBodyBytes s).isSome

def knownIdentities (s : Snapshot) : List Identity := (knownObjects s.objects).map SourceObject.identity

/-- Everything a diff classifies. -/
def SnapshotDiff.identities (d : SnapshotDiff) : List Identity :=
  d.added.map ObjectDiff.identity ++ (d.removed.map ObjectDiff.identity ++
    (d.changedStructural.map ObjectDiff.identity ++
      (d.changedMetadataOnly.map ObjectDiff.identity ++ d.unchanged)))

/-- What widens an object, and what breaks it when seen the other way. -/
inductive Mirror : Change → Change → Prop where
  | column (c : Column) : Mirror (.columnAdded c) (.columnRemoved c)
  | nullable (name : PyStr) : Mirror (.columnNullableLoosened name) (.columnNullableTightened name)
  | primary (columns : List PyStr) : Mirror (.primaryAdded columns) (.primaryRemoved columns)
  | foreign (key : ForeignKey) : Mirror (.foreignAdded key) (.foreignRemoved key)
  | unique (columns : List PyStr) : Mirror (.uniqueAdded columns) (.uniqueRemoved columns)

/-- Every widening of the one is a breaking sub-diff of the other. -/
def Mirrors (subs subs' : List SubDiff) : Prop :=
  ∀ c c' : Change, Mirror c c' →
    ((∃ s ∈ subs, s.change = c ∧ s.severity ≠ .breaking) ↔
      ∃ s ∈ subs', s.change = c' ∧ s.severity = .breaking)

/-- The diff `d` of two snapshots and the diff `d'` of the same two the other way round. -/
structure Antisymmetric (d d' : SnapshotDiff) : Prop where
  added : ∀ i, i ∈ d.added.map ObjectDiff.identity ↔ i ∈ d'.removed.map ObjectDiff.identity
  removed : ∀ i, i ∈ d.removed.map ObjectDiff.identity ↔ i ∈ d'.added.map ObjectDiff.identity
  structural : ∀ i, i ∈ d.changedStructural.map ObjectDiff.identity ↔
    i ∈ d'.changedStructural.map ObjectDiff.identity
  metadata : ∀ i, i ∈ d.changedMetadataOnly.map ObjectDiff.identity ↔
    i ∈ d'.changedMetadataOnly.map ObjectDiff.identity
  unchanged : ∀ i, i ∈ d.unchanged ↔ i ∈ d'.unchanged
  mirrors : ∀ e ∈ d.changedStructural, ∀ e' ∈ d'.changedStructural, e.identity = e'.identity →
    Mirrors e.subDiffs e'.subDiffs ∧ Mirrors e'.subDiffs e.subDiffs

/-! ### Sub-diffs -/

section SubDiffs

variable {spec : KindSpec} {old new : SourceObject}

/-- What is said of a column of both. -/
theorem exists_commonColumn {name : PyStr} {o n : Column} {P : SubDiff → Prop} :
    (∃ s ∈ commonColumnSubDiffs name o n, P s) ↔
      (o.type ≠ n.type ∧ P (sub .breaking (.columnTypeChanged name o.type n.type))) ∨
      (o.nullable = true ∧ n.nullable = false ∧ P (sub .breaking (.columnNullableTightened name))) ∨
      (o.nullable = false ∧ n.nullable = true ∧
        P (sub .additiveWithNote (.columnNullableLoosened name))) ∨
      (o.default ≠ n.default ∧
        P (sub .additiveWithNote (.columnDefaultChanged name o.default n.default))) ∨
      (o.ordinal.value ≠ n.ordinal.value ∧
        P (sub .breaking (.columnOrdinalChanged name o.ordinal n.ordinal))) := by
  have hite : ∀ (p : Prop) [Decidable p] (s t : SubDiff), s ∈ (if p then [t] else []) ↔ p ∧ s = t := by
    intro p _ s t
    by_cases hp : p <;> simp [hp]
  simp only [commonColumnSubDiffs, List.mem_append, hite, or_and_right, exists_or, or_assoc, and_assoc,
    exists_and_left, exists_eq_left]
  refine or_congr_right ?_
  cases o.nullable <;> cases n.nullable <;> simp

/-- The severity each change comes with. -/
def Change.severity : Change → Severity
  | .columnAdded _ | .primaryAdded _ | .foreignAdded _ | .uniqueAdded _ => .additive
  | .columnNullableLoosened _ | .columnDefaultChanged _ _ _ => .additiveWithNote
  | _ => .breaking

/-- What makes a change show, in terms of the indexes of the two objects. -/
def Change.Shows (spec : KindSpec) (old new : SourceObject) : Change → Prop
  | .columnAdded c => c ∈ addedColumns old new
  | .columnRemoved c => c ∈ addedColumns new old
  | .columnTypeChanged name a b => ∃ o ∈ lastNamed old name, ∃ n ∈ lastNamed new name,
      o.type ≠ n.type ∧ o.type = a ∧ n.type = b
  | .columnNullableTightened name => ∃ o ∈ lastNamed old name, ∃ n ∈ lastNamed new name,
      o.nullable = true ∧ n.nullable = false
  | .columnNullableLoosened name => ∃ o ∈ lastNamed old name, ∃ n ∈ lastNamed new name,
      o.nullable = false ∧ n.nullable = true
  | .columnDefaultChanged name a b => ∃ o ∈ lastNamed old name, ∃ n ∈ lastNamed new name,
      o.default ≠ n.default ∧ o.default = a ∧ n.default = b
  | .columnOrdinalChanged name a b => ∃ o ∈ lastNamed old name, ∃ n ∈ lastNamed new name,
      o.ordinal.value ≠ n.ordinal.value ∧ o.ordinal = a ∧ n.ordinal = b
  | .primaryAdded k => primaryOf old = [] ∧ primaryOf new ≠ [] ∧ primaryOf new = k
  | .primaryRemoved k => primaryOf new = [] ∧ primaryOf old ≠ [] ∧ primaryOf old = k
  | .primaryAltered a b => primaryOf old ≠ primaryOf new ∧ primaryOf old ≠ [] ∧ primaryOf new ≠ [] ∧
      primaryOf old = a ∧ primaryOf new = b
  | .foreignAdded fk => fk ∈ addedForeign old new
  | .foreignRemoved fk => fk ∈ addedForeign new old
  | .foreignAltered columns a b => lastForeignOn old columns = some a ∧
      lastForeignOn new columns = some b ∧ a ≠ b
  | .uniqueAdded columns => columns ∈ addedUnique old new
  | .uniqueRemoved columns => columns ∈ addedUnique new old
  | .definitionChanged a b => py "definition" ∈ spec.hashIncludedStats ∧
      PyJson.sameStat (Dict.get? old.stats (py "definition")) (Dict.get? new.stats (py "definition")) = false ∧
        Dict.get? old.stats (py "definition") = a ∧ Dict.get? new.stats (py "definition") = b
  | .statChanged stat a b => stat ∈ spec.hashIncludedStats ∧ stat ≠ py "definition" ∧
      PyJson.sameStat (Dict.get? old.stats stat) (Dict.get? new.stats stat) = false ∧
        Dict.get? old.stats stat = a ∧ Dict.get? new.stats stat = b

theorem exists_mem_flatMap {α β : Type} {l : List α} {f : α → List β} {P : β → Prop} :
    (∃ b ∈ l.flatMap f, P b) ↔ ∃ a ∈ l, ∃ b ∈ f a, P b := by
  simp only [List.mem_flatMap]
  constructor
  · rintro ⟨b, ⟨a, ha, hb⟩, hP⟩
    exact ⟨a, ha, b, hb, hP⟩
  · rintro ⟨a, ha, b, hb, hP⟩
    exact ⟨b, ⟨a, ha, hb⟩, hP⟩

/-- The sub-diffs of columns of both, with the columns looked up by name. -/
theorem exists_common {P : SubDiff → Prop} :
    (∃ s ∈ (columnsByName old).flatMap fun e =>
      ((Dict.get? (columnsByName new) e.1).map fun n => commonColumnSubDiffs e.1 e.2 n).getD [], P s) ↔
      ∃ name, ∃ o ∈ lastNamed old name, ∃ n ∈ lastNamed new name,
        ∃ s ∈ commonColumnSubDiffs name o n, P s := by
  rw [exists_mem_flatMap]
  simp only [Prod.exists, mem_columnsByName, get?_columnsByName, Option.mem_def]
  refine exists_congr fun name => exists_congr fun o => and_congr_right fun _ => ?_
  cases lastNamed new name <;> simp

theorem exists_commonForeign {P : SubDiff → Prop} :
    (∃ s ∈ (foreignByColumns old).flatMap fun e =>
      ((Dict.get? (foreignByColumns new) e.1).map fun n =>
        if e.2 ≠ n then [sub .breaking (.foreignAltered e.1 e.2 n)] else []).getD [], P s) ↔
      ∃ columns, ∃ o ∈ lastForeignOn old columns, ∃ n ∈ lastForeignOn new columns,
        o ≠ n ∧ P (sub .breaking (.foreignAltered columns o n)) := by
  rw [exists_mem_flatMap]
  simp only [Prod.exists, mem_foreignByColumns, get?_foreignByColumns, Option.mem_def]
  refine exists_congr fun columns => exists_congr fun o => and_congr_right fun _ => ?_
  cases lastForeignOn new columns with
  | none => simp
  | some n => by_cases hne : o = n <;> simp [hne]

theorem exists_stats {P : SubDiff → Prop} : (∃ s ∈ statsSubDiffs spec old new, P s) ↔
    (py "definition" ∈ spec.hashIncludedStats ∧ PyJson.sameStat (Dict.get? old.stats (py "definition"))
        (Dict.get? new.stats (py "definition")) = false ∧
      P ⟨.definitionChanged (Dict.get? old.stats (py "definition"))
        (Dict.get? new.stats (py "definition")), .breaking, true⟩) ∨
    ∃ stat ∈ spec.hashIncludedStats, stat ≠ py "definition" ∧
      PyJson.sameStat (Dict.get? old.stats stat) (Dict.get? new.stats stat) = false ∧
        P (sub .breaking (.statChanged stat (Dict.get? old.stats stat) (Dict.get? new.stats stat))) := by
  have hone : ∀ stat, (∃ s ∈ (if PyJson.sameStat (Dict.get? old.stats stat) (Dict.get? new.stats stat) then []
      else if stat = py "definition" then
        [(⟨.definitionChanged (Dict.get? old.stats stat) (Dict.get? new.stats stat), .breaking, true⟩ : SubDiff)]
      else [sub .breaking (.statChanged stat (Dict.get? old.stats stat) (Dict.get? new.stats stat))]), P s) ↔
        PyJson.sameStat (Dict.get? old.stats stat) (Dict.get? new.stats stat) = false ∧
          P (if stat = py "definition" then
            ⟨.definitionChanged (Dict.get? old.stats stat) (Dict.get? new.stats stat), .breaking, true⟩
          else sub .breaking (.statChanged stat (Dict.get? old.stats stat) (Dict.get? new.stats stat))) := by
    intro stat
    cases PyJson.sameStat (Dict.get? old.stats stat) (Dict.get? new.stats stat) with
    | true => simp
    | false => by_cases hstat : stat = py "definition" <;> simp [hstat]
  rw [statsSubDiffs, exists_mem_flatMap]
  simp only [mem_sortOn, hone]
  constructor
  · rintro ⟨stat, hmem, hsame, hP⟩
    by_cases hstat : stat = py "definition"
    · subst hstat
      exact .inl ⟨hmem, hsame, by rwa [if_pos rfl] at hP⟩
    · exact .inr ⟨stat, hmem, hstat, hsame, by rwa [if_neg hstat] at hP⟩
  · rintro (⟨hmem, hsame, hP⟩ | ⟨stat, hmem, hstat, hsame, hP⟩)
    · exact ⟨_, hmem, hsame, by rwa [if_pos rfl]⟩
    · exact ⟨stat, hmem, hsame, by rwa [if_neg hstat]⟩

theorem exists_primaryKey {P : SubDiff → Prop} : (∃ s ∈ primarySubDiffs old new, P s) ↔
    (primaryOf old = [] ∧ primaryOf new ≠ [] ∧ P (sub .additive (.primaryAdded (primaryOf new)))) ∨
    (primaryOf new = [] ∧ primaryOf old ≠ [] ∧ P (sub .breaking (.primaryRemoved (primaryOf old)))) ∨
    (primaryOf old ≠ primaryOf new ∧ primaryOf old ≠ [] ∧ primaryOf new ≠ [] ∧
      P (sub .breaking (.primaryAltered (primaryOf old) (primaryOf new)))) := by
  rw [primarySubDiffs]
  by_cases hold : primaryOf old = []
  · by_cases hnew : primaryOf new = []
    · simp [hold, hnew]
    · simp [hold, hnew]
  · by_cases hnew : primaryOf new = []
    · simp [hold, hnew]
    · by_cases hsame : primaryOf old = primaryOf new <;> simp [hold, hnew, hsame]

/-- The sub-diffs, list by list. -/
theorem exists_subDiffs {P : SubDiff → Prop} : (∃ s ∈ subDiffs spec old new, P s) ↔
    (∃ c ∈ addedColumns old new, P (sub .additive (.columnAdded c))) ∨
    (∃ c ∈ addedColumns new old, P (sub .breaking (.columnRemoved c))) ∨
    (∃ name, ∃ o ∈ lastNamed old name, ∃ n ∈ lastNamed new name,
      ∃ s ∈ commonColumnSubDiffs name o n, P s) ∨
    (∃ s ∈ primarySubDiffs old new, P s) ∨
    (∃ fk ∈ addedForeign old new, P (sub .additive (.foreignAdded fk))) ∨
    (∃ fk ∈ addedForeign new old, P (sub .breaking (.foreignRemoved fk))) ∨
    (∃ columns, ∃ o ∈ lastForeignOn old columns, ∃ n ∈ lastForeignOn new columns,
      o ≠ n ∧ P (sub .breaking (.foreignAltered columns o n))) ∨
    (∃ columns ∈ addedUnique old new, P (sub .additive (.uniqueAdded columns))) ∨
    (∃ columns ∈ addedUnique new old, P (sub .breaking (.uniqueRemoved columns))) ∨
    ∃ s ∈ statsSubDiffs spec old new, P s := by
  simp only [subDiffs, columnSubDiffs, keySubDiffs, foreignSubDiffs, List.mem_append, or_and_right,
    exists_or, exists_common, exists_commonForeign, List.mem_map, exists_exists_and_eq_and, or_assoc]

/-- **What a diff of two objects says**, change by change. -/
theorem shows_iff {c : Change} :
    (∃ s ∈ subDiffs spec old new, s.change = c) ↔ c.Shows spec old new := by
  rw [exists_subDiffs, exists_primaryKey, exists_stats]
  simp only [exists_commonColumn]
  cases c <;> simp [Change.Shows, sub]

theorem severity_of_mem {s : SubDiff} (h : s ∈ subDiffs spec old new) :
    s.severity = s.change.severity := by
  by_contra hne
  have hex : ∃ s ∈ subDiffs spec old new, ¬ s.severity = s.change.severity := ⟨s, h, hne⟩
  rw [exists_subDiffs, exists_primaryKey, exists_stats] at hex
  simp only [exists_commonColumn] at hex
  simp [sub, Change.severity] at hex

theorem shows_mirror {c c' : Change} (h : Mirror c c') : c.Shows spec old new ↔ c'.Shows spec new old := by
  cases h with
  | nullable name =>
      simp only [Change.Shows, Option.mem_def]
      constructor
      · rintro ⟨o, ho, n, hn, hold, hnew⟩
        exact ⟨n, hn, o, ho, hnew, hold⟩
      · rintro ⟨o, ho, n, hn, hold, hnew⟩
        exact ⟨n, hn, o, ho, hnew, hold⟩
  | column | primary | foreign | unique => exact Iff.rfl

theorem severity_of_mirror {c c' : Change} (h : Mirror c c') :
    c.severity ≠ .breaking ∧ c'.severity = .breaking := by
  cases h <;> exact ⟨nofun, rfl⟩

/-- **Mirrored**: what widens one way breaks the other way. -/
theorem mirrors_subDiffs : Mirrors (subDiffs spec old new) (subDiffs spec new old) := by
  intro c c' h
  obtain ⟨hc, hc'⟩ := severity_of_mirror h
  have hshows : ∀ {old new : SourceObject} {c : Change} {p : Severity → Prop}, p c.severity →
      ((∃ s ∈ subDiffs spec old new, s.change = c ∧ p s.severity) ↔ c.Shows spec old new) := by
    intro old new c p hp
    rw [← shows_iff]
    refine exists_congr fun s => and_congr_right fun hs => and_iff_left_of_imp ?_
    rintro rfl
    rwa [severity_of_mem hs]
  rw [@hshows old new c (· ≠ .breaking) hc, @hshows new old c' (· = .breaking) hc', shows_mirror h]

end SubDiffs

/-! ### One object -/

/-- The class of an object that is in both. -/
def classify (o n : SourceObject) : Classification :=
  if o.schemaHash ≠ n.schemaHash then .changedStructural
  else if canonicalObjectBytes o ≠ canonicalObjectBytes n then .changedMetadataOnly
  else .unchanged

theorem classify_comm (o n : SourceObject) : classify o n = classify n o := by
  simp only [classify, ne_comm]

theorem classify_self (o : SourceObject) : classify o o = .unchanged := by
  rw [classify, if_neg (not_not.mpr rfl), if_neg (not_not.mpr rfl)]

/-- Objects with canonical bytes are diffed without an exception. -/
theorem exists_diffObject (spec : KindSpec) {o n : SourceObject} (ho : o.toPy.isEncodable = true)
    (hn : n.toPy.isEncodable = true) : ∃ d, diffObject spec o n = some d ∧ d.identity = o.identity ∧
      d.classification = classify o n ∧
        (d.classification = .changedStructural → d.subDiffs = subDiffs spec o n) := by
  by_cases hhash : o.schemaHash = n.schemaHash
  · obtain ⟨oldBytes, hold⟩ := Option.isSome_iff_exists.mp ((canonicalObjectBytes_isSome o).trans ho)
    obtain ⟨newBytes, hnew⟩ := Option.isSome_iff_exists.mp ((canonicalObjectBytes_isSome n).trans hn)
    refine ⟨_, diffObject_same hhash hold hnew, ?_⟩
    rw [classify, if_neg (not_not.mpr hhash), hold, hnew]
    by_cases hbytes : oldBytes = newBytes
    · rw [if_neg (not_not.mpr hbytes), if_neg (not_not.mpr (congrArg some hbytes))]
      exact ⟨rfl, rfl, nofun⟩
    · rw [if_pos hbytes, if_pos fun heq => hbytes (Option.some.inj heq)]
      exact ⟨rfl, rfl, nofun⟩
  · refine ⟨_, diffObject_structural hhash, rfl, ?_, fun _ => rfl⟩
    rw [classify, if_pos hhash]

/-! ### The index of a snapshot -/

def indexOf (s : Snapshot) : List (Identity × SourceObject) :=
  (knownObjects s.objects).map fun o => (o.identity, o)

theorem mem_indexOf {s : Snapshot} {i : Identity} {o : SourceObject} :
    (i, o) ∈ indexOf s ↔ o ∈ knownObjects s.objects ∧ o.identity = i := by
  simp only [indexOf, List.mem_map, Prod.mk.injEq]
  constructor
  · rintro ⟨o', ho', rfl, rfl⟩
    exact ⟨ho', rfl⟩
  · rintro ⟨ho, rfl⟩
    exact ⟨o, ho, rfl, rfl⟩

theorem map_fst_indexOf (s : Snapshot) : (indexOf s).map Prod.fst = knownIdentities s := by
  rw [indexOf, List.map_map]
  rfl

theorem get?_indexOf_eq_none {s : Snapshot} {i : Identity} :
    Dict.get? (indexOf s) i = none ↔ i ∉ knownIdentities s := by
  rw [← Option.not_isSome_iff_eq_none, Dict.isSome_get?_iff, ← map_fst_indexOf, List.mem_map]

/-- Where identities are unique, the index is built. -/
theorem exists_indexObjects {objects : List SourceObject} {index : List (Identity × SourceObject)}
    {skipped : List Identity} (hnodup : (objects.map SourceObject.identity).Nodup)
    (hfresh : ∀ o ∈ objects, o.identity ∉ index.map Prod.fst) :
    ∃ r, objects.foldlM (fun (index, skipped) o =>
      if o.kindSpec.isNone then
        some (index, if o.identity ∈ skipped then skipped else skipped ++ [o.identity])
      else if (Dict.get? index o.identity).isSome then none
      else some (Dict.set index o.identity o, skipped)) (index, skipped) = some r := by
  induction objects generalizing index skipped with
  | nil => exact ⟨_, rfl⟩
  | cons o rest ih =>
      rw [List.map_cons, List.nodup_cons] at hnodup
      obtain ⟨hown, hrest⟩ := List.forall_mem_cons.mp hfresh
      rw [List.foldlM_cons]
      dsimp only
      by_cases hkind : o.kindSpec.isNone = true
      · rw [if_pos hkind]
        exact ih hnodup.2 hrest
      · have hnone : ¬ (Dict.get? index o.identity).isSome := by
          intro hsome
          obtain ⟨e, he, heq⟩ := Dict.isSome_get?_iff.mp hsome
          exact hown (List.mem_map.mpr ⟨e, he, heq⟩)
        rw [if_neg hkind, if_neg hnone]
        refine ih hnodup.2 fun o' ho' hmem => ?_
        rw [Dict.map_fst_set, if_neg hown, List.mem_append, List.mem_singleton] at hmem
        exact hmem.elim (hrest o' ho') fun heq => hnodup.1 (heq ▸ List.mem_map_of_mem ho')

theorem exists_index (s : Snapshot) (h : (s.objects.map SourceObject.identity).Nodup)
    (skipped : List Identity) : ∃ skipped', indexObjects s.objects skipped = some (indexOf s, skipped') := by
  obtain ⟨⟨index, skipped'⟩, hindex⟩ :=
    @exists_indexObjects s.objects [] skipped h fun _ _ hmem => List.not_mem_nil hmem
  have heq : index = indexOf s := (indexObjects_eq hindex).1
  subst heq
  exact ⟨skipped', hindex⟩

namespace Delivered

variable {sha256 : List UInt8 → PyStr} {s : Snapshot}

theorem isEncodable_object (h : Delivered sha256 s) {o : SourceObject} (ho : o ∈ s.objects) :
    o.toPy.isEncodable = true := by
  have hbody : s.body.isEncodable = true := by
    rw [← (Snapshot.reordered_ordered s).isEncodable_body, ← PyJson.canonicalBytes_isSome]
    exact h.encodable
  have hobjects := (PyJson.isEncodable_obj.mp hbody (py "objects", .arr (s.objects.map SourceObject.toPy))
    (by simp)).2
  exact PyJson.isEncodable_arr.mp hobjects _ (List.mem_map_of_mem ho)

theorem nodup_known (h : Delivered sha256 s) : (knownIdentities s).Nodup :=
  h.accepted.nodup.sublist (List.filter_sublist.map _)

end Delivered

/-! ### The classes -/

section Classes

variable {sha256 : List UInt8 → PyStr} {a b : Snapshot}

/-- An object of both, and its class. -/
def Common (a b : Snapshot) (k : Classification) (i : Identity) : Prop :=
  ∃ o ∈ knownObjects a.objects, ∃ n ∈ knownObjects b.objects,
    o.identity = i ∧ n.identity = i ∧ classify o n = k

theorem common_comm {k : Classification} {i : Identity} : Common a b k i ↔ Common b a k i := by
  have hswap : ∀ {a b : Snapshot}, Common a b k i → Common b a k i := by
    rintro a b ⟨o, ho, n, hn, hoi, hni, hk⟩
    exact ⟨n, hn, o, ho, hni, hoi, (classify_comm n o).trans hk⟩
  exact ⟨hswap, hswap⟩

theorem eq_of_identity (h : Delivered sha256 a) {o o' : SourceObject} (ho : o ∈ knownObjects a.objects)
    (ho' : o' ∈ knownObjects a.objects) (heq : o.identity = o'.identity) : o = o' :=
  List.inj_on_of_nodup_map h.nodup_known ho ho' heq

theorem common_unique (ha : Delivered sha256 a) (hb : Delivered sha256 b) {k k' : Classification}
    {i : Identity} (h : Common a b k i) (h' : Common a b k' i) : k = k' := by
  obtain ⟨o, ho, n, hn, hoi, hni, rfl⟩ := h
  obtain ⟨o', ho', n', hn', hoi', hni', rfl⟩ := h'
  rw [eq_of_identity ha ho ho' (hoi.trans hoi'.symm), eq_of_identity hb hn hn' (hni.trans hni'.symm)]

/-- What a diff of two snapshots classifies, and as what. -/
structure Classes (a b : Snapshot) (d : SnapshotDiff) : Prop where
  nodup : d.identities.Nodup
  added : ∀ i, i ∈ d.added.map ObjectDiff.identity ↔ i ∈ knownIdentities b ∧ i ∉ knownIdentities a
  removed : ∀ i, i ∈ d.removed.map ObjectDiff.identity ↔ i ∈ knownIdentities a ∧ i ∉ knownIdentities b
  structural : ∀ i, i ∈ d.changedStructural.map ObjectDiff.identity ↔ Common a b .changedStructural i
  metadata : ∀ i, i ∈ d.changedMetadataOnly.map ObjectDiff.identity ↔ Common a b .changedMetadataOnly i
  unchanged : ∀ i, i ∈ d.unchanged ↔ Common a b .unchanged i
  subDiffs : ∀ e ∈ d.changedStructural, ∃ o ∈ knownObjects a.objects, ∃ n ∈ knownObjects b.objects,
    o.identity = e.identity ∧ n.identity = e.identity ∧ ∃ spec ∈ o.kindSpec, e.subDiffs = subDiffs spec o n

theorem map_identity_onlyIn (a b : Snapshot) : (onlyIn (indexOf a) (indexOf b)).map SourceObject.identity =
    (sortOn (fun e => identityKey e.1)
      ((indexOf a).filter fun e => (Dict.get? (indexOf b) e.1).isNone)).map Prod.fst := by
  rw [onlyIn, List.map_map]
  refine List.map_congr_left fun e he => ?_
  exact (mem_indexOf.mp (List.mem_filter.mp (mem_sortOn.mp he)).1).2

theorem mem_map_onlyIn {i : Identity} : i ∈ (onlyIn (indexOf a) (indexOf b)).map SourceObject.identity ↔
    i ∈ knownIdentities a ∧ i ∉ knownIdentities b := by
  rw [map_identity_onlyIn, (sortOn_perm.map Prod.fst).mem_iff, ← get?_indexOf_eq_none, ← map_fst_indexOf]
  simp only [List.mem_map, List.mem_filter, Option.isNone_iff_eq_none]
  constructor
  · rintro ⟨e, ⟨he, hnone⟩, rfl⟩
    exact ⟨⟨e, he, rfl⟩, hnone⟩
  · rintro ⟨⟨e, he, rfl⟩, hnone⟩
    exact ⟨e, ⟨he, hnone⟩, rfl⟩

theorem nodup_map_onlyIn (ha : Delivered sha256 a) (b : Snapshot) :
    ((onlyIn (indexOf a) (indexOf b)).map SourceObject.identity).Nodup := by
  rw [map_identity_onlyIn, (sortOn_perm.map Prod.fst).nodup_iff]
  refine List.Nodup.sublist (List.filter_sublist.map Prod.fst) ?_
  rw [map_fst_indexOf]
  exact ha.nodup_known

/-- A filter that can fail keeps the order. -/
theorem sublist_of_filterMapM {α β κ : Type} {f : α → Option (Option β)} {g : β → κ} {key : α → κ}
    {l : List α} {r : List β} (hf : ∀ a ∈ l, ∀ b, f a = some (some b) → g b = key a)
    (h : l.filterMapM f = some r) : (r.map g).Sublist (l.map key) := by
  induction l generalizing r with
  | nil =>
      obtain rfl := Option.some.inj h
      exact List.Sublist.slnil
  | cons a rest ih =>
      obtain ⟨hown, hrest⟩ := List.forall_mem_cons.mp hf
      rw [List.filterMapM_cons] at h
      obtain ⟨first, hfirst, h⟩ := Option.bind_eq_some_iff.mp h
      cases first with
      | none => exact (ih hrest h).cons _
      | some b =>
          obtain ⟨others, hothers, h⟩ := Option.bind_eq_some_iff.mp h
          obtain rfl := Option.some.inj h
          rw [List.map_cons, List.map_cons, hown b hfirst]
          exact (ih hrest hothers).cons_cons _

theorem exists_filterMapM {α β : Type} {f : α → Option (Option β)} {l : List α}
    (h : ∀ a ∈ l, ∃ b?, f a = some b?) : ∃ r, l.filterMapM f = some r := by
  induction l with
  | nil => exact ⟨[], rfl⟩
  | cons a rest ih =>
      obtain ⟨⟨b?, hb⟩, hrest⟩ := List.forall_mem_cons.mp h
      obtain ⟨r, hr⟩ := ih hrest
      rw [List.filterMapM_cons, hb]
      cases b? with
      | none => exact ⟨r, hr⟩
      | some b => exact ⟨b :: r, by simp [hr]⟩

theorem kindSpec_of_known {o : SourceObject} (h : o ∈ knownObjects a.objects) :
    ∃ spec, o.kindSpec = some spec :=
  Option.isSome_iff_exists.mp (List.mem_filter.mp h).2

theorem get?_indexOf (h : Delivered sha256 a) {i : Identity} {o : SourceObject} :
    Dict.get? (indexOf a) i = some o ↔ o ∈ knownObjects a.objects ∧ o.identity = i := by
  rw [← mem_indexOf, Dict.mem_iff_get?]
  rw [map_fst_indexOf]
  exact h.nodup_known

/-- The diffs of the objects in both, with what each of them is of. -/
theorem exists_commonDiffs (ha : Delivered sha256 a) (hb : Delivered sha256 b) :
    ∃ common, commonDiffs (indexOf a) (indexOf b) = some common ∧
      (common.map ObjectDiff.identity).Nodup ∧
      (∀ i k, (∃ d ∈ common, d.classification = k ∧ d.identity = i) ↔ Common a b k i) ∧
      ∀ d ∈ common, d.classification = .changedStructural →
        ∃ o ∈ knownObjects a.objects, ∃ n ∈ knownObjects b.objects, o.identity = d.identity ∧
          n.identity = d.identity ∧ ∃ spec ∈ o.kindSpec, d.subDiffs = subDiffs spec o n := by
  -- What the filter does at one entry of the index.
  set f : Identity × SourceObject → Option (Option ObjectDiff) := fun e =>
    ((Dict.get? (indexOf b) e.1).bind fun new =>
      e.2.kindSpec.map fun spec => (diffObject spec e.2 new).map some).getD (some none) with hf
  have hcommonDiffs : commonDiffs (indexOf a) (indexOf b) =
      (sortOn (fun e => identityKey e.1) (indexOf a)).filterMapM f := by
    unfold commonDiffs
    congr 1
    funext e
    cases hget : Dict.get? (indexOf b) e.1 <;> cases hspec : e.2.kindSpec <;> simp [hf, hget, hspec]
  rw [hcommonDiffs]
  have hentry : ∀ {i o n}, o ∈ knownObjects a.objects → n ∈ knownObjects b.objects →
      o.identity = i → n.identity = i → ∃ d, f (i, o) = some (some d) ∧ d.identity = i ∧
        d.classification = classify o n ∧
        (d.classification = .changedStructural → ∃ spec ∈ o.kindSpec, d.subDiffs = subDiffs spec o n) := by
    intro i o n ho hn hoi hni
    obtain ⟨spec, hspec⟩ := kindSpec_of_known ho
    obtain ⟨d, hd, hid, hclass, hsubs⟩ := exists_diffObject spec
      (ha.isEncodable_object (List.mem_filter.mp ho).1) (hb.isEncodable_object (List.mem_filter.mp hn).1)
    refine ⟨d, ?_, hid.trans hoi, hclass, fun h => ⟨spec, hspec, hsubs h⟩⟩
    have hget : Dict.get? (indexOf b) i = some n := (get?_indexOf hb).mpr ⟨hn, hni⟩
    simp only [hf, hget, hspec, hd, Option.map_some, Option.bind_some, Option.getD_some]
  have hnone : ∀ {i o}, Dict.get? (indexOf b) i = none → f (i, o) = some none := by
    intro i o hget
    simp only [hf, hget, Option.bind_none, Option.getD_none]
  -- Every entry is one of these two.
  have hcases : ∀ e ∈ sortOn (fun e => identityKey e.1) (indexOf a), f e = some none ∨
      ∃ n ∈ knownObjects b.objects, e.2 ∈ knownObjects a.objects ∧ e.2.identity = e.1 ∧ n.identity = e.1 := by
    rintro ⟨i, o⟩ he
    obtain ⟨ho, hoi⟩ := mem_indexOf.mp (mem_sortOn.mp he)
    cases hget : Dict.get? (indexOf b) i with
    | none => exact .inl (hnone hget)
    | some n =>
        obtain ⟨hn, hni⟩ := (get?_indexOf hb).mp hget
        exact .inr ⟨n, hn, ho, hoi, hni⟩
  obtain ⟨common, hcommon⟩ : ∃ common,
      (sortOn (fun e => identityKey e.1) (indexOf a)).filterMapM f = some common := by
    refine exists_filterMapM fun e he => ?_
    obtain hskip | ⟨n, hn, ho, hoi, hni⟩ := hcases e he
    · exact ⟨none, hskip⟩
    · obtain ⟨d, hd, -⟩ := hentry ho hn hoi hni
      exact ⟨some d, hd⟩
  have hmem := (filterMapM_spec hcommon).2
  -- What a diff of the list is of.
  have hof : ∀ e ∈ sortOn (fun e => identityKey e.1) (indexOf a), ∀ d, f e = some (some d) →
      d.identity = e.1 ∧ ∃ n ∈ knownObjects b.objects, e.2 ∈ knownObjects a.objects ∧
        e.2.identity = e.1 ∧ n.identity = e.1 ∧ d.classification = classify e.2 n ∧
        (d.classification = .changedStructural → ∃ spec ∈ e.2.kindSpec, d.subDiffs = subDiffs spec e.2 n) := by
    intro e he d hd
    obtain hskip | ⟨n, hn, ho, hoi, hni⟩ := hcases e he
    · rw [hskip] at hd
      cases hd
    · obtain ⟨d', hd', hid, hclass, hsubs⟩ := hentry ho hn hoi hni
      obtain rfl : d' = d := Option.some.inj (Option.some.inj (hd'.symm.trans hd))
      exact ⟨hid, n, hn, ho, hoi, hni, hclass, hsubs⟩
  refine ⟨common, hcommon, ?_, fun i k => ⟨?_, ?_⟩, fun d hd hclass => ?_⟩
  · refine List.Nodup.sublist (sublist_of_filterMapM (fun e he d hd => (hof e he d hd).1) hcommon) ?_
    rw [(sortOn_perm.map Prod.fst).nodup_iff, map_fst_indexOf]
    exact ha.nodup_known
  · rintro ⟨d, hd, rfl, rfl⟩
    obtain ⟨e, he, hfe⟩ := (hmem d).mp hd
    obtain ⟨hid, n, hn, ho, hoi, hni, hclass, -⟩ := hof e he d hfe
    exact ⟨e.2, ho, n, hn, hoi.trans hid.symm, hni.trans hid.symm, hclass.symm⟩
  · rintro ⟨o, ho, n, hn, hoi, hni, rfl⟩
    obtain ⟨d, hd, hid, hclass, -⟩ := hentry ho hn hoi hni
    exact ⟨d, (hmem d).mpr ⟨(i, o), mem_sortOn.mpr (mem_indexOf.mpr ⟨ho, hoi⟩), hd⟩, hclass, hid⟩
  · obtain ⟨e, he, hfe⟩ := (hmem d).mp hd
    obtain ⟨hid, n, hn, ho, hoi, hni, -, hsubs⟩ := hof e he d hfe
    exact ⟨e.2, ho, n, hn, hoi.trans hid.symm, hni.trans hid.symm, hsubs hclass⟩

/-- **Every known identity** of two accepted snapshots is classified once. -/
theorem exists_classes (ha : Delivered sha256 a) (hb : Delivered sha256 b) (hsystem : a.system = b.system) :
    ∃ d, diffSnapshots a b = some d ∧ Classes a b d := by
  obtain ⟨skipped, hold⟩ := exists_index a ha.accepted.nodup []
  obtain ⟨skipped', hnew⟩ := exists_index b hb.accepted.nodup skipped
  obtain ⟨common, hcommon, hnodup, hclass, hsubs⟩ := exists_commonDiffs ha hb
  have hdiff : diffSnapshots a b = some {
      system := a.system
      added := (onlyIn (indexOf b) (indexOf a)).map addedObject
      removed := (onlyIn (indexOf a) (indexOf b)).map removedObject
      changedStructural := common.filter fun d => d.classification = .changedStructural
      changedMetadataOnly := common.filter fun d => d.classification = .changedMetadataOnly
      unchanged := (common.filter fun d => d.classification = .unchanged).map ObjectDiff.identity
      skippedUnknownKinds := skipped'
      sourcePropertiesChanged :=
        !PyJson.pyEq (.obj (a.sourceProperties.getD [])) (.obj (b.sourceProperties.getD [])) } := by
    unfold diffSnapshots
    rw [if_neg (not_not.mpr hsystem)]
    simp only [hold, hnew, hcommon, Option.bind_eq_bind, Option.bind_some, Option.pure_def]
  refine ⟨_, hdiff, ?_⟩
  have hfilter : ∀ k i, i ∈ (common.filter fun d => d.classification = k).map ObjectDiff.identity ↔
      Common a b k i := by
    intro k i
    rw [← hclass, List.mem_map]
    simp only [List.mem_filter, decide_eq_true_eq, and_assoc]
  have hadded : ∀ objects : List SourceObject, (objects.map addedObject).map ObjectDiff.identity =
      objects.map SourceObject.identity := fun objects => by
    rw [List.map_map]
    rfl
  have hremoved : ∀ objects : List SourceObject, (objects.map removedObject).map ObjectDiff.identity =
      objects.map SourceObject.identity := fun objects => by
    rw [List.map_map]
    rfl
  have hboth : ∀ {k i}, Common a b k i → i ∈ knownIdentities a ∧ i ∈ knownIdentities b := by
    rintro k i ⟨o, ho, n, hn, rfl, hni, -⟩
    exact ⟨List.mem_map_of_mem ho, hni ▸ List.mem_map_of_mem hn⟩
  have hkeep : ∀ k, ((common.filter fun d => d.classification = k).map ObjectDiff.identity).Nodup :=
    fun k => hnodup.sublist (List.filter_sublist.map _)
  refine ⟨?_, fun i => ?_, fun i => ?_, hfilter _, hfilter _, hfilter _, fun e he => ?_⟩
  · rw [SnapshotDiff.identities]
    dsimp only
    rw [hadded, hremoved]
    have happend : ∀ {l l' : List Identity}, l.Nodup → l'.Nodup → (∀ i ∈ l, i ∉ l') → (l ++ l').Nodup :=
      fun hl hl' hdisjoint => List.nodup_append.mpr ⟨hl, hl', fun i hi j hj heq =>
        hdisjoint i hi (heq ▸ hj)⟩
    refine happend (nodup_map_onlyIn hb a) (happend (nodup_map_onlyIn ha b) (happend (hkeep _)
      (happend (hkeep _) (hkeep _) fun i hi hi' => ?_) fun i hi hi' => ?_) fun i hi hi' => ?_) fun i hi hi' => ?_
    · have := common_unique ha hb ((hfilter _ i).mp hi) ((hfilter _ i).mp hi')
      cases this
    · rw [List.mem_append, hfilter, hfilter] at hi'
      rw [hfilter] at hi
      obtain h' | h' := hi'
      · cases common_unique ha hb hi h'
      · cases common_unique ha hb hi h'
    · simp only [List.mem_append, hfilter] at hi'
      obtain ⟨-, hnot⟩ := mem_map_onlyIn.mp hi
      obtain h' | h' | h' := hi'
      all_goals exact hnot (hboth h').2
    · simp only [List.mem_append, hfilter, mem_map_onlyIn] at hi'
      obtain ⟨-, hnot⟩ := mem_map_onlyIn.mp hi
      obtain h' | h' | h' | h' := hi'
      · exact hnot h'.1
      all_goals exact hnot (hboth h').1
  · dsimp only
    rw [hadded, mem_map_onlyIn]
  · dsimp only
    rw [hremoved, mem_map_onlyIn]
  · obtain ⟨hmem, hstructural⟩ := List.mem_filter.mp he
    exact hsubs e hmem (of_decide_eq_true hstructural)

theorem Classes.mem_identities {d : SnapshotDiff} (h : Classes a b d) (i : Identity) :
    i ∈ d.identities ↔ i ∈ knownIdentities a ∨ i ∈ knownIdentities b := by
  simp only [SnapshotDiff.identities, List.mem_append, h.added, h.removed, h.structural, h.metadata,
    h.unchanged]
  constructor
  · rintro (hi | hi | hi | hi | hi)
    · exact .inr hi.1
    · exact .inl hi.1
    all_goals
      obtain ⟨o, ho, -, -, rfl, -⟩ := hi
      exact .inl (List.mem_map_of_mem ho)
  · intro hi
    by_cases hia : i ∈ knownIdentities a
    · by_cases hib : i ∈ knownIdentities b
      · obtain ⟨o, ho, hoi⟩ := List.mem_map.mp hia
        obtain ⟨n, hn, hni⟩ := List.mem_map.mp hib
        have hcommon : Common a b (classify o n) i := ⟨o, ho, n, hn, hoi, hni, rfl⟩
        have hclass : classify o n = .changedStructural ∨ classify o n = .changedMetadataOnly ∨
            classify o n = .unchanged := by
          unfold classify
          split
          · exact .inl rfl
          · split
            · exact .inr (.inl rfl)
            · exact .inr (.inr rfl)
        obtain hk | hk | hk := hclass <;> rw [hk] at hcommon
        · exact .inr (.inr (.inl hcommon))
        · exact .inr (.inr (.inr (.inl hcommon)))
        · exact .inr (.inr (.inr (.inr hcommon)))
      · exact .inr (.inl ⟨hia, hib⟩)
    · exact .inl ⟨hi.resolve_left hia, hia⟩

theorem Classes.antisymmetric (ha : Delivered sha256 a) (hb : Delivered sha256 b) {d d' : SnapshotDiff}
    (h : Classes a b d) (h' : Classes b a d') : Antisymmetric d d' where
  added i := (h.added i).trans (h'.removed i).symm
  removed i := (h.removed i).trans (h'.added i).symm
  structural i := (h.structural i).trans (common_comm.trans (h'.structural i).symm)
  metadata i := (h.metadata i).trans (common_comm.trans (h'.metadata i).symm)
  unchanged i := (h.unchanged i).trans (common_comm.trans (h'.unchanged i).symm)
  mirrors := by
    intro e he e' he' hid
    obtain ⟨o, ho, n, hn, hoe, hne, spec, hspec, hsubs⟩ := h.subDiffs e he
    obtain ⟨n', hn', o', ho', hne', hoe', spec', hspec', hsubs'⟩ := h'.subDiffs e' he'
    obtain rfl := eq_of_identity ha ho ho' (hoe.trans (hid.trans hoe'.symm))
    obtain rfl := eq_of_identity hb hn hn' (hne.trans (hid.trans hne'.symm))
    have hkind : o.kind = n.kind := congrArg Prod.fst (hoe.trans hne.symm)
    have hsame : spec = spec' := by
      have hspecs : o.kindSpec = n.kindSpec := by rw [SourceObject.kindSpec, SourceObject.kindSpec, hkind]
      exact Option.some.inj (hspec.symm.trans (hspecs.trans hspec'))
    subst hsame
    rw [hsubs, hsubs']
    exact ⟨mirrors_subDiffs, mirrors_subDiffs⟩

end Classes

/-- **Partition and antisymmetry** of the diffs of two accepted snapshots of one system. -/
theorem partition_antisymmetry {sha256 : List UInt8 → PyStr} {a b : Snapshot} (ha : Delivered sha256 a)
    (hb : Delivered sha256 b) (hsystem : a.system = b.system) :
    ∃ d d' e, diffSnapshots a b = some d ∧ diffSnapshots b a = some d' ∧ diffSnapshots a a = some e ∧
      d.identities.Nodup ∧ (∀ i, i ∈ d.identities ↔ i ∈ knownIdentities a ∨ i ∈ knownIdentities b) ∧
      Antisymmetric d d' ∧ e.isEmpty = true ∧ ∀ i, i ∈ e.unchanged ↔ i ∈ knownIdentities a := by
  obtain ⟨d, hd, hclasses⟩ := exists_classes ha hb hsystem
  obtain ⟨d', hd', hclasses'⟩ := exists_classes hb ha hsystem.symm
  obtain ⟨e, he, hself⟩ := exists_classes ha ha rfl
  refine ⟨d, d', e, hd, hd', he, hclasses.nodup, hclasses.mem_identities,
    hclasses.antisymmetric ha hb hclasses', ?_, fun i => ?_⟩
  · have hclass : ∀ {k i}, Common a a k i → k = .unchanged := by
      rintro k i ⟨o, ho, n, hn, hoi, hni, rfl⟩
      rw [eq_of_identity ha ho hn (hoi.trans hni.symm), classify_self]
    have hnil : ∀ {l : List ObjectDiff}, (∀ i, i ∉ l.map ObjectDiff.identity) → l.isEmpty = true := by
      intro l hl
      cases l with
      | nil => rfl
      | cons x l => exact absurd List.mem_cons_self (hl x.identity)
    simp only [SnapshotDiff.isEmpty, Bool.and_eq_true]
    exact ⟨⟨⟨hnil fun i hi => ((hself.added i).mp hi).2 ((hself.added i).mp hi).1,
      hnil fun i hi => ((hself.removed i).mp hi).2 ((hself.removed i).mp hi).1⟩,
      hnil fun i hi => nomatch hclass ((hself.structural i).mp hi)⟩,
      hnil fun i hi => nomatch hclass ((hself.metadata i).mp hi)⟩
  · rw [hself.unchanged]
    constructor
    · rintro ⟨o, ho, -, -, rfl, -⟩
      exact List.mem_map_of_mem ho
    · intro hi
      obtain ⟨o, ho, rfl⟩ := List.mem_map.mp hi
      exact ⟨o, ho, o, ho, rfl, rfl, classify_self o⟩

/-- An accepted snapshot of one object with bytes. -/
theorem delivered_singleton {sha256 : List UInt8 → PyStr} {o : SourceObject}
    (h : (demoSnapshot [o]).IsAccepted sha256 true) (hencodable : (demoSnapshot [o]).body.isEncodable = true) :
    Delivered sha256 (demoSnapshot [o]) := by
  refine ⟨h, ?_⟩
  rw [canonicalBodyBytes, PyJson.canonicalBytes_isSome, (Snapshot.reordered_ordered _).isEncodable_body]
  exact hencodable

theorem delivered_orders : Delivered ordersDigest (demoSnapshot [ordersWithoutKeys]) ∧
    Delivered ordersDigest (demoSnapshot [ordersById]) :=
  ⟨delivered_singleton accepted_orders.1 (by decide +kernel),
    delivered_singleton accepted_orders.2.1 (by decide +kernel)⟩

theorem system_demoSnapshot (objects : List SourceObject) : (demoSnapshot objects).system = py "demo" := rfl

theorem partition_antisymmetry_primaryAdded : ∃ d d' e,
    diffSnapshots (demoSnapshot [ordersWithoutKeys]) (demoSnapshot [ordersById]) = some d ∧
    diffSnapshots (demoSnapshot [ordersById]) (demoSnapshot [ordersWithoutKeys]) = some d' ∧
    diffSnapshots (demoSnapshot [ordersWithoutKeys]) (demoSnapshot [ordersWithoutKeys]) = some e ∧
      d.identities.Nodup ∧ (∀ i, i ∈ d.identities ↔ i ∈ knownIdentities (demoSnapshot [ordersWithoutKeys]) ∨
        i ∈ knownIdentities (demoSnapshot [ordersById])) ∧ Antisymmetric d d' ∧ e.isEmpty = true ∧
        ∀ i, i ∈ e.unchanged ↔ i ∈ knownIdentities (demoSnapshot [ordersWithoutKeys]) :=
  partition_antisymmetry delivered_orders.1 delivered_orders.2
    ((system_demoSnapshot _).trans (system_demoSnapshot _).symm)

end Diff

end ContextLayer
