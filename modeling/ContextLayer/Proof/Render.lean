import ContextLayer.Render
import ContextLayer.Proof.PyText

/-!
# What a render leaves

The documents of one system are written one after another, and each is what it would be on its own: no body
asks for a sibling after the run has written it. So a render of a system is known path by path.
-/

namespace ContextLayer.Render

open Text StableSort PyText

/-! ### Names of files -/

theorem fileName_append {a m : PyStr} (hm : slash ∉ m) : fileName (a ++ py "/" ++ m) = m := by
  have hslash : py "/" = [slash] := by decide
  have hall : ∀ c ∈ m.reverse, decide (c ≠ slash) = true := fun c hc =>
    decide_eq_true fun heq => hm (heq ▸ List.mem_reverse.mp hc)
  rw [fileName, hslash, List.reverse_append, List.reverse_append, List.takeWhile_append_of_pos hall]
  simp

theorem dot_notMem_mangleChar (p : CodePoint) :
    CodePoint.unit 0x2E ∉ Naming.mangleChar p ∧ slash ∉ Naming.mangleChar p := by
  cases p with
  | pair =>
      rw [Naming.mangleChar]
      decide
  | unit u =>
      rw [Naming.mangleChar]
      split
      case isTrue h =>
        simp only [List.mem_singleton, CodePoint.unit.injEq, slash]
        constructor <;>
          · intro heq
            have := congrArg UInt16.toNat heq
            have h1 := UInt16.le_iff_toNat_le.mp h.1
            have h2 := UInt16.le_iff_toNat_le.mp h.2
            simp only [UInt16.toNat_add, UInt16.reduceToNat] at this h1 h2
            omega
      case isFalse =>
        split
        case isTrue h =>
          simp only [List.mem_singleton, CodePoint.unit.injEq, slash]
          constructor <;>
            · rintro rfl
              revert h
              decide
        case isFalse => split <;> [decide; (split <;> decide)]

theorem dot_notMem_mangle (name : PyStr) : CodePoint.unit 0x2E ∉ Naming.mangle name := fun h => by
  obtain ⟨p, -, hp⟩ := List.mem_flatMap.mp h
  exact (dot_notMem_mangleChar p).1 hp

theorem slash_notMem_mangle (name : PyStr) : slash ∉ Naming.mangle name := fun h => by
  obtain ⟨p, -, hp⟩ := List.mem_flatMap.mp h
  exact (dot_notMem_mangleChar p).2 hp

theorem fileName_objectPath (system : PyStr) (o : SourceObject) {suffix : String}
    (h : slash ∉ py suffix) : fileName (objectPath system o suffix) = Naming.mangle o.name ++ py suffix := by
  rw [objectPath, List.append_assoc _ (Naming.mangle o.name)]
  refine fileName_append ?_
  rw [List.mem_append, not_or]
  exact ⟨slash_notMem_mangle o.name, h⟩

/-- A human document is taken for a machine document exactly when it is called `index`. -/
theorem isMachineFile_objectPath (system : PyStr) (o : SourceObject) :
    isMachineFile (objectPath system o ".md") = true ↔ Naming.mangle o.name = py "index" := by
  have hindex : py "index.md" = py "index" ++ py ".md" := by decide
  have hschema : py ".schema.md" = py ".schema" ++ py ".md" := by decide
  rw [isMachineFile, fileName_objectPath system o (by decide), Bool.or_eq_true, decide_eq_true_eq,
    decide_eq_true_eq, hindex, hschema, List.append_left_inj, List.suffix_append_self_iff]
  refine or_iff_left fun hsuffix => dot_notMem_mangle o.name (hsuffix.subset ?_)
  decide

theorem isMachineFile_append {a m : PyStr} (hm : slash ∉ m) :
    isMachineFile (a ++ py "/" ++ m) = (decide (m = py "index.md") || decide (py ".schema.md" <:+ m)) := by
  rw [isMachineFile, fileName_append hm]

/-! ### The plan -/

section

variable {s : Snapshot}

def docsOf (s : Snapshot) : List (PyStr × DocEntry) := objectDocs s ++ [(systemIndexPath s.system, .systemIndex)]

theorem expectedDocs_eq_some {plan : List (PyStr × DocEntry)} :
    expectedDocs s = some plan ↔ plan = docsOf s ∧ ((docsOf s).map Prod.fst).Nodup := by
  unfold expectedDocs
  dsimp only
  by_cases hnodup : ((docsOf s).map Prod.fst).Nodup
  · rw [if_pos (show ((objectDocs s ++ _).map Prod.fst).Nodup from hnodup), Option.some_inj]
    exact ⟨fun h => ⟨h.symm, hnodup⟩, fun h => h.1.symm⟩
  · rw [if_neg (show ¬ ((objectDocs s ++ _).map Prod.fst).Nodup from hnodup)]
    exact ⟨nofun, fun h => absurd h.2 hnodup⟩

theorem mem_known {o : SourceObject} : o ∈ known s ↔ o ∈ (ordered s).objects ∧ o.kind ∈ family s.systemClass := by
  rw [known, List.mem_filter, decide_eq_true_eq]

theorem mem_membersOf {key : SourceObject → PyStr} {k : PyStr} {o : SourceObject} :
    o ∈ membersOf s key k ↔ o ∈ known s ∧ key o = k := by
  rw [membersOf, List.mem_filter, decide_eq_true_eq]

theorem mem_keysOf {key : SourceObject → PyStr} {k : PyStr} : k ∈ keysOf s key ↔ ∃ o ∈ known s, key o = k := by
  rw [keysOf, mem_sortOn, List.mem_dedup, List.mem_map]

/-- A document of a plan. -/
theorem mem_docsOf {doc : PyStr × DocEntry} : doc ∈ docsOf s ↔
    (s.systemClass = .sql ∧ ∃ o ∈ known s, doc = (objectPath s.system o ".schema.md", .object o)) ∨
      (s.systemClass = .sql ∧ ∃ schema ∈ keysOf s SourceObject.schema,
        doc = (schemaIndexPath s.system schema, .schemaIndex schema (membersOf s SourceObject.schema schema))) ∨
      (s.systemClass = .api ∧ ∃ group ∈ keysOf s groupOf,
        doc = (groupPath s.system group ".schema.md", .group group (membersOf s groupOf group))) ∨
      doc = (systemIndexPath s.system, .systemIndex) := by
  rw [docsOf, List.mem_append, List.mem_singleton, objectDocs]
  cases s.systemClass with
  | sql =>
      simp only [List.mem_append, List.mem_map, true_and, reduceCtorEq, false_and, false_or, eq_comm (a := doc)]
      exact or_assoc
  | api =>
      simp only [List.mem_map, true_and, reduceCtorEq, false_and, false_or, eq_comm (a := doc)]

theorem groupOf_mem {o : SourceObject} (h : o.kind ∈ family .api) :
    groupOf o ∈ [py "dimensions", py "metrics", py "events"] := by
  have hall : ∀ kind ∈ family .api,
      (Dict.get? kindGroups kind).getD [] ∈ [py "dimensions", py "metrics", py "events"] := by decide
  exact hall _ h

theorem isMachineFile_of_mem {doc : PyStr × DocEntry} (h : doc ∈ docsOf s) :
    isMachineFile doc.1 = true ∧ systemDir s.system ++ py "/" <+: doc.1 := by
  have hindex : py "/index.md" = py "/" ++ py "index.md" := by decide
  obtain ⟨-, o, -, rfl⟩ | ⟨-, schema, -, rfl⟩ | ⟨hclass, group, hgroup, rfl⟩ | rfl := mem_docsOf.mp h
  · refine ⟨?_, ?_⟩
    · rw [isMachineFile, fileName_objectPath s.system o (by decide), Bool.or_eq_true, decide_eq_true_eq,
        decide_eq_true_eq]
      exact .inr (List.suffix_append _ _)
    · exact ⟨Naming.mangle o.schema ++ (py "/" ++ (Naming.mangle o.name ++ py ".schema.md")), by
        simp only [objectPath, schemaDir, List.append_assoc]⟩
  · refine ⟨?_, ?_⟩
    · rw [schemaIndexPath, hindex, ← List.append_assoc, isMachineFile_append (by decide)]
      decide
    · exact ⟨Naming.mangle schema ++ py "/index.md", by
        simp only [schemaIndexPath, schemaDir, List.append_assoc]⟩
  · refine ⟨?_, ?_⟩
    · obtain ⟨o, ho, rfl⟩ := mem_keysOf.mp hgroup
      have hgroups := groupOf_mem (hclass ▸ (mem_known.mp ho).2)
      have hall : ∀ group ∈ [py "dimensions", py "metrics", py "events"],
          slash ∉ group ++ py ".schema.md" := by decide
      rw [groupPath, List.append_assoc, isMachineFile_append (hall _ hgroups), Bool.or_eq_true,
        decide_eq_true_eq, decide_eq_true_eq]
      exact .inr (List.suffix_append _ _)
    · rw [groupPath, List.append_assoc]
      exact List.prefix_append _ _
  · refine ⟨?_, ?_⟩
    · rw [systemIndexPath, hindex, ← List.append_assoc, isMachineFile_append (by decide)]
      decide
    · rw [systemIndexPath, hindex, ← List.append_assoc]
      exact List.prefix_append _ _

/-- Of the siblings only that of an object called `index` is a machine document. -/
theorem sibling_cases {doc : PyStr × DocEntry} (h : doc ∈ docsOf s) {path : PyStr}
    (hpath : path ∈ siblings s doc.2) (hmachine : isMachineFile path = true) :
    s.systemClass = .sql ∧ ∃ o ∈ known s, Naming.mangle o.name = py "index" ∧
      path = objectPath s.system o ".md" := by
  have hobject : ∀ o : SourceObject, path = objectPath s.system o ".md" →
      Naming.mangle o.name = py "index" := by
    rintro o rfl
    exact (isMachineFile_objectPath s.system o).mp hmachine
  have hgroup : ∀ group ∈ keysOf s groupOf, s.systemClass = .api →
      path ≠ groupPath s.system group ".md" := by
    rintro group hgroup hclass rfl
    obtain ⟨o, ho, rfl⟩ := mem_keysOf.mp hgroup
    have hgroups := groupOf_mem (hclass ▸ (mem_known.mp ho).2)
    have hall : ∀ group ∈ [py "dimensions", py "metrics", py "events"], slash ∉ group ++ py ".md" ∧
        (decide (group ++ py ".md" = py "index.md") ||
          decide (py ".schema.md" <:+ group ++ py ".md")) = false := by decide
    rw [groupPath, List.append_assoc, isMachineFile_append (hall _ hgroups).1, (hall _ hgroups).2] at hmachine
    cases hmachine
  have hnotes : py "/_notes.md" = py "/" ++ py "_notes.md" := by decide
  have hnotMachine : ∀ dir : PyStr, path ≠ dir ++ py "/_notes.md" := by
    rintro dir rfl
    rw [hnotes, ← List.append_assoc, isMachineFile_append (by decide)] at hmachine
    revert hmachine
    decide
  obtain ⟨hclass, o, ho, rfl⟩ | ⟨hclass, schema, -, rfl⟩ | ⟨hclass, group, hmem, rfl⟩ | rfl := mem_docsOf.mp h
  · obtain rfl := List.mem_singleton.mp hpath
    exact ⟨hclass, o, ho, hobject o rfl, rfl⟩
  · obtain ⟨o, ho, rfl⟩ := List.mem_map.mp hpath
    exact ⟨hclass, o, (mem_membersOf.mp ho).1, hobject o rfl, rfl⟩
  · exact absurd (List.mem_singleton.mp hpath) (hgroup group hmem hclass)
  · rw [siblings, List.mem_cons] at hpath
    obtain heq | hpath := hpath
    · exact absurd heq (hnotMachine _)
    · cases hclass : s.systemClass with
      | sql =>
          rw [hclass] at hpath
          obtain hpath | hpath := List.mem_append.mp hpath
          · obtain ⟨o, ho, rfl⟩ := List.mem_map.mp hpath
            exact ⟨rfl, o, ho, hobject o rfl, rfl⟩
          · obtain ⟨schema, -, heq⟩ := List.mem_map.mp hpath
            exact absurd heq.symm (hnotMachine _)
      | api =>
          rw [hclass] at hpath
          obtain ⟨group, hmem, heq⟩ := List.mem_map.mp hpath
          exact absurd heq.symm (hgroup group hmem hclass)

theorem objectPath_index {system : PyStr} {o : SourceObject} (h : Naming.mangle o.name = py "index") :
    objectPath system o ".md" = schemaIndexPath system o.schema := by
  have hindex : py "/index.md" = py "/" ++ (py "index" ++ py ".md") := by decide
  rw [objectPath, schemaIndexPath, h, hindex, List.append_assoc, List.append_assoc]

theorem eq_of_path {doc doc' : PyStr × DocEntry} (hnodup : ((docsOf s).map Prod.fst).Nodup)
    (hdoc : doc ∈ docsOf s) (hdoc' : doc' ∈ docsOf s) (h : doc.1 = doc'.1) : doc = doc' :=
  List.inj_on_of_nodup_map hnodup hdoc hdoc' h

/-- A machine document that some body asks for is asked for by its own body. -/
theorem mem_siblings_self {doc doc' : PyStr × DocEntry} (hnodup : ((docsOf s).map Prod.fst).Nodup)
    (hdoc : doc ∈ docsOf s) (hdoc' : doc' ∈ docsOf s) (h : doc'.1 ∈ siblings s doc.2) :
    doc'.1 ∈ siblings s doc'.2 := by
  obtain ⟨hclass, o, ho, hindex, hpath⟩ := sibling_cases hdoc h (isMachineFile_of_mem hdoc').1
  have hmem : (schemaIndexPath s.system o.schema,
      DocEntry.schemaIndex o.schema (membersOf s SourceObject.schema o.schema)) ∈ docsOf s :=
    mem_docsOf.mpr (.inr (.inl ⟨hclass, o.schema, mem_keysOf.mpr ⟨o, ho, rfl⟩, rfl⟩))
  obtain rfl := eq_of_path hnodup hdoc' hmem (hpath.trans (objectPath_index hindex))
  exact List.mem_map.mpr ⟨o, mem_membersOf.mpr ⟨ho, rfl⟩, objectPath_index hindex⟩

/-! ### Bodies ask for siblings only -/

theorem schemaIndexBody_congr {system schema : PyStr} {info info' : SourceObject → Info} {mode : Mode}
    {members : List SourceObject} (h : ∀ o ∈ members, info o = info' o) :
    schemaIndexBody system schema info mode members = schemaIndexBody system schema info' mode members := by
  have hcount : (members.countP fun o => (info o).exists?) = members.countP fun o => (info' o).exists? :=
    List.countP_congr fun o ho => by rw [h o ho]
  have hrows : members.flatMap (schemaIndexRow info mode) = members.flatMap (schemaIndexRow info' mode) :=
    List.flatMap_congr fun o ho => by rw [schemaIndexRow, schemaIndexRow, h o ho]
  rw [schemaIndexBody, schemaIndexBody, hcount, hrows]

theorem bodyFor_congr {unicode : Unicode} {doc : PyStr × DocEntry} (hdoc : doc ∈ docsOf s)
    {info info' : PyStr → Info} (h : ∀ path ∈ siblings s doc.2, info path = info' path) (mode : Mode) :
    bodyFor unicode s info mode doc.2 = bodyFor unicode s info' mode doc.2 := by
  obtain ⟨-, o, -, rfl⟩ | ⟨-, schema, -, rfl⟩ | ⟨-, group, -, rfl⟩ | rfl := mem_docsOf.mp hdoc
  · rw [bodyFor, bodyFor, h _ (List.mem_singleton.mpr rfl)]
  · rw [bodyFor, bodyFor, schemaIndexBody_congr fun o ho => h _ (List.mem_map_of_mem ho)]
  · rw [bodyFor, bodyFor, h _ (List.mem_singleton.mpr rfl)]
  · have hnotes := h (systemNotesPath s) List.mem_cons_self
    rw [siblings] at h
    rw [bodyFor, bodyFor, hnotes]
    cases hclass : s.systemClass with
    | sql =>
        rw [hclass] at h
        refine congrArg (fun rows => some (sqlIndexBody s _ _ rows mode)) (List.map_congr_left fun schema hs => ?_)
        have hcount : ((membersOf s SourceObject.schema schema).countP fun o =>
            (info (objectPath s.system o ".md")).exists?) =
              (membersOf s SourceObject.schema schema).countP fun o =>
                (info' (objectPath s.system o ".md")).exists? :=
          List.countP_congr fun o ho => by
            rw [h _ (List.mem_cons_of_mem _ (List.mem_append_left _
              (List.mem_map_of_mem (mem_membersOf.mp ho).1)))]
        dsimp only
        rw [hcount, h _ (List.mem_cons_of_mem _ (List.mem_append_right _ (List.mem_map_of_mem hs)))]
    | api =>
        rw [hclass] at h
        refine congrArg (fun rows => some (apiIndexBody s _ _ rows mode)) (List.map_congr_left fun group hg => ?_)
        dsimp only
        rw [h _ (List.mem_cons_of_mem _ (List.mem_map_of_mem hg))]

end

/-! ### The run over a plan -/

section

variable {unicode : Unicode} {yaml : Yaml} {s : Snapshot} {files : Files}

/-- What is left at the path of a document. -/
def docBytes (unicode : Unicode) (yaml : Yaml) (s : Snapshot) (files : Files)
    (doc : PyStr × DocEntry) : Option (List UInt8) :=
  if ∀ path ∈ siblings s doc.2, unreadable yaml files path = false then
    writeMachine unicode yaml (headFor unicode s doc.2)
      (fun mode => bodyFor unicode s (humanInfo yaml files) mode doc.2) (s.capturedAt.take 10) (files doc.1)
  else none

theorem readable_of_docBytes {doc : PyStr × DocEntry} {bytes : List UInt8}
    (h : docBytes unicode yaml s files doc = some bytes) :
    ∀ path ∈ siblings s doc.2, unreadable yaml files path = false := by
  by_contra hnot
  rw [docBytes, if_neg hnot] at h
  cases h

theorem writeMachine_of_docBytes {doc : PyStr × DocEntry} {bytes : List UInt8}
    (h : docBytes unicode yaml s files doc = some bytes) :
    writeMachine unicode yaml (headFor unicode s doc.2)
      (fun mode => bodyFor unicode s (humanInfo yaml files) mode doc.2) (s.capturedAt.take 10) (files doc.1) =
        some bytes := by
  rwa [docBytes, if_pos (readable_of_docBytes h)] at h

/-- Some documents are written, all their siblings are in the cache, and nothing else has changed. -/
structure RunInv (yaml : Yaml) (unicode : Unicode) (s : Snapshot) (files : Files)
    (done : List (PyStr × DocEntry)) (st : RunState) : Prop where
  written : ∀ doc ∈ done, st.files doc.1 = docBytes unicode yaml s files doc
  others : ∀ path ∉ done.map Prod.fst, st.files path = files path
  cached : ∀ path info, Dict.get? st.cache path = some info →
    info = humanInfo yaml files path ∧ unreadable yaml files path = false
  asked : ∀ doc ∈ done, ∀ path ∈ siblings s doc.2, (Dict.get? st.cache path).isSome

theorem get?_read (st : RunState) (paths : List PyStr) (path : PyStr) :
    Dict.get? (st.read yaml paths).cache path =
      (Dict.get? st.cache path).or (if path ∈ paths then some (humanInfo yaml st.files path) else none) := by
  unfold RunState.read
  dsimp only
  generalize st.cache = cache
  induction paths generalizing cache with
  | nil => rw [if_neg List.not_mem_nil, Option.or_none, List.foldl_nil]
  | cons p paths ih =>
      rw [List.foldl_cons, ih, Dict.get?_setDefault, Option.or_assoc, Dict.get?_cons, Dict.get?_nil]
      by_cases hp : p = path
      · rw [if_pos hp, Option.some_or, if_pos (hp ▸ List.mem_cons_self), hp]
      · rw [if_neg hp, Option.none_or]
        refine congrArg _ (if_congr ?_ rfl rfl)
        rw [List.mem_cons, or_iff_right (Ne.symm hp)]

/-- A sibling that is not in the cache has not been written. -/
theorem RunInv.files_eq {done : List (PyStr × DocEntry)} {st : RunState}
    (hnodup : ((docsOf s).map Prod.fst).Nodup) (hinv : RunInv yaml unicode s files done st)
    (hdone : ∀ doc ∈ done, doc ∈ docsOf s) {doc : PyStr × DocEntry} (hdoc : doc ∈ docsOf s)
    {path : PyStr} (hpath : path ∈ siblings s doc.2) (hcache : Dict.get? st.cache path = none) :
    st.files path = files path := by
  refine hinv.others path fun hmem => ?_
  obtain ⟨doc', hdoc', rfl⟩ := List.mem_map.mp hmem
  have hself := mem_siblings_self hnodup hdoc (hdone doc' hdoc') hpath
  have hsome := hinv.asked doc' hdoc' doc'.1 hself
  rw [hcache] at hsome
  cases hsome

/-- A sibling is read as it was before the run. -/
theorem RunInv.info_read {done : List (PyStr × DocEntry)} {st : RunState}
    (hnodup : ((docsOf s).map Prod.fst).Nodup) (hinv : RunInv yaml unicode s files done st)
    (hdone : ∀ doc ∈ done, doc ∈ docsOf s) {doc : PyStr × DocEntry} (hdoc : doc ∈ docsOf s)
    {path : PyStr} (hpath : path ∈ siblings s doc.2) :
    Dict.get? (st.read yaml (siblings s doc.2)).cache path = some (humanInfo yaml files path) := by
  rw [get?_read, if_pos hpath]
  cases hcache : Dict.get? st.cache path with
  | some info => rw [Option.some_or, (hinv.cached path info hcache).1]
  | none =>
      rw [Option.none_or, humanInfo, humanInfo, hinv.files_eq hnodup hdone hdoc hpath hcache]

/-- And it can be read as it could be before the run. -/
theorem RunInv.readable_iff {done : List (PyStr × DocEntry)} {st : RunState}
    (hnodup : ((docsOf s).map Prod.fst).Nodup) (hinv : RunInv yaml unicode s files done st)
    (hdone : ∀ doc ∈ done, doc ∈ docsOf s) {doc : PyStr × DocEntry} (hdoc : doc ∈ docsOf s)
    {path : PyStr} (hpath : path ∈ siblings s doc.2) :
    (Dict.get? st.cache path).isSome ∨ unreadable yaml st.files path = false ↔
      unreadable yaml files path = false := by
  cases hcache : Dict.get? st.cache path with
  | some info => exact iff_of_true (.inl rfl) (hinv.cached path info hcache).2
  | none =>
      rw [unreadable, unreadable, hinv.files_eq hnodup hdone hdoc hpath hcache]
      exact or_iff_right nofun

theorem RunInv.renderDoc_eq {done : List (PyStr × DocEntry)} {st : RunState}
    (hnodup : ((docsOf s).map Prod.fst).Nodup) (hinv : RunInv yaml unicode s files done st)
    (hdone : ∀ doc ∈ done, doc ∈ docsOf s) {doc : PyStr × DocEntry} (hdoc : doc ∈ docsOf s)
    (hnew : doc.1 ∉ done.map Prod.fst) :
    renderDoc unicode yaml s st doc = (docBytes unicode yaml s files doc).map fun bytes =>
      ⟨Function.update st.files doc.1 (some bytes), (st.read yaml (siblings s doc.2)).cache⟩ := by
  have hinfo : ∀ path ∈ siblings s doc.2,
      (st.read yaml (siblings s doc.2)).info path = humanInfo yaml files path := by
    intro path hpath
    rw [RunState.info, hinv.info_read hnodup hdone hdoc hpath]
    rfl
  have hbody : (fun mode => bodyFor unicode s (st.read yaml (siblings s doc.2)).info mode doc.2) =
      fun mode => bodyFor unicode s (humanInfo yaml files) mode doc.2 :=
    funext fun mode => bodyFor_congr hdoc hinfo mode
  have hfile : (st.read yaml (siblings s doc.2)).files doc.1 = files doc.1 := hinv.others doc.1 hnew
  rw [renderDoc, docBytes]
  by_cases hreadable : ∀ path ∈ siblings s doc.2, unreadable yaml files path = false
  · rw [if_pos fun path hpath => (hinv.readable_iff hnodup hdone hdoc hpath).mpr (hreadable path hpath),
      if_pos hreadable]
    dsimp only
    rw [hbody, hfile]
    cases writeMachine unicode yaml (headFor unicode s doc.2)
      (fun mode => bodyFor unicode s (humanInfo yaml files) mode doc.2) (s.capturedAt.take 10) (files doc.1) <;>
      rfl
  · rw [if_neg fun h => hreadable fun path hpath => (hinv.readable_iff hnodup hdone hdoc hpath).mp (h path hpath),
      if_neg hreadable]
    rfl

theorem RunInv.next {done : List (PyStr × DocEntry)} {st : RunState}
    (hnodup : ((docsOf s).map Prod.fst).Nodup) (hinv : RunInv yaml unicode s files done st)
    (hdone : ∀ doc ∈ done, doc ∈ docsOf s) {doc : PyStr × DocEntry} (hdoc : doc ∈ docsOf s)
    (hnew : doc.1 ∉ done.map Prod.fst) {bytes : List UInt8}
    (hbytes : docBytes unicode yaml s files doc = some bytes)
    (hreadable : ∀ path ∈ siblings s doc.2, unreadable yaml files path = false) :
    RunInv yaml unicode s files (done ++ [doc])
      ⟨Function.update st.files doc.1 (some bytes), (st.read yaml (siblings s doc.2)).cache⟩ where
  written := by
    intro d hd
    obtain hd | hd := List.mem_append.mp hd
    · have hne : d.1 ≠ doc.1 := fun heq => hnew (heq ▸ List.mem_map_of_mem hd)
      exact (Function.update_of_ne hne _ _).trans (hinv.written d hd)
    · obtain rfl := List.mem_singleton.mp hd
      exact (Function.update_self _ _ _).trans hbytes.symm
  others := by
    intro path hpath
    rw [List.map_append, List.mem_append, not_or, List.map_singleton, List.mem_singleton] at hpath
    exact (Function.update_of_ne hpath.2 _ _).trans (hinv.others path hpath.1)
  cached := by
    intro path info hinfo
    by_cases hpath : path ∈ siblings s doc.2
    · rw [hinv.info_read hnodup hdone hdoc hpath] at hinfo
      exact ⟨(Option.some.inj hinfo).symm, hreadable path hpath⟩
    · rw [get?_read, if_neg hpath, Option.or_none] at hinfo
      exact hinv.cached path info hinfo
  asked := by
    intro d hd path hpath
    obtain hd | hd := List.mem_append.mp hd
    · rw [get?_read, Option.isSome_or, hinv.asked d hd path hpath, Bool.true_or]
    · obtain rfl := List.mem_singleton.mp hd
      rw [hinv.info_read hnodup hdone hdoc hpath]
      rfl

/-- The run goes through exactly where every document can be written. -/
theorem RunInv.run {docs done : List (PyStr × DocEntry)} {st : RunState}
    (hnodup : ((docsOf s).map Prod.fst).Nodup) (hinv : RunInv yaml unicode s files done st)
    (hdone : ∀ doc ∈ done ++ docs, doc ∈ docsOf s) (hpaths : ((done ++ docs).map Prod.fst).Nodup) :
    (∀ st', docs.foldlM (renderDoc unicode yaml s) st = some st' →
        RunInv yaml unicode s files (done ++ docs) st' ∧
          ∀ doc ∈ docs, (docBytes unicode yaml s files doc).isSome) ∧
      ((∀ doc ∈ docs, (docBytes unicode yaml s files doc).isSome) →
        (docs.foldlM (renderDoc unicode yaml s) st).isSome) := by
  induction docs generalizing done st with
  | nil =>
      refine ⟨fun st' h => ?_, fun _ => rfl⟩
      obtain rfl := Option.some.inj h
      rw [List.append_nil]
      exact ⟨hinv, nofun⟩
  | cons doc docs ih =>
      have hdoc := hdone doc (List.mem_append_right _ List.mem_cons_self)
      have hdone' : ∀ d ∈ done, d ∈ docsOf s := fun d hd => hdone d (List.mem_append_left _ hd)
      have hnew : doc.1 ∉ done.map Prod.fst := by
        rw [List.map_append, List.nodup_append] at hpaths
        exact fun hmem => hpaths.2.2 _ hmem _ List.mem_cons_self rfl
      have hassoc : done ++ doc :: docs = done ++ [doc] ++ docs := by rw [List.append_assoc]; rfl
      rw [hassoc] at hdone hpaths ⊢
      rw [List.foldlM_cons, hinv.renderDoc_eq hnodup hdone' hdoc hnew]
      cases hbytes : docBytes unicode yaml s files doc with
      | none =>
          refine ⟨nofun, fun hall => ?_⟩
          have := hall doc List.mem_cons_self
          rw [hbytes] at this
          cases this
      | some bytes =>
          obtain ⟨hrun, hexists⟩ := ih (hinv.next hnodup hdone' hdoc hnew hbytes (readable_of_docBytes hbytes)) hdone hpaths
          refine ⟨fun st' h => ?_, fun hall => hexists fun d hd => hall d (List.mem_cons_of_mem _ hd)⟩
          obtain ⟨hinv', hall⟩ := hrun st' h
          refine ⟨hinv', fun d hd => ?_⟩
          obtain rfl | hd := List.mem_cons.mp hd
          · rw [hbytes]
            rfl
          · exact hall d hd

/-- The files behind the render of a system. -/
structure Rendered (unicode : Unicode) (yaml : Yaml) (s : Snapshot)
    (files files' : Files) : Prop where
  nodup : ((docsOf s).map Prod.fst).Nodup
  isSome : ∀ doc ∈ docsOf s, (docBytes unicode yaml s files doc).isSome
  written : ∀ doc ∈ docsOf s, files' doc.1 = docBytes unicode yaml s files doc
  others : ∀ path ∉ (docsOf s).map Prod.fst, files' path =
    if systemDir s.system ++ py "/" <+: path ∧ isMachineFile path = true then none else files path

/-- **A render of a system, path by path.** -/
theorem renderSystem_iff {files' : Files} :
    renderSystem unicode yaml files s = some files' ↔ Rendered unicode yaml s files files' := by
  have hperm : ∀ doc, doc ∈ sortOn Prod.fst (docsOf s) ↔ doc ∈ docsOf s := fun doc => mem_sortOn
  have hrun := fun (hnodup : ((docsOf s).map Prod.fst).Nodup) =>
    RunInv.run hnodup (show RunInv yaml unicode s files [] ⟨files, []⟩ from ⟨nofun, fun _ _ => rfl, nofun, nofun⟩)
      (show ∀ doc ∈ [] ++ sortOn Prod.fst (docsOf s), doc ∈ docsOf s from fun doc hdoc => (hperm doc).mp hdoc)
      ((sortOn_perm.map _).nodup_iff.mpr hnodup)
  -- What is pruned is what is neither written nor kept.
  have hprune : ∀ {st : RunState}, RunInv yaml unicode s files (sortOn Prod.fst (docsOf s)) st →
      (∀ doc ∈ docsOf s, prune s.system ((docsOf s).map Prod.fst) st.files doc.1 =
        docBytes unicode yaml s files doc) ∧
      ∀ path ∉ (docsOf s).map Prod.fst, prune s.system ((docsOf s).map Prod.fst) st.files path =
        if systemDir s.system ++ py "/" <+: path ∧ isMachineFile path = true then none else files path := by
    intro st hinv
    constructor
    · intro doc hdoc
      rw [prune, if_neg fun h => h.2.2 (List.mem_map_of_mem hdoc)]
      exact hinv.written doc ((hperm doc).mpr hdoc)
    · intro path hpath
      have hnotDone : path ∉ (sortOn Prod.fst (docsOf s)).map Prod.fst := fun hmem =>
        hpath ((sortOn_perm.map _).mem_iff.mp hmem)
      rw [prune, hinv.others path hnotDone]
      refine if_congr ?_ rfl rfl
      rw [and_iff_left hpath]
  constructor
  · intro h
    obtain ⟨plan, hplan, h⟩ := Option.bind_eq_some_iff.mp h
    obtain ⟨st, hst, h⟩ := Option.bind_eq_some_iff.mp h
    obtain rfl := Option.some.inj h
    obtain ⟨rfl, hnodup⟩ := expectedDocs_eq_some.mp hplan
    obtain ⟨hinv, hsome⟩ := (hrun hnodup).1 st hst
    exact ⟨hnodup, fun doc hdoc => hsome doc ((hperm doc).mpr hdoc), (hprune hinv).1, (hprune hinv).2⟩
  · intro h
    obtain ⟨st, hst⟩ := Option.isSome_iff_exists.mp
      ((hrun h.nodup).2 fun doc hdoc => h.isSome doc ((hperm doc).mp hdoc))
    obtain ⟨hwritten, hothers⟩ := hprune ((hrun h.nodup).1 st hst).1
    have heq : prune s.system ((docsOf s).map Prod.fst) st.files = files' := by
      funext path
      by_cases hpath : path ∈ (docsOf s).map Prod.fst
      · obtain ⟨doc, hdoc, rfl⟩ := List.mem_map.mp hpath
        rw [hwritten doc hdoc, h.written doc hdoc]
      · rw [hothers path hpath, h.others path hpath]
    rw [renderSystem, expectedDocs_eq_some.mpr ⟨rfl, h.nodup⟩]
    dsimp only [bind, Option.bind]
    rw [hst]
    exact congrArg some heq

end

/-! ### Heads -/

section

variable {unicode : Unicode} {s s' : Snapshot}

theorem mangle_append (a b : PyStr) : Naming.mangle (a ++ b) = Naming.mangle a ++ Naming.mangle b :=
  List.flatMap_append

/-- Systems that share a directory share no name of an object. -/
theorem fqn_ne {system system' : PyStr} (hmangle : Naming.mangle system = Naming.mangle system')
    (hne : system ≠ system') (schema name schema' name' : PyStr) :
    Naming.fqn system schema name ≠ Naming.fqn system' schema' name' := by
  -- One of the systems would go on with a dot, and so would its directory.
  have hlonger : ∀ a b : PyStr, Naming.mangle a ≠ Naming.mangle (a ++ py "." ++ b) := by
    intro a b heq
    have hlength := congrArg List.length heq
    have hdot : (Naming.mangle (py ".")).length = 1 := by decide
    rw [mangle_append, mangle_append, List.length_append, List.length_append, hdot] at hlength
    omega
  have hdotted : ∀ {a b x y : PyStr}, a ++ py "." ++ x = b ++ py "." ++ y → a ≠ b →
      (∃ c, b = a ++ py "." ++ c) ∨ ∃ c, a = b ++ py "." ++ c := by
    intro a b x y h hab
    have hdot : py "." = [.unit 0x2E] := by decide
    rw [hdot, List.append_assoc, List.append_assoc, List.singleton_append, List.singleton_append] at h
    obtain ⟨c, rfl, hc⟩ | ⟨c, rfl, hc⟩ := List.append_eq_append_iff.mp h
    · cases c with
      | nil => exact absurd (List.append_nil a).symm hab
      | cons p c =>
          obtain ⟨rfl, -⟩ := List.cons.inj hc
          exact .inl ⟨c, by rw [hdot, List.append_assoc, List.singleton_append]⟩
    · cases c with
      | nil => exact absurd (List.append_nil b) hab
      | cons p c =>
          obtain ⟨rfl, -⟩ := List.cons.inj hc
          exact .inr ⟨c, by rw [hdot, List.append_assoc, List.singleton_append]⟩
  intro heq
  rw [Naming.fqn, Naming.fqn, List.append_assoc _ schema, List.append_assoc _ schema',
    List.append_assoc _ (schema ++ _), List.append_assoc _ (schema' ++ _)] at heq
  obtain ⟨c, rfl⟩ | ⟨c, rfl⟩ := hdotted heq hne
  · exact hlonger _ _ hmangle
  · exact hlonger _ _ hmangle.symm

/-- A document's head up to what it is about. -/
def objectOpening : PyStr := py "---\ndoc_class: machine-object\nobject: "

def indexOpening : PyStr := py "---\ndoc_class: machine-index\nsystem: "

def groupOpening : PyStr := py "---\ndoc_class: machine-group\nobjects:\n  - \x7b object: "

theorem newline_eq : py "\n" = [newline] := by decide

theorem scalar_of_isPlain {value : PyStr} (h : Frontmatter.isPlain value = true) :
    Frontmatter.scalar unicode value = value := by
  rw [Frontmatter.scalar, if_pos]
  rw [h, Bool.or_true]

/-- The provenance from the date on, without its name. -/
def provenance (unicode : Unicode) (s : Snapshot) : PyStr :=
  py "source_mode: " ++ SourceMode.text s.sourceMode ++ py "\nsnapshot_version: " ++
    Frontmatter.scalar unicode (py "1") ++ py "\nstatus: machine\n---\n\n"

/-- The lines ahead of the date. -/
def headLines (unicode : Unicode) (s : Snapshot) (entry : DocEntry) : PyStr :=
  Frontmatter.fence ++ (identityFields s entry).flatMap (Frontmatter.fieldLines unicode) ++ py "generated_at: "

theorem headFor_eq (entry : DocEntry) (date : PyStr) : headFor unicode s entry date =
    headLines unicode s entry ++ (Frontmatter.scalar unicode date ++ newline :: provenance unicode s) := by
  have hmode : Frontmatter.scalar unicode (SourceMode.text s.sourceMode) = SourceMode.text s.sourceMode :=
    scalar_of_isPlain (by cases s.sourceMode <;> decide)
  have hmachine : Frontmatter.scalar unicode (py "machine") = py "machine" := scalar_of_isPlain (by decide)
  have hdate : py "generated_at: " = py "generated_at" ++ py ": " := by decide
  have hsource : py "source_mode: " = py "source_mode" ++ py ": " := by decide
  have hversion : py "\nsnapshot_version: " = py "\n" ++ (py "snapshot_version" ++ py ": ") := by decide
  have hstatus : py "\nstatus: machine\n---\n\n" =
      py "\n" ++ (py "status" ++ (py ": " ++ (py "machine" ++ (py "\n" ++ (Frontmatter.fence ++ py "\n"))))) := by
    decide
  rw [headFor, Frontmatter.emit, fieldsFor, List.flatMap_append, headLines, provenance, hdate, hsource, hversion,
    hstatus]
  simp only [List.flatMap_cons, List.flatMap_nil, List.append_nil, Frontmatter.fieldLines, hmode, hmachine,
    List.append_assoc, newline_eq, List.cons_append, List.nil_append]

/-- **The date is read off a head.** -/
theorem headFor_append_inj {entry : DocEntry} {date date' u v : PyStr}
    (h : headFor unicode s entry date ++ u = headFor unicode s entry date' ++ v) : date = date' ∧ u = v := by
  have hhead : ∀ w, (provenance unicode s ++ w).head? ≠ some newline := by
    intro w
    rw [provenance]
    simp only [List.append_assoc]
    rw [List.head?_append_of_ne_nil _ (by decide)]
    decide
  rw [headFor_eq, headFor_eq, List.append_assoc, List.append_assoc, List.append_assoc, List.append_assoc] at h
  obtain ⟨rfl, hrest⟩ := Frontmatter.scalar_append_inj (hhead u) (hhead v) (List.append_cancel_left h)
  exact ⟨rfl, List.append_cancel_left hrest⟩

/-- A head names the system, alone or ahead of an object. -/
theorem head_cases (unicode : Unicode) {doc : PyStr × DocEntry} (h : doc ∈ docsOf s) (date : PyStr) :
    (∃ schema name rest, (∀ w : PyStr, (rest ++ w).head? ≠ some newline) ∧ headFor unicode s doc.2 date =
      objectOpening ++ (Frontmatter.scalar unicode (Naming.fqn s.system schema name) ++ newline :: rest)) ∨
    (∃ rest, (∀ w : PyStr, (rest ++ w).head? ≠ some newline) ∧ headFor unicode s doc.2 date =
      indexOpening ++ (Frontmatter.scalar unicode s.system ++ newline :: rest)) ∨
    ∃ schema name rest, headFor unicode s doc.2 date =
      groupOpening ++ (pyQuote (Naming.fqn s.system schema name) ++ rest) := by
  have hplain : ∀ value, Frontmatter.isPlain value = true → Frontmatter.scalar unicode value = value :=
    fun value => scalar_of_isPlain
  have hindex : Frontmatter.scalar unicode (py "machine-index") = py "machine-index" := hplain _ (by decide)
  have hopening : indexOpening = Frontmatter.fence ++ (py "doc_class" ++ (py ": " ++ (py "machine-index" ++
      (py "\n" ++ (py "system" ++ py ": "))))) := by decide
  obtain ⟨-, o, -, rfl⟩ | ⟨-, schema, -, rfl⟩ | ⟨-, group, hgroup, rfl⟩ | rfl := mem_docsOf.mp h
  · have hobject : Frontmatter.scalar unicode (py "machine-object") = py "machine-object" := hplain _ (by decide)
    have hopening : objectOpening = Frontmatter.fence ++ (py "doc_class" ++ (py ": " ++ (py "machine-object" ++
        (py "\n" ++ (py "object" ++ py ": "))))) := by decide
    refine .inl ⟨o.schema, o.name, py "kind" ++ (py ": " ++ (Frontmatter.scalar unicode o.kind ++ (py "\n" ++
      (py "schema_hash" ++ (py ": " ++ (Frontmatter.scalar unicode o.schemaHash ++ (py "\n" ++
        (py "generated_at: " ++ (Frontmatter.scalar unicode date ++ newline :: provenance unicode s))))))))),
      ?_, ?_⟩
    · intro w
      rw [List.append_assoc, List.head?_append_of_ne_nil _ (by decide)]
      decide
    · rw [headFor_eq, headLines, identityFields, hopening]
      simp only [List.flatMap_cons, List.flatMap_nil, List.append_nil, Frontmatter.fieldLines, hobject,
        List.append_assoc, newline_eq, List.cons_append, List.nil_append]
  · refine .inr (.inl ⟨py "scope" ++ (py ": " ++ (Frontmatter.scalar unicode (py "schema") ++ (py "\n" ++
      (py "schema" ++ (py ": " ++ (Frontmatter.scalar unicode schema ++ (py "\n" ++
        (py "generated_at: " ++ (Frontmatter.scalar unicode date ++ newline :: provenance unicode s))))))))),
      ?_, ?_⟩)
    · intro w
      rw [List.append_assoc, List.head?_append_of_ne_nil _ (by decide)]
      decide
    · rw [headFor_eq, headLines, identityFields, hopening]
      simp only [List.flatMap_cons, List.flatMap_nil, List.append_nil, Frontmatter.fieldLines, hindex,
        List.append_assoc, newline_eq, List.cons_append, List.nil_append]
  · obtain ⟨o, ho, rfl⟩ := mem_keysOf.mp hgroup
    have hmember : o ∈ membersOf s groupOf (groupOf o) := mem_membersOf.mpr ⟨ho, rfl⟩
    have hclass : Frontmatter.scalar unicode (py "machine-group") = py "machine-group" := hplain _ (by decide)
    have hopening : groupOpening = Frontmatter.fence ++ (py "doc_class" ++ (py ": " ++ (py "machine-group" ++
        (py "\n" ++ (py "objects:\n" ++ py "  - \x7b object: "))))) := by decide
    cases hmembers : membersOf s groupOf (groupOf o) with
    | nil => rw [hmembers] at hmember; cases hmember
    | cons first rest =>
        refine .inr (.inr ⟨first.schema, first.name, py ", kind: " ++ (first.kind ++ (py ", schema_hash: " ++
          (pyQuote first.schemaHash ++ (py " \x7d\n" ++
            ((rest.map (rosterEntry s.system)).flatMap Frontmatter.rosterLine ++ (py "generated_at: " ++
              (Frontmatter.scalar unicode date ++ newline :: provenance unicode s))))))), ?_⟩)
        rw [headFor_eq, headLines, identityFields, hopening]
        simp only [List.flatMap_cons, List.flatMap_nil, List.append_nil, Frontmatter.fieldLines, hclass,
          List.map_cons, Frontmatter.rosterLine, rosterEntry, List.append_assoc]
  · refine .inr (.inl ⟨py "scope" ++ (py ": " ++ (Frontmatter.scalar unicode (py "system") ++ (py "\n" ++
      (py "generated_at: " ++ (Frontmatter.scalar unicode date ++ newline :: provenance unicode s))))),
      ?_, ?_⟩)
    · intro w
      rw [List.append_assoc, List.head?_append_of_ne_nil _ (by decide)]
      decide
    · rw [headFor_eq, headLines, identityFields, hopening]
      simp only [List.flatMap_cons, List.flatMap_nil, List.append_nil, Frontmatter.fieldLines, hindex,
        List.append_assoc, newline_eq, List.cons_append, List.nil_append]

/-- **Documents of two systems in one directory** have different heads. -/
theorem head_ne (hmangle : Naming.mangle s.system = Naming.mangle s'.system) (hne : s.system ≠ s'.system)
    {doc doc' : PyStr × DocEntry} (hdoc : doc ∈ docsOf s) (hdoc' : doc' ∈ docsOf s') (date date' u v : PyStr) :
    headFor unicode s doc.2 date ++ u ≠ headFor unicode s' doc'.2 date' ++ v := by
  have hstart : py "---\ndoc_class: machine-" ++ py "object\nobject: " = objectOpening ∧
      py "---\ndoc_class: machine-" ++ py "index\nsystem: " = indexOpening ∧
        py "---\ndoc_class: machine-" ++ py "group\nobjects:\n  - \x7b object: " = groupOpening := by decide
  obtain ⟨hobject, hindex, hgroup⟩ := hstart
  have hclash : ∀ {a b : CodePoint} {x y : PyStr}, a ≠ b →
      py "---\ndoc_class: machine-" ++ a :: x ≠ py "---\ndoc_class: machine-" ++ b :: y :=
    fun hab heq => hab (List.cons.inj (List.append_cancel_left heq)).1
  intro h
  obtain ⟨schema, name, rest, hrest, heq⟩ | ⟨rest, hrest, heq⟩ | ⟨schema, name, rest, heq⟩ :=
    head_cases unicode hdoc date <;>
    obtain ⟨schema', name', rest', hrest', heq'⟩ | ⟨rest', hrest', heq'⟩ | ⟨schema', name', rest', heq'⟩ :=
      head_cases unicode hdoc' date' <;>
    rw [heq, heq'] at h <;> simp only [List.append_assoc, List.cons_append] at h
  · exact fqn_ne hmangle hne schema name schema' name'
      (Frontmatter.scalar_append_inj (hrest u) (hrest' v) (List.append_cancel_left h)).1
  · rw [← hobject, ← hindex, List.append_assoc, List.append_assoc] at h
    exact hclash (by decide) h
  · rw [← hobject, ← hgroup, List.append_assoc, List.append_assoc] at h
    exact hclash (by decide) h
  · rw [← hobject, ← hindex, List.append_assoc, List.append_assoc] at h
    exact hclash (by decide) h
  · exact hne (Frontmatter.scalar_append_inj (hrest u) (hrest' v) (List.append_cancel_left h)).1
  · rw [← hindex, ← hgroup, List.append_assoc, List.append_assoc] at h
    exact hclash (by decide) h
  · rw [← hobject, ← hgroup, List.append_assoc, List.append_assoc] at h
    exact hclash (by decide) h
  · rw [← hindex, ← hgroup, List.append_assoc, List.append_assoc] at h
    exact hclash (by decide) h
  · exact fqn_ne hmangle hne schema name schema' name' (pyQuote_append_inj (List.append_cancel_left h)).1

theorem carriageReturn_notMem_headFor {doc : PyStr × DocEntry} (h : doc ∈ docsOf s) (date : PyStr) :
    carriageReturn ∉ headFor unicode s doc.2 date := by
  rw [headFor, List.mem_append, not_or]
  refine ⟨Frontmatter.carriageReturn_notMem_emit fun f hf => ?_, by decide⟩
  have hprovenance : f ∈ [(py "generated_at", Frontmatter.FieldValue.text date),
      (py "source_mode", .text (SourceMode.text s.sourceMode)), (py "snapshot_version", .text (py "1")),
      (py "status", .text (py "machine"))] → carriageReturn ∉ f.1 ∧ ∀ roster, f.2 ≠ .objects roster := by
    intro hf
    simp only [List.mem_cons, List.not_mem_nil, or_false] at hf
    obtain rfl | rfl | rfl | rfl := hf <;> exact ⟨by dsimp only; decide, nofun⟩
  have hidentity : f ∈ identityFields s doc.2 → carriageReturn ∉ f.1 ∧
      ∀ roster, f.2 = .objects roster → ∀ e ∈ roster, carriageReturn ∉ e.kind := by
    intro hf
    obtain ⟨-, o, -, rfl⟩ | ⟨-, schema, -, rfl⟩ | ⟨hclass, group, -, rfl⟩ | rfl := mem_docsOf.mp h <;>
      simp only [identityFields, List.mem_cons, List.not_mem_nil, or_false] at hf
    · obtain rfl | rfl | rfl | rfl := hf <;> exact ⟨by dsimp only; decide, nofun⟩
    · obtain rfl | rfl | rfl | rfl := hf <;> exact ⟨by dsimp only; decide, nofun⟩
    · obtain rfl | rfl := hf
      · exact ⟨by dsimp only; decide, nofun⟩
      · refine ⟨by dsimp only; decide, fun roster hroster e he => ?_⟩
        obtain rfl := Frontmatter.FieldValue.objects.inj hroster
        obtain ⟨o, ho, rfl⟩ := List.mem_map.mp he
        have hall : ∀ kind ∈ family .api, carriageReturn ∉ kind := by decide
        exact hall _ (hclass ▸ (mem_known.mp (mem_membersOf.mp ho).1).2)
    · obtain rfl | rfl | rfl := hf <;> exact ⟨by dsimp only; decide, nofun⟩
  rw [fieldsFor, List.mem_append] at hf
  obtain hf | hf := hf
  · exact Frontmatter.carriageReturn_notMem_fieldLines (hidentity hf).1 (hidentity hf).2
  · exact Frontmatter.carriageReturn_notMem_fieldLines (hprovenance hf).1
      fun roster hroster => absurd hroster ((hprovenance hf).2 roster)

/-! ### What is written -/

/-- A document as it is read: of some date, and with some body. -/
theorem writeMachine_spec {yaml : Yaml} {head : PyStr → PyStr} {body : Mode → Option PyStr}
    {newDate : PyStr} {old : Option (List UInt8)} {bytes : List UInt8}
    (h : writeMachine unicode yaml head body newDate old = some bytes) :
    ∃ date real, body .real = some real ∧ readText bytes = newlines (head date ++ real) := by
  obtain ⟨real, hreal, h⟩ := Option.bind_eq_some_iff.mp h
  have hwrite : ∀ date, encodeUtf8 (head date ++ real) = some bytes →
      ∃ date real, body .real = some real ∧ readText bytes = newlines (head date ++ real) :=
    fun date hdate => ⟨date, real, hreal, readText_of_encode hdate⟩
  cases old with
  | none => exact hwrite _ h
  | some old =>
      dsimp only at h
      by_cases hrefuses : yaml.refuses (readText old) = true
      · rw [if_pos hrefuses] at h
        cases h
      rw [if_neg hrefuses] at h
      cases hold : oldDate unicode yaml (readText old) with
      | none =>
          rw [hold] at h
          exact hwrite _ h
      | some date =>
          rw [hold] at h
          dsimp only at h
          by_cases hsame : head date ++ real = readText old
          · rw [if_pos hsame] at h
            obtain rfl := Option.some.inj h
            refine ⟨date, real, hreal, ?_⟩
            rw [hsame, newlines_eq_self]
            exact carriageReturn_notMem_newlines _
          · rw [if_neg hsame] at h
            by_cases hhead : head date <+: readText old
            · rw [if_pos hhead] at h
              obtain ⟨absent, -, h⟩ := Option.bind_eq_some_iff.mp h
              obtain ⟨marker, -, h⟩ := Option.bind_eq_some_iff.mp h
              by_cases hconfined : purposeConfined ((readText old).drop (head date).length) absent marker = true
              · rw [if_pos hconfined] at h
                exact hwrite _ h
              · rw [if_neg hconfined] at h
                exact hwrite _ h
            · rw [if_neg hhead] at h
              exact hwrite _ h

end

end ContextLayer.Render
