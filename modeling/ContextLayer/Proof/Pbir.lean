import ContextLayer.Pbir
import ContextLayer.Proof.Artifact
import ContextLayer.Proof.PyJson
import ContextLayer.Lib.Partition
import ContextLayer.Lib.Pointwise

/-!
# A layout in the parts of its report

A part is lost where two parts have one path, and a column where no bucket of the visual's kind takes the encoding that
names it. Apart from that the parts have the whole layout.
-/

namespace ContextLayer.Pbir

open Text Frontmatter Pointwise

theorem mem_of_mem_ofList {κ ν : Type} [DecidableEq κ] {pairs : List (κ × ν)} {e : κ × ν} (h : e ∈ Dict.ofList pairs) :
    e ∈ pairs :=
  Dict.mem_of_get?_ofList (Dict.get?_of_mem (Dict.nodup_ofList pairs) h)

/-! ### One visual -/

variable {unicode : Unicode} {sha256 : List UInt8 → PyStr}

theorem nodup_buckets (visual : Members) :
    ((specOf unicode visual).buckets.map fun b => py b.2).Nodup := by
  have hregistry : ∀ e ∈ registryVisuals, (e.2.buckets.map fun b => py b.2).Nodup := by decide
  have hdefault : (defaultBuckets.map fun b => py b.2).Nodup := by decide
  simp only [specOf]
  cases h : (Dict.get? registryVisuals (textAt unicode visual "registry_kind")).or
      (Dict.get? registryVisuals (textOrEmpty unicode visual "kind")) with
  | none => exact hdefault
  | some spec =>
      rw [Option.getD_some]
      rcases Option.or_eq_some_iff.mp h with hspec | ⟨-, hspec⟩
      · exact hregistry _ (Dict.mem_of_get? hspec)
      · exact hregistry _ (Dict.mem_of_get? hspec)

section QueryState

variable {table : PyStr} {columns : List PyStr} {visual : Members} {state : List (PyStr × List FieldRef)}

theorem queryState_spec (h : queryState unicode table columns visual = some state) :
    (∀ b ∈ (specOf unicode visual).buckets, ∀ column ∈ namedColumns unicode visual b.1, column ∈ columns) ∧
      ∀ bucket, bucket ∈ state ↔ ∃ b ∈ (specOf unicode visual).buckets,
        namedColumns unicode visual b.1 ≠ [] ∧
          bucket = (py b.2, (namedColumns unicode visual b.1).map (FieldRef.mk table)) := by
  rw [queryState] at h
  by_cases hall : ((specOf unicode visual).buckets.all fun b =>
      (namedColumns unicode visual b.1).all fun column => decide (column ∈ columns)) = true
  · rw [if_pos hall, Option.some.injEq] at h
    refine ⟨fun b hb column hcolumn => ?_, fun bucket => ?_⟩
    · exact of_decide_eq_true (List.all_eq_true.mp (List.all_eq_true.mp hall b hb) column hcolumn)
    · rw [← h, Dict.ofList_eq_self, List.mem_filterMap]
      · refine exists_congr fun b => and_congr_right fun _ => ?_
        by_cases hnil : namedColumns unicode visual b.1 = []
        · simp [hnil]
        · have hne : ¬ (namedColumns unicode visual b.1).map (FieldRef.mk table) = [] := by simpa using hnil
          rw [if_neg hne, Option.some.injEq]
          exact ⟨fun heq => ⟨hnil, heq.symm⟩, fun heq => heq.2.symm⟩
      · have hnodup : ((specOf unicode visual).buckets.map fun b => py b.2).Nodup := nodup_buckets visual
        refine hnodup.sublist (map_filterMap_sublist fun b e he => ?_)
        by_cases hnil : namedColumns unicode visual b.1 = []
        · simp [hnil] at he
        · simp only [List.map_eq_nil_iff, hnil, if_false, Option.some.injEq] at he
          rw [← he]
  · rw [if_neg hall] at h
    cases h

/-- What a query state has is what the encodings with a bucket name. -/
theorem mem_queryState (h : queryState unicode table columns visual = some state) (column : PyStr) :
    (∃ bucket ∈ state, ⟨table, column⟩ ∈ bucket.2) ↔
      ∃ b ∈ (specOf unicode visual).buckets, column ∈ namedColumns unicode visual b.1 := by
  constructor
  · rintro ⟨bucket, hbucket, hmem⟩
    obtain ⟨b, hb, -, rfl⟩ := ((queryState_spec h).2 bucket).mp hbucket
    obtain ⟨column', hcolumn, heq⟩ := List.mem_map.mp hmem
    cases heq
    exact ⟨b, hb, hcolumn⟩
  · rintro ⟨b, hb, hcolumn⟩
    exact ⟨_, ((queryState_spec h).2 _).mpr ⟨b, hb, List.ne_nil_of_mem hcolumn, rfl⟩, List.mem_map_of_mem hcolumn⟩

theorem delivered_of_queryState (h : queryState unicode table columns visual = some state) :
    ∀ bucket ∈ state, ∀ ref ∈ bucket.2, ref.entity = table ∧ ref.property ∈ columns := by
  intro bucket hbucket ref href
  obtain ⟨b, hb, -, rfl⟩ := ((queryState_spec h).2 bucket).mp hbucket
  obtain ⟨column, hcolumn, rfl⟩ := List.mem_map.mp href
  exact ⟨rfl, (queryState_spec h).1 b hb column hcolumn⟩

end QueryState

theorem dictOf_eq_some {value : PyJson} {members : Members} (h : dictOf value = some members) :
    membersOf value = members := by
  rw [membersOf, h, Option.getD_some]

/-! ### The delivered schema -/

theorem delivered_of_tables {delivered : Members} {tables : Tables}
    (h : deliveredTables unicode delivered = some tables) {table : PyStr} {columns : List PyStr} (htable : Dict.get? tables table = some columns) {column : PyStr}
    (hcolumn : column ∈ columns) : Delivered unicode delivered ⟨table, column⟩ := by
  rw [deliveredTables, Option.bind_eq_bind, Option.bind_eq_some_iff] at h
  obtain ⟨items, hitems, h⟩ := h
  rw [Option.bind_eq_bind, Option.bind_eq_some_iff] at h
  obtain ⟨pairs, hpairs, h⟩ := h
  rw [Option.pure_def, Option.some.injEq] at h
  have hmem := Dict.mem_of_get?_ofList (h ▸ htable)
  obtain ⟨item, hitem, hread⟩ := exists_of_mem_forall₂ (forall₂_of_mapM hpairs) hmem
  simp only [deliveredTable, Option.bind_eq_bind, Option.bind_eq_some_iff, Option.pure_def, Option.some.injEq,
    Prod.mk.injEq] at hread
  obtain ⟨members, hmembers, values, hvalues, read, hcolumns, hname, rfl⟩ := hread
  obtain ⟨value, hvalue, hread⟩ := exists_of_mem_forall₂ (forall₂_of_mapM hcolumns) hcolumn
  obtain ⟨fields, hfields, hproperty⟩ := Option.map_eq_some_iff.mp hread
  rw [← dictOf_eq_some hmembers] at hname hvalues
  rw [← dictOf_eq_some hfields] at hproperty
  exact ⟨items, hitems, item, hitem, hname, values, hvalues, value, hvalue, hproperty⟩

/-! ### A visual and a page -/

/-- What is known of a visual that was built. -/
structure IsVisual (unicode : Unicode) (sha256 : List UInt8 → PyStr) (tables : Tables) (artifactId display : PyStr)
    (index : Nat) (visual : PyJson) (v : VisualPart) : Prop where
  name : stableName sha256 [artifactId, py "visual", display, PyText.natText index] = some v.name
  state : ∃ columns, Dict.get? tables (textOrEmpty unicode (membersOf visual) "table") = some columns ∧
    queryState unicode (textOrEmpty unicode (membersOf visual) "table") columns (membersOf visual) = some v.queryState

theorem isVisual_of_visualPart {tables : Tables} {artifactId display : PyStr} {index : Nat} {visual : PyJson}
    {v : VisualPart} (h : visualPart unicode sha256 tables artifactId display index visual = some v) :
    IsVisual unicode sha256 tables artifactId display index visual v := by
  simp only [visualPart, Option.bind_eq_bind, Option.bind_eq_some_iff] at h
  obtain ⟨members, hmembers, name, hname, columns, hcolumns, state, hstate, h⟩ := h
  rw [← dictOf_eq_some hmembers] at hcolumns hstate h
  by_cases hnil : state = []
  · rw [if_pos hnil] at h
    cases h
  · rw [if_neg hnil, Option.pure_def, Option.some.injEq] at h
    rw [← h]
    exact ⟨hname, columns, hcolumns, hstate⟩

/-- What is known of a page that was built. -/
structure IsPage (unicode : Unicode) (sha256 : List UInt8 → PyStr) (tables : Tables) (artifactId : PyStr)
    (trustElement : Members) (lines : List PyStr) (page : PyJson) (index : Nat) (b : BuiltPage) : Prop where
  display : b.display = pageDisplay unicode (membersOf page) index
  name : stableName sha256 [artifactId, py "page", b.display] = some b.name
  visuals : List.Forall₂ (fun v part => IsVisual unicode sha256 tables artifactId b.display v.2 v.1 part)
    (visualsOf page).zipIdx b.visuals
  here : b.trust ≠ none ↔ trustHere trustElement (membersOf page) = true
  trust : ∀ t, b.trust = some t → t.2 = lines ∧ stableName sha256 [artifactId, py "trust", b.display] = some t.1

theorem isPage_of_buildPage {tables : Tables} {artifactId : PyStr} {trustElement : Members} {lines : List PyStr}
    {page : PyJson} {index : Nat} {b : BuiltPage}
    (h : buildPage unicode sha256 tables artifactId trustElement lines page index = some b) :
    IsPage unicode sha256 tables artifactId trustElement lines page index b := by
  simp only [buildPage, Option.bind_eq_bind, Option.bind_eq_some_iff] at h
  obtain ⟨members, hmembers, name, hname, visuals, hvisuals, parts, hparts, h⟩ := h
  rw [← dictOf_eq_some hmembers] at hname hvisuals hparts h
  have hvisualsOf : visualsOf page = visuals := by rw [visualsOf, hvisuals, Option.getD_some]
  have hforall : List.Forall₂ (fun v part => IsVisual unicode sha256 tables artifactId
      (pageDisplay unicode (membersOf page) index) v.2 v.1 part) (visualsOf page).zipIdx parts := by
    rw [hvisualsOf]
    exact (forall₂_of_mapM hparts).imp fun _ _ => isVisual_of_visualPart
  by_cases hhere : trustHere trustElement (membersOf page) = true
  · rw [if_pos hhere] at h
    obtain ⟨trustName, htrust, h⟩ := Option.bind_eq_some_iff.mp h
    rw [Option.pure_def, Option.some.injEq] at h
    rw [← h]
    refine ⟨rfl, hname, hforall, by simp [hhere], fun t ht => ?_⟩
    rw [← Option.some.inj ht]
    exact ⟨rfl, htrust⟩
  · rw [if_neg hhere, Option.pure_def, Option.some.injEq] at h
    rw [← h]
    exact ⟨rfl, hname, hforall, by simp [hhere], nofun⟩

/-! ### The whole report -/

/-- The assignments to `parts`, in order. -/
def assigned (datasetId active : PyStr) (built : List BuiltPage) : Parts :=
  [(py "definition.pbir", Part.definition (py "semanticmodelid=" ++ datasetId)),
      (py "definition/version.json", .version), (py "definition/report.json", .report)] ++
    built.flatMap BuiltPage.parts ++ [(py "definition/pages/pages.json", .pages (built.map BuiltPage.name) active)]

/-- What is known of parts that were built. -/
structure IsReport (unicode : Unicode) (sha256 : List UInt8 → PyStr) (artifact delivered : Members)
    (generatedDate : PyStr) (tables : Tables) (notes : List PyStr) (built : List BuiltPage) : Prop where
  schema : deliveredTables unicode delivered = some tables
  disclosed : trustNotes unicode artifact = some notes
  pages : List.Forall₂ (fun p b => IsPage unicode sha256 tables (textOrEmpty unicode artifact "id")
    (trustElementOf artifact) (trustLines (textOrEmpty unicode artifact "id") generatedDate notes) p.1 p.2 b)
    (pagesOfLayout artifact).zipIdx built
  here : ∃ page ∈ pagesOfLayout artifact, trustHere (trustElementOf artifact) (membersOf page) = true

theorem isReport_of_buildParts {artifact delivered : Members} {generatedDate : PyStr} {parts : Parts}
    (h : buildParts unicode sha256 artifact delivered generatedDate = some parts) :
    ∃ tables notes built datasetId active,
      IsReport unicode sha256 artifact delivered generatedDate tables notes built ∧
        parts = Dict.ofList (assigned datasetId active built) := by
  simp only [buildParts, Option.bind_eq_bind, Option.bind_eq_some_iff, Prod.exists] at h
  obtain ⟨layout, pages, hlayout, trustElement, ⟨value, hvalue, htrust⟩, tables, htables, notes, hnotes, h⟩ := h
  have hpages : pagesOfLayout artifact = pages := by
    rw [pagesOfLayout, hlayout]
    rfl
  have helement : trustElementOf artifact = trustElement := by
    rw [trustElementOf, hlayout, Option.bind_some, hvalue, Option.bind_some, htrust, Option.getD_some]
  rw [← hpages, ← helement] at h
  split at h
  · cases h
  obtain ⟨built, hbuilt, h⟩ := Option.bind_eq_some_iff.mp h
  split at h
  · cases h
  · rename_i hall
    obtain ⟨active, -, h⟩ := Option.bind_eq_some_iff.mp h
    refine ⟨tables, notes, built, textOrEmpty unicode delivered "dataset_id", active, ⟨htables, hnotes, ?_, ?_⟩,
      (Option.some.inj h).symm⟩
    · exact (forall₂_of_mapM hbuilt).imp fun _ _ => isPage_of_buildPage
    · simp only [List.all_eq_true, List.mem_filterMap, not_forall, Bool.not_eq_true', Bool.not_eq_false] at hall
      obtain ⟨members, ⟨page, hpage, hmembers⟩, hhere⟩ := hall
      rw [← dictOf_eq_some hmembers] at hhere
      exact ⟨page, hpage, hhere⟩

/-! ### What is assigned -/

section Assigned

variable {datasetId active : PyStr} {built : List BuiltPage}

theorem visualPath_left {page page' visual : PyStr} (h : visualPath page visual = visualPath page' visual) :
    page = page' := by
  simp only [visualPath, List.append_assoc] at h
  exact List.append_cancel_right (List.append_cancel_left h)

theorem visualPath_right {page visual visual' : PyStr} (h : visualPath page visual = visualPath page visual') :
    visual = visual' := by
  simp only [visualPath, List.append_assoc] at h
  exact List.append_cancel_right (List.append_cancel_left (List.append_cancel_left (List.append_cancel_left h)))

/-- What is looked for in the parts of the pages alone. -/
theorem filterMap_assigned {β : Type} {F : PyStr × Part → Option β}
    (hdefinition : ∀ path text, F (path, .definition text) = none) (hversion : ∀ path, F (path, .version) = none) (hreport : ∀ path, F (path, .report) = none) :
    (assigned datasetId active built).filterMap F = built.flatMap (fun b => b.parts.filterMap F) ++
      (F (py "definition/pages/pages.json", .pages (built.map BuiltPage.name) active)).toList := by
  rw [assigned, List.filterMap_append, List.filterMap_append, List.filterMap_flatMap]
  simp only [List.filterMap_cons, hdefinition, hversion, hreport, List.filterMap_nil, List.nil_append]
  cases F (py "definition/pages/pages.json", .pages (built.map BuiltPage.name) active) <;> rfl

theorem pageOrders_assigned : pageOrders (assigned datasetId active built) = [built.map BuiltPage.name] := by
  have hpage : ∀ b ∈ built, pageOrders b.parts = [] := by
    intro b _
    simp [pageOrders, BuiltPage.parts, List.filterMap_map]
  rw [pageOrders, filterMap_assigned (fun _ _ => rfl) (fun _ => rfl) (fun _ => rfl)]
  exact congrArg (· ++ [built.map BuiltPage.name]) (List.flatMap_eq_nil_iff.mpr hpage)

theorem pageParts_assigned : pageParts (assigned datasetId active built) = built.map fun b => (b.name, b.display) := by
  have hpage : ∀ b : BuiltPage, pageParts b.parts = [(b.name, b.display)] := by
    intro b
    simp [pageParts, BuiltPage.parts, List.filterMap_map]
  rw [pageParts, filterMap_assigned (fun _ _ => rfl) (fun _ => rfl) (fun _ => rfl), Option.toList_none, List.append_nil,
    List.map_eq_flatMap]
  exact List.flatMap_congr fun b _ => hpage b

theorem visualParts_assigned (page : PyStr) : visualParts (assigned datasetId active built) page =
    built.flatMap fun b => if b.name = page then b.visuals else [] := by
  have hpage : ∀ b : BuiltPage, visualParts b.parts page = if b.name = page then b.visuals else [] := by
    intro b
    by_cases hname : b.name = page
    · simp [visualParts, BuiltPage.parts, List.filterMap_map, hname]
    · have hpath : ∀ v : PyStr, visualPath b.name v ≠ visualPath page v := fun v h => hname (visualPath_left h)
      simp [visualParts, BuiltPage.parts, List.filterMap_map, hname, hpath]
  rw [visualParts, filterMap_assigned (fun _ _ => rfl) (fun _ => rfl) (fun _ => rfl), Option.toList_none,
    List.append_nil]
  exact List.flatMap_congr fun b _ => hpage b

theorem trustParts_assigned : trustParts (assigned datasetId active built) =
    built.flatMap fun b => b.trust.toList.map fun t => (visualPath b.name t.1, t.2) := by
  have hpage : ∀ b : BuiltPage, trustParts b.parts = b.trust.toList.map fun t => (visualPath b.name t.1, t.2) := by
    intro b
    cases htrust : b.trust with
    | none => simp [trustParts, BuiltPage.parts, List.filterMap_map, htrust]
    | some t => simp [trustParts, BuiltPage.parts, List.filterMap_map, htrust]
  rw [trustParts, filterMap_assigned (fun _ _ => rfl) (fun _ => rfl) (fun _ => rfl), Option.toList_none,
    List.append_nil]
  exact List.flatMap_congr fun b _ => hpage b

theorem mem_assigned_page {path name display : PyStr}
    (h : (path, Part.page name display) ∈ assigned datasetId active built) : path = pagePath name := by
  have hmem : ∃ b ∈ built, path = pagePath b.name ∧ name = b.name ∧ display = b.display := by
    simpa [assigned, BuiltPage.parts] using h
  obtain ⟨b, -, rfl, rfl, -⟩ := hmem
  rfl

theorem mem_assigned_visual {path : PyStr} {v : VisualPart}
    (h : (path, Part.visual v) ∈ assigned datasetId active built) :
    ∃ b ∈ built, v ∈ b.visuals ∧ path = visualPath b.name v.name := by
  have hmem : ∃ b ∈ built, v ∈ b.visuals ∧ visualPath b.name v.name = path := by
    simpa [assigned, BuiltPage.parts] using h
  obtain ⟨b, hb, hv, hpath⟩ := hmem
  exact ⟨b, hb, hv, hpath.symm⟩

/-- The names in the folder of a page. -/
def BuiltPage.names (b : BuiltPage) : List PyStr := b.visuals.map VisualPart.name ++ b.trust.toList.map Prod.fst

theorem paths_parts (b : BuiltPage) : b.parts.map Prod.fst = pagePath b.name :: b.names.map (visualPath b.name) := by
  simp [BuiltPage.parts, BuiltPage.names, Function.comp_def]

theorem folder_of_mem {b : BuiltPage} {path : PyStr} (h : path ∈ b.parts.map Prod.fst) :
    ∃ rest, path = py "definition/pages/" ++ (b.name ++ .unit 0x2F :: rest) := by
  rw [paths_parts, List.mem_cons, List.mem_map] at h
  rcases h with rfl | ⟨name, -, rfl⟩
  · exact ⟨py "page.json", by simp only [pagePath, List.append_assoc]; rfl⟩
  · exact ⟨py "visuals/" ++ name ++ py "/visual.json", by simp only [visualPath, List.append_assoc]; rfl⟩

/-- The names of all pages differ, and those in the folder of each. -/
structure Apart (built : List BuiltPage) : Prop where
  pages : (built.map BuiltPage.name).Nodup
  visuals : ∀ b ∈ built, b.names.Nodup

theorem nodup_assigned (happart : Apart built) (hslash : ∀ b ∈ built, CodePoint.unit 0x2F ∉ b.name) :
    ((assigned datasetId active built).map Prod.fst).Nodup := by
  have hfolder : ∀ path ∈ (built.flatMap BuiltPage.parts).map Prod.fst, ∃ b ∈ built, ∃ rest,
      path = py "definition/pages/" ++ (b.name ++ .unit 0x2F :: rest) := by
    intro path hpath
    rw [List.map_flatMap, List.mem_flatMap] at hpath
    obtain ⟨b, hb, hmem⟩ := hpath
    exact ⟨b, hb, folder_of_mem hmem⟩
  have hpages : ((built.flatMap BuiltPage.parts).map Prod.fst).Nodup := by
    rw [List.map_flatMap, List.nodup_flatMap]
    constructor
    · intro b hb
      rw [paths_parts, List.nodup_cons]
      refine ⟨fun hmem => ?_, (happart.visuals b hb).map fun _ _ => visualPath_right⟩
      obtain ⟨name, -, hpath⟩ := List.mem_map.mp hmem
      simp only [visualPath, pagePath, List.append_assoc] at hpath
      have htail := congrArg (List.take 2) (List.append_cancel_left (List.append_cancel_left hpath))
      rw [List.take_append_of_le_length (by decide)] at htail
      exact absurd htail (by decide)
    · refine (List.pairwise_map.mp happart.pages).imp_of_mem fun {a b} ha hb hne path hpath hpath' => hne ?_
      obtain ⟨rest, heq⟩ := folder_of_mem hpath
      obtain ⟨rest', heq'⟩ := folder_of_mem hpath'
      rw [heq, List.append_cancel_left_eq] at heq'
      have hcut := congrArg (Partition.cut (CodePoint.unit 0x2F)) heq'
      rw [Partition.cut_append (hslash a ha), Partition.cut_append (hslash b hb)] at hcut
      exact (Prod.mk.inj (Option.some.inj hcut)).1
  have hfirst : ∀ path ∈ [py "definition.pbir", py "definition/version.json", py "definition/report.json"],
      ¬ py "definition/pages/" <+: path ∧ path ≠ py "definition/pages/pages.json" := by decide
  have hlast : ∀ b ∈ built, ∀ rest : PyStr,
      py "definition/pages/pages.json" ≠ py "definition/pages/" ++ (b.name ++ .unit 0x2F :: rest) := by
    intro b hb rest heq
    have hsplit : py "definition/pages/pages.json" = py "definition/pages/" ++ py "pages.json" := by decide
    have hpage : py "pages.json" = b.name ++ .unit 0x2F :: rest := List.append_cancel_left (hsplit ▸ heq)
    have hmem : CodePoint.unit 0x2F ∈ py "pages.json" :=
      hpage ▸ List.mem_append_right _ List.mem_cons_self
    exact absurd hmem (by decide)
  rw [assigned, List.map_append, List.map_append, List.nodup_append, List.nodup_append]
  have hfixed : [py "definition.pbir", py "definition/version.json", py "definition/report.json"].Nodup := by decide
  refine ⟨⟨hfixed, hpages, ?_⟩, List.nodup_singleton _, ?_⟩
  · intro path hpath path' hpath' heq
    obtain ⟨b, -, rest, hfold⟩ := hfolder path' hpath'
    exact (hfirst path hpath).1 (heq ▸ hfold ▸ List.prefix_append _ _)
  · intro path hpath path' hpath' heq
    rw [List.map_singleton, List.mem_singleton] at hpath'
    rcases List.mem_append.mp hpath with hmem | hmem
    · exact (hfirst path hmem).2 (heq.trans hpath')
    · obtain ⟨b, hb, rest, hfold⟩ := hfolder path hmem
      exact hlast b hb rest (by rw [← hfold, heq, hpath'])

end Assigned

/-! ### Names apart -/

section Report

variable {artifact delivered : Members} {generatedDate : PyStr} {tables : Tables} {notes : List PyStr}
  {built : List BuiltPage}

theorem stableName_visualKeys {page : PyJson} {index : Nat} {b : BuiltPage} {lines : List PyStr}
    (h : IsPage unicode sha256 tables (textOrEmpty unicode artifact "id") (trustElementOf artifact) lines page index
      b) :
    (visualKeys unicode artifact page index).map (stableName sha256) = b.names.map some := by
  have hvisuals := map_eq_of_forall₂ h.visuals fun v _ part hpart => hpart.name
  rw [visualKeys, BuiltPage.names, List.map_append, List.map_append, List.map_map, ← h.display]
  refine congrArg₂ (· ++ ·) ?_ ?_
  · rw [List.map_map]
    exact hvisuals
  · by_cases hhere : trustHere (trustElementOf artifact) (membersOf page) = true
    · obtain ⟨t, ht⟩ := Option.ne_none_iff_exists'.mp (h.here.mpr hhere)
      rw [if_pos hhere, ht]
      exact congrArg (fun name => [name]) (h.trust t ht).2
    · have hnone : b.trust = none := by
        by_contra hsome
        exact hhere (h.here.mp hsome)
      rw [if_neg hhere, hnone]
      rfl

theorem namesApart_iff (h : IsReport unicode sha256 artifact delivered generatedDate tables notes built) :
    NamesApart unicode sha256 artifact ↔ Apart built := by
  have hpages : ((pagesOfLayout artifact).zipIdx.map fun e => stableName sha256
      [textOrEmpty unicode artifact "id", py "page", pageDisplay unicode (membersOf e.1) e.2]) =
      (built.map BuiltPage.name).map some := by
    rw [List.map_map]
    refine map_eq_of_forall₂ h.pages fun page _ b hb => ?_
    have hname := hb.name
    rw [hb.display] at hname
    exact hname
  have hnodup : ∀ l : List PyStr, (l.map some).Nodup ↔ l.Nodup := fun l =>
    List.nodup_map_iff (Option.some_injective _)
  constructor
  · intro hapart
    refine ⟨(hnodup _).mp ((congrArg List.Nodup hpages).mp hapart.pages), fun b hb => ?_⟩
    obtain ⟨page, hpage, hbuilt⟩ := exists_of_mem_forall₂ h.pages hb
    exact (hnodup _).mp (stableName_visualKeys hbuilt ▸ hapart.visuals page hpage)
  · intro hapart
    refine ⟨(congrArg List.Nodup hpages).mpr ((hnodup _).mpr hapart.pages), fun page hpage => ?_⟩
    obtain ⟨b, hb, hbuilt⟩ := exists_of_mem_forall₂ h.pages.flip hpage
    rw [stableName_visualKeys hbuilt]
    exact (hnodup _).mpr (hapart.visuals b hb)

/-! ### Names of the layout -/

/-- Every page has a name that is a text. -/
def Named (artifact : Members) : Prop :=
  ∀ page ∈ pagesOfLayout artifact, ∃ name, name ≠ [] ∧ get (membersOf page) "name" = some (.str name)

theorem pageDisplay_of_named {page : PyJson} {name : PyStr} (hne : name ≠ [])
    (h : get (membersOf page) "name" = some (.str name)) (index : Nat) :
    pageDisplay unicode (membersOf page) index = name ∧ textAt unicode (membersOf page) "name" = name := by
  have htruthy : PyJson.truthy (.str name) = true := by simpa [PyJson.truthy] using hne
  rw [pageDisplay, textAt, h, Option.filter_some, if_pos htruthy]
  exact ⟨rfl, rfl⟩

theorem trustHere_iff {trustElement : Members} {page : PyJson} {name : PyStr}
    (h : get (membersOf page) "name" = some (.str name)) :
    trustHere trustElement (membersOf page) = true ↔ get trustElement "page" = some (.str name) := by
  rw [trustHere, h, Option.getD_some]
  cases get trustElement "page" with
  | none => simp [PyJson.pyEq]
  | some value => cases value <;> simp [PyJson.pyEq, PyJson.asNumber]

theorem displays (h : IsReport unicode sha256 artifact delivered generatedDate tables notes built)
    (hnamed : Named artifact) : built.map BuiltPage.display =
      (pagesOfLayout artifact).map fun page => textAt unicode (membersOf page) "name" := by
  refine (map_eq_of_forall₂ (forall₂_of_zipIdx h.pages) fun page hpage b hb => ?_).symm
  obtain ⟨index, hb⟩ := hb
  obtain ⟨name, hne, hname⟩ := hnamed page hpage
  rw [hb.display, (pageDisplay_of_named hne hname index).1, (pageDisplay_of_named hne hname index).2]

theorem shows_iff {page : PyStr} {index : Nat} {visual : PyJson} {v : VisualPart}
    (h : IsVisual unicode sha256 tables (textOrEmpty unicode artifact "id") page index visual v) :
    Shows unicode visual v ↔ ∀ e ∈ encodingMembers, ∀ column ∈ namedColumns unicode (membersOf visual) e,
      ∃ b ∈ (specOf unicode (membersOf visual)).buckets, column ∈ namedColumns unicode (membersOf visual) b.1 := by
  obtain ⟨columns, -, hstate⟩ := h.state
  exact forall₂_congr fun e _ => forall₂_congr fun column _ => mem_queryState hstate column

theorem delivered_of_visual (h : IsReport unicode sha256 artifact delivered generatedDate tables notes built)
    {b : BuiltPage} (hb : b ∈ built) {v : VisualPart} (hv : v ∈ b.visuals) :
    ∀ bucket ∈ v.queryState, ∀ ref ∈ bucket.2, Delivered unicode delivered ref := by
  intro bucket hbucket ref href
  obtain ⟨page, -, hpage⟩ := exists_of_mem_forall₂ h.pages hb
  obtain ⟨visual, -, hvisual⟩ := exists_of_mem_forall₂ hpage.visuals hv
  obtain ⟨columns, hcolumns, hstate⟩ := hvisual.state
  obtain ⟨hentity, hproperty⟩ := delivered_of_queryState hstate bucket hbucket ref href
  obtain ⟨entity, property⟩ := ref
  cases hentity
  exact delivered_of_tables h.schema hcolumns hproperty

/-- The visuals of all pages show all that they name exactly where every column has a bucket. -/
theorem visuals_iff (h : IsReport unicode sha256 artifact delivered generatedDate tables notes built)
    (hnodup : (built.map BuiltPage.name).Nodup) (datasetId active : PyStr) :
    List.Forall₂ (fun page name => List.Forall₂ (Shows unicode) (visualsOf page)
        (visualParts (assigned datasetId active built) name)) (pagesOfLayout artifact) (built.map BuiltPage.name) ↔
      Bucketed unicode artifact := by
  rw [List.forall₂_map_right_iff]
  refine forall₂_iff_forall (forall₂_of_zipIdx h.pages) fun page b hb hpage => ?_
  obtain ⟨index, hpage⟩ := hpage
  have hparts : visualParts (assigned datasetId active built) b.name = b.visuals := by
    rw [visualParts_assigned, flatMap_of_nodup hnodup hb fun b' _ hne => if_neg hne, if_pos rfl]
  rw [hparts]
  have hvisuals := forall₂_of_zipIdx (R := fun visual i v => IsVisual unicode sha256 tables
    (textOrEmpty unicode artifact "id") b.display i visual v) hpage.visuals
  refine forall₂_iff_forall hvisuals fun visual v _ hvisual => ?_
  obtain ⟨i, hvisual⟩ := hvisual
  exact shows_iff hvisual

/-- The page of the trust element, and it alone, has a trust visual. -/
theorem exists_trust (h : IsReport unicode sha256 artifact delivered generatedDate tables notes built)
    (hnamed : Named artifact) : ∃ b ∈ built, ∃ t, b.trust = some t ∧
      b.display = textAt unicode (trustElementOf artifact) "page" ∧ (∀ note ∈ notes, py "Trust: " ++ note ∈ t.2) ∧
      ∀ b' ∈ built, b'.name ≠ b.name → b'.trust = none := by
  have hpages := forall₂_of_zipIdx h.pages
  obtain ⟨page, hpage, hhere⟩ := h.here
  obtain ⟨b, hb, index, hbuilt⟩ := exists_of_mem_forall₂ hpages.flip hpage
  obtain ⟨t, ht⟩ := Option.ne_none_iff_exists'.mp (hbuilt.here.mpr hhere)
  obtain ⟨name, hne, hname⟩ := hnamed page hpage
  have htrust := (trustHere_iff hname).mp hhere
  have hdisplay : b.display = name := by rw [hbuilt.display, (pageDisplay_of_named hne hname index).1]
  refine ⟨b, hb, t, ht, ?_, fun note hnote => ?_, fun b' hb' hother => ?_⟩
  · rw [hdisplay, textAt, htrust]
    rfl
  · rw [(hbuilt.trust t ht).1, trustLines, if_neg (List.ne_nil_of_mem hnote)]
    exact List.mem_append_left _ (List.mem_map_of_mem hnote)
  · by_contra hsome
    obtain ⟨page', hpage', index', hbuilt'⟩ := exists_of_mem_forall₂ hpages hb'
    obtain ⟨name', hne', hname'⟩ := hnamed page' hpage'
    have htrust' := (trustHere_iff hname').mp (hbuilt'.here.mp hsome)
    have hsame : name' = name := by
      rw [htrust, Option.some.injEq, PyJson.str.injEq] at htrust'
      exact htrust'.symm
    have hdisplay' : b'.display = b.display := by
      rw [hdisplay, hbuilt'.display, (pageDisplay_of_named hne' hname' index').1, hsame]
    exact hother (Option.some.inj (hbuilt'.name.symm.trans (hdisplay' ▸ hbuilt.name)))

/-- Where the names are apart, all that can be missing is a column. -/
theorem realised_assigned_iff (h : IsReport unicode sha256 artifact delivered generatedDate tables notes built)
    (hnamed : Named artifact) (hnodup : (built.map BuiltPage.name).Nodup) (datasetId active : PyStr) :
    Realised unicode artifact delivered (assigned datasetId active built) ↔ Bucketed unicode artifact := by
  have hvisuals := visuals_iff h hnodup datasetId active
  refine ⟨fun hrealised => hvisuals.mp (hrealised.visuals _ ?_), fun hbucketed => ⟨?_, ?_, ?_, ?_, ?_, ?_⟩⟩
  · rw [pageOrders_assigned]
    exact List.mem_singleton_self _
  · refine ⟨_, pageOrders_assigned, hnodup, ?_, ?_⟩
    · rw [pageParts_assigned, List.map_map]
      rfl
    · rw [pageParts_assigned, List.map_map, ← displays h hnamed]
      rfl
  · intro order horder
    rw [pageOrders_assigned, List.mem_singleton] at horder
    rw [horder]
    exact hvisuals.mpr hbucketed
  · obtain ⟨b, hb, t, ht, hdisplay, hlines, hother⟩ := exists_trust h hnamed
    refine ⟨(b.name, b.display), ?_, hdisplay, t.1, t.2, ?_, fun notes' hnotes => ?_⟩
    · rw [pageParts_assigned]
      exact List.mem_map_of_mem hb
    · rw [trustParts_assigned, flatMap_of_nodup hnodup hb fun b' hb' hne => by rw [hother b' hb' hne]; rfl, ht]
      rfl
    · rw [h.disclosed, Option.some.injEq] at hnotes
      rw [← hnotes]
      exact hlines
  · intro path v hmem
    obtain ⟨b, hb, hv, -⟩ := mem_assigned_visual hmem
    exact delivered_of_visual h hb hv
  · exact fun path name display => mem_assigned_page
  · intro path v hmem
    obtain ⟨b, hb, -, hpath⟩ := mem_assigned_visual hmem
    refine ⟨(b.name, b.display), ?_, hpath⟩
    rw [pageParts_assigned]
    exact List.mem_map_of_mem hb

theorem mem_visualParts {parts : Parts} {page : PyStr} {v : VisualPart} (h : v ∈ visualParts parts page) :
    (visualPath page v.name, Part.visual v) ∈ parts := by
  obtain ⟨⟨path, part⟩, hmem, hv⟩ := List.mem_filterMap.mp h
  cases part with
  | visual w =>
      by_cases hpath : path = visualPath page w.name
      · simp only [hpath, if_true, Option.some.injEq] at hv
        rw [← hv, ← hpath]
        exact hmem
      · simp [hpath] at hv
  | definition | version | report | page | trust | pages => cases hv

theorem nodup_visualParts {parts : Parts} (hkeys : (parts.map Prod.fst).Nodup) (page : PyStr) :
    ((visualParts parts page).map VisualPart.name).Nodup := by
  refine List.Nodup.of_map (visualPath page) ?_
  rw [List.map_map]
  refine hkeys.sublist (map_filterMap_sublist fun e v hv => ?_)
  obtain ⟨path, part⟩ := e
  cases part with
  | visual w =>
      by_cases hpath : path = visualPath page w.name
      · simp only [hpath, if_true, Option.some.injEq] at hv
        rw [Function.comp_apply, ← hv, hpath]
      · simp [hpath] at hv
  | definition | version | report | page | trust | pages => cases hv

theorem mem_trustParts {parts : Parts} {t : PyStr × List PyStr} (h : t ∈ trustParts parts) :
    ∃ name, (t.1, Part.trust name t.2) ∈ parts := by
  obtain ⟨⟨path, part⟩, hmem, ht⟩ := List.mem_filterMap.mp h
  cases part with
  | trust name lines =>
      rw [← Option.some.inj ht]
      exact ⟨name, hmem⟩
  | definition | version | report | page | visual | pages => cases ht

/-- A trust visual that is there is that of its page. -/
theorem exists_trustPart (h : IsReport unicode sha256 artifact delivered generatedDate tables notes built)
    (hnamed : Named artifact) {datasetId active : PyStr}
    (hrealised : Realised unicode artifact delivered (Dict.ofList (assigned datasetId active built)))
    (hnodup : (built.map BuiltPage.name).Nodup) {b : BuiltPage} (hb : b ∈ built) {t : PyStr × List PyStr}
    (ht : b.trust = some t) : ∃ name lines,
      (visualPath b.name t.1, Part.trust name lines) ∈ Dict.ofList (assigned datasetId active built) := by
  obtain ⟨page, -, -, name, lines, hparts, -⟩ := hrealised.trust
  have hlisted : (visualPath page.1 name, lines) ∈ trustParts (Dict.ofList (assigned datasetId active built)) := by
    rw [hparts]
    exact List.mem_singleton_self _
  have hassigned : (visualPath page.1 name, lines) ∈ trustParts (assigned datasetId active built) :=
    mem_filterMap_of_subset (fun e => mem_of_mem_ofList) hlisted
  rw [trustParts_assigned, List.mem_flatMap] at hassigned
  obtain ⟨b', hb', hmem⟩ := hassigned
  obtain ⟨t', ht', hentry⟩ := List.mem_map.mp hmem
  have ht' := Option.mem_toList.mp ht'
  obtain ⟨b₀, -, -, -, -, -, hother⟩ := exists_trust h hnamed
  have hone : ∀ b ∈ built, ∀ t, b.trust = some t → b.name = b₀.name := by
    intro b hb t ht
    by_contra hne
    rw [hother b hb hne] at ht
    cases ht
  have hsame : b' = b := List.inj_on_of_nodup_map hnodup hb' hb ((hone b' hb' t' ht').trans (hone b hb t ht).symm)
  rw [hsame, ht] at ht'
  rw [hsame, ← Option.some.inj ht'] at hentry
  rw [← hentry] at hlisted
  obtain ⟨trustName, hmem⟩ := mem_trustParts hlisted
  exact ⟨trustName, t.2, hmem⟩

/-- A part that has taken the place of another leaves the layout incomplete. -/
theorem apart_of_realised (h : IsReport unicode sha256 artifact delivered generatedDate tables notes built)
    (hnamed : Named artifact) {datasetId active : PyStr}
    (hrealised : Realised unicode artifact delivered (Dict.ofList (assigned datasetId active built))) :
    Apart built := by
  have hkeys := Dict.nodup_ofList (assigned datasetId active built)
  have hsub : ∀ e ∈ Dict.ofList (assigned datasetId active built), e ∈ assigned datasetId active built :=
    fun e => mem_of_mem_ofList
  obtain ⟨order, horder, hnodup, -⟩ := hrealised.pages
  have hlisted : order ∈ pageOrders (Dict.ofList (assigned datasetId active built)) := by
    rw [horder]
    exact List.mem_singleton_self order
  have hsame : order = built.map BuiltPage.name := by
    have hmem : order ∈ pageOrders (assigned datasetId active built) := mem_filterMap_of_subset hsub hlisted
    rw [pageOrders_assigned] at hmem
    exact List.mem_singleton.mp hmem
  rw [hsame] at hnodup
  have hvisuals := hrealised.visuals order hlisted
  rw [hsame, List.forall₂_map_right_iff] at hvisuals
  refine ⟨hnodup, fun b hb => ?_⟩
  obtain ⟨page, -, hshown, index, hpage⟩ :=
    exists_of_mem_forall₂ (forall₂_and hvisuals (forall₂_of_zipIdx h.pages)) hb
  have hfound : ∀ v ∈ visualParts (Dict.ofList (assigned datasetId active built)) b.name, v ∈ b.visuals := by
    intro v hv
    have hmem : v ∈ visualParts (assigned datasetId active built) b.name := mem_filterMap_of_subset hsub hv
    rw [visualParts_assigned, flatMap_of_nodup hnodup hb fun b' _ hne => if_neg hne, if_pos rfl] at hmem
    exact hmem
  have hperm : ((visualParts (Dict.ofList (assigned datasetId active built)) b.name).map VisualPart.name).Perm
      (b.visuals.map VisualPart.name) := by
    refine (List.subperm_of_subset (nodup_visualParts hkeys b.name) fun name hname => ?_).perm_of_length_le ?_
    · obtain ⟨v, hv, rfl⟩ := List.mem_map.mp hname
      exact List.mem_map_of_mem (hfound v hv)
    · rw [List.length_map, List.length_map, ← hshown.length_eq, ← hpage.visuals.length_eq, List.length_zipIdx]
  rw [BuiltPage.names, List.nodup_append]
  refine ⟨hperm.nodup_iff.mp (nodup_visualParts hkeys b.name), ?_, fun name hname name' hname' heq => ?_⟩
  · cases b.trust with
    | none => exact List.nodup_nil
    | some t => exact List.nodup_singleton _
  · obtain ⟨t, ht, rfl⟩ := List.mem_map.mp hname'
    obtain ⟨v, hv, rfl⟩ := List.mem_map.mp (hperm.mem_iff.mpr hname)
    obtain ⟨_, _, htrust⟩ := exists_trustPart h hnamed hrealised hnodup hb (Option.mem_toList.mp ht)
    have hentries := List.inj_on_of_nodup_map hkeys (mem_visualParts hv) htrust (by rw [heq])
    cases (Prod.mk.inj hentries).2

end Report

/-! ### The shape of the artifact -/

/-- A member under a key without surrogates is the same for both readers of the artifact. -/
theorem member_toJsonMembers {key : String} (hkey : (js key).any isSurrogate = false) (members : Members) :
    member (PyJson.toJsonMembers members) key = (get members key).map PyJson.toJson := by
  have hsame : ∀ k : PyStr, units k = js key ↔ k = py key := by
    intro k
    constructor
    · intro heq
      have hlone : k.any CodePoint.isLone = false := by
        rw [← heq] at hkey
        simp only [List.any_eq_false] at hkey ⊢
        intro p hp hlone
        cases p with
        | pair high low hhigh hlow => cases hlone
        | unit u => exact hkey u (List.mem_flatMap.mpr ⟨_, hp, List.mem_singleton_self u⟩) hlone
      rw [py, ← heq, codePoints_units hlone]
    · rintro rfl
      exact flatMap_units_codePoints (js key)
  rw [PyJson.toJsonMembers_eq_map, member, Frontmatter.get]
  induction members with
  | nil => rfl
  | cons m rest ih =>
      rw [List.map_cons, Dict.get?_cons, Dict.get?_cons, ih]
      by_cases hm : m.1 = py key
      · rw [if_pos hm, if_pos ((hsame _).mpr hm), Option.map_some]
      · rw [if_neg hm, if_neg fun heq => hm ((hsame _).mp heq)]

/-- A name that the shape asks for is a name for the generator. -/
theorem name_of_field {page : PyJson} {name : Text} (hne : name ≠ [])
    (h : page.toJson.field "name" = some (.str name)) :
    ∃ display, display ≠ [] ∧ get (membersOf page) "name" = some (.str display) := by
  cases page with
  | obj members =>
      rw [PyJson.toJson, Json.field, member_toJsonMembers (by decide)] at h
      obtain ⟨value, hvalue, hname⟩ := Option.map_eq_some_iff.mp h
      cases value with
      | str display =>
          refine ⟨display, fun hnil => hne ?_, hvalue⟩
          rw [hnil] at hname
          exact (Json.str.inj hname).symm
      | null | bool | number | nonFinite | arr | obj => cases hname
  | null | bool | number | nonFinite | str | arr => cases h

theorem named_of_shape {artifact : Members} (hshape : artifactProblems (PyJson.toJsonMembers artifact) = []) :
    Named artifact := by
  have hlayoutProblems := (artifactProblems_eq_nil hshape).2.2
  intro page hpage
  rw [pagesOfLayout] at hpage
  cases hlayout : layoutPages artifact with
  | none =>
      rw [hlayout] at hpage
      cases hpage
  | some found =>
      rw [hlayout, Option.map_some, Option.getD_some] at hpage
      simp only [layoutPages, Option.bind_eq_bind, Option.bind_eq_some_iff] at hlayout
      obtain ⟨layout, ⟨value, hvalue, hmembers⟩, hfound⟩ := hlayout
      cases value with
      | obj members =>
          cases hmembers
          cases hpages : get layout "pages" with
          | none => simp [hpages] at hfound
          | some listed =>
              cases listed with
              | arr pages =>
                  simp only [hpages, Option.some.injEq] at hfound
                  rw [← hfound] at hpage
                  have hmember : member (PyJson.toJsonMembers artifact) "layout" =
                      (get artifact "layout").map PyJson.toJson := member_toJsonMembers (by decide) artifact
                  rw [hvalue, Option.map_some] at hmember
                  have hfield : (PyJson.obj layout).toJson.field "pages" = some (.arr (pages.map PyJson.toJson)) := by
                    rw [PyJson.toJson, Json.field, member_toJsonMembers (by decide), hpages, Option.map_some,
                      PyJson.toJson, PyJson.toJsonItems_eq_map]
                  obtain ⟨name, hname, hne⟩ := names_of_layoutProblems hlayoutProblems hmember hfield _
                    (List.mem_map_of_mem hpage)
                  exact name_of_field hne hname
              | null | bool | number | nonFinite | str | obj => simp [hpages] at hfound
      | null | bool | number | nonFinite | str | arr => cases hmembers

/-! ### The report and its layout -/

section Layout

variable {artifact delivered : Members} {generatedDate : PyStr} {parts : Parts}

theorem slash_notMem_name (hsha : ∀ bytes, IsHexDigest (sha256 bytes)) {keys : List PyStr} {name : PyStr}
    (h : stableName sha256 keys = some name) : CodePoint.unit 0x2F ∉ name := by
  obtain ⟨bytes, -, rfl⟩ := Option.map_eq_some_iff.mp h
  have hhex : CodePoint.unit 0x2F ∉ (List.range 16).map fun n => CodePoint.unit (hexDigit n) := by decide
  exact fun hmem => hhex ((hsha bytes).2 _ (List.mem_of_mem_take hmem))

/-- Under names that are apart the parts are what was assigned. -/
theorem ofList_assigned (hsha : ∀ bytes, IsHexDigest (sha256 bytes)) {tables : Tables} {notes : List PyStr}
    {built : List BuiltPage} (h : IsReport unicode sha256 artifact delivered generatedDate tables notes built)
    (happart : Apart built) (datasetId active : PyStr) :
    Dict.ofList (assigned datasetId active built) = assigned datasetId active built := by
  refine Dict.ofList_eq_self (nodup_assigned happart fun b hb => ?_)
  obtain ⟨page, -, hpage⟩ := exists_of_mem_forall₂ h.pages hb
  exact slash_notMem_name hsha hpage.name

theorem namesApart_of_realised (hshape : artifactProblems (PyJson.toJsonMembers artifact) = [])
    (hparts : buildParts unicode sha256 artifact delivered generatedDate = some parts)
    (hrealised : Realised unicode artifact delivered parts) : NamesApart unicode sha256 artifact := by
  obtain ⟨tables, notes, built, datasetId, active, hreport, rfl⟩ := isReport_of_buildParts hparts
  exact (namesApart_iff hreport).mpr (apart_of_realised hreport (named_of_shape hshape) hrealised)

theorem realised_iff_of_namesApart (hsha : ∀ bytes, IsHexDigest (sha256 bytes))
    (hshape : artifactProblems (PyJson.toJsonMembers artifact) = [])
    (hparts : buildParts unicode sha256 artifact delivered generatedDate = some parts)
    (hnames : NamesApart unicode sha256 artifact) :
    Realised unicode artifact delivered parts ↔ Bucketed unicode artifact := by
  obtain ⟨tables, notes, built, datasetId, active, hreport, rfl⟩ := isReport_of_buildParts hparts
  have happart := (namesApart_iff hreport).mp hnames
  rw [ofList_assigned hsha hreport happart]
  exact realised_assigned_iff hreport (named_of_shape hshape) happart.pages datasetId active

/-- **A layout is realised in full exactly where no name is taken twice and every column named has a bucket.** -/
theorem layout_realised_iff (hsha : ∀ bytes, IsHexDigest (sha256 bytes))
    (hshape : artifactProblems (PyJson.toJsonMembers artifact) = [])
    (hparts : buildParts unicode sha256 artifact delivered generatedDate = some parts) :
    Realised unicode artifact delivered parts ↔ NamesApart unicode sha256 artifact ∧ Bucketed unicode artifact := by
  constructor
  · intro hrealised
    have hnames := namesApart_of_realised hshape hparts hrealised
    exact ⟨hnames, (realised_iff_of_namesApart hsha hshape hparts hnames).mp hrealised⟩
  · rintro ⟨hnames, hbucketed⟩
    exact (realised_iff_of_namesApart hsha hshape hparts hnames).mpr hbucketed

end Layout

def string (s : String) : PyJson := .str (py s)

def object (members : List (String × PyJson)) : PyJson := .obj (members.map fun m => (py m.1, m.2))

/-- A report of one bar chart, with its measure under the given member. -/
def clicksReport (encoding : String) : Members :=
  membersOf (object [("artifact_version", string "1"), ("id", string "ra-018f3c00"), ("title", string "Clicks"),
    ("queries", .arr [object [("name", string "pages"), ("system", string "gsc"),
      ("request", object [("dialect", string "api"), ("operation", string "query")]),
      ("validated_against", string "sha256:0"), ("backing", object [("mode", string "direct")])]]),
    ("semantics", object [("trust_notes", .arr [string "built on a draft"])]),
    ("layout", object [("designed_by", string "report-skill"),
      ("pages", .arr [object [("name", string "Overview"), ("visuals", .arr [object [("kind", string "bar"),
        ("registry_kind", string "bar"), ("table", string "pages"), ("x", string "page"),
        (encoding, string "clicks")]])]]),
      ("trust_element", object [("page", string "Overview"), ("content_from", string "trust_notes")])])])

def pagesSchema : Members :=
  membersOf (object [("dataset_id", string "d-1"), ("tables", .arr [object [("name", string "pages"),
    ("columns", .arr [object [("name", string "page")], object [("name", string "clicks")]])]])])

/-- The digests of the names of the report. -/
def reportDigest (bytes : List UInt8) : PyStr :=
  if some bytes = encodeUtf8 (py "ra-018f3c00\npage\nOverview") then
    py "a08d0863edd968f0c7bd8a5602cfb9bb245511009e930789a1ea1a2c6aaaa23c"
  else if some bytes = encodeUtf8 (py "ra-018f3c00\nvisual\nOverview\n0") then
    py "cf284f79f9258febbd52273fa91330eb7b79704753fc16d686d882d57cde7a62"
  else if some bytes = encodeUtf8 (py "ra-018f3c00\ntrust\nOverview") then
    py "e58a440fea61ab53cfc70f42fa1f1cfb138b5a428769408859e27c5ec599b3b5"
  else py "0000000000000000000000000000000000000000000000000000000000000000"

theorem isHexDigest_reportDigest (bytes : List UInt8) : IsHexDigest (reportDigest bytes) := by
  unfold reportDigest IsHexDigest
  repeat' split
  all_goals decide

theorem shape_clicksReport : artifactProblems (PyJson.toJsonMembers (clicksReport "y")) = [] ∧
    artifactProblems (PyJson.toJsonMembers (clicksReport "values")) = [] := by
  decide +kernel

theorem built_clicksReport :
    (buildParts asciiOnly reportDigest (clicksReport "y") pagesSchema (py "2026-07-29")).isSome = true ∧
      (buildParts asciiOnly reportDigest (clicksReport "values") pagesSchema (py "2026-07-29")).isSome = true := by
  decide +kernel

example : pagesSchema.map Prod.fst = [py "dataset_id", py "tables"] := by decide +kernel

theorem layout_realised_y : ∃ parts,
    buildParts asciiOnly reportDigest (clicksReport "y") pagesSchema (py "2026-07-29") = some parts ∧
      Realised asciiOnly (clicksReport "y") pagesSchema parts := by
  obtain ⟨parts, hparts⟩ := Option.isSome_iff_exists.mp built_clicksReport.1
  refine ⟨parts, hparts, (layout_realised_iff isHexDigest_reportDigest shape_clicksReport.1 hparts).mpr ⟨⟨?_, ?_⟩, ?_⟩⟩
  · decide +kernel
  · decide +kernel
  · unfold Bucketed
    decide +kernel

theorem layout_drops_values : artifactProblems (PyJson.toJsonMembers (clicksReport "values")) = [] ∧ ∃ parts,
    buildParts asciiOnly reportDigest (clicksReport "values") pagesSchema (py "2026-07-29") = some parts ∧
      ¬ Realised asciiOnly (clicksReport "values") pagesSchema parts := by
  obtain ⟨parts, hparts⟩ := Option.isSome_iff_exists.mp built_clicksReport.2
  refine ⟨shape_clicksReport.2, parts, hparts, fun hrealised => ?_⟩
  have hnames := namesApart_of_realised shape_clicksReport.2 hparts hrealised
  have hbucketed := (realised_iff_of_namesApart isHexDigest_reportDigest shape_clicksReport.2 hparts hnames).mp
    hrealised
  unfold Bucketed at hbucketed
  exact absurd hbucketed (by decide +kernel)

end ContextLayer.Pbir
