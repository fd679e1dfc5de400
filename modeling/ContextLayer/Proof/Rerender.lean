import ContextLayer.Proof.Rewrites

/-!
# A partial render is as good as a whole one

A system is a directory of its own, and a render of it neither reads nor writes outside. So the pins that are left out,
whose directories no mark has touched, stay rendered, and what is left to ask is whether those that have been rendered settle.
-/

namespace ContextLayer.Rerender

open Text PyText Render StableSort
open Statuses (Instruction applyAll planAll planOne writeAll writeText)

/-! ### Legal names -/

theorem mangleChar_of_legal {c : CodePoint} (h : isLegalChar c = true) : Naming.mangleChar c = [c] := by
  cases c with
  | pair => cases h
  | unit u =>
      have hlegal := of_decide_eq_true h
      have hupper : ¬ (0x41 ≤ u ∧ u ≤ 0x5A) := by
        rintro ⟨hle, hge⟩
        have hlow := UInt16.le_iff_toNat_le.mp hle
        have hhigh := UInt16.le_iff_toNat_le.mp hge
        rcases hlegal with ⟨ha, -⟩ | ⟨-, hz⟩ | rfl | rfl
        · have := UInt16.le_iff_toNat_le.mp ha
          simp only [UInt16.reduceToNat] at this hhigh
          omega
        · have := UInt16.le_iff_toNat_le.mp hz
          simp only [UInt16.reduceToNat] at this hlow
          omega
        · exact absurd hge (by decide)
        · exact absurd hle (by decide)
      rw [Naming.mangleChar, if_neg hupper, if_pos hlegal]

/-- Both manglings leave a legal name as it is. -/
theorem mangle_of_legal {name : PyStr} (h : isLegalSystem name = true) :
    Naming.mangle name = name ∧ mangleUnits name = name := by
  rw [isLegalSystem, Bool.and_eq_true, Bool.and_eq_true, List.all_eq_true] at h
  have hself : name.flatMap (fun c => [c]) = name := List.flatMap_singleton' name
  constructor
  · calc Naming.mangle name
        = name.flatMap fun c => [c] := List.flatMap_congr fun c hc => mangleChar_of_legal (h.1.1 c hc)
      _ = name := hself
  · calc mangleUnits name
        = name.flatMap fun c => [c] := List.flatMap_congr fun c hc => by
          cases c with
          | pair => cases h.1.1 _ hc
          | unit u => exact mangleChar_of_legal (h.1.1 _ hc)
      _ = name := hself

/-- A file lies below the directory of a system. -/
def Below (system path : PyStr) : Prop := systemDir system ++ py "/" <+: path

theorem eq_of_below {system system' path : PyStr} (hlegal : isLegalSystem system = true)
    (hlegal' : isLegalSystem system' = true) (h : Below system path) (h' : Below system' path) : system = system' := by
  have hmangle := mangle_eq_of_prefix h h'
  rwa [(mangle_of_legal hlegal).1, (mangle_of_legal hlegal').1] at hmangle

/-- The directory of a path below a system is the name of the system. -/
theorem directoryOf_of_below {system path : PyStr} (hlegal : isLegalSystem system = true) (h : Below system path) :
    directoryOf path = some system := by
  have hslash : py "/" = [slash] := by decide
  have hlength : (py "systems/").length = 8 := by decide
  obtain ⟨rest, rfl⟩ := h
  have hmangle := (mangle_of_legal hlegal).1
  have hnotMem : slash ∉ system := hmangle ▸ slash_notMem_mangle system
  have hne : system ≠ [] := by
    rintro rfl
    revert hlegal
    decide
  have hdrop : (systemDir system ++ py "/" ++ rest).drop 8 = system ++ slash :: rest := by
    rw [systemDir, hmangle, hslash, List.append_assoc, List.append_assoc, ← hlength, List.drop_left,
      List.singleton_append]
  have htake : (system ++ slash :: rest).takeWhile (· ≠ slash) = system := by
    have hall : ∀ c ∈ system, decide (c ≠ slash) = true := fun c hc =>
      decide_eq_true fun heq => hnotMem (heq ▸ hc)
    rw [List.takeWhile_append_of_pos hall, List.takeWhile_cons_of_neg (by simp), List.append_nil]
  have hprefix : py "systems/" <+: systemDir system ++ py "/" ++ rest := by
    rw [systemDir, List.append_assoc, List.append_assoc]
    exact List.prefix_append _ _
  rw [directoryOf, if_pos hprefix, hdrop]
  dsimp only
  rw [htake, if_pos ⟨hne, by rw [List.length_append, List.length_cons]; omega⟩]

/-! ### The status writes -/

section

variable {unicode : Unicode} {yaml : Yaml}

theorem writeAll_frame {planned : List (PyStr × PyStr)} {path : PyStr} (hpath : ∀ plan ∈ planned, plan.1 ≠ path)
    (files : Files) : (writeAll files planned).1 path = files path := by
  induction planned generalizing files with
  | nil => rfl
  | cons plan planned ih =>
      obtain ⟨doc, text⟩ := plan
      have hdoc : path ≠ doc := fun heq => hpath _ List.mem_cons_self heq.symm
      have hwrite : (writeText files doc text).1 path = files path := by
        rw [writeText]
        cases encodeUtf8 text <;> exact if_neg hdoc
      rw [writeAll]
      cases hresult : writeText files doc text with
      | mk files' ok =>
          rw [hresult] at hwrite
          cases ok
          · exact hwrite
          · exact (ih (fun plan hplan => hpath plan (List.mem_cons_of_mem _ hplan)) files').trans hwrite

theorem map_fst_planAll {files : Files} {is : List Instruction} {plans : List (PyStr × Option PyStr)}
    (h : planAll yaml files is = .ok plans) : plans.map Prod.fst = is.map Instruction.doc := by
  induction is generalizing plans with
  | nil =>
      cases h
      rfl
  | cons i is ih =>
      rw [planAll] at h
      cases hone : planOne yaml files i with
      | error failure =>
          rw [hone] at h
          cases h
      | ok text =>
          cases hall : planAll yaml files is with
          | error failure =>
              rw [hone, hall] at h
              cases h
          | ok rest =>
              rw [hone, hall] at h
              cases h
              rw [List.map_cons, List.map_cons, ih hall]

/-- No document is written but those that are named. -/
theorem applyAll_frame {files : Files} {is : List Instruction} {path : PyStr} (hpath : ∀ i ∈ is, i.doc ≠ path) :
    (applyAll yaml files is).1 path = files path := by
  rw [applyAll]
  cases hplans : planAll yaml files is with
  | error failure => rfl
  | ok plans =>
      have hdocs := map_fst_planAll hplans
      have hplanned : ∀ planned ∈ plans.filterMap fun plan => plan.2.map (Prod.mk plan.1), planned.1 ≠ path := by
        intro planned hplanned
        obtain ⟨plan, hplan, hwritten⟩ := List.mem_filterMap.mp hplanned
        obtain ⟨text, -, rfl⟩ := Option.map_eq_some_iff.mp hwritten
        obtain ⟨i, hi, hdoc⟩ := List.mem_map.mp (hdocs ▸ List.mem_map_of_mem hplan)
        exact hdoc ▸ hpath i hi
      have hframe := writeAll_frame hplanned files
      dsimp only
      cases hresult : writeAll files (plans.filterMap fun plan => plan.2.map (Prod.mk plan.1)) with
      | mk files' ok =>
          rw [hresult] at hframe
          cases ok <;> exact hframe

/-! ### One system among others -/

section

variable {s : Snapshot} {a a' b b' : Files}

theorem objectPath_below (system : PyStr) (o : SourceObject) (suffix : String) :
    Below system (objectPath system o suffix) :=
  ⟨Naming.mangle o.schema ++ (py "/" ++ (Naming.mangle o.name ++ py suffix)), by
    simp only [objectPath, schemaDir, List.append_assoc]⟩

theorem groupPath_below (system group : PyStr) (suffix : String) : Below system (groupPath system group suffix) :=
  ⟨group ++ py suffix, by simp only [groupPath, List.append_assoc]⟩

theorem notesPath_below (s : Snapshot) (schema : PyStr) : Below s.system (notesPath s schema) :=
  ⟨Naming.mangle schema ++ py "/_notes.md", by simp only [notesPath, schemaDir, List.append_assoc]⟩

theorem systemNotesPath_below (s : Snapshot) : Below s.system (systemNotesPath s) := by
  have hnotes : py "/_notes.md" = py "/" ++ py "_notes.md" := by decide
  rw [Below, systemNotesPath, hnotes, ← List.append_assoc]
  exact List.prefix_append _ _

theorem siblings_below {doc : PyStr × DocEntry} (hdoc : doc ∈ docsOf s) {path : PyStr} (hpath : path ∈ siblings s doc.2) :
    Below s.system path := by
  obtain ⟨-, o, -, rfl⟩ | ⟨-, schema, -, rfl⟩ | ⟨-, group, -, rfl⟩ | rfl := mem_docsOf.mp hdoc
  · obtain rfl := List.mem_singleton.mp hpath
    exact objectPath_below s.system o ".md"
  · obtain ⟨o, -, rfl⟩ := List.mem_map.mp hpath
    exact objectPath_below s.system o ".md"
  · obtain rfl := List.mem_singleton.mp hpath
    exact groupPath_below s.system group ".md"
  · rw [siblings] at hpath
    rcases List.mem_cons.mp hpath with rfl | hpath
    · exact systemNotesPath_below s
    · cases hclass : s.systemClass with
      | sql =>
          rw [hclass] at hpath
          rcases List.mem_append.mp hpath with hpath | hpath
          · obtain ⟨o, -, rfl⟩ := List.mem_map.mp hpath
            exact objectPath_below s.system o ".md"
          · obtain ⟨schema, -, rfl⟩ := List.mem_map.mp hpath
            exact notesPath_below s schema
      | api =>
          rw [hclass] at hpath
          obtain ⟨group, -, rfl⟩ := List.mem_map.mp hpath
          exact groupPath_below s.system group ".md"

/-- A document depends on the directory of its system alone. -/
theorem docBytes_congr {doc : PyStr × DocEntry} (hdoc : doc ∈ docsOf s)
    (h : ∀ path, Below s.system path → a path = b path) : docBytes unicode yaml s a doc = docBytes unicode yaml s b doc := by
  have hreadable : (∀ path ∈ siblings s doc.2, unreadable yaml a path = false) ↔
      ∀ path ∈ siblings s doc.2, unreadable yaml b path = false := by
    refine forall₂_congr fun path hpath => ?_
    rw [unreadable, unreadable, h path (siblings_below hdoc hpath)]
  have hbody : (fun mode => bodyFor unicode s (humanInfo yaml a) mode doc.2) =
      fun mode => bodyFor unicode s (humanInfo yaml b) mode doc.2 := by
    funext mode
    refine bodyFor_congr hdoc (fun path hpath => ?_) mode
    rw [humanInfo, humanInfo, h path (siblings_below hdoc hpath)]
  rw [docBytes, docBytes, hbody, h doc.1 (isMachineFile_of_mem hdoc).2]
  exact if_congr hreadable rfl rfl

/-- **A render stays in its directory**: it is one of any tree with that directory. -/
theorem rendered_congr (h : Rendered unicode yaml s a b) (ha : ∀ path, Below s.system path → a' path = a path)
    (hb : ∀ path, Below s.system path → b' path = b path) (hout : ∀ path, ¬ Below s.system path → b' path = a' path) :
    Rendered unicode yaml s a' b' where
  nodup := h.nodup
  isSome doc hdoc := by
    rw [docBytes_congr hdoc ha]
    exact h.isSome doc hdoc
  written doc hdoc := by
    rw [docBytes_congr hdoc ha, hb _ (isMachineFile_of_mem hdoc).2]
    exact h.written doc hdoc
  others path hpath := by
    by_cases hbelow : Below s.system path
    · rw [hb path hbelow, h.others path hpath, ha path hbelow]
    · rw [hout path hbelow, if_neg fun hgen => hbelow hgen.1]

end

/-! ### All systems -/

section

variable {pins : List Snapshot} {files tree : Files}

/-- Each system has been rendered in its directory. -/
theorem rendered_of_tree (hlegal : ∀ s ∈ pins, isLegalSystem s.system = true)
    (h : renderTree unicode yaml pins files = some tree) {s : Snapshot} (hs : s ∈ pins) :
    ∃ start finish, Rendered unicode yaml s start finish ∧ (∀ path, Below s.system path → start path = files path) ∧
      ∀ path, Below s.system path → tree path = finish path := by
  obtain ⟨hnodup, between, hbetween, hboot⟩ := renderTree_eq_some h
  obtain ⟨before, after, hsplit⟩ := List.append_of_mem (mem_sortOn.mpr hs : s ∈ StableSort.sortOn Snapshot.system pins)
  have hsystems : ((before ++ s :: after).map Snapshot.system).Nodup := by
    rw [← hsplit]
    exact (sortOn_perm.map _).nodup_iff.mpr hnodup
  have hmem : ∀ s' ∈ before ++ s :: after, s' ∈ pins := fun s' hs' => mem_sortOn.mp (hsplit ▸ hs')
  rw [List.map_append, List.map_cons, List.nodup_append] at hsystems
  have hafter : ∀ s' ∈ after, s'.system ≠ s.system := fun s' hs' heq =>
    (List.nodup_cons.mp hsystems.2.1).1 (heq ▸ List.mem_map_of_mem hs')
  have hbefore : ∀ s' ∈ before, s'.system ≠ s.system := fun s' hs' heq =>
    hsystems.2.2 _ (List.mem_map_of_mem hs') _ List.mem_cons_self heq
  rw [hsplit] at hbetween
  obtain ⟨start, finish, hstart, hrendered, hfinish⟩ := run_last hbetween fun s' hs' hmangle => by
    rw [(mangle_of_legal (hlegal s' (hmem s' (List.mem_append_right _ (List.mem_cons_of_mem s hs'))))).1,
      (mangle_of_legal (hlegal s hs)).1] at hmangle
    exact hafter s' hs' hmangle
  refine ⟨start, finish, hrendered, fun path hpath => run_untouched hstart ?_, fun path hpath => ?_⟩
  · rintro ⟨s', hs', hbelow, -⟩
    exact hbefore s' hs' (eq_of_below (hlegal s' (hmem s' (List.mem_append_left _ hs'))) (hlegal s hs) hbelow hpath)
  · rw [bootstrap_untouched hboot hpath]
    exact hfinish path hpath

theorem bootstrapFile_ne_none {path text : PyStr} (h : bootstrapFile path text files = some tree) : tree path ≠ none := by
  rw [bootstrapFile] at h
  cases hfile : files path with
  | some bytes =>
      rw [hfile] at h
      obtain rfl := Option.some.inj h
      rw [hfile]
      exact nofun
  | none =>
      rw [hfile] at h
      obtain ⟨bytes, -, rfl⟩ := Option.map_eq_some_iff.mp h
      rw [Function.update_self]
      exact nofun

theorem bootstrapFile_eq_self {path text : PyStr} (h : files path ≠ none) : bootstrapFile path text files = some files := by
  obtain ⟨bytes, hbytes⟩ := Option.ne_none_iff_exists'.mp h
  rw [bootstrapFile, hbytes]

/-- The two files that are there from the first render on. -/
def HasRoot (files : Files) : Prop := files (py "index.md") ≠ none ∧ files (py "conventions.md") ≠ none

theorem hasRoot_of_tree (h : renderTree unicode yaml pins files = some tree) : HasRoot tree := by
  obtain ⟨-, between, -, hboot⟩ := renderTree_eq_some h
  obtain ⟨rooted, hrooted, hboot⟩ := Option.bind_eq_some_iff.mp hboot
  refine ⟨?_, bootstrapFile_ne_none hboot⟩
  rcases bootstrapFile_spec hboot (py "index.md") with heq | ⟨-, heq⟩
  · rw [heq]
    exact bootstrapFile_ne_none hrooted
  · exact absurd heq (by decide)

theorem foldlM_eq_self (h : ∀ s ∈ pins, Rendered unicode yaml s files files) :
    pins.foldlM (renderSystem unicode yaml) files = some files := by
  induction pins with
  | nil => rfl
  | cons s pins ih =>
      rw [List.foldlM_cons, renderSystem_iff.mpr (h s List.mem_cons_self)]
      exact ih fun s' hs' => h s' (List.mem_cons_of_mem s hs')

theorem renderTree_valid (h : renderTree unicode yaml pins files = some tree) :
    (∀ s ∈ pins, (s.objects.map SourceObject.identity).Nodup) ∧ (pins.map Snapshot.system).Nodup := by
  by_contra hinvalid
  rw [renderTree, if_neg hinvalid] at h
  cases h

/-- **A render changes nothing** exactly where it changes nothing of each system. -/
theorem renderTree_eq_self_iff (hlegal : ∀ s ∈ pins, isLegalSystem s.system = true) :
    renderTree unicode yaml pins files = some files ↔
      ((∀ s ∈ pins, (s.objects.map SourceObject.identity).Nodup) ∧ (pins.map Snapshot.system).Nodup) ∧ HasRoot files ∧
        ∀ s ∈ pins, Rendered unicode yaml s files files := by
  constructor
  · intro h
    refine ⟨renderTree_valid h, hasRoot_of_tree h, fun s hs => ?_⟩
    obtain ⟨start, finish, hrendered, hstart, hfinish⟩ := rendered_of_tree hlegal h hs
    exact rendered_congr hrendered (fun path hpath => (hstart path hpath).symm) hfinish fun _ _ => rfl
  · rintro ⟨hvalid, ⟨hindex, hconventions⟩, hrendered⟩
    rw [renderTree, if_pos hvalid]
    dsimp only
    rw [foldlM_eq_self fun s hs => hrendered s (mem_sortOn.mp hs), Option.bind_some, bootstrap,
      bootstrapFile_eq_self hindex, Option.bind_some, bootstrapFile_eq_self hconventions]

end

/-! ### The stages -/

section

variable {pins changed : List Snapshot} {scan : Scan.ScanResult} {files tree : Files} {s : Snapshot}

theorem mem_updatePins : s ∈ updatePins pins changed ↔
    s ∈ pins ∧ s.system ∉ changed.map Snapshot.system ∨ s ∈ changed := by
  rw [updatePins, List.mem_append, List.mem_filter, decide_eq_true_eq]

theorem nodup_updatePins (hpins : (pins.map Snapshot.system).Nodup) (hchanged : (changed.map Snapshot.system).Nodup) :
    ((updatePins pins changed).map Snapshot.system).Nodup := by
  rw [updatePins, List.map_append, List.nodup_append]
  refine ⟨hpins.sublist (List.filter_sublist.map _), hchanged, ?_⟩
  rintro system hkept system' hnew rfl
  obtain ⟨s, hs, rfl⟩ := List.mem_map.mp hkept
  exact of_decide_eq_true (List.mem_filter.mp hs).2 hnew

theorem mem_renderInputs : s ∈ renderInputs pins changed scan ↔ s ∈ changed ∨
    s ∈ updatePins pins changed ∧ mangleUnits s.system ∈ touchedDirectories changed (instructionsOf scan) := by
  rw [renderInputs, List.mem_append, foreignPins, List.mem_filter, decide_eq_true_eq]

theorem updatePins_of_renderInputs (hs : s ∈ renderInputs pins changed scan) : s ∈ updatePins pins changed :=
  (mem_renderInputs.mp hs).elim (fun hs => mem_updatePins.mpr (.inr hs)) And.left

/-- A pin that is left out has no document that is marked. -/
theorem unmarked_of_notMem (hlegal : ∀ s ∈ pins ++ changed, isLegalSystem s.system = true)
    (hs : s ∈ updatePins pins changed) (hout : s ∉ renderInputs pins changed scan) {i : Instruction}
    (hi : i ∈ instructionsOf scan) : ¬ Below s.system i.doc := by
  rw [mem_renderInputs, not_or, not_and] at hout
  obtain ⟨hpin, hnew⟩ := (mem_updatePins.mp hs).resolve_right hout.1
  have hlegals := hlegal s (List.mem_append_left _ hpin)
  intro hbelow
  refine hout.2 hs (List.mem_filter.mpr ⟨?_, decide_eq_true ?_⟩)
  · rw [(mangle_of_legal hlegals).2]
    exact List.mem_filterMap.mpr ⟨i, hi, directoryOf_of_below hlegals hbelow⟩
  · rw [(mangle_of_legal hlegals).2]
    intro hmem
    obtain ⟨s', hs', heq⟩ := List.mem_map.mp hmem
    rw [(mangle_of_legal (hlegal s' (List.mem_append_right _ hs'))).2] at heq
    exact hnew (heq ▸ List.mem_map_of_mem hs')

theorem rerender_eq_some (h : rerender unicode yaml pins changed scan files = some tree) :
    renderTree unicode yaml (renderInputs pins changed scan) (applyAll yaml files (instructionsOf scan)).1 = some tree := by
  rw [rerender] at h
  cases hmarks : applyAll yaml files (instructionsOf scan) with
  | mk marked result =>
      rw [hmarks] at h
      cases result with
      | error failure => cases h
      | ok report => exact h

/-- A system that is rendered has been rendered once, from the tree with the marks. -/
theorem rendered_input (hlegal : ∀ s ∈ updatePins pins changed, isLegalSystem s.system = true)
    (h : rerender unicode yaml pins changed scan files = some tree) (hs : s ∈ renderInputs pins changed scan) :
    Rendered unicode yaml s tree tree ↔ Settles unicode yaml (applyAll yaml files (instructionsOf scan)).1 s := by
  classical
  set marked := (applyAll yaml files (instructionsOf scan)).1
  obtain ⟨start, finish, hrendered, hstart, hfinish⟩ :=
    rendered_of_tree (fun s hs => hlegal s (updatePins_of_renderInputs hs)) (rerender_eq_some h) hs
  let alone : Files := fun path => if Below s.system path then tree path else marked path
  have hbelow : ∀ path, Below s.system path → alone path = tree path := fun path hpath => if_pos hpath
  have hfirst : Rendered unicode yaml s marked alone :=
    rendered_congr hrendered (fun path hpath => (hstart path hpath).symm)
      (fun path hpath => (hbelow path hpath).trans (hfinish path hpath)) fun path hpath => if_neg hpath
  rw [← rendered_again_iff hfirst]
  constructor
  · intro hagain
    exact rendered_congr hagain hbelow hbelow fun _ _ => rfl
  · intro hagain
    have hbelow' := fun path hpath => (hbelow path hpath).symm
    exact rendered_congr hagain hbelow' hbelow' fun _ _ => rfl

/-- And one that is left out is as it was. -/
theorem rendered_rest (hlegal : ∀ s ∈ pins ++ changed, isLegalSystem s.system = true)
    (hnodup : ((updatePins pins changed).map Snapshot.system).Nodup)
    (h₀ : renderTree unicode yaml pins files = some files)
    (h : rerender unicode yaml pins changed scan files = some tree) (hs : s ∈ updatePins pins changed)
    (hout : s ∉ renderInputs pins changed scan) : Rendered unicode yaml s tree tree := by
  have hall : ∀ s ∈ updatePins pins changed, isLegalSystem s.system = true := fun s hs =>
    hlegal s (List.mem_append.mpr ((mem_updatePins.mp hs).imp_left And.left))
  have hpin : s ∈ pins :=
    ((mem_updatePins.mp hs).resolve_right fun hs => hout (mem_renderInputs.mpr (.inl hs))).1
  have hbefore := ((renderTree_eq_self_iff fun s hs => hlegal s (List.mem_append_left _ hs)).mp h₀).2.2 s hpin
  obtain ⟨-, between, hbetween, hboot⟩ := renderTree_eq_some (rerender_eq_some h)
  have hsame : ∀ path, Below s.system path → tree path = files path := by
    intro path hpath
    calc tree path
        = between path := bootstrap_untouched hboot hpath
      _ = (applyAll yaml files (instructionsOf scan)).1 path := by
          refine run_untouched hbetween ?_
          rintro ⟨s', hs', hbelow, -⟩
          have hinput := mem_sortOn.mp hs'
          have hpins := updatePins_of_renderInputs hinput
          have hsystem := eq_of_below (hall s' hpins) (hall s hs) hbelow hpath
          exact hout (List.inj_on_of_nodup_map hnodup hpins hs hsystem ▸ hinput)
      _ = files path := applyAll_frame fun i hi heq => unmarked_of_notMem hlegal hs hout hi (heq ▸ hpath)
  exact rendered_congr hbefore hsame hsame fun _ _ => rfl

/-- Each document of a tree that is rendered shows what its human documents say. -/
theorem isComplete_of_settled (h : renderTree unicode yaml pins tree = some tree)
    (hlegal : ∀ s ∈ pins, isLegalSystem s.system = true) : IsComplete unicode yaml pins tree := by
  refine ⟨h, fun s hs plan hplan doc hdoc => ?_⟩
  have hrendered := ((renderTree_eq_self_iff hlegal).mp h).2.2 s hs
  obtain ⟨rfl, -⟩ := expectedDocs_eq_some.mp hplan
  obtain ⟨bytes, hbytes⟩ := Option.isSome_iff_exists.mp (hrendered.isSome doc hdoc)
  obtain ⟨date, body, hbody, htext⟩ := writeMachine_spec (writeMachine_of_docBytes hbytes)
  refine ⟨bytes, date, (hrendered.written doc hdoc).trans hbytes, ?_⟩
  rw [Version.Bears, Version.text, htext]
  exact congrArg (fun body : Option PyStr => newlines (headFor unicode s doc.2 date ++ body.getD [])) hbody.symm

theorem settled_iff (hlegal : ∀ s ∈ pins ++ changed, isLegalSystem s.system = true)
    (h₀ : renderTree unicode yaml pins files = some files)
    (h : rerender unicode yaml pins changed scan files = some tree) :
    renderTree unicode yaml (updatePins pins changed) tree = some tree ↔
      ∀ s ∈ renderInputs pins changed scan, Rendered unicode yaml s tree tree := by
  have hall : ∀ s ∈ updatePins pins changed, isLegalSystem s.system = true := fun s hs =>
    hlegal s (List.mem_append.mpr ((mem_updatePins.mp hs).imp_left And.left))
  have hvalid₀ := ((renderTree_eq_self_iff fun s hs => hlegal s (List.mem_append_left _ hs)).mp h₀).1
  have hinputs := renderTree_valid (rerender_eq_some h)
  have hnew : ∀ s ∈ changed, s ∈ renderInputs pins changed scan := fun s hs => mem_renderInputs.mpr (.inl hs)
  have hchanged : (changed.map Snapshot.system).Nodup :=
    hinputs.2.sublist ((List.sublist_append_left _ _).map _)
  have hnodup := nodup_updatePins hvalid₀.2 hchanged
  rw [renderTree_eq_self_iff hall]
  constructor
  · rintro ⟨-, -, hrendered⟩ s hs
    exact hrendered s (updatePins_of_renderInputs hs)
  · intro hrendered
    refine ⟨⟨fun s hs => ?_, hnodup⟩, hasRoot_of_tree (rerender_eq_some h), fun s hs => ?_⟩
    · rcases mem_updatePins.mp hs with ⟨hs, -⟩ | hs
      · exact hvalid₀.1 s hs
      · exact hinputs.1 s (hnew s hs)
    · by_cases hinput : s ∈ renderInputs pins changed scan
      · exact hrendered s hinput
      · exact rendered_rest hlegal hnodup h₀ h hs hinput

/-- **The partial render is a whole one** exactly where each system that is rendered settles. -/
theorem isComplete_iff (hlegal : ∀ s ∈ pins ++ changed, isLegalSystem s.system = true)
    (h₀ : renderTree unicode yaml pins files = some files)
    (h : rerender unicode yaml pins changed scan files = some tree) :
    IsComplete unicode yaml (updatePins pins changed) tree ↔
      ∀ s ∈ renderInputs pins changed scan, Settles unicode yaml (applyAll yaml files (instructionsOf scan)).1 s := by
  have hall : ∀ s ∈ updatePins pins changed, isLegalSystem s.system = true := fun s hs =>
    hlegal s (List.mem_append.mpr ((mem_updatePins.mp hs).imp_left And.left))
  have hsettled := settled_iff hlegal h₀ h
  constructor
  · intro hcomplete s hs
    exact (rendered_input hall h hs).mp (hsettled.mp hcomplete.settled s hs)
  · intro hsettles
    exact isComplete_of_settled (hsettled.mpr fun s hs => (rendered_input hall h hs).mpr (hsettles s hs)) hall

end

end

/-! ### First renders -/

def noScan : Scan.ScanResult := ⟨[], [], [], [], []⟩

theorem rerender_noScan (s : Snapshot) (files : Files) :
    rerender unicode yaml [] [s] noScan files = renderTree unicode yaml [s] files := by
  have hpins : foreignPins (updatePins [] [s]) [s] (instructionsOf noScan) = [] :=
    List.filter_eq_nil_iff.mpr fun p _ => by simp [noScan, instructionsOf, touchedDirectories]
  change renderTree unicode yaml ([s] ++ foreignPins (updatePins [] [s]) [s] (instructionsOf noScan)) files = _
  rw [hpins, List.append_nil]

theorem renderTree_rootFiles (yaml : Yaml) : renderTree asciiOnly yaml [] rootFiles = some rootFiles := rfl

theorem isComplete_events : ∃ tree,
    rerender asciiOnly (eventsYaml none) [] [events none "2026-07-10"] noScan rootFiles = some tree ∧
      IsComplete asciiOnly (eventsYaml none) (updatePins [] [events none "2026-07-10"]) tree := by
  obtain ⟨tree, -, -, -, htree, -⟩ := exists_runs isSome_renderTwice.1
  rw [← rerender_noScan] at htree
  have hlegal : ∀ s ∈ [events none "2026-07-10"], isLegalSystem s.system = true :=
    List.forall_mem_singleton.mpr (by decide)
  refine ⟨tree, htree, (isComplete_iff hlegal (renderTree_rootFiles _) htree).mpr fun s hs => ?_⟩
  obtain rfl : s = events none "2026-07-10" := List.mem_singleton.mp hs
  exact ⟨fun _ _ _ _ _ _ => rfl, fun hclass => nomatch hclass⟩

/-- A table that is called `index`. -/
def indexTable : SourceObject :=
  { ordersTable [] with
    name := py "index"
    schemaHash := py "sha256:619478467aa623e22cf670e6effdcf2754a788201f0228b5238a447a31e4c50a"
    name_ne := by decide
    schemaHash_pattern := by rw [py_ofList]; decide }

def indexed : Snapshot := demoSnapshot [indexTable]

example : objectPath (py "demo") indexTable ".md" = schemaIndexPath (py "demo") (py "public") := by decide +kernel

/-- The index of the schema takes itself for the human document of the table, once it is there. -/
theorem not_isComplete_index : isLegalSystem indexed.system = true ∧ ∃ tree,
    rerender asciiOnly (planYaml indexed (py "2026-07-10")) [] [indexed] noScan rootFiles = some tree ∧
      ¬ IsComplete asciiOnly (planYaml indexed (py "2026-07-10")) (updatePins [] [indexed]) tree := by
  have hlegal : ∀ s ∈ updatePins [] [indexed], isLegalSystem s.system = true :=
    List.forall_mem_singleton.mpr (by decide)
  have hrenders : (rerender asciiOnly (planYaml indexed (py "2026-07-10")) [] [indexed] noScan rootFiles).isSome := by
    rw [rerender_noScan]
    delta renderTree renderSystem renderDoc headFor fieldsFor identityFields bodyFor objectBody objectHead objectKeys
      objectTail foreignTable columnTable checksSection schemaIndexBody sqlIndexBody systemIndexBody sourceProperties
    repeat rw [py_ofList]
    decide +kernel
  obtain ⟨tree, htree⟩ := Option.isSome_iff_exists.mp hrenders
  refine ⟨hlegal indexed List.mem_cons_self, tree, htree, fun hcomplete => ?_⟩
  have hinput : indexed ∈ renderInputs [] [indexed] noScan := List.mem_cons_self
  have hrendered := (settled_iff hlegal (renderTree_rootFiles _) htree).mp hcomplete.settled indexed hinput
  have hsettles := (rendered_input hlegal htree hinput).mp hrendered
  have hnone : rootFiles (schemaIndexPath (py "demo") (py "public")) = none := by decide
  -- no file is there to keep a date of
  have hstamp : NextStamp asciiOnly (planYaml indexed (py "2026-07-10")) rootFiles indexed (indexDoc indexed indexTable)
      (indexed.capturedAt.take 10) :=
    .inr ⟨fun _ ⟨_, hbytes, _⟩ => Option.some_ne_none _ (hbytes.symm.trans hnone), rfl⟩
  have hsame := hsettles.same rfl indexTable List.mem_cons_self (by decide) _ hstamp
  have hhuman : (humanInfo (planYaml indexed (py "2026-07-10")) rootFiles
      (objectPath (py "demo") indexTable ".md")).exists? = false := by decide
  exact Bool.false_ne_true (hhuman.symm.trans hsame.exists?)

end ContextLayer.Rerender
