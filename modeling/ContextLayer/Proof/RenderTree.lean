import ContextLayer.Proof.Render
import ContextLayer.Proof.Snapshot

/-!
# Whose documents are left

Systems are rendered one after another, and a system that shares its directory with a later one loses what it
wrote: the later one writes over it, or deletes it.
-/

namespace ContextLayer.Render

open Text StableSort PyText

variable {unicode : Unicode} {yaml : Yaml}

/-! ### Directories -/

theorem mangle_eq_of_prefix {a b path : PyStr} (ha : systemDir a ++ py "/" <+: path)
    (hb : systemDir b ++ py "/" <+: path) : Naming.mangle a = Naming.mangle b := by
  have hslash : py "/" = [slash] := by decide
  obtain ⟨u, rfl⟩ := ha
  obtain ⟨v, hv⟩ := hb
  rw [systemDir, systemDir, hslash] at hv
  simp only [List.append_assoc, List.singleton_append] at hv
  exact (append_mark_inj (slash_notMem_mangle b) (slash_notMem_mangle a) (List.append_cancel_left hv)).1.symm

theorem prefix_of_mangle_eq {a b path : PyStr} (h : Naming.mangle a = Naming.mangle b)
    (ha : systemDir a ++ py "/" <+: path) : systemDir b ++ py "/" <+: path := by
  rwa [systemDir, ← h]

theorem exists_last {α : Type} {P : α → Prop} {l : List α} (h : ∃ a ∈ l, P a) :
    ∃ before a after, l = before ++ a :: after ∧ P a ∧ ∀ b ∈ after, ¬ P b := by
  induction l with
  | nil => obtain ⟨a, ha, -⟩ := h; cases ha
  | cons a l ih =>
      by_cases hlater : ∃ b ∈ l, P b
      · obtain ⟨before, b, after, rfl, hb, hafter⟩ := ih hlater
        exact ⟨a :: before, b, after, rfl, hb, hafter⟩
      · obtain ⟨b, hb, hP⟩ := h
        obtain rfl | hb := List.mem_cons.mp hb
        · exact ⟨[], b, l, rfl, hP, fun c hc hPc => hlater ⟨c, hc, hPc⟩⟩
        · exact absurd ⟨b, hb, hP⟩ hlater

/-! ### One system after another -/

section

variable {s : Snapshot} {files files' : Files}

/-- A system touches its own machine files only. -/
theorem Rendered.untouched (h : Rendered unicode yaml s files files') {path : PyStr}
    (hpath : ¬ (systemDir s.system ++ py "/" <+: path ∧ isMachineFile path = true)) :
    files' path = files path := by
  rw [h.others path, if_neg hpath]
  intro hmem
  obtain ⟨doc, hdoc, rfl⟩ := List.mem_map.mp hmem
  exact hpath (isMachineFile_of_mem hdoc).symm

theorem run_untouched {systems : List Snapshot}
    (h : systems.foldlM (renderSystem unicode yaml) files = some files') {path : PyStr}
    (hpath : ¬ Generated systems path) : files' path = files path := by
  induction systems generalizing files with
  | nil =>
      obtain rfl := Option.some.inj h
      rfl
  | cons s systems ih =>
      obtain ⟨between, hbetween, h⟩ := Option.bind_eq_some_iff.mp h
      rw [ih h fun ⟨s', hs', hgen⟩ => hpath ⟨s', List.mem_cons_of_mem s hs', hgen⟩]
      exact (renderSystem_iff.mp hbetween).untouched fun hgen => hpath ⟨s, List.mem_cons_self, hgen⟩

/-- The last system of a directory leaves what there is of its machine files. -/
theorem run_last {before after : List Snapshot}
    (h : (before ++ s :: after).foldlM (renderSystem unicode yaml) files = some files')
    (hafter : ∀ s' ∈ after, Naming.mangle s'.system ≠ Naming.mangle s.system) :
    ∃ start finish, before.foldlM (renderSystem unicode yaml) files = some start ∧
      Rendered unicode yaml s start finish ∧
        ∀ path, systemDir s.system ++ py "/" <+: path → files' path = finish path := by
  rw [List.foldlM_append] at h
  obtain ⟨start, hstart, h⟩ := Option.bind_eq_some_iff.mp h
  obtain ⟨finish, hfinish, h⟩ := Option.bind_eq_some_iff.mp h
  refine ⟨start, finish, hstart, renderSystem_iff.mp hfinish, fun path hpath => ?_⟩
  refine run_untouched h fun ⟨s', hs', hdir, _⟩ => hafter s' hs' ?_
  exact mangle_eq_of_prefix hdir hpath

theorem bootstrapFile_spec {path text : PyStr} (h : bootstrapFile path text files = some files') (p : PyStr) :
    files' p = files p ∨ files p = none ∧ p = path := by
  unfold bootstrapFile at h
  cases hold : files path with
  | some bytes =>
      rw [hold] at h
      obtain rfl := Option.some.inj h
      exact .inl rfl
  | none =>
      rw [hold] at h
      obtain ⟨bytes, -, rfl⟩ := Option.map_eq_some_iff.mp h
      by_cases hp : p = path
      · exact .inr ⟨hp ▸ hold, hp⟩
      · exact .inl (Function.update_of_ne hp _ _)

theorem bootstrap_spec {systems : List PyStr} (h : bootstrap systems files = some files') (p : PyStr) :
    files' p = files p ∨ files p = none ∧ p ∈ [py "index.md", py "conventions.md"] := by
  obtain ⟨between, hbetween, h⟩ := Option.bind_eq_some_iff.mp h
  obtain hfirst | ⟨hfirst, rfl⟩ := bootstrapFile_spec hbetween p
  · obtain hlast | ⟨hlast, rfl⟩ := bootstrapFile_spec h p
    · exact .inl (hlast.trans hfirst)
    · exact .inr ⟨hfirst ▸ hlast, List.mem_cons_of_mem _ List.mem_cons_self⟩
  · exact .inr ⟨hfirst, List.mem_cons_self⟩

theorem bootstrap_untouched {systems : List PyStr} (h : bootstrap systems files = some files')
    {system path : PyStr} (hpath : systemDir system ++ py "/" <+: path) : files' path = files path := by
  refine (bootstrap_spec h path).resolve_right fun ⟨_, hmem⟩ => ?_
  obtain ⟨rest, rfl⟩ := hpath
  have hstart : py "systems/" = .unit 0x73 :: py "ystems/" := by decide
  have hall : ∀ p ∈ [py "index.md", py "conventions.md"], p.head? ≠ some (.unit 0x73) := by decide
  exact hall _ hmem (by rw [systemDir, hstart]; rfl)

end

/-- A render, system by system. -/
theorem renderTree_eq_some {snapshots : List Snapshot} {files files' : Files}
    (h : renderTree unicode yaml snapshots files = some files') :
    (snapshots.map Snapshot.system).Nodup ∧ ∃ between,
      (sortOn Snapshot.system snapshots).foldlM (renderSystem unicode yaml) files = some between ∧
        bootstrap ((sortOn Snapshot.system snapshots).map Snapshot.system) between = some files' := by
  unfold renderTree at h
  by_cases hvalid : (∀ s ∈ snapshots, (s.objects.map SourceObject.identity).Nodup) ∧
      (snapshots.map Snapshot.system).Nodup
  · rw [if_pos hvalid] at h
    exact ⟨hvalid.2, Option.bind_eq_some_iff.mp h⟩
  · rw [if_neg hvalid] at h
    cases h

/-! ### What is left -/

section

variable {snapshots : List Snapshot} {files files' : Files}

/-- The last system of a directory, and what it found and left. -/
theorem last_of_tree (h : renderTree unicode yaml snapshots files = some files') {s : Snapshot}
    (hs : s ∈ snapshots) : ∃ last ∈ snapshots, Naming.mangle last.system = Naming.mangle s.system ∧
      s.system ≤ last.system ∧
      (∀ s' ∈ snapshots, Naming.mangle s'.system = Naming.mangle s.system → s'.system ≤ last.system) ∧
      ∃ start finish, (∀ path, isMachineFile path = false → start path = files path) ∧
        Rendered unicode yaml last start finish ∧
          ∀ path, systemDir s.system ++ py "/" <+: path → files' path = finish path := by
  obtain ⟨hnodup, between, hbetween, hboot⟩ := renderTree_eq_some h
  obtain ⟨before, last, after, hsplit, hmangle, hafter⟩ :=
    exists_last (P := fun s' : Snapshot => Naming.mangle s'.system = Naming.mangle s.system)
      (l := sortOn Snapshot.system snapshots) ⟨s, mem_sortOn.mpr hs, rfl⟩
  have hmem : ∀ s', s' ∈ snapshots ↔ s' ∈ before ++ last :: after := fun s' => by
    rw [← hsplit, mem_sortOn]
  have hsorted : (sortOn Snapshot.system snapshots).Pairwise fun a b => a.system ≤ b.system := sortOn_pairwise
  rw [hsplit] at hsorted
  have hle : ∀ s' ∈ snapshots, Naming.mangle s'.system = Naming.mangle s.system → s'.system ≤ last.system := by
    intro s' hs' hmangle'
    obtain hs' | hs' := List.mem_append.mp ((hmem s').mp hs')
    · exact (List.pairwise_append.mp hsorted).2.2 s' hs' last List.mem_cons_self
    · obtain rfl | hs' := List.mem_cons.mp hs'
      · exact le_refl _
      · exact absurd hmangle' (hafter s' hs')
  rw [hsplit] at hbetween
  obtain ⟨start, finish, hstart, hrendered, hfinish⟩ :=
    run_last hbetween fun s' hs' heq => hafter s' hs' (heq.trans hmangle)
  refine ⟨last, (hmem last).mpr (List.mem_append_right _ List.mem_cons_self), hmangle, hle s hs rfl, hle,
    start, finish, fun path hpath => run_untouched hstart fun ⟨_, _, _, hmachine⟩ => ?_, hrendered,
    fun path hpath => ?_⟩
  · rw [hpath] at hmachine
    cases hmachine
  · rw [bootstrap_untouched hboot hpath]
    exact hfinish path (prefix_of_mangle_eq hmangle.symm hpath)

theorem exists_doc {s : Snapshot} {o : SourceObject} (ho : o ∈ known s) :
    ∃ doc ∈ docsOf s, o ∈ doc.2.objects := by
  cases hclass : s.systemClass with
  | sql =>
      exact ⟨_, mem_docsOf.mpr (.inl ⟨hclass, o, ho, rfl⟩), List.mem_singleton.mpr rfl⟩
  | api =>
      exact ⟨_, mem_docsOf.mpr (.inr (.inr (.inl ⟨hclass, groupOf o, mem_keysOf.mpr ⟨o, ho, rfl⟩, rfl⟩))),
        mem_membersOf.mpr ⟨ho, rfl⟩⟩

theorem apart_of_writesItsOwn (h : renderTree unicode yaml snapshots files = some files')
    (hown : WritesItsOwn unicode yaml snapshots files files') : DirectoriesApart snapshots := by
  intro s hs s' hs' hmangle hlt
  rw [List.eq_nil_iff_forall_not_mem]
  intro o ho
  obtain ⟨plan, hplan, doc, hdoc, -, bytes, hbytes, info, date, body, -, -, htext⟩ := hown.objects s hs o ho
  obtain ⟨rfl, -⟩ := expectedDocs_eq_some.mp hplan
  obtain ⟨last, -, hlastMangle, -, hle, start, finish, -, hrendered, hfinish⟩ := last_of_tree h hs
  have hne : s.system ≠ last.system := fun heq => absurd (hle s' hs' hmangle.symm) (heq ▸ not_le.mpr hlt)
  rw [hfinish doc.1 (isMachineFile_of_mem hdoc).2] at hbytes
  by_cases hmem : doc.1 ∈ (docsOf last).map Prod.fst
  · -- The later system wrote its own document there.
    obtain ⟨doc', hdoc', hpath⟩ := List.mem_map.mp hmem
    rw [← hpath, hrendered.written doc' hdoc'] at hbytes
    obtain ⟨date', body', -, htext'⟩ := writeMachine_spec (writeMachine_of_docBytes hbytes)
    rw [htext', newlines_append (carriageReturn_notMem_headFor hdoc' date'),
      newlines_append (carriageReturn_notMem_headFor hdoc date)] at htext
    exact head_ne hlastMangle.symm hne hdoc hdoc' _ _ _ _ htext.symm
  · rw [hrendered.others _ hmem, if_pos ⟨prefix_of_mangle_eq hlastMangle.symm (isMachineFile_of_mem hdoc).2,
      (isMachineFile_of_mem hdoc).1⟩] at hbytes
    cases hbytes

/-- A system with objects is the last of its directory. -/
theorem last_of_apart (h : renderTree unicode yaml snapshots files = some files')
    (hapart : DirectoriesApart snapshots) {s last : Snapshot} (hs : s ∈ snapshots) (hlast : last ∈ snapshots)
    (hmangle : Naming.mangle last.system = Naming.mangle s.system) (hle : s.system ≤ last.system)
    (hknown : known s ≠ []) : last = s := by
  by_contra hne
  have hsystem : s.system ≠ last.system := fun heq =>
    hne (List.inj_on_of_nodup_map (renderTree_eq_some h).1 hlast hs heq.symm)
  exact hknown (hapart s hs last hlast hmangle.symm (lt_of_le_of_ne hle hsystem))

theorem writesItsOwn_of_apart (h : renderTree unicode yaml snapshots files = some files')
    (hapart : DirectoriesApart snapshots) : WritesItsOwn unicode yaml snapshots files files' := by
  constructor
  · intro s hs o ho
    obtain ⟨last, hlast, hmangle, hle, -, start, finish, hstart, hrendered, hfinish⟩ := last_of_tree h hs
    obtain rfl := last_of_apart h hapart hs hlast hmangle hle (List.ne_nil_of_mem ho)
    obtain ⟨doc, hdoc, hobjects⟩ := exists_doc ho
    obtain ⟨bytes, hbytes⟩ := Option.isSome_iff_exists.mp (hrendered.isSome doc hdoc)
    obtain ⟨date, body, hbody, htext⟩ := writeMachine_spec (writeMachine_of_docBytes hbytes)
    refine ⟨docsOf last, expectedDocs_eq_some.mpr ⟨rfl, hrendered.nodup⟩, doc, hdoc, hobjects, bytes, ?_,
      humanInfo yaml start, date, body, fun path hpath => ?_, hbody, htext⟩
    · rw [hfinish doc.1 (isMachineFile_of_mem hdoc).2, hrendered.written doc hdoc, hbytes]
    · rw [humanInfo, humanInfo, hstart path hpath]
  · rintro path ⟨s, hs, hdir, hmachine⟩ hne
    obtain ⟨last, hlast, hmangle, -, -, start, finish, -, hrendered, hfinish⟩ := last_of_tree h hs
    refine ⟨last, hlast, docsOf last, expectedDocs_eq_some.mpr ⟨rfl, hrendered.nodup⟩, ?_⟩
    by_contra hmem
    rw [hfinish path hdir, hrendered.others path hmem,
      if_pos ⟨prefix_of_mangle_eq hmangle.symm hdir, hmachine⟩] at hne
    exact hne rfl
  · intro path hpath
    obtain ⟨-, between, hbetween, hboot⟩ := renderTree_eq_some h
    have huntouched : between path = files path := run_untouched hbetween fun hgen =>
      hpath (hgen.imp fun s h => ⟨mem_sortOn.mp h.1, h.2⟩)
    rw [← huntouched]
    exact bootstrap_spec hboot path

/-- **The generator writes its documents and no one else's** exactly where no two systems with objects share
a directory. -/
theorem writesItsOwn_iff (h : renderTree unicode yaml snapshots files = some files') :
    WritesItsOwn unicode yaml snapshots files files' ↔ DirectoriesApart snapshots :=
  ⟨apart_of_writesItsOwn h, writesItsOwn_of_apart h⟩

end

/-! ### Two systems in one directory -/

/-- A loader for trees without front matter. -/
def noYaml : Yaml := ⟨fun _ => none, fun _ => false⟩

/-- A tree with the two bootstrapped files. -/
def rootFiles : Files := fun path =>
  if path ∈ [py "index.md", py "conventions.md"] then some [] else none

def signup : SourceObject :=
  { ordersTable [] with
    kind := py "api_event"
    schema := py "s"
    name := py "signup"
    kind_ne := by decide
    schema_ne := by decide
    name_ne := by decide }

def shop (system : PyStr) (objects : List SourceObject) (h : system ≠ []) : Snapshot :=
  { demoSnapshot objects with system := system, systemClass := .api, system_ne := h }

theorem renders_signup :
    (renderTree asciiOnly noYaml [shop (py "shop") [signup] (by decide)] rootFiles).isSome ∧
      (renderTree asciiOnly noYaml
        [shop (py "Shop") [signup] (by decide), shop (py "shop") [] (by decide)] rootFiles).isSome := by
  have hgroups : py "\n## Groups\n\n| Group | Kind | Objects | Machine doc | Human doc | Status | Purpose |\n|---|---|---|---|---|---|---|\n" =
      _ := py_ofList _
  have hfacts : py "\x60\n\n| Fact | Value |\n|---|---|\n| Object | \x60" = _ := py_ofList _
  delta renderTree renderSystem renderDoc bodyFor apiIndexBody groupBody memberSection
  rw [hgroups, hfacts]
  constructor <;> decide +kernel

theorem writesItsOwn_signup : ∃ files', WritesItsOwn asciiOnly noYaml
    [shop (py "shop") [signup] (by decide)] rootFiles files' ↔
      DirectoriesApart [shop (py "shop") [signup] (by decide)] := by
  obtain ⟨files', h⟩ := Option.isSome_iff_exists.mp renders_signup.1
  exact ⟨files', writesItsOwn_iff h⟩

/-- The documents of `Shop` are deleted when `shop` is rendered. -/
theorem not_writesItsOwn_sharedDirectory :
    ¬ ∀ (unicode : Unicode) (yaml : Yaml) (snapshots : List Snapshot) (files files' : Files),
      renderTree unicode yaml snapshots files = some files' →
        WritesItsOwn unicode yaml snapshots files files' := by
  intro hlaw
  obtain ⟨files', h⟩ := Option.isSome_iff_exists.mp renders_signup.2
  have hapart := apart_of_writesItsOwn h (hlaw _ _ _ _ _ h)
  have hnil := hapart _ List.mem_cons_self _ (List.mem_cons_of_mem _ List.mem_cons_self) (by decide) (by decide)
  have hlength : (known (shop (py "Shop") [signup] (by decide))).length = 1 := by decide
  rw [hnil] at hlength
  cases hlength

end ContextLayer.Render
