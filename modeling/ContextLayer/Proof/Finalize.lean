import ContextLayer.Proof.DiffLaws
import ContextLayer.Proof.Severity

/-!
# What finalization does to a diff

Only changed definitions can be downgraded, and one is where nothing shapes the columns of its object and the edges
into it keep their maps. The severity of an object follows its sub-diffs, and a diff without a changed definition needs
no graph.
-/

namespace ContextLayer.Diff

open Text StableSort

/-! ### What a diff holds -/

/-- The edges into a name have the same column maps, id by id. -/
def SameMaps (oldGraph newGraph : LineageGraph) (fqn : PyStr) : Prop :=
  ∀ id, Dict.get? (incoming oldGraph fqn) id = Dict.get? (incoming newGraph fqn) id

/-- The change may be downgraded. -/
def Allowed (oldGraph newGraph : LineageGraph) (system : PyStr) (d : ObjectDiff) (s : SubDiff) : Prop :=
  s.downgradable = true ∧ (∀ s' ∈ d.subDiffs, s'.change.text ∉ columnShaping) ∧
    SameMaps oldGraph newGraph (Scan.objectFqn system d)

/-- The severity is the greatest of the sub-diffs, or breaking where there are none. -/
def IsGreatest (severity : Severity) (subs : List SubDiff) : Prop :=
  (subs = [] ∧ severity = .breaking) ∨
    (∃ s ∈ subs, s.severity = severity) ∧ ∀ s ∈ subs, s.severity.rank ≤ severity.rank

/-- **One object, finalized.** -/
structure IsFinal (oldGraph newGraph : LineageGraph) (system : PyStr) (d d' : ObjectDiff) : Prop where
  subs : List.Forall₂ (fun s s' => s'.change = s.change ∧ s'.severity.rank ≤ s.severity.rank ∧
    (s'.severity ≠ s.severity ↔ Allowed oldGraph newGraph system d s)) d.subDiffs d'.subDiffs
  severity : ∃ severity before, d'.severity = some severity ∧ IsGreatest severity d'.subDiffs ∧
    d.severity = some before ∧ severity.rank ≤ before.rank
  rest : { d' with subDiffs := d.subDiffs, severity := d.severity } = d

/-- What `diff_snapshots` lists as changed. -/
structure Listed (d : ObjectDiff) : Prop where
  severity : d.severity = some (structuralSeverity d.subDiffs)
  downgradable : ∀ s ∈ d.subDiffs, s.downgradable = true →
    s.severity = .breaking ∧ s.change.text = py "definition_changed"

theorem downgradable_of_mem {spec : KindSpec} {o n : SourceObject} {s : SubDiff} (h : s ∈ subDiffs spec o n)
    (hdown : s.downgradable = true) : s.severity = .breaking ∧ s.change.text = py "definition_changed" := by
  by_contra hne
  have hex : ∃ s ∈ subDiffs spec o n, s.downgradable = true ∧
      ¬ (s.severity = .breaking ∧ s.change.text = py "definition_changed") := ⟨s, h, hdown, hne⟩
  rw [exists_subDiffs, exists_primaryKey, exists_stats] at hex
  simp only [exists_commonColumn] at hex
  simp [sub, Change.text] at hex

theorem listed_of_diffObject {spec : KindSpec} {o n : SourceObject} {d : ObjectDiff}
    (h : diffObject spec o n = some d) (hclass : d.classification = .changedStructural) : Listed d := by
  by_cases hhash : o.schemaHash = n.schemaHash
  · rw [diffObject, if_neg (not_not.mpr hhash)] at h
    obtain ⟨oldBytes, -, h⟩ := Option.bind_eq_some_iff.mp h
    obtain ⟨newBytes, -, h⟩ := Option.bind_eq_some_iff.mp h
    by_cases hbytes : oldBytes = newBytes
    · rw [if_neg (not_not.mpr hbytes)] at h
      obtain rfl := Option.some.inj h
      cases hclass
    · rw [if_pos hbytes] at h
      obtain rfl := Option.some.inj h
      cases hclass
  · rw [diffObject_structural hhash] at h
    obtain rfl := Option.some.inj h
    exact ⟨rfl, fun s hs => downgradable_of_mem hs⟩

theorem listed_of_mem {s s' : Snapshot} {diff : SnapshotDiff} (h : diffSnapshots s s' = some diff) {d : ObjectDiff}
    (hd : d ∈ diff.changedStructural) : Listed d := by
  unfold diffSnapshots at h
  by_cases hsystem : s.system ≠ s'.system
  · rw [if_pos hsystem] at h
    cases h
  · rw [if_neg hsystem] at h
    obtain ⟨⟨oldIndex, skipped⟩, -, h⟩ := Option.bind_eq_some_iff.mp h
    obtain ⟨⟨newIndex, skipped'⟩, -, h⟩ := Option.bind_eq_some_iff.mp h
    obtain ⟨common, hcommon, h⟩ := Option.bind_eq_some_iff.mp h
    obtain rfl := Option.some.inj h
    obtain ⟨hmem, hclass⟩ := List.mem_filter.mp hd
    obtain ⟨e, -, he⟩ := ((filterMapM_spec hcommon).2 d).mp hmem
    cases hnew : Dict.get? newIndex e.1 with
    | none =>
        rw [hnew] at he
        cases he
    | some n =>
        cases hspec : e.2.kindSpec with
        | none =>
            rw [hnew, hspec] at he
            cases he
        | some spec =>
            rw [hnew, hspec] at he
            obtain ⟨d', hd', heq⟩ := Option.map_eq_some_iff.mp he
            obtain rfl := Option.some.inj heq
            exact listed_of_diffObject hd' (of_decide_eq_true hclass)

/-! ### Severities -/

theorem isGreatest_maxSeverity (first : SubDiff) (rest : List SubDiff) :
    IsGreatest (maxSeverity first.severity rest) (first :: rest) := by
  refine .inr ?_
  unfold maxSeverity
  induction rest using List.reverseRecOn with
  | nil => exact ⟨⟨first, List.mem_cons_self, rfl⟩, by simp⟩
  | append_singleton rest s ih =>
      obtain ⟨⟨s₀, hs₀, hmax⟩, hle⟩ := ih
      rw [List.foldl_append, List.foldl_cons, List.foldl_nil]
      by_cases hlt : (rest.foldl (fun m s => if m.rank < s.severity.rank then s.severity else m) first.severity).rank <
          s.severity.rank
      · rw [if_pos hlt]
        refine ⟨⟨s, by simp, rfl⟩, fun s' hs' => ?_⟩
        rw [← List.cons_append, List.mem_append, List.mem_singleton] at hs'
        obtain hs' | rfl := hs'
        · exact (hle s' hs').trans hlt.le
        · exact le_rfl
      · rw [if_neg hlt]
        refine ⟨⟨s₀, List.mem_cons.mpr ((List.mem_cons.mp hs₀).imp_right fun h => List.mem_append_left _ h), hmax⟩,
          fun s' hs' => ?_⟩
        rw [← List.cons_append, List.mem_append, List.mem_singleton] at hs'
        obtain hs' | rfl := hs'
        · exact hle s' hs'
        · exact not_lt.mp hlt

theorem isGreatest_structuralSeverity (subs : List SubDiff) : IsGreatest (structuralSeverity subs) subs := by
  cases subs with
  | nil => exact .inl ⟨rfl, rfl⟩
  | cons first rest => exact isGreatest_maxSeverity first rest

/-- Where no severity is raised, the greatest is not. -/
theorem rank_le_of_isGreatest {severity before : Severity} {subs subs' : List SubDiff}
    (hrank : List.Forall₂ (fun s s' : SubDiff => s'.severity.rank ≤ s.severity.rank) subs subs')
    (h' : IsGreatest severity subs') (h : IsGreatest before subs) : severity.rank ≤ before.rank := by
  obtain ⟨rfl, rfl⟩ | ⟨⟨s', hs', rfl⟩, -⟩ := h'
  · obtain rfl := List.forall₂_nil_right_iff.mp hrank
    obtain ⟨-, rfl⟩ | ⟨⟨s, hs, -⟩, -⟩ := h
    · exact le_rfl
    · cases hs
  · obtain ⟨s, hs, hle⟩ : ∃ s ∈ subs, s'.severity.rank ≤ s.severity.rank := by
      clear h
      induction hrank with
      | nil => cases hs'
      | cons hhead _ ih =>
          obtain rfl | hs' := List.mem_cons.mp hs'
          · exact ⟨_, List.mem_cons_self, hhead⟩
          · obtain ⟨s, hs, hle⟩ := ih hs'
            exact ⟨s, List.mem_cons_of_mem _ hs, hle⟩
    obtain ⟨rfl, -⟩ | ⟨-, hmax⟩ := h
    · cases hs
    · exact hle.trans (hmax s hs)

/-! ### One object -/

section

variable {oldGraph newGraph : LineageGraph} {system : PyStr}

theorem sameEntries_eq_true_iff {ν : Type} [DecidableEq ν] {a b : List (PyStr × ν)} (ha : (a.map Prod.fst).Nodup)
    (hb : (b.map Prod.fst).Nodup) : sameEntries a b = true ↔ ∀ id, Dict.get? a id = Dict.get? b id := by
  constructor
  · intro h id
    ext value
    rw [← Dict.mem_iff_get? ha, ← Dict.mem_iff_get? hb]
    exact sameEntries_iff ha h
  · intro h
    have hmem : ∀ e, e ∈ a ↔ e ∈ b := fun e => by
      rw [Dict.mem_iff_get? ha, Dict.mem_iff_get? hb, h]
    have hperm : a.Perm b := (List.perm_ext_iff_of_nodup ha.of_map hb.of_map).mpr hmem
    rw [sameEntries, Bool.and_eq_true, beq_iff_eq, List.all_eq_true]
    exact ⟨hperm.length_eq, fun e he => beq_iff_eq.mpr (Dict.get?_of_mem hb ((hmem e).mp he))⟩

theorem keepsOutput_iff {d : ObjectDiff} : keepsOutput oldGraph newGraph system d = true ↔
    (∀ s ∈ d.subDiffs, s.change.text ∉ columnShaping) ∧ SameMaps oldGraph newGraph (Scan.objectFqn system d) := by
  have hmaps : sameEntries (incoming oldGraph (Scan.objectFqn system d)) (incoming newGraph (Scan.objectFqn system d)) =
      true ↔ SameMaps oldGraph newGraph (Scan.objectFqn system d) :=
    sameEntries_eq_true_iff (Dict.nodup_ofList _) (Dict.nodup_ofList _)
  rw [keepsOutput, Bool.and_eq_true, hmaps]
  refine and_congr_left fun _ => ?_
  rw [Bool.not_eq_true', List.any_eq_false]
  simp only [decide_eq_true_eq]

theorem finalizeSub_spec {d : ObjectDiff} (h : Listed d) {s : SubDiff} (hs : s ∈ d.subDiffs) :
    let s' := finalizeSub (keepsOutput oldGraph newGraph system d) s
    s'.change = s.change ∧ s'.severity.rank ≤ s.severity.rank ∧
      (s'.severity ≠ s.severity ↔ Allowed oldGraph newGraph system d s) := by
  have hallowed : Allowed oldGraph newGraph system d s ↔
      s.downgradable = true ∧ keepsOutput oldGraph newGraph system d = true := by
    rw [Allowed, keepsOutput_iff]
  rw [hallowed]
  by_cases hdown : s.downgradable = true
  · have hbreaking := (h.downgradable s hs hdown).1
    by_cases hkeeps : keepsOutput oldGraph newGraph system d = true
    · simp only [finalizeSub, if_pos hdown, if_pos hkeeps, hbreaking]
      exact ⟨trivial, by decide, iff_of_true (by decide) ⟨hdown, hkeeps⟩⟩
    · simp only [finalizeSub, if_pos hdown, if_neg hkeeps]
      exact ⟨trivial, le_rfl, iff_of_false (fun hne => hne rfl) fun hboth => hkeeps hboth.2⟩
  · simp only [finalizeSub, if_neg hdown]
    exact ⟨trivial, le_rfl, iff_of_false (fun hne => hne rfl) fun hboth => hdown hboth.1⟩

/-- An object that has nothing to be downgraded is as its finalization would make it. -/
theorem map_finalizeSub_of_none {d : ObjectDiff} (hnone : ¬ d.subDiffs.any SubDiff.downgradable = true)
    (downgrade : Bool) : d.subDiffs.map (finalizeSub downgrade) = d.subDiffs := by
  conv_rhs => rw [← List.map_id d.subDiffs]
  refine List.map_congr_left fun s hs => ?_
  have hdown : ¬ s.downgradable = true := fun hdown => hnone (List.any_eq_true.mpr ⟨s, hs, hdown⟩)
  rw [finalizeSub, if_neg hdown, id_eq]

/-- **One object.** -/
theorem isFinal_finalizeObject {d : ObjectDiff} (h : Listed d) :
    IsFinal oldGraph newGraph system d (finalizeObject oldGraph newGraph system d) := by
  have hsubs : (finalizeObject oldGraph newGraph system d).subDiffs =
      d.subDiffs.map (finalizeSub (keepsOutput oldGraph newGraph system d)) := by
    by_cases hany : d.subDiffs.any SubDiff.downgradable = true
    · rw [finalizeObject, if_pos hany]
    · rw [finalizeObject, if_neg hany, map_finalizeSub_of_none hany]
  have hseverity : (finalizeObject oldGraph newGraph system d).severity =
      some (structuralSeverity (finalizeObject oldGraph newGraph system d).subDiffs) := by
    by_cases hany : d.subDiffs.any SubDiff.downgradable = true
    · rw [finalizeObject, if_pos hany]
    · rw [finalizeObject, if_neg hany, h.severity]
  have hspec : List.Forall₂ (fun s s' : SubDiff => s'.change = s.change ∧ s'.severity.rank ≤ s.severity.rank ∧
      (s'.severity ≠ s.severity ↔ Allowed oldGraph newGraph system d s)) d.subDiffs
      (finalizeObject oldGraph newGraph system d).subDiffs := by
    rw [hsubs, List.forall₂_map_right_iff]
    exact List.forall₂_same.mpr fun s hs => finalizeSub_spec h hs
  have hgreatest := isGreatest_structuralSeverity (finalizeObject oldGraph newGraph system d).subDiffs
  refine ⟨hspec, ⟨_, _, hseverity, hgreatest, h.severity, ?_⟩, ?_⟩
  · exact rank_le_of_isGreatest (hspec.imp fun _ _ hs => hs.2.1) hgreatest (isGreatest_structuralSeverity _)
  · by_cases hany : d.subDiffs.any SubDiff.downgradable = true
    · rw [finalizeObject, if_pos hany]
    · rw [finalizeObject, if_neg hany]

/-- Nothing is left to be downgraded. -/
theorem not_downgradable_finalizeObject (d : ObjectDiff) :
    ¬ (finalizeObject oldGraph newGraph system d).subDiffs.any SubDiff.downgradable = true := by
  by_cases hany : d.subDiffs.any SubDiff.downgradable = true
  · rw [finalizeObject, if_pos hany, List.any_eq_true]
    rintro ⟨s', hs', hdown⟩
    obtain ⟨s, -, rfl⟩ := List.mem_map.mp hs'
    by_cases hs : s.downgradable = true
    · rw [finalizeSub, if_pos hs] at hdown
      cases hdown
    · rw [finalizeSub, if_neg hs] at hdown
      exact hs hdown
  · rwa [finalizeObject, if_neg hany]

theorem finalizeObject_idem (d : ObjectDiff) :
    finalizeObject oldGraph newGraph system (finalizeObject oldGraph newGraph system d) =
      finalizeObject oldGraph newGraph system d :=
  if_neg (not_downgradable_finalizeObject d)

end

/-! ### A whole diff -/

/-- The diff without its changed objects is as it was, and of these each is final. -/
structure IsFinalDiff (oldGraph newGraph : LineageGraph) (diff out : SnapshotDiff) : Prop where
  objects : List.Forall₂ (IsFinal oldGraph newGraph diff.system) diff.changedStructural out.changedStructural
  rest : { out with changedStructural := diff.changedStructural } = diff

/-- Where nothing is left to be downgraded, a diff is final. -/
theorem finalizeSeverity_eq_self {diff : SnapshotDiff}
    (hnone : ∀ d ∈ diff.changedStructural, ¬ d.subDiffs.any SubDiff.downgradable = true)
    (oldGraph newGraph : Option LineageGraph) : finalizeSeverity oldGraph newGraph diff = some diff := by
  unfold finalizeSeverity
  split
  case h_1 oldGraph newGraph =>
    have hmap : diff.changedStructural.map (finalizeObject oldGraph newGraph diff.system) = diff.changedStructural := by
      conv_rhs => rw [← List.map_id diff.changedStructural]
      refine List.map_congr_left fun d hd => ?_
      rw [finalizeObject, if_neg (hnone d hd), id_eq]
    rw [hmap]
  case h_2 =>
    refine if_neg fun hany => ?_
    obtain ⟨d, hd, hdown⟩ := List.any_eq_true.mp hany
    exact hnone d hd hdown

theorem finalizeSeverity_again {oldGraph newGraph : Option LineageGraph} {diff out : SnapshotDiff}
    (h : finalizeSeverity oldGraph newGraph diff = some out) (oldGraph' newGraph' : Option LineageGraph) :
    finalizeSeverity oldGraph' newGraph' out = some out := by
  refine finalizeSeverity_eq_self (fun d' hd' => ?_) oldGraph' newGraph'
  unfold finalizeSeverity at h
  split at h
  case h_1 oldGraph newGraph =>
    obtain rfl := Option.some.inj h
    obtain ⟨d, -, rfl⟩ := List.mem_map.mp hd'
    exact not_downgradable_finalizeObject d
  case h_2 =>
    by_cases hany : (diff.changedStructural.any fun d => d.subDiffs.any SubDiff.downgradable) = true
    · rw [if_pos hany] at h
      cases h
    · rw [if_neg hany] at h
      obtain rfl := Option.some.inj h
      exact fun hdown => hany (List.any_eq_true.mpr ⟨d', hd', hdown⟩)

/-- Where no definition has changed, no graph is asked for. -/
theorem finalizeSeverity_without_graphs {s s' : Snapshot} {diff : SnapshotDiff} (h : diffSnapshots s s' = some diff)
    {diffs : List SnapshotDiff} (hdiff : diff ∈ diffs) {nodeIds : List PyStr}
    (hlineage : lineageRequired diffs nodeIds = false) : finalizeSeverity none none diff = some diff := by
  refine finalizeSeverity_eq_self (fun d hd hany => ?_) none none
  obtain ⟨sub, hsub, hdown⟩ := List.any_eq_true.mp hany
  have hchanged := ((listed_of_mem h hd).downgradable sub hsub hdown).2
  have hrequired : lineageRequired diffs nodeIds = true :=
    List.any_eq_true.mpr ⟨diff, hdiff, Bool.or_eq_true_iff.mpr (.inl (List.any_eq_true.mpr ⟨d, hd,
      List.any_eq_true.mpr ⟨sub, hsub, decide_eq_true hchanged⟩⟩))⟩
  rw [hrequired] at hlineage
  cases hlineage

/-- **Exactly the allowed changes**: with both graphs a change of a diff keeps its severity unless its downgrade is
allowed, none is raised, and each object has the greatest severity of its changes. A second finalization finds nothing
to do, and where lineage is not required the first does not, either. -/
theorem finalizeSeverity_law {s s' : Snapshot} {diff : SnapshotDiff} (h : diffSnapshots s s' = some diff) :
    (∀ oldGraph newGraph : LineageGraph, ∃ out, finalizeSeverity (some oldGraph) (some newGraph) diff = some out ∧
      IsFinalDiff oldGraph newGraph diff out) ∧
    (∀ oldGraph newGraph out, finalizeSeverity oldGraph newGraph diff = some out →
      ∀ oldGraph' newGraph', finalizeSeverity oldGraph' newGraph' out = some out) ∧
    ∀ diffs nodeIds, diff ∈ diffs → lineageRequired diffs nodeIds = false →
      finalizeSeverity none none diff = some diff := by
  refine ⟨fun oldGraph newGraph => ⟨_, rfl, ⟨?_, rfl⟩⟩, fun oldGraph newGraph out hout => finalizeSeverity_again hout,
    fun diffs nodeIds hdiff hlineage => finalizeSeverity_without_graphs h hdiff hlineage⟩
  rw [List.forall₂_map_right_iff]
  exact List.forall₂_same.mpr fun d hd => isFinal_finalizeObject (listed_of_mem h hd)

/-- A table gets a primary key. -/
theorem finalizeSeverity_primaryAdded :
    ∃ diff, diffSnapshots (demoSnapshot [ordersWithoutKeys]) (demoSnapshot [ordersById]) = some diff ∧
      ∃ out, finalizeSeverity (some emptyGraph) (some emptyGraph) diff = some out ∧
        IsFinalDiff emptyGraph emptyGraph diff out := by
  have hsome : (diffSnapshots (demoSnapshot [ordersWithoutKeys]) (demoSnapshot [ordersById])).isSome = true := by
    decide +kernel
  obtain ⟨diff, hdiff⟩ := Option.isSome_iff_exists.mp hsome
  exact ⟨diff, hdiff, (finalizeSeverity_law hdiff).1 emptyGraph emptyGraph⟩

end ContextLayer.Diff
