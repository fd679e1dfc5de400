import ContextLayer.Severity
import ContextLayer.Proof.Scan

/-!
# When the additive-only label is sound

A run with the label has no breaking sub-diff but definitions that keep their output. So whatever the
indexes hold of an object is kept, and an object of an unchanged hash is kept whole; what the indexes do
not hold can go unseen behind any additive change.
-/

namespace ContextLayer.Diff

open Text StableSort

/-! ### Severities -/

theorem maxSeverity_eq_breaking {first : Severity} {rest : List SubDiff} :
    maxSeverity first rest = .breaking ↔ first = .breaking ∨ ∃ s ∈ rest, s.severity = .breaking := by
  unfold maxSeverity
  induction rest generalizing first with
  | nil => simp
  | cons s rest ih =>
      rw [List.foldl_cons, ih, List.exists_mem_cons_iff, ← or_assoc]
      refine or_congr_left ?_
      cases first <;> cases s.severity <;> decide

/-- The severity of a structural change is breaking unless something is found and nothing breaks. -/
theorem structuralSeverity_ne_breaking {subs : List SubDiff} :
    structuralSeverity subs ≠ .breaking ↔ subs ≠ [] ∧ ∀ s ∈ subs, s.severity ≠ .breaking := by
  cases subs with
  | nil => simp [structuralSeverity]
  | cons s rest =>
      rw [structuralSeverity, ne_eq, maxSeverity_eq_breaking, not_or, not_exists, List.forall_mem_cons]
      simp

section

variable {oldGraph newGraph : LineageGraph} {system : PyStr}

/-- A breaking sub-diff of an object that is not breaking in the end was downgraded. -/
theorem downgraded_of_finalize {d : ObjectDiff}
    (hd : d.severity = some (structuralSeverity d.subDiffs))
    (h : (finalizeObject oldGraph newGraph system d).severity ≠ some .breaking) {s : SubDiff}
    (hs : s ∈ d.subDiffs) (hbreaking : s.severity = .breaking) :
    s.downgradable = true ∧ keepsOutput oldGraph newGraph system d = true := by
  unfold finalizeObject at h
  by_cases hany : d.subDiffs.any SubDiff.downgradable = true
  · rw [if_pos hany] at h
    have hnone := (structuralSeverity_ne_breaking.mp fun heq => h (congrArg some heq)).2 _
      (List.mem_map_of_mem hs)
    unfold finalizeSub at hnone
    by_cases hdown : s.downgradable = true
    · rw [if_pos hdown] at hnone
      refine ⟨hdown, ?_⟩
      by_contra hkeeps
      rw [if_neg hkeeps] at hnone
      exact hnone hbreaking
    · rw [if_neg hdown] at hnone
      exact absurd hbreaking hnone
  · rw [if_neg hany, hd] at h
    exact absurd hbreaking ((structuralSeverity_ne_breaking.mp fun heq => h (congrArg some heq)).2 s hs)

end

/-! ### Edges -/

theorem sameEntries_iff {ν : Type} [DecidableEq ν] {a b : List (PyStr × ν)}
    (ha : (a.map Prod.fst).Nodup) (h : sameEntries a b = true) {e : PyStr × ν} : e ∈ a ↔ e ∈ b := by
  rw [sameEntries, Bool.and_eq_true, beq_iff_eq, List.all_eq_true] at h
  have hsubset : a ⊆ b := fun e he => Dict.mem_of_get? (beq_iff_eq.mp (h.2 e he))
  have hperm : a.Perm b := (List.subperm_of_subset ha.of_map hsubset).perm_of_length_le h.1.ge
  exact hperm.mem_iff

theorem mem_incoming {graph : LineageGraph} (hgraph : (graph.edges.map GraphEdge.id).Nodup)
    {fqn id : PyStr} {columns : List (PyStr × List PyStr)} : (id, columns) ∈ incoming graph fqn ↔
      ∃ e ∈ graph.edges, e.target = fqn ∧ e.id = id ∧ normalizedColumns e = columns := by
  have hnodup : (((graph.edges.filter fun e => e.target = fqn).map fun e =>
      (e.id, normalizedColumns e)).map Prod.fst).Nodup := by
    rw [List.map_map]
    exact hgraph.sublist (List.filter_sublist.map _)
  rw [incoming, Dict.ofList_eq_self hnodup]
  simp only [List.mem_map, List.mem_filter, decide_eq_true_eq, Prod.mk.injEq, and_assoc]

theorem sameIncoming_of_sameEntries {oldGraph newGraph : LineageGraph} {fqn : PyStr}
    (hold : (oldGraph.edges.map GraphEdge.id).Nodup) (hnew : (newGraph.edges.map GraphEdge.id).Nodup)
    (h : sameEntries (incoming oldGraph fqn) (incoming newGraph fqn) = true) :
    SameIncoming oldGraph newGraph fqn := by
  intro id columns
  rw [← mem_incoming hold, ← mem_incoming hnew]
  exact sameEntries_iff (Dict.nodup_ofList _) h

/-! ### Sub-diffs that break -/

section

variable {spec : KindSpec} {o n : SourceObject} {name : PyStr} {lo ln : Column}

theorem mem_subDiffs_of_column {s : SubDiff} (h : s ∈ columnSubDiffs o n) : s ∈ subDiffs spec o n :=
  List.mem_append_left _ (List.mem_append_left _ h)

theorem mem_subDiffs_of_key {s : SubDiff} (h : s ∈ keySubDiffs o n) : s ∈ subDiffs spec o n :=
  List.mem_append_left _ (List.mem_append_right _ h)

theorem mem_subDiffs_of_stat {s : SubDiff} (h : s ∈ statsSubDiffs spec o n) : s ∈ subDiffs spec o n :=
  List.mem_append_right _ h

theorem mem_columnAdded (ho : lastNamed o name = none) (hn : lastNamed n name = some ln) :
    sub .additive (.columnAdded ln) ∈ subDiffs spec o n := by
  obtain rfl := (name_of_lastNamed hn).2
  refine mem_subDiffs_of_column (List.mem_append_left _ (List.mem_append_left _ ?_))
  exact List.mem_map_of_mem (mem_addedColumns.mpr ⟨hn, ho⟩)

theorem mem_columnRemoved (ho : lastNamed o name = some lo) (hn : lastNamed n name = none) :
    sub .breaking (.columnRemoved lo) ∈ subDiffs spec o n := by
  obtain rfl := (name_of_lastNamed ho).2
  refine mem_subDiffs_of_column (List.mem_append_left _ (List.mem_append_right _ ?_))
  exact List.mem_map_of_mem (mem_addedColumns.mpr ⟨ho, hn⟩)

theorem mem_commonColumn (ho : lastNamed o name = some lo) (hn : lastNamed n name = some ln)
    {s : SubDiff} (hs : s ∈ commonColumnSubDiffs name lo ln) : s ∈ subDiffs spec o n := by
  refine mem_subDiffs_of_column (List.mem_append_right _ ?_)
  refine List.mem_flatMap.mpr ⟨(name, lo), mem_columnsByName.mpr ho, ?_⟩
  rw [get?_columnsByName, hn]
  exact hs

theorem mem_columnTypeChanged (ho : lastNamed o name = some lo) (hn : lastNamed n name = some ln)
    (hne : lo.type ≠ ln.type) :
    sub .breaking (.columnTypeChanged name lo.type ln.type) ∈ subDiffs spec o n := by
  refine mem_commonColumn ho hn ?_
  simp only [commonColumnSubDiffs, List.mem_append]
  exact .inl (.inl (.inl (by rw [if_pos hne]; exact List.mem_singleton_self _)))

theorem mem_columnNullableTightened (ho : lastNamed o name = some lo)
    (hn : lastNamed n name = some ln) (hlo : lo.nullable = true) (hln : ln.nullable = false) :
    sub .breaking (.columnNullableTightened name) ∈ subDiffs spec o n := by
  refine mem_commonColumn ho hn ?_
  simp only [commonColumnSubDiffs, List.mem_append]
  exact .inl (.inl (.inr (by simp [hlo, hln])))

theorem mem_columnOrdinalChanged (ho : lastNamed o name = some lo)
    (hn : lastNamed n name = some ln) (hne : lo.ordinal.value ≠ ln.ordinal.value) :
    sub .breaking (.columnOrdinalChanged name lo.ordinal ln.ordinal) ∈ subDiffs spec o n := by
  refine mem_commonColumn ho hn ?_
  simp only [commonColumnSubDiffs, List.mem_append]
  exact .inr (by rw [if_pos hne]; exact List.mem_singleton_self _)

theorem exists_primary (ho : primaryOf o ≠ []) (hne : primaryOf n ≠ primaryOf o) :
    ∃ change, sub .breaking change ∈ subDiffs spec o n := by
  have hmem : ∀ {s}, s ∈ primarySubDiffs o n → s ∈ subDiffs spec o n := fun hs =>
    mem_subDiffs_of_key (List.mem_append_left _ (List.mem_append_left _ (List.mem_append_left _ hs)))
  by_cases hn : primaryOf n = []
  · refine ⟨.primaryRemoved (primaryOf o), hmem ?_⟩
    rw [primarySubDiffs, if_neg hne.symm, if_neg ho, if_pos hn]
    exact List.mem_singleton_self _
  · refine ⟨.primaryAltered (primaryOf o) (primaryOf n), hmem ?_⟩
    rw [primarySubDiffs, if_neg hne.symm, if_neg ho, if_neg hn]
    exact List.mem_singleton_self _

theorem exists_foreign {columns : List PyStr} {fk : ForeignKey}
    (ho : lastForeignOn o columns = some fk) (hn : lastForeignOn n columns ≠ some fk) :
    ∃ change, sub .breaking change ∈ subDiffs spec o n := by
  have hmem : ∀ {s}, s ∈ foreignSubDiffs o n → s ∈ subDiffs spec o n := fun hs =>
    mem_subDiffs_of_key (List.mem_append_left _ (List.mem_append_left _ (List.mem_append_right _ hs)))
  obtain rfl := columns_of_lastForeignOn ho
  cases hnew : lastForeignOn n fk.columns with
  | none =>
      refine ⟨.foreignRemoved fk, hmem (List.mem_append_left _ (List.mem_append_right _ ?_))⟩
      exact List.mem_map_of_mem (mem_addedForeign.mpr ⟨ho, hnew⟩)
  | some fk' =>
      have hne : fk ≠ fk' := fun heq => hn (hnew.trans (congrArg some heq.symm))
      refine ⟨.foreignAltered fk.columns fk fk', hmem (List.mem_append_right _ ?_)⟩
      refine List.mem_flatMap.mpr ⟨(fk.columns, fk), mem_foreignByColumns.mpr ho, ?_⟩
      rw [get?_foreignByColumns, hnew, Option.map_some, Option.getD_some, if_pos hne]
      exact List.mem_singleton_self _

theorem mem_uniqueRemoved {columns : List PyStr} (ho : columns ∈ uniqueOf o)
    (hn : columns ∉ uniqueOf n) : sub .breaking (.uniqueRemoved columns) ∈ subDiffs spec o n :=
  mem_subDiffs_of_key (List.mem_append_right _ (List.mem_map_of_mem (mem_addedUnique.mpr ⟨ho, hn⟩)))

theorem mem_statSub {stat : PyStr} (hstat : stat ∈ spec.hashIncludedStats)
    (hne : PyJson.sameStat (Dict.get? o.stats stat) (Dict.get? n.stats stat) = false) :
    (if stat = py "definition" then
        ⟨.definitionChanged (Dict.get? o.stats stat) (Dict.get? n.stats stat), .breaking, true⟩
      else sub .breaking (.statChanged stat (Dict.get? o.stats stat) (Dict.get? n.stats stat))) ∈
      subDiffs spec o n := by
  refine mem_subDiffs_of_stat (List.mem_flatMap.mpr ⟨stat, mem_sortOn.mpr hstat, ?_⟩)
  dsimp only
  rw [hne, if_neg Bool.false_ne_true]
  by_cases hdefinition : stat = py "definition"
  · rw [if_pos hdefinition, if_pos hdefinition]
    exact List.mem_singleton_self _
  · rw [if_neg hdefinition, if_neg hdefinition]
    exact List.mem_singleton_self _

end

/-! ### One object -/

section

variable {oldGraph newGraph : LineageGraph} {system : PyStr} {spec : KindSpec} {o n : SourceObject}

theorem lastNamed_isSome {c : Column} (hc : c ∈ o.columns) : ∃ lo, lastNamed o c.name = some lo := by
  have hne : (o.columns.filter fun c' => c'.name = c.name) ≠ [] :=
    List.ne_nil_of_mem (List.mem_filter.mpr ⟨hc, decide_eq_true rfl⟩)
  exact ⟨_, List.getLast?_eq_some_getLast hne⟩

theorem nothingHidden_of_preserved (h : Preserved oldGraph newGraph system spec o n) :
    NothingHidden oldGraph newGraph system spec o n where
  columns c hc _ := h.columns c hc
  foreign fk hfk _ := h.foreign fk hfk
  stats stat hstat hne _ := h.stats stat hstat hne
  definition hincluded hne :=
    ⟨fun c hc _ => (h.definition hincluded hne).1 c hc, fun _ => h.definition hincluded hne⟩

/-- **One hash**: everything is kept. -/
theorem preserved_of_projection
    (hproj : (structuralProjection spec o).sortKeys = (structuralProjection spec n).sortKeys) :
    Preserved oldGraph newGraph system spec o n := by
  obtain ⟨hcolumns, hkeys⟩ := SourceObject.columns_keys_of_structural hproj
  have hordered : orderedKeys o.keys = orderedKeys n.keys := hkeys
  have hprimary : o.keys.primary = n.keys.primary :=
    (congrArg Keys.primary hordered :)
  have hforeign : o.keys.foreign.map (sortOn ForeignKey.sortKey) =
      n.keys.foreign.map (sortOn ForeignKey.sortKey) := (congrArg Keys.foreign hordered :)
  have hunique : o.keys.unique.map (sortOn id) = n.keys.unique.map (sortOn id) :=
    (congrArg Keys.unique hordered :)
  have hstats : ∀ stat ∈ spec.hashIncludedStats, statOf o stat = statOf n stat :=
    fun _ hstat => statOf_of_projection hproj hstat
  refine ⟨fun c hc => ?_, fun _ => ?_, fun fk hfk => ?_, fun columns hmem => ?_, fun stat hstat _ =>
    hstats stat hstat, fun hstat hne => absurd (hstats _ hstat) hne⟩
  · have hmem : c.structural ∈ (orderedObject o).columns.map Column.structural :=
      List.mem_map_of_mem (mem_sortOn.mpr hc)
    rw [hcolumns] at hmem
    obtain ⟨c', hc', heq⟩ := List.mem_map.mp hmem
    simp only [Column.structural, Prod.mk.injEq] at heq
    obtain ⟨hname, htype, hnullable, -, hordinal⟩ := heq
    exact ⟨c', mem_sortOn.mp hc', hname, htype, by rw [hordinal], by rw [hnullable]; exact id⟩
  · rw [primaryOf, primaryOf, hprimary]
  · cases ho : o.keys.foreign with
    | none =>
        rw [ho] at hfk
        cases hfk
    | some fks =>
        cases hn : n.keys.foreign with
        | none =>
            rw [ho, hn] at hforeign
            cases hforeign
        | some fks' =>
            rw [ho] at hfk
            rw [ho, hn] at hforeign
            exact mem_sortOn.mp (Option.some.inj hforeign ▸ mem_sortOn.mpr hfk)
  · unfold uniqueOf at hmem ⊢
    cases ho : o.keys.unique with
    | none =>
        rw [ho] at hmem
        cases hmem
    | some sets =>
        cases hn : n.keys.unique with
        | none =>
            rw [ho, hn] at hunique
            cases hunique
        | some sets' =>
            rw [ho] at hmem
            rw [ho, hn] at hunique
            exact mem_sortOn.mp (Option.some.inj hunique ▸ mem_sortOn.mpr hmem)

/-- **Another hash**, and a change that is not breaking in the end: what nothing hides is kept. -/
theorem preserved_of_changed (hold : (oldGraph.edges.map GraphEdge.id).Nodup)
    (hnew : (newGraph.edges.map GraphEdge.id).Nodup) {d : ObjectDiff} (hid : d.identity = o.identity)
    (hsubs : d.subDiffs = subDiffs spec o n)
    (hseverity : d.severity = some (structuralSeverity d.subDiffs))
    (hfinal : (finalizeObject oldGraph newGraph system d).severity ≠ some .breaking)
    (hhidden : NothingHidden oldGraph newGraph system spec o n) :
    Preserved oldGraph newGraph system spec o n := by
  have hnone : ∀ {change}, sub .breaking change ∉ subDiffs spec o n := by
    intro change hmem
    have hdown := (downgraded_of_finalize hseverity hfinal (hsubs ▸ hmem) rfl).1
    cases hdown
  refine ⟨fun c hc => ?_, fun hne => ?_, fun fk hfk => ?_, fun columns ho => ?_,
    fun stat hstat hne => ?_, fun hstat hne => ?_⟩
  · by_cases hlast : lastNamed o c.name = some c
    · cases hn : lastNamed n c.name with
      | none => exact absurd (mem_columnRemoved hlast hn) hnone
      | some ln =>
          obtain ⟨hmem, hname⟩ := name_of_lastNamed hn
          refine ⟨ln, hmem, hname, ?_, ?_, fun hnullable => ?_⟩
          · by_contra htype
            exact hnone (mem_columnTypeChanged hlast hn fun heq => htype heq.symm)
          · by_contra hordinal
            exact hnone (mem_columnOrdinalChanged hlast hn fun heq => hordinal heq.symm)
          · by_contra hnot
            exact hnone (mem_columnNullableTightened hlast hn hnullable (Bool.not_eq_true _ ▸ hnot))
    · exact hhidden.columns c hc hlast
  · by_contra hprimary
    obtain ⟨change, hmem⟩ : ∃ change, sub .breaking change ∈ subDiffs spec o n :=
      exists_primary hne hprimary
    exact hnone hmem
  · by_cases hlast : lastForeignOn o fk.columns = some fk
    · by_cases hn : lastForeignOn n fk.columns = some fk
      · exact (List.mem_filter.mp (List.mem_of_getLast? hn)).1
      · obtain ⟨change, hmem⟩ : ∃ change, sub .breaking change ∈ subDiffs spec o n :=
          exists_foreign hlast hn
        exact absurd hmem hnone
    · exact hhidden.foreign fk hfk hlast
  · by_contra hn
    exact hnone (mem_uniqueRemoved ho hn)
  · refine hhidden.stats stat hstat hne ?_
    by_contra hdiffers
    have hmem := mem_statSub (o := o) (n := n) hstat (Bool.not_eq_true _ ▸ hdiffers)
    rw [if_neg hne] at hmem
    exact hnone hmem
  · obtain ⟨hcolumns, hequal⟩ := hhidden.definition hstat hne
    cases hsame : PyJson.sameStat (Dict.get? o.stats (py "definition"))
        (Dict.get? n.stats (py "definition")) with
    | true => exact hequal hsame
    | false =>
        have hmem := mem_statSub (o := o) (n := n) hstat hsame
        rw [if_pos rfl] at hmem
        have hkeeps := (downgraded_of_finalize hseverity hfinal (hsubs ▸ hmem) rfl).2
        rw [keepsOutput, Bool.and_eq_true, Bool.not_eq_true', List.any_eq_false, hsubs] at hkeeps
        obtain ⟨hshape, hentries⟩ := hkeeps
        refine ⟨fun c hc => ?_, ?_⟩
        · by_cases hlast : lastNamed n c.name = some c
          · cases ho : lastNamed o c.name with
            | none =>
                have hshaping : py "column_added" ∈ columnShaping := by decide
                exact absurd (decide_eq_true hshaping) (hshape _ (mem_columnAdded ho hlast))
            | some lo =>
                obtain ⟨hmemLo, hname⟩ := name_of_lastNamed ho
                refine ⟨lo, hmemLo, hname, ?_, ?_⟩
                · by_contra htype
                  exact hnone (mem_columnTypeChanged ho hlast htype)
                · by_contra hordinal
                  exact hnone (mem_columnOrdinalChanged ho hlast hordinal)
          · exact hcolumns c hc hlast
        · have hfqn : Scan.objectFqn system d = Naming.fqn system o.schema o.name := by
            rw [Scan.objectFqn, hid]
            rfl
          rw [hfqn] at hentries
          exact sameIncoming_of_sameEntries hold hnew hentries

end

/-! ### The whole run -/

theorem buildLabels_eq_iff {result : Scan.ScanResult} :
    Scan.buildLabels (some result) = [py "sync:additive-only"] ↔ result.breaking = [] := by
  unfold Scan.buildLabels Scan.countBreaking
  dsimp only
  by_cases hlength : result.breaking.length = 0
  · rw [if_pos hlength]
    exact iff_of_true rfl (List.eq_nil_of_length_eq_zero hlength)
  · rw [if_neg hlength]
    exact iff_of_false (List.cons_ne_nil _ _).symm fun hnil => hlength (congrArg List.length hnil)

theorem breaking_of_scan {yaml : PyStr → Option PyJson} {kb : Scan.KbTree} {diffs : List SnapshotDiff}
    {graph : LineageGraph} {result : Scan.ScanResult} (h : Scan.scan yaml kb diffs graph = some result) :
    result.breaking = sortOn Prod.fst (Scan.classify diffs).breaking := by
  obtain ⟨docs, -, h⟩ := Option.bind_eq_some_iff.mp h
  obtain rfl := Option.some.inj h
  rfl

/-- The label says that no name is broken. -/
theorem label_iff {yaml : PyStr → Option PyJson} {kb : Scan.KbTree} {diffs : List SnapshotDiff}
    {graph : LineageGraph} {result : Scan.ScanResult} (h : Scan.scan yaml kb diffs graph = some result) :
    Scan.buildLabels (some result) = [py "sync:additive-only"] ↔ ∀ b, ¬ Scan.IsBroken diffs b := by
  rw [buildLabels_eq_iff, breaking_of_scan h]
  constructor
  · intro hnil b hbroken
    obtain ⟨e, he, -⟩ := List.mem_map.mp (Scan.mem_breaking.mpr hbroken)
    have hmem : e ∈ sortOn Prod.fst (Scan.classify diffs).breaking := mem_sortOn.mpr he
    rw [hnil] at hmem
    cases hmem
  · intro hnone
    refine List.eq_nil_iff_forall_not_mem.mpr fun e he => hnone e.1 (Scan.mem_breaking.mp ?_)
    exact List.mem_map_of_mem (mem_sortOn.mp he)

theorem mem_of_mapM {α β : Type} {f : α → Option β} {l : List α} {r : List β}
    (h : l.mapM f = some r) {a : α} (ha : a ∈ l) : ∃ b ∈ r, f a = some b := by
  induction l generalizing r with
  | nil => cases ha
  | cons a' rest ih =>
      rw [List.mapM_cons] at h
      obtain ⟨first, hfirst, h⟩ := Option.bind_eq_some_iff.mp h
      obtain ⟨others, hothers, h⟩ := Option.bind_eq_some_iff.mp h
      obtain rfl := Option.some.inj h
      obtain rfl | ha := List.mem_cons.mp ha
      · exact ⟨first, List.mem_cons_self, hfirst⟩
      · obtain ⟨b, hb, heq⟩ := ih hothers ha
        exact ⟨b, List.mem_cons_of_mem _ hb, heq⟩

section

variable {sha256 : List UInt8 → PyStr} {systems : List (Snapshot × Snapshot)}
  {oldGraph newGraph : LineageGraph} {diffs : List SnapshotDiff}

/-- The final diff of a changed system. -/
theorem finalized_of_mem (h : finalizedDiffs oldGraph newGraph systems = some diffs)
    {p : Snapshot × Snapshot} (hp : p ∈ systems) :
    ∃ d, diffSnapshots p.1 p.2 = some d ∧ ∃ final ∈ diffs, final.removed = d.removed ∧
      final.system = d.system ∧
      final.changedStructural = d.changedStructural.map (finalizeObject oldGraph newGraph d.system) := by
  obtain ⟨final, hfinal, heq⟩ := mem_of_mapM h hp
  obtain ⟨d, hd, hfinalize⟩ := Option.bind_eq_some_iff.mp heq
  obtain rfl := Option.some.inj hfinalize
  exact ⟨d, hd, _, hfinal, rfl, rfl, rfl⟩

theorem mem_knownObjects {objects : List SourceObject} {o : SourceObject} :
    o ∈ knownObjects objects ↔ o ∈ objects ∧ o.kindSpec.isSome :=
  List.mem_filter

theorem kindSpec_congr {o n : SourceObject} (h : n.identity = o.identity) :
    n.kindSpec = o.kindSpec := by
  rw [SourceObject.kindSpec, SourceObject.kindSpec]
  exact congrArg (fun i => Dict.get? kindRegistry i.1) h

theorem noneGone_of_unbroken (h : finalizedDiffs oldGraph newGraph systems = some diffs)
    (hunbroken : ∀ b, ¬ Scan.IsBroken diffs b) : NoneGone systems := by
  intro p hp o ho hkind
  obtain ⟨d, hd, final, hfinal, hfinalRemoved, -, -⟩ := finalized_of_mem h hp
  obtain ⟨n, hn, hid⟩ | hremoved :=
    (lists_of_diffSnapshots hd).removed o (mem_knownObjects.mpr ⟨ho, hkind⟩)
  · exact ⟨n, (mem_knownObjects.mp hn).1, hid⟩
  · exact absurd ⟨final, hfinal, .inl ⟨_, hfinalRemoved ▸ hremoved, rfl⟩⟩ (hunbroken _)

theorem preserved_of_unbroken (hsha256 : Function.Injective sha256)
    (haccepted : ∀ p ∈ systems, p.1.IsAccepted sha256 true ∧ p.2.IsAccepted sha256 true)
    (hold : (oldGraph.edges.map GraphEdge.id).Nodup) (hnew : (newGraph.edges.map GraphEdge.id).Nodup)
    (h : finalizedDiffs oldGraph newGraph systems = some diffs)
    (hunbroken : ∀ b, ¬ Scan.IsBroken diffs b)
    (hhidden : EveryObject systems (NothingHidden oldGraph newGraph)) :
    EveryObject systems (Preserved oldGraph newGraph) := by
  intro p hp o ho spec hspec n hn hid
  have hspec' : n.kindSpec = some spec := (kindSpec_congr hid).trans hspec
  obtain ⟨d, hd, final, hfinal, -, hfinalSystem, hfinalChanged⟩ := finalized_of_mem h hp
  have hlists := lists_of_diffSnapshots hd
  obtain ⟨spec', od, hspec'', hod, hstructural, -⟩ := hlists.common o
    (mem_knownObjects.mpr ⟨ho, Option.isSome_of_mem hspec⟩) n
    (mem_knownObjects.mpr ⟨hn, Option.isSome_of_mem hspec'⟩) hid.symm
  obtain rfl := Option.some.inj (hspec.symm.trans hspec'')
  have hhash := schemaHash_eq_iff hsha256 ((haccepted p hp).1.hash ho (Option.isSome_of_mem hspec))
    ((haccepted p hp).2.hash hn (Option.isSome_of_mem hspec')) hspec hspec'
  by_cases hsame : o.schemaHash = n.schemaHash
  · exact preserved_of_projection (hhash.mp hsame)
  · rw [diffObject_structural hsame] at hod
    have hodEq := Option.some.inj hod
    refine preserved_of_changed (d := od) hold hnew (hodEq ▸ rfl) (hodEq ▸ rfl) (hodEq ▸ rfl)
      (fun hsevere => ?_) (hhidden p hp o ho spec hspec n hn hid)
    refine hunbroken _ ⟨final, hfinal, .inr ⟨_, hfinalChanged ▸ List.mem_map_of_mem
      (hstructural (hodEq ▸ rfl)), ?_, rfl⟩⟩
    rw [hlists.system]
    exact hsevere

/-- **The additive-only label is sound** exactly where nothing is hidden from the sub-diffs. -/
theorem additiveOnly_iff (hsha256 : Function.Injective sha256)
    (haccepted : ∀ p ∈ systems, p.1.IsAccepted sha256 true ∧ p.2.IsAccepted sha256 true)
    (hold : (oldGraph.edges.map GraphEdge.id).Nodup) (hnew : (newGraph.edges.map GraphEdge.id).Nodup)
    (h : finalizedDiffs oldGraph newGraph systems = some diffs) {yaml : PyStr → Option PyJson}
    {kb : Scan.KbTree} {result : Scan.ScanResult}
    (hscan : Scan.scan yaml kb diffs newGraph = some result)
    (hlabel : Scan.buildLabels (some result) = [py "sync:additive-only"]) :
    (NoneGone systems ∧ EveryObject systems (Preserved oldGraph newGraph)) ↔
      EveryObject systems (NothingHidden oldGraph newGraph) := by
  have hunbroken := (label_iff hscan).mp hlabel
  constructor
  · intro hpreserved p hp o ho spec hspec n hn hid
    exact nothingHidden_of_preserved (hpreserved.2 p hp o ho spec hspec n hn hid)
  · exact fun hhidden => ⟨noneGone_of_unbroken h hunbroken,
      preserved_of_unbroken hsha256 haccepted hold hnew h hunbroken hhidden⟩

end

/-! ### A key behind a key -/

def emptyGraph : LineageGraph where
  nodes := []
  edges := []
  endpoints := by decide

def emptyKb : Scan.KbTree where
  files := []
  nodup := List.nodup_nil

/-- The labels of a run over one system without lineage and documents. -/
def labelsOf (s s' : Snapshot) : Option (List PyStr) :=
  (finalizedDiffs emptyGraph emptyGraph [(s, s')]).bind fun diffs =>
    (Scan.scan (fun _ => none) emptyKb diffs emptyGraph).map fun result =>
      Scan.buildLabels (some result)

theorem scan_of_labelsOf {s s' : Snapshot} {labels : List PyStr} (h : labelsOf s s' = some labels) :
    ∃ diffs, finalizedDiffs emptyGraph emptyGraph [(s, s')] = some diffs ∧
      ∃ result, Scan.scan (fun _ => none) emptyKb diffs emptyGraph = some result ∧
        Scan.buildLabels (some result) = labels := by
  obtain ⟨diffs, hdiffs, h⟩ := Option.bind_eq_some_iff.mp h
  obtain ⟨result, hresult, hlabels⟩ := Option.map_eq_some_iff.mp h
  exact ⟨diffs, hdiffs, result, hresult, hlabels⟩

theorem everyObject_singleton {s s' : Snapshot} {o n : SourceObject}
    {P : PyStr → KindSpec → SourceObject → SourceObject → Prop} (ho : o ∈ s.objects)
    (hn : n ∈ s'.objects) (hid : n.identity = o.identity) {spec : KindSpec} (hspec : o.kindSpec = some spec)
    (h : EveryObject [(s, s')] P) : P s.system spec o n :=
  h _ List.mem_cons_self o ho spec hspec n hn hid

/-- A primary key is added to a table. -/
theorem additiveOnly_primaryAdded :
    (NoneGone [(demoSnapshot [ordersWithoutKeys], demoSnapshot [ordersById])] ∧
      EveryObject [(demoSnapshot [ordersWithoutKeys], demoSnapshot [ordersById])]
        (Preserved emptyGraph emptyGraph)) ↔
      EveryObject [(demoSnapshot [ordersWithoutKeys], demoSnapshot [ordersById])]
        (NothingHidden emptyGraph emptyGraph) := by
  have hlabels : labelsOf (demoSnapshot [ordersWithoutKeys]) (demoSnapshot [ordersById]) =
      some [py "sync:additive-only"] := by decide +kernel
  obtain ⟨diffs, hdiffs, result, hresult, hlabel⟩ := scan_of_labelsOf hlabels
  refine additiveOnly_iff ordersDigest_injective (fun p hp => ?_) List.nodup_nil List.nodup_nil hdiffs
    hresult hlabel
  obtain rfl := List.mem_singleton.mp hp
  exact ⟨accepted_orders.1, accepted_orders.2.1⟩

def keyOn (ref : PyStr) (h : isRef ref = true) : ForeignKey where
  columns := [py "a"]
  ref := ref
  refColumns := [py "b"]
  columns_ne := by decide
  ref_pattern := h
  refColumns_ne := by decide

/-- SHA-256 of the projections of the tables below. -/
def keysDigest : List UInt8 → PyStr := knownDigest [
  (py "\x7b\"columns\":[],\"keys\":\x7b\"foreign\":[\x7b\"columns\":[\"a\"],\"ref\":\"s.t\",\"ref_columns\":[\"b\"]\x7d,\x7b\"columns\":[\"a\"],\"ref\":\"s.u\",\"ref_columns\":[\"b\"]\x7d]\x7d,\"kind\":\"table\",\"name\":\"orders\",\"schema\":\"public\",\"stats\":\x7b\x7d\x7d",
    py "a16bee43dcb7fccf020ffc35486454d2ac40f18a70b9b3e9b3a2225debaa96f1"),
  (py "\x7b\"columns\":[],\"keys\":\x7b\"foreign\":[\x7b\"columns\":[\"a\"],\"ref\":\"s.u\",\"ref_columns\":[\"b\"]\x7d],\"unique\":[[\"a\"]]\x7d,\"kind\":\"table\",\"name\":\"orders\",\"schema\":\"public\",\"stats\":\x7b\x7d\x7d",
    py "49fc79cc22144126ab3cb97c7605e1d8ff399c0fd10c1c4192cb8836305ba579")]

theorem keysDigest_injective : Function.Injective keysDigest := by
  unfold keysDigest
  iterate 4 rw [py_ofList]
  exact knownDigest_injective (by decide) (by decide)

/-- Two foreign keys on one column. -/
def ordersOnBoth : SourceObject :=
  { ordersTable [] with
    keys := ⟨none, some [keyOn (py "s.t") (by decide), keyOn (py "s.u") (by decide)], none⟩
    schemaHash := py "sha256:a16bee43dcb7fccf020ffc35486454d2ac40f18a70b9b3e9b3a2225debaa96f1"
    schemaHash_pattern := by rw [py_ofList]; decide }

/-- The first of them is gone, and the column is unique. -/
def ordersOnLast : SourceObject :=
  { ordersTable [] with
    keys := ⟨none, some [keyOn (py "s.u") (by decide)], some [[py "a"]]⟩
    schemaHash := py "sha256:49fc79cc22144126ab3cb97c7605e1d8ff399c0fd10c1c4192cb8836305ba579"
    schemaHash_pattern := by rw [py_ofList]; decide }

theorem accepted_keys : (demoSnapshot [ordersOnBoth]).IsAccepted keysDigest true ∧
    (demoSnapshot [ordersOnLast]).IsAccepted keysDigest true := by
  refine ⟨isAccepted_singleton rfl ?_, isAccepted_singleton rfl ?_⟩
  all_goals
    unfold keysDigest
    iterate 4 rw [py_ofList]
    decide +kernel

example : ordersOnLast.keys.unique = some [[py "a"]] := by decide +kernel

theorem identity_ordersOnLast : ordersOnLast.identity = ordersOnBoth.identity := by
  have hboth : ordersOnBoth.identity = (py "table", py "public", py "orders") := rfl
  have hlast : ordersOnLast.identity = (py "table", py "public", py "orders") := rfl
  rw [hboth, hlast]

theorem kindSpec_ordersOnBoth : ordersOnBoth.kindSpec = some tableSpec := by
  have hkind : ordersOnBoth.kind = py "table" := rfl
  rw [SourceObject.kindSpec, hkind]
  rfl

/-- The removed key is not in the index by columns, and the added one makes the change additive. -/
theorem not_additiveOnly_removedKey :
    ¬ ∀ (sha256 : List UInt8 → PyStr), Function.Injective sha256 →
      ∀ (systems : List (Snapshot × Snapshot)),
        (∀ p ∈ systems, p.1.IsAccepted sha256 true ∧ p.2.IsAccepted sha256 true) →
        ∀ (oldGraph newGraph : LineageGraph), (oldGraph.edges.map GraphEdge.id).Nodup →
          (newGraph.edges.map GraphEdge.id).Nodup → ∀ diffs,
            finalizedDiffs oldGraph newGraph systems = some diffs → ∀ yaml kb result,
              Scan.scan yaml kb diffs newGraph = some result →
                Scan.buildLabels (some result) = [py "sync:additive-only"] →
                  NoneGone systems ∧ EveryObject systems (Preserved oldGraph newGraph) := by
  intro hlaw
  have hlabels : labelsOf (demoSnapshot [ordersOnBoth]) (demoSnapshot [ordersOnLast]) =
      some [py "sync:additive-only"] := by decide +kernel
  obtain ⟨diffs, hdiffs, result, hresult, hlabel⟩ := scan_of_labelsOf hlabels
  have haccepted : ∀ p ∈ [(demoSnapshot [ordersOnBoth], demoSnapshot [ordersOnLast])],
      p.1.IsAccepted keysDigest true ∧ p.2.IsAccepted keysDigest true := by
    intro p hp
    obtain rfl := List.mem_singleton.mp hp
    exact accepted_keys
  obtain ⟨-, hpreserved⟩ := hlaw keysDigest keysDigest_injective _ haccepted emptyGraph emptyGraph
    List.nodup_nil List.nodup_nil diffs hdiffs _ _ result hresult hlabel
  have hkept : keyOn (py "s.t") (by decide) ∈ ordersOnLast.keys.foreign.getD [] :=
    (everyObject_singleton List.mem_cons_self List.mem_cons_self identity_ordersOnLast
      kindSpec_ordersOnBoth hpreserved).foreign _ List.mem_cons_self
  revert hkept
  decide

end ContextLayer.Diff
