import ContextLayer.Scan
import ContextLayer.Proof.SnapshotDiff

/-!
# What the scan flags

The calls that flag a document come shortest path first, object by object, and the first call wins. The
search finds every node downstream on a shortest path, so what is recorded is minimal over the nodes that
flag. These are all that count, unless two nodes claim one sibling and the last of them hides the other.
-/

namespace ContextLayer.Scan

open Text StableSort Diff

/-! ### Classification -/

theorem mem_breakingOf {diff : SnapshotDiff} {b : PyStr} :
    b ∈ (breakingOf diff).map Prod.fst ↔ (∃ d ∈ diff.removed, objectFqn diff.system d = b) ∨
      ∃ d ∈ diff.changedStructural, d.severity = some .breaking ∧ objectFqn diff.system d = b := by
  simp only [breakingOf, List.map_append, List.map_map, List.mem_append, List.mem_map,
    List.mem_filter, decide_eq_true_eq, Function.comp_apply, and_assoc]

theorem mem_breaking {diffs : List SnapshotDiff} {b : PyStr} :
    b ∈ (classify diffs).breaking.map Prod.fst ↔ IsBroken diffs b := by
  have hkeys : b ∈ (classify diffs).breaking.map Prod.fst ↔
      b ∈ (diffs.flatMap breakingOf).map Prod.fst := by
    rw [List.mem_map, List.mem_map, ← Dict.isSome_get?_iff, ← Dict.isSome_get?_ofList]
    rfl
  rw [hkeys, List.map_flatMap, List.mem_flatMap]
  exact exists_congr fun diff => and_congr_right fun _ => mem_breakingOf

theorem nodup_breaking (diffs : List SnapshotDiff) :
    ((classify diffs).breaking.map Prod.fst).Nodup :=
  Dict.nodup_ofList _

/-! ### Documents -/

theorem loadFile_docs {yaml : PyStr → Option PyJson} {st st' : Loaded} {file : PyStr × PyStr}
    (h : loadFile yaml st file = some st') : st'.docs = st.docs ∨
      ∃ doc : Doc, doc.rel = file.1 ∧ st'.docs = st.docs ++ [doc] := by
  unfold loadFile at h
  dsimp only at h
  split at h
  · obtain rfl := Option.some.inj h
    exact .inl rfl
  · obtain ⟨machine, -, rfl⟩ := Option.map_eq_some_iff.mp h
    by_cases hmachine : (machine || ((Frontmatter.split yaml file.2).1.isNone &&
        isMachinePath (pathParts file.1))) = true
    · rw [if_pos hmachine]
      exact .inl rfl
    · rw [if_neg hmachine]
      exact .inr ⟨_, rfl, rfl⟩

theorem nodup_foldlM_loadFile {yaml : PyStr → Option PyJson} {files : List (PyStr × PyStr)}
    (hnodup : (files.map Prod.fst).Nodup) {st st' : Loaded}
    (h : files.foldlM (loadFile yaml) st = some st') (hst : (st.docs.map Doc.rel).Nodup)
    (hfresh : ∀ file ∈ files, file.1 ∉ st.docs.map Doc.rel) : (st'.docs.map Doc.rel).Nodup := by
  induction files generalizing st with
  | nil =>
      obtain rfl := Option.some.inj h
      exact hst
  | cons file rest ih =>
      rw [List.foldlM_cons] at h
      obtain ⟨mid, hmid, hrest⟩ := Option.bind_eq_some_iff.mp h
      rw [List.map_cons, List.nodup_cons] at hnodup
      rw [List.forall_mem_cons] at hfresh
      obtain hsame | ⟨doc, hrel, hdocs⟩ := loadFile_docs hmid
      · exact ih hnodup.2 hrest (hsame ▸ hst) (hsame ▸ hfresh.2)
      · refine ih hnodup.2 hrest ?_ fun file' hfile' => ?_
        · rw [hdocs, List.map_append]
          refine List.nodup_append.mpr ⟨hst, List.pairwise_singleton _ _, fun a ha b hb heq => ?_⟩
          obtain rfl := List.mem_singleton.mp hb
          exact hfresh.1 (hrel ▸ heq ▸ ha)
        · rw [hdocs, List.map_append, List.mem_append]
          rintro (hmem | hmem)
          · exact hfresh.2 file' hfile' hmem
          · refine hnodup.1 (List.mem_map.mpr ⟨file', hfile', ?_⟩)
            rw [← hrel]
            exact List.mem_singleton.mp hmem

theorem nodup_loadDocs {yaml : PyStr → Option PyJson} {kb : KbTree} {docs : List Doc}
    (h : loadDocs yaml kb = some docs) : (docs.map Doc.rel).Nodup := by
  obtain ⟨loaded, hloaded, hdocs⟩ := Option.bind_eq_some_iff.mp h
  have hnodup : (loaded.docs.map Doc.rel).Nodup :=
    nodup_foldlM_loadFile ((sortOn_perm.map Prod.fst).nodup_iff.mpr kb.nodup) hloaded
      List.nodup_nil fun _ _ => List.not_mem_nil
  have hrels : docs.map Doc.rel = loaded.docs.map Doc.rel := by
    clear h hnodup
    generalize loaded.docs = before at hdocs
    induction before generalizing docs with
    | nil =>
        obtain rfl := Option.some.inj hdocs
        rfl
    | cons doc rest ih =>
        rw [List.mapM_cons] at hdocs
        obtain ⟨first, hfirst, hdocs⟩ := Option.bind_eq_some_iff.mp hdocs
        obtain ⟨others, hothers, hdocs⟩ := Option.bind_eq_some_iff.mp hdocs
        obtain rfl := Option.some.inj hdocs
        obtain ⟨deps, -, rfl⟩ := Option.map_eq_some_iff.mp hfirst
        rw [List.map_cons, List.map_cons, ih hothers]
  rw [hrels]
  exact hnodup

/-! ### The walk -/

section

variable {graph : LineageGraph} {b r : PyStr} {path : List PyStr}

theorem mem_sortedArcs {arc : BreadthFirst.Arc PyStr PyStr} :
    arc ∈ (sortOn GraphEdge.id graph.edges).map GraphEdge.arc ↔
      arc ∈ graph.edges.map GraphEdge.arc := by
  simp only [List.mem_map, mem_sortOn]

theorem walk_of_mem (h : (r, path) ∈ contaminationWalk graph b) :
    BreadthFirst.Walk (graph.edges.map GraphEdge.arc) b path r :=
  (BreadthFirst.walk_of_search (Dict.get?_of_mem (BreadthFirst.nodup_search _ _) h)).mono
    fun _ harc => mem_sortedArcs.mp harc

theorem mem_of_walk (h : BreadthFirst.Walk (graph.edges.map GraphEdge.arc) b path r) :
    ∃ path', (r, path') ∈ contaminationWalk graph b ∧ path'.length ≤ path.length := by
  obtain ⟨path', hget, hle⟩ := BreadthFirst.search_of_walk (h.mono fun _ harc => mem_sortedArcs.mpr harc)
  exact ⟨path', Dict.mem_of_get? hget, hle⟩

end

/-! ### Siblings -/

section

variable {graph : LineageGraph} {doc : Doc} {r : PyStr}

theorem get?_siblingOf : Dict.get? (siblingOf graph) doc.rel = lastSibling graph doc := by
  have hget : ∀ nodes : List GraphNode, Dict.get? (nodes.flatMap fun n => n.doc.toList.map fun path =>
      (path.take (path.length - 10) ++ py ".md", n.id)) doc.rel =
      (nodes.find? fun n => n.doc.any fun path =>
        decide (path.take (path.length - 10) ++ py ".md" = doc.rel)).map GraphNode.id := by
    intro nodes
    induction nodes with
    | nil => rfl
    | cons n rest ih =>
        rw [List.flatMap_cons, Dict.get?_append, ih, List.find?_cons]
        cases n.doc with
        | none => rfl
        | some path =>
            rw [Option.toList_some, List.map_singleton, Dict.get?_cons, Dict.get?_nil,
              Option.any_some]
            by_cases hpath : path.take (path.length - 10) ++ py ".md" = doc.rel
            · rw [if_pos hpath, decide_eq_true hpath]
              rfl
            · rw [if_neg hpath, decide_eq_false hpath]
              rfl
  have hreverse : (graph.nodes.flatMap fun n => n.doc.toList.map fun path =>
      (path.take (path.length - 10) ++ py ".md", n.id)).reverse =
      graph.nodes.reverse.flatMap fun n => n.doc.toList.map fun path =>
        (path.take (path.length - 10) ++ py ".md", n.id) := by
    rw [List.reverse_flatMap]
    refine List.flatMap_congr fun n _ => ?_
    rw [Function.comp_apply]
    cases n.doc <;> rfl
  rw [siblingOf, Dict.get?_ofList, hreverse, hget, lastSibling, List.getLast?_filter]

theorem schemaSuffix_length : (py ".schema.md").length = 10 := by decide

theorem isSibling_of_lastSibling (h : lastSibling graph doc = some r) : IsSibling graph doc r := by
  obtain ⟨n, hn, rfl⟩ := Option.map_eq_some_iff.mp h
  obtain ⟨hmem, hany⟩ := List.mem_filter.mp (List.mem_of_getLast? hn)
  cases hdoc : n.doc with
  | none =>
      rw [hdoc] at hany
      cases hany
  | some path =>
      rw [hdoc, Option.any_some, decide_eq_true_eq] at hany
      obtain ⟨stem, rfl⟩ := n.doc_suffix path hdoc
      refine ⟨n, hmem, rfl, stem, hdoc, ?_⟩
      rw [← hany, List.length_append, schemaSuffix_length, Nat.add_sub_cancel, List.take_left]

end

/-! ### The calls of `flag` -/

/-- A document depends on a node, or the node is the one its sibling is taken for. -/
def Flags (graph : LineageGraph) (doc : Doc) (r : PyStr) : Prop :=
  r ∈ doc.deps ∨ lastSibling graph doc = some r

theorem flags_iff {graph : LineageGraph} {doc : Doc} {r : PyStr} :
    flags graph doc r = true ↔ Flags graph doc r := by
  rw [flags, Bool.or_eq_true, decide_eq_true_eq, decide_eq_true_eq, get?_siblingOf]
  rfl

/-- A call of `flag` for a document records the path. -/
def Calls (graph : LineageGraph) (doc : Doc) (b : PyStr) (path : List PyStr) : Prop :=
  (path = [] ∧ b ∈ doc.deps) ∨ (b ∈ graph.nodes.map GraphNode.id ∧
    ∃ r, r ≠ b ∧ Flags graph doc r ∧ (r, path) ∈ contaminationWalk graph b)

section

variable {docs : List Doc} {graph : LineageGraph} {b : PyStr × Impact}

theorem mem_filterMap_flagged {p : Doc → Bool} {path : List PyStr}
    {call : (PyStr × PyStr) × Reason} : call ∈ (docs.filter p).filterMap (flagged b path) ↔
      ∃ doc ∈ docs, doc.statusable = true ∧ p doc = true ∧
        call = ((doc.rel, b.1), ⟨b.1, b.2, path⟩) := by
  simp only [List.mem_filterMap, List.mem_filter, flagged, Option.ite_none_right_eq_some,
    Option.some.injEq, and_assoc]
  refine exists_congr fun doc => and_congr_right fun _ => ?_
  constructor
  · rintro ⟨hp, hstatusable, rfl⟩
    exact ⟨hstatusable, hp, rfl⟩
  · rintro ⟨hstatusable, hp, rfl⟩
    exact ⟨hp, hstatusable, rfl⟩

theorem mem_flaggedBy {call : (PyStr × PyStr) × Reason} : call ∈ flaggedBy docs graph b ↔
    ∃ doc ∈ docs, doc.statusable = true ∧ ∃ path, Calls graph doc b.1 path ∧
      call = ((doc.rel, b.1), ⟨b.1, b.2, path⟩) := by
  rw [flaggedBy, List.mem_append, mem_filterMap_flagged]
  have hwalked : (call ∈ if b.1 ∈ graph.nodes.map GraphNode.id then
      ((sortOn (fun reached => toLex (reached.2.length, reached.1))
        (contaminationWalk graph b.1)).filter fun reached => reached.1 ≠ b.1).flatMap fun reached =>
          (docs.filter fun doc => flags graph doc reached.1).filterMap (flagged b reached.2)
      else []) ↔ b.1 ∈ graph.nodes.map GraphNode.id ∧ ∃ r path, (r, path) ∈ contaminationWalk graph b.1 ∧
        r ≠ b.1 ∧ ∃ doc ∈ docs, doc.statusable = true ∧ flags graph doc r = true ∧
          call = ((doc.rel, b.1), ⟨b.1, b.2, path⟩) := by
    by_cases hnode : b.1 ∈ graph.nodes.map GraphNode.id
    · rw [if_pos hnode, and_iff_right hnode, List.mem_flatMap]
      simp only [List.mem_filter, mem_sortOn, mem_filterMap_flagged, decide_eq_true_eq, Prod.exists,
        and_assoc]
    · rw [if_neg hnode]
      exact iff_of_false List.not_mem_nil fun h => hnode h.1
  rw [hwalked]
  constructor
  · rintro (⟨doc, hdoc, hstatusable, hdeps, rfl⟩ |
      ⟨hnode, r, path, hwalk, hne, doc, hdoc, hstatusable, hflags, rfl⟩)
    · exact ⟨doc, hdoc, hstatusable, [], .inl ⟨rfl, of_decide_eq_true hdeps⟩, rfl⟩
    · exact ⟨doc, hdoc, hstatusable, path, .inr ⟨hnode, r, hne, flags_iff.mp hflags, hwalk⟩, rfl⟩
  · rintro ⟨doc, hdoc, hstatusable, path, ⟨rfl, hdeps⟩ | ⟨hnode, r, hne, hflags, hwalk⟩, rfl⟩
    · exact .inl ⟨doc, hdoc, hstatusable, decide_eq_true hdeps, rfl⟩
    · exact .inr ⟨hnode, r, path, hwalk, hne, doc, hdoc, hstatusable, flags_iff.mpr hflags, rfl⟩

/-- Of the calls for one document and object, an earlier one records no longer a path. -/
def NoLonger (call call' : (PyStr × PyStr) × Reason) : Prop :=
  call.1 = call'.1 → call.2.path.length ≤ call'.2.path.length

theorem path_of_mem_flagged {p : Doc → Bool} {path : List PyStr} {call : (PyStr × PyStr) × Reason}
    (h : call ∈ (docs.filter p).filterMap (flagged b path)) : call.2.path = path := by
  obtain ⟨doc, -, -, -, rfl⟩ := mem_filterMap_flagged.mp h
  rfl

theorem pairwise_flaggedBy : (flaggedBy docs graph b).Pairwise NoLonger := by
  have hsame : ∀ (p : Doc → Bool) path,
      ((docs.filter p).filterMap (flagged b path)).Pairwise NoLonger := by
    intro p path
    refine List.Pairwise.imp_of_mem ?_ (List.pairwise_of_forall fun _ _ => trivial)
    intro call call' hcall hcall' _ _
    rw [path_of_mem_flagged hcall, path_of_mem_flagged hcall']
  rw [flaggedBy, List.pairwise_append]
  refine ⟨hsame _ _, ?_, fun call hcall _ _ _ => ?_⟩
  · by_cases hnode : b.1 ∈ graph.nodes.map GraphNode.id
    · rw [if_pos hnode, List.pairwise_flatMap]
      refine ⟨fun reached _ => hsame _ _, (sortOn_pairwise.filter _).imp ?_⟩
      intro reached reached' hle call hcall call' hcall' _
      rw [path_of_mem_flagged hcall, path_of_mem_flagged hcall']
      exact (Prod.Lex.monotone_fst _ _ hle :)
    · rw [if_neg hnode]
      exact .nil
  · rw [path_of_mem_flagged hcall]
    exact Nat.zero_le _

end

/-! ### The reasons -/

/-- The first entry under a key is the shortest, where no later one is shorter. -/
theorem get?_noLonger {calls : List ((PyStr × PyStr) × Reason)} (h : calls.Pairwise NoLonger)
    {k : PyStr × PyStr} {r r' : Reason} (hget : Dict.get? calls k = some r) (hmem : (k, r') ∈ calls) :
    r.path.length ≤ r'.path.length := by
  induction calls with
  | nil => cases hmem
  | cons call rest ih =>
      obtain ⟨k₀, r₀⟩ := call
      rw [List.pairwise_cons] at h
      rw [Dict.get?_cons] at hget
      by_cases hk : k₀ = k
      · subst hk
        rw [if_pos rfl] at hget
        obtain rfl := Option.some.inj hget
        obtain heq | hmem := List.mem_cons.mp hmem
        · rw [(Prod.mk.inj heq).2]
        · exact h.1 _ hmem rfl
      · rw [if_neg hk] at hget
        refine ih h.2 hget ((List.mem_cons.mp hmem).resolve_left fun heq => hk ?_)
        exact (Prod.mk.inj heq).1.symm

section

variable {docs : List Doc} {graph : LineageGraph} {breaking : List (PyStr × Impact)}

theorem reasons_spec (docs : List Doc) (graph : LineageGraph) (breaking : List (PyStr × Impact)) :
    ((reasons docs graph breaking).map Prod.fst).Nodup ∧
      ∀ k, Dict.get? (reasons docs graph breaking) k =
        Dict.get? ((sortOn Prod.fst breaking).flatMap (flaggedBy docs graph)) k :=
  Dict.foldl_setDefault _

theorem pairwise_calls (hnodup : (breaking.map Prod.fst).Nodup) :
    ((sortOn Prod.fst breaking).flatMap (flaggedBy docs graph)).Pairwise NoLonger := by
  rw [List.pairwise_flatMap]
  refine ⟨fun b _ => pairwise_flaggedBy, ?_⟩
  have hdistinct : ((sortOn Prod.fst breaking).map Prod.fst).Nodup :=
    (sortOn_perm.map Prod.fst).nodup_iff.mpr hnodup
  refine (List.pairwise_map.mp hdistinct).imp fun hne => ?_
  intro call hcall call' hcall' hkey
  obtain ⟨doc, -, -, path, -, rfl⟩ := mem_flaggedBy.mp hcall
  obtain ⟨doc', -, -, path', -, rfl⟩ := mem_flaggedBy.mp hcall'
  exact absurd (congrArg Prod.snd hkey) hne

theorem mem_calls {call : (PyStr × PyStr) × Reason} :
    call ∈ (sortOn Prod.fst breaking).flatMap (flaggedBy docs graph) ↔
      ∃ o impact, (o, impact) ∈ breaking ∧ ∃ doc ∈ docs, doc.statusable = true ∧
        ∃ path, Calls graph doc o path ∧ call = ((doc.rel, o), ⟨o, impact, path⟩) := by
  simp only [List.mem_flatMap, mem_sortOn, mem_flaggedBy, Prod.exists]

theorem eq_of_rel (hdocs : (docs.map Doc.rel).Nodup) {doc doc' : Doc} (hdoc : doc ∈ docs)
    (hdoc' : doc' ∈ docs) (h : doc.rel = doc'.rel) : doc = doc' :=
  List.inj_on_of_nodup_map hdocs hdoc hdoc' h

/-- **A reason** records a shortest path of those its calls had. -/
theorem shortest_of_reason (hnodup : (breaking.map Prod.fst).Nodup)
    (hdocs : (docs.map Doc.rel).Nodup) {doc : Doc} (hdoc : doc ∈ docs) {o : PyStr} {r : Reason}
    (h : Dict.get? (reasons docs graph breaking) (doc.rel, o) = some r) :
    o ∈ breaking.map Prod.fst ∧ doc.statusable = true ∧ r.object = o ∧ Calls graph doc o r.path ∧
      ∀ path, Calls graph doc o path → r.path.length ≤ path.length := by
  rw [(reasons_spec docs graph breaking).2] at h
  obtain ⟨o', impact, hbreaking, doc', hdoc', hstatusable, path, hcalls, heq⟩ :=
    mem_calls.mp (Dict.mem_of_get? h)
  obtain ⟨hkey, rfl⟩ := Prod.mk.inj heq
  obtain ⟨hrel, rfl⟩ := Prod.mk.inj hkey
  obtain rfl := eq_of_rel hdocs hdoc hdoc' hrel
  refine ⟨List.mem_map.mpr ⟨_, hbreaking, rfl⟩, hstatusable, rfl, hcalls, fun path' hcalls' => ?_⟩
  exact get?_noLonger (pairwise_calls hnodup) h
    (mem_calls.mpr ⟨o, impact, hbreaking, doc, hdoc, hstatusable, path', hcalls', rfl⟩)

theorem exists_reason {doc : Doc} (hdoc : doc ∈ docs) (hstatusable : doc.statusable = true) {o : PyStr}
    (ho : o ∈ breaking.map Prod.fst) {path : List PyStr} (hcalls : Calls graph doc o path) :
    ∃ r, Dict.get? (reasons docs graph breaking) (doc.rel, o) = some r := by
  obtain ⟨⟨o, impact⟩, hbreaking, rfl⟩ := List.mem_map.mp ho
  rw [← Option.isSome_iff_exists, (reasons_spec docs graph breaking).2, Dict.isSome_get?_iff]
  exact ⟨_, mem_calls.mpr ⟨o, impact, hbreaking, doc, hdoc, hstatusable, path, hcalls, rfl⟩, rfl⟩

/-- Every entry is about a document. -/
theorem doc_of_mem_reasons {k : PyStr × PyStr} {r : Reason} (h : (k, r) ∈ reasons docs graph breaking) :
    ∃ doc ∈ docs, doc.rel = k.1 := by
  have hget := Dict.get?_of_mem (reasons_spec docs graph breaking).1 h
  rw [(reasons_spec docs graph breaking).2] at hget
  obtain ⟨o, impact, -, doc, hdoc, -, path, -, heq⟩ := mem_calls.mp (Dict.mem_of_get? hget)
  exact ⟨doc, hdoc, congrArg (fun call => call.1.1) heq.symm⟩

end

/-! ### The entries -/

section

variable {docs : List Doc} {rs : List ((PyStr × PyStr) × Reason)} {rel : PyStr}

theorem mem_reasonsOf {r : Reason} : r ∈ reasonsOf rs rel ↔ ∃ o, ((rel, o), r) ∈ rs := by
  simp only [reasonsOf, mem_sortOn, List.mem_map, List.mem_filter, decide_eq_true_eq, Prod.exists,
    exists_eq_right]
  constructor
  · rintro ⟨_, o, hmem, rfl⟩
    exact ⟨o, hmem⟩
  · rintro ⟨o, hmem⟩
    exact ⟨rel, o, hmem, rfl⟩

theorem nodup_objects (hnodup : (rs.map Prod.fst).Nodup)
    (hobject : ∀ e ∈ rs, e.2.object = e.1.2) : ((reasonsOf rs rel).map Reason.object).Nodup := by
  have hkeys : (((rs.filter fun r => r.1.1 = rel).map Prod.fst).map Prod.snd).Nodup := by
    refine List.Nodup.map_on ?_ (hnodup.sublist (List.filter_sublist.map Prod.fst))
    intro k hk k' hk' heq
    obtain ⟨e, he, rfl⟩ := List.mem_map.mp hk
    obtain ⟨e', he', rfl⟩ := List.mem_map.mp hk'
    have hrel := of_decide_eq_true (List.mem_filter.mp he).2
    have hrel' := of_decide_eq_true (List.mem_filter.mp he').2
    exact Prod.ext (hrel.trans hrel'.symm) heq
  have hobjects : ((rs.filter fun r => r.1.1 = rel).map Prod.snd).map Reason.object =
      ((rs.filter fun r => r.1.1 = rel).map Prod.fst).map Prod.snd := by
    rw [List.map_map, List.map_map]
    exact List.map_congr_left fun e he => hobject e (List.mem_filter.mp he).1
  refine ((sortOn_perm.map Reason.object).nodup_iff).mpr ?_
  rw [hobjects]
  exact hkeys

theorem contaminatedEntry_eq_some {c : Contaminated} (h : contaminatedEntry docs rs rel = some c) :
    c.doc = rel ∧ c.reasons = reasonsOf rs rel ∧ (reasonsOf rs rel).head? = some c.contamination := by
  obtain ⟨doc, -, h⟩ := Option.bind_eq_some_iff.mp h
  obtain ⟨first, hfirst, h⟩ := Option.bind_eq_some_iff.mp h
  obtain rfl := Option.some.inj h
  exact ⟨rfl, rfl, hfirst⟩

theorem exists_contaminatedEntry {doc : Doc} (hdoc : doc ∈ docs) (hrel : doc.rel = rel)
    (hmem : rel ∈ rs.map fun r => r.1.1) : ∃ c, contaminatedEntry docs rs rel = some c := by
  have hfind : (docs.find? fun doc => doc.rel = rel).isSome := by
    rw [List.find?_isSome]
    exact ⟨doc, hdoc, decide_eq_true hrel⟩
  obtain ⟨doc', hdoc'⟩ := Option.isSome_iff_exists.mp hfind
  obtain ⟨⟨⟨rel', o⟩, r⟩, hr, heq⟩ := List.mem_map.mp hmem
  obtain rfl : rel' = rel := heq
  have hne : reasonsOf rs rel' ≠ [] := List.ne_nil_of_mem (mem_reasonsOf.mpr ⟨o, hr⟩)
  obtain ⟨first, rest, hcons⟩ := List.exists_cons_of_ne_nil hne
  refine ⟨⟨rel', doc'.status, first, reasonsOf rs rel'⟩, ?_⟩
  rw [contaminatedEntry, hdoc', hcons]
  rfl

/-- The first of the sorted reasons is minimal. -/
theorem head_minimal {first : Reason} (h : (reasonsOf rs rel).head? = some first) :
    first ∈ reasonsOf rs rel ∧ ∀ r ∈ reasonsOf rs rel, first.sortKey ≤ r.sortKey := by
  have hsorted : (reasonsOf rs rel).Pairwise fun r r' => r.sortKey ≤ r'.sortKey := sortOn_pairwise
  obtain ⟨rest, hcons⟩ := List.head?_eq_some_iff.mp h
  rw [hcons] at hsorted ⊢
  rw [List.pairwise_cons] at hsorted
  exact ⟨List.mem_cons_self, List.forall_mem_cons.mpr ⟨le_rfl, hsorted.1⟩⟩

end

/-! ### The whole scan -/

section

variable {yaml : PyStr → Option PyJson} {kb : KbTree} {diffs : List SnapshotDiff}
  {graph : LineageGraph} {docs : List Doc}

theorem reaches_of_calls {doc : Doc} {b : PyStr} {path : List PyStr} (hb : b ∉ doc.deps)
    (h : Calls graph doc b path) : b ∈ graph.nodes.map GraphNode.id ∧ Reaches graph doc b path := by
  obtain ⟨-, hdeps⟩ | ⟨hnode, r, hne, hflags, hwalk⟩ := h
  · exact absurd hdeps hb
  · exact ⟨hnode, r, hne, hflags.imp_right isSibling_of_lastSibling, walk_of_mem hwalk⟩

theorem contaminates_of_calls {doc : Doc} {b : PyStr} {path : List PyStr}
    (h : Calls graph doc b path) : Contaminates graph doc b := by
  by_cases hb : b ∈ doc.deps
  · exact .inl hb
  · obtain ⟨hnode, hreaches⟩ := reaches_of_calls hb h
    exact .inr ⟨hnode, path, hreaches⟩

/-- Where nothing is shadowed, whatever is reached is called for, on no longer a path. -/
theorem calls_of_reaches (hshadow : Unshadowed docs diffs graph) {doc : Doc} (hdoc : doc ∈ docs)
    (hstatusable : doc.statusable = true) {b : PyStr} (hbroken : IsBroken diffs b)
    (hb : b ∉ doc.deps) (hnode : b ∈ graph.nodes.map GraphNode.id) {path : List PyStr}
    (h : Reaches graph doc b path) : ∃ path', Calls graph doc b path' ∧ path'.length ≤ path.length := by
  obtain ⟨r, hne, hconcerns, hwalk⟩ := h
  obtain ⟨r', hne', hflags, path', hwalk', hle⟩ : ∃ r', r' ≠ b ∧ Flags graph doc r' ∧
      ∃ path', BreadthFirst.Walk (graph.edges.map GraphEdge.arc) b path' r' ∧
        path'.length ≤ path.length := by
    obtain hdeps | hsibling := hconcerns
    · exact ⟨r, hne, .inl hdeps, path, hwalk, le_rfl⟩
    · exact hshadow doc hdoc hstatusable b hbroken hb hnode r hne hsibling path hwalk
  obtain ⟨path'', hmem, hle'⟩ := mem_of_walk hwalk'
  exact ⟨path'', .inr ⟨hnode, r', hne', hflags, hmem⟩, hle'.trans hle⟩

theorem exists_calls (hshadow : Unshadowed docs diffs graph) {doc : Doc} (hdoc : doc ∈ docs)
    (hstatusable : doc.statusable = true) {b : PyStr} (hbroken : IsBroken diffs b)
    (h : Contaminates graph doc b) : ∃ path, Calls graph doc b path := by
  by_cases hb : b ∈ doc.deps
  · exact ⟨[], .inl ⟨rfl, hb⟩⟩
  · obtain ⟨hnode, path, hreaches⟩ := h.resolve_left hb
    obtain ⟨path', hcalls, -⟩ :=
      calls_of_reaches hshadow hdoc hstatusable hbroken hb hnode hreaches
    exact ⟨path', hcalls⟩

theorem scan_eq_some {result : ScanResult} (h : scan yaml kb diffs graph = some result) :
    ∃ docs, loadDocs yaml kb = some docs ∧ result.contaminated =
      (sortOn id ((reasons docs graph (classify diffs).breaking).map fun r => r.1.1).dedup).filterMap
        (contaminatedEntry docs (reasons docs graph (classify diffs).breaking)) := by
  obtain ⟨docs, hdocs, h⟩ := Option.bind_eq_some_iff.mp h
  obtain rfl := Option.some.inj h
  exact ⟨docs, hdocs, rfl⟩

theorem exists_scan (h : loadDocs yaml kb = some docs) :
    ∃ result, scan yaml kb diffs graph = some result := by
  rw [scan, h]
  exact ⟨_, rfl⟩

variable {result : ScanResult}

/-- The entries are those of the documents that have reasons. -/
theorem mem_contaminated (hdocs : loadDocs yaml kb = some docs)
    (h : scan yaml kb diffs graph = some result) {c : Contaminated} : c ∈ result.contaminated ↔
      contaminatedEntry docs (reasons docs graph (classify diffs).breaking) c.doc = some c := by
  obtain ⟨docs', hdocs', hcontaminated⟩ := scan_eq_some h
  obtain rfl := Option.some.inj (hdocs.symm.trans hdocs')
  simp only [hcontaminated, List.mem_filterMap, mem_sortOn, List.mem_dedup]
  constructor
  · rintro ⟨rel, -, hentry⟩
    obtain ⟨rfl, -, -⟩ := contaminatedEntry_eq_some hentry
    exact hentry
  · intro hentry
    obtain ⟨-, -, hfirst⟩ := contaminatedEntry_eq_some hentry
    obtain ⟨o, hmem⟩ := mem_reasonsOf.mp (head_minimal hfirst).1
    exact ⟨c.doc, List.mem_map.mpr ⟨_, hmem, rfl⟩, hentry⟩

/-- A document has an entry exactly when some object calls for it. -/
theorem mem_contaminated_doc (hdocs : loadDocs yaml kb = some docs)
    (h : scan yaml kb diffs graph = some result) {rel : PyStr} :
    rel ∈ result.contaminated.map Contaminated.doc ↔ ∃ doc ∈ docs, doc.rel = rel ∧
      doc.statusable = true ∧ ∃ b, IsBroken diffs b ∧ ∃ path, Calls graph doc b path := by
  have hnodup := nodup_loadDocs hdocs
  have hspec := reasons_spec docs graph (classify diffs).breaking
  constructor
  · intro hmem
    obtain ⟨c, hc, rfl⟩ := List.mem_map.mp hmem
    obtain ⟨-, -, hfirst⟩ := contaminatedEntry_eq_some ((mem_contaminated hdocs h).mp hc)
    obtain ⟨o, hentry⟩ := mem_reasonsOf.mp (head_minimal hfirst).1
    obtain ⟨doc, hdoc, hrel⟩ : ∃ doc ∈ docs, doc.rel = c.doc := doc_of_mem_reasons hentry
    have hget := Dict.get?_of_mem hspec.1 hentry
    rw [← hrel] at hget
    obtain ⟨hbreaking, hstatusable, -, hcalls, -⟩ :=
      shortest_of_reason (nodup_breaking diffs) hnodup hdoc hget
    exact ⟨doc, hdoc, hrel, hstatusable, o, mem_breaking.mp hbreaking, _, hcalls⟩
  · rintro ⟨doc, hdoc, rfl, hstatusable, b, hbroken, path, hcalls⟩
    obtain ⟨r, hget⟩ := exists_reason hdoc hstatusable (mem_breaking.mpr hbroken) hcalls
    have hmem : doc.rel ∈ (reasons docs graph (classify diffs).breaking).map fun r => r.1.1 :=
      List.mem_map.mpr ⟨_, Dict.mem_of_get? hget, rfl⟩
    obtain ⟨c, hentry⟩ := exists_contaminatedEntry hdoc rfl hmem
    obtain ⟨hrel, -, -⟩ := contaminatedEntry_eq_some hentry
    exact List.mem_map.mpr ⟨c, (mem_contaminated hdocs h).mpr (hrel.symm ▸ hentry), hrel⟩

/-- What the reasons of an entry record. -/
theorem mem_reasons (hdocs : loadDocs yaml kb = some docs)
    (h : scan yaml kb diffs graph = some result) {c : Contaminated} (hc : c ∈ result.contaminated)
    {doc : Doc} (hdoc : doc ∈ docs) (hrel : doc.rel = c.doc) {r : Reason} :
    r ∈ c.reasons ↔ Dict.get? (reasons docs graph (classify diffs).breaking) (doc.rel, r.object) =
      some r := by
  have hnodup := nodup_loadDocs hdocs
  have hspec := reasons_spec docs graph (classify diffs).breaking
  obtain ⟨-, hreasons, -⟩ := contaminatedEntry_eq_some ((mem_contaminated hdocs h).mp hc)
  rw [hreasons, mem_reasonsOf, ← hrel]
  constructor
  · rintro ⟨o, hmem⟩
    have hget := Dict.get?_of_mem hspec.1 hmem
    obtain ⟨-, -, rfl, -⟩ := shortest_of_reason (nodup_breaking diffs) hnodup hdoc hget
    exact hget
  · exact fun hget => ⟨r.object, Dict.mem_of_get? hget⟩

theorem exact_of_unshadowed (hdocs : loadDocs yaml kb = some docs)
    (h : scan yaml kb diffs graph = some result) (hshadow : Unshadowed docs diffs graph) :
    result.Exact docs diffs graph := by
  have hnodup := nodup_loadDocs hdocs
  have hspec := reasons_spec docs graph (classify diffs).breaking
  refine ⟨fun rel => ?_, fun c hc doc hdoc hrel => ⟨?_, fun b => ?_, fun r hr => ?_⟩, fun c hc => ?_⟩
  · rw [mem_contaminated_doc hdocs h]
    constructor
    · rintro ⟨doc, hdoc, hrel, hstatusable, b, hbroken, path, hcalls⟩
      exact ⟨doc, hdoc, hrel, hstatusable, b, hbroken, contaminates_of_calls hcalls⟩
    · rintro ⟨doc, hdoc, hrel, hstatusable, b, hbroken, hcontaminates⟩
      exact ⟨doc, hdoc, hrel, hstatusable, b, hbroken,
        exists_calls hshadow hdoc hstatusable hbroken hcontaminates⟩
  · obtain ⟨-, hreasons, -⟩ := contaminatedEntry_eq_some ((mem_contaminated hdocs h).mp hc)
    rw [hreasons]
    refine nodup_objects hspec.1 fun e he => ?_
    obtain ⟨⟨rel, o⟩, r⟩ := e
    obtain ⟨doc', hdoc', hrel'⟩ : ∃ doc' ∈ docs, doc'.rel = rel := doc_of_mem_reasons he
    have hget := Dict.get?_of_mem hspec.1 he
    rw [← hrel'] at hget
    exact (shortest_of_reason (nodup_breaking diffs) hnodup hdoc' hget).2.2.1
  · constructor
    · intro hb
      obtain ⟨r, hr, rfl⟩ := List.mem_map.mp hb
      obtain ⟨hbreaking, -, -, hcalls, -⟩ := shortest_of_reason (nodup_breaking diffs) hnodup hdoc
        ((mem_reasons hdocs h hc hdoc hrel).mp hr)
      exact ⟨mem_breaking.mp hbreaking, contaminates_of_calls hcalls⟩
    · rintro ⟨hbroken, hcontaminates⟩
      have hstatusable : doc.statusable = true := by
        obtain ⟨doc', hdoc', hrel', hstatusable, -⟩ :=
          (mem_contaminated_doc hdocs h).mp (List.mem_map.mpr ⟨c, hc, rfl⟩)
        rwa [eq_of_rel hnodup hdoc hdoc' (hrel.trans hrel'.symm)]
      obtain ⟨path, hcalls⟩ := exists_calls hshadow hdoc hstatusable hbroken hcontaminates
      obtain ⟨r, hget⟩ := exists_reason hdoc hstatusable (mem_breaking.mpr hbroken) hcalls
      obtain ⟨-, -, rfl, -⟩ := shortest_of_reason (nodup_breaking diffs) hnodup hdoc hget
      exact List.mem_map.mpr ⟨r, (mem_reasons hdocs h hc hdoc hrel).mpr hget, rfl⟩
  · obtain ⟨hbreaking, hstatusable, -, hcalls, hshortest⟩ := shortest_of_reason
      (nodup_breaking diffs) hnodup hdoc ((mem_reasons hdocs h hc hdoc hrel).mp hr)
    constructor
    · intro hb
      have hle := hshortest [] (.inl ⟨rfl, hb⟩)
      exact List.eq_nil_of_length_eq_zero (Nat.le_zero.mp hle)
    · intro hb
      obtain ⟨hnode, hreaches⟩ := reaches_of_calls hb hcalls
      refine ⟨hreaches, fun path' hreaches' => ?_⟩
      obtain ⟨path'', hcalls', hle⟩ := calls_of_reaches hshadow hdoc hstatusable
        (mem_breaking.mp hbreaking) hb hnode hreaches'
      exact (hshortest path'' hcalls').trans hle
  · obtain ⟨-, hreasons, hfirst⟩ := contaminatedEntry_eq_some ((mem_contaminated hdocs h).mp hc)
    rw [hreasons]
    exact head_minimal hfirst

theorem unshadowed_of_exact (hdocs : loadDocs yaml kb = some docs)
    (h : scan yaml kb diffs graph = some result) (hexact : result.Exact docs diffs graph) :
    Unshadowed docs diffs graph := by
  intro doc hdoc hstatusable b hbroken hb hnode r hne hsibling path hwalk
  have hreaches : Reaches graph doc b path := ⟨r, hne, .inr hsibling, hwalk⟩
  have hcontaminates : Contaminates graph doc b := .inr ⟨hnode, path, hreaches⟩
  obtain ⟨c, hc, hrel⟩ := List.mem_map.mp ((hexact.contaminated doc.rel).mpr
    ⟨doc, hdoc, rfl, hstatusable, b, hbroken, hcontaminates⟩)
  obtain ⟨-, hobjects, hpaths⟩ := hexact.reasons c hc doc hdoc hrel.symm
  obtain ⟨reason, hreason, rfl⟩ := List.mem_map.mp ((hobjects b).mpr ⟨hbroken, hcontaminates⟩)
  obtain ⟨-, -, -, hcalls, -⟩ := shortest_of_reason (nodup_breaking diffs) (nodup_loadDocs hdocs) hdoc
    ((mem_reasons hdocs h hc hdoc hrel.symm).mp hreason)
  obtain ⟨-, hdeps⟩ | ⟨-, r', hne', hflags, hmem⟩ := hcalls
  · exact absurd hdeps hb
  · exact ⟨r', hne', hflags, reason.path, walk_of_mem hmem,
      ((hpaths reason hreason).downstream hb).2 path hreaches⟩

/-- **The scan** is sound and complete exactly where the documents load and no node that counts is
shadowed. -/
theorem exact_iff : (∃ docs result, loadDocs yaml kb = some docs ∧
      scan yaml kb diffs graph = some result ∧ result.Exact docs diffs graph) ↔
    ∃ docs, loadDocs yaml kb = some docs ∧ Unshadowed docs diffs graph := by
  constructor
  · rintro ⟨docs, result, hdocs, hscan, hexact⟩
    exact ⟨docs, hdocs, unshadowed_of_exact hdocs hscan hexact⟩
  · rintro ⟨docs, hdocs, hshadow⟩
    obtain ⟨result, hscan⟩ := exists_scan hdocs
    exact ⟨docs, result, hdocs, hscan, exact_of_unshadowed hdocs hscan hshadow⟩

end

/-! ### Two systems in one directory -/

def nodeOf (id path : PyStr) (h : py ".schema.md" <:+ path) : GraphNode where
  id := id
  doc := some path
  doc_suffix := fun _ hpath => Option.some.inj hpath ▸ h

/-- A view `orders` over a table `raw` in each of the systems `Shop` and `shop`. -/
def shopGraph : LineageGraph where
  nodes := [nodeOf (py "Shop.public.orders") (py "systems/shop/public/orders.schema.md") (by decide),
    nodeOf (py "Shop.public.raw") (py "systems/shop/public/raw.schema.md") (by decide),
    nodeOf (py "shop.public.orders") (py "systems/shop/public/orders.schema.md") (by decide),
    nodeOf (py "shop.public.raw") (py "systems/shop/public/raw.schema.md") (by decide)]
  edges := [⟨py "sha256:0", py "Shop.public.raw", py "Shop.public.orders", []⟩,
    ⟨py "sha256:1", py "shop.public.raw", py "shop.public.orders", []⟩]
  endpoints := by decide

def ordersFrontmatter : PyStr := py "doc_class: object\nstatus: verified\n"

def ordersYaml (raw : PyStr) : Option PyJson :=
  if raw = ordersFrontmatter then
    some (.obj [(py "doc_class", .str (py "object")), (py "status", .str (py "verified"))])
  else none

/-- The document beside both machine documents of `orders`. -/
def ordersKb : KbTree where
  files := [(py "systems/shop/public/orders.md", py "---\n" ++ ordersFrontmatter ++ py "---\n")]
  nodup := List.pairwise_singleton _ _

def ordersDoc : Doc where
  rel := py "systems/shop/public/orders.md"
  fm := [(py "doc_class", .str (py "object")), (py "status", .str (py "verified"))]
  body := []
  deps := []

/-- `Shop.public.raw` is gone. -/
def rawRemoved : SnapshotDiff where
  system := py "Shop"
  added := []
  removed := [⟨(py "table", py "public", py "raw"), .removed, some .breaking, none, none, [], [], []⟩]
  changedStructural := []
  changedMetadataOnly := []
  unchanged := []
  skippedUnknownKinds := []
  sourcePropertiesChanged := false

theorem loadDocs_ordersKb : loadDocs ordersYaml ordersKb = some [ordersDoc] := by rfl

/-- The node of the other system takes the sibling, and the document of a broken view is trusted. -/
theorem not_exact_sharedSibling : ¬ ∃ docs result, loadDocs ordersYaml ordersKb = some docs ∧
    scan ordersYaml ordersKb [rawRemoved] shopGraph = some result ∧
      result.Exact docs [rawRemoved] shopGraph := by
  rintro ⟨docs, result, hdocs, hscan, hexact⟩
  have hshadow := unshadowed_of_exact hdocs hscan hexact
  obtain rfl := Option.some.inj (hdocs.symm.trans loadDocs_ordersKb)
  have hbroken : IsBroken [rawRemoved] (py "Shop.public.raw") :=
    ⟨rawRemoved, List.mem_cons_self, .inl ⟨_, List.mem_cons_self, by decide⟩⟩
  have hsibling : IsSibling shopGraph ordersDoc (py "Shop.public.orders") :=
    ⟨_, List.mem_cons_self, rfl, py "systems/shop/public/orders", by decide, by decide⟩
  have hwalk : BreadthFirst.Walk (shopGraph.edges.map GraphEdge.arc) (py "Shop.public.raw")
      [py "sha256:0"] (py "Shop.public.orders") := by
    have harc : (⟨py "Shop.public.raw", py "sha256:0", py "Shop.public.orders"⟩ :
        BreadthFirst.Arc PyStr PyStr) ∈ shopGraph.edges.map GraphEdge.arc := List.mem_cons_self
    exact .cons harc (.nil _)
  obtain ⟨r, -, hflags, path, hpath, -⟩ := hshadow ordersDoc List.mem_cons_self (by decide) _ hbroken
    List.not_mem_nil (by decide) _ (by decide) hsibling _ hwalk
  have hlast : lastSibling shopGraph ordersDoc = some (py "shop.public.orders") := by decide
  obtain rfl := Option.some.inj (hlast.symm.trans (hflags.resolve_left List.not_mem_nil))
  have hclosed : py "shop.public.orders" ∈ [py "Shop.public.raw", py "Shop.public.orders"] :=
    hpath.closed (by decide) List.mem_cons_self
  revert hclosed
  decide

end ContextLayer.Scan
