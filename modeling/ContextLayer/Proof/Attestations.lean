import ContextLayer.Attestations
import ContextLayer.Proof.PyText
import ContextLayer.Proof.Snapshot

/-!
# Order and repetition of attestations

An edge is made of sets, so it does not matter in which order its claims come or how often. A node is
described by the first claim that resolves it.
-/

namespace ContextLayer.Lineage

open Text StableSort PyText

/-! ### Identities -/

def Attestation.triple (a : Attestation) : PyStr × PyStr × PyStr := (a.source, a.target, a.operation)

def Attestation.payload (a : Attestation) : PyStr := Lineage.payload a.source a.target a.operation

def MergedEdge.triple (e : MergedEdge) : PyStr × PyStr × PyStr := (e.source, e.target, e.operation)

/-- What the merge asks of every attestation. -/
structure Attestation.Accepted (a : Attestation) : Prop where
  operation : a.operation ∈ operations
  tier : a.evidence.tier ∈ tierOrder
  source : a.source.any CodePoint.isLone = false
  target : a.target.any CodePoint.isLone = false

instance (a : Attestation) : Decidable a.Accepted :=
  decidable_of_iff (a.operation ∈ operations ∧ a.evidence.tier ∈ tierOrder ∧
      a.source.any CodePoint.isLone = false ∧ a.target.any CodePoint.isLone = false)
    ⟨fun ⟨h₁, h₂, h₃, h₄⟩ => ⟨h₁, h₂, h₃, h₄⟩, fun h => ⟨h.operation, h.tier, h.source, h.target⟩⟩

/-- The hashed texts of two edges are the same only where the edges are. -/
def Distinct (l : List Attestation) : Prop :=
  ∀ a ∈ l, ∀ b ∈ l, a.payload = b.payload → a.triple = b.triple

theorem operations_plain : ∀ o ∈ operations, o.any CodePoint.isLone = false ∧ .unit 0x0A ∉ o := by
  decide

instance (l : List Attestation) : Decidable (Distinct l) :=
  inferInstanceAs (Decidable (∀ a ∈ l, ∀ b ∈ l, _ → _))

/-- Names on one line are told apart. -/
theorem distinct_of_unbroken {l : List Attestation}
    (hsource : ∀ a ∈ l, .unit 0x0A ∉ a.source) (htarget : ∀ a ∈ l, .unit 0x0A ∉ a.target) :
    Distinct l := by
  intro a ha b hb h
  have hnewline : py "\n" = [.unit 0x0A] := by decide
  simp only [Attestation.payload, Lineage.payload, hnewline, List.append_assoc,
    List.singleton_append] at h
  obtain ⟨hs, h⟩ := append_mark_inj (hsource a ha) (hsource b hb) h
  obtain ⟨ht, ho⟩ := append_mark_inj (htarget a ha) (htarget b hb) h
  simp only [Attestation.triple, hs, ht, ho]

variable {sha256 : List UInt8 → PyStr} {l l' : List Attestation} {graph : Merged}

/-- The key of an attestation in `edges`. -/
def keyOf (sha256 : List UInt8 → PyStr) (a : Attestation) : PyStr :=
  (edgeId sha256 a.source a.target a.operation).getD []

theorem Attestation.Accepted.encode {a : Attestation} (h : a.Accepted) :
    encodeUtf8 a.payload = some (a.payload.flatMap fun p => utf8Scalar p.scalar) := by
  have hlone : a.payload.any CodePoint.isLone = false := by
    have hnewline : (py "\n").any CodePoint.isLone = false := by decide
    rw [Attestation.payload, Lineage.payload]
    simp only [List.any_append, h.source, h.target, hnewline, (operations_plain _ h.operation).1,
      Bool.or_false]
  rw [encodeUtf8, if_neg (by rw [hlone]; decide)]

theorem Attestation.Accepted.edgeId_eq {a : Attestation} (h : a.Accepted) :
    edgeId sha256 a.source a.target a.operation = some (keyOf sha256 a) := by
  have hencode := h.encode
  rw [Attestation.payload] at hencode
  rw [keyOf, edgeId, hencode]
  rfl

/-- **Keys are triples.** -/
theorem keyOf_eq_iff (hsha256 : Function.Injective sha256) (haccepted : ∀ a ∈ l, a.Accepted)
    (hdistinct : Distinct l) {a b : Attestation} (ha : a ∈ l) (hb : b ∈ l) :
    keyOf sha256 a = keyOf sha256 b ↔ a.triple = b.triple := by
  constructor
  · intro h
    have hencode := (haccepted a ha).encode
    have hencode' := (haccepted b hb).encode
    have hsha : sha256 (a.payload.flatMap fun p => utf8Scalar p.scalar) =
        sha256 (b.payload.flatMap fun p => utf8Scalar p.scalar) := by
      rw [keyOf, keyOf, edgeId, edgeId, ← Attestation.payload, ← Attestation.payload, hencode,
        hencode'] at h
      exact List.append_cancel_left h
    rw [hsha256 hsha] at hencode
    exact hdistinct a ha b hb (encodeUtf8_inj hencode hencode')
  · intro h
    obtain ⟨hs, ht, ho⟩ : a.source = b.source ∧ a.target = b.target ∧ a.operation = b.operation := by
      simpa [Attestation.triple] using h
    rw [keyOf, keyOf, hs, ht, ho]

/-! ### The loop -/

def draftEdges (sha256 : List UInt8 → PyStr) (l : List Attestation) : List (PyStr × EdgeDraft) :=
  Dict.collect (keyOf sha256) (fun a => attest (keyOf sha256 a) a) [] l

def knownNodes (l : List Attestation) : List (PyStr × NodeMeta) :=
  Dict.collect Prod.fst (fun m known => learn m.2 (known.getD .external)) []
    (l.flatMap Attestation.mentions)

theorem foldlM_mergeStep (haccepted : ∀ a ∈ l, a.Accepted) (st : MergeState) :
    l.foldlM (mergeStep sha256) st = .ok
      ⟨Dict.collect (keyOf sha256) (fun a => attest (keyOf sha256 a) a) st.edges l,
        (l.flatMap Attestation.mentions).foldl mention st.nodeMeta⟩ := by
  induction l generalizing st with
  | nil => rfl
  | cons a rest ih =>
      have ha := haccepted a List.mem_cons_self
      have hstep : mergeStep sha256 st a = .ok ⟨Dict.set st.edges (keyOf sha256 a)
          (attest (keyOf sha256 a) a (Dict.get? st.edges (keyOf sha256 a))),
          a.mentions.foldl mention st.nodeMeta⟩ := by
        rw [mergeStep, if_neg (not_not.mpr ha.operation), if_neg (not_not.mpr ha.tier), ha.edgeId_eq]
      rw [List.foldlM_cons, hstep]
      refine (ih (fun b hb => haccepted b (List.mem_cons_of_mem _ hb)) _).trans ?_
      rw [List.flatMap_cons, List.foldl_append]
      rfl

theorem mergeAttestations_eq (haccepted : ∀ a ∈ l, a.Accepted) :
    mergeAttestations sha256 l = .ok
      { nodes := (sortOn Prod.fst (knownNodes l)).map fun m => node m.1 m.2
        edges := (sortOn Prod.fst (draftEdges sha256 l)).map fun e => e.2.merged } := by
  rw [mergeAttestations, foldlM_mergeStep haccepted]
  rfl

/-! ### One edge -/

/-- The claims of one edge. -/
def claims (l : List Attestation) (t : PyStr × PyStr × PyStr) : List Attestation :=
  l.filter fun a => a.triple = t

def mappings (l : List Attestation) (t : PyStr × PyStr × PyStr) : List ColumnMapping :=
  (claims l t).flatMap Attestation.columns

theorem mem_claims {t : PyStr × PyStr × PyStr} {a : Attestation} :
    a ∈ claims l t ↔ a ∈ l ∧ a.triple = t := by
  simp [claims]

theorem mem_mappings {t : PyStr × PyStr × PyStr} {m : ColumnMapping} :
    m ∈ mappings l t ↔ ∃ a ∈ l, a.triple = t ∧ m ∈ a.columns := by
  simp [mappings, mem_claims, and_assoc]

/-- What is under a key once all its claims are in. -/
structure EdgeDraft.Collects (edge : EdgeDraft) (id : PyStr) (t : PyStr × PyStr × PyStr)
    (as : List Attestation) : Prop where
  id : edge.id = id
  triple : (edge.source, edge.target, edge.operation) = t
  evidence : edge.evidence = as.map Attestation.evidence
  columns : edge.columns = (as.flatMap Attestation.columns).foldl addColumn []

theorem collects_of_foldl {id : PyStr} {t : PyStr × PyStr × PyStr} {as : List Attestation}
    (hid : ∀ a ∈ as, keyOf sha256 a = id) (htriple : ∀ a ∈ as, a.triple = t) (hne : as ≠ []) :
    ∃ edge, as.foldl (fun v a => some (attest (keyOf sha256 a) a v)) none = some edge ∧
      edge.Collects id t as := by
  induction as using List.reverseRecOn with
  | nil => exact absurd rfl hne
  | append_singleton as a ih =>
      have hida := hid a (List.mem_append_right _ List.mem_cons_self)
      have htriplea := htriple a (List.mem_append_right _ List.mem_cons_self)
      rw [List.foldl_append, List.foldl_cons, List.foldl_nil]
      by_cases has : as = []
      · subst has
        exact ⟨_, rfl, hida, htriplea, rfl, by simp [attest]⟩
      · obtain ⟨edge, hedge, h⟩ := ih (fun b hb => hid b (List.mem_append_left _ hb))
          (fun b hb => htriple b (List.mem_append_left _ hb)) has
        refine ⟨_, congrArg some (congrArg _ hedge), h.id, h.triple, ?_, ?_⟩
        · rw [List.map_append]
          exact congrArg (· ++ [a.evidence]) h.evidence
        · rw [List.flatMap_append, List.flatMap_singleton, List.foldl_append]
          exact congrArg (a.columns.foldl addColumn) h.columns

/-- **A draft is its claims.** -/
theorem draft_collects (hsha256 : Function.Injective sha256) (haccepted : ∀ a ∈ l, a.Accepted)
    (hdistinct : Distinct l) {a : Attestation} (ha : a ∈ l) :
    ∃ edge, Dict.get? (draftEdges sha256 l) (keyOf sha256 a) = some edge ∧
      edge.Collects (keyOf sha256 a) a.triple (claims l a.triple) := by
  have hclaims : (l.filter fun b => keyOf sha256 b = keyOf sha256 a) = claims l a.triple := by
    refine List.filter_congr fun b hb => ?_
    exact decide_eq_decide.mpr (keyOf_eq_iff hsha256 haccepted hdistinct hb ha)
  rw [draftEdges, Dict.get?_collect, Dict.get?_nil, hclaims]
  refine collects_of_foldl (fun b hb => ?_) (fun b hb => (mem_claims.mp hb).2)
    (List.ne_nil_of_mem (mem_claims.mpr ⟨ha, rfl⟩))
  obtain ⟨hb, htriple⟩ := mem_claims.mp hb
  exact (keyOf_eq_iff hsha256 haccepted hdistinct hb ha).mpr htriple

theorem mem_keys_draftEdges (k : PyStr) :
    k ∈ (draftEdges sha256 l).map Prod.fst ↔ k ∈ l.map (keyOf sha256) := by
  rw [draftEdges, Dict.mem_keys_collect, List.map_nil]
  exact or_iff_right List.not_mem_nil

theorem exists_of_mem_draftEdges (hsha256 : Function.Injective sha256)
    (haccepted : ∀ a ∈ l, a.Accepted) (hdistinct : Distinct l) {e : PyStr × EdgeDraft}
    (he : e ∈ draftEdges sha256 l) : ∃ a ∈ l, e.1 = keyOf sha256 a ∧
      e.2.Collects (keyOf sha256 a) a.triple (claims l a.triple) := by
  obtain ⟨a, ha, hkey⟩ := List.mem_map.mp ((mem_keys_draftEdges e.1).mp (List.mem_map_of_mem he))
  obtain ⟨edge, hget, hedge⟩ := draft_collects hsha256 haccepted hdistinct ha
  have hself := Dict.get?_of_mem (Dict.nodup_collect _ _ (d := []) List.nodup_nil l) (k := e.1) (v := e.2) he
  rw [← hkey, ← draftEdges, hget] at hself
  exact ⟨a, ha, hkey.symm, Option.some.inj hself ▸ hedge⟩

/-! ### Columns -/

def sourcesOf (ms : List ColumnMapping) (name : PyStr) : List PyStr :=
  (ms.filter fun m => m.target = name).flatMap ColumnMapping.sources

/-- The column map that a list of mappings comes to. -/
def columnMap (ms : List ColumnMapping) : List ColumnMapping :=
  (sortOn id (ms.map ColumnMapping.target).dedup).map fun name =>
    ⟨sortOn id (sourcesOf ms name).dedup, name⟩

theorem foldl_addColumn (ms : List ColumnMapping) : ms.foldl addColumn [] =
    Dict.collect ColumnMapping.target (fun m v => v.getD [] ++ m.sources) [] ms := rfl

theorem getD_sources (ms : List ColumnMapping) (v : Option (List PyStr)) :
    (ms.foldl (fun v m => some (v.getD [] ++ m.sources)) v).getD [] =
      v.getD [] ++ ms.flatMap ColumnMapping.sources := by
  induction ms generalizing v with
  | nil => simp
  | cons m rest ih => rw [List.foldl_cons, ih, List.flatMap_cons, Option.getD_some, List.append_assoc]

theorem sortedColumns_eq (ms : List ColumnMapping) :
    sortedColumns (ms.foldl addColumn []) = columnMap ms := by
  have hnodup := Dict.nodup_collect ColumnMapping.target
    (fun m (v : Option (List PyStr)) => v.getD [] ++ m.sources) (d := []) List.nodup_nil ms
  have hkeys : ∀ k, k ∈ (ms.foldl addColumn []).map Prod.fst ↔ k ∈ ms.map ColumnMapping.target := by
    intro k
    rw [foldl_addColumn, Dict.mem_keys_collect, List.map_nil]
    exact or_iff_right List.not_mem_nil
  have hvalue : ∀ e ∈ ms.foldl addColumn [], sourcesOf ms e.1 = e.2 := by
    intro e he
    have hget := Dict.get?_of_mem hnodup (k := e.1) (v := e.2) he
    have hsources := getD_sources (ms.filter fun m => m.target = e.1) none
    rw [Dict.get?_collect, Dict.get?_nil] at hget
    rw [hget] at hsources
    exact hsources.symm
  rw [sortedColumns, foldl_addColumn, sortOn_fst hnodup hkeys (sourcesOf ms) hvalue, List.map_map]
  rfl

theorem mem_columnMap {ms : List ColumnMapping} {c : ColumnMapping} (h : c ∈ columnMap ms) :
    (∃ m ∈ ms, m.target = c.target) ∧ c.sources.Nodup ∧
      ∀ column, column ∈ c.sources ↔ ∃ m ∈ ms, m.target = c.target ∧ column ∈ m.sources := by
  obtain ⟨name, hname, rfl⟩ := List.mem_map.mp h
  refine ⟨List.mem_map.mp (List.mem_dedup.mp (mem_sortOn.mp hname)),
    sortOn_perm.nodup_iff.mpr (List.nodup_dedup _), fun column => ?_⟩
  simp [sourcesOf, mem_sortOn, and_assoc]

theorem map_target_columnMap (ms : List ColumnMapping) :
    (columnMap ms).map ColumnMapping.target = sortOn id (ms.map ColumnMapping.target).dedup := by
  rw [columnMap, List.map_map]
  exact List.map_id _

/-! ### Edges -/

/-- The edge that the claims of a triple come to. -/
def mergedEdge (sha256 : List UInt8 → PyStr) (l : List Attestation) (t : PyStr × PyStr × PyStr) :
    MergedEdge where
  id := (edgeId sha256 t.1 t.2.1 t.2.2).getD []
  source := t.1
  target := t.2.1
  operation := t.2.2
  evidence := sortedEvidence ((claims l t).map Attestation.evidence)
  trust := ((sortedEvidence ((claims l t).map Attestation.evidence)).head?.map Evidence.tier).getD []
  columns := columnMap (mappings l t)

theorem EdgeDraft.Collects.merged {edge : EdgeDraft} {a : Attestation}
    (h : edge.Collects (keyOf sha256 a) a.triple (claims l a.triple)) :
    edge.merged = mergedEdge sha256 l a.triple := by
  obtain ⟨id, source, target, operation, evidence, columns, attested⟩ := edge
  obtain ⟨hid, htriple, hevidence, hcolumns⟩ := h
  dsimp only at hid htriple hevidence hcolumns
  subst hid hevidence hcolumns
  obtain ⟨rfl, rfl, rfl⟩ : source = a.source ∧ target = a.target ∧ operation = a.operation := by
    simpa [Attestation.triple] using htriple
  have htrust := congrArg (fun tier => (Option.map Evidence.tier tier).getD [])
    (List.head?_eq_some_head (sortedEvidence_ne_nil attested))
  simp only [EdgeDraft.merged, mergedEdge, sortedColumns_eq, mappings]
  exact congrArg (fun trust => MergedEdge.mk _ _ _ _ _ trust _) htrust.symm

section Edges

variable (hsha256 : Function.Injective sha256) (haccepted : ∀ a ∈ l, a.Accepted) (hdistinct : Distinct l)

include hsha256 haccepted hdistinct

theorem mem_edges {e : MergedEdge} :
    e ∈ (sortOn Prod.fst (draftEdges sha256 l)).map (fun e => e.2.merged) ↔
      ∃ a ∈ l, e = mergedEdge sha256 l a.triple := by
  constructor
  · intro h
    obtain ⟨entry, hentry, rfl⟩ := List.mem_map.mp h
    obtain ⟨a, ha, -, hcollects⟩ :=
      exists_of_mem_draftEdges hsha256 haccepted hdistinct (mem_sortOn.mp hentry)
    exact ⟨a, ha, hcollects.merged⟩
  · rintro ⟨a, ha, rfl⟩
    obtain ⟨edge, hget, hcollects⟩ := draft_collects hsha256 haccepted hdistinct ha
    exact List.mem_map.mpr ⟨_, mem_sortOn.mpr (Dict.mem_of_get? hget), hcollects.merged⟩

theorem map_id_edges :
    ((sortOn Prod.fst (draftEdges sha256 l)).map fun e => e.2.merged).map MergedEdge.id =
      sortOn id (l.map (keyOf sha256)).dedup := by
  have hnodup : ((draftEdges sha256 l).map Prod.fst).Nodup :=
    Dict.nodup_collect _ _ (d := []) List.nodup_nil l
  have hfst : sortOn id ((draftEdges sha256 l).map Prod.fst) =
      (sortOn Prod.fst (draftEdges sha256 l)).map Prod.fst := sortOn_map Prod.fst fun _ => rfl
  have hids : ∀ e ∈ sortOn Prod.fst (draftEdges sha256 l), e.2.merged.id = e.1 := by
    intro e he
    obtain ⟨a, -, hkey, hcollects⟩ :=
      exists_of_mem_draftEdges hsha256 haccepted hdistinct (mem_sortOn.mp he)
    exact hcollects.id.trans hkey.symm
  have hkey : ∀ a ∈ l.map (keyOf sha256), ∀ b ∈ l.map (keyOf sha256), id a = id b → a = b :=
    fun _ _ _ _ heq => heq
  calc ((sortOn Prod.fst (draftEdges sha256 l)).map fun e => e.2.merged).map MergedEdge.id
      = (sortOn Prod.fst (draftEdges sha256 l)).map Prod.fst := by
        rw [List.map_map]
        exact List.map_congr_left hids
    _ = sortOn id ((draftEdges sha256 l).map Prod.fst) := hfst.symm
    _ = sortOn id ((draftEdges sha256 l).map Prod.fst).dedup := by rw [hnodup.dedup]
    _ = sortOn id (l.map (keyOf sha256)).dedup := sortOn_dedup_congr hkey mem_keys_draftEdges

end Edges

/-! ### Nodes -/

def NodeMeta.resolving (m : Option NodeMeta) : Option NodeMeta := m.filter NodeMeta.resolved

theorem NodeMeta.resolving_some (m : NodeMeta) :
    NodeMeta.resolving (some m) = if m.resolved = true then some m else none := by
  by_cases hm : m.resolved = true <;> simp [resolving, hm]

/-- What an attestation of the list says of a name it resolves. -/
def Resolves (l : List Attestation) (name : PyStr) (m : NodeMeta) : Prop :=
  (name, some m) ∈ l.flatMap Attestation.mentions ∧ m.resolved = true

/-- The first of them, the source of an attestation ahead of its target. -/
def firstResolving (l : List Attestation) (name : PyStr) : Option NodeMeta :=
  ((l.flatMap Attestation.mentions).filter fun m => m.1 = name).findSome? fun m =>
    NodeMeta.resolving m.2

theorem resolves_of_firstResolving {name : PyStr} {m : NodeMeta}
    (h : firstResolving l name = some m) : Resolves l name m := by
  obtain ⟨⟨name', seen⟩, hmem, hseen⟩ := List.exists_of_findSome?_eq_some h
  obtain ⟨hlisted, hname⟩ := List.mem_filter.mp hmem
  obtain rfl : name' = name := by simpa using hname
  obtain ⟨rfl, hresolved⟩ := Option.filter_eq_some_iff.mp hseen
  exact ⟨hlisted, hresolved⟩

theorem isSome_firstResolving_iff {name : PyStr} :
    (firstResolving l name).isSome = true ↔ ∃ m, Resolves l name m := by
  constructor
  · intro h
    obtain ⟨m, hm⟩ := Option.isSome_iff_exists.mp h
    exact ⟨m, resolves_of_firstResolving hm⟩
  · rintro ⟨m, hmem, hresolved⟩
    refine List.findSome?_isSome_iff.mpr ⟨(name, some m), List.mem_filter.mpr ⟨hmem, by simp⟩, ?_⟩
    simp [NodeMeta.resolving_some, hresolved]

/-- **The first to resolve a name describes it.** -/
theorem foldl_learn (ms : List (PyStr × Option NodeMeta)) (known : NodeMeta) :
    ms.foldl (fun v m => some (learn m.2 (v.getD .external))) (some known) =
      some (if known.resolved then known
        else (ms.findSome? fun m => NodeMeta.resolving m.2).getD known) := by
  induction ms generalizing known with
  | nil => simp
  | cons m rest ih =>
      obtain ⟨name, seen⟩ := m
      rw [List.foldl_cons, Option.getD_some, ih, List.findSome?_cons]
      cases seen with
      | none => rfl
      | some m =>
          by_cases hknown : known.resolved = true
          · simp [learn, hknown]
          · by_cases hm : m.resolved = true <;> simp [learn, NodeMeta.resolving_some, hknown, hm]

theorem get?_knownNodes {name : PyStr} (h : name ∈ (l.flatMap Attestation.mentions).map Prod.fst) :
    Dict.get? (knownNodes l) name = some ((firstResolving l name).getD .external) := by
  obtain ⟨m, hm, hname⟩ := List.mem_map.mp h
  have hmem : m ∈ (l.flatMap Attestation.mentions).filter fun m => m.1 = name :=
    List.mem_filter.mpr ⟨hm, decide_eq_true hname⟩
  rw [knownNodes, Dict.get?_collect, Dict.get?_nil, firstResolving]
  generalize (l.flatMap Attestation.mentions).filter (fun m => m.1 = name) = ms at hmem
  cases ms with
  | nil => cases hmem
  | cons m rest =>
      have hlearn := foldl_learn (m :: rest) .external
      rw [if_neg (by decide)] at hlearn
      exact hlearn

theorem nodes_eq (l : List Attestation) : ((sortOn Prod.fst (knownNodes l)).map fun m => node m.1 m.2) =
    (sortOn id ((l.flatMap Attestation.mentions).map Prod.fst).dedup).map fun name =>
      node name ((firstResolving l name).getD .external) := by
  have hnodup : ((knownNodes l).map Prod.fst).Nodup := Dict.nodup_collect _ _ (d := []) List.nodup_nil _
  have hkeys : ∀ k, k ∈ (knownNodes l).map Prod.fst ↔
      k ∈ (l.flatMap Attestation.mentions).map Prod.fst := by
    intro k
    rw [knownNodes, Dict.mem_keys_collect, List.map_nil]
    exact or_iff_right List.not_mem_nil
  have hvalue : ∀ e ∈ knownNodes l, (firstResolving l e.1).getD .external = e.2 := by
    intro e he
    have hget := Dict.get?_of_mem hnodup (k := e.1) (v := e.2) he
    rw [get?_knownNodes ((hkeys e.1).mp (List.mem_map_of_mem he))] at hget
    exact Option.some.inj hget
  rw [sortOn_fst hnodup hkeys (fun name => (firstResolving l name).getD .external) hvalue,
    List.map_map]
  rfl

theorem mem_names {name : PyStr} : name ∈ (l.flatMap Attestation.mentions).map Prod.fst ↔
    ∃ a ∈ l, a.source = name ∨ a.target = name := by
  simp only [List.mem_map, List.mem_flatMap]
  constructor
  · rintro ⟨m, ⟨a, ha, hm⟩, rfl⟩
    simp only [Attestation.mentions, List.mem_cons, List.not_mem_nil, or_false] at hm
    obtain rfl | rfl := hm
    · exact ⟨a, ha, .inl rfl⟩
    · exact ⟨a, ha, .inr rfl⟩
  · rintro ⟨a, ha, rfl | rfl⟩
    · exact ⟨_, ⟨a, ha, List.mem_cons_self⟩, rfl⟩
    · exact ⟨_, ⟨a, ha, List.mem_cons_of_mem _ List.mem_cons_self⟩, rfl⟩

/-! ### What the merge does not depend on -/

theorem columnMap_congr {ms ms' : List ColumnMapping} (h : ∀ m, m ∈ ms' ↔ m ∈ ms) :
    columnMap ms' = columnMap ms := by
  have hid : ∀ names : List PyStr, ∀ a ∈ names, ∀ b ∈ names, id a = id b → a = b :=
    fun _ _ _ _ _ heq => heq
  have hsources : ∀ name, sortOn id (sourcesOf ms' name).dedup = sortOn id (sourcesOf ms name).dedup := by
    intro name
    refine sortOn_dedup_congr (hid _) fun column => ?_
    simp only [sourcesOf, List.mem_flatMap, List.mem_filter, h]
  have htargets : sortOn id (ms'.map ColumnMapping.target).dedup =
      sortOn id (ms.map ColumnMapping.target).dedup := by
    refine sortOn_dedup_congr (hid _) fun name => ?_
    simp only [List.mem_map, h]
  simp only [columnMap, hsources, htargets]

theorem evidenceKey_inj {e e' : Evidence} (h : e.tier ∈ tierOrder) (heq : evidenceKey e = evidenceKey e') :
    e = e' := by
  obtain ⟨htier, href⟩ := Prod.mk.inj (toLex.injective heq)
  obtain ⟨tier, ref⟩ := e
  obtain ⟨tier', ref'⟩ := e'
  obtain rfl : tier = tier' := (List.idxOf_inj h).mp htier
  obtain rfl : ref = ref' := href
  rfl

theorem mergedEdge_congr (haccepted : ∀ a ∈ l, a.Accepted) (h : ∀ a, a ∈ l' ↔ a ∈ l)
    (t : PyStr × PyStr × PyStr) : mergedEdge sha256 l' t = mergedEdge sha256 l t := by
  have hclaims : ∀ a, a ∈ claims l' t ↔ a ∈ claims l t := by
    intro a
    rw [mem_claims, mem_claims, h]
  have hevidence : sortedEvidence ((claims l' t).map Attestation.evidence) =
      sortedEvidence ((claims l t).map Attestation.evidence) := by
    refine sortOn_dedup_congr (fun e he e' _ heq => ?_) fun e => ?_
    · obtain ⟨a, ha, rfl⟩ := List.mem_map.mp he
      exact evidenceKey_inj (haccepted a (mem_claims.mp ha).1).tier heq
    · simp only [List.mem_map, hclaims]
  have hcolumns : columnMap (mappings l' t) = columnMap (mappings l t) := by
    refine columnMap_congr fun m => ?_
    simp only [mem_mappings, h]
  simp only [mergedEdge, hevidence, hcolumns]

theorem mem_names_congr (h : ∀ a, a ∈ l' ↔ a ∈ l) (name : PyStr) :
    name ∈ (l'.flatMap Attestation.mentions).map Prod.fst ↔
      name ∈ (l.flatMap Attestation.mentions).map Prod.fst := by
  simp only [mem_names, h]

theorem resolves_congr (h : ∀ a, a ∈ l' ↔ a ∈ l) {name : PyStr} {m : NodeMeta} :
    Resolves l' name m ↔ Resolves l name m := by
  simp only [Resolves, List.mem_flatMap, h]

theorem isSome_firstResolving_congr (h : ∀ a, a ∈ l' ↔ a ∈ l) (name : PyStr) :
    (firstResolving l' name).isSome = (firstResolving l name).isSome := by
  rw [Bool.eq_iff_iff, isSome_firstResolving_iff, isSome_firstResolving_iff]
  simp only [resolves_congr h]

theorem resolved_node (l : List Attestation) (name : PyStr) :
    (node name ((firstResolving l name).getD .external)).resolved = (firstResolving l name).isSome := by
  cases hfirst : firstResolving l name with
  | none => rfl
  | some m => exact (resolves_of_firstResolving hfirst).2

/-! ### The law -/

/-- What the graph is of the list. -/
structure IsMerge (l : List Attestation) (graph : Merged) : Prop where
  /-- One edge for each triple. -/
  edges : (graph.edges.map MergedEdge.triple).Nodup ∧
    ∀ t, t ∈ graph.edges.map MergedEdge.triple ↔ t ∈ l.map Attestation.triple
  evidence : ∀ e ∈ graph.edges, e.evidence.Nodup ∧
    ∀ x, x ∈ e.evidence ↔ ∃ a ∈ claims l e.triple, a.evidence = x
  /-- The strongest tier. -/
  trust : ∀ e ∈ graph.edges, (∃ a ∈ claims l e.triple, a.evidence.tier = e.trust) ∧
    ∀ a ∈ claims l e.triple, tierOrder.idxOf e.trust ≤ tierOrder.idxOf a.evidence.tier
  columns : ∀ e ∈ graph.edges, (e.columns.map ColumnMapping.target).Nodup ∧
    (∀ name, name ∈ e.columns.map ColumnMapping.target ↔ ∃ m ∈ mappings l e.triple, m.target = name) ∧
    ∀ c ∈ e.columns, c.sources.Nodup ∧
      ∀ column, column ∈ c.sources ↔ ∃ m ∈ mappings l e.triple, m.target = c.target ∧ column ∈ m.sources
  /-- The endpoints of the edges. -/
  nodes : (graph.nodes.map MergedNode.id).Nodup ∧
    ∀ name, name ∈ graph.nodes.map MergedNode.id ↔ ∃ e ∈ graph.edges, e.source = name ∨ e.target = name
  resolved : ∀ n ∈ graph.nodes, n.resolved = true ↔ ∃ m, Resolves l n.id m
  described : ∀ n ∈ graph.nodes, n = node n.id ((firstResolving l n.id).getD .external)

theorem triple_mergedEdge (t : PyStr × PyStr × PyStr) : (mergedEdge sha256 l t).triple = t := rfl

/-- The first of the evidence has the strongest tier. -/
theorem trust_mergedEdge {t : PyStr × PyStr × PyStr} (h : ∃ a ∈ l, a.triple = t) :
    (∃ a ∈ claims l t, a.evidence.tier = (mergedEdge sha256 l t).trust) ∧
      ∀ a ∈ claims l t, tierOrder.idxOf (mergedEdge sha256 l t).trust ≤
        tierOrder.idxOf a.evidence.tier := by
  obtain ⟨a, ha, htriple⟩ := h
  have hmem : ∀ x, x ∈ sortedEvidence ((claims l t).map Attestation.evidence) ↔
      ∃ a ∈ claims l t, a.evidence = x := by
    intro x
    rw [sortedEvidence, mem_sortOn, List.mem_dedup, List.mem_map]
  have hsorted : (sortedEvidence ((claims l t).map Attestation.evidence)).Pairwise
      fun e e' => evidenceKey e ≤ evidenceKey e' := sortOn_pairwise
  have ha := (hmem a.evidence).mpr ⟨a, mem_claims.mpr ⟨ha, htriple⟩, rfl⟩
  dsimp only [mergedEdge]
  generalize sortedEvidence ((claims l t).map Attestation.evidence) = evidence at hmem hsorted ha
  cases evidence with
  | nil => cases ha
  | cons first rest =>
      refine ⟨?_, fun b hb => ?_⟩
      · obtain ⟨b, hb, hfirst⟩ := (hmem first).mp List.mem_cons_self
        exact ⟨b, hb, congrArg Evidence.tier hfirst⟩
      · obtain heq | hrest := List.mem_cons.mp ((hmem b.evidence).mpr ⟨b, hb, rfl⟩)
        · rw [heq]
          exact le_refl _
        · exact Prod.Lex.monotone_fst _ _ ((List.pairwise_cons.mp hsorted).1 _ hrest)

theorem isMerge_of_ok (hsha256 : Function.Injective sha256) (haccepted : ∀ a ∈ l, a.Accepted)
    (hdistinct : Distinct l) (h : mergeAttestations sha256 l = .ok graph) : IsMerge l graph := by
  rw [mergeAttestations_eq haccepted] at h
  obtain rfl := Except.ok.inj h
  have hedges := fun e => mem_edges hsha256 haccepted hdistinct (e := e)
  have hids := map_id_edges hsha256 haccepted hdistinct
  generalize (sortOn Prod.fst (draftEdges sha256 l)).map (fun e => e.2.merged) = edges at hedges hids
  have htriples : ∀ t, t ∈ edges.map MergedEdge.triple ↔ t ∈ l.map Attestation.triple := by
    intro t
    constructor
    · intro ht
      obtain ⟨e, he, rfl⟩ := List.mem_map.mp ht
      obtain ⟨a, ha, rfl⟩ := (hedges e).mp he
      exact List.mem_map_of_mem ha
    · intro ht
      obtain ⟨a, ha, rfl⟩ := List.mem_map.mp ht
      exact List.mem_map.mpr ⟨_, (hedges _).mpr ⟨a, ha, rfl⟩, rfl⟩
  have hnodup : (edges.map MergedEdge.triple).Nodup := by
    have hid : (edges.map MergedEdge.id).Nodup := by
      rw [hids]
      exact sortOn_perm.nodup_iff.mpr (List.nodup_dedup _)
    refine List.Nodup.map_on (fun e he e' he' heq => ?_) (List.Nodup.of_map _ hid)
    obtain ⟨a, ha, rfl⟩ := (hedges e).mp he
    obtain ⟨b, hb, rfl⟩ := (hedges e').mp he'
    rw [triple_mergedEdge, triple_mergedEdge] at heq
    rw [heq]
  refine ⟨⟨hnodup, htriples⟩, ?_, ?_, ?_, ?_, ?_, ?_⟩
  · intro e he
    obtain ⟨a, ha, rfl⟩ := (hedges e).mp he
    refine ⟨sortOn_perm.nodup_iff.mpr (List.nodup_dedup _), fun x => ?_⟩
    rw [triple_mergedEdge, mergedEdge, sortedEvidence, mem_sortOn, List.mem_dedup, List.mem_map]
  · intro e he
    obtain ⟨a, ha, rfl⟩ := (hedges e).mp he
    exact trust_mergedEdge ⟨a, ha, rfl⟩
  · intro e he
    obtain ⟨a, ha, rfl⟩ := (hedges e).mp he
    rw [triple_mergedEdge]
    refine ⟨?_, fun name => ?_, fun c hc => (mem_columnMap hc).2⟩
    · rw [mergedEdge, map_target_columnMap]
      exact sortOn_perm.nodup_iff.mpr (List.nodup_dedup _)
    · rw [mergedEdge, map_target_columnMap, mem_sortOn, List.mem_dedup, List.mem_map]
  · rw [nodes_eq, List.map_map]
    refine ⟨?_, fun name => ?_⟩
    · exact (List.map_id _).symm ▸ sortOn_perm.nodup_iff.mpr (List.nodup_dedup _)
    · refine (Iff.of_eq (congrArg (name ∈ ·) (List.map_id _))).trans ?_
      rw [mem_sortOn, List.mem_dedup, mem_names]
      constructor
      · rintro ⟨a, ha, hname⟩
        exact ⟨mergedEdge sha256 l a.triple, (hedges _).mpr ⟨a, ha, rfl⟩, hname⟩
      · rintro ⟨e, he, hname⟩
        obtain ⟨a, ha, rfl⟩ := (hedges e).mp he
        exact ⟨a, ha, hname⟩
  · intro n hn
    rw [nodes_eq] at hn
    obtain ⟨name, -, rfl⟩ := List.mem_map.mp hn
    rw [resolved_node]
    exact isSome_firstResolving_iff
  · intro n hn
    rw [nodes_eq] at hn
    obtain ⟨name, -, rfl⟩ := List.mem_map.mp hn
    rfl

theorem suffix_of_doc {fqn : PyStr} {known : NodeMeta} {path : PyStr} (h : path ∈ (node fqn known).doc) :
    py ".schema.md" <:+ path := by
  obtain ⟨resolved, kind, schema, name, named⟩ := known
  cases resolved with
  | false => cases h
  | true =>
      cases schema with
      | none => cases h
      | some schema =>
          by_cases hschema : schema = []
          · simp [node, hschema] at h
          · simp only [node, if_neg hschema, Option.mem_def, Option.some.injEq] at h
            exact h ▸ List.suffix_append _ _

/-- What is merged is a graph: each endpoint has its node. -/
def IsMerge.lineageGraph (h : IsMerge l graph) : LineageGraph where
  nodes := graph.nodes.attach.map fun n =>
    ⟨n.1.id, n.1.doc, fun _ hpath => suffix_of_doc (h.described n.1 n.2 ▸ hpath)⟩
  edges := graph.edges.map fun e => ⟨e.id, e.source, e.target, e.columns⟩
  endpoints := by
    intro e he
    obtain ⟨edge, hedge, rfl⟩ := List.mem_map.mp he
    have hids : (graph.nodes.attach.map fun n => (⟨n.1.id, n.1.doc, fun _ hpath =>
        suffix_of_doc (h.described n.1 n.2 ▸ hpath)⟩ : GraphNode)).map GraphNode.id =
          graph.nodes.map MergedNode.id := by
      rw [List.map_map]
      exact List.attach_map_val (f := MergedNode.id)
    rw [hids]
    exact ⟨(h.nodes.2 _).mpr ⟨edge, hedge, .inl rfl⟩, (h.nodes.2 _).mpr ⟨edge, hedge, .inr rfl⟩⟩

/-- All that resolve a name say the same of it. -/
def Agree (l : List Attestation) : Prop :=
  ∀ name m m', Resolves l name m → Resolves l name m' → node name m = node name m'

theorem edges_congr (hsha256 : Function.Injective sha256) (haccepted : ∀ a ∈ l, a.Accepted)
    (hdistinct : Distinct l) (h : ∀ a, a ∈ l' ↔ a ∈ l) :
    (sortOn Prod.fst (draftEdges sha256 l')).map (fun e => e.2.merged) =
      (sortOn Prod.fst (draftEdges sha256 l)).map (fun e => e.2.merged) := by
  have haccepted' : ∀ a ∈ l', a.Accepted := fun a ha => haccepted a ((h a).mp ha)
  have hdistinct' : Distinct l' := fun a ha b hb => hdistinct a ((h a).mp ha) b ((h b).mp hb)
  have hmem := fun e => mem_edges hsha256 haccepted hdistinct (e := e)
  have hmem' := fun e => mem_edges hsha256 haccepted' hdistinct' (e := e)
  have hids := map_id_edges hsha256 haccepted hdistinct
  have hids' := map_id_edges hsha256 haccepted' hdistinct'
  have hkeys : sortOn id (l'.map (keyOf sha256)).dedup = sortOn id (l.map (keyOf sha256)).dedup := by
    refine sortOn_dedup_congr (fun _ _ _ _ heq => heq) fun k => ?_
    simp only [List.mem_map, h]
  generalize (sortOn Prod.fst (draftEdges sha256 l)).map (fun e => e.2.merged) = edges at hmem hids ⊢
  generalize (sortOn Prod.fst (draftEdges sha256 l')).map (fun e => e.2.merged) = edges' at hmem' hids' ⊢
  rw [hkeys, ← hids] at hids'
  have hnodup : (edges.map MergedEdge.id).Nodup := by
    rw [hids]
    exact sortOn_perm.nodup_iff.mpr (List.nodup_dedup _)
  have hsorted : ∀ es : List MergedEdge, es.map MergedEdge.id = edges.map MergedEdge.id →
      sortOn MergedEdge.id es = es := by
    intro es hes
    refine sortOn_eq_self (List.pairwise_map.mp ?_)
    rw [hes, hids]
    exact sortOn_pairwise
  have hperm : edges'.Perm edges := by
    refine (List.perm_ext_iff_of_nodup (List.Nodup.of_map _ (hids'.symm ▸ hnodup))
      (List.Nodup.of_map _ hnodup)).mpr fun e => ?_
    simp only [hmem, hmem', h, mergedEdge_congr haccepted h]
  rw [← hsorted edges' hids', ← hsorted edges rfl]
  exact sortOn_eq_of_perm (fun e he e' he' heq => List.inj_on_of_nodup_map hnodup he he' heq) hperm

/-- **Order and repeats** change no edge, and of a node only which of its descriptions comes first. -/
theorem mergeAttestations_law (hsha256 : Function.Injective sha256) (haccepted : ∀ a ∈ l, a.Accepted)
    (hdistinct : Distinct l) :
    ∃ graph, mergeAttestations sha256 l = .ok graph ∧ IsMerge l graph ∧
      ∀ l', (∀ a, a ∈ l' ↔ a ∈ l) → ∃ graph', mergeAttestations sha256 l' = .ok graph' ∧
        graph'.edges = graph.edges ∧
        graph'.nodes.map (fun n => (n.id, n.resolved)) = graph.nodes.map (fun n => (n.id, n.resolved)) ∧
        (Agree l → graph' = graph) := by
  refine ⟨_, mergeAttestations_eq haccepted,
    isMerge_of_ok hsha256 haccepted hdistinct (mergeAttestations_eq haccepted), fun l' h => ?_⟩
  have hnames : sortOn id ((l'.flatMap Attestation.mentions).map Prod.fst).dedup =
      sortOn id ((l.flatMap Attestation.mentions).map Prod.fst).dedup :=
    sortOn_dedup_congr (fun _ _ _ _ heq => heq) (mem_names_congr h)
  have hedges := edges_congr hsha256 haccepted hdistinct h
  refine ⟨_, mergeAttestations_eq fun a ha => haccepted a ((h a).mp ha), hedges, ?_, fun hagree => ?_⟩
  · dsimp only
    rw [nodes_eq, nodes_eq, hnames, List.map_map, List.map_map]
    refine List.map_congr_left fun name _ => Prod.ext rfl ?_
    exact (resolved_node l' name).trans ((isSome_firstResolving_congr h name).trans (resolved_node l name).symm)
  · rw [Merged.mk.injEq]
    refine ⟨?_, hedges⟩
    rw [nodes_eq, nodes_eq, hnames]
    refine List.map_congr_left fun name _ => ?_
    have hsome := isSome_firstResolving_congr h name
    cases hfirst : firstResolving l name with
    | none =>
        rw [hfirst, Option.isSome_none, Option.isSome_eq_false_iff, Option.isNone_iff_eq_none] at hsome
        rw [hsome]
    | some m =>
        rw [hfirst, Option.isSome_some, Option.isSome_iff_exists] at hsome
        obtain ⟨m', hfirst'⟩ := hsome
        rw [hfirst', Option.getD_some, Option.getD_some]
        exact hagree name m' m ((resolves_congr h).mp (resolves_of_firstResolving hfirst'))
          (resolves_of_firstResolving hfirst)

/-- A claim about a view over a table of the demo. -/
def viewClaim (source target : String) (tier ref kind : String) : Attestation where
  source := py source
  target := py target
  operation := py "join"
  evidence := ⟨py tier, py ref⟩
  columns := [⟨[py "net"], py "total"⟩]
  sourceMeta := some ⟨true, py kind, some (py "p"), some (py "t"), fun _ => rfl⟩
  targetMeta := none

theorem mergeAttestations_twoTiers :
    ∃ graph, mergeAttestations (fun bytes => bytes.map fun b => CodePoint.unit b.toUInt16)
        [viewClaim "d.p.t" "d.p.v" "sql-parse" "r" "table", viewClaim "d.p.t" "d.p.v" "pipeline-tool" "g" "table"] =
          .ok graph ∧
      IsMerge [viewClaim "d.p.t" "d.p.v" "sql-parse" "r" "table",
        viewClaim "d.p.t" "d.p.v" "pipeline-tool" "g" "table"] graph :=
  let ⟨graph, hgraph, hmerge, _⟩ :=
    mergeAttestations_law Snapshot.unitBytes_injective (by decide) (by decide)
  ⟨graph, hgraph, hmerge⟩

/-- Two producers can know one name as different objects, and two names can hide a line break. -/
theorem not_orderFree :
    (¬ ∀ sha256 : List UInt8 → PyStr, Function.Injective sha256 → ∀ l l' : List Attestation,
      (∀ a ∈ l, a.Accepted) → l'.Perm l → mergeAttestations sha256 l' = mergeAttestations sha256 l) ∧
    ¬ ∀ sha256 : List UInt8 → PyStr, Function.Injective sha256 → ∀ l : List Attestation,
      (∀ a ∈ l, a.Accepted) → ∀ graph, mergeAttestations sha256 l = .ok graph →
        ∀ a ∈ l, a.triple ∈ graph.edges.map MergedEdge.triple := by
  constructor
  · intro h
    have hswap := h _ Snapshot.unitBytes_injective
      [viewClaim "t" "v" "sql-parse" "r" "table", viewClaim "t" "v" "sql-parse" "r" "view"] _
      (by decide) (List.Perm.swap _ _ _)
    rw [mergeAttestations_eq (by decide), mergeAttestations_eq (by decide), nodes_eq, nodes_eq] at hswap
    have hnodes := congrArg Merged.nodes (Except.ok.inj hswap)
    revert hnodes
    decide
  · intro h
    have hbreak := h _ Snapshot.unitBytes_injective
      [viewClaim "a\nb" "c" "human" "r" "table", viewClaim "a" "b\nc" "human" "r" "table"]
      (by decide) _ (mergeAttestations_eq (by decide))
    revert hbreak
    decide

end ContextLayer.Lineage
