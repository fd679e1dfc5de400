import ContextLayer.KbTools
import ContextLayer.Proof.Platform

/-!
# What a call tells about hidden objects

Of what a caller may not see, an answer depends on four things: whether a bare name is ambiguous, whether a hidden
document stands for an entity's name, the hash of a snapshot, and the texts and hashes beside a visible table.
-/

namespace ContextLayer

open Text

variable {P : Platform} {scopes : List Scope} {ws ws' : ServedKb} {state state' : ServedSystem}

theorem find?_filter_of_nodup {α κ : Type} [DecidableEq κ] {f : α → κ} {l : List α} (h : (l.map f).Nodup)
    (p : α → Bool) (k : κ) :
    (l.filter p).find? (fun a => decide (f a = k)) = (l.find? fun a => decide (f a = k)).filter p := by
  induction l with
  | nil => rfl
  | cons a l ih =>
    rw [List.map_cons, List.nodup_cons] at h
    have hother : ∀ b ∈ l, f a = k → ¬ decide (f b = k) = true := by
      intro b hb hk hbk
      exact h.1 (hk.trans (of_decide_eq_true hbk).symm ▸ List.mem_map_of_mem hb)
    by_cases hk : f a = k
    · by_cases hp : p a = true
      · simp [hk, hp, Option.filter_some]
      · have hnone : (l.filter p).find? (fun b => decide (f b = k)) = none :=
          List.find?_eq_none.mpr fun b hb => hother b (List.mem_filter.mp hb).1 hk
        rw [List.filter_cons_of_neg hp, hnone, List.find?_cons_of_pos (by simpa using hk), Option.filter_some, if_neg hp]
    · by_cases hp : p a = true <;> simp [hk, hp, ih h.2]

/-! ### Documents -/

/-- What is compared of a document. -/
def KbDoc.shown (doc : KbDoc) : Text × Option KbDoc := (doc.path, if doc.isGenerated then none else some doc)

theorem KbDoc.eq_of_shown {doc doc' : KbDoc} (h : doc.shown = doc'.shown) (hgenerated : doc.isGenerated = false) :
    doc = doc' := by
  have hsecond := congrArg Prod.snd h
  simp only [KbDoc.shown, hgenerated, Bool.false_eq_true, if_false] at hsecond
  split at hsecond
  · cases hsecond
  · exact Option.some.inj hsecond

theorem shownDocs_eq (ws : ServedKb) (scopes : List Scope) :
    ws.shownDocs scopes = (ws.docs.filter fun doc => pathVisible scopes doc.path).map KbDoc.shown := rfl

theorem ServedKb.doc?_path {path : Text} {doc : KbDoc} (h : ws.doc? path = some doc) : doc.path = path := by
  simpa using List.find?_some (p := fun doc : KbDoc => decide (doc.path = path)) h

/-- A visible path is looked up among the visible documents. -/
theorem ServedKb.find?_shownDocs {path : Text} (hpath : pathVisible scopes path = true) :
    (ws.shownDocs scopes).find? (fun e => decide (e.1 = path)) = (ws.doc? path).map KbDoc.shown := by
  rw [shownDocs_eq, List.find?_map, List.find?_filter]
  refine congrArg (Option.map _) ?_
  refine congrArg (fun p => ws.docs.find? p) (funext fun doc => ?_)
  by_cases h : doc.path = path <;> simp [KbDoc.shown, h, hpath]

theorem SameView.shown_doc? (h : SameView scopes ws ws') {path : Text} (hpath : pathVisible scopes path = true) :
    (ws.doc? path).map KbDoc.shown = (ws'.doc? path).map KbDoc.shown := by
  rw [← ServedKb.find?_shownDocs hpath, ← ServedKb.find?_shownDocs hpath, h.docs]

/-- Outside of `systems/` a visible document is the same one. -/
theorem SameView.doc?_eq (h : SameView scopes ws ws') {path : Text} (hpath : pathVisible scopes path = true)
    (houtside : ¬ js "systems/" <+: path) : ws.doc? path = ws'.doc? path := by
  have hgenerated : ∀ {ws : ServedKb} {doc : KbDoc}, ws.doc? path = some doc → doc.isGenerated = false := by
    intro ws doc hdoc
    simp [KbDoc.isGenerated, ServedKb.doc?_path hdoc, houtside]
  have hshown := h.shown_doc? hpath
  cases hdoc : ws.doc? path with
  | none => cases hdoc' : ws'.doc? path with
    | none => rfl
    | some doc' => simp [hdoc, hdoc'] at hshown
  | some doc => cases hdoc' : ws'.doc? path with
    | none => simp [hdoc, hdoc'] at hshown
    | some doc' =>
      rw [hdoc, hdoc', Option.map_some, Option.map_some, Option.some.injEq] at hshown
      exact congrArg some (KbDoc.eq_of_shown hshown (hgenerated hdoc))

/-! ### Entities -/

theorem not_isGenerated_of_isEntity {doc : KbDoc} (h : doc.isEntity = true) : doc.isGenerated = false := by
  have hclass : doc.text "doc_class" = some (js "entity") := of_decide_eq_true h
  have hother : ∀ docClass, js "entity" ≠ js docClass → doc.isClass docClass = false := by
    intro docClass hne
    simp [KbDoc.isClass, hclass, hne]
  simp [KbDoc.isGenerated, hother "machine-object" (by decide), hother "machine-group" (by decide),
    hother "machine-index" (by decide)]

/-- The entities a caller may see. -/
def shownEntity (scopes : List Scope) (doc : KbDoc) : Bool := doc.isEntity && pathVisible scopes doc.path

theorem filter_shownEntity (ws : ServedKb) (scopes : List Scope) :
    ws.docs.filter (shownEntity scopes) =
      (ws.shownDocs scopes).filterMap fun e => e.2.filter fun doc => doc.isEntity := by
  rw [shownDocs_eq, List.filterMap_map, List.filterMap_filter, ← List.filterMap_eq_filter]
  refine congrArg (fun f => ws.docs.filterMap f) (funext fun doc => ?_)
  by_cases hpath : pathVisible scopes doc.path = true
  · by_cases hentity : doc.isEntity = true
    · simp [shownEntity, KbDoc.shown, hpath, hentity, not_isGenerated_of_isEntity hentity, Option.filter_some]
    · by_cases hgenerated : doc.isGenerated = true <;>
        simp [shownEntity, KbDoc.shown, hpath, hentity, hgenerated, Option.filter_some, Option.guard]
  · simp [shownEntity, hpath]

instance : Std.Total byPath := ⟨fun a b => List.le_total a.path b.path⟩

instance : IsTrans KbDoc byPath := ⟨fun _ _ _ => List.le_trans⟩

/-- The visible entities stand in one order in the two indexes. -/
theorem SameView.filter_buildIndex (h : SameView scopes ws ws') :
    (buildIndex ws).filter (shownEntity scopes) = (buildIndex ws').filter (shownEntity scopes) := by
  have hdocs : ws.docs.filter (shownEntity scopes) = ws'.docs.filter (shownEntity scopes) := by
    rw [filter_shownEntity, filter_shownEntity, h.docs]
  have hperm : ∀ ws : ServedKb,
      ((buildIndex ws).filter (shownEntity scopes)).Perm (ws.docs.filter (shownEntity scopes)) :=
    fun ws => (List.perm_insertionSort byPath ws.docs).filter _
  have hsorted : ∀ ws : ServedKb, ((buildIndex ws).filter (shownEntity scopes)).Pairwise byPath :=
    fun ws => (List.pairwise_insertionSort byPath ws.docs).filter _
  refine List.Perm.eq_of_pairwise ?_ (hsorted ws) (hsorted ws')
    ((hperm ws).trans (hdocs ▸ (hperm ws').symm))
  intro a b ha hb hab hba
  have hmem : ∀ {c}, c ∈ (buildIndex ws').filter (shownEntity scopes) → c ∈ ws'.docs :=
    fun hc => (List.mem_insertionSort byPath).mp (List.mem_filter.mp hc).1
  have ha' : a ∈ ws'.docs := by
    have : a ∈ ws.docs.filter (shownEntity scopes) := (hperm ws).mem_iff.mp ha
    rw [hdocs] at this
    exact (List.mem_filter.mp this).1
  exact List.inj_on_of_nodup_map ws'.keyedByPath ha' (hmem hb) (List.le_antisymm hab hba)

theorem not_shown_of_not_hidden {name : Text} (h : ¬ HiddenStandsFor P ws scopes name) {doc : KbDoc}
    (hdoc : entityDoc P ws name = some doc) : pathVisible scopes doc.path = true := by
  by_contra hhidden
  exact h ⟨doc, hdoc, Bool.not_eq_true _ ▸ hhidden⟩

/-- Where no hidden document stands for a name, the visible ones decide. -/
theorem SameView.entityDoc_eq (h : SameView scopes ws ws') {name : Text}
    (hws : ¬ HiddenStandsFor P ws scopes name) (hws' : ¬ HiddenStandsFor P ws' scopes name) :
    entityDoc P ws name = entityDoc P ws' name := by
  set path := js "entities/" ++ slug P name ++ js ".md" with hpath
  have hslug : ws.doc? path = ws'.doc? path := by
    by_cases hvisible : pathVisible scopes path = true
    · refine h.doc?_eq hvisible ?_
      rw [hpath, List.append_assoc]
      exact fun hprefix => absurd (List.prefix_of_prefix_length_le hprefix (List.prefix_append _ _) (by decide)) (by decide)
    · have hnone : ∀ {ws : ServedKb}, ¬ HiddenStandsFor P ws scopes name → ws.doc? path = none := by
        intro ws hnot
        by_contra hsome
        obtain ⟨doc, hdoc⟩ := Option.ne_none_iff_exists'.mp hsome
        have hstands : entityDoc P ws name = some doc := by rw [entityDoc, ← hpath, hdoc]
        exact hvisible (ServedKb.doc?_path hdoc ▸ not_shown_of_not_hidden hnot hstands)
      rw [hnone hws, hnone hws']
  rw [entityDoc, entityDoc, ← hpath, ← hslug]
  cases hdoc : ws.doc? path with
  | some doc => rfl
  | none =>
    have hindex : ∀ {ws : ServedKb}, ws.doc? path = none → ¬ HiddenStandsFor P ws scopes name →
        (buildIndex ws).find? (KbDoc.goesBy P (P.toLowerCase (Connections.trim name))) =
          ((buildIndex ws).filter (shownEntity scopes)).find?
            (KbDoc.goesBy P (P.toLowerCase (Connections.trim name))) := by
      intro ws hnone hnot
      have hstands : entityDoc P ws name =
          (buildIndex ws).find? (KbDoc.goesBy P (P.toLowerCase (Connections.trim name))) := by
        rw [entityDoc, ← hpath, hnone]
      rw [List.find?_filter]
      cases hfind : (buildIndex ws).find? (KbDoc.goesBy P (P.toLowerCase (Connections.trim name))) with
      | none =>
        refine (List.find?_eq_none.mpr fun doc hmem hboth => ?_).symm
        exact List.find?_eq_none.mp hfind doc hmem (of_decide_eq_true hboth).2
      | some doc =>
        obtain ⟨hgoes, before, after, hsplit, hbefore⟩ := List.find?_eq_some_iff_append.mp hfind
        refine (List.find?_eq_some_iff_append.mpr ⟨?_, before, after, hsplit, ?_⟩).symm
        · have hentity : doc.isEntity = true := (Bool.and_eq_true _ _ ▸ hgoes).1
          simp [shownEntity, hentity, hgoes, not_shown_of_not_hidden hnot (hstands.trans hfind)]
        · intro other hother
          simp [Bool.eq_false_iff.mpr (by simpa using hbefore other hother)]
    dsimp only
    rw [hindex hdoc hws, hindex (hslug ▸ hdoc) hws', h.filter_buildIndex]

theorem SameView.suggestions_eq (h : SameView scopes ws ws') : suggestions ws scopes = suggestions ws' scopes :=
  congrArg (fun docs => (docs.map KbDoc.title).take 5) h.filter_buildIndex

theorem humanTrust_eq {doc doc' : KbDoc} (hfm : doc.fm.getD [] = doc'.fm.getD [])
    (hhash : ws.currentHash doc = ws'.currentHash doc') : humanTrust ws doc = humanTrust ws' doc' := by
  have hmember : doc.member = doc'.member := funext fun key => congrArg (Dict.get? · (js key)) hfm
  have htext : doc.text = doc'.text := funext fun key => by rw [KbDoc.text, KbDoc.text, hmember]
  rw [humanTrust, humanTrust, htext, hmember, hhash]

/-- What `get_entity` answers, by what the name stands for. -/
theorem toolGetEntity_answer {name : Text} (hname : name ≠ []) :
    (toolGetEntity P ws scopes name).answer =
      match entityDoc P ws name with
      | none => .error .notFound (js "no entity " ++ name) (.suggestions (suggestions ws scopes))
      | some doc =>
        if pathVisible scopes doc.path then
          .entity ⟨doc.path, doc.title, doc.fm.getD [], doc.body, humanTrust ws doc⟩
        else .error .notFound (js "no entity " ++ name) .nothing := by
  rw [toolGetEntity, if_neg hname]
  cases entityDoc P ws name with
  | none => rfl
  | some doc =>
    dsimp only
    split <;> rfl

theorem SameView.getEntity_iff (h : SameView scopes ws ws') (name : Text) :
    (toolGetEntity P ws scopes name).answer = (toolGetEntity P ws' scopes name).answer ↔
      KbCall.Undisturbed P scopes ws ws' (.getEntity name) := by
  by_cases hname : name = []
  · simp [toolGetEntity, KbCall.Undisturbed, hname, err]
  · have hanswer : ∀ {ws : ServedKb}, HiddenStandsFor P ws scopes name ↔ (toolGetEntity P ws scopes name).answer =
        .error .notFound (js "no entity " ++ name) .nothing := by
      intro ws
      rw [toolGetEntity_answer hname]
      cases hdoc : entityDoc P ws name with
      | none => simp [HiddenStandsFor, hdoc]
      | some doc => by_cases hvisible : pathVisible scopes doc.path = true <;>
          simp [HiddenStandsFor, hdoc, hvisible]
    simp only [KbCall.Undisturbed, ne_eq, hname, not_false_eq_true, forall_const]
    by_cases hws : HiddenStandsFor P ws scopes name
    · have hserved : ∀ doc, entityDoc P ws name = some doc → ¬ pathVisible scopes doc.path = true := by
        obtain ⟨hidden, hdoc, hpath⟩ := hws
        rintro doc hdoc'
        simp [← Option.some.inj (hdoc.symm.trans hdoc'), hpath]
      rw [hanswer.mp hws, eq_comm, ← hanswer]
      exact ⟨fun hws' => ⟨by simp [hws, hws'], fun doc hdoc hpath => absurd hpath (hserved doc hdoc)⟩,
        fun hboth => hboth.1.mp hws⟩
    · by_cases hws' : HiddenStandsFor P ws' scopes name
      · refine iff_of_false (fun heq => ?_) fun hboth => hws (hboth.1.mpr hws')
        exact hws (hanswer.mpr (heq.trans (hanswer.mp hws')))
      · simp only [hws, hws', true_and]
        rw [toolGetEntity_answer hname, toolGetEntity_answer hname, ← h.entityDoc_eq hws hws', h.suggestions_eq]
        cases hdoc : entityDoc P ws name with
        | none => simp
        | some doc =>
          simp only [not_shown_of_not_hidden hws hdoc, if_true, Option.some.injEq, forall_eq', forall_const,
            ToolAnswer.entity.injEq, EntityPayload.mk.injEq, true_and]
          exact ⟨fun htrust => congrArg TrustBlock.currentHash htrust, humanTrust_eq rfl⟩

/-! ### Tables -/

theorem shownObjects_fst (ws : ServedKb) (scopes : List Scope) (state : ServedSystem) :
    (ws.shownObjects scopes state).map Prod.fst = state.objects.filter (ws.visible scopes) := by
  rw [ServedKb.shownObjects, List.map_map]
  exact List.map_id _

/-- The states of one system in two workspaces with one view. -/
structure SameSystem (scopes : List Scope) (ws ws' : ServedKb) (state state' : ServedSystem) : Prop where
  renderLag : state.renderLag = state'.renderLag
  objects : ws.shownObjects scopes state = ws'.shownObjects scopes state'

theorem SameView.sameSystem (h : SameView scopes ws ws') {system : Text}
    (hstate : Dict.get? ws.systems system = some state) (hstate' : Dict.get? ws'.systems system = some state') :
    SameSystem scopes ws ws' state state' := by
  have hsystem := h.systems system
  rw [hstate, hstate', Option.map_some, Option.map_some, Option.some.injEq, Prod.mk.injEq] at hsystem
  exact ⟨hsystem.1, hsystem.2⟩

theorem SameSystem.filter_eq (h : SameSystem scopes ws ws' state state') :
    state.objects.filter (ws.visible scopes) = state'.objects.filter (ws'.visible scopes) := by
  rw [← shownObjects_fst, ← shownObjects_fst, h.objects]

theorem SameSystem.visible' (h : SameSystem scopes ws ws' state state') {o : ServedObject}
    (ho : o ∈ state.objects) (hvisible : ws.visible scopes o = true) :
    o ∈ state'.objects ∧ ws'.visible scopes o = true :=
  List.mem_filter.mp (h.filter_eq ▸ List.mem_filter.mpr ⟨ho, hvisible⟩)

theorem SameSystem.fqnPath_eq (h : SameSystem scopes ws ws' state state') {o : ServedObject}
    (ho : o ∈ state.objects) (hvisible : ws.visible scopes o = true) :
    fqnPath ws.toKbState o.fqn = fqnPath ws'.toKbState o.fqn := by
  have hmem : (o, fqnPath ws.toKbState o.fqn) ∈ ws'.shownObjects scopes state' :=
    h.objects ▸ List.mem_map_of_mem (List.mem_filter.mpr ⟨ho, hvisible⟩)
  obtain ⟨o', -, heq⟩ := List.mem_map.mp hmem
  rw [Prod.mk.injEq] at heq
  rw [← heq.2, heq.1]

theorem SameSystem.candidates_eq (h : SameSystem scopes ws ws' state state') (name : Text) :
    (candidates state name).filter (ws.visible scopes) = (candidates state' name).filter (ws'.visible scopes) := by
  have hcomm : ∀ (ws : ServedKb) (state : ServedSystem), (candidates state name).filter (ws.visible scopes) =
      (state.objects.filter (ws.visible scopes)).filter fun o => decide (o.name = name) := by
    intro ws state
    rw [candidates, List.filter_filter, List.filter_filter]
    exact List.filter_congr fun o _ => Bool.and_comm _ _
  rw [hcomm, hcomm, h.filter_eq]

/-- A name that is not ambiguous is resolved among the visible objects, as far as a caller can tell. -/
theorem filter_resolveTable {system name : Text} (hname : ¬ Ambiguous state name) :
    (resolveTable state system name).filter (ws.visible scopes) =
      if 0x2E ∈ name then
        (state.objects.filter (ws.visible scopes)).find? fun o => decide (o.fqn = system ++ js "." ++ name)
      else ((candidates state name).filter (ws.visible scopes)).head? := by
  by_cases hdot : 0x2E ∈ name
  · rw [resolveTable, if_pos hdot, if_pos hdot,
      find?_filter_of_nodup (f := fun o : ServedObject => o.fqn) state.keyedByFqn]
    rfl
  · rw [resolveTable, if_neg hdot, if_neg hdot]
    have hlength : (candidates state name).length ≤ 1 := not_lt.mp fun hlt => hname ⟨hdot, hlt⟩
    match hlist : candidates state name with
    | [] => rfl
    | [o] => by_cases hvisible : ws.visible scopes o = true <;> simp [hvisible, Option.filter_some]
    | _ :: _ :: _ => simp [hlist] at hlength

theorem SameSystem.resolve_eq (h : SameSystem scopes ws ws' state state') {system name : Text}
    (hname : ¬ Ambiguous state name) (hname' : ¬ Ambiguous state' name) :
    (resolveTable state system name).filter (ws.visible scopes) =
      (resolveTable state' system name).filter (ws'.visible scopes) := by
  rw [filter_resolveTable hname, filter_resolveTable hname', h.filter_eq, h.candidates_eq]

/-- Hidden objects are never named as referring. -/
theorem referencedBy_eq (ws : ServedKb) (scopes : List Scope) (state : ServedSystem) (o : ServedObject) :
    referencedBy ws scopes state o = (state.objects.filter (ws.visible scopes)).flatMap fun other =>
      (other.foreign.filter fun ref => decide (ref = o.schema ++ js "." ++ o.name)).map fun _ => other.fqn := by
  rw [referencedBy]
  induction state.objects with
  | nil => rfl
  | cons other rest ih =>
    by_cases hvisible : ws.visible scopes other = true
    · rw [List.filter_cons_of_pos hvisible, List.flatMap_cons, List.flatMap_cons, ih]
      simp only [hvisible, Bool.and_true]
    · rw [List.filter_cons_of_neg hvisible, List.flatMap_cons, ih]
      simp [Bool.eq_false_iff.mpr hvisible]

theorem mem_of_resolveTable {system name : Text} {o : ServedObject}
    (h : resolveTable state system name = some o) : o ∈ state.objects := by
  rw [resolveTable] at h
  split at h
  · exact List.mem_of_find?_eq_some h
  · split at h
    · rename_i single hlist
      obtain rfl := Option.some.inj h
      have hmem : single ∈ candidates state name := hlist ▸ List.mem_singleton_self _
      exact (List.mem_filter.mp hmem).1
    · cases h

theorem SameSystem.tablePayload_iff (h : SameSystem scopes ws ws' state state') {o : ServedObject}
    (ho : o ∈ state.objects) (hvisible : ws.visible scopes o = true) :
    tablePayload ws scopes state o = tablePayload ws' scopes state' o ↔
      state.snapshotRef = state'.snapshotRef ∧
        (ws.machineDoc o.fqn).map KbDoc.body = (ws'.machineDoc o.fqn).map KbDoc.body ∧
        ws.beside o.fqn = ws'.beside o.fqn := by
  constructor
  · intro heq
    have hmachine := congrArg TablePayload.machine heq
    have hhuman := congrArg (fun payload => payload.human.map fun part =>
      (part.content, part.frontMatter, part.trust.currentHash)) heq
    refine ⟨?_, congrArg MachinePart.content hmachine, ?_⟩
    · exact Option.some.inj (congrArg (fun part => part.trust.snapshotRef) hmachine)
    · simpa only [tablePayload, Option.map_map, Function.comp_def, humanTrust, ServedKb.beside] using hhuman
  · rintro ⟨href, hmachine, hbeside⟩
    have hpath := h.fqnPath_eq ho hvisible
    have hsibling : ws.humanPath o.fqn = ws'.humanPath o.fqn := by
      rw [ServedKb.humanPath, ServedKb.humanPath, hpath]
    have hhot : (ws.humanDoc o.fqn).isSome = (ws'.humanDoc o.fqn).isSome := by
      simpa only [ServedKb.beside, Option.isSome_map] using congrArg Option.isSome hbeside
    have hhuman : (tablePayload ws scopes state o).human = (tablePayload ws' scopes state' o).human := by
      simp only [tablePayload, hsibling]
      simp only [ServedKb.beside] at hbeside
      cases hdoc : ws.humanDoc o.fqn with
      | none => cases hdoc' : ws'.humanDoc o.fqn with
        | none => rfl
        | some doc' => simp [hdoc, hdoc'] at hbeside
      | some doc => cases hdoc' : ws'.humanDoc o.fqn with
        | none => simp [hdoc, hdoc'] at hbeside
        | some doc' =>
          simp only [hdoc, hdoc', Option.map_some, Option.some.injEq, Prod.mk.injEq] at hbeside
          rw [Option.map_some, Option.map_some, hbeside.1, hbeside.2.1, humanTrust_eq hbeside.2.1 hbeside.2.2]
    have htrust : machineTrust (some state) = machineTrust (some state') := by
      simp only [machineTrust, Option.map_some, href, h.renderLag]
    have hreferenced : referencedBy ws scopes state o = referencedBy ws' scopes state' o := by
      rw [referencedBy_eq, referencedBy_eq, h.filter_eq]
    calc tablePayload ws scopes state o
        = ⟨o.fqn, o.kind, (ws.humanDoc o.fqn).isSome,
            ⟨fqnPath ws.toKbState o.fqn, (ws.machineDoc o.fqn).map KbDoc.body, machineTrust (some state)⟩,
            (tablePayload ws scopes state o).human, sortTexts (referencedBy ws scopes state o)⟩ := rfl
      _ = tablePayload ws' scopes state' o := by
        rw [hhot, hpath, hmachine, htrust, hhuman, hreferenced]
        rfl

/-- What `get_table` answers about a name that is not ambiguous. -/
theorem toolGetTable_answer {system name : Text} (hsystem : system ≠ []) (hname : name ≠ [])
    (hstate : Dict.get? ws.systems system = some state) (hplain : ¬ Ambiguous state name) :
    (toolGetTable ws scopes system name).answer =
      match (resolveTable state system name).filter (ws.visible scopes) with
      | none => .error .notFound (js "no object " ++ name ++ js " in " ++ system) .nothing
      | some o => .table (tablePayload ws scopes state o) := by
  rw [toolGetTable, if_neg (not_or.mpr ⟨hsystem, hname⟩), hstate]
  dsimp only
  rw [if_neg hplain]
  cases resolveTable state system name with
  | none => rfl
  | some o => by_cases hvisible : ws.visible scopes o = true <;>
      simp [hvisible, Option.filter_some, hiddenMatch, err]

theorem toolGetTable_ambiguous {system name : Text} (hsystem : system ≠ []) (hname : name ≠ [])
    (hstate : Dict.get? ws.systems system = some state) (h : Ambiguous state name) :
    (toolGetTable ws scopes system name).answer = .error .invalidArgument
      (js "name " ++ name ++ js " is ambiguous in " ++ system ++ js "; qualify the schema")
      (.candidates (((candidates state name).filter (ws.visible scopes)).map (·.fqn))) := by
  rw [toolGetTable, if_neg (not_or.mpr ⟨hsystem, hname⟩), hstate]
  dsimp only
  rw [if_pos h]
  rfl

/-- An ambiguous name is answered unlike any other. -/
theorem toolGetTable_ne_ambiguous {system name : Text} (hsystem : system ≠ []) (hname : name ≠ [])
    (hstate : Dict.get? ws.systems system = some state) (hplain : ¬ Ambiguous state name) (message : Text)
    (extra : ErrorExtra) : (toolGetTable ws scopes system name).answer ≠ .error .invalidArgument message extra := by
  rw [toolGetTable_answer hsystem hname hstate hplain]
  cases (resolveTable state system name).filter (ws.visible scopes) with
  | none => simp
  | some o => simp

theorem SameSystem.answers_iff (h : SameSystem scopes ws ws' state state') {system name : Text}
    (hsystem : system ≠ []) (hname : name ≠ []) (hstate : Dict.get? ws.systems system = some state)
    (hstate' : Dict.get? ws'.systems system = some state') :
    (toolGetTable ws scopes system name).answer = (toolGetTable ws' scopes system name).answer ↔
      (Ambiguous state name ↔ Ambiguous state' name) ∧
        ∀ o, ¬ Ambiguous state name → resolveTable state system name = some o → ws.visible scopes o = true →
          state.snapshotRef = state'.snapshotRef ∧
            (ws.machineDoc o.fqn).map KbDoc.body = (ws'.machineDoc o.fqn).map KbDoc.body ∧
            ws.beside o.fqn = ws'.beside o.fqn := by
  by_cases hamb : Ambiguous state name
  · by_cases hamb' : Ambiguous state' name
    · rw [toolGetTable_ambiguous hsystem hname hstate hamb, toolGetTable_ambiguous hsystem hname hstate' hamb',
        h.candidates_eq]
      exact iff_of_true rfl ⟨iff_of_true hamb hamb', fun _ hplain => absurd hamb hplain⟩
    · rw [toolGetTable_ambiguous hsystem hname hstate hamb]
      exact iff_of_false (toolGetTable_ne_ambiguous hsystem hname hstate' hamb' _ _).symm
        fun hboth => hamb' (hboth.1.mp hamb)
  · by_cases hamb' : Ambiguous state' name
    · rw [toolGetTable_ambiguous hsystem hname hstate' hamb']
      exact iff_of_false (toolGetTable_ne_ambiguous hsystem hname hstate hamb _ _)
        fun hboth => hamb (hboth.1.mpr hamb')
    · rw [toolGetTable_answer hsystem hname hstate hamb, toolGetTable_answer hsystem hname hstate' hamb',
        ← h.resolve_eq hamb hamb']
      simp only [hamb, hamb', not_false_eq_true, forall_const, true_and]
      cases hresolved : resolveTable state system name with
      | none => simp
      | some o =>
        by_cases hvisible : ws.visible scopes o = true
        · simp [hvisible, Option.filter_some, h.tablePayload_iff (mem_of_resolveTable hresolved) hvisible]
        · simp [hvisible, Option.filter_some]

theorem SameView.getTable_iff (h : SameView scopes ws ws') (system name : Text) :
    (toolGetTable ws scopes system name).answer = (toolGetTable ws' scopes system name).answer ↔
      KbCall.Undisturbed P scopes ws ws' (.getTable system name) := by
  by_cases hargs : system = [] ∨ name = []
  · have hrefused : ∀ ws : ServedKb, toolGetTable ws scopes system name =
        err .invalidArgument (js "system and name (strings) required") .nothing :=
      fun ws => by rw [toolGetTable, if_pos hargs]
    rw [hrefused, hrefused]
    exact iff_of_true rfl fun hsystem hname => absurd hargs (not_or.mpr ⟨hsystem, hname⟩)
  · obtain ⟨hsystem, hname⟩ := not_or.mp hargs
    simp only [KbCall.Undisturbed, ne_eq, hsystem, hname, not_false_eq_true, forall_const]
    have hpair := h.systems system
    cases hstate : Dict.get? ws.systems system with
    | none =>
      cases hstate' : Dict.get? ws'.systems system with
      | some state' => simp [hstate, hstate'] at hpair
      | none => simp [toolGetTable, hsystem, hname, hstate, hstate']
    | some state =>
      cases hstate' : Dict.get? ws'.systems system with
      | none => simp [hstate, hstate'] at hpair
      | some state' =>
        rw [(h.sameSystem hstate hstate').answers_iff hsystem hname hstate hstate']
        constructor
        · rintro hboth _ _ ⟨⟩ ⟨⟩
          exact hboth
        · exact fun hall => hall state state' rfl rfl

/-- **A caller can tell** two workspaces with one view apart exactly where a call reads beyond the view. -/
theorem sameAnswer_iff_undisturbed (h : SameView scopes ws ws') (call : KbCall) :
    (call.outcome P ws scopes).answer = (call.outcome P ws' scopes).answer ↔
      KbCall.Undisturbed P scopes ws ws' call := by
  cases call with
  | getEntity name => exact h.getEntity_iff name
  | getTable system name => exact h.getTable_iff system name

section Example

def orders : ServedObject := ⟨⟨js "s", js "a", js "orders", js "table", []⟩, js "1", []⟩

/-- A table of the same name in a schema the caller may not see. -/
def shadowOrders : ServedObject := ⟨⟨js "s", js "b", js "orders", js "table", []⟩, js "2", []⟩

def machinePage (schema : String) : KbDoc where
  path := js ("systems/s/" ++ schema ++ "/orders.schema.md")
  fm := some [(js "doc_class", .str (js "machine-object")), (js "object", .str (js ("s." ++ schema ++ ".orders")))]
  body := js "# orders"
  title := js "orders"

def ordersEntity : KbDoc where
  path := js "entities/orders.md"
  fm := some [(js "doc_class", .str (js "entity"))]
  body := js "# Orders"
  title := js "Orders"

def plainKb : ServedKb where
  headSha := js "head"
  docs := [machinePage "a"]
  keyedByPath := by decide
  machineByFqn := [(orders.fqn, js "systems/s/a/orders.schema.md")]
  systems := [(js "s", ⟨js "sql", js "10", [orders], by decide, false⟩)]
  guardrails := []

/-- The same, with a hidden table and a hidden entity. -/
def crowdedKb : ServedKb where
  headSha := js "head"
  docs := [machinePage "a", machinePage "b", ordersEntity]
  keyedByPath := by decide
  machineByFqn := [(orders.fqn, js "systems/s/a/orders.schema.md"),
    (shadowOrders.fqn, js "systems/s/b/orders.schema.md")]
  systems := [(js "s", ⟨js "sql", js "12", [orders, shadowOrders], by decide, false⟩)]
  guardrails := []

def schemaScope : Scope := ⟨js "systems/s/a/*", _, rfl⟩

theorem plainKb_sameView : SameView [schemaScope] plainKb crowdedKb where
  docs := rfl
  systems := by
    intro system
    by_cases h : js "s" = system
    · subst h
      rfl
    · simp [Dict.get?, h, plainKb, crowdedKb]

/-- A hidden table is answered as a missing one when it is asked for by its full name. -/
theorem sameAnswer_iff_undisturbed_hidden :
    (toolGetTable plainKb [schemaScope] (js "s") (js "b.orders")).answer =
      (toolGetTable crowdedKb [schemaScope] (js "s") (js "b.orders")).answer := by
  refine (sameAnswer_iff_undisturbed (P := .ideal) plainKb_sameView (.getTable (js "s") (js "b.orders"))).mpr ?_
  rintro - - state state' hstate hstate'
  have hdot : ∀ state : ServedSystem, ¬ Ambiguous state (js "b.orders") :=
    fun state hamb => hamb.1 (by decide)
  refine ⟨iff_of_false (hdot state) (hdot state'), fun o _ hresolved => ?_⟩
  obtain rfl := Option.some.inj hstate
  cases hresolved

/-- A hidden table makes the bare name of a visible one ambiguous, and a hidden entity takes the suggestions away. -/
theorem not_sameAnswer_orders :
    SameView [schemaScope] plainKb crowdedKb ∧
      (toolGetTable plainKb [schemaScope] (js "s") (js "orders")).answer ≠
        (toolGetTable crowdedKb [schemaScope] (js "s") (js "orders")).answer ∧
      (toolGetEntity .ideal plainKb [schemaScope] (js "orders")).answer ≠
        (toolGetEntity .ideal crowdedKb [schemaScope] (js "orders")).answer := by
  refine ⟨plainKb_sameView, ?_, ?_⟩
  · have hambiguous := @toolGetTable_ambiguous [schemaScope] crowdedKb _ (js "s") (js "orders") (by decide)
      (by decide) rfl (by decide)
    rw [hambiguous]
    exact toolGetTable_ne_ambiguous (by decide) (by decide) rfl (by decide) _ _
  · have hmissing : (toolGetEntity .ideal plainKb [schemaScope] (js "orders")).answer =
        .error .notFound (js "no entity orders") (.suggestions []) := rfl
    have hhidden : (toolGetEntity .ideal crowdedKb [schemaScope] (js "orders")).answer =
        .error .notFound (js "no entity orders") .nothing := rfl
    rw [hmissing, hhidden]
    simp

end Example

end ContextLayer
