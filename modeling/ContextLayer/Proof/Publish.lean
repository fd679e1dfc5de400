import Mathlib.Data.List.Pairwise
import Mathlib.Data.List.Sort
import ContextLayer.Publish

/-!
# Revisions are assigned once

Rows are only ever added, so what a call has read stays true of the revisions below the one it has
chosen. If the primary key then admits that revision, nothing was stored since the call read, and its
content is new; if it does not, the call fails and leaves nothing.
-/

namespace ContextLayer

open Text Transaction

variable {sha256 : List UInt8 → Text}

/-! ### Bookkeeping -/

theorem eraseKey_set (key : String) (members : List (Text × Json)) (value : Json) :
    eraseKey key (Dict.set members (js key) value) = eraseKey key members := by
  unfold eraseKey
  induction members with
  | nil => simp [Dict.set]
  | cons m members ih =>
      obtain ⟨k, v⟩ := m
      by_cases hk : k = js key
      · simp [Dict.set, hk]
      · rw [Dict.set, if_neg hk, List.filter_cons_of_pos (by simpa using hk),
          List.filter_cons_of_pos (by simpa using hk), ih]

theorem eraseKey_set_ne {key key' : String} (hne : js key' ≠ js key) (members : List (Text × Json))
    (value : Json) :
    eraseKey key (Dict.set members (js key') value) = Dict.set (eraseKey key members) (js key') value := by
  unfold eraseKey
  induction members with
  | nil => simp [Dict.set, hne]
  | cons m members ih =>
      obtain ⟨k, v⟩ := m
      by_cases hk' : k = js key'
      · subst hk'
        simp [Dict.set, hne]
      · by_cases hk : k = js key
        · rw [Dict.set, if_neg hk', List.filter_cons_of_neg (by simp [hk]),
            List.filter_cons_of_neg (by simp [hk]), ih]
        · rw [Dict.set, if_neg hk', List.filter_cons_of_pos (by simpa using hk),
            List.filter_cons_of_pos (by simpa using hk), Dict.set, if_neg hk', ih]

theorem map_set {f : Text × Json → Text × Json} {members : List (Text × Json)} {key : Text}
    {value value' : Json} (hget : Dict.get? members key = some value)
    (hf : f (key, value') = f (key, value)) : (Dict.set members key value').map f = members.map f := by
  induction members with
  | nil => cases hget
  | cons m members ih =>
      obtain ⟨k, v⟩ := m
      rw [Dict.get?_cons] at hget
      by_cases hk : k = key
      · subst hk
        rw [if_pos rfl] at hget
        obtain rfl := Option.some.inj hget
        simp [Dict.set, hf]
      · rw [if_neg hk] at hget
        rw [Dict.set, if_neg hk, List.map_cons, List.map_cons, ih hget]

theorem get?_eraseKey {key key' : String} (hne : js key' ≠ js key) (members : List (Text × Json)) :
    Dict.get? (eraseKey key members) (js key') = Dict.get? members (js key') := by
  unfold eraseKey
  induction members with
  | nil => rfl
  | cons m members ih =>
      obtain ⟨k, v⟩ := m
      by_cases hk : k = js key
      · rw [List.filter_cons_of_neg (by simp [hk]), ih, Dict.get?_cons, if_neg (hk ▸ hne.symm)]
      · rw [List.filter_cons_of_pos (by simpa using hk), Dict.get?_cons, Dict.get?_cons, ih]

/-- A revision and a hash that a client sends along do not count as content. -/
theorem contentHash_set_revision (artifact : List (Text × Json)) (revision hash : Json) :
    contentHash sha256 (Dict.set (Dict.set artifact (js "content_hash") hash) (js "revision")
      revision) = contentHash sha256 artifact := by
  have hbody : canonicalBody (Dict.set (Dict.set artifact (js "content_hash") hash)
      (js "revision") revision) = canonicalBody artifact := by
    rw [canonicalBody, eraseKey_set, eraseKey_set_ne (by decide), eraseKey_set]
    rfl
  rw [contentHash, hbody]
  rfl

/-- Nor does the hash of the definition, which the second call may add to the layout. -/
theorem contentHash_set_pbirHash {artifact layout : List (Text × Json)} (hash : Json)
    (hlayout : member artifact "layout" = some (.obj layout))
    (hauthored : isAuthoredLayout (.obj layout) = true) :
    contentHash sha256 (Dict.set artifact (js "layout")
      (.obj (Dict.set layout (js "pbir_hash") hash))) = contentHash sha256 artifact := by
  have hauthored' : isAuthoredLayout (.obj (Dict.set layout (js "pbir_hash") hash)) = true := by
    have hmember : ∀ key : String, js "pbir_hash" ≠ js key →
        member (Dict.set layout (js "pbir_hash") hash) key = member layout key :=
      fun key hne => Dict.get?_set_ne layout hash hne
    rw [← hauthored, isAuthoredLayout, hmember _ (by decide), hmember _ (by decide),
      hmember _ (by decide), isAuthoredLayout]
  have hbody : canonicalBody (Dict.set artifact (js "layout")
      (.obj (Dict.set layout (js "pbir_hash") hash))) = canonicalBody artifact := by
    rw [canonicalBody, eraseKey_set_ne (by decide), eraseKey_set_ne (by decide), canonicalBody]
    have hget : Dict.get? (eraseKey "content_hash" (eraseKey "revision" artifact)) (js "layout") =
        some (.obj layout) := by
      rw [get?_eraseKey (by decide), get?_eraseKey (by decide)]
      exact hlayout
    exact map_set hget (by simp only [if_true, withoutPbirHash, hauthored, hauthored', eraseKey_set])
  rw [contentHash, hbody]
  rfl

/-! ### What the calls in flight know -/

/-- All revisions below `n` are stored, and none of them has the content. -/
structure NextRevision (rows : List ReportArtifact) (artifactId hash : Text) (n : Nat) : Prop where
  pos : 1 ≤ n
  below : ∀ j, 1 ≤ j → j < n → hasRevision rows artifactId j
  fresh : ∀ r ∈ rows, r.artifactId = artifactId → r.revision < n → r.contentHash ≠ hash

def hasContent (rows : List ReportArtifact) (artifactId hash : Text) (n : Nat) : Prop :=
  ∃ r ∈ rows, r.artifactId = artifactId ∧ r.revision = n ∧ r.contentHash = hash

def WorkSound (journal : List ModelCommit) (artifactId target : Text) (n : Nat) : ModeWork → Prop
  | .attest _ _ _ => .delivered artifactId target n ∈ journal
  | _ => True

def CallSound (sha256 : List UInt8 → Text) (rows : List ReportArtifact) (journal : List ModelCommit)
    (call : PublishCall) : Prop :=
  match call.stage with
  | .accepted => True
  | .chosen n => NextRevision rows call.artifactId (contentHash sha256 call.args.artifact) n
  | .numbered n => hasContent rows call.artifactId (contentHash sha256 call.args.artifact) n
  | .awaiting n work => hasContent rows call.artifactId (contentHash sha256 call.args.artifact) n ∧
      WorkSound journal call.artifactId call.args.target n work

theorem hasRevision_append {rows : List ReportArtifact} {row : ReportArtifact} {artifactId : Text}
    {n : Nat} : hasRevision (rows ++ [row]) artifactId n ↔
      hasRevision rows artifactId n ∨ row.artifactId = artifactId ∧ row.revision = n := by
  simp [hasRevision, or_and_right, exists_or]

/-- A row with a new revision is above every revision that a call has chosen. -/
theorem NextRevision.append {rows : List ReportArtifact} {row : ReportArtifact}
    {artifactId hash : Text} {n : Nat} (h : NextRevision rows artifactId hash n)
    (hrow : 1 ≤ row.revision) (hnew : ¬ hasRevision rows row.artifactId row.revision) :
    NextRevision (rows ++ [row]) artifactId hash n where
  pos := h.pos
  below j hj hlt := hasRevision_append.mpr (.inl (h.below j hj hlt))
  fresh r hr hid hlt := by
    rcases List.mem_append.mp hr with hold | hmem
    · exact h.fresh r hold hid hlt
    · obtain rfl := List.mem_singleton.mp hmem
      exact absurd (hid ▸ h.below r.revision hrow hlt) (hid ▸ hnew)

theorem CallSound.append {rows : List ReportArtifact} {journal : List ModelCommit}
    {call : PublishCall} {row : ReportArtifact} (h : CallSound sha256 rows journal call)
    (hrow : 1 ≤ row.revision) (hnew : ¬ hasRevision rows row.artifactId row.revision) :
    CallSound sha256 (rows ++ [row]) journal call := by
  have hcontent : ∀ artifactId hash n, hasContent rows artifactId hash n →
      hasContent (rows ++ [row]) artifactId hash n := by
    rintro artifactId hash n ⟨r, hr, hcontent⟩
    exact ⟨r, List.mem_append_left _ hr, hcontent⟩
  unfold CallSound at h ⊢
  split at h
  · trivial
  · exact h.append hrow hnew
  · exact hcontent _ _ _ h
  · exact ⟨hcontent _ _ _ h.1, h.2⟩

theorem CallSound.commit {rows : List ReportArtifact} {journal : List ModelCommit}
    {call : PublishCall} (h : CallSound sha256 rows journal call) (c : ModelCommit) :
    CallSound sha256 rows (journal ++ [c]) call := by
  unfold CallSound at h ⊢
  split at h
  · trivial
  · exact h
  · exact h
  · refine ⟨h.1, ?_⟩
    have hwork := h.2
    unfold WorkSound at hwork ⊢
    split
    · exact List.mem_append_left _ hwork
    · trivial

/-! ### What one statement reads and stores -/

theorem mem_priorRevisions {artifactId : Text} {t : Table artifactSchema} {r : ReportArtifact} :
    r ∈ priorRevisions artifactId t ↔ r ∈ t.rows ∧ r.artifactId = artifactId := by
  simp [priorRevisions, List.mem_insertionSort]

/-- The last revision of a `SELECT` is the greatest. -/
theorem revision_le_last {artifactId : Text} {t : Table artifactSchema} {last : ReportArtifact}
    (hlast : (priorRevisions artifactId t).getLast? = some last) {r : ReportArtifact}
    (hr : r ∈ priorRevisions artifactId t) : r.revision ≤ last.revision := by
  let order (r r' : ReportArtifact) : Prop := r.revision ≤ r'.revision
  have : Std.Total order := ⟨fun r r' => Nat.le_total r.revision r'.revision⟩
  have : IsTrans ReportArtifact order := ⟨fun _ _ _ h h' => Nat.le_trans h h'⟩
  have : Std.Refl order := ⟨fun r => Nat.le_refl r.revision⟩
  have hsorted : (priorRevisions artifactId t).Pairwise order := List.pairwise_insertionSort order _
  have hrel := hsorted.rel_getLast hr
  rw [List.getLast?_eq_some_getLast (List.ne_nil_of_mem hr), Option.some.injEq] at hlast
  rw [hlast] at hrel
  exact hrel

/-- What is read chooses the revision of the content, or the next one. -/
theorem callSound_assignRevision {t : Table artifactSchema} {call : PublishCall} {k : Nat}
    {journal : List ModelCommit}
    (hk : ∀ n, hasRevision t.rows call.artifactId n ↔ 1 ≤ n ∧ n ≤ k) :
    CallSound sha256 t.rows journal { call with
      stage := assignRevision (contentHash sha256 call.args.artifact)
        (priorRevisions call.artifactId t) } := by
  unfold assignRevision
  split
  · rename_i existing hfind
    obtain ⟨hmem, hid⟩ := mem_priorRevisions.mp (List.mem_of_find?_eq_some hfind)
    exact ⟨existing, hmem, hid, rfl, by simpa using List.find?_some hfind⟩
  · rename_i hnone
    refine ⟨Nat.le_add_left 1 _, ?_, ?_⟩
    · intro j hj hlt
      cases hlast : (priorRevisions call.artifactId t).getLast? with
      | none =>
          simp only [hlast, Option.map_none, Option.getD_none] at hlt
          omega
      | some last =>
          simp only [hlast, Option.map_some, Option.getD_some] at hlt
          have hmem := mem_priorRevisions.mp (List.mem_of_getLast? hlast)
          have hle := ((hk last.revision).mp ⟨last, hmem.1, hmem.2, rfl⟩).2
          exact (hk j).mpr ⟨hj, by omega⟩
    · intro r hr hid _
      simpa using List.find?_eq_none.mp hnone r (mem_priorRevisions.mpr ⟨hr, hid⟩)

/-- Where the primary key admits a revision that was chosen, it is the next one. -/
theorem NextRevision.eq_succ {rows : List ReportArtifact} {artifactId hash : Text} {n k : Nat}
    (h : NextRevision rows artifactId hash n) (hnew : ¬ hasRevision rows artifactId n)
    (hk : ∀ n, hasRevision rows artifactId n ↔ 1 ≤ n ∧ n ≤ k) : n = k + 1 := by
  have hgt : ¬ (1 ≤ n ∧ n ≤ k) := fun hle => hnew ((hk n).mpr hle)
  have hpos := h.pos
  by_cases h1 : n = 1
  · omega
  · have := (hk (n - 1)).mp (h.below (n - 1) (by omega) (by omega))
    omega

namespace PublishWorld

variable {w w' : PublishWorld}

/-! ### The invariant -/

structure Sound (sha256 : List UInt8 → Text) (w : PublishWorld) : Prop where
  consecutive : ∀ artifactId, ∃ k, ∀ n,
    hasRevision w.artifacts.rows artifactId n ↔ 1 ≤ n ∧ n ≤ k
  distinct : ∀ r ∈ w.artifacts.rows, ∀ r' ∈ w.artifacts.rows, r.artifactId = r'.artifactId →
    r.contentHash = r'.contentHash → r = r'
  calls : ∀ session call, w.calls session = some call →
    CallSound sha256 w.artifacts.rows w.journal call
  delivered : ∀ artifactId target d, Dict.get? w.deliveries (artifactId, target) = some d →
    .delivered artifactId target d.revision ∈ w.journal
  attested : ∀ a ∈ w.attestations, ∃ before after,
    w.journal = before ++ .attested a.1.1 a.1.2.1 a.1.2.2 :: after ∧
      .delivered a.1.1 a.1.2.1 a.1.2.2 ∈ before

theorem sound_start : (start).Sound sha256 where
  consecutive _ := ⟨0, fun n => ⟨fun ⟨_, hr, _⟩ => (nomatch hr), fun h => absurd (h.1.trans h.2) (by omega)⟩⟩
  distinct := List.forall_mem_nil _
  calls _ _ h := nomatch h
  delivered _ _ _ h := nomatch h
  attested := List.forall_mem_nil _

theorem Sound.assigned (h : w.Sound sha256) : w.Assigned sha256 where
  consecutive := h.consecutive
  byContent r hr r' hr' hid := by
    constructor
    · intro hrevision
      rw [w.artifacts.eq_of_key hr hr' (Prod.ext hid hrevision)]
    · intro hhash
      rw [h.distinct r hr r' hr' hid hhash]
  numbered session call revision hcall hstage := by
    have hsound := h.calls session call hcall
    unfold CallSound at hsound
    cases hcase : call.stage with
    | accepted => rw [hcase] at hstage; cases hstage
    | chosen n => rw [hcase] at hstage; cases hstage
    | numbered n =>
        rw [hcase] at hstage hsound
        obtain rfl := Option.some.inj hstage
        exact hsound
    | awaiting n work =>
        rw [hcase] at hstage hsound
        obtain rfl := Option.some.inj hstage
        exact hsound.1
  attested := h.attested

/-- A statement that writes no table moves one call on. -/
theorem Sound.withCall (h : w.Sound sha256) {session : Nat} {call? : Option PublishCall}
    (hcall : ∀ call ∈ call?, CallSound sha256 w.artifacts.rows w.journal call) :
    ({ w with calls := Function.update w.calls session call? }).Sound sha256 where
  consecutive := h.consecutive
  distinct := h.distinct
  calls session' call h' := by
    change Function.update w.calls session call? session' = some call at h'
    by_cases heq : session' = session
    · subst heq
      rw [Function.update_self] at h'
      exact hcall call h'
    · rw [Function.update_of_ne heq] at h'
      exact h.calls session' call h'
  delivered := h.delivered
  attested := h.attested

theorem Sound.finish (h : w.Sound sha256) (session : Nat) : (w.finish session).Sound sha256 :=
  h.withCall fun _ hcall => nomatch hcall

theorem Sound.atStage (h : w.Sound sha256) {session : Nat} {call : PublishCall}
    {stage : PublishStage}
    (hcall : CallSound sha256 w.artifacts.rows w.journal { call with stage }) :
    (w.atStage session call stage).Sound sha256 := by
  refine h.withCall fun call' hcall' => ?_
  obtain rfl := Option.some.inj hcall'
  exact hcall

theorem not_hasRevision_of_insert {t t' : Table artifactSchema} {row : ReportArtifact}
    (h : t.insert row = some t') : ¬ hasRevision t.rows row.artifactId row.revision := by
  rintro ⟨r, hr, hid, hrevision⟩
  have hnodup := t'.nodup
  rw [Table.insert_eq_some.mp h, List.map_append, List.nodup_append] at hnodup
  exact hnodup.2.2 _ (List.mem_map_of_mem hr) _ (List.mem_map_of_mem List.mem_cons_self)
    (Prod.ext hid hrevision)

/-- **The `INSERT`** of a chosen revision, where the primary key admits it. -/
theorem Sound.insert (h : w.Sound sha256) {session : Nat} {call : PublishCall} {n : Nat}
    {artifacts : Table artifactSchema} (hcall : w.calls session = some call)
    (hstage : call.stage = .chosen n)
    (hinsert : w.artifacts.insert (newRevision sha256 call n) = some artifacts) :
    ({ w.atStage session call (.numbered n) with artifacts }).Sound sha256 ∧
      w.Mints { w.atStage session call (.numbered n) with artifacts } := by
  have hnext : NextRevision w.artifacts.rows call.artifactId
      (contentHash sha256 call.args.artifact) n := by
    have := h.calls session call hcall
    rwa [CallSound, hstage] at this
  have hrows := Table.insert_eq_some.mp hinsert
  have hnew := not_hasRevision_of_insert hinsert
  obtain ⟨k, hk⟩ := h.consecutive call.artifactId
  have hn : n = k + 1 := hnext.eq_succ hnew hk
  have hfresh : ∀ r ∈ w.artifacts.rows, r.artifactId = call.artifactId →
      r.contentHash ≠ contentHash sha256 call.args.artifact := by
    intro r hr hid
    have := (hk r.revision).mp ⟨r, hr, hid, rfl⟩
    exact hnext.fresh r hr hid (by omega)
  refine ⟨⟨?_, ?_, ?_, h.delivered, h.attested⟩, .inr ⟨_, hrows, hfresh⟩⟩
  · intro artifactId
    by_cases hid : artifactId = call.artifactId
    · subst hid
      refine ⟨k + 1, fun j => ?_⟩
      rw [hrows, hasRevision_append, hk]
      constructor
      · rintro (hold | ⟨-, hj⟩)
        · omega
        · change n = j at hj
          omega
      · intro hj
        by_cases hle : j ≤ k
        · exact .inl ⟨hj.1, hle⟩
        · exact .inr ⟨rfl, show n = j by omega⟩
    · obtain ⟨k', hk'⟩ := h.consecutive artifactId
      refine ⟨k', fun j => ?_⟩
      rw [hrows, hasRevision_append, hk', or_iff_left]
      rintro ⟨rfl, -⟩
      exact hid rfl
  · intro r hr r' hr' hid hhash
    change r ∈ artifacts.rows at hr
    change r' ∈ artifacts.rows at hr'
    rw [hrows, List.mem_append, List.mem_singleton] at hr hr'
    rcases hr with hr | rfl <;> rcases hr' with hr' | rfl
    · exact h.distinct r hr r' hr' hid hhash
    · exact absurd hhash (hfresh r hr hid)
    · exact absurd hhash.symm (hfresh r' hr' hid.symm)
    · rfl
  · intro session' call' hcall'
    change Function.update w.calls session (some { call with stage := .numbered n }) session' =
      some call' at hcall'
    change CallSound sha256 artifacts.rows w.journal call'
    rw [hrows]
    by_cases heq : session' = session
    · subst heq
      rw [Function.update_self, Option.some.injEq] at hcall'
      subst hcall'
      exact ⟨newRevision sha256 call n, by simp, rfl, rfl, rfl⟩
    · rw [Function.update_of_ne heq] at hcall'
      exact (h.calls session' call' hcall').append hnext.pos hnew

theorem Sound.deliver (h : w.Sound sha256) (artifactId target : Text) (d : ModelDelivery) :
    ({ w with
      deliveries := Dict.set w.deliveries (artifactId, target) d
      journal := w.journal ++ [ModelCommit.delivered artifactId target d.revision] }).Sound
        sha256 where
  consecutive := h.consecutive
  distinct := h.distinct
  calls session call hcall := (h.calls session call hcall).commit _
  delivered artifactId' target' d' hget := by
    rw [Dict.get?_set] at hget
    by_cases heq : (artifactId, target) = (artifactId', target')
    · rw [if_pos heq, Option.some.injEq] at hget
      obtain ⟨rfl, rfl⟩ := Prod.mk.inj heq
      rw [← hget]
      exact List.mem_append_right _ List.mem_cons_self
    · rw [if_neg heq] at hget
      exact List.mem_append_left _ (h.delivered artifactId' target' d' hget)
  attested a ha := by
    obtain ⟨before, after, hjournal, hmem⟩ := h.attested a ha
    refine ⟨before, after ++ [.delivered artifactId target d.revision], ?_, hmem⟩
    rw [hjournal, List.append_assoc, List.cons_append]

/-- What is attested has been delivered by then. -/
theorem Sound.attest (h : w.Sound sha256) {artifactId target : Text} {n : Nat}
    (hdelivered : .delivered artifactId target n ∈ w.journal) (a : ReportAttestation) :
    ({ w with
      attestations := Dict.set w.attestations (artifactId, target, n) a
      journal := w.journal ++ [ModelCommit.attested artifactId target n] }).Sound sha256 where
  consecutive := h.consecutive
  distinct := h.distinct
  calls session call hcall := (h.calls session call hcall).commit _
  delivered artifactId' target' d hget :=
    List.mem_append_left _ (h.delivered artifactId' target' d hget)
  attested a' ha' := by
    rcases Dict.mem_set ha' with hold | rfl
    · obtain ⟨before, after, hjournal, hmem⟩ := h.attested a' hold
      refine ⟨before, after ++ [.attested artifactId target n], ?_, hmem⟩
      rw [hjournal, List.append_assoc, List.cons_append]
    · exact ⟨w.journal, [], rfl, hdelivered⟩

theorem Sound.publish (h : w.Sound sha256) (key : Text × Text) (r : PublishedResult) :
    ({ w with results := Dict.set w.results key r }).Sound sha256 :=
  ⟨h.consecutive, h.distinct, h.calls, h.delivered, h.attested⟩

theorem Sound.prepare (h : w.Sound sha256) {session : Nat} {call : PublishCall} {n : Nat}
    (hcall : w.calls session = some call) (hstage : call.stage = .numbered n)
    (executed : Option Json) : (w.prepare sha256 session call n executed).Sound sha256 := by
  have hcontent : hasContent w.artifacts.rows call.artifactId
      (contentHash sha256 call.args.artifact) n := by
    have := h.calls session call hcall
    rwa [CallSound, hstage] at this
  unfold PublishWorld.prepare
  split
  · split
    · exact h.finish session
    · exact h.atStage ⟨hcontent, trivial⟩
  · split
    · exact h.finish session
    · exact h.atStage ⟨hcontent, trivial⟩
  · split
    · rename_i delivery _ hget
      split
      · rename_i hrevision
        exact h.atStage ⟨hcontent, hrevision ▸ h.delivered _ _ delivery hget⟩
      · exact h.finish session
    · exact h.finish session

theorem Sound.record (h : w.Sound sha256) {session : Nat} {call : PublishCall} {n : Nat}
    {work : ModeWork} (hcall : w.calls session = some call) (hstage : call.stage = .awaiting n work)
    (job : JobResult) : (w.record sha256 call n job work).Sound sha256 := by
  unfold PublishWorld.record
  split
  · exact h.publish _ _
  · split
    · exact h
    · exact h.deliver call.artifactId call.args.target _
  · have hwork := h.calls session call hcall
    rw [CallSound, hstage] at hwork
    exact h.attest hwork.2 _

theorem artifacts_prepare (w : PublishWorld) (session : Nat) (call : PublishCall) (n : Nat)
    (executed : Option Json) : (w.prepare sha256 session call n executed).artifacts = w.artifacts := by
  unfold PublishWorld.prepare
  split
  · split <;> rfl
  · split <;> rfl
  · split
    · split <;> rfl
    · rfl

theorem artifacts_record (w : PublishWorld) (call : PublishCall) (n : Nat) (job : JobResult)
    (work : ModeWork) : (w.record sha256 call n job work).artifacts = w.artifacts := by
  unfold PublishWorld.record
  split
  · rfl
  · split <;> rfl
  · rfl

/-- **One statement** of one call. -/
theorem Sound.step? (h : w.Sound sha256) {e : PublishEvent} (hstep : w.step? sha256 e = some w') :
    w'.Sound sha256 ∧ w.Mints w' := by
  cases e with
  | accept session args apiClass =>
      simp only [PublishWorld.step?] at hstep
      split at hstep
      · rename_i call _ hcall
        obtain rfl := Option.some.inj hstep
        refine ⟨h.withCall fun call' hcall' => ?_, .inl rfl⟩
        obtain rfl := Option.some.inj hcall'
        obtain ⟨artifactId, _, mode, _, rfl⟩ : ∃ artifactId,
            (member args.artifact "id").bind Json.asString = some artifactId ∧ ∃ mode,
              args.publishMode apiClass = some mode ∧ ⟨artifactId, args, mode, .accepted⟩ = call := by
          simpa [PublishArgs.call, Option.bind_eq_some_iff] using hcall
        trivial
      · cases hstep
  | selectRevisions session =>
      simp only [PublishWorld.step?] at hstep
      split at hstep
      · rename_i artifactId args mode hcall
        obtain rfl := Option.some.inj hstep
        obtain ⟨k, hk⟩ := h.consecutive artifactId
        exact ⟨h.atStage (callSound_assignRevision hk), .inl rfl⟩
      · cases hstep
  | insertRevision session =>
      simp only [PublishWorld.step?] at hstep
      split at hstep
      · rename_i artifactId args mode n hcall
        split at hstep
        · obtain rfl := Option.some.inj hstep
          exact ⟨h.finish session, .inl rfl⟩
        · rename_i artifacts hinsert
          obtain rfl := Option.some.inj hstep
          exact h.insert hcall rfl hinsert
      · cases hstep
  | prepare session executed =>
      simp only [PublishWorld.step?] at hstep
      split at hstep
      · rename_i artifactId args mode n hcall
        obtain rfl := Option.some.inj hstep
        refine ⟨h.prepare hcall rfl executed, .inl ?_⟩
        rw [artifacts_prepare]
      · cases hstep
  | record session job =>
      simp only [PublishWorld.step?] at hstep
      split at hstep
      · rename_i artifactId args mode n work hcall
        obtain rfl := Option.some.inj hstep
        refine ⟨(h.record hcall rfl job).finish session, .inl ?_⟩
        rw [PublishWorld.finish, artifacts_record]
      · cases hstep
  | abandon session =>
      simp only [PublishWorld.step?] at hstep
      split at hstep
      · obtain rfl := Option.some.inj hstep
        exact ⟨h.finish session, .inl rfl⟩
      · cases hstep

/-- **Revision assignment** in every run: the revisions of an artifact are those of its contents, and
no statement mints one for content that has one. -/
theorem assigned_and_mints (h : (publishMachine sha256).Reachable w) :
    w.Assigned sha256 ∧ ∀ e w', w.step? sha256 e = some w' → w.Mints w' := by
  have hsound : w.Sound sha256 :=
    h.invariant_ofStep sound_start fun _ _ _ hstep hsound => (hsound.step? hstep).1
  exact ⟨hsound.assigned, fun _ _ hstep => (hsound.step? hstep).2⟩

end PublishWorld

/-! ### A run of it -/

def salesReport (pages : List Json) : List (Text × Json) :=
  [(js "id", .str (js "sales")), (js "layout", .obj [(js "pages", .arr pages)])]

def delivering (pages : List Json) : PublishArgs where
  artifact := salesReport pages
  target := js "fabric"
  mode := some (js "deliver_model")
  attestation := []
  subject := js "ada"

def attesting (pages : List Json) : PublishArgs := { delivering pages with
  mode := some (js "attest")
  attestation := [(js "report_id", .str (js "r1")),
    (js "definition_hash", .str (js "sha256:" ++ List.replicate 64 48))] }

def deliveredJob : JobResult := ⟨.null, some (js "workspace", js "dataset", .arr [])⟩

/-- Two callers deliver one report at once, one of them attests it, and the other delivers it with
another page. -/
def deliveredAtOnce : List PublishEvent :=
  [.accept 0 (delivering []) true, .accept 1 (delivering []) true, .selectRevisions 0,
    .selectRevisions 1, .insertRevision 1, .insertRevision 0, .prepare 1 (some .null),
    .record 1 deliveredJob, .accept 0 (attesting []) true, .selectRevisions 0, .prepare 0 none,
    .record 0 deliveredJob, .accept 1 (delivering [.null]) true, .selectRevisions 1,
    .insertRevision 1, .prepare 1 (some .null), .record 1 deliveredJob]

/-- Bytes for their digest. -/
def bytesHash (bytes : List UInt8) : Text := bytes.map UInt8.toUInt16

theorem assigned_and_mints_deliveredAtOnce :
    let w := (publishMachine bytesHash).run deliveredAtOnce
    (w.artifacts.rows.map ReportArtifact.revision = [1, 2] ∧
        w.attestations.map Prod.fst = [(js "sales", js "fabric", 1)]) ∧
      w.Assigned bytesHash ∧ ∀ e w', w.step? bytesHash e = some w' → w.Mints w' :=
  ⟨by decide, PublishWorld.assigned_and_mints (Machine.reachable_run _ _)⟩

end ContextLayer
