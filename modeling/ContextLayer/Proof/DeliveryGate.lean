import ContextLayer.DeliveryGate
import ContextLayer.Proof.Acceptance

/-!
# Where the gate has no verdict

Each object of a registered kind is hashed whatever was found before it, and the document is printed where nothing was
found. Both need the bytes of what they print, and the schema says nothing about these.
-/

namespace ContextLayer

open Text PyJson StableSort

variable {sha256 : List UInt8 → PyStr} {isDateTime : PyStr → Bool}

/-! ### The hashes -/

theorem schemaHash_isSome (sha256 : List UInt8 → PyStr) {o : SourceObject} {spec : KindSpec} (h : o.kindSpec = some spec) :
    (schemaHash sha256 o).isSome = (o.structural spec).isEncodable := by
  rw [schemaHash, h, Option.bind_eq_bind, Option.bind_some, structuralProjection, Option.bind_eq_bind,
    Option.isSome_bind]
  have hbytes := canonicalBytes_isSome ((orderedObject o).structural spec)
  rw [(SourceObject.reordered_orderedObject o).isEncodable_structural] at hbytes
  rw [← hbytes]
  cases ((orderedObject o).structural spec).canonicalBytes <;> rfl

/-- An object is passed where its hash can be computed, whatever the state. -/
theorem validateObject_isSome (sha256 : List UInt8 → PyStr) (st : ValidationState) (o : SourceObject) :
    (validateObject sha256 true st o).isSome = true ↔ ∀ spec ∈ o.kindSpec, (o.structural spec).isEncodable = true := by
  rw [validateObject]
  cases hkind : o.kindSpec with
  | none => simp
  | some spec =>
      simp only [Option.isNone_some, Bool.false_eq_true, if_false, if_true, Option.mem_some_iff, forall_eq']
      rw [← schemaHash_isSome sha256 hkind]
      cases schemaHash sha256 o with
      | none => simp
      | some hash =>
          rw [Option.bind_eq_bind, Option.bind_some]
          split <;> simp

theorem foldlM_validateObject_isSome (sha256 : List UInt8 → PyStr) (objects : List SourceObject) (st : ValidationState) :
    (objects.foldlM (validateObject sha256 true) st).isSome = true ↔
      ∀ o ∈ objects, ∀ spec ∈ o.kindSpec, (o.structural spec).isEncodable = true := by
  induction objects generalizing st with
  | nil => exact iff_of_true rfl fun _ ho => nomatch ho
  | cons o rest ih =>
      rw [List.forall_mem_cons, List.foldlM_cons, ← validateObject_isSome sha256 st o]
      cases validateObject sha256 true st o with
      | none => simp
      | some st' =>
          rw [Option.bind_eq_bind, Option.bind_some, ih st']
          simp

/-! ### The bytes -/

theorem isEncodable_document (s : Snapshot) : (ordered s).document.isEncodable = s.document.isEncodable := by
  have hdocument : ∀ s : Snapshot, s.document.isEncodable = true ↔
      s.body.isEncodable = true ∧ (PyJson.obj s.envelope).isEncodable = true := by
    intro s
    rw [Snapshot.document, Snapshot.body]
    dsimp only
    rw [isEncodable_obj, isEncodable_obj, isEncodable_obj, List.forall_mem_append]
  rw [Bool.eq_iff_iff, hdocument, hdocument, (Snapshot.reordered_ordered s).isEncodable_body]
  rfl

theorem isEncodable_body_of_document {s : Snapshot} (h : s.document.isEncodable = true) : s.body.isEncodable = true := by
  rw [Snapshot.document, Snapshot.body] at h
  dsimp only at h
  rw [isEncodable_obj, List.forall_mem_append] at h
  rw [Snapshot.body, isEncodable_obj]
  exact h.1

theorem canonicalDocumentBytes_isSome (s : Snapshot) :
    (canonicalDocumentBytes s).isSome = s.document.isEncodable := by
  rw [canonicalDocumentBytes, Option.isSome_map, canonicalBytes_isSome, isEncodable_document]

theorem canonicalBodyBytes_isSome (s : Snapshot) : (canonicalBodyBytes s).isSome = s.body.isEncodable := by
  rw [canonicalBodyBytes, canonicalBytes_isSome, (Snapshot.reordered_ordered s).isEncodable_body]

/-! ### The verdict -/

/-- A document without errors is accepted where it has bytes. -/
theorem acceptSnapshot_isSome (s : Snapshot) : (acceptSnapshot sha256 s).isSome = true ↔ s.IsPrintable sha256 := by
  have hvalidate := foldlM_validateObject_isSome sha256 s.objects ⟨[], [], []⟩
  change (validateSnapshot sha256 true s).isSome = true ↔ _ at hvalidate
  have hsound : (s.objects.map SourceObject.identity).Nodup ∧
      (∀ o ∈ s.objects, o.kindSpec.isSome → schemaHash sha256 o = some o.schemaHash) ↔
        ∃ st, validateSnapshot sha256 true s = some st ∧ st.errors = [] := by
    constructor
    · rintro ⟨hnodup, hhash⟩
      obtain ⟨st, hst, herrors, -⟩ := validateSnapshot_iff.mpr ⟨hnodup, hhash, rfl⟩
      exact ⟨st, hst, herrors⟩
    · rintro ⟨st, hst, herrors⟩
      obtain ⟨hnodup, hhash, -⟩ := validateSnapshot_iff.mp ⟨st, hst, herrors, rfl⟩
      exact ⟨hnodup, hhash⟩
  have hprintable : s.IsPrintable sha256 ↔ (validateSnapshot sha256 true s).isSome = true ∧
      ((∃ st, validateSnapshot sha256 true s = some st ∧ st.errors = []) → s.document.isEncodable = true) := by
    rw [hvalidate, ← hsound, and_imp]
    exact ⟨fun h => ⟨h.hashed, h.stored⟩, fun h => ⟨h.1, h.2⟩⟩
  rw [hprintable, acceptSnapshot]
  cases validateSnapshot sha256 true s with
  | none => simp
  | some st =>
      by_cases herrors : st.errors = []
      · have hbytes := canonicalDocumentBytes_isSome s
        cases hdocument : canonicalDocumentBytes s with
        | none =>
            rw [hdocument] at hbytes
            simp [herrors, ← hbytes]
        | some bytes =>
            rw [hdocument] at hbytes
            have hbody := (canonicalBodyBytes_isSome s).trans (isEncodable_body_of_document hbytes.symm)
            obtain ⟨body, hbody⟩ := Option.isSome_iff_exists.mp hbody
            simp [herrors, ← hbytes, hbody]
      · simp [herrors]

theorem acceptSnapshot_isReasoned {s : Snapshot} {v : AcceptVerdict} (h : acceptSnapshot sha256 s = some v) :
    v.IsReasoned := by
  obtain ⟨st, -, h⟩ := Option.bind_eq_some_iff.mp h
  split at h
  case isTrue herrors =>
    cases h
    exact herrors
  case isFalse =>
    obtain ⟨serialized, -, h⟩ := Option.bind_eq_some_iff.mp h
    obtain ⟨body, -, h⟩ := Option.bind_eq_some_iff.mp h
    cases h
    trivial

theorem accept_isSome (document : PyJson) :
    (accept sha256 isDateTime document).isSome = true ↔ IsPresentable sha256 isDateTime document := by
  cases document with
  | obj members =>
      rw [accept, IsPresentable]
      cases hread : readSnapshot isDateTime (.obj members) with
      | none =>
          refine iff_of_true rfl fun _ _ s hs => ?_
          cases hs
      | some s =>
          dsimp only
          rw [acceptSnapshot_isSome]
          constructor
          · rintro h _ - s' hs'
            exact Option.mem_some_iff.mp hs' ▸ h
          · intro h
            exact h members rfl s rfl
  | null | bool | number | nonFinite | str | arr =>
      refine iff_of_true rfl fun _ heq => ?_
      cases heq

theorem accept_isReasoned {document : PyJson} {v : AcceptVerdict} (h : accept sha256 isDateTime document = some v) :
    v.IsReasoned := by
  cases document with
  | obj members =>
      rw [accept] at h
      split at h
      case h_1 =>
        cases h
        trivial
      case h_2 => exact acceptSnapshot_isReasoned h
  | null | bool | number | nonFinite | str | arr =>
      cases h
      trivial

/-- A job is settled where there is a verdict. -/
theorem completeSnapshot_eq_gateUnavailable {document body : PyJson} (h : body.field "result" = some document)
    (system : PyStr) : completeSnapshot sha256 isDateTime system body = .gateUnavailable ↔
      accept sha256 isDateTime document = none := by
  rw [completeSnapshot, acceptMain, h]
  dsimp only
  cases accept sha256 isDateTime document with
  | none => exact iff_of_true rfl rfl
  | some v =>
      refine iff_of_false ?_ (by simp)
      cases v with
      | valid verdict serialized =>
          dsimp only [Option.map_some]
          split <;> simp
      | notAnObject | schemaErrors | invalid => simp

/-- **The gate answers exactly** where what it has to print has bytes. -/
theorem isAnswered_iff (document : PyJson) :
    IsAnswered sha256 isDateTime document ↔ IsPresentable sha256 isDateTime document := by
  rw [← accept_isSome, Option.isSome_iff_exists]
  constructor
  · rintro ⟨⟨v, hv, -⟩, -⟩
    exact ⟨v, hv⟩
  · rintro ⟨v, hv⟩
    refine ⟨⟨v, hv, accept_isReasoned hv⟩, fun system body hbody hnone => ?_⟩
    rw [completeSnapshot_eq_gateUnavailable hbody, hv] at hnone
    cases hnone

/-! ### Two deliveries -/

/-- A delivered document with these source properties. -/
def deliveredText (properties : String) : PyStr :=
  py "\x7b\"snapshot_version\": \"1\", \"system\": \"crm\", \"system_class\": \"api\", \"source_mode\": \"api\", " ++
    py "\"captured_at\": \"2026-01-01T00:00:00Z\", \"connector\": \x7b\"name\": \"crm\", \"version\": \"1\"\x7d, " ++
    py "\"objects\": [], \"source_properties\": " ++ py properties ++ py "\x7d"

theorem exists_not_isAnswered {text : PyStr} (h : ((loads (fun _ => none) text).any fun document =>
    (accept sha256 isDateTime document).isNone) = true) :
    ∃ document, loads (fun _ => none) text = some document ∧ ¬ IsAnswered sha256 isDateTime document := by
  obtain ⟨document, hread, hnone⟩ := (Option.any_eq_true _ _).mp h
  refine ⟨document, hread, fun hanswered => ?_⟩
  obtain ⟨v, hv, -⟩ := hanswered.verdict
  rw [hv] at hnone
  cases hnone

/-- A quota that is no number, and a note that ends within a character, are read and not answered. -/
theorem not_isAnswered :
    (∃ document, loads (fun _ => none) (deliveredText "\x7b\"quota\": NaN\x7d") = some document ∧
      ¬ IsAnswered (fun _ => []) (fun _ => true) document) ∧
    ∃ document, loads (fun _ => none) (deliveredText "\x7b\"note\": \"\\ud83d\"\x7d") = some document ∧
      ¬ IsAnswered (fun _ => []) (fun _ => true) document := by
  constructor
  all_goals
    refine exists_not_isAnswered ?_
    rw [deliveredText]
    iterate 5 rw [py_ofList]
    decide +kernel

example : (deliveredText "\x7b\x7d").head? = some (.unit 0x7B) := by decide +kernel

end ContextLayer
