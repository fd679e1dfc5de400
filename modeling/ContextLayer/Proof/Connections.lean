import ContextLayer.Connections
import ContextLayer.Proof.CanonicalJson

/-!
# What a stored connection holds

The scan goes through objects and stops at arrays, and it looks at the configuration only. So what is stored is
harmless exactly when what is not scanned is.
-/

namespace ContextLayer.Connections

open Text Partition

/-! ### Depth -/

theorem harmless_str {s : Text} : Harmless (.str s) ↔ ¬ isSecretText s := by
  constructor
  · exact fun h => h.texts s .here
  · intro h
    constructor
    · intro members hw
      cases hw
    · intro t ht
      cases ht
      exact h

theorem harmless_of_scalar {v : Json} (h : ∀ w, Within w v → w = v) (hobj : ∀ members, v ≠ .obj members)
    (hstr : ∀ s, v ≠ .str s) : Harmless v where
  keys members hw := absurd (h _ hw).symm (hobj members)
  texts s hw := absurd (h _ hw).symm (hstr s)

theorem harmless_null : Harmless .null := harmless_of_scalar (fun w hw => by cases hw; rfl) nofun nofun

theorem harmless_bool (b : Bool) : Harmless (.bool b) :=
  harmless_of_scalar (fun w hw => by cases hw; rfl) nofun nofun

theorem harmless_num (n : JsNumber) : Harmless (.num n) :=
  harmless_of_scalar (fun w hw => by cases hw; rfl) nofun nofun

theorem harmless_arr {items : List Json} : Harmless (.arr items) ↔ ∀ v ∈ items, Harmless v := by
  constructor
  · intro h v hv
    exact ⟨fun members hw => h.keys members (.item hv hw), fun s hw => h.texts s (.item hv hw)⟩
  · intro h
    constructor
    · intro members hw
      cases hw with
      | item hv hw => exact (h _ hv).keys members hw
    · intro s hw
      cases hw with
      | item hv hw => exact (h _ hv).texts s hw

theorem harmless_obj {members : List (Text × Json)} :
    Harmless (.obj members) ↔ ∀ m ∈ members, ¬ isSecretKey m.1 ∧ Harmless m.2 := by
  constructor
  · intro h m hm
    exact ⟨h.keys members .here m hm, fun inner hw => h.keys inner (.member hm hw),
      fun s hw => h.texts s (.member hm hw)⟩
  · intro h
    constructor
    · intro inner hw
      cases hw with
      | here => exact fun m hm => (h m hm).1
      | member hm hw => exact (h _ hm).2.keys inner hw
    · intro s hw
      cases hw with
      | member hm hw => exact (h _ hm).2.texts s hw

/-! ### The scan -/

theorem scanConfig_eq_flatMap (path : Text) (members : List (Text × Json)) :
    scanConfig path members = members.flatMap fun m =>
      match alternative m.1 with
      | some instead => [path ++ js "." ++ m.1 ++ js " carries credential material inline; use " ++ instead ++
          js " instead"]
      | none => scanValue (path ++ js "." ++ m.1) m.2 := by
  induction members with
  | nil => rfl
  | cons m rest ih =>
      rw [List.flatMap_cons, ← ih]
      exact scanConfig.eq_2 path m.1 m.2 rest

theorem arraysOfMembers_eq_flatMap (members : List (Text × Json)) :
    arraysOfMembers members = members.flatMap fun m => arraysOf m.2 := by
  induction members with
  | nil => rfl
  | cons m rest ih => rw [arraysOfMembers, List.flatMap_cons, ih]

/-- A key with nothing instead is no secret key. -/
theorem not_isSecretKey {key : Text} (h : alternative key = none) : ¬ isSecretKey key := by
  intro hmem
  obtain ⟨entry, hentry, rfl⟩ := List.mem_map.mp hmem
  have hsome := Dict.isSome_get?_iff.mpr ⟨entry, List.mem_append_left inherited hentry, rfl⟩
  rw [show Dict.get? (INLINE_SECRET_KEYS ++ inherited) entry.1 = none from h] at hsome
  cases hsome

/-- **What passes the scan** is harmless exactly when its arrays are. -/
theorem harmless_of_scan {v : Json} {here : Text} (h : scanValue here v = []) :
    Harmless v ↔ ∀ a ∈ arraysOf v, Harmless a := by
  induction v using Json.induction generalizing here with
  | null => exact iff_of_true harmless_null nofun
  | bool b => exact iff_of_true (harmless_bool b) nofun
  | num n => exact iff_of_true (harmless_num n) nofun
  | str s =>
      refine iff_of_true (harmless_str.mpr ?_) nofun
      rintro ⟨shape, hshape, hs⟩
      rw [scanValue] at h
      have hnone : SECRET_SHAPES.find? (fun shape => shape.2 s) = none := by
        cases hfind : SECRET_SHAPES.find? fun shape => shape.2 s with
        | none => rfl
        | some found =>
            rw [hfind] at h
            cases h
      exact List.find?_eq_none.mp hnone shape hshape hs
  | arr items ih =>
      rw [arraysOf]
      exact ⟨fun h a ha => List.mem_singleton.mp ha ▸ h, fun h => h _ (List.mem_singleton.mpr rfl)⟩
  | obj members ih =>
      rw [scanValue, scanConfig_eq_flatMap, List.flatMap_eq_nil_iff] at h
      have hentry : ∀ m ∈ members, alternative m.1 = none ∧ scanValue (here ++ js "." ++ m.1) m.2 = [] := by
        intro m hm
        have hm := h m hm
        cases halternative : alternative m.1 with
        | some instead =>
            rw [halternative] at hm
            cases hm
        | none =>
            rw [halternative] at hm
            exact ⟨rfl, hm⟩
      rw [harmless_obj, arraysOf, arraysOfMembers_eq_flatMap]
      constructor
      · intro hall a ha
        obtain ⟨m, hm, ha⟩ := List.mem_flatMap.mp ha
        exact (ih m hm (hentry m hm).2).mp (hall m hm).2 a ha
      · intro hall m hm
        refine ⟨not_isSecretKey (hentry m hm).1, (ih m hm (hentry m hm).2).mpr fun a ha => ?_⟩
        exact hall a (List.mem_flatMap.mpr ⟨m, hm, ha⟩)

/-! ### Texts that cannot be material -/

/-- What has the form of a secret has an `@`, a blank or a quote in it. -/
theorem exists_of_isSecretText {s : Text} (h : isSecretText s) : ∃ u ∈ s, u = 0x40 ∨ u = 0x20 ∨ u = 0x22 := by
  have hblank : (0x20 : UInt16) ∈ js "-----BEGIN " := by decide
  have hquote : (0x22 : UInt16) ∈ js "\"private_key\"" := by decide
  obtain ⟨shape, hshape, hs⟩ := h
  simp only [SECRET_SHAPES, List.mem_cons, List.not_mem_nil, or_false] at hshape
  obtain rfl | rfl | rfl := hshape
  · simp only [hasUriPassword, Bool.and_eq_true, decide_eq_true_eq] at hs
    have hmem := List.mem_of_head? hs.1.2
    exact ⟨_, List.dropWhile_suffix _ |>.subset (List.drop_subset _ _ (List.dropWhile_suffix _ |>.subset hmem)),
      .inl rfl⟩
  · simp only [hasPemKey, List.any_eq_true, Bool.and_eq_true, decide_eq_true_eq] at hs
    obtain ⟨t, ht, hstarts, -⟩ := hs
    exact ⟨_, (List.mem_tails _ _).mp ht |>.subset (hstarts.subset hblank), .inr (.inl rfl)⟩
  · simp only [hasKeyMember, List.any_eq_true, Bool.and_eq_true, decide_eq_true_eq] at hs
    obtain ⟨t, ht, hstarts, -⟩ := hs
    exact ⟨_, (List.mem_tails _ _).mp ht |>.subset (hstarts.subset hquote), .inr (.inr rfl)⟩

theorem not_isSecretText_of_forall {s : Text} (h : ∀ u ∈ s, u ≠ 0x40 ∧ u ≠ 0x20 ∧ u ≠ 0x22) :
    ¬ isSecretText s := fun hs => by
  obtain ⟨u, hu, heq⟩ := exists_of_isSecretText hs
  obtain ⟨h1, h2, h3⟩ := h u hu
  exact heq.elim h1 fun heq => heq.elim h2 h3

theorem isLocationUnit_ne {u : UInt16} (h : isLocationUnit u = true) : u ≠ 0x40 ∧ u ≠ 0x20 ∧ u ≠ 0x22 := by
  refine ⟨?_, ?_, ?_⟩ <;>
    · rintro rfl
      revert h
      decide

/-- A reference is no material. -/
theorem not_isSecretText_of_isCredentialRef {ref : Text} (h : isCredentialRef ref = true) : ¬ isSecretText ref := by
  have hbody : ∀ {body : Text}, isReferenceBody body = true → ∀ u ∈ body, u ≠ 0x40 ∧ u ≠ 0x20 ∧ u ≠ 0x22 := by
    intro body hbody u hu
    rw [← List.takeWhile_append_dropWhile (p := isLocationUnit) (l := body), List.mem_append] at hu
    obtain hu | hu := hu
    · exact isLocationUnit_ne (List.mem_takeWhile_imp hu)
    · rw [isReferenceBody, Bool.and_eq_true] at hbody
      cases hdrop : body.dropWhile isLocationUnit with
      | nil =>
          rw [hdrop] at hu
          cases hu
      | cons v field =>
          rw [hdrop] at hbody hu
          simp only [Bool.and_eq_true, decide_eq_true_eq, List.all_eq_true] at hbody
          obtain rfl | hu := List.mem_cons.mp hu
          · rw [hbody.2.1.1]
            decide
          · refine isLocationUnit_ne ?_
            rw [isLocationUnit, hbody.2.2 u hu, Bool.true_or]
  have hscheme : ∀ {scheme : Text}, scheme.all (fun u => decide (u ≠ 0x40 ∧ u ≠ 0x20 ∧ u ≠ 0x22)) = true →
      scheme <+: ref → isReferenceBody (ref.drop scheme.length) = true → ¬ isSecretText ref := by
    rintro scheme hscheme ⟨body, rfl⟩ hreference
    rw [List.drop_left] at hreference
    refine not_isSecretText_of_forall fun u hu => ?_
    obtain hu | hu := List.mem_append.mp hu
    · exact of_decide_eq_true (List.all_eq_true.mp hscheme u hu)
    · exact hbody hreference u hu
  rw [isCredentialRef, Bool.or_eq_true, Bool.and_eq_true, Bool.and_eq_true, decide_eq_true_eq,
    decide_eq_true_eq] at h
  obtain ⟨hstarts, hreference⟩ | ⟨hstarts, hreference⟩ := h
  · exact hscheme (by decide) hstarts hreference
  · exact hscheme (by decide) hstarts hreference

theorem not_isSecretText_of_isSystemName {system : Text} (h : isSystemName system = true) :
    ¬ isSecretText system := by
  rw [isSystemName, Bool.and_eq_true, List.all_eq_true] at h
  refine not_isSecretText_of_forall fun u hu => ?_
  have hu := h.2 u hu
  refine ⟨?_, ?_, ?_⟩ <;>
    · rintro rfl
      revert hu
      decide

/-! ### Credentials -/

theorem harmless_credential {c : Credential} (h : isCredentialRef c.ref = true) : Harmless c.json ↔
    ∀ v ∈ [.str c.key] ++ (c.requiredFor.map Json.arr).toList ++ (c.description.map Json.str).toList,
      Harmless v := by
  have hkeys : ∀ key ∈ [js "key", js "ref", js "required_for", js "description"], ¬ isSecretKey key := by
    unfold isSecretKey
    decide
  have hkey := hkeys (js "key") (by simp)
  have href := hkeys (js "ref") (by simp)
  have hrequired := hkeys (js "required_for") (by simp)
  have hdescription := hkeys (js "description") (by simp)
  have hharmless : Harmless (.str c.ref) := harmless_str.mpr (not_isSecretText_of_isCredentialRef h)
  obtain ⟨key, ref, requiredFor, description⟩ := c
  rw [Credential.json, harmless_obj]
  cases requiredFor <;> cases description <;>
    simp [hkey, href, hrequired, hdescription, hharmless]

theorem isCredentialRef_of_problems {at_ : Text} {members : List (Text × Json)}
    (h : credentialProblems at_ members = []) : isCredentialRef (credentialOf members).ref = true := by
  rw [credentialProblems, List.append_eq_nil_iff, List.append_eq_nil_iff, List.append_eq_nil_iff] at h
  obtain ⟨⟨⟨-, href⟩, -⟩, -⟩ := h
  by_contra hnot
  rw [Bool.not_eq_true] at hnot
  have hnil : ((member members "ref").bind Json.asString).getD [] ≠ [] := fun hnil => by
    rw [if_pos hnil] at href
    cases href
  rw [if_neg hnil, if_pos (show isCredentialRef (((member members "ref").bind Json.asString).getD []) = false
    from hnot)] at href
  cases href

/-- What is stored of entries that have nothing wrong with them. -/
theorem readCredentials_spec {i : Nat} {entries : List Json} (h : (readCredentials i entries).1 = []) :
    (∀ c ∈ (readCredentials i entries).2, isCredentialRef c.ref = true) ∧
      ((∀ c ∈ (readCredentials i entries).2, Harmless c.json) ↔
        ∀ v ∈ entries.flatMap unscannedOf, Harmless v) := by
  induction entries generalizing i with
  | nil => exact ⟨nofun, iff_of_true nofun nofun⟩
  | cons entry rest ih =>
      cases entry with
      | obj members =>
          rw [readCredentials, List.append_eq_nil_iff] at h
          obtain ⟨href, hharmless⟩ := ih h.2
          have href' := isCredentialRef_of_problems h.1
          rw [readCredentials, List.flatMap_cons]
          refine ⟨fun c hc => ?_, ?_⟩
          · obtain rfl | hc := List.mem_cons.mp hc
            · exact href'
            · exact href c hc
          · rw [List.forall_mem_cons, List.forall_mem_append, hharmless, harmless_credential href', unscannedOf]
      | _ => exact absurd h (List.cons_ne_nil _ _)

/-! ### Specifications -/

/-- An accepted body: its configuration and its entries, with nothing wrong in either. -/
theorem readConnectionSpec_ok {system : Text} {body : Json} {spec : ConnectionSpec}
    (h : readConnectionSpec system body = .ok spec) : ∃ config entries,
      isSystemName system = true ∧
      (orElse (body.field "payload") (.obj [])).field "config" = some (.obj config) ∧
      orElse ((orElse (body.field "payload") (.obj [])).field "credentials") (.arr []) = .arr entries ∧
      scanConfig (js "config") config = [] ∧ (readCredentials 0 entries).1 = [] ∧
      spec.system = system ∧ spec.config = config ∧ spec.credentials = (readCredentials 0 entries).2 ∧
      spec.connectorName =
        ((((orElse (body.field "connector") (.obj [])).field "name").bind Json.asString).map trim).getD [] ∧
      spec.versionConstraint =
        (let constraint := ((((orElse (body.field "connector") (.obj [])).field "version_constraint").bind
          Json.asString).map trim).getD []
        if constraint = [] then js "*" else constraint) := by
  unfold readConnectionSpec at h
  by_cases hsystem : isSystemName system = false
  · rw [if_pos hsystem] at h
    cases h
  rw [if_neg hsystem] at h
  dsimp only at h
  by_cases hname : ((((orElse (body.field "connector") (.obj [])).field "name").bind Json.asString).map trim).getD [] = []
  · rw [if_pos hname] at h
    cases h
  rw [if_neg hname] at h
  split at h
  case h_1 config hconfig =>
    split at h
    case h_1 entries hentries =>
      by_cases hproblems : scanConfig (js "config") config ++ (readCredentials 0 entries).1 = []
      · rw [if_pos hproblems] at h
        obtain rfl := Except.ok.inj h
        rw [List.append_eq_nil_iff] at hproblems
        exact ⟨config, entries, (Bool.not_eq_false _).mp hsystem, hconfig, hentries, hproblems.1, hproblems.2,
          rfl, rfl, rfl, rfl, rfl⟩
      · rw [if_neg hproblems] at h
        split at h <;> cases h
    case h_2 => cases h
  case h_2 => cases h

/-- **A stored connection holds references** exactly when what is copied unscanned is harmless. -/
theorem holdsReferences_iff {system : Text} {body : Json} {spec : ConnectionSpec}
    (h : readConnectionSpec system body = .ok spec) :
    spec.HoldsReferences ↔ ∀ v ∈ unscanned body, Harmless v := by
  obtain ⟨config, entries, hsystem, hconfig, hentries, hscan, hproblems, hsystemEq, hconfigEq, hcredentials,
    hname, hconstraint⟩ := readConnectionSpec_ok h
  obtain ⟨href, hharmless⟩ := readCredentials_spec hproblems
  have hobject : Harmless (.obj config) ↔ ∀ a ∈ arraysOf (.obj config), Harmless a :=
    harmless_of_scan (show scanValue (js "config") (.obj config) = [] from hscan)
  have hsystemText : Harmless (.str spec.system) :=
    harmless_str.mpr (hsystemEq ▸ not_isSecretText_of_isSystemName hsystem)
  set constraint := ((((orElse (body.field "connector") (.obj [])).field "version_constraint").bind
    Json.asString).map trim).getD [] with hconstraintText
  have hconstraintIff : Harmless (.str spec.versionConstraint) ↔ Harmless (.str constraint) := by
    rw [hconstraint]
    by_cases hnil : constraint = []
    · have hstar : ¬ isSecretText (js "*") := not_isSecretText_of_forall fun u hu => by
        obtain rfl := List.mem_singleton.mp hu
        decide
      have hempty : ¬ isSecretText [] := not_isSecretText_of_forall nofun
      dsimp only
      rw [if_pos hnil, hnil]
      exact iff_of_true (harmless_str.mpr hstar) (harmless_str.mpr hempty)
    · dsimp only
      rw [if_neg hnil]
  have hunscanned : unscanned body = [.str spec.connectorName, .str constraint] ++ arraysOf (.obj config) ++
      entries.flatMap unscannedOf := by
    rw [unscanned, hconfig, hentries, hname]
  have hvalues : (∀ v ∈ spec.values, Harmless v) ↔ ∀ v ∈ unscanned body, Harmless v := by
    rw [hunscanned, ConnectionSpec.values, hcredentials, hconfigEq]
    simp only [List.forall_mem_append, List.forall_mem_cons, List.forall_mem_map, List.not_mem_nil, false_imp_iff,
      forall_true_iff, and_true, hsystemText, true_and, hconstraintIff, hharmless, hobject, and_assoc]
  constructor
  · exact fun hholds => hvalues.mp hholds.harmless
  · exact fun hall => ⟨hvalues.mpr hall, fun c hc => href c (hcredentials ▸ hc)⟩

/-! ### A password in an array -/

def shopConfig (dsns : List Text) : List (Text × Json) := [(js "dsns", .arr (dsns.map .str))]

def shopBody (dsns : List Text) : Json :=
  .obj [(js "connector", .obj [(js "name", .str (js "postgres"))]),
    (js "payload", .obj [(js "config", .obj (shopConfig dsns)),
      (js "credentials", .arr [.obj [(js "key", .str (js "dsn")),
        (js "ref", .str (js "vault://secret/shop#dsn"))]])])]

def shopSpec (dsns : List Text) : ConnectionSpec where
  system := js "shop"
  connectorName := js "postgres"
  versionConstraint := js "*"
  config := shopConfig dsns
  credentials := [⟨js "dsn", js "vault://secret/shop#dsn", none, none⟩]

theorem readConnectionSpec_shop (dsns : List Text) :
    readConnectionSpec (js "shop") (shopBody dsns) = .ok (shopSpec dsns) := by
  rfl

theorem holdsReferences_shop : (shopSpec []).HoldsReferences ↔ ∀ v ∈ unscanned (shopBody []), Harmless v :=
  holdsReferences_iff (readConnectionSpec_shop [])

/-- A URI with its password, in an array of the configuration. -/
theorem not_holdsReferences_array : ¬ ∀ (system : Text) (body : Json) (spec : ConnectionSpec),
    readConnectionSpec system body = .ok spec → spec.HoldsReferences := by
  intro hall
  have hdsn : isSecretText (js "postgres://shop:hunter2@db") :=
    ⟨SECRET_SHAPES[0], List.getElem_mem _, by decide⟩
  have hholds := hall _ _ _ (readConnectionSpec_shop [js "postgres://shop:hunter2@db"])
  have hmem : Json.obj (shopConfig [js "postgres://shop:hunter2@db"]) ∈
      (shopSpec [js "postgres://shop:hunter2@db"]).values :=
    List.mem_append_left _ (List.mem_cons_of_mem _ (List.mem_cons_of_mem _ (List.mem_cons_of_mem _
      List.mem_cons_self)))
  refine (hholds.harmless _ hmem).texts (js "postgres://shop:hunter2@db") ?_ hdsn
  exact .member List.mem_cons_self (.item List.mem_cons_self .here)

end ContextLayer.Connections
