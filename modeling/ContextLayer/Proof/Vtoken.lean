import ContextLayer.Proof.Platform
import ContextLayer.Vtoken

/-!
# What a verified token says

A token the core issued splits into its three parts, and each part decodes to what was encoded, so
verifying it comes down to the payload it was issued with: `verify_makeToken` lists the checks that
are left. Over a history the key a token was signed with stays in the table under its `kid`, whatever
rotations follow, so the list holds for every token ever issued, and with unforgeable signatures it
holds for every token string. The profile is written into the payload and is not on the list.
-/

namespace ContextLayer

open Text

variable {P : Platform}

/-! ### The parts of an issued token -/

theorem splitOn_dots {a b c : Text} (ha : 0x2E ∉ a) (hb : 0x2E ∉ b) (hc : 0x2E ∉ c) :
    (a ++ js "." ++ b ++ js "." ++ c).splitOn 0x2E = [a, b, c] := by
  have hparts : ([(0x2E : UInt16)].intercalate [a, b, c]).splitOn 0x2E = [a, b, c] :=
    List.splitOn_intercalate 0x2E (by simp [ha, hb, hc]) (by simp)
  have hjoin : [(0x2E : UInt16)].intercalate [a, b, c] = a ++ js "." ++ b ++ js "." ++ c := by
    have hdot : js "." = [0x2E] := by decide
    simp [List.intercalate, hdot]
  rw [← hjoin, hparts]

theorem parse_ofB64url_b64url (v : Json) : P.parse (ofB64url (b64url (stringify v))) = some v := by
  rw [ofB64url_b64url (isWellFormed_stringify v), P.parse_stringify]

/-- The two encoded parts a signature covers. -/
def headerPart (key : SigningKey) : Text := b64url (stringify (headerJson key.kid))

def bodyPart (payload : VtokenPayload) : Text := b64url (stringify payload.json)

def signaturePart (P : Platform) (key : SigningKey) (payload : VtokenPayload) : Text :=
  Base64Url.encode (sign P key.secret (headerPart key ++ js "." ++ bodyPart payload))

theorem makeToken_eq (key : SigningKey) (payload : VtokenPayload) :
    makeToken P key payload
      = headerPart key ++ js "." ++ bodyPart payload ++ js "." ++ signaturePart P key payload := rfl

theorem makeToken_ne_nil (key : SigningKey) (payload : VtokenPayload) :
    makeToken P key payload ≠ [] := by
  have hdot : js "." ≠ [] := by decide
  simp [makeToken_eq, hdot]

theorem splitOn_makeToken (key : SigningKey) (payload : VtokenPayload) :
    (makeToken P key payload).splitOn 0x2E
      = [headerPart key, bodyPart payload, signaturePart P key payload] := by
  rw [makeToken_eq]
  exact splitOn_dots (Base64Url.dot_notMem_encode _) (Base64Url.dot_notMem_encode _)
    (Base64Url.dot_notMem_encode _)

theorem tokenParts_makeToken (key : SigningKey) (payload : VtokenPayload) :
    tokenParts P (makeToken P key payload) = some
      ⟨headerPart key, bodyPart payload, signaturePart P key payload, headerJson key.kid,
        payload.json⟩ := by
  simp only [tokenParts, splitOn_makeToken, headerPart, bodyPart, parse_ofB64url_b64url]

/-! ### The checks left for an issued token -/

theorem fieldIs_of_field {value : Json} {key : String} {s t : Text}
    (h : value.field key = some (.str s)) : fieldIs value key t = true ↔ s = t := by
  simp [fieldIs, h, Json.asString]

theorem mapM_asString (texts : List Text) :
    (texts.map Json.str).mapM Json.asString = some texts := by
  induction texts with
  | nil => rfl
  | cons t texts ih => simp [List.mapM_cons, Json.asString, ih]

theorem checkAllowSet_isOk {payload : Json} {objects : List Text} {visible : Text → Bool}
    (h : payload.field "objects" = some (.arr (objects.map .str))) :
    (checkAllowSet payload visible).isOk = true ↔ ∀ fqn ∈ objects, visible fqn = true := by
  have hhidden : (objects.filter fun fqn => !visible fqn) = []
      ↔ ∀ fqn ∈ objects, visible fqn = true := by
    simp [List.filter_eq_nil_iff]
  rw [← hhidden]
  simp only [checkAllowSet, h, mapM_asString]
  split <;> simp_all [VerifyResult.isOk]

/-- What an expectation has in common with a payload: everything but the profile. -/
structure Matches (payload : VtokenPayload) (expected : Expected) (now : Nat) : Prop where
  statementSha256 : payload.statementSha256 = expected.statementSha256
  system : payload.system = expected.system
  subject : payload.subject = expected.subject
  snapshotRef : payload.snapshotRef = expected.currentSnapshotRef
  unexpired : now / 1000 < payload.exp
  visible : ∀ fqn ∈ payload.objects, expected.visible fqn = true

theorem checkPayload_json (payload : VtokenPayload) (expected : Expected) (now : Nat) :
    (checkPayload P payload.json expected now).isOk = true ↔ Matches payload expected now := by
  have hsha := fieldIs_of_field (t := expected.statementSha256)
    (show payload.json.field "statement_sha256" = some (.str payload.statementSha256) from rfl)
  have hsubject := fieldIs_of_field (t := expected.subject)
    (show payload.json.field "subject" = some (.str payload.subject) from rfl)
  have hsystem := fieldIs_of_field (t := expected.system)
    (show payload.json.field "system" = some (.str payload.system) from rfl)
  have hsnapshot := fieldIs_of_field (t := expected.currentSnapshotRef)
    (show payload.json.field "snapshot_ref" = some (.str payload.snapshotRef) from rfl)
  have hexp : P.ge (now / 1000) (payload.json.field "exp") = decide (payload.exp ≤ now / 1000) :=
    P.ge_ofNat _ _
  have hallow := @checkAllowSet_isOk payload.json payload.objects expected.visible rfl
  have hv : payload.json.field "v" = some (.num jsOne) := rfl
  have hcheck : (checkPayload P payload.json expected now).isOk = true ↔
      ¬payload.exp ≤ now / 1000 ∧ payload.statementSha256 = expected.statementSha256 ∧
        payload.subject = expected.subject ∧ payload.system = expected.system ∧
        payload.snapshotRef = expected.currentSnapshotRef ∧
        ∀ fqn ∈ payload.objects, expected.visible fqn = true := by
    rw [← hsha, ← hsubject, ← hsystem, ← hsnapshot, ← hallow, checkPayload]
    · simp only [hv, hexp]
      repeat' split
      all_goals simp_all [VerifyResult.isOk]
    · intro h
      simp [VtokenPayload.json] at h
  rw [hcheck]
  constructor
  · rintro ⟨hnow, hsha, hsubject, hsystem, hsnapshot, hvisible⟩
    exact ⟨hsha, hsystem, hsubject, hsnapshot, by omega, hvisible⟩
  · rintro ⟨hsha, hsystem, hsubject, hsnapshot, hnow, hvisible⟩
    exact ⟨by omega, hsha, hsubject, hsystem, hsnapshot, hvisible⟩

theorem payload_eq_of_json_eq {p q : VtokenPayload} (h : p.json = q.json) : p = q := by
  have hnum : ∀ m n : Nat, Json.num (.ofNat m) = .num (.ofNat n) → m = n := by
    intro m n hmn
    rw [← digitsValue_ofNat m, Json.num.inj hmn, digitsValue_ofNat]
  have hmembers := Json.obj.inj h
  simp only [List.cons.injEq, Prod.mk.injEq, true_and, and_true] at hmembers
  obtain ⟨hsha, hsystem, hsnapshot, hsubject, hprofile, hobjects, hiat, hexp⟩ := hmembers
  have hlist : p.objects = q.objects :=
    List.map_injective_iff.mpr (fun _ _ => Json.str.inj) (Json.arr.inj hobjects)
  exact VtokenPayload.ext (Json.str.inj hsha) (Json.str.inj hsystem) (Json.str.inj hsnapshot)
    (Json.str.inj hsubject) (Json.str.inj hprofile) hlist (hnum _ _ hiat) (hnum _ _ hexp)

/-- A token string has one key id and one payload. -/
theorem makeToken_inj {key key' : SigningKey} {payload payload' : VtokenPayload}
    (h : makeToken P key payload = makeToken P key' payload') :
    key.kid = key'.kid ∧ payload = payload' := by
  have hparts := tokenParts_makeToken (P := P) key payload
  rw [h, tokenParts_makeToken] at hparts
  simp only [Option.some.injEq, TokenParts.mk.injEq] at hparts
  obtain ⟨-, -, -, hheader, hpayload⟩ := hparts
  have hkid : (headerJson key'.kid).field "kid" = (headerJson key.kid).field "kid" :=
    congrArg (·.field "kid") hheader
  exact ⟨(Json.str.inj (Option.some.inj hkid)).symm, payload_eq_of_json_eq hpayload.symm⟩

/-- **Verifying a token the core made.** Under its own key, what is left to check is the payload. -/
theorem verify_makeToken {table : KeyTable} {key : SigningKey} {payload : VtokenPayload}
    {expected : Expected} {now : Nat} (hkey : keyByKid table key.kid = some key.secret) :
    (verifyValidationToken P table (makeToken P key payload) expected now).isOk = true
      ↔ key.secret ≠ [] ∧ Matches payload expected now := by
  have halg : fieldIs (headerJson key.kid) "alg" (js "HS256") = true :=
    (fieldIs_of_field (show (headerJson key.kid).field "alg" = some (.str (js "HS256")) from rfl)).mpr
      rfl
  have hkid : ((headerJson key.kid).field "kid").bind Json.asString = some key.kid := rfl
  have hsigned : Base64Url.decode (signaturePart P key payload)
      = sign P key.secret (headerPart key ++ js "." ++ bodyPart payload) :=
    Base64Url.decode_encode _
  rw [verifyValidationToken, tokenParts_makeToken, ← checkPayload_json (P := P)]
  simp only [checkSignature]
  split
  case h_1 h => simp [headerJson] at h
  case h_2 =>
    by_cases hsecret : key.secret = []
    · simp [halg, hkid, hkey, hsecret, Option.filter, VerifyResult.isOk]
    · simp [halg, hkid, hkey, hsecret, Option.filter, hsigned]

/-! ### Rotation keeps every key -/

theorem keyByKid_eq_some_iff {table : KeyTable} {kid secret : Text} :
    keyByKid table kid = some secret ↔ ∃ key ∈ table.keys, key.kid = kid ∧ key.secret = secret := by
  constructor
  · intro h
    simp only [keyByKid, Option.map_eq_some_iff] at h
    obtain ⟨key, hfind, hsecret⟩ := h
    exact ⟨key, List.mem_of_find?_eq_some hfind, by simpa using List.find?_some hfind, hsecret⟩
  · rintro ⟨key, hmem, rfl, rfl⟩
    have hsome : (table.keys.find? fun k => decide (k.kid = key.kid)).isSome = true := by
      rw [List.find?_isSome]
      exact ⟨key, hmem, by simp⟩
    obtain ⟨found, hfound⟩ := Option.isSome_iff_exists.mp hsome
    have hkid : found.kid = key.kid := by simpa using List.find?_some hfound
    have hsame : found = key :=
      List.inj_on_of_nodup_map table.primaryKey (List.mem_of_find?_eq_some hfound) hmem hkid
    simp [keyByKid, hfound, hsame]

/-- One table's keys are still there, with their secrets, in another. -/
def KeyTable.Keeps (before after : KeyTable) : Prop :=
  ∀ kid secret, keyByKid before kid = some secret → keyByKid after kid = some secret

namespace KeyTable.Keeps

theorem refl (table : KeyTable) : Keeps table table := fun _ _ h => h

theorem insert {table after : KeyTable} {row : SigningKey} (h : table.insert row = some after) :
    Keeps table after := by
  intro kid secret hkey
  rw [keyByKid_eq_some_iff] at hkey ⊢
  obtain ⟨key, hmem, hkid, hsecret⟩ := hkey
  simp only [KeyTable.insert] at h
  split at h
  · cases h
  · obtain rfl := Option.some.inj h
    exact ⟨key, List.mem_append_left _ hmem, hkid, hsecret⟩

theorem deactivate (table : KeyTable) (kid : Text) : Keeps table (table.deactivate kid) := by
  intro kid' secret hkey
  rw [keyByKid_eq_some_iff] at hkey ⊢
  obtain ⟨key, hmem, hkid, hsecret⟩ := hkey
  refine ⟨_, List.mem_map_of_mem hmem, ?_, ?_⟩ <;> split <;> assumption

end KeyTable.Keeps

theorem mem_insert {table after : KeyTable} {row : SigningKey} (h : table.insert row = some after) :
    row ∈ after.keys := by
  simp only [KeyTable.insert] at h
  split at h
  · cases h
  · obtain rfl := Option.some.inj h
    simp

theorem newestActive_mem {keys : List SigningKey} {key : SigningKey}
    (h : newestActive keys = some key) : key ∈ keys := by
  have hfold : ∀ (step : Option SigningKey → SigningKey → Option SigningKey),
      (∀ best row, step best row = best ∨ step best row = some row) →
      ∀ (rows : List SigningKey) (best : Option SigningKey),
        rows.foldl step best = some key → best = some key ∨ key ∈ rows := by
    intro step hstep rows
    induction rows with
    | nil => exact fun best h => Or.inl h
    | cons row rows ih =>
        intro best h
        rcases ih _ h with hbest | hmem
        · rcases hstep best row with hsame | hnew
          · exact Or.inl (hsame ▸ hbest)
          · rw [hnew] at hbest
            exact Or.inr (List.mem_cons.mpr (Or.inl (Option.some.inj hbest).symm))
        · exact Or.inr (List.mem_cons_of_mem _ hmem)
  have hcases := hfold _ (by
    intro best row
    cases best with
    | none => exact Or.inr rfl
    | some b =>
        dsimp only
        split
        · exact Or.inr rfl
        · exact Or.inl rfl) _ _ h
  rcases hcases with hnone | hmem
  · cases hnone
  · exact (List.mem_filter.mp hmem).1

/-- The key a token is signed with is a row of the table after the call. -/
theorem activeKey_spec {table after : KeyTable} {fresh key : SigningKey}
    (h : activeKey table fresh = some (key, after)) :
    table.Keeps after ∧ keyByKid after key.kid = some key.secret := by
  simp only [activeKey] at h
  split at h
  case h_1 newest hnewest =>
    obtain ⟨rfl, rfl⟩ : newest = key ∧ table = after := by simpa using h
    exact ⟨.refl _, keyByKid_eq_some_iff.mpr ⟨_, newestActive_mem hnewest, rfl, rfl⟩⟩
  case h_2 hnone =>
    obtain ⟨table', hinsert, heq⟩ := Option.map_eq_some_iff.mp h
    obtain ⟨rfl, rfl⟩ : fresh = key ∧ table' = after := by simpa using heq
    exact ⟨.insert hinsert, keyByKid_eq_some_iff.mpr ⟨_, mem_insert hinsert, rfl, rfl⟩⟩

/-- **What an issue call returns**, and that its key is a row of the table after it. -/
theorem issueValidationToken_spec {table after : KeyTable} {fresh : SigningKey} {binding : Binding}
    {ttlS now : Nat} {issued : IssuedToken}
    (h : issueValidationToken P table fresh binding ttlS now = some (issued, after)) :
    ∃ key, activeKey table fresh = some (key, after) ∧
      issued.token = makeToken P key (binding.payload ttlS now) ∧
      table.Keeps after ∧ keyByKid after key.kid = some key.secret := by
  simp only [issueValidationToken, Option.map_eq_some_iff, Prod.exists, Prod.mk.injEq] at h
  obtain ⟨key, after', hactive, rfl, rfl⟩ := h
  obtain ⟨hkeeps, hkey⟩ := activeKey_spec hactive
  exact ⟨key, hactive, rfl, hkeeps, hkey⟩

theorem mem_sortTexts {texts : List Text} {t : Text} : t ∈ sortTexts texts ↔ t ∈ texts :=
  List.mem_insertionSort _

/-! ### Histories -/

namespace TokenStore

/-- Every issued token is what its key and payload make, and its key is in the table. -/
def Sound (P : Platform) (store : TokenStore) : Prop :=
  ∀ issue ∈ store.issued, issue.token = makeToken P issue.key issue.payload ∧
    keyByKid store.table issue.key.kid = some issue.key.secret

theorem Sound.keeps {store : TokenStore} {after : KeyTable} (h : store.Sound P)
    (hkeeps : store.table.Keeps after) : Sound P { store with table := after } :=
  fun issue hmem => ⟨(h issue hmem).1, hkeeps _ _ (h issue hmem).2⟩

theorem Sound.issue {store : TokenStore} (h : store.Sound P) (fresh : SigningKey)
    (binding : Binding) (ttlS now : Nat) : (store.issue P fresh binding ttlS now).Sound P := by
  cases hactive : activeKey store.table fresh with
  | none => simpa [TokenStore.issue, hactive] using h
  | some found =>
      obtain ⟨key, after⟩ := found
      obtain ⟨hkeeps, hkey⟩ := activeKey_spec hactive
      intro issue hmem
      simp only [TokenStore.issue, issueValidationToken, hactive, Option.map_some,
        List.mem_append, List.mem_singleton] at hmem ⊢
      rcases hmem with hold | rfl
      · exact h.keeps hkeeps issue hold
      · exact ⟨rfl, hkey⟩

theorem Sound.step {store : TokenStore} (h : store.Sound P) (event : TokenEvent) :
    (store.step P event).Sound P := by
  cases event with
  | insertKey row =>
      cases hinsert : store.table.insert row with
      | none => simpa [TokenStore.step, hinsert] using h
      | some after =>
          simpa [TokenStore.step, hinsert] using h.keeps (.insert hinsert)
  | deactivateKey kid => exact h.keeps (.deactivate _ _)
  | issue fresh binding ttlS now => exact h.issue fresh binding ttlS now

/-- **Over any history of issue calls and rotations.** -/
theorem sound_run (events : List TokenEvent) : (run P events).Sound P := by
  have hfoldl : ∀ (events : List TokenEvent) (store : TokenStore), store.Sound P →
      (events.foldl (TokenStore.step P) store).Sound P := by
    intro events
    induction events with
    | nil => exact fun store h => h
    | cons event events ih => exact fun store h => ih _ (h.step event)
  exact hfoldl events _ (by intro issue hmem; cases hmem)

/-- An issued token verifies exactly when its payload matches, under a key with a secret. -/
theorem Sound.verify {store : TokenStore} (h : store.Sound P) {issue : Issue}
    (hmem : issue ∈ store.issued) (expected : Expected) (now : Nat) :
    (verifyValidationToken P store.table issue.token expected now).isOk = true
      ↔ issue.key.secret ≠ [] ∧ Matches issue.payload expected now := by
  rw [(h issue hmem).1]
  exact verify_makeToken (h issue hmem).2

/-- Two issue calls that returned one string had one payload, signed under one secret. -/
theorem Sound.same_token {store : TokenStore} (h : store.Sound P) {i j : Issue}
    (hi : i ∈ store.issued) (hj : j ∈ store.issued) (htoken : i.token = j.token) :
    i.payload = j.payload ∧ i.key.secret = j.key.secret := by
  rw [(h i hi).1, (h j hj).1] at htoken
  obtain ⟨hkid, hpayload⟩ := makeToken_inj htoken
  have hsecret := (h i hi).2
  rw [hkid, (h j hj).2] at hsecret
  exact ⟨hpayload, (Option.some.inj hsecret).symm⟩

end TokenStore

/-! ### Tokens nobody issued -/

/-- The string ends in a valid signature, under a stored key, of the two parts before it. -/
def CarriesSignature (P : Platform) (table : KeyTable) (token : Text) : Prop :=
  ∃ key ∈ table.keys, key.secret ≠ [] ∧ ∃ part0 part1 part2,
    token.splitOn 0x2E = [part0, part1, part2] ∧
      Base64Url.decode part2 = sign P key.secret (part0 ++ js "." ++ part1)

/-- HMAC is unforgeable, and no foreign string decodes to a valid signature. -/
def Unforgeable (P : Platform) (store : TokenStore) (token : Text) : Prop :=
  CarriesSignature P store.table token → ∃ issue ∈ store.issued, issue.token = token

theorem carriesSignature_of_verify {table : KeyTable} {token : Text} {expected : Expected}
    {now : Nat} (h : (verifyValidationToken P table token expected now).isOk = true) :
    CarriesSignature P table token := by
  simp only [verifyValidationToken] at h
  split at h
  · simp [VerifyResult.isOk] at h
  case h_2 parts hparts =>
    simp only [tokenParts] at hparts
    split at hparts
    case h_1 part0 part1 part2 hsplit =>
      split at hparts
      case h_1 header payload hheader hpayload =>
        obtain rfl := Option.some.inj hparts
        simp only [checkSignature] at h
        split at h
        · simp [VerifyResult.isOk] at h
        split at h
        case h_1 kid halg hkid =>
          split at h
          · simp [VerifyResult.isOk] at h
          case h_2 secret hsecret =>
            split at h
            case isTrue hsigned =>
              obtain ⟨hlookup, hne⟩ := Option.filter_eq_some_iff.mp hsecret
              obtain ⟨key, hmem, -, rfl⟩ := keyByKid_eq_some_iff.mp hlookup
              exact ⟨key, hmem, by simpa using hne, part0, part1, part2, hsplit, hsigned⟩
            case isFalse => simp [VerifyResult.isOk] at h
        · simp [VerifyResult.isOk] at h
      · cases hparts
    · cases hparts

/-! ### The law, and where the profile breaks it -/

/-- A token verifies exactly when it was issued for what is about to run, under this profile. -/
def TokenLaw (P : Platform) (store : TokenStore) (token profile : Text) (expected : Expected)
    (now : Nat) : Prop :=
  (verifyValidationToken P store.table token expected now).isOk = true ↔
    ∃ issue ∈ store.issued, issue.token = token ∧ issue.binding.profile = profile ∧
      Matches issue.payload expected now

/-- **The law holds exactly where the profile agrees.** Over every history of issue calls and
rotations: for a token issued with every other binding as expected, not expired and with its
allow-set visible, the caller's profile has to be the issue call's, unless the signing key has the
empty secret, which verification refuses. -/
theorem tokenLaw_iff (P : Platform) (events : List TokenEvent) (token profile : Text)
    (expected : Expected) (now : Nat) (hforge : Unforgeable P (TokenStore.run P events) token) :
    TokenLaw P (TokenStore.run P events) token profile expected now ↔
      ∀ issue ∈ (TokenStore.run P events).issued, issue.token = token →
        Matches issue.payload expected now →
          (issue.binding.profile = profile ↔ issue.key.secret ≠ []) := by
  have hsound := TokenStore.sound_run (P := P) events
  constructor
  · intro hlaw issue hmem htoken hmatches
    have hverify := hsound.verify hmem expected now
    rw [htoken] at hverify
    constructor
    · intro hprofile
      exact (hverify.mp (hlaw.mpr ⟨issue, hmem, htoken, hprofile, hmatches⟩)).1
    · intro hsecret
      obtain ⟨other, hother, htoken', hprofile, -⟩ := hlaw.mp (hverify.mpr ⟨hsecret, hmatches⟩)
      have hsame := (hsound.same_token hother hmem (htoken'.trans htoken.symm)).1
      exact (congrArg VtokenPayload.profile hsame).symm.trans hprofile
  · intro hprofile
    constructor
    · intro hok
      obtain ⟨issue, hmem, htoken⟩ := hforge (carriesSignature_of_verify hok)
      have hverify := hsound.verify hmem expected now
      rw [htoken] at hverify
      obtain ⟨hsecret, hmatches⟩ := hverify.mp hok
      exact ⟨issue, hmem, htoken, (hprofile issue hmem htoken hmatches).mpr hsecret, hmatches⟩
    · rintro ⟨issue, hmem, htoken, hsame, hmatches⟩
      have hverify := hsound.verify hmem expected now
      rw [htoken] at hverify
      exact hverify.mpr ⟨(hprofile issue hmem htoken hmatches).mp hsame, hmatches⟩

section Example

/-- A key, and a binding of the `analyst` profile issued at second 1000 for five minutes. -/
def analystKey : SigningKey := ⟨js "k1", js "s3cret", true, 0⟩

def analystBinding : Binding :=
  { statementSha256 := js "5f2c", system := js "shop", snapshotRef := js "sha256:9a", subject := js "ana"
    profile := js "analyst", objects := [js "shop.public.orders"] }

def analystEvents : List TokenEvent := [.issue analystKey analystBinding 300 1000000]

/-- The same statement a minute later. -/
def analystExpected : Expected :=
  { statementSha256 := js "5f2c", system := js "shop", subject := js "ana"
    currentSnapshotRef := js "sha256:9a", visible := fun _ => true }

theorem issued_analystEvents (P : Platform) :
    (TokenStore.run P analystEvents).issued =
      [⟨analystBinding, 300, 1000000, analystKey,
        makeToken P analystKey (analystBinding.payload 300 1000000)⟩] := rfl

theorem matches_analyst :
    Matches (analystBinding.payload 300 1000000) analystExpected 1060000 :=
  ⟨rfl, rfl, rfl, rfl, by decide, fun _ _ => rfl⟩

theorem unforgeable_analyst (P : Platform) :
    Unforgeable P (TokenStore.run P analystEvents)
      (makeToken P analystKey (analystBinding.payload 300 1000000)) := by
  intro _
  rw [issued_analystEvents]
  exact ⟨_, List.mem_singleton_self _, rfl⟩

/-- Under the profile it was issued for, the token obeys the law. -/
theorem tokenLaw_analyst :
    TokenLaw .ideal (TokenStore.run .ideal analystEvents)
      (makeToken .ideal analystKey (analystBinding.payload 300 1000000)) (js "analyst")
      analystExpected 1060000 := by
  refine (tokenLaw_iff _ _ _ _ _ _ (unforgeable_analyst _)).mpr ?_
  rw [issued_analystEvents]
  intro issue hmem _ _
  obtain rfl := List.mem_singleton.mp hmem
  decide

/-- Under another profile it verifies all the same. -/
theorem not_tokenLaw_steward :
    Unforgeable .ideal (TokenStore.run .ideal analystEvents)
        (makeToken .ideal analystKey (analystBinding.payload 300 1000000)) ∧
      ¬TokenLaw .ideal (TokenStore.run .ideal analystEvents)
        (makeToken .ideal analystKey (analystBinding.payload 300 1000000)) (js "steward")
        analystExpected 1060000 := by
  refine ⟨unforgeable_analyst _, fun hlaw => ?_⟩
  have hverify := (TokenStore.sound_run (P := .ideal) analystEvents).verify
    (List.mem_singleton_self _) analystExpected 1060000
  obtain ⟨issue, hmem, -, hprofile, -⟩ := hlaw.mp (hverify.mpr ⟨by decide, matches_analyst⟩)
  obtain rfl := List.mem_singleton.mp hmem
  exact absurd hprofile (by decide)

end Example

end ContextLayer
