import ContextLayer.References
import ContextLayer.Proof.CodePoints

/-!
# One grammar of references

Both parsers cut a reference at the same places. They differ in what they ask of the parts: the core wants a
path of more than slashes, a runner no white space at the ends and no second `#`.
-/

namespace ContextLayer

open Text Partition

variable {unicode : Unicode} {ref : Text}

theorem codePoints_strip {u : UInt16} (hu : isSurrogate u = false) (s : Text) :
    codePoints (strip (fun v => decide (v = u)) s) = strip (fun p => decide (p = .unit u)) (codePoints s) := by
  obtain ⟨a, b, hs, ha, hb, hhead, hlast⟩ := exists_strip (fun v : UInt16 => decide (v = u)) s
  have hends : ∀ {c : Text}, (∀ v ∈ c, decide (v = u) = true) → (∀ v ∈ c, isSurrogate v = false) ∧
      ∀ p ∈ c.map CodePoint.unit, decide (p = .unit u) = true := by
    intro c hc
    refine ⟨fun v hv => of_decide_eq_true (hc v hv) ▸ hu, fun p hp => ?_⟩
    obtain ⟨v, hv, rfl⟩ := List.mem_map.mp hp
    rw [of_decide_eq_true (hc v hv), decide_eq_true_eq]
  set c := strip (fun v : UInt16 => decide (v = u)) s with hc
  conv_rhs => rw [hs, codePoints_append_of_forall (hends ha).1, codePoints_append_units (hends hb).1]
  refine (strip_append (hends ha).2 (hends hb).2 ?_ ?_).symm
  · intro p hp
    rw [decide_eq_false_iff_not]
    rintro rfl
    obtain ⟨rest, hrest⟩ := List.head?_eq_some_iff.mp hp
    have hunits := flatMap_units_codePoints c
    rw [hrest] at hunits
    have := hhead u (by rw [← hunits]; rfl)
    rw [decide_eq_false_iff_not] at this
    exact this rfl
  · intro p hp
    rw [decide_eq_false_iff_not]
    rintro rfl
    obtain ⟨rest, hrest⟩ := List.getLast?_eq_some_iff.mp hp
    have hunits := flatMap_units_codePoints c
    rw [hrest, List.flatMap_append, List.flatMap_singleton] at hunits
    have := hlast u (by rw [← hunits]; exact List.getLast?_concat)
    rw [decide_eq_false_iff_not] at this
    exact this rfl

theorem codePoints_cut {u : UInt16} (hu : isSurrogate u = false) (s : Text) :
    cut (.unit u) (codePoints s) = (cut u s).map fun parts => (codePoints parts.1, codePoints parts.2) := by
  cases hcut : cut u s with
  | none =>
      rw [cut_eq_none] at hcut
      exact cut_eq_none.mpr fun hmem => hcut ((mem_codePoints hu).mp hmem)
  | some parts =>
      obtain ⟨rfl, hnot⟩ := cut_eq_some.mp hcut
      rw [codePoints_append_cons hu]
      exact cut_append fun hmem => hnot ((mem_codePoints hu).mp hmem)

theorem scheme_units : Sdk.VAULT_SCHEME = VAULT_SCHEME.map .unit ∧ ∀ u ∈ VAULT_SCHEME, isSurrogate u = false := by
  refine ⟨by decide, fun u hu => ?_⟩
  exact (Bool.not_eq_true' _).mp (List.all_eq_true.mp (show VAULT_SCHEME.all (!isSurrogate ·) = true by decide) u hu)

/-- The runner sees the scheme where the core does, and the same text behind it. -/
theorem codePoints_scheme (body : Text) :
    codePoints (VAULT_SCHEME ++ body) = Sdk.VAULT_SCHEME ++ codePoints body := by
  rw [codePoints_append_of_forall scheme_units.2, scheme_units.1]

theorem scheme_starts : Sdk.VAULT_SCHEME <+: codePoints ref ↔ VAULT_SCHEME <+: ref := by
  constructor
  · rintro ⟨rest, hrest⟩
    have hunits := flatMap_units_codePoints ref
    rw [← hrest, List.flatMap_append, scheme_units.1] at hunits
    refine ⟨rest.flatMap CodePoint.units, ?_⟩
    rw [← hunits, List.flatMap_map]
    exact congrArg (· ++ _) (List.flatMap_singleton' _).symm
  · rintro ⟨body, rfl⟩
    exact ⟨codePoints body, (codePoints_scheme body).symm⟩

/-! ### The parts -/

/-- The parts are those that two cuts give. -/
theorem parts_iff {body mount path field : Text} : Parts (VAULT_SCHEME ++ body) mount path field ↔
    (∃ location, cut 0x23 body = some (location, field) ∧ cut 0x2F location = some (mount, path)) ∧
      mount ≠ [] ∧ path ≠ [] ∧ field ≠ [] := by
  constructor
  · intro h
    refine ⟨⟨mount ++ 0x2F :: path, ?_, cut_append h.slash_notMem⟩, h.mount_ne, h.path_ne, h.field_ne⟩
    rw [List.append_cancel_left h.eq]
    refine cut_append ?_
    have hhash := h.hash_notMem
    rw [List.mem_append, not_or] at hhash
    rw [List.mem_append, List.mem_cons, not_or, not_or]
    exact ⟨hhash.1, by decide, hhash.2⟩
  · rintro ⟨⟨location, hlocation, hmount⟩, hmountNe, hpathNe, hfieldNe⟩
    obtain ⟨rfl, hhash⟩ := cut_eq_some.mp hlocation
    obtain ⟨rfl, hslash⟩ := cut_eq_some.mp hmount
    rw [List.mem_append, List.mem_cons, not_or, not_or] at hhash
    exact ⟨rfl, hmountNe, hpathNe, hfieldNe, hslash, by
      rw [List.mem_append, not_or]
      exact ⟨hhash.1, hhash.2.2⟩⟩

theorem Parts.unique {mount path field mount' path' field' : Text} (h : Parts ref mount path field)
    (h' : Parts ref mount' path' field') : mount = mount' ∧ path = path' ∧ field = field' := by
  obtain ⟨body, rfl⟩ : ∃ body, ref = VAULT_SCHEME ++ body := ⟨_, h.eq⟩
  obtain ⟨⟨location, hlocation, hmount⟩, -⟩ := parts_iff.mp h
  obtain ⟨⟨location', hlocation', hmount'⟩, -⟩ := parts_iff.mp h'
  rw [hlocation] at hlocation'
  obtain ⟨rfl, rfl⟩ := Prod.mk.inj (Option.some.inj hlocation')
  rw [hmount] at hmount'
  obtain ⟨rfl, rfl⟩ := Prod.mk.inj (Option.some.inj hmount')
  exact ⟨rfl, rfl, rfl⟩

/-- **The core** wants a path of more than slashes. -/
theorem parseVaultRef_eq_some {r : VaultRef UInt16} : (parseVaultRef ref).toOption = some r ↔
    ∃ mount path field, Parts ref mount path field ∧ (∃ u ∈ path, u ≠ 0x2F) ∧
      r = ⟨mount, strip (fun u => decide (u = 0x2F)) path, field⟩ := by
  have hstrip : ∀ {path : Text}, strip (fun u => decide (u = 0x2F)) path ≠ [] ↔ ∃ u ∈ path, u ≠ 0x2F := by
    intro path
    rw [strip_ne_nil]
    simp only [decide_eq_false_iff_not, ne_eq]
  unfold parseVaultRef
  by_cases hscheme : VAULT_SCHEME <+: ref
  · obtain ⟨body, rfl⟩ := hscheme
    rw [if_pos (List.prefix_append _ _), List.drop_left]
    cases hcut : cut 0x23 body with
    | none =>
        refine iff_of_false nofun ?_
        rintro ⟨mount, path, field, hparts, -⟩
        obtain ⟨⟨location, hlocation, -⟩, -⟩ := parts_iff.mp hparts
        rw [hcut] at hlocation
        cases hlocation
    | some found =>
        obtain ⟨location, field⟩ := found
        dsimp only
        cases hmount : cut 0x2F location with
        | none =>
            rw [Option.map_none, Option.getD_none, if_pos (.inl rfl)]
            refine iff_of_false nofun ?_
            rintro ⟨mount, path, field', hparts, -⟩
            obtain ⟨⟨location', hlocation, hmount'⟩, -⟩ := parts_iff.mp hparts
            rw [hcut] at hlocation
            obtain ⟨rfl, rfl⟩ := Prod.mk.inj (Option.some.inj hlocation)
            rw [hmount] at hmount'
            cases hmount'
        | some parts =>
            obtain ⟨mount, path⟩ := parts
            rw [Option.map_some, Option.getD_some]
            dsimp only
            constructor
            · intro h
              by_cases hempty : mount = [] ∨ strip (fun u => decide (u = 0x2F)) path = [] ∨ field = []
              · rw [if_pos hempty] at h
                cases h
              · rw [if_neg hempty] at h
                simp only [not_or] at hempty
                obtain ⟨hmountNe, hpath, hfieldNe⟩ := hempty
                refine ⟨mount, path, field, parts_iff.mpr ⟨⟨location, hcut, hmount⟩, hmountNe, ?_, hfieldNe⟩,
                  hstrip.mp hpath, (Option.some.inj h).symm⟩
                rintro rfl
                exact hpath rfl
            · rintro ⟨mount', path', field', hparts, hpath, rfl⟩
              obtain ⟨⟨location', hlocation, hmount'⟩, hmountNe, -, hfieldNe⟩ := parts_iff.mp hparts
              rw [hcut] at hlocation
              obtain ⟨rfl, rfl⟩ := Prod.mk.inj (Option.some.inj hlocation)
              rw [hmount] at hmount'
              obtain ⟨rfl, rfl⟩ := Prod.mk.inj (Option.some.inj hmount')
              rw [if_neg]
              · rfl
              · rw [not_or, not_or]
                exact ⟨hmountNe, hstrip.mpr hpath, hfieldNe⟩
  · rw [if_neg hscheme]
    refine iff_of_false nofun ?_
    rintro ⟨mount, path, field, hparts, -⟩
    exact hscheme ⟨_, hparts.eq.symm⟩

/-- **A runner** wants trimmed parts, and one `#`. -/
theorem Sdk.parseVaultRef_eq_some {r : VaultRef CodePoint} :
    (Sdk.parseVaultRef unicode (codePoints ref)).toOption = some r ↔
      ∃ mount path field, Parts ref mount path field ∧
        (Trimmed mount ∧ Trimmed path ∧ Trimmed field ∧ (0x23 : UInt16) ∉ field) ∧
          r = VaultRef.map codePoints ⟨mount, strip (fun u => decide (u = 0x2F)) path, field⟩ := by
  have hhash : isSurrogate 0x23 = false := by decide
  have hslash : isSurrogate 0x2F = false := by decide
  have hmalformed : ∀ {mount path field : Text},
      ((∃ part ∈ [codePoints mount, codePoints path, codePoints field], part ≠ strip isSpace part) ∨
        .unit 0x23 ∈ codePoints field) ↔
        ¬ (Trimmed mount ∧ Trimmed path ∧ Trimmed field ∧ (0x23 : UInt16) ∉ field) := by
    intro mount path field
    have htrim : ∀ part : Text, codePoints part ≠ strip isSpace (codePoints part) ↔ ¬ Trimmed part :=
      fun part => not_congr eq_comm
    simp only [List.mem_cons, List.not_mem_nil, or_false, or_and_right, exists_or, exists_eq_left, htrim,
      mem_codePoints hhash]
    tauto
  unfold Sdk.parseVaultRef
  dsimp only
  by_cases hscheme : ContextLayer.VAULT_SCHEME <+: ref
  · obtain ⟨body, rfl⟩ := hscheme
    rw [if_pos (scheme_starts.mpr (List.prefix_append _ _)), codePoints_scheme, List.drop_left,
      codePoints_cut hhash]
    cases hcut : cut 0x23 body with
    | none =>
        refine iff_of_false nofun ?_
        rintro ⟨mount, path, field, hparts, -⟩
        obtain ⟨⟨location, hlocation, -⟩, -⟩ := parts_iff.mp hparts
        rw [hcut] at hlocation
        cases hlocation
    | some found =>
        obtain ⟨location, field⟩ := found
        rw [Option.map_some]
        dsimp only
        rw [codePoints_cut hslash]
        cases hmount : cut 0x2F location with
        | none =>
            rw [Option.map_none, Option.getD_none, if_pos (.inr (.inl rfl))]
            refine iff_of_false nofun ?_
            rintro ⟨mount, path, field', hparts, -⟩
            obtain ⟨⟨location', hlocation, hmount'⟩, -⟩ := parts_iff.mp hparts
            rw [hcut] at hlocation
            obtain ⟨rfl, rfl⟩ := Prod.mk.inj (Option.some.inj hlocation)
            rw [hmount] at hmount'
            cases hmount'
        | some parts =>
            obtain ⟨mount, path⟩ := parts
            rw [Option.map_some, Option.getD_some]
            dsimp only
            have hnil : (codePoints mount = [] ∨ codePoints path = [] ∨ codePoints field = []) ↔
                (mount = [] ∨ path = [] ∨ field = []) := by
              rw [codePoints_eq_nil, codePoints_eq_nil, codePoints_eq_nil]
            constructor
            · intro h
              by_cases hempty : mount = [] ∨ path = [] ∨ field = []
              · rw [if_pos (hnil.mpr hempty)] at h
                cases h
              · rw [if_neg (hnil.not.mpr hempty)] at h
                by_cases hbad : (∃ part ∈ [codePoints mount, codePoints path, codePoints field],
                    part ≠ strip isSpace part) ∨ .unit 0x23 ∈ codePoints field
                · rw [if_pos hbad] at h
                  cases h
                · rw [if_neg hbad] at h
                  simp only [not_or] at hempty
                  refine ⟨mount, path, field, parts_iff.mpr ⟨⟨location, hcut, hmount⟩, hempty⟩,
                    not_not.mp (hmalformed.not.mp hbad), ?_⟩
                  rw [← Option.some.inj h, VaultRef.map, codePoints_strip hslash]
            · rintro ⟨mount', path', field', hparts, hclean, rfl⟩
              obtain ⟨⟨location', hlocation, hmount'⟩, hmountNe, hpathNe, hfieldNe⟩ := parts_iff.mp hparts
              rw [hcut] at hlocation
              obtain ⟨rfl, rfl⟩ := Prod.mk.inj (Option.some.inj hlocation)
              rw [hmount] at hmount'
              obtain ⟨rfl, rfl⟩ := Prod.mk.inj (Option.some.inj hmount')
              have hempty : ¬ (mount = [] ∨ path = [] ∨ field = []) := by
                rw [not_or, not_or]
                exact ⟨hmountNe, hpathNe, hfieldNe⟩
              rw [if_neg (hnil.not.mpr hempty), if_neg (hmalformed.not.mpr (not_not.mpr hclean)), VaultRef.map,
                codePoints_strip hslash]
              rfl
  · rw [if_neg fun h => hscheme (scheme_starts.mp h)]
    refine iff_of_false nofun ?_
    rintro ⟨mount, path, field, hparts, -⟩
    exact hscheme ⟨_, hparts.eq.symm⟩

/-! ### Agreement -/

/-- The core accepts a reference of given parts exactly when its path is more than slashes. -/
theorem parseVaultRef_parts {mount path field : Text} (h : Parts ref mount path field) :
    (parseVaultRef ref).toOption.isSome ↔ ∃ u ∈ path, u ≠ 0x2F := by
  rw [Option.isSome_iff_exists]
  constructor
  · rintro ⟨r, hr⟩
    obtain ⟨mount', path', field', hparts, hpath, -⟩ := parseVaultRef_eq_some.mp hr
    obtain ⟨-, rfl, -⟩ := h.unique hparts
    exact hpath
  · exact fun hpath => ⟨_, parseVaultRef_eq_some.mpr ⟨mount, path, field, h, hpath, rfl⟩⟩

theorem Sdk.parseVaultRef_parts {mount path field : Text} (h : Parts ref mount path field) :
    (Sdk.parseVaultRef unicode (codePoints ref)).toOption.isSome ↔
      Trimmed mount ∧ Trimmed path ∧ Trimmed field ∧ (0x23 : UInt16) ∉ field := by
  rw [Option.isSome_iff_exists]
  constructor
  · rintro ⟨r, hr⟩
    obtain ⟨mount', path', field', hparts, hclean, -⟩ := Sdk.parseVaultRef_eq_some.mp hr
    obtain ⟨rfl, rfl, rfl⟩ := h.unique hparts
    exact hclean
  · exact fun hclean => ⟨_, Sdk.parseVaultRef_eq_some.mpr ⟨mount, path, field, h, hclean, rfl⟩⟩

theorem unmistakable_of_oneGrammar (h : OneGrammar unicode ref) : Unmistakable ref where
  parts mount path field hparts := by
    have hrunner : (Sdk.parseVaultRef unicode (codePoints ref)).toOption.isSome ↔ _ :=
      Sdk.parseVaultRef_parts hparts
    rw [← parseVaultRef_parts hparts, ← hrunner, h.parsers, Option.isSome_map]
  form hform hscheme := by
    obtain ⟨r, hr⟩ := Option.isSome_iff_exists.mp (h.form hform hscheme).1
    obtain ⟨mount, path, field, hparts, hpath, -⟩ := parseVaultRef_eq_some.mp hr
    exact ⟨mount, path, field, hparts, hpath⟩

theorem oneGrammar_of_unmistakable (h : Unmistakable ref) : OneGrammar unicode ref where
  parsers := by
    ext r
    rw [Sdk.parseVaultRef_eq_some, Option.map_eq_some_iff]
    constructor
    · rintro ⟨mount, path, field, hparts, hclean, rfl⟩
      exact ⟨_, parseVaultRef_eq_some.mpr
        ⟨mount, path, field, hparts, (h.parts mount path field hparts).mpr hclean, rfl⟩, rfl⟩
    · rintro ⟨r, hr, rfl⟩
      obtain ⟨mount, path, field, hparts, hpath, rfl⟩ := parseVaultRef_eq_some.mp hr
      exact ⟨mount, path, field, hparts, (h.parts mount path field hparts).mp hpath, rfl⟩
  form hform hscheme := by
    obtain ⟨mount, path, field, hparts, hpath⟩ := h.form hform hscheme
    exact ⟨(parseVaultRef_parts hparts).mpr hpath,
      (Sdk.parseVaultRef_parts hparts).mpr ((h.parts mount path field hparts).mp hpath)⟩

/-- **One grammar**, exactly where no reader is mistaken about the parts. -/
theorem oneGrammar_iff (unicode : Unicode) (ref : Text) : OneGrammar unicode ref ↔ Unmistakable ref :=
  ⟨unmistakable_of_oneGrammar, oneGrammar_of_unmistakable⟩

/-- A path of slashes is none for the core, and for a runner it is the root of the mount. -/
theorem not_oneGrammar_slashes : ¬ ∀ (unicode : Unicode) (ref : Text), OneGrammar unicode ref := by
  intro hall
  have hparsers := (hall asciiOnly (js "vault://secret//#dsn")).parsers
  have hcore : (parseVaultRef (js "vault://secret//#dsn")).toOption.isSome = false := by decide
  have hrunner : (Sdk.parseVaultRef asciiOnly (codePoints (js "vault://secret//#dsn"))).toOption.isSome = true := by
    decide
  rw [hparsers, Option.isSome_map, hcore] at hrunner
  cases hrunner

end ContextLayer
