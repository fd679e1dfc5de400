import ContextLayer.Profiles
import ContextLayer.Lib.Lines
import Mathlib.Data.List.TakeWhile

/-!
# What the entries of a profile grant

Entry by entry a grant is added and none is taken back, so neither the order of the entries nor a second mention of
one matters. What an entry grants is what it says as long as no text is dropped from it.
-/

namespace ContextLayer

open Text

/-- The text up to the second separator of an entry. -/
def qualifierOf (rest : Text) : Text := rest.takeWhile (· ≠ 0x3A)

/-- What an entry grants, as it is read. -/
def Grants (entry tool : Text) (q : Option Text) : Prop :=
  ∃ rest, entry.splitOn 0x3A = tool :: rest ∧ tool ≠ [] ∧
    ∀ qualifier, rest.head?.filter (· ≠ []) = some qualifier → q = some qualifier

/-- What a map of grants permits. -/
def Permits (allow : List (Text × Option (List Text))) (tool : Text) (q : Option Text) : Prop :=
  ∃ granted, Dict.get? allow tool = some granted ∧ ∀ qualifiers, granted = some qualifiers → ∃ qualifier ∈ qualifiers,
    q = some qualifier

theorem allowed_iff_permits {profile : AgentProfile} {tool : Text} {q : Option Text} :
    (toolAllowed profile tool q).allowed = true ↔ Permits profile.allow tool q := by
  unfold toolAllowed Permits
  cases Dict.get? profile.allow tool with
  | none => simp
  | some granted =>
      cases granted with
      | none => simp
      | some qualifiers =>
          cases q with
          | none => simp
          | some qualifier => by_cases hmem : qualifier ∈ qualifiers <;> simp [hmem]

theorem permits_set {allow : List (Text × Option (List Text))} {tool tool' : Text} {granted : Option (List Text)}
    {q : Option Text} : Permits (Dict.set allow tool granted) tool' q ↔
      if tool = tool' then ∀ qualifiers, granted = some qualifiers → ∃ qualifier ∈ qualifiers, q = some qualifier
      else Permits allow tool' q := by
  unfold Permits
  rw [Dict.get?_set]
  by_cases htool : tool = tool'
  · simp [htool]
  · simp [htool]

theorem grants_iff_of_splitOn {entry tool₀ tool : Text} {rest : List Text} {q : Option Text}
    (h : entry.splitOn 0x3A = tool₀ :: rest) : Grants entry tool q ↔
      tool₀ = tool ∧ tool ≠ [] ∧ ∀ qualifier, rest.head?.filter (· ≠ []) = some qualifier → q = some qualifier := by
  unfold Grants
  rw [h]
  constructor
  · rintro ⟨rest', heq, hrest⟩
    obtain ⟨rfl, rfl⟩ := List.cons.inj heq
    exact ⟨rfl, hrest⟩
  · rintro ⟨rfl, hrest⟩
    exact ⟨rest, rfl, hrest⟩

/-- An entry adds what it grants. -/
theorem permits_addGrant {allow : List (Text × Option (List Text))} {entry tool : Text} {q : Option Text} :
    Permits (addGrant allow entry) tool q ↔ Permits allow tool q ∨ Grants entry tool q := by
  cases hsplit : entry.splitOn 0x3A with
  | nil => exact absurd hsplit (List.splitOn_ne_nil _ _)
  | cons tool₀ rest =>
      rw [grants_iff_of_splitOn hsplit, addGrant, hsplit]
      dsimp only
      by_cases hnil : tool₀ = []
      · rw [if_pos hnil]
        exact ⟨.inl, fun h => h.resolve_right fun hgrants => hgrants.2.1 (hgrants.1 ▸ hnil)⟩
      · rw [if_neg hnil]
        by_cases htool : tool₀ = tool
        · subst htool
          cases hq : rest.head?.filter (· ≠ []) with
          | none =>
              rcases hget : Dict.get? allow tool₀ with _ | _ | existing
              · simp [permits_set, hnil]
              · simp [Permits, hget]
              · simp [permits_set, hnil]
          | some qualifier =>
              rcases hget : Dict.get? allow tool₀ with _ | _ | existing
              · simp [hnil, Permits, hget]
              · simp [Permits, hget]
              · simp [hnil, Permits, hget, or_and_right, exists_or]
        · have hkept : ∀ granted, Permits (Dict.set allow tool₀ granted) tool q ↔ Permits allow tool q := by
            intro granted
            rw [permits_set, if_neg htool]
          rw [or_iff_left fun hgrants => htool hgrants.1]
          split
          · exact Iff.rfl
          · exact hkept _
          · exact hkept _
          · exact Iff.rfl
          · exact hkept _

theorem permits_foldl {entries : List Text} {allow : List (Text × Option (List Text))} {tool : Text}
    {q : Option Text} : Permits (entries.foldl addGrant allow) tool q ↔
      Permits allow tool q ∨ ∃ entry ∈ entries, Grants entry tool q := by
  induction entries generalizing allow with
  | nil => simp
  | cons entry entries ih =>
      rw [List.foldl_cons, ih, permits_addGrant, or_assoc, List.exists_mem_cons_iff]

/-- What a profile allows is what one of its entries grants. -/
theorem allowed_iff_grants {name : Text} {raw : List (Text × Json)} {tool : Text} {q : Option Text} :
    (toolAllowed (parseProfile name raw) tool q).allowed = true ↔
      ∃ entry ∈ grantEntries raw, Grants entry tool q := by
  rw [allowed_iff_permits, parseProfile, permits_foldl]
  exact or_iff_right fun ⟨granted, hget, _⟩ => by cases hget

/-! ### Entries in words -/

/-- The name of a tool: there is one, and it has no separator. -/
def IsToolName (tool : Text) : Prop := tool ≠ [] ∧ 0x3A ∉ tool

/-- Some entry is the tool, or the tool with the qualifier that is asked for. -/
def EntryFor (entries : List Text) (tool : Text) (q : Option Text) : Prop :=
  tool ∈ entries ∨ ∃ qualifier, q = some qualifier ∧ tool ++ 0x3A :: qualifier ∈ entries

/-- An entry with a qualifier has one without a separator, unless the tool is granted anyway. -/
def Qualified (entries : List Text) : Prop :=
  ∀ tool rest, IsToolName tool → tool ++ 0x3A :: rest ∈ entries → tool ∈ entries ∨ (rest ≠ [] ∧ 0x3A ∉ rest)

theorem head?_splitOn (rest : Text) : (rest.splitOn 0x3A).head? = some (qualifierOf rest) := by
  unfold qualifierOf
  induction rest with
  | nil => rfl
  | cons u rest ih =>
      rw [List.splitOn_cons_eq_if_modifyHead]
      by_cases hu : u = 0x3A
      · simp [hu]
      · simp [hu, ih]

theorem grants_iff {entry tool : Text} {q : Option Text} (htool : IsToolName tool) : Grants entry tool q ↔
    entry = tool ∨ ∃ rest, entry = tool ++ 0x3A :: rest ∧ (qualifierOf rest = [] ∨ q = some (qualifierOf rest)) := by
  have hbare : tool.splitOn 0x3A = [tool] := List.splitOn_eq_singleton htool.2
  have hlong (rest : Text) : (tool ++ 0x3A :: rest).splitOn 0x3A = tool :: rest.splitOn 0x3A :=
    List.splitOn_append_cons_self_of_not_mem htool.2 rest
  have hhead (rest : Text) (qualifier : Text) :
      (rest.splitOn 0x3A).head?.filter (· ≠ []) = some qualifier ↔
        qualifierOf rest ≠ [] ∧ qualifierOf rest = qualifier := by
    rw [head?_splitOn, Option.filter_some]
    by_cases hnil : qualifierOf rest = [] <;> simp [hnil]
  constructor
  · rintro ⟨rest, hsplit, -, hq⟩
    have hentry : List.intercalate [0x3A] (entry.splitOn 0x3A) = entry := List.intercalate_splitOn 0x3A
    rw [hsplit] at hentry
    cases rest with
    | nil => exact .inl (by rw [← hentry, List.intercalate_singleton])
    | cons piece pieces =>
        rw [List.intercalate_cons_cons, List.append_assoc, List.singleton_append] at hentry
        set behind := List.intercalate [0x3A] (piece :: pieces) with hbehind
        rw [← hentry, hlong behind] at hsplit
        refine .inr ⟨behind, hentry.symm, or_iff_not_imp_left.mpr fun hne => ?_⟩
        rw [← (List.cons.inj hsplit).2] at hq
        exact hq _ ((hhead behind _).mpr ⟨hne, rfl⟩)
  · rintro (rfl | ⟨rest, rfl, hq⟩)
    · exact (grants_iff_of_splitOn hbare).mpr ⟨rfl, htool.1, fun _ hnone => by cases hnone⟩
    · refine (grants_iff_of_splitOn (hlong rest)).mpr ⟨rfl, htool.1, fun qualifier hqualifier => ?_⟩
      obtain ⟨hne, rfl⟩ := (hhead rest qualifier).mp hqualifier
      exact hq.resolve_left hne

theorem qualifierOf_eq_self {rest : Text} : qualifierOf rest = rest ↔ 0x3A ∉ rest := by
  rw [qualifierOf, List.takeWhile_eq_self_iff]
  constructor
  · intro h hmem
    simpa using h 0x3A hmem
  · intro h u hu
    rw [decide_eq_true_eq]
    exact fun heq => h (heq ▸ hu)

theorem notMem_qualifierOf (rest : Text) : 0x3A ∉ qualifierOf rest :=
  fun hmem => by simpa using List.mem_takeWhile_imp hmem

/-- **What is granted is what is listed**, for every tool and every qualifier, if and only if no entry has its
qualifier cut short or left empty. In any order, and with more entries, no less is granted. -/
theorem toolAllowed_listed_iff (name : Text) (raw : List (Text × Json)) :
    ((∀ tool, IsToolName tool → ∀ q, (toolAllowed (parseProfile name raw) tool q).allowed = true ↔
        EntryFor (grantEntries raw) tool q) ↔ Qualified (grantEntries raw)) ∧
    (∀ name' raw', (grantEntries raw).Perm (grantEntries raw') → ∀ tool q,
      (toolAllowed (parseProfile name' raw') tool q).allowed = (toolAllowed (parseProfile name raw) tool q).allowed) ∧
    ∀ name' raw', grantEntries raw ⊆ grantEntries raw' → ∀ tool q,
      (toolAllowed (parseProfile name raw) tool q).allowed = true →
        (toolAllowed (parseProfile name' raw') tool q).allowed = true := by
  have hsubset : ∀ name' raw', grantEntries raw ⊆ grantEntries raw' → ∀ tool q,
      (toolAllowed (parseProfile name raw) tool q).allowed = true →
        (toolAllowed (parseProfile name' raw') tool q).allowed = true := by
    intro name' raw' hentries tool q hallowed
    obtain ⟨entry, hentry, hgrants⟩ := allowed_iff_grants.mp hallowed
    exact allowed_iff_grants.mpr ⟨entry, hentries hentry, hgrants⟩
  refine ⟨⟨fun hexact => ?_, fun hqualified => ?_⟩, fun name' raw' hperm tool q => ?_, hsubset⟩
  · intro tool rest htool hrest
    by_contra hbad
    obtain ⟨hbare, hcut⟩ := not_or.mp hbad
    have hunqualified : ¬ ∃ entry ∈ grantEntries raw, Grants entry tool none := by
      intro hgrants
      rcases (hexact tool htool none).mp (allowed_iff_grants.mpr hgrants) with hlisted | ⟨qualifier, hnone, -⟩
      · exact hbare hlisted
      · cases hnone
    have hlisted : EntryFor (grantEntries raw) tool (some rest) := .inr ⟨rest, rfl, hrest⟩
    obtain ⟨entry, hentry, hgrants⟩ := allowed_iff_grants.mp ((hexact tool htool (some rest)).mpr hlisted)
    rcases (grants_iff htool).mp hgrants with rfl | ⟨rest', rfl, hempty | hsame⟩
    · exact hbare hentry
    · exact hunqualified ⟨_, hentry, (grants_iff htool).mpr (.inr ⟨rest', rfl, .inl hempty⟩)⟩
    · have hsep : 0x3A ∉ rest := by
        rw [Option.some.inj hsame]
        exact notMem_qualifierOf rest'
      have hnil : rest = [] := not_not.mp fun hne => hcut ⟨hne, hsep⟩
      subst hnil
      exact hunqualified ⟨_, hrest, (grants_iff htool).mpr (.inr ⟨[], rfl, .inl rfl⟩)⟩
  · intro tool htool q
    rw [allowed_iff_grants]
    constructor
    · rintro ⟨entry, hentry, hgrants⟩
      rcases (grants_iff htool).mp hgrants with rfl | ⟨rest, rfl, hq⟩
      · exact .inl hentry
      · rcases hqualified tool rest htool hentry with hbare | ⟨hne, hsep⟩
        · exact .inl hbare
        · rw [qualifierOf_eq_self.mpr hsep] at hq
          exact .inr ⟨rest, hq.resolve_left hne, hentry⟩
    · rintro (hbare | ⟨qualifier, rfl, hentry⟩)
      · exact ⟨tool, hbare, (grants_iff htool).mpr (.inl rfl)⟩
      · rcases hqualified tool qualifier htool hentry with hbare | ⟨-, hsep⟩
        · exact ⟨tool, hbare, (grants_iff htool).mpr (.inl rfl)⟩
        · exact ⟨_, hentry, (grants_iff htool).mpr
            (.inr ⟨qualifier, rfl, .inr (by rw [qualifierOf_eq_self.mpr hsep])⟩)⟩
  · rw [Bool.eq_iff_iff, allowed_iff_grants, allowed_iff_grants]
    exact exists_congr fun entry => and_congr_left fun _ => hperm.mem_iff.symm

/-- A profile of this one entry. -/
def profileOf (entry : String) : List (Text × Json) :=
  [(js "tools", .obj [(js "allow", .arr [.str (js entry)])])]

theorem grantEntries_profileOf (entry : String) : grantEntries (profileOf entry) = [js entry] := by
  simp [grantEntries, profileOf, member, Json.field, Dict.get?, Json.asString]

/-- The grant of a target `ws:prod` is one of a target `ws`. -/
theorem toolAllowed_cutsQualifier :
    (toolAllowed (parseProfile (js "report") (profileOf "publish_report:ws:prod")) (js "publish_report")
      (some (js "ws"))).allowed = true ∧
    ¬ EntryFor (grantEntries (profileOf "publish_report:ws:prod")) (js "publish_report") (some (js "ws")) ∧
    (toolAllowed (parseProfile (js "report") (profileOf "publish_report:ws:prod")) (js "publish_report")
      (some (js "ws:prod"))).allowed = false ∧
    EntryFor (grantEntries (profileOf "publish_report:ws:prod")) (js "publish_report") (some (js "ws:prod")) := by
  rw [grantEntries_profileOf]
  refine ⟨by decide +kernel, ?_, by decide +kernel, .inr ⟨js "ws:prod", rfl, by decide⟩⟩
  rintro (hbare | ⟨qualifier, hq, hentry⟩)
  · exact absurd hbare (by decide)
  · cases hq
    exact absurd hentry (by decide)

end ContextLayer
