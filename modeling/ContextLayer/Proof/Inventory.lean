import ContextLayer.Inventory
import ContextLayer.Proof.Scan

/-!
# When a name finds its object

Names joined with dots are told apart unless one schema is another followed by a dot and the start of a
name. Kinds apart, nothing else makes two objects one entry.
-/

namespace ContextLayer

open Text StableSort

/-! ### Joined names -/

/-- A dot splits a text in one way, or where one part goes on in the other. -/
theorem append_dot_eq_iff {a b c d : PyStr} : a ++ py "." ++ b = c ++ py "." ++ d ↔
    (a = c ∧ b = d) ∨ (∃ part, c = a ++ py "." ++ part ∧ b = part ++ py "." ++ d) ∨
      ∃ part, a = c ++ py "." ++ part ∧ d = part ++ py "." ++ b := by
  have hdot : py "." = [.unit 0x2E] := by decide
  rw [hdot]
  constructor
  · intro h
    rw [List.append_assoc, List.append_assoc, List.append_eq_append_iff] at h
    obtain ⟨rest, rfl, h⟩ | ⟨rest, rfl, h⟩ := h
    · cases rest with
      | nil => exact .inl ⟨(List.append_nil a).symm, (List.cons.inj h).2⟩
      | cons p part =>
          obtain ⟨rfl, rfl⟩ := List.cons.inj h
          exact .inr (.inl ⟨part, by simp, by simp⟩)
    · cases rest with
      | nil => exact .inl ⟨List.append_nil c, (List.cons.inj h).2.symm⟩
      | cons p part =>
          obtain ⟨rfl, rfl⟩ := List.cons.inj h
          exact .inr (.inr ⟨part, by simp, by simp⟩)
  · rintro (⟨rfl, rfl⟩ | ⟨part, rfl, rfl⟩ | ⟨part, rfl, rfl⟩)
    · rfl
    · simp
    · simp

theorem Naming.fqn_eq_iff {system schema name schema' name' : PyStr} :
    fqn system schema name = fqn system schema' name' ↔
      schema ++ py "." ++ name = schema' ++ py "." ++ name' := by
  simp only [fqn, List.append_assoc, List.append_cancel_left_eq]

namespace Snapshot

variable {s : Snapshot}

theorem identity_eq_of_fqn (h : s.NamesApart) {o o' : SourceObject} (ho : o ∈ s.objects)
    (ho' : o' ∈ s.objects) (heq : s.fqnOf o = s.fqnOf o') : o.identity = o'.identity := by
  obtain ⟨hschema, hname⟩ | ⟨part, hschema, hname⟩ | ⟨part, hschema, hname⟩ :=
    append_dot_eq_iff.mp (Naming.fqn_eq_iff.mp heq)
  · rw [SourceObject.identity, SourceObject.identity, h.kind o ho o' ho' hschema hname, hschema, hname]
  · exact absurd hname (h.dots o ho o' ho' part hschema)
  · exact absurd hname (h.dots o' ho' o ho part hschema)

theorem namesApart_of_fqn (h : ∀ o ∈ s.objects, ∀ o' ∈ s.objects, o.identity ≠ o'.identity →
    s.fqnOf o ≠ s.fqnOf o') : s.NamesApart := by
  have hidentity : ∀ o ∈ s.objects, ∀ o' ∈ s.objects, s.fqnOf o = s.fqnOf o' →
      o.identity = o'.identity := by
    intro o ho o' ho' heq
    by_contra hne
    exact h o ho o' ho' hne heq
  constructor
  · intro o ho o' ho' hschema hname
    refine congrArg Prod.fst (hidentity o ho o' ho' ?_)
    rw [fqnOf, fqnOf, hschema, hname]
  · intro o ho o' ho' part hschema hname
    have heq := hidentity o ho o' ho'
      (Naming.fqn_eq_iff.mpr (append_dot_eq_iff.mpr (.inr (.inl ⟨part, hschema, hname⟩))))
    have hsame : o.schema = o'.schema := congrArg (fun i => i.2.1) heq
    rw [hsame] at hschema
    have hlength := congrArg List.length hschema
    have hdot : (py ".").length = 1 := by decide
    rw [List.length_append, List.length_append, hdot] at hlength
    omega

/-! ### The maps -/

/-- Different objects under different names. -/
theorem nodup_map_of_fqn {α κ : Type} {l : List α} {identity : α → Identity} {key : α → κ}
    (hnodup : (l.map identity).Nodup)
    (hkey : ∀ a ∈ l, ∀ b ∈ l, key a = key b → identity a = identity b) : (l.map key).Nodup :=
  hnodup.of_map.map_on fun a ha b hb heq =>
    List.inj_on_of_nodup_map hnodup ha hb (hkey a ha b hb heq)

theorem fqn_coreObject (system : PyStr) (o : SourceObject) :
    (coreObject system o).fqn = units (Naming.fqn system o.schema o.name) := by
  have hdot : js "." = units (py ".") := by decide
  rw [SnapshotObject.fqn, Naming.fqn, units_append, units_append, units_append, units_append, hdot]
  rfl

theorem fqn_isLone (h : s.body.isEncodable = true) {o : SourceObject} (ho : o ∈ s.objects) :
    (s.fqnOf o).any CodePoint.isLone = false := by
  have hbody := PyJson.isEncodable_obj.mp h
  have hstr : ∀ {t : PyStr}, (PyJson.str t).isEncodable = true → t.any CodePoint.isLone = false := by
    intro t ht
    rwa [PyJson.isEncodable, Bool.not_eq_true'] at ht
  have hsystem : s.system.any CodePoint.isLone = false :=
    hstr (hbody (py "system", .str s.system) (by simp)).2
  have hobjects := PyJson.isEncodable_arr.mp
    (hbody (py "objects", .arr (s.objects.map SourceObject.toPy)) (by simp)).2
  have hobject := PyJson.isEncodable_obj.mp (hobjects o.toPy (List.mem_map_of_mem ho))
  have hschema : o.schema.any CodePoint.isLone = false :=
    hstr (hobject (py "schema", .str o.schema) (by simp)).2
  have hname : o.name.any CodePoint.isLone = false :=
    hstr (hobject (py "name", .str o.name) (by simp)).2
  have hdot : (py ".").any CodePoint.isLone = false := by decide
  simp only [fqnOf, Naming.fqn, List.any_append, hsystem, hschema, hname, hdot, Bool.or_false]

section

variable (hnodup : (s.objects.map SourceObject.identity).Nodup) (h : s.NamesApart)

include hnodup h

theorem coreObjects_eq (hencodable : s.body.isEncodable = true) : coreObjects s =
    s.objects.map fun o => ((coreObject s.system o).fqn, coreObject s.system o) := by
  refine Dict.ofList_eq_self ?_
  rw [List.map_map]
  refine nodup_map_of_fqn hnodup fun o ho o' ho' heq => ?_
  simp only [Function.comp_apply, fqn_coreObject] at heq
  exact identity_eq_of_fqn h ho ho'
    (units_inj (fqn_isLone hencodable ho) (fqn_isLone hencodable ho') heq)

theorem byKey_eq : (inventory s).byKey = s.relations.map fun o => ((o.schema, o.name), o) := by
  refine Dict.ofList_eq_self ?_
  rw [List.map_map]
  refine nodup_map_of_fqn (hnodup.sublist (List.filter_sublist.map _)) fun o ho o' ho' heq => ?_
  obtain ⟨hschema, hname⟩ := Prod.mk.inj heq
  have hmem := (List.mem_filter.mp ho).1
  have hmem' := (List.mem_filter.mp ho').1
  rw [SourceObject.identity, SourceObject.identity, h.kind o hmem o' hmem' hschema hname, hschema,
    hname]

omit hnodup in
theorem classify_eq {diff : Diff.SnapshotDiff} (hsystem : diff.system = s.system)
    (hdistinct : ((diff.removed ++ diff.changedStructural).map Diff.ObjectDiff.identity).Nodup)
    (hold : ∀ d ∈ diff.removed ++ diff.changedStructural,
      d.identity ∈ s.objects.map SourceObject.identity) :
    (Scan.classify [diff]).breaking = Scan.breakingOf diff ∧
      (Scan.classify [diff]).additive = Scan.additiveOf diff ∧
        ∀ fqn ∈ (Scan.breakingOf diff).map Prod.fst, fqn ∉ (Scan.additiveOf diff).map Prod.fst := by
  have hfqn : ((diff.removed ++ diff.changedStructural).map (Scan.objectFqn diff.system)).Nodup := by
    refine nodup_map_of_fqn hdistinct fun d hd d' hd' heq => ?_
    obtain ⟨o, ho, hid⟩ := List.mem_map.mp (hold d hd)
    obtain ⟨o', ho', hid'⟩ := List.mem_map.mp (hold d' hd')
    rw [← hid, ← hid']
    refine identity_eq_of_fqn h ho ho' ?_
    rw [Scan.objectFqn, Scan.objectFqn, ← hid, ← hid', hsystem] at heq
    exact heq
  rw [List.map_append, List.nodup_append] at hfqn
  obtain ⟨hremoved, hchanged, hapart⟩ := hfqn
  have hbreaking : ((Scan.breakingOf diff).map Prod.fst) =
      diff.removed.map (Scan.objectFqn diff.system) ++
        (diff.changedStructural.filter fun d => d.severity = some .breaking).map
          (Scan.objectFqn diff.system) := by
    rw [Scan.breakingOf, List.map_append, List.map_map, List.map_map]
    rfl
  have hadditive : ((Scan.additiveOf diff).map Prod.fst) =
      (diff.changedStructural.filter fun d => d.severity ≠ some .breaking).map
        (Scan.objectFqn diff.system) := by
    rw [Scan.additiveOf, List.map_map]
    rfl
  have hclassify : (Scan.classify [diff]).breaking = Dict.ofList (Scan.breakingOf diff) ∧
      (Scan.classify [diff]).additive = Dict.ofList (Scan.additiveOf diff) := by
    simp [Scan.classify]
  rw [hclassify.1, hclassify.2]
  refine ⟨?_, ?_, ?_⟩
  · refine Dict.ofList_eq_self ?_
    rw [hbreaking]
    refine List.nodup_append.mpr ⟨hremoved, hchanged.sublist (List.filter_sublist.map _), ?_⟩
    exact fun a ha b hb => hapart a ha b ((List.filter_sublist.map _).subset hb)
  · refine Dict.ofList_eq_self ?_
    rw [hadditive]
    exact hchanged.sublist (List.filter_sublist.map _)
  · intro fqn hfqn hfqn'
    rw [hbreaking, List.mem_append] at hfqn
    rw [hadditive] at hfqn'
    obtain ⟨d', hd', rfl⟩ := List.mem_map.mp hfqn'
    rw [List.mem_filter, decide_eq_true_eq] at hd'
    obtain hmem | hmem := hfqn
    · exact hapart _ hmem _ (List.mem_map_of_mem hd'.1) rfl
    · obtain ⟨d, hd, heq⟩ := List.mem_map.mp hmem
      rw [List.mem_filter, decide_eq_true_eq] at hd
      rw [List.inj_on_of_nodup_map hchanged hd.1 hd'.1 heq] at hd
      exact hd'.2 hd.2

end

/-- **No object is lost** exactly where the names are apart. -/
theorem keepsEveryObject_iff {sha256 : List UInt8 → PyStr} {checkHashes : Bool}
    (h : s.IsAccepted sha256 checkHashes) : s.KeepsEveryObject ↔ s.NamesApart := by
  constructor
  · exact fun hkeeps => namesApart_of_fqn hkeeps.fqn
  · intro hapart
    constructor
    · exact fun o ho o' ho' hne heq => hne (identity_eq_of_fqn hapart ho ho' heq)
    · exact coreObjects_eq h.nodup hapart
    · exact byKey_eq h.nodup hapart
    · exact fun diff => classify_eq hapart

theorem keepsEveryObject_orders :
    let s := demoSnapshot [ordersTable []]
    s.NamesApart ∧ (s.KeepsEveryObject ↔ s.NamesApart) := by
  have haccepted : (demoSnapshot [ordersTable []]).IsAccepted (fun _ => []) false := ⟨_, rfl, rfl⟩
  refine ⟨⟨fun o ho o' ho' _ _ => ?_, fun o ho o' ho' part hschema => ?_⟩,
    keepsEveryObject_iff haccepted⟩
  · rw [List.mem_singleton.mp ho, List.mem_singleton.mp ho']
  · obtain rfl := List.mem_singleton.mp ho
    obtain rfl := List.mem_singleton.mp ho'
    have hlength := congrArg List.length hschema
    have hdot : (py ".").length = 1 := by decide
    rw [List.length_append, List.length_append, hdot] at hlength
    omega

/-- The table `eu.orders` of the schema `sales` and the table `orders` of the schema `sales.eu`. -/
def salesTable (schema name : PyStr) (hschema : schema ≠ []) (hname : name ≠ []) : SourceObject :=
  { ordersTable [] with schema, name, schema_ne := hschema, name_ne := hname }

theorem not_keepsEveryObject_dots :
    ¬ ∀ (sha256 : List UInt8 → PyStr) (s : Snapshot), s.IsAccepted sha256 false →
      s.KeepsEveryObject := by
  intro hlaw
  have haccepted : (demoSnapshot [salesTable (py "sales") (py "eu.orders") (by decide) (by decide),
      salesTable (py "sales.eu") (py "orders") (by decide) (by decide)]).IsAccepted
        (fun _ => []) false := ⟨_, rfl, rfl⟩
  exact (hlaw _ _ haccepted).fqn _ List.mem_cons_self _ (List.mem_cons_of_mem _ List.mem_cons_self)
    (by decide) (by decide)

end Snapshot

end ContextLayer
