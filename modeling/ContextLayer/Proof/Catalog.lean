import ContextLayer.Catalog
import ContextLayer.Lib.Pointwise

/-!
# Introspection sees the logical schema

What an object has of a relation is a function of the rows with its OID, taken without their order: columns by the order
of their numbers, definitions and keys sorted by what they say. An injective renumbering keeps the rows of a relation
together and apart from all others.
-/

namespace ContextLayer.Catalog

open StableSort Pointwise

/-! ### Rows under an OID -/

section Rows

variable {α β : Type}

/-- What the rows with an OID have. -/
def rowsAt (rows : List (Nat × α)) (oid : Nat) : List α :=
  (rows.filter fun row => decide (row.1 = oid)).map Prod.snd

theorem get?_groupRows (rows : List (Nat × α)) (oid : Nat) :
    Dict.get? (groupRows rows) oid = if rowsAt rows oid = [] then none else some (rowsAt rows oid) := by
  have hfold : ∀ (l : List (Nat × α)) (values : Option (List α)),
      l.foldl (fun v row => some (v.getD [] ++ [row.2])) values =
        if l = [] then values else some (values.getD [] ++ l.map Prod.snd) := by
    intro l
    induction l with
    | nil => exact fun values => rfl
    | cons row rest ih =>
        intro values
        rw [List.foldl_cons, ih, if_neg (List.cons_ne_nil _ _)]
        by_cases hrest : rest = []
        · rw [if_pos hrest, hrest]
          rfl
        · rw [if_neg hrest, Option.getD_some, List.append_assoc]
          rfl
  rw [groupRows, Dict.get?_collect, hfold, rowsAt]
  by_cases hnil : (rows.filter fun row => decide (row.1 = oid)) = []
  · rw [if_pos hnil, hnil, List.map_nil, if_pos rfl]
    rfl
  · rw [if_neg hnil, if_neg (by simpa using hnil)]
    rfl

theorem rowsAt_renumber {f : Nat → Nat} (hf : Function.Injective f) (h : β → α) {rows : List (Nat × β)}
    {rows' : List (Nat × α)} (hrows : rows'.Perm (rows.map fun row => (f row.1, h row.2))) (oid : Nat) :
    (rowsAt rows' (f oid)).Perm ((rowsAt rows oid).map h) := by
  have hperm := (hrows.filter fun row => decide (row.1 = f oid)).map Prod.snd
  refine hperm.trans (List.Perm.of_eq ?_)
  rw [rowsAt, List.filter_map, List.map_map, List.map_map]
  congr 1
  exact List.filter_congr fun row _ => decide_eq_decide.mpr hf.eq_iff

end Rows

/-! ### Columns -/

theorem map_fst_sortOn_renumber {α : Type} {g : Int → Int} {rows : List (Int × α)} {rows' : List (Int × α)}
    (hnodup : (rows.map Prod.fst).Nodup) (hg : ∀ n ∈ rows.map Prod.fst, ∀ m ∈ rows.map Prod.fst, n < m → g n < g m)
    (hrows : rows'.Perm (rows.map fun row => (g row.1, row.2))) :
    (StableSort.sortOn Prod.fst rows').map Prod.snd = (StableSort.sortOn Prod.fst rows).map Prod.snd := by
  have hmono : ∀ a ∈ rows, ∀ b ∈ rows, a.1 ≤ b.1 → g a.1 ≤ g b.1 := by
    intro a ha b hb hle
    rcases hle.lt_or_eq with hlt | heq
    · exact (hg _ (List.mem_map_of_mem ha) _ (List.mem_map_of_mem hb) hlt).le
    · rw [heq]
  have hsorted : StableSort.sortOn Prod.fst rows' =
      (StableSort.sortOn Prod.fst rows).map fun row => (g row.1, row.2) := by
    have hpairs : ((StableSort.sortOn Prod.fst rows).map fun row => (g row.1, row.2)).Pairwise
        fun a b => a.1 ≤ b.1 := by
      rw [List.pairwise_map]
      exact sortOn_pairwise.imp_of_mem fun ha hb => hmono _ (mem_sortOn.mp ha) _ (mem_sortOn.mp hb)
    rw [← sortOn_eq_self hpairs]
    refine sortOn_eq_of_perm (fun a ha b hb heq => ?_) (hrows.trans (sortOn_perm.map _).symm)
    obtain ⟨x, hx, rfl⟩ := List.mem_map.mp ha
    obtain ⟨y, hy, rfl⟩ := List.mem_map.mp hb
    have hx' := mem_sortOn.mp hx
    have hy' := mem_sortOn.mp hy
    have hxy : x.1 = y.1 := by
      by_contra hne
      rcases lt_or_gt_of_ne hne with hlt | hgt
      · exact absurd heq (hg _ (List.mem_map_of_mem hx') _ (List.mem_map_of_mem hy') hlt).ne
      · exact absurd heq.symm (hg _ (List.mem_map_of_mem hy') _ (List.mem_map_of_mem hx') hgt).ne
    rw [List.inj_on_of_nodup_map hnodup hx' hy' hxy]
  rw [hsorted, List.map_map]
  rfl

theorem numberColumns_renumber {g : Int → Int} {rows rows' : List (Int × ColumnFacts)}
    (hnodup : (rows.map Prod.fst).Nodup) (hg : ∀ n ∈ rows.map Prod.fst, ∀ m ∈ rows.map Prod.fst, n < m → g n < g m)
    (hrows : rows'.Perm (rows.map fun row => (g row.1, row.2))) : numberColumns rows' = numberColumns rows := by
  rw [numberColumns, numberColumns, map_fst_sortOn_renumber hnodup hg hrows]

/-! ### Constraints -/

/-- What a constraint is called, where it resolves. -/
def nameOf (c : Catalog) (con : ConstraintRow) : NamedConstraint :=
  ((c.nameConstraint con).map Prod.snd).getD (.unique [])

theorem keyNames_of_live {c : Catalog} {oid : Nat} {key : List Int}
    (hlive : ∀ n ∈ key, (oid, n) ∈ c.attNames.map Prod.fst) :
    ∃ names, c.keyNames oid key = some names ∧ names.length = key.length := by
  have hsome : ∀ n ∈ key, Dict.get? (Dict.ofList c.attNames) (oid, n) =
      some ((Dict.get? (Dict.ofList c.attNames) (oid, n)).getD []) := by
    intro n hn
    have hget : (Dict.get? (Dict.ofList c.attNames) (oid, n)).isSome := by
      rw [Dict.isSome_get?_ofList]
      exact List.mem_map.mp (hlive n hn)
    obtain ⟨name, hname⟩ := Option.isSome_iff_exists.mp hget
    rw [hname, Option.getD_some]
  exact ⟨_, mapM_eq_some_map hsome, List.length_map _⟩

theorem nameConstraint_eq (c : Catalog) {con : ConstraintRow} (hcon : con ∈ c.constraints) :
    c.nameConstraint con = some (con.conrelid, c.nameOf con) := by
  have hsome : ∃ named, c.nameConstraint con = some (con.conrelid, named) := by
    obtain ⟨names, hnames, -⟩ := keyNames_of_live (c.conkeyLive con hcon)
    rw [nameConstraint, hnames, Option.bind_eq_bind, Option.bind_some]
    cases htype : con.contype with
    | primary => exact ⟨_, rfl⟩
    | unique => exact ⟨_, rfl⟩
    | foreign confrelid confkey =>
        obtain ⟨hrel, hkey⟩ := c.confrelidThere con hcon confrelid confkey htype
        obtain ⟨ref, href⟩ := Option.isSome_iff_exists.mp
          (Dict.isSome_get?_ofList.mpr (List.mem_map.mp hrel))
        obtain ⟨refColumns, hrefColumns, -⟩ := keyNames_of_live hkey
        simp only [href, hrefColumns, Option.bind_eq_bind, Option.bind_some]
        exact ⟨_, rfl⟩
  obtain ⟨named, hnamed⟩ := hsome
  rw [nameOf, hnamed]
  rfl

/-! ### Keys -/

def primaryOf : NamedConstraint → Option (List PyStr)
  | .primary names => some names
  | _ => none

def uniqueOf : NamedConstraint → Option (List PyStr)
  | .unique names => some names
  | _ => none

def foreignOf : NamedConstraint → Option CatalogForeign
  | .foreign fk => some fk
  | _ => none

theorem foldl_addConstraint (named : List NamedConstraint) (keys : CatalogKeys) : named.foldl addConstraint keys =
    ⟨(named.filterMap primaryOf).getLast?.getD keys.primary, keys.unique ++ named.filterMap uniqueOf,
      keys.foreign ++ named.filterMap foreignOf⟩ := by
  induction named generalizing keys with
  | nil => simp
  | cons con rest ih =>
      rw [List.foldl_cons, ih]
      cases con with
      | primary names =>
          simp [addConstraint, List.filterMap_cons, primaryOf, uniqueOf, foreignOf, List.getLast?_cons]
      | unique names => simp [addConstraint, List.filterMap_cons, primaryOf, uniqueOf, foreignOf]
      | foreign fk => simp [addConstraint, List.filterMap_cons, primaryOf, uniqueOf, foreignOf]

/-- The keys of a relation with these constraints. -/
def keysOf (named : List NamedConstraint) : CatalogKeys := sortKeys (named.foldl addConstraint noKeys)

theorem foreignKey_injective {fk fk' : CatalogForeign} (h : foreignKey fk = foreignKey fk') : fk = fk' := by
  obtain ⟨columns, ref, refColumns⟩ := fk
  obtain ⟨columns', ref', refColumns'⟩ := fk'
  obtain ⟨rfl, hrest⟩ := Prod.mk.inj (toLex_inj.mp h)
  obtain ⟨rfl, rfl⟩ := Prod.mk.inj (toLex_inj.mp hrest)
  rfl

theorem keysOf_perm {named named' : List NamedConstraint} (hperm : named'.Perm named)
    (hone : (named.filterMap primaryOf).length ≤ 1) : keysOf named' = keysOf named := by
  have hprimary : named'.filterMap primaryOf = named.filterMap primaryOf := by
    have hp := hperm.filterMap primaryOf
    match hnames : named.filterMap primaryOf with
    | [] => exact List.perm_nil.mp (hnames ▸ hp)
    | [names] => exact List.perm_singleton.mp (hnames ▸ hp)
    | _ :: _ :: _ =>
        rw [hnames] at hone
        simp at hone
  simp only [keysOf, foldl_addConstraint, noKeys, sortKeys, List.nil_append, hprimary]
  have hunique : StableSort.sortOn id (named'.filterMap uniqueOf) = StableSort.sortOn id (named.filterMap uniqueOf) :=
    sortOn_eq_of_perm (fun _ _ _ _ heq => heq) (hperm.filterMap uniqueOf)
  rw [hunique, sortOn_eq_of_perm (fun _ _ _ _ => foreignKey_injective) (hperm.filterMap foreignOf)]

/-- **The keys have every constraint once.** -/
theorem keyConstraints_keysOf {named : List NamedConstraint} (hone : (named.filterMap primaryOf).length ≤ 1)
    (hne : ∀ names, .primary names ∈ named → names ≠ []) :
    (keyConstraints (keysOf named)).Perm named := by
  have hsplit : ∀ l : List NamedConstraint, ((l.filterMap primaryOf).map NamedConstraint.primary ++
      (l.filterMap uniqueOf).map NamedConstraint.unique ++
      (l.filterMap foreignOf).map NamedConstraint.foreign).Perm l := by
    intro l
    induction l with
    | nil => exact List.Perm.refl _
    | cons con rest ih =>
        cases con with
        | primary names => exact ih.cons _
        | unique names =>
            refine List.Perm.trans ?_ (ih.cons _)
            simp only [List.filterMap_cons, primaryOf, uniqueOf, foreignOf, List.map_cons, List.append_assoc,
              List.cons_append]
            exact List.perm_middle
        | foreign fk =>
            refine List.Perm.trans ?_ (ih.cons _)
            simp only [List.filterMap_cons, primaryOf, uniqueOf, foreignOf, List.map_cons]
            exact List.perm_middle
  refine List.Perm.trans ?_ (hsplit named)
  simp only [keysOf, foldl_addConstraint, noKeys, sortKeys, keyConstraints, List.nil_append]
  refine (List.Perm.append ?_ (sortOn_perm.map _)).append (sortOn_perm.map _)
  match hnames : named.filterMap primaryOf with
  | [] => exact List.Perm.refl _
  | [names] =>
      have hmem : NamedConstraint.primary names ∈ named := by
        obtain ⟨con, hcon, heq⟩ := List.mem_filterMap.mp (hnames ▸ List.mem_singleton_self names)
        cases con <;> simp_all [primaryOf]
      have hnames := hne names hmem
      simp [hnames]
  | _ :: _ :: _ =>
      rw [hnames] at hone
      simp at hone

/-! ### The constraints of a relation -/

def constraintsAt (c : Catalog) (oid : Nat) : List ConstraintRow :=
  c.constraints.filter fun con => decide (con.conrelid = oid)

def namedAt (c : Catalog) (oid : Nat) : List NamedConstraint := (c.constraintsAt oid).map c.nameOf

theorem primary_of_nameOf {c : Catalog} {con : ConstraintRow} (hcon : con ∈ c.constraints) {names : List PyStr}
    (hname : c.nameOf con = .primary names) : con.contype = .primary ∧ names ≠ [] := by
  have hsome := c.nameConstraint_eq hcon
  obtain ⟨columns, hcolumns, hlength⟩ := keyNames_of_live (c.conkeyLive con hcon)
  rw [hname, nameConstraint, hcolumns, Option.bind_eq_bind, Option.bind_some] at hsome
  cases htype : con.contype with
  | primary =>
      refine ⟨rfl, fun hnil => c.primaryNe con hcon htype ?_⟩
      simp only [htype, Option.pure_def, Option.some.injEq, Prod.mk.injEq, NamedConstraint.primary.injEq,
        true_and] at hsome
      rw [hsome, hnil, List.length_nil] at hlength
      exact List.length_eq_zero_iff.mp hlength.symm
  | unique => simp [htype] at hsome
  | foreign confrelid confkey => simp [htype, Option.bind_eq_some_iff] at hsome

theorem length_primaries_le (c : Catalog) (oid : Nat) : ((c.namedAt oid).filterMap primaryOf).length ≤ 1 := by
  have hprimaries : ((c.constraintsAt oid).filter fun con => decide (con.contype = .primary)).length ≤ 1 := by
    have hnodup : (((c.constraintsAt oid).filter fun con => decide (con.contype = .primary)).map
        ConstraintRow.conrelid).Nodup :=
      c.onePrimary.sublist ((List.filter_sublist.filter _).map _)
    rw [← List.length_map (f := ConstraintRow.conrelid), ← List.nodup_replicate (a := oid)]
    convert hnodup
    refine (List.eq_replicate_iff.mpr ⟨rfl, fun b hb => ?_⟩).symm
    obtain ⟨con, hcon, rfl⟩ := List.mem_map.mp hb
    exact of_decide_eq_true (List.mem_filter.mp (List.mem_filter.mp hcon).1).2
  refine le_trans ?_ hprimaries
  rw [namedAt, List.filterMap_map, List.length_filterMap_eq_countP, ← List.countP_eq_length_filter]
  refine List.countP_mono_left fun con hcon hsome => decide_eq_true ?_
  rw [Function.comp_apply] at hsome
  cases hname : c.nameOf con with
  | primary names => exact (primary_of_nameOf (List.mem_filter.mp hcon).1 hname).1
  | unique names => simp [hname, primaryOf] at hsome
  | foreign fk => simp [hname, primaryOf] at hsome

theorem keyConstraints_namedAt (c : Catalog) (oid : Nat) :
    (keyConstraints (keysOf (c.namedAt oid))).Perm (c.namedAt oid) := by
  refine keyConstraints_keysOf (c.length_primaries_le oid) fun names hmem => ?_
  obtain ⟨con, hcon, hname⟩ := List.mem_map.mp hmem
  exact (primary_of_nameOf (List.mem_filter.mp hcon).1 hname).2

theorem get?_keysByRel (c : Catalog) (hrels : c.rels ≠ []) : ∃ keys, c.keysByRel = some keys ∧
    ∀ oid, (Dict.get? keys oid).getD noKeys = keysOf (c.namedAt oid) := by
  have hnamed := mapM_eq_some_map fun _ => c.nameConstraint_eq
  rw [keysByRel, if_neg hrels, hnamed, Option.map_some]
  refine ⟨_, rfl, fun oid => ?_⟩
  have hfold : ∀ (l : List (Nat × NamedConstraint)) (keys : Option CatalogKeys),
      l.foldl (fun keys con => some (addConstraint (keys.getD noKeys) con.2)) keys =
        if l = [] then keys else some ((l.map Prod.snd).foldl addConstraint (keys.getD noKeys)) := by
    intro l
    induction l with
    | nil => exact fun keys => rfl
    | cons con rest ih =>
        intro keys
        rw [List.foldl_cons, ih, if_neg (List.cons_ne_nil _ _)]
        by_cases hrest : rest = []
        · rw [if_pos hrest, hrest]
          rfl
        · rw [if_neg hrest, Option.getD_some]
          rfl
  have hat : ((c.constraints.map fun con => (con.conrelid, c.nameOf con)).filter fun con => decide (con.1 = oid)) =
      (c.constraintsAt oid).map fun con => (con.conrelid, c.nameOf con) := by
    rw [List.filter_map]
    rfl
  rw [Dict.get?_map_snd sortKeys, Dict.get?_collect, hfold, hat, namedAt]
  by_cases hnil : c.constraintsAt oid = []
  · rw [hnil]
    rfl
  · rw [if_neg (by simpa using hnil), List.map_map]
    rfl

/-! ### Renumbering -/

section Renumbering

variable {f : Nat → Nat} {g : Nat → Int → Int} {c c' : Catalog}

/-- A constraint under the other numbers. -/
def renumberConstraint (f : Nat → Nat) (g : Nat → Int → Int) (con : ConstraintRow) : ConstraintRow :=
  ⟨f con.conrelid, renumberConType f g con.contype, con.conkey.map (g con.conrelid)⟩

theorem keyNames_renumber (h : Renumbered f g c c') {oid : Nat} {key : List Int}
    (hlive : ∀ n ∈ key, (oid, n) ∈ c.attNames.map Prod.fst) :
    c'.keyNames (f oid) (key.map (g oid)) = c.keyNames oid key := by
  have hget : ∀ n ∈ key, Dict.get? (Dict.ofList c'.attNames) (f oid, g oid n) =
      Dict.get? (Dict.ofList c.attNames) (oid, n) := by
    intro n hn
    obtain ⟨⟨_, name⟩, hmem, rfl⟩ := List.mem_map.mp (hlive n hn)
    have hmem' : ((f oid, g oid n), name) ∈ c'.attNames :=
      h.attNames.mem_iff.mpr (List.mem_map.mpr ⟨_, hmem, rfl⟩)
    rw [Dict.ofList_eq_self c'.attNameNums, Dict.ofList_eq_self c.attNameNums,
      Dict.get?_of_mem c'.attNameNums hmem', Dict.get?_of_mem c.attNameNums hmem]
  rw [keyNames, keyNames, List.mapM_map]
  clear hlive
  induction key with
  | nil => rfl
  | cons n rest ih =>
      rw [List.mapM_cons, List.mapM_cons, Function.comp_apply, hget n List.mem_cons_self,
        ih fun m hm => hget m (List.mem_cons_of_mem _ hm)]

theorem relName_renumber (h : Renumbered f g c c') {oid : Nat} (hrel : oid ∈ c.relNames.map Prod.fst) :
    Dict.get? (Dict.ofList c'.relNames) (f oid) = Dict.get? (Dict.ofList c.relNames) oid := by
  obtain ⟨⟨oid, ref⟩, hmem, rfl⟩ := List.mem_map.mp hrel
  have hmem' : (f oid, ref) ∈ c'.relNames := h.relNames.mem_iff.mpr (List.mem_map.mpr ⟨_, hmem, rfl⟩)
  rw [Dict.ofList_eq_self c'.relNameOids, Dict.ofList_eq_self c.relNameOids,
    Dict.get?_of_mem c'.relNameOids hmem', Dict.get?_of_mem c.relNameOids hmem]

theorem nameOf_renumber (h : Renumbered f g c c') {con : ConstraintRow} (hcon : con ∈ c.constraints) :
    c'.nameOf (renumberConstraint f g con) = c.nameOf con := by
  have hnames := keyNames_renumber h (c.conkeyLive con hcon)
  have hforeign := c.confrelidThere con hcon
  obtain ⟨conrelid, contype, conkey⟩ := con
  rw [nameOf, nameOf, nameConstraint, nameConstraint, renumberConstraint, hnames]
  cases contype with
  | primary => cases c.keyNames conrelid conkey <;> rfl
  | unique => cases c.keyNames conrelid conkey <;> rfl
  | foreign confrelid confkey =>
      obtain ⟨hrel, hkey⟩ := hforeign confrelid confkey rfl
      simp only [renumberConType, relName_renumber h hrel, keyNames_renumber h hkey]
      cases c.keyNames conrelid conkey with
      | none => rfl
      | some names =>
          cases Dict.get? (Dict.ofList c.relNames) confrelid with
          | none => rfl
          | some ref => cases c.keyNames confrelid confkey <;> rfl

theorem namedAt_renumber (h : Renumbered f g c c') (oid : Nat) : (c'.namedAt (f oid)).Perm (c.namedAt oid) := by
  have hat : (c'.constraintsAt (f oid)).Perm ((c.constraintsAt oid).map (renumberConstraint f g)) := by
    refine (h.constraints.filter _).trans (List.Perm.of_eq ?_)
    rw [List.filter_map]
    congr 1
    exact List.filter_congr fun con _ => decide_eq_decide.mpr h.injective.eq_iff
  refine (hat.map c'.nameOf).trans (List.Perm.of_eq ?_)
  rw [List.map_map, namedAt]
  exact List.map_congr_left fun con hcon => nameOf_renumber h (List.mem_filter.mp hcon).1

end Renumbering

/-! ### Objects -/

/-- The object of a relation with the rest of what it shows. -/
def objectOf (r : RelRow) (columns : List CatalogColumn) (keys : CatalogKeys) (indexes checks : List PyStr) :
    CatalogObject :=
  let kind := r.relkind.kind
  { kind
    schema := r.nspname
    name := r.relname
    description := r.description
    columns
    keys
    stats := {
      definition := r.definition
      rowEstimate := if kind = py "table" ∨ kind = py "materialized_view" then r.rowEstimate else none
      indexes := if kind = py "table" ∨ kind = py "materialized_view" then
        (if indexes = [] then none else some indexes) else none
      checks := if kind = py "table" then (if checks = [] then none else some checks) else none } }

/-- The rows of `_columns_by_rel` under the OID. -/
def columnsAt (c : Catalog) (oid : Nat) : List (Int × ColumnFacts) :=
  rowsAt (c.columns.map fun row => (row.attrelid, (row.attnum, row.facts))) oid

def objectAt (c : Catalog) (r : RelRow) : CatalogObject :=
  objectOf r (numberColumns (c.columnsAt r.oid)) (keysOf (c.namedAt r.oid))
    (StableSort.sortOn id (rowsAt c.indexes r.oid)) (StableSort.sortOn id (rowsAt c.checks r.oid))

theorem sortOn_eq_nil {α κ : Type} [LinearOrder κ] {key : α → κ} {l : List α} : StableSort.sortOn key l = [] ↔ l = [] :=
  ⟨fun h => List.perm_nil.mp (h ▸ sortOn_perm.symm), fun h => by rw [h]; rfl⟩

theorem get?_definitionsByRel (c : Catalog) (hrels : c.rels ≠ []) (rows : List (Nat × PyStr)) (oid : Nat) :
    Dict.get? (c.definitionsByRel rows) oid =
      if StableSort.sortOn id (rowsAt rows oid) = [] then none else some (StableSort.sortOn id (rowsAt rows oid)) := by
  rw [definitionsByRel, guarded, if_neg hrels, Dict.get?_map_snd (StableSort.sortOn id), get?_groupRows]
  by_cases hnil : rowsAt rows oid = []
  · rw [if_pos hnil, if_pos (sortOn_eq_nil.mpr hnil), Option.map_none]
  · rw [if_neg hnil, if_neg (fun h => hnil (sortOn_eq_nil.mp h)), Option.map_some]

theorem get?_columnsByRel (c : Catalog) (hrels : c.rels ≠ []) (oid : Nat) :
    (Dict.get? c.columnsByRel oid).getD [] = numberColumns (c.columnsAt oid) := by
  rw [columnsByRel, guarded, if_neg hrels, Dict.get?_map_snd numberColumns, get?_groupRows, columnsAt]
  by_cases hnil : rowsAt (c.columns.map fun row => (row.attrelid, (row.attnum, row.facts))) oid = []
  · rw [if_pos hnil, hnil]
    rfl
  · rw [if_neg hnil]
    rfl

theorem introspectConnection_eq (c : Catalog) : c.introspectConnection = some (c.rels.map c.objectAt) := by
  by_cases hrels : c.rels = []
  · rw [introspectConnection, keysByRel, if_pos hrels, hrels]
    rfl
  · obtain ⟨keys, hkeys, hget⟩ := c.get?_keysByRel hrels
    rw [introspectConnection, hkeys, Option.map_some]
    congr 1
    refine List.map_congr_left fun r _ => ?_
    simp only [hget, c.get?_definitionsByRel hrels, c.get?_columnsByRel hrels]
    rfl

theorem columnsAt_eq (c : Catalog) (oid : Nat) : c.columnsAt oid =
    (c.columns.filter fun col => decide (col.attrelid = oid)).map fun col => (col.attnum, col.facts) := by
  rw [columnsAt, rowsAt, List.filter_map, List.map_map]
  rfl

theorem live_of_columnsAt {c : Catalog} {oid : Nat} {n : Int} (hn : n ∈ (c.columnsAt oid).map Prod.fst) :
    c.Live oid n := by
  rw [columnsAt_eq, List.map_map] at hn
  obtain ⟨col, hcol, rfl⟩ := List.mem_map.mp hn
  have hrel : col.attrelid = oid := of_decide_eq_true (List.mem_filter.mp hcol).2
  exact .inr (List.mem_map.mpr ⟨col, (List.mem_filter.mp hcol).1, by rw [hrel]; rfl⟩)

theorem nodup_columnsAt (c : Catalog) (oid : Nat) : ((c.columnsAt oid).map Prod.fst).Nodup := by
  refine List.Nodup.of_map (fun n => (oid, n)) ?_
  have hpairs := c.attnums.sublist ((List.filter_sublist
    (p := fun col : ColumnRow => decide (col.attrelid = oid))).map fun col => (col.attrelid, col.attnum))
  rw [columnsAt_eq, List.map_map, List.map_map]
  convert hpairs using 1
  refine List.map_congr_left fun col hcol => ?_
  have hrel : col.attrelid = oid := of_decide_eq_true (List.mem_filter.mp hcol).2
  simp [hrel]

theorem columnsAt_renumber {f : Nat → Nat} {g : Nat → Int → Int} {c c' : Catalog} (h : Renumbered f g c c')
    (oid : Nat) : (c'.columnsAt (f oid)).Perm ((c.columnsAt oid).map fun row => (g oid row.1, row.2)) := by
  have hfilter : (c.columns.filter fun col => decide (f col.attrelid = f oid)) =
      c.columns.filter fun col => decide (col.attrelid = oid) :=
    List.filter_congr fun col _ => decide_eq_decide.mpr h.injective.eq_iff
  rw [columnsAt_eq, columnsAt_eq]
  refine ((h.columns.filter _).map _).trans (List.Perm.of_eq ?_)
  rw [List.filter_map, List.map_map, List.map_map]
  change List.map _ (c.columns.filter fun col => decide (f col.attrelid = f oid)) = _
  rw [hfilter]
  refine List.map_congr_left fun col hcol => ?_
  have hrel : col.attrelid = oid := of_decide_eq_true (List.mem_filter.mp hcol).2
  simp [hrel]

theorem objectAt_renumber {f : Nat → Nat} {g : Nat → Int → Int} {c c' : Catalog} (h : Renumbered f g c c')
    (r : RelRow) : c'.objectAt { r with oid := f r.oid } = c.objectAt r := by
  have hdefinitions : ∀ rows rows' : List (Nat × PyStr), rows'.Perm (rows.map fun e => (f e.1, e.2)) →
      StableSort.sortOn id (rowsAt rows' (f r.oid)) = StableSort.sortOn id (rowsAt rows r.oid) := by
    intro rows rows' hrows
    refine sortOn_eq_of_perm (fun _ _ _ _ heq => heq) ?_
    exact (rowsAt_renumber h.injective id hrows r.oid).trans (List.Perm.of_eq (List.map_id _))
  rw [objectAt, objectAt, hdefinitions _ _ h.indexes, hdefinitions _ _ h.checks,
    keysOf_perm (namedAt_renumber h r.oid) (c.length_primaries_le r.oid),
    numberColumns_renumber (c.nodup_columnsAt r.oid)
      (fun n hn m hm => h.ordered r.oid n m (live_of_columnsAt hn) (live_of_columnsAt hm))
      (columnsAt_renumber h r.oid)]
  rfl

/-! ### The canonical body -/

theorem sortKey_injective (c : Catalog) : ∀ a ∈ c.rels.map c.objectAt, ∀ b ∈ c.rels.map c.objectAt,
    a.sortKey = b.sortKey → a = b := by
  intro a ha b hb heq
  obtain ⟨r, hr, rfl⟩ := List.mem_map.mp ha
  obtain ⟨r', hr', rfl⟩ := List.mem_map.mp hb
  have hname := toLex_inj.mp (Prod.mk.inj (toLex_inj.mp heq)).2
  rw [List.inj_on_of_nodup_map c.names hr hr' hname]

theorem shows_objectAt (c : Catalog) (r : RelRow) : c.Shows r (c.objectAt r).ordered := by
  have hkind : r.relkind ≠ .view → (r.relkind.kind = py "table" ∨ r.relkind.kind = py "materialized_view") := by
    cases r.relkind <;> simp [RelKind.kind]
  have hdefinitions : ∀ rows : List (Nat × PyStr),
      ((if StableSort.sortOn id (rowsAt rows r.oid) = [] then none
        else some (StableSort.sortOn id (rowsAt rows r.oid))).getD []).Perm (rowsAt rows r.oid) := by
    intro rows
    by_cases hnil : StableSort.sortOn id (rowsAt rows r.oid) = []
    · rw [if_pos hnil, sortOn_eq_nil.mp hnil]
      exact List.Perm.refl _
    · rw [if_neg hnil]
      exact sortOn_perm
  have hnamed := mapM_eq_some_map fun con (hcon : con ∈ c.constraintsAt r.oid) =>
    c.nameConstraint_eq (List.mem_filter.mp hcon).1
  refine ⟨rfl, ?_, ⟨_, hnamed, ?_⟩, ?_, ?_, ?_⟩
  · refine (sortOn_perm.map _).trans ?_
    have hfacts : (numberColumns (c.columnsAt r.oid)).map CatalogColumn.toColumnFacts =
        (StableSort.sortOn Prod.fst (c.columnsAt r.oid)).map Prod.snd := by
      rw [numberColumns, List.map_map]
      exact List.zipIdx_map_fst 0 _
    refine (List.Perm.of_eq hfacts).trans ((sortOn_perm.map Prod.snd).trans (List.Perm.of_eq ?_))
    rw [columnsAt_eq, List.map_map]
    rfl
  · have hsorted : (keyConstraints (c.objectAt r).ordered.keys).Perm (keyConstraints (c.objectAt r).keys) :=
      ((List.Perm.refl _).append (sortOn_perm.map _)).append (sortOn_perm.map _)
    rw [List.map_map]
    exact hsorted.trans (c.keyConstraints_namedAt r.oid)
  · exact fun h => if_pos (hkind h)
  · intro h
    refine List.Perm.trans (List.Perm.of_eq ?_) (hdefinitions c.indexes)
    congr 1
    exact if_pos (hkind h)
  · intro h
    refine List.Perm.trans (List.Perm.of_eq ?_) (hdefinitions c.checks)
    congr 1
    exact if_pos h

/-- **Introspection sees the logical schema alone, and all of it.** -/
theorem introspectConnection_logical {f : Nat → Nat} {g : Nat → Int → Int} {c c' : Catalog}
    (h : Renumbered f g c c') : ∃ objects objects', c.introspectConnection = some objects ∧
      c'.introspectConnection = some objects' ∧ canonicalObjectsBytes objects' = canonicalObjectsBytes objects ∧
      ∃ rels, rels.Perm c.rels ∧ List.Forall₂ c.Shows rels (canonicalObjects objects) := by
  refine ⟨_, _, c.introspectConnection_eq, c'.introspectConnection_eq, ?_, ?_⟩
  · have hperm : (c'.rels.map c'.objectAt).Perm (c.rels.map c.objectAt) := by
      refine (h.rels.map _).trans (List.Perm.of_eq ?_)
      rw [List.map_map]
      exact List.map_congr_left fun r _ => objectAt_renumber h r
    rw [canonicalObjectsBytes, canonicalObjectsBytes, canonicalObjects, canonicalObjects,
      sortOn_eq_of_perm c.sortKey_injective hperm]
  · refine ⟨StableSort.sortOn (fun r => (c.objectAt r).sortKey) c.rels, sortOn_perm, ?_⟩
    rw [canonicalObjects, sortOn_map c.objectAt fun r => rfl, List.map_map, List.forall₂_map_right_iff]
    exact List.forall₂_same.mpr fun r _ => c.shows_objectAt r

/-- Orders and their lines, as their DDL makes them. -/
def shop : Catalog where
  rels := [⟨10, py "public", py "orders", .ordinary, some 5, none, none⟩,
    ⟨20, py "public", py "lines", .ordinary, none, none, none⟩]
  columns := [⟨10, 1, ⟨py "id", py "bigint", false, none, none⟩⟩,
    ⟨20, 1, ⟨py "order_id", py "bigint", false, none, none⟩⟩, ⟨20, 2, ⟨py "qty", py "integer", true, none, none⟩⟩]
  constraints := [⟨10, .primary, [1]⟩, ⟨20, .foreign 10 [1], [1]⟩]
  relNames := [(10, py "public", py "orders"), (20, py "public", py "lines")]
  attNames := [((10, 1), py "id"), ((20, 1), py "order_id"), ((20, 2), py "qty")]
  indexes := [(10, py "CREATE UNIQUE INDEX orders_pkey ON public.orders USING btree (id)")]
  checks := [(20, py "CHECK ((qty > 0))")]
  oids := by decide
  names := by decide
  attnums := by decide
  relNameOids := by decide
  attNameNums := by decide
  onePrimary := by decide
  primaryNe := by decide
  conkeyLive := by decide
  confrelidThere := by simp
  belong := by decide

/-- The same where a column of the lines was dropped. -/
def shopLive : Catalog where
  rels := [⟨27, py "public", py "lines", .ordinary, none, none, none⟩,
    ⟨17, py "public", py "orders", .ordinary, some 5, none, none⟩]
  columns := [⟨27, 3, ⟨py "qty", py "integer", true, none, none⟩⟩,
    ⟨17, 1, ⟨py "id", py "bigint", false, none, none⟩⟩, ⟨27, 1, ⟨py "order_id", py "bigint", false, none, none⟩⟩]
  constraints := [⟨27, .foreign 17 [1], [1]⟩, ⟨17, .primary, [1]⟩]
  relNames := [(17, py "public", py "orders"), (27, py "public", py "lines")]
  attNames := [((17, 1), py "id"), ((27, 1), py "order_id"), ((27, 3), py "qty")]
  indexes := [(17, py "CREATE UNIQUE INDEX orders_pkey ON public.orders USING btree (id)")]
  checks := [(27, py "CHECK ((qty > 0))")]
  oids := by decide
  names := by decide
  attnums := by decide
  relNameOids := by decide
  attNameNums := by decide
  onePrimary := by decide
  primaryNe := by decide
  conkeyLive := by decide
  confrelidThere := by simp
  belong := by decide

theorem introspectConnection_droppedColumn : ∃ objects objects', shop.introspectConnection = some objects ∧
    shopLive.introspectConnection = some objects' ∧
      canonicalObjectsBytes objects' = canonicalObjectsBytes objects ∧
      ∃ rels, rels.Perm shop.rels ∧ List.Forall₂ shop.Shows rels (canonicalObjects objects) :=
  introspectConnection_logical (f := fun oid => oid + 7) (g := fun _ n => if n ≤ 1 then n else n + 1)
    { injective := fun a b h => Nat.add_right_cancel h
      ordered := fun oid n m _ _ hlt => by
        by_cases hn : n ≤ 1 <;> by_cases hm : m ≤ 1 <;> simp only [hn, hm, if_true, if_false] <;> omega
      rels := by decide
      columns := by decide
      constraints := by decide
      relNames := by decide
      attNames := by decide
      indexes := by decide
      checks := by decide }

end ContextLayer.Catalog
