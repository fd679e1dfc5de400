import ContextLayer.Sql.Tree
import ContextLayer.Text

/-!
# What the engine reads

How Postgres resolves the names in a query, which is what a validator has to agree with. A `WITH`
binds its names in the query it stands in and in the entries after it, in all of its entries when it
is recursive, and nowhere else; only an unqualified name can be bound. Unquoted identifiers fold to
lower case, quoted ones are taken as written.
-/

namespace ContextLayer.Sql

open Text

/-- Identifier folding: ASCII lower case, unless quoted. -/
def Ident.fold (i : Ident) : Text :=
  if i.quoted then i.name else i.name.map fun u => if 0x41 ≤ u ∧ u ≤ 0x5A then u + 0x20 else u

/-- A stored table: its schema and its name. -/
structure StoredTable where
  schema : Text
  name : Text
  deriving DecidableEq

/-- The stored table a reference names when no `WITH` binds it. -/
def TableRef.resolve (defaultSchema : Text) (t : TableRef) : StoredTable where
  schema :=
    match t.db with
    | some db => if db.name = [] then defaultSchema else db.fold
    | none => defaultSchema
  name := t.name.fold

/-- The reference is one the scope binds. A function call in `FROM` has no name to resolve. -/
def TableRef.isBound (scope : List Text) (t : TableRef) : Bool :=
  t.name.name = [] || (t.dbText = [] && t.name.fold ∈ scope)

namespace Tree

/-- The name a `WITH` entry binds. -/
def bound : Tree → List Text
  | .node (.cte name) _ => [name.fold]
  | _ => []

def isWith : Tree → Bool
  | .node (.withClause _) _ => true
  | _ => false

/-- The names the `WITH` clauses among a node's children bind. -/
def boundByWith (kids : List Tree) : List Text :=
  (kids.filter isWith).flatMap fun t => t.kids.flatMap bound

/-- Every entry of a `WITH` sees the entries before it. -/
def entryScopes (scope : List Text) : List Tree → List (List Text)
  | [] => []
  | t :: ts => scope :: entryScopes (t.bound ++ scope) ts

/-- The names in scope in each child of a node. -/
def kidScopes (scope : List Text) (kids : List Tree) : Label → List (List Text)
  | .withClause true => kids.map fun _ => kids.flatMap bound ++ scope
  | .withClause false => entryScopes scope kids
  | _ => kids.map fun t => if t.isWith then scope else boundByWith kids ++ scope

/-- The reference a node itself makes. -/
def ownRefs (scope : List Text) : Label → List TableRef
  | .table t => if t.isBound scope then [] else [t]
  | _ => []

mutual

/-- The references of a tree that resolve to stored tables, under the names in scope. -/
def stored (scope : List Text) : Tree → List TableRef
  | .node label kids => ownRefs scope label ++ storedOf (kidScopes scope kids label) kids

def storedOf (scopes : List (List Text)) : List Tree → List TableRef
  | [] => []
  | t :: ts =>
    match scopes with
    | [] => []
    | scope :: scopes => stored scope t ++ storedOf scopes ts

end

theorem mem_storedOf {scopes : List (List Text)} {ts : List Tree} {ref : TableRef}
    (h : ref ∈ storedOf scopes ts) : ∃ t ∈ ts, ∃ scope, ref ∈ t.stored scope := by
  induction ts generalizing scopes with
  | nil => simp [storedOf] at h
  | cons t ts ih =>
      cases scopes with
      | nil => simp [storedOf] at h
      | cons scope scopes =>
          rcases List.mem_append.mp h with hhead | htail
          · exact ⟨t, by simp, scope, hhead⟩
          · obtain ⟨u, hu, hstored⟩ := ih htail
            exact ⟨u, by simp [hu], hstored⟩

theorem mem_ownRefs {scope : List Text} {label : Label} {ref : TableRef}
    (h : ref ∈ ownRefs scope label) : label = .table ref ∧ ref.isBound scope = false := by
  cases label <;> simp_all [ownRefs]

/-- **A stored reference is a table of the tree**, and not a function call. -/
theorem mem_tables_of_mem_stored {t : Tree} {scope : List Text} {ref : TableRef}
    (h : ref ∈ t.stored scope) : ref ∈ t.tables ∧ ref.name.name ≠ [] := by
  rw [mem_tables]
  induction t using Tree.induction generalizing scope with
  | node label kids ih =>
      rcases List.mem_append.mp h with hown | hkids
      · obtain ⟨rfl, hbound⟩ := mem_ownRefs hown
        exact ⟨mem_walk.mpr (Or.inl rfl), by simp_all [TableRef.isBound]⟩
      · obtain ⟨kid, hkid, _, hstored⟩ := mem_storedOf hkids
        obtain ⟨hwalk, hname⟩ := ih kid hkid hstored
        exact ⟨mem_walk.mpr (Or.inr ⟨kid, hkid, hwalk⟩), hname⟩

end Tree

end ContextLayer.Sql
