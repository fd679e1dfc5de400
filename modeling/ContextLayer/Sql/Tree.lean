import Mathlib.Data.List.Basic
import ContextLayer.Text

/-!
# Parsed statements

A statement as sqlglot hands it over: a tree whose nodes carry a class and, for the classes the
validator looks at, the names it reads. Children stand in the order of the node's arguments, a
`WITH` clause among them.
-/

namespace ContextLayer.Sql

/-- An identifier, and whether it was written in quotes. -/
structure Ident where
  name : Text
  quoted : Bool
  deriving DecidableEq

/-- A table expression. Its name is empty when the table is a function call. -/
structure TableRef where
  db : Option Ident
  name : Ident
  deriving DecidableEq

/-- `table.db`, empty when the name is not qualified. -/
def TableRef.dbText (t : TableRef) : Text := (t.db.map (·.name)).getD []

/-- The class of a node. -/
inductive Label where
  | table (t : TableRef)
  | withClause (recursive : Bool)
  | cte (name : Ident)
  | select
  | setOperation (typeName : Text)
  | write (typeName : Text)
  | lock
  | func (name : Text) (typeName : Text)
  | other (typeName : Text)
  deriving DecidableEq

inductive Tree where
  | node (label : Label) (kids : List Tree)

namespace Tree

def label : Tree → Label
  | .node label _ => label

def kids : Tree → List Tree
  | .node _ kids => kids

/-- A property of every tree, from the property of its children. -/
theorem induction {motive : Tree → Prop}
    (node : ∀ label kids, (∀ kid ∈ kids, motive kid) → motive (.node label kids)) (t : Tree) :
    motive t :=
  Tree.rec (motive_1 := motive) (motive_2 := fun kids => ∀ kid ∈ kids, motive kid)
    (fun label kids ih => node label kids ih) (by simp)
    (fun head tail hhead htail kid hkid => by
      rcases List.mem_cons.mp hkid with rfl | hmem
      · exact hhead
      · exact htail kid hmem) t

/-! ### Walking -/

/-- Two trees level by level, the first one's nodes before the second one's. -/
def zipLevels {α : Type} : List (List α) → List (List α) → List (List α)
  | [], ys => ys
  | xs, [] => xs
  | x :: xs, y :: ys => (x ++ y) :: zipLevels xs ys

mutual

/-- The labels of a tree by depth. -/
def levels : Tree → List (List Label)
  | .node label kids => [label] :: levelsOf kids

def levelsOf : List Tree → List (List Label)
  | [] => []
  | t :: ts => zipLevels t.levels (levelsOf ts)

end

/-- `tree.walk()`, breadth first. -/
def walk (t : Tree) : List Label := t.levels.flatten

theorem mem_zipLevels {α : Type} {xs ys : List (List α)} {a : α} :
    a ∈ (zipLevels xs ys).flatten ↔ a ∈ xs.flatten ∨ a ∈ ys.flatten := by
  fun_induction zipLevels xs ys with
  | case1 ys => simp
  | case2 xs hxs => simp
  | case3 x xs y ys ih =>
      simp only [List.flatten_cons, List.mem_append, ih]
      tauto

theorem mem_levelsOf {ts : List Tree} {l : Label} :
    l ∈ (levelsOf ts).flatten ↔ ∃ t ∈ ts, l ∈ t.walk := by
  induction ts with
  | nil => simp [levelsOf]
  | cons t ts ih =>
      rw [levelsOf, mem_zipLevels, ih]
      simp only [List.mem_cons, exists_eq_or_imp, walk]

theorem mem_walk {label : Label} {kids : List Tree} {l : Label} :
    l ∈ (node label kids).walk ↔ l = label ∨ ∃ kid ∈ kids, l ∈ kid.walk := by
  rw [walk, levels, List.flatten_cons, List.mem_append, mem_levelsOf, List.mem_singleton]

/-- `tree.find_all(exp.Table)`. -/
def tables (t : Tree) : List TableRef :=
  t.walk.filterMap fun
    | .table ref => some ref
    | _ => none

theorem mem_tables {t : Tree} {ref : TableRef} : ref ∈ t.tables ↔ .table ref ∈ t.walk := by
  simp only [tables, List.mem_filterMap]
  constructor
  · rintro ⟨l, hl, h⟩
    cases l <;> simp_all
  · exact fun h => ⟨_, h, rfl⟩

end Tree

end ContextLayer.Sql
