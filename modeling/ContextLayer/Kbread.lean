import ContextLayer.Frontmatter
import ContextLayer.Lib.Partition

/-!
# The core reads a document

`kbread.ts`. Front matter is read a second time here, by the text of the same document.
-/

namespace ContextLayer.Kbread

open Text Partition

/-- `text.indexOf(word)`. -/
def indexOf (word text : Text) : Option Nat := (text.dropInfix? word).map fun parts => parts.1.length

/-- `fm && typeof fm === "object"`. -/
def isObject : PyJson → Bool
  | .arr _ | .obj _ => true
  | _ => false

/-- `parseFrontMatter`, with the loader of `Frontmatter.split`. -/
def parseFrontMatter (yaml : PyStr → Option PyJson) (text : Text) : Option PyJson × Text :=
  if js "---\n" <+: text then
    match (indexOf (js "\n---") (text.drop 4)).map (· + 4) with
    | none => (none, text)
    | some end_ =>
        let raw := (text.take (end_ + 1)).drop 4
        -- Without a further line break `indexOf` is -1, and the body starts at 0.
        let body := text.drop (((indexOf (js "\n") (text.drop (end_ + 1))).map (· + (end_ + 1) + 1)).getD 0)
        match yaml (codePoints raw) with
        | none => (none, text)
        | some fm => (if isObject fm then some fm else none, body)
  else (none, text)

/-- The two readers agree on a document. -/
structure ReadSame (yaml : PyStr → Option PyJson) (text : Text) : Prop where
  frontMatter : (parseFrontMatter yaml text).1 = (Frontmatter.split yaml (codePoints text)).1.map .obj
  body : codePoints (parseFrontMatter yaml text).2 = (Frontmatter.split yaml (codePoints text)).2

/-- What of the first block decides whether the readers agree. `after` is what follows the dashes of the line
that ends it. -/
def ReadAlike (yaml : PyStr → Option PyJson) (text : Text) : Prop :=
  ∀ rest, text = js "---\n" ++ rest → ∀ block after, rest.dropInfix? (js "\n---") = some (block, after) →
    match yaml (codePoints (block ++ js "\n")) with
    | some (.obj _) => js "\n" <+: after ∧ ¬ js "---\n" <+: rest
    | some (.arr _) => False
    | some _ => (0x0A : UInt16) ∉ after
    | none => ¬ js "---\n" <+: rest → ∀ block' body, rest.dropInfix? (js "\n---\n") = some (block', body) →
        ∀ members, yaml (codePoints (block' ++ js "\n")) ≠ some (.obj members)

end ContextLayer.Kbread
