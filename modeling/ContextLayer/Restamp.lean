import ContextLayer.Render

/-!
# What moves a stamp

A document bears the date of its facts, and a purpose is none of them. Whether the facts of a file are those of the
document that is written over it is told from their texts, line by line.
-/

namespace ContextLayer.Render

open Text PyText

/-- A document of a plan, with what is known of its human siblings. -/
structure Version where
  s : Snapshot
  entry : DocEntry
  info : PyStr → Info

section

variable (unicode : Unicode)

/-- The document of a date. -/
def Version.text (v : Version) (date : PyStr) (mode : Mode) : PyStr :=
  headFor unicode v.s v.entry date ++ (bodyFor unicode v.s v.info mode v.entry).getD []

/-- A file that is the document of that date. -/
def Version.Bears (v : Version) (bytes : List UInt8) (date : PyStr) : Prop :=
  readText bytes = newlines (v.text unicode date .real)

/-- **The stamp moves with the facts**, and a document with the same facts and the same purposes is left alone. -/
structure MovesWithFacts (v₁ v₂ : Version) (date : PyStr) (bytes₁ bytes₂ : List UInt8) : Prop where
  stamp : v₂.Bears unicode bytes₂ date ↔ v₁.text unicode date .absent = v₂.text unicode date .absent
  untouched : v₁.text unicode date .absent = v₂.text unicode date .absent →
    v₁.text unicode date .real = v₂.text unicode date .real → bytes₂ = bytes₁

/-! ### When it does -/

/-- A line of facts, or one with some text in its slot. -/
inductive FilledLine where
  | facts (text : PyStr)
  | slot (before inside after : PyStr)

def FilledLine.filled : FilledLine → PyStr
  | .facts text => text
  | .slot before inside after => before ++ inside ++ after

def FilledLine.variant (mode : Mode) : FilledLine → PyStr
  | .facts text => text
  | .slot before _ after => before ++ purposeCell none mode ++ after

/-- The text has the lines of the two variants, with some texts in the slots. -/
def IsFilling (old absent marked : PyStr) : Prop :=
  ∃ ls : List FilledLine, lines old = ls.map FilledLine.filled ∧
    lines absent = ls.map (FilledLine.variant .absent) ∧ lines marked = ls.map (FilledLine.variant .marker)

/-- YAML reads the date off the front matter. -/
def Version.ReadsBack (yaml : Yaml) (v : Version) (date : PyStr) : Prop :=
  Frontmatter.isDate unicode date = true ∧
    ∃ members, yaml.load ((fieldsFor v.s v.entry date).flatMap (Frontmatter.fieldLines unicode)) = some (.obj members) ∧
      Frontmatter.get members "generated_at" = some (.str date)

/-- Facts that are the same have no carriage return in them, and where the first version has a purpose the second has a
slot. Facts that are not are told apart: the first version is not the second one with other texts in its slots. -/
structure IsTold (yaml : Yaml) (v₁ v₂ : Version) (date : PyStr) : Prop where
  same : v₁.text unicode date .absent = v₂.text unicode date .absent → v₁.ReadsBack unicode yaml date ∧
    carriageReturn ∉ v₂.text unicode date .absent ∧
      ∀ i : Nat, (lines (v₁.text unicode date .real))[i]? ≠ (lines (v₁.text unicode date .absent))[i]? →
        (lines (v₂.text unicode date .absent))[i]? ≠ (lines (v₂.text unicode date .marker))[i]?
  differ : v₁.text unicode date .absent ≠ v₂.text unicode date .absent → v₁.ReadsBack unicode yaml date →
    ¬ IsFilling (newlines (v₁.text unicode date .real)) (v₂.text unicode date .absent) (v₂.text unicode date .marker)

end

end ContextLayer.Render
