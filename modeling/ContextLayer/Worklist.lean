import ContextLayer.PyJson
import ContextLayer.Lib.Packing

/-!
# Review batches

The contaminated documents are reviewed in batches of a bounded size. Those with one cause are kept together: a group
is closed off into the next batch rather than split, unless no batch can hold it.
-/

namespace ContextLayer.Worklist

open Text StableSort

/-- `BATCH_MAX`. -/
def BATCH_MAX : Nat := 10

section

variable {δ : Type} [DecidableEq δ] (cause : δ → Option PyStr)

/-- `doc["cause"] or "(unmarked)"`. -/
def groupOf (doc : δ) : PyStr :=
  match cause doc with
  | none => py "(unmarked)"
  | some name => if name = [] then py "(unmarked)" else name

/-- `docs.index(g[0])`. -/
def firstIndex (docs group : List δ) : Nat :=
  match group with
  | [] => docs.length
  | doc :: _ => docs.idxOf doc

/-- `by_cause.values()`, each list where its first document stands. -/
def groups (docs : List δ) : List (List δ) :=
  StableSort.sortOn (firstIndex docs)
    ((Dict.collect (groupOf cause) (fun doc group => group.getD [] ++ [doc]) [] docs).map Prod.snd)

/-- `batches`: the chunks of a group one after another, each in the current batch if there is room. -/
def batches (docs : List δ) (size : Nat) : List (List δ) :=
  Packing.pack size ((groups cause docs).flatMap (Packing.pieces size))

/-- The work items of a group, as they are listed. -/
def itemsOf (docs : List δ) (group : PyStr) : List δ := docs.filter fun doc => groupOf cause doc = group

/-- Where a group appears first. -/
def appears (docs : List δ) (group : PyStr) : Nat := docs.findIdx fun doc => groupOf cause doc = group

/-- The batches are the work list, cut at the edges of its groups. -/
structure Partitions (docs : List δ) (size : Nat) (out : List (List δ)) : Prop where
  perm : out.flatten.Perm docs
  sizes : ∀ batch ∈ out, batch ≠ [] ∧ batch.length ≤ size
  /-- Two batches share a group only where it is larger than a batch. -/
  whole : out.Pairwise fun batch batch' => ∀ doc ∈ batch, ∀ doc' ∈ batch', groupOf cause doc = groupOf cause doc' →
    size < (itemsOf cause docs (groupOf cause doc)).length
  within : ∀ group, itemsOf cause out.flatten group = itemsOf cause docs group
  order : out.flatten.Pairwise fun doc doc' =>
    appears cause docs (groupOf cause doc) ≤ appears cause docs (groupOf cause doc')

end

end ContextLayer.Worklist
