import ContextLayer.KbTools
import ContextLayer.Platform

/-!
# `search_context`

The index has an entry for each document. A query is matched against one entry after the other, against its name,
its title, its front matter and its body in turn, and the hits are put in the order of one number.
-/

namespace ContextLayer.SearchIndex

open Text
open Connections (trim)

inductive RefKind where
  | entity
  | metric
  | table
  | view
  | apiObject
  | doc
  deriving DecidableEq

structure SearchDoc extends KbDoc where
  oneLiner : Text

/-- Of the workspace, what the index is built of. -/
structure SearchKb where
  docs : List SearchDoc
  keyedByPath : (docs.map (·.path)).Nodup
  /-- The `kind` of `machineByFqn`. -/
  machineKind : List (Text × Text)

structure IndexEntry where
  refKind : RefKind
  path : Text
  fqn : Option Text
  title : Text
  oneLiner : Text
  aliases : List Text
  fmTokens : List Text
  bodyTokens : List Text
  routingBoost : Nat
  deriving DecidableEq

/-! ### Tokens -/

def isTokenStart (u : UInt16) : Bool :=
  (0x61 ≤ u && u ≤ 0x7A) || (0x30 ≤ u && u ≤ 0x39) || u == 0x5F

def isTokenPart (u : UInt16) : Bool := isTokenStart u || u == 0x2E || u == 0x2D

/-- The matches of `TOKEN_RE`, `token` being the one that is not at its end yet. -/
def scanTokens (token : Text) : Text → List Text
  | [] => if token = [] then [] else [token]
  | u :: rest =>
      if token = [] then scanTokens (if isTokenStart u then [u] else []) rest
      else if isTokenPart u then scanTokens (token ++ [u]) rest
      else token :: scanTokens [] rest

/-- `QUERY_STOPWORDS`. -/
def queryStopwords : List Text :=
  ["an", "the", "of", "by", "for", "in", "on", "to", "and", "or", "with", "per", "at", "from", "into", "is", "are",
    "was", "be", "how", "what", "which", "who", "show", "me", "my", "our", "their", "get", "list", "all"].map js

section

variable (P : Platform)

def tokenize (text : Text) : List Text := (scanTokens [] (P.toLowerCase text)).filter fun t => decide (1 < t.length)

/-! ### The index -/

def kindToRef (kind : Text) : RefKind :=
  if kind = js "table" then .table
  else if kind = js "view" ∨ kind = js "materialized_view" then .view
  else if js "api_" <+: kind then .apiObject
  else .doc

def entryFor (ws : SearchKb) (doc : SearchDoc) : IndexEntry :=
  let aliases :=
    match doc.member "aliases" with
    | some (.arr aliases) => (aliases.filterMap Json.asString).map P.toLowerCase
    | _ => []
  let fmFields := ((doc.fm.getD []).map Prod.snd).filterMap Json.asString
  let base (refKind : RefKind) (fqn : Option Text) (routingBoost : Nat) : IndexEntry :=
    ⟨refKind, doc.path, fqn, doc.title, doc.oneLiner, aliases, tokenize P ((js " ").intercalate fmFields),
      tokenize P doc.body, routingBoost⟩
  if doc.isClass "entity" then base .entity none 2
  else if doc.isClass "metric" then base .metric none 2
  else
    match doc.isClass "machine-object", doc.isClass "human-object", doc.text "object" with
    | true, _, some fqn => base (kindToRef (P.string (some (orElse (doc.member "kind") (.str []))))) (some fqn) 0
    | _, true, some fqn => base (kindToRef ((Dict.get? ws.machineKind fqn).getD [])) (some fqn) 1
    | _, _, _ => base .doc none 0

def buildIndex (ws : SearchKb) : List IndexEntry :=
  (ws.docs.map (entryFor P ws)).insertionSort fun a b => a.path ≤ b.path

/-! ### The search -/

/-- The tokens that are in a set, each as often as it comes. -/
def matchCount (tokens known : List Text) : Nat := tokens.countP fun t => decide (t ∈ known)

/-- `fqnLower`; an empty one counts as none. -/
def IndexEntry.fqnLower (entry : IndexEntry) : Option Text := (entry.fqn.map P.toLowerCase).filter (· ≠ [])

/-- The last name of the FQN is among the tokens. -/
def IndexEntry.nameMatches (entry : IndexEntry) (tokens : List Text) : Nat :=
  let nameToken := (((entry.fqnLower P).getD []).splitOn 0x2E).getLastD []
  if nameToken ≠ [] ∧ nameToken ∈ tokens then 1 else 0

/-- The tier of an entry that matches, and how many tokens do. -/
def IndexEntry.tier? (entry : IndexEntry) (q : Text) (tokens : List Text) : Option (Nat × Nat) :=
  let titleMatches := matchCount tokens (tokenize P entry.title)
  let nameMatches := entry.nameMatches P tokens
  let fmMatches := matchCount tokens entry.fmTokens
  let bodyMatches := matchCount tokens entry.bodyTokens
  if (entry.fqnLower P).any (fun fqn => decide (q = fqn ∨ fqn ∈ tokens)) || decide (q ∈ entry.aliases) then
    some (0, tokens.length)
  else if 0 < titleMatches ∨ 0 < nameMatches then some (1, titleMatches + nameMatches)
  else if 0 < fmMatches then some (2, fmMatches)
  else if bodyMatches = tokens.length ∨ (2 < tokens.length ∧ tokens.length ≤ bodyMatches + 1) then
    some (3, bodyMatches)
  else none

structure SearchHit where
  entry : IndexEntry
  tier : Nat
  matched : Nat
  deriving DecidableEq

/-- The number the hits are put in the order of. -/
def SearchHit.score (hit : SearchHit) : Nat := (3 - hit.tier) * 1000 + hit.matched * 10 + hit.entry.routingBoost

def queryTokens (query : Text) : List Text :=
  (tokenize P (P.toLowerCase (trim query))).filter (· ∉ queryStopwords)

/-- The visible entries that match, as they stand in the index. -/
def searchHits (index : List IndexEntry) (scopes : List Scope) (query : Text) : List SearchHit :=
  if queryTokens P query = [] then []
  else (index.filter fun entry => pathVisible scopes entry.path).filterMap fun entry =>
    (entry.tier? P (P.toLowerCase (trim query)) (queryTokens P query)).map fun found => ⟨entry, found.1, found.2⟩

/-- The order of `hits.sort`. -/
def scoreOrder (h h' : SearchHit) : Prop :=
  h'.score < h.score ∨ (h.score = h'.score ∧ h.entry.path ≤ h'.entry.path)

instance : DecidableRel scoreOrder := fun h h' => by
  unfold scoreOrder
  infer_instance

def search (index : List IndexEntry) (scopes : List Scope) (query : Text) (limit : Nat) : List SearchHit :=
  ((searchHits P index scopes query).insertionSort scoreOrder).take limit

/-! ### The tool -/

structure SearchResult where
  refKind : RefKind
  path : Text
  fqn : Option Text
  oneLiner : Text

/-- `Math.min(Math.max(Number(args.limit ?? 10) || 10, 1), 50)`, cut to an integer as `slice` does. -/
def searchLimit (limit : Option ℚ) : Nat := ⌊min (max ((limit.filter (· ≠ 0)).getD 10) 1) 50⌋.toNat

inductive SearchOutcome where
  | invalidArgument
  /-- With the ledger event `coverage_gap` where there is no result. -/
  | results (results : List SearchResult) (ledgerEvent : Bool)

/-- `limit` is `Number(args.limit)`, if it is a number. -/
def toolSearchContext (index : List IndexEntry) (scopes : List Scope) (query : Text) (limit : Option ℚ) :
    SearchOutcome :=
  if trim query = [] then .invalidArgument
  else
    let results := (search P index scopes query (searchLimit limit)).map fun hit =>
      ⟨hit.entry.refKind, hit.entry.path, hit.entry.fqn.filter (· ≠ []),
        if hit.entry.oneLiner ≠ [] then hit.entry.oneLiner else hit.entry.title⟩
    .results results results.isEmpty

/-! ### The documented order -/

/-- Tier, then match count, then routing boost, then path. -/
def tierOrder (h h' : SearchHit) : Prop :=
  h.tier < h'.tier ∨ (h.tier = h'.tier ∧
    (h'.matched < h.matched ∨ (h.matched = h'.matched ∧
      (h'.entry.routingBoost < h.entry.routingBoost ∨ (h.entry.routingBoost = h'.entry.routingBoost ∧
        h.entry.path ≤ h'.entry.path)))))

instance : DecidableRel tierOrder := fun h h' => by
  unfold tierOrder
  infer_instance

/-- What the ranking is documented to be. -/
def rankedHits (index : List IndexEntry) (scopes : List Scope) (query : Text) : List SearchHit :=
  (searchHits P index scopes query).insertionSort tierOrder

end

end ContextLayer.SearchIndex
