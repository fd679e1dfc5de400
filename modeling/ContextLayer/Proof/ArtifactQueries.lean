import ContextLayer.ArtifactQueries
import ContextLayer.Proof.Artifact
import ContextLayer.Proof.Platform

/-!
# One result for each query

What the rounds give is stored under names that nothing keeps apart: a second query of one name takes the place of
the first, and the name `__proto__` stores nothing in an object.
-/

namespace ContextLayer

open Text

section Rounds

variable {ν : Type} {run : Nat → Json → Except QueryFailure ν} {store : List (Text × ν) → Text → ν → List (Text × ν)}

def nameOf (query : Json) : Text := textOf (query.field "name")

/-- What the rounds give, one after the other. -/
def Gives (run : Nat → Json → Except QueryFailure ν) (i : Nat) (queries : List Json) (own : List ν) : Prop :=
  (queries.zipIdx i).map (fun q => run q.2 q.1) = own.map .ok

theorem overQueries_eq_ok {i : Nat} {queries : List Json} {entries entries' : List (Text × ν)}
    (h : overQueries run store i queries entries = .ok entries') : ∃ own, Gives run i queries own ∧
      entries' = ((queries.map nameOf).zip own).foldl (fun d e => store d e.1 e.2) entries := by
  induction queries generalizing i entries with
  | nil =>
      cases h
      exact ⟨[], rfl, rfl⟩
  | cons query queries ih =>
      cases hrun : run i query with
      | error failure =>
          rw [overQueries, hrun] at h
          cases h
      | ok v =>
          rw [overQueries, hrun] at h
          obtain ⟨own, hown, rfl⟩ := ih h
          refine ⟨v :: own, ?_, rfl⟩
          rw [Gives, List.zipIdx_cons, List.map_cons, List.map_cons, hrun, hown]

theorem Gives.length_eq {i : Nat} {queries : List Json} {own : List ν} (h : Gives run i queries own) :
    own.length = queries.length := by
  have := congrArg List.length h
  simpa using this.symm

theorem Gives.unique {i : Nat} {queries : List Json} {own own' : List ν} (h : Gives run i queries own)
    (h' : Gives run i queries own') : own = own' :=
  List.map_injective_iff.mpr (fun _ _ heq => Except.ok.inj heq) (h.symm.trans h')

theorem Gives.keys {i : Nat} {queries : List Json} {own : List ν} (h : Gives run i queries own) :
    ((queries.map nameOf).zip own).map Prod.fst = queries.map nameOf :=
  List.map_fst_zip (by rw [List.length_map, h.length_eq])

/-- There is an entry for each query, with what its own round gave, and no other. -/
def OneEntryEach (run : Nat → Json → Except QueryFailure ν) (queries : List Json) (entries : List (Text × ν)) :
    Prop :=
  ∃ own, Gives run 0 queries own ∧ entries.Perm ((queries.map nameOf).zip own)

end Rounds

theorem oneEntryEach_set_iff {ν : Type} {run : Nat → Json → Except QueryFailure ν} {queries : List Json}
    {entries : List (Text × ν)} (h : overQueries run Dict.set 0 queries [] = .ok entries) :
    OneEntryEach run queries entries ↔ (queries.map nameOf).Nodup := by
  obtain ⟨own, hown, hentries⟩ := overQueries_eq_ok h
  change entries = Dict.ofList _ at hentries
  constructor
  · rintro ⟨own', hown', hperm⟩
    rw [← hown'.keys, ← (hperm.map Prod.fst).nodup_iff, hentries]
    exact Dict.nodup_ofList _
  · intro hnodup
    refine ⟨own, hown, List.Perm.of_eq ?_⟩
    rw [hentries, Dict.ofList_eq_self (by rwa [hown.keys])]

theorem keys_foldl_setOwn (pairs entries : List (Text × Json)) (h : js "__proto__" ∉ entries.map Prod.fst) :
    js "__proto__" ∉ (pairs.foldl (fun d e => setOwn d e.1 e.2) entries).map Prod.fst := by
  induction pairs generalizing entries with
  | nil => exact h
  | cons e pairs ih =>
      rw [List.foldl_cons]
      apply ih
      rw [setOwn]
      by_cases hproto : e.1 = js "__proto__"
      · rwa [if_pos hproto]
      · rw [if_neg hproto, Dict.map_fst_set]
        split
        · exact h
        · rw [List.mem_append, List.mem_singleton]
          exact fun hmem => hmem.elim h fun heq => hproto heq.symm

theorem foldl_setOwn_eq {pairs : List (Text × Json)} (h : js "__proto__" ∉ pairs.map Prod.fst)
    (entries : List (Text × Json)) : pairs.foldl (fun d e => setOwn d e.1 e.2) entries =
      pairs.foldl (fun d e => Dict.set d e.1 e.2) entries := by
  refine List.foldl_ext _ _ _ fun d e he => ?_
  rw [setOwn, if_neg]
  rintro heq
  exact h (heq ▸ List.mem_map_of_mem he)

theorem oneEntryEach_setOwn_iff {run : Nat → Json → Except QueryFailure Json} {queries : List Json}
    {entries : List (Text × Json)} (h : overQueries run setOwn 0 queries [] = .ok entries)
    (hnodup : (queries.map nameOf).Nodup) :
    OneEntryEach run queries entries ↔ js "__proto__" ∉ queries.map nameOf := by
  obtain ⟨own, hown, hentries⟩ := overQueries_eq_ok h
  constructor
  · rintro ⟨own', hown', hperm⟩
    rw [← hown'.keys, ← (hperm.map Prod.fst).mem_iff, hentries]
    exact keys_foldl_setOwn _ _ List.not_mem_nil
  · intro hproto
    refine ⟨own, hown, List.Perm.of_eq ?_⟩
    rw [hentries, foldl_setOwn_eq (by rwa [hown.keys])]
    exact Dict.ofList_eq_self (by rwa [hown.keys])

theorem queryNames_eq {artifact : List (Text × Json)} (h : artifactProblems artifact = []) :
    queryNames artifact = (queriesOf artifact).map nameOf := by
  obtain ⟨-, ⟨queries, hmember, -, hqueries⟩, -⟩ := artifactProblems_eq_nil h
  rw [queryNames, queriesOf, hmember, itemsOf, List.map_map, ← List.filterMap_eq_map]
  refine List.filterMap_congr fun q hq => ?_
  obtain ⟨name, hname, -⟩ := name_of_queryProblems (hqueries q hq)
  change (q.1.field "name").bind Json.asString = some (((q.1.field "name").bind Json.asString).getD [])
  rw [hname]
  rfl

/-- **One result set a query**, and the objects it cites, if and only if the queries have different names and none of
them is `__proto__`. -/
theorem oneEntryEach_iff (P : Platform) (deps : PublishDeps) (calls : QueryCalls) {artifact : List (Text × Json)}
    {cited : List (Text × List Text)} {results : List (Text × Json)} (h : artifactProblems artifact = [])
    (hcited : citedByQuery deps calls artifact = .ok cited)
    (hresults : executeArtifactQueries P deps calls artifact = .ok results) :
    (OneEntryEach (checkQuery deps calls) (queriesOf artifact) cited ∧
        OneEntryEach (executeQuery P deps calls) (queriesOf artifact) results) ↔
      (queryNames artifact).Nodup ∧ js "__proto__" ∉ queryNames artifact := by
  rw [queryNames_eq h, oneEntryEach_set_iff hcited]
  exact and_congr_right fun hnodup => oneEntryEach_setOwn_iff hresults hnodup

/-! ### Two queries -/

def pinnedState : SystemState where
  canonicalBodySha256 := js "1"
  systemClass := js "sql"
  objects := []
  keyedByFqn := List.nodup_nil

def twoQueries (first second : String) : List (Text × Json) :=
  let query (name statement : String) : Json := .obj [(js "name", .str (js name)), (js "system", .str (js "crm")),
    (js "request", .obj [(js "dialect", .str (js "sql")), (js "statement", .str (js statement))]),
    (js "validated_against", .str (js "sha256:1")), (js "backing", .obj [(js "mode", .str (js "direct"))])]
  [(js "artifact_version", .str (js "1")), (js "id", .str (js "ra-00000001")), (js "title", .str (js "Orders")),
    (js "queries", .arr [query first "SELECT 1", query second "SELECT 2"])]

def publishDeps : PublishDeps where
  ws := ⟨[], [(js "crm", pinnedState)], []⟩
  identity := ⟨js "dev", [], none⟩
  profile := ⟨js "report", none, none⟩
  sessionId := none
  auditId := js "audit"

/-- Every query passes, and the result of each is its place. -/
def answering : QueryCalls where
  validateRequest i _ _ := .ok { ValidateOutcome.base [] with verdict := .pass, citedObjects := [decimal i] }
  getSyncSystem _ _ := some ⟨js "postgres", js "^1", .obj [(js "credentials",
    .arr [.obj [(js "required_for", .arr [.str (js "query")])]])]⟩
  enqueue _ _ := .ok (js "job")
  awaitJobResult i _ := .succeeded (some (.obj [(js "rows", .num (.ofNat i))]))

theorem oneEntryEach_twoQueries : (OneEntryEach (checkQuery publishDeps answering) (queriesOf (twoQueries "a" "b"))
        [(js "a", [decimal 0]), (js "b", [decimal 1])] ∧
      OneEntryEach (executeQuery .ideal publishDeps answering) (queriesOf (twoQueries "a" "b"))
        [(js "a", .obj [(js "rows", .num (.ofNat 0))]), (js "b", .obj [(js "rows", .num (.ofNat 1))])]) ↔
    (queryNames (twoQueries "a" "b")).Nodup ∧ js "__proto__" ∉ queryNames (twoQueries "a" "b") :=
  oneEntryEach_iff .ideal publishDeps answering (by decide +kernel) (by rfl) (by rfl)

/-- Of two queries `a` the second's result is kept, and the first's is gone. -/
theorem second_replaces_first : artifactProblems (twoQueries "a" "a") = [] ∧
    citedByQuery publishDeps answering (twoQueries "a" "a") = .ok [(js "a", [decimal 1])] ∧
    executeArtifactQueries .ideal publishDeps answering (twoQueries "a" "a") =
      .ok [(js "a", .obj [(js "rows", .num (.ofNat 1))])] :=
  ⟨by decide +kernel, by rfl, by rfl⟩

end ContextLayer
