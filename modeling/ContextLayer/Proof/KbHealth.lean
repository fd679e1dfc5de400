import Mathlib.Data.List.Chain
import ContextLayer.KbHealth
import ContextLayer.Proof.Changelog
import ContextLayer.Proof.Scan

/-!
# How far the screen explains a contamination

A path the scan recorded is made of edge ids, and an edge id is no name, so the row of such a document has no route.
Where none is recorded the broken object is a dependency itself, and the walk of the screen finds what lies within
eight hops.
-/

namespace ContextLayer.KbHealth

open Text

/-! ### The walk -/

section

variable {edges : List (Text × Text)} {start goal : Text}

theorem mem_targets {a b : Text} : b ∈ targets edges a ↔ (a, b) ∈ edges := by
  simp only [targets, List.mem_map, List.mem_filter, decide_eq_true_eq]
  constructor
  · rintro ⟨⟨x, y⟩, ⟨hmem, rfl⟩, rfl⟩
    exact hmem
  · intro h
    exact ⟨(a, b), ⟨h, rfl⟩, rfl⟩

/-- The steps out of a node. -/
def steps (edges : List (Text × Text)) (a : Text) : List (Unit × Text) := (targets edges a).map (Prod.mk ())

/-- A chain of edges from the start. -/
structure IsTrail (edges : List (Text × Text)) (start : Text) (trail : List Text) : Prop where
  start : trail.head? = some start
  joined : trail.IsChain fun a b => (a, b) ∈ edges

theorem IsTrail.snoc {trail : List Text} (h : IsTrail edges start trail) {hop : Text}
    (hhop : hop ∈ targets edges (trail.getLastD [])) : IsTrail edges start (trail ++ [hop]) := by
  obtain ⟨rest, rfl⟩ := List.head?_eq_some_iff.mp h.start
  refine ⟨rfl, List.isChain_append.mpr ⟨h.joined, List.isChain_singleton hop, ?_⟩⟩
  intro a ha b hb
  obtain rfl : hop = b := by simpa using hb
  have hlast : (start :: rest).getLastD [] = a := by
    rw [List.getLastD_eq_getLast?, Option.mem_def.mp ha, Option.getD_some]
  rw [hlast] at hhop
  exact mem_targets.mp hhop

/-- What a round leaves of the hops: the first that is the goal, or the nodes that are new and the trails to them. -/
theorem foldl_visitHop {seen : List Text} (hgoal : goal ∉ seen) (next : List (List Text)) (l : List (List Text × Text)) :
    (∃ e ∈ l, e.2 = goal ∧ (l.foldl (visitHop goal) ⟨none, seen, next⟩).found = some (e.1 ++ [goal])) ∨
      (goal ∉ l.map Prod.snd ∧ ∃ new, l.foldl (visitHop goal) ⟨none, seen, next⟩ =
          ⟨none, seen ++ Levels.fresh seen (l.map Prod.snd), next ++ new⟩ ∧
        new.map (·.getLastD []) = Levels.fresh seen (l.map Prod.snd) ∧ ∀ t ∈ new, ∃ e ∈ l, t = e.1 ++ [e.2]) := by
  induction l generalizing seen next with
  | nil => exact .inr ⟨List.not_mem_nil, [], by simp [Levels.fresh], rfl, by simp⟩
  | cons e l ih =>
      rw [List.foldl_cons, List.map_cons]
      by_cases hseen : e.2 ∈ seen
      · have hstep : visitHop goal ⟨none, seen, next⟩ e = ⟨none, seen, next⟩ := by simp [visitHop, hseen]
        have hne : goal ≠ e.2 := fun heq => hgoal (heq ▸ hseen)
        rw [hstep, Levels.fresh, if_pos hseen]
        rcases ih hgoal next with ⟨e', he', hfound⟩ | ⟨hnot, new, heq, hlast, hnew⟩
        · exact .inl ⟨e', List.mem_cons_of_mem _ he', hfound⟩
        · refine .inr ⟨by simp [hne, hnot], new, heq, hlast, fun t ht => ?_⟩
          obtain ⟨e', he', rfl⟩ := hnew t ht
          exact ⟨e', List.mem_cons_of_mem _ he', rfl⟩
      · by_cases hfound : e.2 = goal
        · have hstep : visitHop goal ⟨none, seen, next⟩ e = ⟨some (e.1 ++ [goal]), seen, next⟩ := by
            simp [visitHop, hfound, hgoal]
          have hstays : ∀ (l : List (List Text × Text)) (r : Round), r.found.isSome → l.foldl (visitHop goal) r = r := by
            intro l
            induction l with
            | nil => exact fun _ _ => rfl
            | cons e l ih =>
                intro r hr
                rw [List.foldl_cons, visitHop, if_pos (.inl hr), ih r hr]
          exact .inl ⟨e, List.mem_cons_self, hfound, by rw [hstep, hstays l _ rfl]⟩
        · have hstep : visitHop goal ⟨none, seen, next⟩ e = ⟨none, seen ++ [e.2], next ++ [e.1 ++ [e.2]]⟩ := by
            simp [visitHop, hfound, hseen]
          have hgoal' : goal ∉ seen ++ [e.2] := by simp [hgoal, Ne.symm hfound]
          rw [hstep, Levels.fresh, if_neg hseen]
          rcases ih hgoal' (next ++ [e.1 ++ [e.2]]) with ⟨e', he', hfound'⟩ | ⟨hnot, new, heq, hlast, hnew⟩
          · exact .inl ⟨e', List.mem_cons_of_mem _ he', hfound'⟩
          · refine .inr ⟨by simp [Ne.symm hfound, hnot], (e.1 ++ [e.2]) :: new, ?_, ?_, ?_⟩
            · rw [heq, List.append_assoc, List.append_assoc]
              rfl
            · rw [List.map_cons, hlast]
              simp
            · refine List.forall_mem_cons.mpr ⟨⟨e, List.mem_cons_self, rfl⟩, fun t ht => ?_⟩
              obtain ⟨e', he', rfl⟩ := hnew t ht
              exact ⟨e', List.mem_cons_of_mem _ he', rfl⟩

variable (edges) in
theorem map_onward (frontier : List (List Text)) :
    (onward edges frontier).map Prod.snd =
      (Levels.hops (steps edges) (frontier.map (·.getLastD []))).map Levels.Hop.target := by
  simp only [onward, Levels.hops, steps, List.map_flatMap, List.flatMap_map, List.map_map, Function.comp_def, List.map_id']

/-- Where nothing new is left, nothing is found later. -/
theorem level_empty {n : Nat} (h : (Levels.level (steps edges) start n).2 = []) (k : Nat) :
    (Levels.level (steps edges) start (n + k)).2 = [] ∧
      (Levels.level (steps edges) start (n + k)).1 = (Levels.level (steps edges) start n).1 := by
  induction k with
  | zero => exact ⟨h, rfl⟩
  | succ k ih =>
      obtain ⟨hempty, hsame⟩ := ih
      have hnew : Levels.fresh (Levels.level (steps edges) start (n + k)).1
          ((Levels.hops (steps edges) (Levels.level (steps edges) start (n + k)).2).map Levels.Hop.target) = [] := by
        rw [hempty]
        rfl
      have hstep : Levels.level (steps edges) start (n + (k + 1)) =
          ((Levels.level (steps edges) start (n + k)).1, []) := by
        rw [← Nat.add_assoc, Levels.level, hnew, List.append_nil]
      rw [hstep]
      exact ⟨rfl, hsame⟩

/-- **The rounds** find a trail to the goal exactly when it is near enough. -/
theorem rounds_spec (depth : Nat) {n : Nat} {frontier : List (List Text)}
    (hlast : frontier.map (·.getLastD []) = (Levels.level (steps edges) start n).2)
    (htrails : ∀ t ∈ frontier, IsTrail edges start t) (hgoal : goal ∉ (Levels.level (steps edges) start n).1) :
    match rounds edges goal depth (Levels.level (steps edges) start n).1 frontier with
    | some path => IsTrail edges start path ∧ path.getLast? = some goal ∧ Levels.Within (steps edges) start (n + depth) goal
    | none => ¬ Levels.Within (steps edges) start (n + depth) goal := by
  induction depth generalizing n frontier with
  | zero =>
      rw [rounds, Nat.add_zero, ← Levels.mem_level]
      exact hgoal
  | succ depth ih =>
      rw [rounds]
      by_cases hempty : frontier = []
      · rw [if_pos hempty]
        rw [hempty, List.map_nil] at hlast
        dsimp only
        rw [← Levels.mem_level, (level_empty hlast.symm _).2]
        exact hgoal
      · rw [if_neg hempty]
        have hmap := map_onward edges frontier
        rw [hlast] at hmap
        have htrail : ∀ e ∈ onward edges frontier, IsTrail edges start (e.1 ++ [e.2]) := by
          intro e he
          obtain ⟨t, ht, he⟩ := List.mem_flatMap.mp he
          obtain ⟨hop, hhop, rfl⟩ := List.mem_map.mp he
          exact (htrails t ht).snoc hhop
        rcases foldl_visitHop hgoal [] (onward edges frontier) with ⟨e, he, hfound, hround⟩ | ⟨hnot, new, hround, hnew, hends⟩
        · simp only [hround]
          have hmem : goal ∈ (Levels.level (steps edges) start (n + 1)).1 := by
            rw [Levels.level, Levels.mem_append_fresh, ← hmap]
            exact List.mem_append_right _ (List.mem_map.mpr ⟨e, he, hfound⟩)
          refine ⟨hfound ▸ htrail e he, by simp, (Levels.mem_level.mp hmem).mono ?_⟩
          omega
        · simp only [hround, List.nil_append]
          have hseen : (Levels.level (steps edges) start n).1 ++
              Levels.fresh (Levels.level (steps edges) start n).1 ((onward edges frontier).map Prod.snd) =
                (Levels.level (steps edges) start (n + 1)).1 := by rw [hmap]; rfl
          have hnext : new.map (·.getLastD []) = (Levels.level (steps edges) start (n + 1)).2 := by
            rw [hnew, hmap]
            rfl
          have hgoal' : goal ∉ (Levels.level (steps edges) start (n + 1)).1 := by
            rw [← hseen, Levels.mem_append_fresh, List.mem_append, not_or]
            exact ⟨hgoal, hnot⟩
          have hnewTrails : ∀ t ∈ new, IsTrail edges start t := by
            intro t ht
            obtain ⟨e, he, rfl⟩ := hends t ht
            exact htrail e he
          have hrest := ih hnext hnewTrails hgoal'
          rw [hseen]
          have hdepth : n + 1 + depth = n + (depth + 1) := by omega
          rw [hdepth] at hrest
          exact hrest

variable (edges) in
/-- **The walk of the screen** finds a trail to what lies within eight hops, and nothing else. -/
theorem shortestPath_spec (hne : start ≠ goal) :
    match shortestPath edges start goal with
    | some path => IsTrail edges start path ∧ path.getLast? = some goal ∧ Levels.Within (steps edges) start 8 goal
    | none => ¬ Levels.Within (steps edges) start 8 goal := by
  rw [shortestPath, if_neg hne]
  have hgoal : goal ∉ (Levels.level (steps edges) start 0).1 := by simpa [Levels.level] using Ne.symm hne
  have htrails : ∀ t ∈ [[start]], IsTrail edges start t := by
    intro t ht
    obtain rfl := List.mem_singleton.mp ht
    exact ⟨rfl, List.isChain_singleton start⟩
  exact rounds_spec 8 (n := 0) rfl htrails hgoal

end

/-! ### Names and edge ids -/

theorem dot_mem_neutralize (s : Text) : 0x2E ∈ neutralize s ↔ 0x2E ∈ s := by
  have hcollapse : ∀ s : Text, 0x2E ∈ collapseBreaks s ↔ 0x2E ∈ s := by
    intro s
    induction s with
    | nil => exact Iff.rfl
    | cons u s ih =>
        rw [collapseBreaks]
        by_cases hbreak : isBreak u = true
        · have hne : (0x2E : UInt16) ≠ u := by
            rintro rfl
            revert hbreak
            decide
          rw [if_pos hbreak]
          by_cases hnext : s.head?.any isBreak = true
          · rw [if_pos hnext, ih, List.mem_cons, or_iff_right hne]
          · rw [if_neg hnext, List.mem_cons, List.mem_cons, ih, or_iff_right hne, or_iff_right (by decide)]
        · rw [if_neg hbreak, List.mem_cons, List.mem_cons, ih]
  have hreplace : ∀ (u : UInt16) (replacement s : Text), u ≠ 0x2E → 0x2E ∉ replacement →
      (0x2E ∈ replaceUnit u replacement s ↔ 0x2E ∈ s) := by
    intro u replacement s hu hreplacement
    simp only [replaceUnit, List.mem_flatMap]
    constructor
    · rintro ⟨v, hv, hmem⟩
      by_cases hvu : v = u
      · rw [if_pos hvu] at hmem
        exact absurd hmem hreplacement
      · rw [if_neg hvu, List.mem_singleton] at hmem
        exact hmem ▸ hv
    · intro hmem
      exact ⟨0x2E, hmem, by rw [if_neg (Ne.symm hu)]; exact List.mem_singleton.mpr rfl⟩
  have hfold : ∀ (l : List (UInt16 × Text)) (s : Text), (∀ e ∈ l, e.1 ≠ 0x2E ∧ 0x2E ∉ e.2) →
      (0x2E ∈ l.foldl (fun s e => replaceUnit e.1 e.2 s) s ↔ 0x2E ∈ s) := by
    intro l
    induction l with
    | nil => exact fun _ _ => Iff.rfl
    | cons e l ih =>
        intro s hl
        obtain ⟨hu, hreplacement⟩ := hl e List.mem_cons_self
        rw [List.foldl_cons, ih _ fun e he => hl e (List.mem_cons_of_mem _ he), hreplace _ _ _ hu hreplacement]
  rw [neutralize, hfold _ _ (by decide), hcollapse]

theorem dot_mem_units {s : PyStr} : 0x2E ∈ units s ↔ CodePoint.unit 0x2E ∈ s := by
  simp only [units, List.mem_flatMap]
  constructor
  · rintro ⟨c, hc, hmem⟩
    cases c with
    | pair high low hhigh hlow =>
        have hhigh' := isHighSurrogate_iff.mp hhigh
        have hlow' := isLowSurrogate_iff.mp hlow
        simp only [CodePoint.units, List.mem_cons, List.not_mem_nil, or_false] at hmem
        rcases hmem with rfl | rfl
        · exact absurd hhigh' (by decide)
        · exact absurd hlow' (by decide)
    | unit u =>
        obtain rfl := List.mem_singleton.mp hmem
        exact hc
  · exact fun h => ⟨_, h, List.mem_singleton.mpr rfl⟩

theorem dot_notMem_edgeId {graph : LineageGraph} (h : HasEdgeIds graph) {e : GraphEdge} (he : e ∈ graph.edges) :
    CodePoint.unit 0x2E ∉ e.id := by
  obtain ⟨digest, hid, hdigest⟩ := h e he
  rw [hid, List.mem_append, not_or]
  refine ⟨by decide, fun hmem => ?_⟩
  have hhex : CodePoint.unit 0x2E ∉ (List.range 16).map fun n => CodePoint.unit (hexDigit n) := by decide
  exact hhex (hdigest _ hmem)

theorem dot_mem_broken {diffs : List Diff.SnapshotDiff} {b : PyStr} (h : Scan.IsBroken diffs b) : CodePoint.unit 0x2E ∈ b := by
  have hfqn : ∀ system schema name : PyStr, CodePoint.unit 0x2E ∈ Naming.fqn system schema name := by
    intro system schema name
    have hdot : CodePoint.unit 0x2E ∈ py "." := by decide
    simp only [Naming.fqn, List.mem_append]
    exact .inl (.inr hdot)
  obtain ⟨diff, -, ⟨o, -, rfl⟩ | ⟨o, -, -, rfl⟩⟩ := h
  · exact hfqn _ _ _
  · exact hfqn _ _ _

/-! ### What the scan found -/

section

variable {yaml : PyStr → Option PyJson} {tree : Scan.KbTree} {diffs : List Diff.SnapshotDiff} {graph : LineageGraph}
  {docs : List Scan.Doc} {result : Scan.ScanResult}

theorem contaminated_unique (hdocs : Scan.loadDocs yaml tree = some docs)
    (hscan : Scan.scan yaml tree diffs graph = some result) {c c' : Scan.Contaminated} (hc : c ∈ result.contaminated)
    (hc' : c' ∈ result.contaminated) (h : c.doc = c'.doc) : c = c' := by
  rw [Scan.mem_contaminated hdocs hscan] at hc hc'
  rw [h] at hc
  exact Option.some.inj (hc.symm.trans hc')

theorem exists_doc (hdocs : Scan.loadDocs yaml tree = some docs) (hscan : Scan.scan yaml tree diffs graph = some result)
    {c : Scan.Contaminated} (hc : c ∈ result.contaminated) : ∃ d ∈ docs, d.rel = c.doc := by
  obtain ⟨d, hd, hrel, -⟩ := (Scan.mem_contaminated_doc hdocs hscan).mp (List.mem_map_of_mem hc)
  exact ⟨d, hd, hrel⟩

/-- The reason that is written is one the scan has for the document. -/
theorem contaminated_reason (hdocs : Scan.loadDocs yaml tree = some docs)
    (hscan : Scan.scan yaml tree diffs graph = some result) {c : Scan.Contaminated} (hc : c ∈ result.contaminated)
    {d : Scan.Doc} (hd : d ∈ docs) (hrel : d.rel = c.doc) : Scan.IsBroken diffs c.contamination.object ∧
      Scan.Calls graph d c.contamination.object c.contamination.path := by
  obtain ⟨-, -, hfirst⟩ := Scan.contaminatedEntry_eq_some ((Scan.mem_contaminated hdocs hscan).mp hc)
  obtain ⟨o, hmem⟩ := Scan.mem_reasonsOf.mp (Scan.head_minimal hfirst).1
  have hget := Dict.get?_of_mem (Scan.reasons_spec docs graph (Scan.classify diffs).breaking).1 hmem
  rw [← hrel] at hget
  obtain ⟨hbreaking, -, rfl, hcalls, -⟩ :=
    Scan.shortest_of_reason (Scan.nodup_breaking diffs) (Scan.nodup_loadDocs hdocs) hd hget
  exact ⟨Scan.mem_breaking.mp hbreaking, hcalls⟩

theorem depsOf_of_mem (hdocs : Scan.loadDocs yaml tree = some docs) {d : Scan.Doc} (hd : d ∈ docs) :
    ∃ machineFm, Scan.depsOf machineFm d = some d.deps := by
  obtain ⟨loaded, -, hmap⟩ := Option.bind_eq_some_iff.mp hdocs
  refine ⟨loaded.machineFm, ?_⟩
  clear hdocs
  revert hmap
  generalize loaded.docs = l
  intro hmap
  induction l generalizing docs with
  | nil =>
      obtain rfl := Option.some.inj hmap
      exact absurd hd List.not_mem_nil
  | cons doc l ih =>
      rw [List.mapM_cons] at hmap
      obtain ⟨first, hfirst, hmap⟩ := Option.bind_eq_some_iff.mp hmap
      obtain ⟨others, hothers, hmap⟩ := Option.bind_eq_some_iff.mp hmap
      obtain rfl := Option.some.inj hmap
      rcases List.mem_cons.mp hd with rfl | hd
      · obtain ⟨deps, hdeps, rfl⟩ := Option.map_eq_some_iff.mp hfirst
        exact hdeps
      · exact ih hd hothers

/-- What a document declares, and its own object, it depends on. -/
theorem mem_deps (hdocs : Scan.loadDocs yaml tree = some docs) {d : Scan.Doc} (hd : d ∈ docs) :
    (∀ s ∈ declared d, s ∈ d.deps) ∧ ∀ o, (Frontmatter.get d.fm "object").bind PyJson.asStr = some o → o ∈ d.deps := by
  obtain ⟨machineFm, hdeps⟩ := depsOf_of_mem hdocs hd
  obtain ⟨dependsOn, hdependsOn, hdeps⟩ := Option.bind_eq_some_iff.mp hdeps
  obtain ⟨maps, -, hdeps⟩ := Option.bind_eq_some_iff.mp hdeps
  obtain ⟨roster, -, hdeps⟩ := Option.bind_eq_some_iff.mp hdeps
  obtain hdeps := Option.some.inj hdeps
  rw [← hdeps]
  constructor
  · intro s hs
    refine List.mem_append_left _ (List.mem_append_left _ (List.mem_append_left _ ?_))
    revert hs hdependsOn
    unfold declared
    cases hvalue : Frontmatter.get d.fm "depends_on" with
    | none => simp
    | some v =>
        cases v with
        | arr entries =>
            intro hdependsOn hs
            obtain ⟨v, hv, hstr⟩ := List.mem_filterMap.mp hs
            have hiter : PyJson.iterateOr (some (.arr entries)) = some entries := by
              cases entries with
              | nil => rfl
              | cons v entries => rfl
            rw [Scan.depEntries, hiter, Option.map_some] at hdependsOn
            rw [← Option.some.inj hdependsOn]
            refine List.mem_filterMap.mpr ⟨v, hv, ?_⟩
            cases v with
            | str t => exact hstr
            | _ => cases hstr
        | _ => simp
  · intro o ho
    refine List.mem_append_left _ (List.mem_append_right _ ?_)
    rw [ho]
    exact List.mem_singleton.mpr rfl

/-! ### What the screen reads -/

theorem asString_toJson (v : PyJson) : v.toJson.asString = v.asStr.map units := by
  cases v <;> rfl

theorem text_of_member {doc : KbDoc} {fm : Frontmatter.Members} {key : String}
    (h : doc.member key = (Frontmatter.get fm key).map PyJson.toJson) :
    doc.text key = ((Frontmatter.get fm key).bind PyJson.asStr).map units := by
  rw [KbDoc.text, h]
  cases Frontmatter.get fm key with
  | none => rfl
  | some v => exact asString_toJson v

/-- The front matter of a document with a reason. -/
structure Marked (d : Scan.Doc) (c : Scan.Contaminated) (doc : KbDoc) : Prop where
  human : doc.text "doc_class" = ((Frontmatter.get d.fm "doc_class").bind PyJson.asStr).map units
  own : doc.text "object" = ownObject d
  declared : dependsOn doc = (declared d).map units
  status : isContaminated doc = true
  contamination : contaminationOf doc = (reasonJson c.contamination).toJson

theorem marked_of_written (hdocs : Scan.loadDocs yaml tree = some docs)
    (hscan : Scan.scan yaml tree diffs graph = some result) {kb : HealthKb} (hkb : Written docs graph result kb)
    {c : Scan.Contaminated} (hc : c ∈ result.contaminated) {d : Scan.Doc} (hd : d ∈ docs) (hrel : d.rel = c.doc)
    {doc : KbDoc} (hdoc : doc ∈ kb.docs) (hpath : doc.path = units c.doc) : Marked d c doc := by
  have hreads := hkb.reads d hd doc hdoc (by rw [hpath, hrel])
  have hfm : writtenFm result d = Dict.set (Dict.set d.fm (py "status") (.str (py "contaminated"))) (py "contamination")
      (reasonJson c.contamination) := by
    have hsome : (result.contaminated.find? fun c => decide (c.doc = d.rel)).isSome :=
      List.find?_isSome.mpr ⟨c, hc, decide_eq_true hrel.symm⟩
    obtain ⟨c', hfind⟩ := Option.isSome_iff_exists.mp hsome
    have hkey : c'.doc = d.rel := by simpa using List.find?_some hfind
    obtain rfl := contaminated_unique hdocs hscan (List.mem_of_find?_eq_some hfind) hc (hkey.trans hrel)
    rw [writtenFm, hfind]
  have hother : ∀ key : String, py "status" ≠ py key → py "contamination" ≠ py key →
      Frontmatter.get (writtenFm result d) key = Frontmatter.get d.fm key := by
    intro key hstatus hcontamination
    rw [hfm, Frontmatter.get, Dict.get?_set_ne _ _ hcontamination, Dict.get?_set_ne _ _ hstatus, Frontmatter.get]
  have hstatus : Frontmatter.get (writtenFm result d) "status" = some (.str (py "contaminated")) := by
    rw [hfm, Frontmatter.get, Dict.get?_set_ne _ _ (by decide), Dict.get?_set_self]
  have hcontamination : Frontmatter.get (writtenFm result d) "contamination" = some (reasonJson c.contamination) := by
    rw [hfm, Frontmatter.get, Dict.get?_set_self]
  refine ⟨?_, ?_, ?_, ?_, ?_⟩
  · rw [text_of_member (hreads "doc_class"), hother _ (by decide) (by decide)]
  · rw [text_of_member (hreads "object"), hother _ (by decide) (by decide), ownObject]
  · have hmember := hreads "depends_on"
    rw [hother _ (by decide) (by decide)] at hmember
    rw [dependsOn, hmember, KbHealth.declared]
    cases Frontmatter.get d.fm "depends_on" with
    | none => rfl
    | some v =>
        cases v with
        | arr entries =>
            rw [Option.map_some, PyJson.toJson, PyJson.toJsonItems_eq_map]
            dsimp only
            rw [List.filterMap_map, List.map_filterMap]
            exact List.filterMap_congr fun v _ => asString_toJson v
        | _ => rfl
  · rw [isContaminated, text_of_member (hreads "status"), hstatus]
    decide
  · rw [contaminationOf, hreads "contamination", hcontamination]
    rfl

theorem field_object (r : Scan.Reason) : (((reasonJson r).toJson.field "object").bind Json.asString) =
    some (units r.object) := by
  rw [reasonJson, PyJson.toJson, PyJson.toJsonMembers_eq_map]
  rfl

theorem recordedPath_reason (r : Scan.Reason) : recordedPath (reasonJson r).toJson =
    if r.path = [] then none else some (r.path.map units) := by
  have hstrings : ∀ l : List PyStr, ((l.map PyJson.str).map PyJson.toJson).mapM Json.asString = some (l.map units) := by
    intro l
    induction l with
    | nil => rfl
    | cons s l ih =>
        rw [List.map_cons, List.map_cons, List.mapM_cons, ih]
        rfl
  by_cases h : r.path = []
  · rw [if_pos h, recordedPath, reasonJson, if_pos h, PyJson.toJson, PyJson.toJsonMembers_eq_map]
    rfl
  · have hfield : (reasonJson r).toJson.field "path" = some (.arr ((r.path.map PyJson.str).map PyJson.toJson)) := by
      rw [reasonJson, if_neg h, PyJson.toJson, PyJson.toJsonMembers_eq_map, ← PyJson.toJsonItems_eq_map]
      rfl
    rw [if_neg h, recordedPath, hfield]
    exact hstrings r.path

/-- The path of a document with a reason. -/
theorem pathOf_marked {d : Scan.Doc} {c : Scan.Contaminated} {doc : KbDoc} (h : Marked d c doc)
    (edges : List (Text × Text)) : (pathOf edges doc).1 =
      if c.contamination.path ≠ [] then some (c.contamination.path.map units)
      else if ownObject d = some (units c.contamination.object) then some [units c.contamination.object]
      else if units c.contamination.object ∈ (declared d).map units then
        some (units c.contamination.object :: (ownObject d).toList)
      else (ownObject d).bind (shortestPath edges (units c.contamination.object)) := by
  rw [pathOf, h.contamination, recordedPath_reason, field_object, h.own, h.declared]
  by_cases hpath : c.contamination.path = []
  · rw [if_pos hpath, if_neg (not_not.mpr hpath)]
    dsimp only
    by_cases hown : ownObject d = some (units c.contamination.object)
    · rw [if_pos hown, if_pos hown]
    · rw [if_neg hown, if_neg hown]
      by_cases hdeclared : units c.contamination.object ∈ (declared d).map units
      · rw [if_pos hdeclared, if_pos hdeclared]
      · rw [if_neg hdeclared, if_neg hdeclared]
        cases (ownObject d).bind (shortestPath edges (units c.contamination.object)) <;> rfl
  · rw [if_neg hpath, if_pos hpath]

/-! ### One document -/

/-- The row of a document has a route to it. -/
def HasRoute (kb : HealthKb) (d : Scan.Doc) (c : Scan.Contaminated) (doc : KbDoc) : Prop :=
  ∃ hops, (pathOf (lineageEdges kb) doc).1.map (List.map neutralize) = some (hops.map neutralize) ∧
    IsRoute kb (units c.contamination.object) (d.deps.map units) hops

/-- A recorded path names no object. -/
theorem not_hasRoute_recorded (hdocs : Scan.loadDocs yaml tree = some docs)
    (hscan : Scan.scan yaml tree diffs graph = some result) (hids : HasEdgeIds graph) {kb : HealthKb}
    {c : Scan.Contaminated} (hc : c ∈ result.contaminated) {d : Scan.Doc} (hd : d ∈ docs) (hrel : d.rel = c.doc)
    {doc : KbDoc} (hmarked : Marked d c doc) (hpath : c.contamination.path ≠ []) : ¬ HasRoute kb d c doc := by
  rintro ⟨hops, heq, hroute⟩
  obtain ⟨hbroken, hcalls⟩ := contaminated_reason hdocs hscan hc hd hrel
  rw [pathOf_marked hmarked, if_pos hpath, Option.map_some, Option.some.injEq] at heq
  obtain ⟨id, ids, hcons⟩ := List.exists_cons_of_ne_nil hpath
  have hid : CodePoint.unit 0x2E ∉ id := by
    obtain ⟨hnil, -⟩ | ⟨-, r, -, -, hwalk⟩ := hcalls
    · exact absurd hnil hpath
    · obtain ⟨arc, harc, hlabel⟩ := (Scan.walk_of_mem hwalk).exists_arc (hcons ▸ List.mem_cons_self)
      obtain ⟨e, he, rfl⟩ := List.mem_map.mp harc
      exact hlabel ▸ dot_notMem_edgeId hids he
  obtain ⟨rest, rfl⟩ := List.head?_eq_some_iff.mp hroute.start
  rw [hcons] at heq
  have hhead : neutralize (units id) = neutralize (units c.contamination.object) := (List.cons.inj heq).1
  refine hid (dot_mem_units.mp ((dot_mem_neutralize _).mp ?_))
  rw [hhead, dot_mem_neutralize, dot_mem_units]
  exact dot_mem_broken hbroken

theorem hasRoute_iff (hdocs : Scan.loadDocs yaml tree = some docs)
    (hscan : Scan.scan yaml tree diffs graph = some result) (hids : HasEdgeIds graph) {kb : HealthKb}
    {c : Scan.Contaminated} (hc : c ∈ result.contaminated) {d : Scan.Doc} (hd : d ∈ docs) (hrel : d.rel = c.doc)
    {doc : KbDoc} (hmarked : Marked d c doc) :
    HasRoute kb d c doc ↔ c.contamination.path = [] ∧ Routable kb d (units c.contamination.object) := by
  by_cases hpath : c.contamination.path = []
  swap
  · exact iff_of_false (not_hasRoute_recorded hdocs hscan hids hc hd hrel hmarked hpath) fun h => hpath h.1
  rw [and_iff_right hpath]
  obtain ⟨hdeclaredDeps, hownDeps⟩ := mem_deps hdocs hd
  have howns : ∀ own ∈ ownObject d, own ∈ d.deps.map units := by
    intro own hown
    obtain ⟨o, ho, rfl⟩ := Option.map_eq_some_iff.mp hown
    exact List.mem_map_of_mem (hownDeps o ho)
  set broken := units c.contamination.object with hbroken
  rw [HasRoute, pathOf_marked hmarked, if_neg (not_not.mpr hpath), ← hbroken]
  unfold Routable
  by_cases hself : ownObject d = some broken
  · refine iff_of_true ⟨[broken], ?_, rfl, List.isChain_singleton broken, broken, howns _ hself, rfl⟩ (.inl hself)
    rw [if_pos hself]
    rfl
  rw [if_neg hself, or_iff_right hself, and_iff_right hself]
  by_cases hdeclared : broken ∈ (declared d).map units
  · rw [if_pos hdeclared, and_iff_right hdeclared, or_iff_left fun h => h.1 hdeclared]
    have hdep : broken ∈ d.deps.map units := by
      obtain ⟨s, hs, heq⟩ := List.mem_map.mp hdeclared
      exact heq ▸ List.mem_map_of_mem (hdeclaredDeps s hs)
    cases hown : ownObject d with
    | none =>
        exact iff_of_true ⟨[broken], rfl, rfl, List.isChain_singleton broken, broken, hdep, rfl⟩ (by simp)
    | some own =>
        constructor
        · rintro ⟨hops, heq, hroute⟩ o ho
          obtain rfl := Option.some.inj ho
          obtain ⟨rest, rfl⟩ := List.head?_eq_some_iff.mp hroute.start
          have htail : [neutralize own] = rest.map neutralize := (List.cons.inj (Option.some.inj heq)).2
          obtain ⟨dep, rfl⟩ := List.length_eq_one_iff.mp (by simpa using (congrArg List.length htail).symm)
          obtain ⟨dep', hdep', hlast⟩ := hroute.stop
          obtain rfl : dep = dep' := by simpa using hlast
          exact ⟨dep, hdep', (List.singleton_inj.mp htail).symm, (List.isChain_pair.mp hroute.joined)⟩
        · intro h
          obtain ⟨dep, hdep', heq, hedge⟩ := h own rfl
          refine ⟨[broken, dep], ?_, rfl, List.isChain_pair.mpr hedge, dep, hdep', rfl⟩
          simp [heq]
  · rw [if_neg hdeclared, or_iff_right fun h => hdeclared h.1, and_iff_right hdeclared]
    cases hown : ownObject d with
    | none => exact iff_of_false (by rintro ⟨hops, heq, -⟩; cases heq) (by simp)
    | some own =>
        have hne : broken ≠ own := fun heq => hself (hown.trans (congrArg some heq.symm))
        have hspec := shortestPath_spec (lineageEdges kb) hne
        rw [Option.bind_some]
        cases hwalk : shortestPath (lineageEdges kb) broken own with
        | none =>
            rw [hwalk] at hspec
            refine iff_of_false (by rintro ⟨hops, heq, -⟩; cases heq) ?_
            rintro ⟨o, ho, hwithin⟩
            obtain rfl := Option.some.inj ho
            exact hspec hwithin
        | some path =>
            rw [hwalk] at hspec
            obtain ⟨htrail, hlast, hwithin⟩ := hspec
            exact iff_of_true ⟨path, rfl, htrail.start, htrail.joined, own, howns own hown, hlast⟩ ⟨own, rfl, hwithin⟩

/-! ### The whole list -/

theorem mem_shown {kb : HealthKb} {scopes : List Scope} {doc : KbDoc} : doc ∈ shown kb scopes ↔
    doc ∈ kb.docs ∧ isContaminated doc = true ∧ pathVisible scopes doc.path = true := by
  rw [shown, List.mem_insertionSort, List.mem_filter, Bool.and_eq_true]

theorem rowOf_doc (edges : List (Text × Text)) (doc : KbDoc) : (rowOf edges doc).doc = neutralize doc.path := by
  simp only [rowOf]

/-- Where all that is shown is of a listed class, the rows are those of what is shown. -/
theorem rows_of_human {kb : HealthKb} {scopes : List Scope} (h : ∀ doc ∈ shown kb scopes, isHuman doc = true) :
    contaminationList kb scopes = (shown kb scopes).map (rowOf (lineageEdges kb)) := by
  have hfilter : (kb.docs.filter fun doc => isHuman doc && isContaminated doc && pathVisible scopes doc.path) =
      kb.docs.filter fun doc => isContaminated doc && pathVisible scopes doc.path := by
    refine List.filter_congr fun doc hdoc => ?_
    by_cases hshown : isContaminated doc = true ∧ pathVisible scopes doc.path = true
    · rw [h doc (mem_shown.mpr ⟨hdoc, hshown⟩), Bool.true_and]
    · rw [Bool.and_assoc, Bool.eq_false_iff.mpr fun hand => hshown (Bool.and_eq_true_iff.mp hand), Bool.and_false]
  rw [contaminationList, shown, hfilter]
  refine (List.map_insertionSort (fun a b : KbDoc => neutralize a.path ≤ neutralize b.path)
    (fun a b : ContaminationRow => a.doc ≤ b.doc) (rowOf (lineageEdges kb)) _ fun a _ b _ => ?_).symm
  rw [rowOf_doc, rowOf_doc]

/-- A class that is not listed leaves a row out. -/
theorem human_of_rows {kb : HealthKb} {scopes : List Scope}
    (h : (contaminationList kb scopes).length = (shown kb scopes).length) : ∀ doc ∈ shown kb scopes, isHuman doc = true := by
  rw [contaminationList, shown, List.length_insertionSort, List.length_insertionSort, List.length_map] at h
  have hsub : (kb.docs.filter fun doc => isHuman doc && isContaminated doc && pathVisible scopes doc.path) =
      (kb.docs.filter fun doc => isContaminated doc && pathVisible scopes doc.path).filter isHuman := by
    rw [List.filter_filter]
    exact List.filter_congr fun doc _ => Bool.and_assoc _ _ _
  rw [hsub] at h
  have hall := List.length_filter_eq_length_iff.mp h
  intro doc hdoc
  obtain ⟨hmem, hcontaminated, hvisible⟩ := mem_shown.mp hdoc
  exact hall doc (List.mem_filter.mpr ⟨hmem, Bool.and_eq_true_iff.mpr ⟨hcontaminated, hvisible⟩⟩)

/-- What is explained has a route, and is of a listed class. -/
theorem hasRoute_of_explained (hdocs : Scan.loadDocs yaml tree = some docs)
    (hscan : Scan.scan yaml tree diffs graph = some result) {kb : HealthKb} (hkb : Written docs graph result kb)
    {scopes : List Scope} {hopsOf : KbDoc → List Text} (h : Explained docs result kb scopes hopsOf)
    {c : Scan.Contaminated} (hc : c ∈ result.contaminated) (hvisible : pathVisible scopes (units c.doc) = true)
    {d : Scan.Doc} (hd : d ∈ docs) (hrel : d.rel = c.doc) :
    ∃ doc, Marked d c doc ∧ isHuman doc = true ∧ HasRoute kb d c doc := by
  obtain ⟨hrows, hall, hroute⟩ := h
  obtain ⟨doc, hshown, hpath⟩ := hall c hc hvisible
  have hhumans := human_of_rows (by simpa using congrArg List.length hrows)
  rw [rows_of_human hhumans, List.map_map] at hrows
  exact ⟨doc, marked_of_written hdocs hscan hkb hc hd hrel (mem_shown.mp hshown).1 hpath, hhumans doc hshown, hopsOf doc,
    (Prod.mk.inj (List.map_inj_left.mp hrows doc hshown)).2, hroute c hc d hd hrel doc hshown hpath⟩

end

/-! ### A document of a broken object -/

theorem get?_image {fm : Frontmatter.Members} (h : ∀ m ∈ fm, m.1.any CodePoint.isLone = false) (key : String) :
    Dict.get? (fm.map fun m => (units m.1, m.2.toJson)) (js key) = (Frontmatter.get fm key).map PyJson.toJson := by
  have hkey : ∀ k : PyStr, k.any CodePoint.isLone = false → (units k = js key ↔ k = py key) := by
    intro k hk
    constructor
    · intro heq
      rw [py, ← heq, codePoints_units hk]
    · rintro rfl
      exact flatMap_units_codePoints (js key)
  induction fm with
  | nil => rfl
  | cons m fm ih =>
      rw [List.map_cons, Frontmatter.get, Dict.get?_cons, Dict.get?_cons]
      by_cases hm : m.1 = py key
      · rw [if_pos hm, if_pos ((hkey _ (h m List.mem_cons_self)).mpr hm), Option.map_some]
      · rw [if_neg hm, if_neg fun heq => hm ((hkey _ (h m List.mem_cons_self)).mp heq)]
        exact ih fun m hm => h m (List.mem_cons_of_mem _ hm)

/-- A view over a table. -/
def viewGraph : LineageGraph where
  nodes := [⟨py "shop.public.raw", none, suffix_of_none⟩, ⟨py "shop.public.orders", none, suffix_of_none⟩]
  edges := [⟨py "sha256:a", py "shop.public.raw", py "shop.public.orders", []⟩]
  endpoints := by decide

def tableRemoved : Diff.SnapshotDiff where
  system := py "shop"
  added := []
  removed := [⟨(py "table", py "public", py "raw"), .removed, some .breaking, none, none, [], [], []⟩]
  changedStructural := []
  changedMetadataOnly := []
  unchanged := []
  skippedUnknownKinds := []
  sourcePropertiesChanged := false

def notesRel : PyStr := py "notes/orders.md"

/-- The front matter of a document about an object. -/
def notesFm (object : PyStr) : Frontmatter.Members :=
  [(py "doc_class", .str (py "human-object")), (py "status", .str (py "verified")), (py "object", .str object)]

def notesText (object : PyStr) : PyStr := py "doc_class: human-object\nstatus: verified\nobject: " ++ object ++ py "\n"

def notesYaml (object raw : PyStr) : Option PyJson := if raw = notesText object then some (.obj (notesFm object)) else none

def notesTree (object : PyStr) : Scan.KbTree where
  files := [(notesRel, py "---\n" ++ notesText object ++ py "---\n")]
  nodup := List.pairwise_singleton _ _

def notesDoc (object : PyStr) : Scan.Doc := ⟨notesRel, notesFm object, [], [object]⟩

/-- The tree after the sync. -/
def notesKb (result : Scan.ScanResult) (object : PyStr) : HealthKb where
  docs := [⟨units notesRel, some ((writtenFm result (notesDoc object)).map fun m => (units m.1, m.2.toJson)), [], js "orders"⟩]
  keyedByPath := List.pairwise_singleton _ _
  edges := [[(js "source", .str (js "shop.public.raw")), (js "target", .str (js "shop.public.orders"))]]

def everything : List Scope := [⟨js "**", [.run true], compileGlob_everything⟩]

theorem hasEdgeIds_viewGraph : HasEdgeIds viewGraph := by
  intro e he
  obtain rfl := List.mem_singleton.mp he
  exact ⟨py "a", by decide, by decide⟩

theorem written_notesKb (object : PyStr) {c : Scan.Contaminated} {result : Scan.ScanResult}
    (hresult : result.contaminated = [c]) (hdoc : c.doc = notesRel) :
    Written [notesDoc object] viewGraph result (notesKb result object) := by
  have hfm : writtenFm result (notesDoc object) = Dict.set (Dict.set (notesFm object) (py "status")
      (.str (py "contaminated"))) (py "contamination") (reasonJson c.contamination) := by
    have hfind : [c].find? (fun c => decide (c.doc = (notesDoc object).rel)) = some c := by simp [hdoc, notesDoc]
    rw [writtenFm, hresult, hfind]
    rfl
  have hname : notesRel.any CodePoint.isLone = false := by decide
  have hedges : lineageEdges (notesKb result object) = (viewGraph.edges.filter fun e =>
      decide (e.source ≠ [] ∧ e.target ≠ [])).map fun e => (units e.source, units e.target) := by
    simp only [lineageEdges, notesKb]
    decide
  refine ⟨fun d hd => ?_, fun d hd => ?_, fun d hd doc hdoc' hpath key => ?_, fun doc hdoc' _ => ?_, hedges⟩
  · obtain rfl := List.mem_singleton.mp hd
    exact hname
  · obtain rfl := List.mem_singleton.mp hd
    exact ⟨_, List.mem_cons_self, rfl⟩
  · obtain rfl := List.mem_singleton.mp hd
    obtain rfl := List.mem_singleton.mp hdoc'
    refine get?_image (fun m hm => ?_) key
    have hkeys : ((writtenFm result (notesDoc object)).map Prod.fst).all (fun k => !k.any CodePoint.isLone) = true := by
      rw [hfm]
      exact (by decide : [py "doc_class", py "status", py "object", py "contamination"].all
        (fun k => !k.any CodePoint.isLone) = true)
    simpa using List.all_eq_true.mp hkeys m.1 (List.mem_map_of_mem hm)
  · obtain rfl := List.mem_singleton.mp hdoc'
    exact ⟨c, hresult ▸ List.mem_cons_self, by rw [hdoc]⟩

theorem loadDocs_orders : Scan.loadDocs (notesYaml (py "shop.public.orders")) (notesTree (py "shop.public.orders")) =
    some [notesDoc (py "shop.public.orders")] := by rfl

theorem loadDocs_raw : Scan.loadDocs (notesYaml (py "shop.public.raw")) (notesTree (py "shop.public.raw")) =
    some [notesDoc (py "shop.public.raw")] := by rfl

theorem scan_orders : ∃ result c, Scan.scan (notesYaml (py "shop.public.orders")) (notesTree (py "shop.public.orders"))
      [tableRemoved] viewGraph = some result ∧ result.contaminated = [c] ∧ c.doc = notesRel ∧
        c.contamination = ⟨py "shop.public.raw", Scan.removedImpact, [py "sha256:a"]⟩ := by
  refine ⟨_, ⟨notesRel, some (.str (py "verified")), ⟨py "shop.public.raw", Scan.removedImpact, [py "sha256:a"]⟩,
    [⟨py "shop.public.raw", Scan.removedImpact, [py "sha256:a"]⟩]⟩, by rw [Scan.scan, loadDocs_orders]; rfl, ?_, rfl, rfl⟩
  rfl

theorem scan_raw : ∃ result c, Scan.scan (notesYaml (py "shop.public.raw")) (notesTree (py "shop.public.raw"))
      [tableRemoved] viewGraph = some result ∧ result.contaminated = [c] ∧ c.doc = notesRel ∧
        c.contamination = ⟨py "shop.public.raw", Scan.removedImpact, []⟩ := by
  refine ⟨_, ⟨notesRel, some (.str (py "verified")), ⟨py "shop.public.raw", Scan.removedImpact, []⟩,
    [⟨py "shop.public.raw", Scan.removedImpact, []⟩]⟩, by rw [Scan.scan, loadDocs_raw]; rfl, ?_, rfl, rfl⟩
  rfl

end ContextLayer.KbHealth
