import ContextLayer.Search
import ContextLayer.Lib.StableSort
import ContextLayer.Proof.Platform

/-!
# Where the number ranks as documented

Ten times the matches and the boost stand below the thousand of a tier only as long as the matches are few. An entry
of a weaker tier comes first where they make up for the tiers between, and that takes a query of more than a hundred
tokens.
-/

namespace ContextLayer.SearchIndex

open Text StableSort

section

variable {P : Platform} {index : List IndexEntry} {scopes : List Scope} {query : Text}

/-! ### The hits -/

theorem tier?_bounds {entry : IndexEntry} {q : Text} {tokens : List Text} {found : Nat × Nat} (hne : tokens ≠ [])
    (h : entry.tier? P q tokens = some found) : found.1 ≤ 3 ∧ 1 ≤ found.2 ∧ found.2 ≤ tokens.length + 1 ∧
      (found.1 ≠ 1 → found.2 ≤ tokens.length) ∧ (found.1 = 0 → found.2 = tokens.length) := by
  have hpos : 1 ≤ tokens.length := List.length_pos_iff.mpr hne
  have hcount : ∀ known : List Text, matchCount tokens known ≤ tokens.length := fun known => List.countP_le_length
  have htitle := hcount (tokenize P entry.title)
  have hfm := hcount entry.fmTokens
  have hbody := hcount entry.bodyTokens
  have hname : entry.nameMatches P tokens ≤ 1 := by
    unfold IndexEntry.nameMatches
    dsimp only
    split <;> omega
  unfold IndexEntry.tier? at h
  dsimp only at h
  split at h
  · cases h
    exact ⟨Nat.zero_le 3, hpos, Nat.le_succ _, fun _ => le_refl _, fun _ => rfl⟩
  · split at h
    · cases h
      refine ⟨?_, ?_, ?_, fun h1 => absurd rfl h1, fun h0 => by cases h0⟩ <;> dsimp only <;> omega
    · split at h
      · cases h
        refine ⟨?_, ?_, ?_, fun _ => ?_, fun h0 => by cases h0⟩ <;> dsimp only <;> omega
      · split at h
        · cases h
          refine ⟨?_, ?_, ?_, fun _ => ?_, fun h0 => by cases h0⟩ <;> dsimp only <;> omega
        · cases h

theorem mem_searchHits {hit : SearchHit} (h : hit ∈ searchHits P index scopes query) : hit.entry ∈ index ∧
    queryTokens P query ≠ [] ∧
    hit.entry.tier? P (P.toLowerCase (Connections.trim query)) (queryTokens P query) = some (hit.tier, hit.matched) := by
  unfold searchHits at h
  split at h
  · cases h
  · rename_i hne
    obtain ⟨entry, hentry, hfound⟩ := List.mem_filterMap.mp h
    obtain ⟨found, htier, rfl⟩ := Option.map_eq_some_iff.mp hfound
    exact ⟨(List.mem_filter.mp hentry).1, hne, htier⟩

theorem hit_ext {hit hit' : SearchHit} (h : hit ∈ searchHits P index scopes query)
    (h' : hit' ∈ searchHits P index scopes query) (hentry : hit.entry = hit'.entry) : hit = hit' := by
  have htier := (mem_searchHits h).2.2
  rw [hentry, (mem_searchHits h').2.2] at htier
  obtain ⟨htier, hmatched⟩ := Prod.mk.inj (Option.some.inj htier)
  cases hit
  cases hit'
  simp_all

/-! ### The index -/

theorem routingBoost_entryFor (ws : SearchKb) (doc : SearchDoc) : (entryFor P ws doc).routingBoost ≤ 2 := by
  unfold entryFor
  dsimp only
  split
  · exact le_refl 2
  · split
    · exact le_refl 2
    · split <;> dsimp only <;> omega

theorem path_entryFor (ws : SearchKb) (doc : SearchDoc) : (entryFor P ws doc).path = doc.path := by
  unfold entryFor
  dsimp only
  split
  · rfl
  · split
    · rfl
    · split <;> rfl

theorem routingBoost_buildIndex {ws : SearchKb} {entry : IndexEntry} (h : entry ∈ buildIndex P ws) :
    entry.routingBoost ≤ 2 := by
  obtain ⟨doc, -, rfl⟩ := List.mem_map.mp ((List.mem_insertionSort _).mp h)
  exact routingBoost_entryFor ws doc

theorem nodup_paths_buildIndex (ws : SearchKb) : ((buildIndex P ws).map IndexEntry.path).Nodup := by
  have hperm := (List.perm_insertionSort (fun a b : IndexEntry => a.path ≤ b.path)
    (ws.docs.map (entryFor P ws))).map IndexEntry.path
  refine hperm.nodup_iff.mpr ?_
  rw [List.map_map]
  convert ws.keyedByPath using 1
  exact List.map_congr_left fun doc _ => path_entryFor ws doc

/-! ### The two orders -/

instance : Std.Total scoreOrder where
  total h h' := by
    unfold scoreOrder
    rcases lt_trichotomy h.score h'.score with hlt | heq | hgt
    · exact .inr (.inl hlt)
    · rcases List.le_total h.entry.path h'.entry.path with hle | hle
      · exact .inl (.inr ⟨heq, hle⟩)
      · exact .inr (.inr ⟨heq.symm, hle⟩)
    · exact .inl (.inl hgt)

instance : IsTrans SearchHit scoreOrder where
  trans a b c h h' := by
    unfold scoreOrder at *
    rcases h with hlt | ⟨heq, hle⟩ <;> rcases h' with hlt' | ⟨heq', hle'⟩
    all_goals try omega
    exact .inr ⟨heq.trans heq', List.le_trans hle hle'⟩

instance : Std.Total tierOrder where
  total h h' := by
    unfold tierOrder
    rcases List.le_total h.entry.path h'.entry.path with hle | hle <;> simp only [hle, and_true] <;> omega

instance : IsTrans SearchHit tierOrder where
  trans a b c h h' := by
    unfold tierOrder at *
    by_cases hle : a.entry.path ≤ c.entry.path
    · simp only [hle, and_true]
      omega
    · have hcut : ¬ (a.entry.path ≤ b.entry.path ∧ b.entry.path ≤ c.entry.path) :=
        fun hboth => hle (List.le_trans hboth.1 hboth.2)
      by_cases hab : a.entry.path ≤ b.entry.path <;> by_cases hbc : b.entry.path ≤ c.entry.path <;>
        simp_all <;> omega

theorem path_le_of_scoreOrder {h h' : SearchHit} (hle : scoreOrder h h') (hge : scoreOrder h' h) :
    h.entry.path = h'.entry.path := by
  unfold scoreOrder at *
  rcases hle with hlt | ⟨heq, hpath⟩ <;> rcases hge with hlt' | ⟨heq', hpath'⟩
  all_goals try omega
  exact List.le_antisymm hpath hpath'

theorem path_le_of_tierOrder {h h' : SearchHit} (hle : tierOrder h h') (hge : tierOrder h' h) :
    h.entry.path = h'.entry.path := by
  unfold tierOrder at *
  by_cases hpath : h.entry.path ≤ h'.entry.path ∧ h'.entry.path ≤ h.entry.path
  · exact List.le_antisymm hpath.1 hpath.2
  · by_cases ha : h.entry.path ≤ h'.entry.path <;> by_cases hb : h'.entry.path ≤ h.entry.path <;>
      simp_all <;> omega

/-! ### The law -/

/-- Ten for a match and the boost do not make up for the tiers between two hits. -/
def KeepsTiers (hits : List SearchHit) : Prop :=
  ∀ h ∈ hits, ∀ h' ∈ hits, h.tier < h'.tier →
    h'.matched * 10 + h'.entry.routingBoost < h.matched * 10 + h.entry.routingBoost + (h'.tier - h.tier) * 1000 ∨
      (h'.matched * 10 + h'.entry.routingBoost = h.matched * 10 + h.entry.routingBoost + (h'.tier - h.tier) * 1000 ∧
        h.entry.path ≤ h'.entry.path)

theorem scoreOrder_iff_of_tier_lt {h h' : SearchHit} (hlt : h.tier < h'.tier) (hle : h'.tier ≤ 3) : scoreOrder h h' ↔
    h'.matched * 10 + h'.entry.routingBoost < h.matched * 10 + h.entry.routingBoost + (h'.tier - h.tier) * 1000 ∨
      (h'.matched * 10 + h'.entry.routingBoost = h.matched * 10 + h.entry.routingBoost + (h'.tier - h.tier) * 1000 ∧
        h.entry.path ≤ h'.entry.path) := by
  unfold scoreOrder SearchHit.score
  by_cases hpath : h.entry.path ≤ h'.entry.path <;> simp only [hpath, and_true, and_false, or_false] <;> omega

/-- Within a tier the number is the documented order. -/
theorem scoreOrder_of_tierOrder {h h' : SearchHit} (htier : h.tier = h'.tier) (hboost : h.entry.routingBoost ≤ 2)
    (hboost' : h'.entry.routingBoost ≤ 2) (horder : tierOrder h h') : scoreOrder h h' := by
  unfold tierOrder at horder
  unfold scoreOrder SearchHit.score
  rw [htier]
  by_cases hpath : h.entry.path ≤ h'.entry.path
  · simp only [hpath, and_true] at horder ⊢
    omega
  · simp only [hpath, and_false, or_false] at horder ⊢
    omega

theorem keepsTiers_iff {ws : SearchKb} : KeepsTiers (searchHits P (buildIndex P ws) scopes query) ↔
    ∀ h ∈ searchHits P (buildIndex P ws) scopes query, ∀ h' ∈ searchHits P (buildIndex P ws) scopes query,
      tierOrder h h' → scoreOrder h h' := by
  have hbound : ∀ h ∈ searchHits P (buildIndex P ws) scopes query, h.tier ≤ 3 ∧ h.entry.routingBoost ≤ 2 := by
    intro h hh
    obtain ⟨hentry, hne, htier⟩ := mem_searchHits hh
    exact ⟨(tier?_bounds hne htier).1, routingBoost_buildIndex hentry⟩
  constructor
  · intro hkeeps h hh h' hh' horder
    by_cases htier : h.tier = h'.tier
    · exact scoreOrder_of_tierOrder htier (hbound h hh).2 (hbound h' hh').2 horder
    · have hlt : h.tier < h'.tier := by
        unfold tierOrder at horder
        exact horder.resolve_right fun hsame => htier hsame.1
      exact (scoreOrder_iff_of_tier_lt hlt (hbound h' hh').1).mpr (hkeeps h hh h' hh' hlt)
  · intro h hit hhit hit' hhit' hlt
    exact (scoreOrder_iff_of_tier_lt hlt (hbound hit' hhit').1).mp (h hit hhit hit' hhit' (.inl hlt))

/-- A query of a hundred tokens is short enough. -/
theorem keepsTiers_of_length_le {ws : SearchKb} (h : (queryTokens P query).length ≤ 100) :
    KeepsTiers (searchHits P (buildIndex P ws) scopes query) := by
  intro hit hhit hit' hhit' hlt
  left
  obtain ⟨hentry, hne, htier⟩ := mem_searchHits hhit
  obtain ⟨hentry', -, htier'⟩ := mem_searchHits hhit'
  obtain ⟨-, hone, -, -, hexact⟩ := tier?_bounds hne htier
  obtain ⟨-, -, hmany, hfew, -⟩ := tier?_bounds hne htier'
  have hboost' := routingBoost_buildIndex hentry'
  dsimp only at hone hexact hmany hfew
  by_cases hzero : hit.tier = 0
  · have := hexact hzero
    omega
  · have := hfew (by omega)
    omega

/-- **The ranking is tiered**, for every limit, if and only if no entry of a weaker tier has so many more matches that
they make up for the tiers between. What is hidden changes nothing. -/
theorem search_eq_ranked_iff (P : Platform) (ws : SearchKb) (scopes : List Scope) (query : Text) :
    ((∀ limit, search P (buildIndex P ws) scopes query limit =
        (rankedHits P (buildIndex P ws) scopes query).take limit) ↔
      KeepsTiers (searchHits P (buildIndex P ws) scopes query)) ∧
    ((queryTokens P query).length ≤ 100 → KeepsTiers (searchHits P (buildIndex P ws) scopes query)) ∧
    ∀ index, index.filter (fun entry => pathVisible scopes entry.path) =
        (buildIndex P ws).filter (fun entry => pathVisible scopes entry.path) →
      ∀ limit, search P index scopes query limit = search P (buildIndex P ws) scopes query limit := by
  have hpaths : ∀ h ∈ searchHits P (buildIndex P ws) scopes query,
      ∀ h' ∈ searchHits P (buildIndex P ws) scopes query, h.entry.path = h'.entry.path → h = h' :=
    fun h hh h' hh' heq => hit_ext hh hh'
      (List.inj_on_of_nodup_map (nodup_paths_buildIndex ws) (mem_searchHits hh).1 (mem_searchHits hh').1 heq)
  have hsorts := insertionSort_eq_iff (l := searchHits P (buildIndex P ws) scopes query) (r := tierOrder)
    (s := scoreOrder) (fun h hh h' hh' hle hge => hpaths h hh h' hh' (path_le_of_tierOrder hle hge))
    fun h hh h' hh' hle hge => hpaths h hh h' hh' (path_le_of_scoreOrder hle hge)
  refine ⟨?_, keepsTiers_of_length_le, fun index hindex limit => ?_⟩
  · rw [keepsTiers_iff, ← hsorts]
    constructor
    · intro h
      have hall := h (searchHits P (buildIndex P ws) scopes query).length
      rw [search, rankedHits, List.take_of_length_le (List.length_insertionSort _ _).le,
        List.take_of_length_le (List.length_insertionSort _ _).le] at hall
      exact hall.symm
    · intro h limit
      rw [search, rankedHits, h]
  · rw [search, search, searchHits, searchHits, hindex]

end

/-! ### A long query -/

def everything : Scope := ⟨js "**", _, rfl⟩

/-- One document has the word in its title, the other has the other word in its front matter. -/
def twoDocs : SearchKb where
  docs := [⟨⟨js "a.md", none, [], js "sales"⟩, []⟩, ⟨⟨js "b.md", some [(js "about", .str (js "orders"))], [], js "note"⟩, []⟩]
  keyedByPath := by decide
  machineKind := []

/-- The one word once, the other 103 times. -/
def longQuery : Text := js "sales" ++ (List.replicate 103 (js " orders")).flatten

/-- The match in the front matter comes before the match in the title. -/
theorem search_breaks_tiers :
    (search .ideal (buildIndex .ideal twoDocs) [everything] longQuery 1).map (fun h => (h.entry.path, h.tier)) =
      [(js "b.md", 2)] ∧
    ((rankedHits .ideal (buildIndex .ideal twoDocs) [everything] longQuery).take 1).map
      (fun h => (h.entry.path, h.tier)) = [(js "a.md", 1)] := by
  decide +kernel

end ContextLayer.SearchIndex
