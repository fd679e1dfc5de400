import Mathlib.Data.List.Chain
import Mathlib.Data.List.Flatten
import Mathlib.Data.List.Infix
import Mathlib.Data.List.TakeWhile

/-!
# Regular expressions

Patterns as a backtracking matcher reads them: the ways to match come in an order, the first alternative
and one more repetition ahead of the others, and the first way is the match. A pattern also sees whether
its neighbours are word characters. Replacing every match goes through the text from its start.
-/

inductive Regex (α : Type) where
  | empty
  | char (p : α → Bool)
  /-- `\b`. -/
  | boundary
  | seq (a b : Regex α)
  | alt (a b : Regex α)
  | star (a : Regex α)

namespace Regex

variable {α : Type}

def plus (a : Regex α) : Regex α := seq a (star a)

def times (a : Regex α) : Nat → Regex α
  | 0 => empty
  | n + 1 => seq a (times a n)

/-- `\b…\b`. -/
def bounded (a : Regex α) : Regex α := seq boundary (seq a boundary)

variable (word : α → Bool)

/-- Whether what comes next is a word character; beyond the text it is as the neighbour is. -/
def ahead (s : List α) (next : Bool) : Bool := (s.head?.map word).getD next

def behind (prev : Bool) (s : List α) : Bool := (s.getLast?.map word).getD prev

/-! ### The matcher -/

/-- The ways to repeat, the longest first. A repetition is not empty. -/
def repeated (ways : Bool → List α → List (List α)) : Nat → Bool → List α → List (List α)
  | 0, _, _ => [[]]
  | n + 1, prev, s =>
      ((ways prev s).filter fun u => !u.isEmpty).flatMap (fun u =>
        (repeated ways n (behind word prev u) (s.drop u.length)).map (u ++ ·)) ++ [[]]

/-- What the pattern can match at the start of a text, in the order of preference. -/
def ways : Regex α → Bool → List α → List (List α)
  | .empty, _, _ => [[]]
  | .char _, _, [] => []
  | .char p, _, c :: _ => if p c then [[c]] else []
  | .boundary, prev, s => if prev = ahead word s false then [] else [[]]
  | .seq a b, prev, s => (ways a prev s).flatMap fun u =>
      (ways b (behind word prev u) (s.drop u.length)).map (u ++ ·)
  | .alt a b, prev, s => ways a prev s ++ ways b prev s
  | .star a, prev, s => repeated word (ways a) s.length prev s

def first (r : Regex α) (prev : Bool) (s : List α) : Option (List α) := (ways word r prev s).head?

/-! ### Every match of a text -/

/-- A character outside every match, or a match. -/
inductive Piece (α : Type) where
  | kept (c : α)
  | found (u : List α)

def Piece.text : Piece α → List α
  | .kept c => [c]
  | .found u => u

/-- The text from its start, where that many characters still belong to the match before. -/
def scanFrom (r : Regex α) : Nat → Bool → List α → List (Piece α)
  | _, prev, [] => (first word r prev []).toList.map .found
  | k + 1, _, c :: s => scanFrom r k (word c) s
  | 0, prev, c :: s =>
      match first word r prev (c :: s) with
      | none => .kept c :: scanFrom r 0 (word c) s
      | some [] => .found [] :: .kept c :: scanFrom r 0 (word c) s
      | some (d :: u) => .found (d :: u) :: scanFrom r u.length (word c) s

def scan (r : Regex α) (s : List α) : List (Piece α) := scanFrom word r 0 false s

def Piece.isFound : Piece α → Bool
  | .kept _ => false
  | .found _ => true

/-- Whether there is a match. -/
def test (r : Regex α) (s : List α) : Bool := (scan word r s).any Piece.isFound

/-- Every match replaced. -/
def replace (r : Regex α) (f : List α → List α) (s : List α) : List α :=
  (scan word r s).flatMap fun
    | .kept c => [c]
    | .found u => f u

/-! ### What a match is -/

/-- The pattern matches the text between two neighbours. -/
inductive Matches : Regex α → Bool → List α → Bool → Prop where
  | empty {prev next : Bool} : Matches .empty prev [] next
  | char {p : α → Bool} {c : α} {prev next : Bool} : p c = true → Matches (.char p) prev [c] next
  | boundary {prev next : Bool} : prev ≠ next → Matches .boundary prev [] next
  | seq {a b : Regex α} {prev next : Bool} {u v : List α} : Matches a prev u (ahead word v next) →
      Matches b (behind word prev u) v next → Matches (.seq a b) prev (u ++ v) next
  | left {a b : Regex α} {prev next : Bool} {u : List α} : Matches a prev u next →
      Matches (.alt a b) prev u next
  | right {a b : Regex α} {prev next : Bool} {u : List α} : Matches b prev u next →
      Matches (.alt a b) prev u next
  | done {a : Regex α} {prev next : Bool} : Matches (.star a) prev [] next
  | more {a : Regex α} {prev next : Bool} {u v : List α} : u ≠ [] → Matches a prev u (ahead word v next) →
      Matches (.star a) (behind word prev u) v next → Matches (.star a) prev (u ++ v) next

variable {word} {r a b : Regex α} {prev next : Bool} {u v s t : List α}

@[simp]
theorem ahead_nil : ahead word [] next = next := rfl

@[simp]
theorem behind_nil : behind word prev [] = prev := rfl

@[simp]
theorem ahead_cons {c : α} : ahead word (c :: s) next = word c := rfl

theorem ahead_append (s t : List α) : ahead word (s ++ t) next = ahead word s (ahead word t next) := by
  cases s <;> rfl

theorem behind_append (s t : List α) : behind word prev (s ++ t) = behind word (behind word prev s) t := by
  induction t using List.reverseRecOn with
  | nil => simp
  | append_singleton t c _ => simp [behind, ← List.append_assoc]

@[simp]
theorem behind_concat (s : List α) (c : α) : behind word prev (s ++ [c]) = word c := by
  simp [behind]

/-! ### The matcher finds the matches -/

theorem mem_repeated {ways : Bool → List α → List (List α)}
    (hways : ∀ prev s u, u ∈ ways prev s ↔ ∃ t, s = u ++ t ∧ Matches word a prev u (ahead word t false))
    (n : Nat) (hn : s.length ≤ n) :
    u ∈ repeated word ways n prev s ↔
      ∃ t, s = u ++ t ∧ Matches word (.star a) prev u (ahead word t false) := by
  induction n generalizing prev s u with
  | zero =>
      obtain rfl := List.length_eq_zero_iff.mp (Nat.le_zero.mp hn)
      rw [repeated, List.mem_singleton]
      constructor
      · rintro rfl
        exact ⟨[], rfl, .done⟩
      · rintro ⟨t, ht, -⟩
        exact (List.append_eq_nil_iff.mp ht.symm).1
  | succ n ih =>
      simp only [repeated, List.mem_append, List.mem_flatMap, List.mem_filter, List.mem_map,
        List.mem_singleton, Bool.not_eq_true', List.isEmpty_eq_false_iff]
      constructor
      · rintro (⟨v, ⟨hv, hne⟩, w, hw, rfl⟩ | rfl)
        · obtain ⟨t, rfl, hmatch⟩ := (hways prev s v).mp hv
          rw [List.drop_left] at hw
          have hlength : t.length ≤ n := by
            have hpos := List.length_pos_of_ne_nil hne
            rw [List.length_append] at hn
            omega
          obtain ⟨t', rfl, hrest⟩ := (ih hlength).mp hw
          rw [ahead_append] at hmatch
          exact ⟨t', (List.append_assoc ..).symm, .more hne hmatch hrest⟩
        · exact ⟨s, rfl, .done⟩
      · rintro ⟨t, rfl, hmatch⟩
        cases hmatch with
        | done => exact .inr rfl
        | @more _ _ _ v w hne hv hw =>
            refine .inl ⟨v, ⟨(hways prev _ v).mpr ⟨w ++ t, List.append_assoc .., ?_⟩, hne⟩, w, ?_, rfl⟩
            · rw [ahead_append]
              exact hv
            · have hlength : (w ++ t).length ≤ n := by
                have hpos := List.length_pos_of_ne_nil hne
                rw [List.append_assoc, List.length_append] at hn
                omega
              rw [List.append_assoc, List.drop_left]
              exact (ih hlength).mpr ⟨t, rfl, hw⟩

/-- **Every match is found**, and nothing else. -/
theorem mem_ways : u ∈ ways word r prev s ↔
    ∃ t, s = u ++ t ∧ Matches word r prev u (ahead word t false) := by
  induction r generalizing prev s u with
  | empty =>
      rw [ways, List.mem_singleton]
      constructor
      · rintro rfl
        exact ⟨s, rfl, .empty⟩
      · rintro ⟨t, -, hmatch⟩
        cases hmatch
        rfl
  | char p =>
      cases s with
      | nil =>
          rw [ways]
          refine iff_of_false List.not_mem_nil ?_
          rintro ⟨t, ht, hmatch⟩
          cases hmatch
          cases ht
      | cons c s =>
          rw [ways]
          constructor
          · intro h
            by_cases hp : p c = true
            · rw [if_pos hp, List.mem_singleton] at h
              subst h
              exact ⟨s, rfl, .char hp⟩
            · rw [if_neg hp] at h
              cases h
          · rintro ⟨t, ht, hmatch⟩
            cases hmatch with
            | char hp =>
                obtain ⟨rfl, -⟩ := List.cons.inj ht
                rw [if_pos hp]
                exact List.mem_singleton_self _
  | boundary =>
      rw [ways]
      constructor
      · intro h
        by_cases heq : prev = ahead word s false
        · rw [if_pos heq] at h
          cases h
        · rw [if_neg heq, List.mem_singleton] at h
          subst h
          exact ⟨s, rfl, .boundary heq⟩
      · rintro ⟨t, rfl, hmatch⟩
        cases hmatch with
        | boundary hne =>
            rw [List.nil_append, if_neg hne]
            exact List.mem_singleton_self _
  | seq a b iha ihb =>
      simp only [ways, List.mem_flatMap, List.mem_map]
      constructor
      · rintro ⟨v, hv, w, hw, rfl⟩
        obtain ⟨t, rfl, hmatch⟩ := iha.mp hv
        rw [List.drop_left] at hw
        obtain ⟨t', rfl, hmatch'⟩ := ihb.mp hw
        rw [ahead_append] at hmatch
        exact ⟨t', (List.append_assoc ..).symm, .seq hmatch hmatch'⟩
      · rintro ⟨t, rfl, hmatch⟩
        cases hmatch with
        | @seq _ _ _ _ v w hv hw =>
            refine ⟨v, iha.mpr ⟨w ++ t, List.append_assoc .., ?_⟩, w, ?_, rfl⟩
            · rw [ahead_append]
              exact hv
            · rw [List.append_assoc, List.drop_left]
              exact ihb.mpr ⟨t, rfl, hw⟩
  | alt a b iha ihb =>
      rw [ways, List.mem_append, iha, ihb]
      constructor
      · rintro (⟨t, rfl, hmatch⟩ | ⟨t, rfl, hmatch⟩)
        · exact ⟨t, rfl, .left hmatch⟩
        · exact ⟨t, rfl, .right hmatch⟩
      · rintro ⟨t, rfl, hmatch⟩
        cases hmatch with
        | left hmatch => exact .inl ⟨t, rfl, hmatch⟩
        | right hmatch => exact .inr ⟨t, rfl, hmatch⟩
  | star a iha => exact mem_repeated (fun prev s u => iha) s.length le_rfl

/-! ### Parts of a match -/

/-- Whether the empty text can be a match. -/
def nullable : Regex α → Bool
  | .empty | .boundary | .star _ => true
  | .char _ => false
  | .seq a b => a.nullable && b.nullable
  | .alt a b => a.nullable || b.nullable

theorem Matches.nullable (h : Matches word r prev u next) (hu : u = []) : r.nullable = true := by
  induction h with
  | empty | boundary | done | more => rfl
  | char => cases hu
  | seq _ _ iha ihb =>
      obtain ⟨hu, hv⟩ := List.append_eq_nil_iff.mp hu
      rw [Regex.nullable, iha hu, ihb hv, Bool.and_self]
  | left _ ih => rw [Regex.nullable, ih hu, Bool.true_or]
  | right _ ih => rw [Regex.nullable, ih hu, Bool.or_true]

theorem Matches.ne_nil (h : Matches word r prev u next) (hr : r.nullable = false) : u ≠ [] := by
  intro hu
  rw [h.nullable hu] at hr
  cases hr

/-- The pattern reads only characters of a class. -/
def Reads (q : α → Bool) : Regex α → Prop
  | .empty | .boundary => True
  | .char p => ∀ c, p c = true → q c = true
  | .seq a b | .alt a b => a.Reads q ∧ b.Reads q
  | .star a => a.Reads q

theorem Matches.reads {q : α → Bool} (h : Matches word r prev u next) (hr : r.Reads q) :
    ∀ c ∈ u, q c = true := by
  induction h with
  | empty | boundary | done => exact fun c hc => absurd hc List.not_mem_nil
  | char hp => exact fun c hc => List.mem_singleton.mp hc ▸ hr _ hp
  | seq _ _ iha ihb =>
      intro c hc
      exact (List.mem_append.mp hc).elim (iha hr.1 c) (ihb hr.2 c)
  | left _ ih => exact ih hr.1
  | right _ ih => exact ih hr.2
  | more _ _ _ iha ihb =>
      intro c hc
      exact (List.mem_append.mp hc).elim (iha hr c) (ihb hr c)

/-- The pattern does not read the character. -/
def avoids (c : α) : Regex α → Bool
  | .empty | .boundary => true
  | .char p => !p c
  | .seq a b | .alt a b => a.avoids c && b.avoids c
  | .star a => a.avoids c

theorem reads_of_avoids [DecidableEq α] {c : α} (h : r.avoids c = true) : r.Reads fun d => decide (d ≠ c) := by
  induction r with
  | empty | boundary => trivial
  | char p =>
      intro d hd
      refine decide_eq_true fun heq => ?_
      rw [avoids, ← heq, hd] at h
      cases h
  | seq a b iha ihb | alt a b iha ihb =>
      rw [avoids, Bool.and_eq_true] at h
      exact ⟨iha h.1, ihb h.2⟩
  | star a ih => exact ih h

theorem Matches.notMem [DecidableEq α] {c : α} (h : Matches word r prev u next) (hr : r.avoids c = true) :
    c ∉ u := fun hc => of_decide_eq_true (h.reads (reads_of_avoids hr) c hc) rfl

/-- The pattern does not look at its neighbours. -/
def isPlain : Regex α → Bool
  | .empty | .char _ => true
  | .boundary => false
  | .seq a b | .alt a b => a.isPlain && b.isPlain
  | .star a => a.isPlain

theorem Matches.plain (h : Matches word r prev u next) (hr : r.isPlain = true) (prev' next' : Bool) :
    Matches word r prev' u next' := by
  induction h generalizing prev' next' with
  | empty => exact .empty
  | char hp => exact .char hp
  | boundary => cases hr
  | seq _ _ iha ihb =>
      have hr := Bool.and_eq_true_iff.mp hr
      exact .seq (iha hr.1 _ _) (ihb hr.2 _ _)
  | left _ ih => exact .left (ih (Bool.and_eq_true_iff.mp hr).1 _ _)
  | right _ ih => exact .right (ih (Bool.and_eq_true_iff.mp hr).2 _ _)
  | done => exact .done
  | more hne _ _ iha ihb => exact .more hne (iha hr _ _) (ihb hr _ _)

theorem matches_star_char {p : α → Bool} (h : ∀ c ∈ u, p c = true) :
    Matches word (.star (.char p)) prev u next := by
  induction u generalizing prev with
  | nil => exact .done
  | cons c u ih =>
      exact .more (u := [c]) (List.cons_ne_nil _ _) (.char (h c List.mem_cons_self))
        (ih fun d hd => h d (List.mem_cons_of_mem _ hd))

theorem matches_plus_char {p : α → Bool} :
    Matches word (plus (.char p)) prev u next ↔ u ≠ [] ∧ ∀ c ∈ u, p c = true := by
  constructor
  · intro h
    exact ⟨h.ne_nil rfl, h.reads ⟨fun _ => id, fun _ => id⟩⟩
  · rintro ⟨hne, h⟩
    obtain ⟨c, u, rfl⟩ := List.exists_cons_of_ne_nil hne
    exact .seq (u := [c]) (.char (h c List.mem_cons_self))
      (matches_star_char fun d hd => h d (List.mem_cons_of_mem _ hd))

theorem matches_star_char_iff {p : α → Bool} :
    Matches word (.star (.char p)) prev u next ↔ ∀ c ∈ u, p c = true :=
  ⟨fun h => h.reads fun _ => id, matches_star_char⟩

theorem matches_times_char {p : α → Bool} {n : Nat} :
    Matches word (times (.char p) n) prev u next ↔ u.length = n ∧ ∀ c ∈ u, p c = true := by
  induction n generalizing prev u with
  | zero =>
      constructor
      · intro h
        cases h
        exact ⟨rfl, fun c hc => absurd hc List.not_mem_nil⟩
      · rintro ⟨hlength, -⟩
        obtain rfl := List.length_eq_zero_iff.mp hlength
        exact .empty
  | succ n ih =>
      constructor
      · intro h
        cases h with
        | seq hc hrest =>
            cases hc with
            | char hp =>
                obtain ⟨hlength, hall⟩ := ih.mp hrest
                refine ⟨by rw [List.singleton_append, List.length_cons, hlength], fun c hc => ?_⟩
                obtain rfl | hc := List.mem_cons.mp hc
                · exact hp
                · exact hall c hc
      · rintro ⟨hlength, hall⟩
        cases u with
        | nil => cases hlength
        | cons c u =>
            exact .seq (u := [c]) (.char (hall c List.mem_cons_self))
              (ih.mpr ⟨Nat.succ.inj hlength, fun d hd => hall d (List.mem_cons_of_mem _ hd)⟩)

theorem matches_seq : Matches word (.seq a b) prev u next ↔ ∃ v w, u = v ++ w ∧
    Matches word a prev v (ahead word w next) ∧ Matches word b (behind word prev v) w next := by
  constructor
  · intro h
    cases h with
    | seq hv hw => exact ⟨_, _, rfl, hv, hw⟩
  · rintro ⟨v, w, rfl, hv, hw⟩
    exact .seq hv hw

/-- A match between boundaries is set off from its neighbours. -/
theorem matches_bounded (ha : a.nullable = false) : Matches word (bounded a) prev u next ↔
    u ≠ [] ∧ prev ≠ ahead word u next ∧ behind word prev u ≠ next ∧ Matches word a prev u next := by
  constructor
  · intro h
    cases h with
    | seq hstart h =>
        cases hstart with
        | boundary hprev =>
            cases h with
            | @seq _ _ _ _ u v hu hend =>
                cases hend with
                | boundary hnext =>
                    rw [List.nil_append, List.append_nil]
                    rw [List.append_nil] at hprev
                    exact ⟨hu.ne_nil ha, hprev, hnext, hu⟩
  · rintro ⟨-, hprev, hnext, h⟩
    have hend : Matches word (seq a boundary) prev (u ++ []) next := .seq h (.boundary hnext)
    rw [List.append_nil] at hend
    exact .seq (u := []) (.boundary hprev) hend

/-! ### What a scan finds -/

/-- The pieces of a text are its own. -/
inductive IsScan (word : α → Bool) (r : Regex α) : Bool → List (Piece α) → Prop where
  | nil {prev : Bool} : IsScan word r prev []
  | kept {prev : Bool} {c : α} {ps : List (Piece α)} :
      first word r prev (c :: ps.flatMap Piece.text) = none → IsScan word r (word c) ps →
        IsScan word r prev (.kept c :: ps)
  | found {prev : Bool} {u : List α} {ps : List (Piece α)} : u ≠ [] →
      first word r prev (u ++ ps.flatMap Piece.text) = some u → IsScan word r (behind word prev u) ps →
        IsScan word r prev (.found u :: ps)

theorem first_eq_some (h : first word r prev s = some u) :
    ∃ t, s = u ++ t ∧ Matches word r prev u (ahead word t false) :=
  mem_ways.mp (List.mem_of_mem_head? h)

theorem first_eq_none_iff : first word r prev s = none ↔
    ∀ u t, s = u ++ t → ¬ Matches word r prev u (ahead word t false) := by
  rw [first, List.head?_eq_none_iff]
  constructor
  · intro h u t hs hmatch
    have hmem := mem_ways.mpr ⟨t, hs, hmatch⟩
    rw [h] at hmem
    exact absurd hmem List.not_mem_nil
  · intro h
    refine List.eq_nil_iff_forall_not_mem.mpr fun u hu => ?_
    obtain ⟨t, hs, hmatch⟩ := mem_ways.mp hu
    exact h u t hs hmatch

theorem scanFrom_skip (u s : List α) (prev : Bool) :
    scanFrom word r u.length prev (u ++ s) = scanFrom word r 0 (behind word prev u) s := by
  induction u generalizing prev with
  | nil => rfl
  | cons c u ih =>
      rw [List.length_cons, List.cons_append, scanFrom, ih, ← List.singleton_append, behind_append]
      rfl

theorem scanFrom_isScan (hr : r.nullable = false) (s : List α) (prev : Bool) :
    (scanFrom word r 0 prev s).flatMap Piece.text = s ∧ IsScan word r prev (scanFrom word r 0 prev s) := by
  induction hn : s.length using Nat.strong_induction_on generalizing s prev with
  | _ n ih =>
      subst hn
      cases s with
      | nil =>
          have hnone : first word r prev [] = none := by
            refine first_eq_none_iff.mpr fun u t hs hmatch => hmatch.ne_nil hr ?_
            exact (List.append_eq_nil_iff.mp hs.symm).1
          rw [scanFrom, hnone]
          exact ⟨rfl, .nil⟩
      | cons c s =>
          cases hfirst : first word r prev (c :: s) with
          | none =>
              obtain ⟨htext, hscan⟩ := ih s.length (Nat.lt_succ_self _) s (word c) rfl
              rw [scanFrom, hfirst]
              refine ⟨?_, .kept ?_ hscan⟩
              · rw [List.flatMap_cons, htext]
                rfl
              · rw [htext]
                exact hfirst
          | some u =>
              obtain ⟨t, hs, hmatch⟩ := first_eq_some hfirst
              cases u with
              | nil => exact absurd rfl (hmatch.ne_nil hr)
              | cons d u =>
                  rw [List.cons_append] at hs
                  obtain ⟨rfl, rfl⟩ := List.cons.inj hs
                  have hlength : t.length < (c :: (u ++ t)).length := by
                    rw [List.length_cons, List.length_append]
                    omega
                  obtain ⟨htext, hscan⟩ := ih t.length hlength t (behind word (word c) u) rfl
                  rw [scanFrom, hfirst]
                  dsimp only
                  rw [scanFrom_skip]
                  refine ⟨?_, .found (List.cons_ne_nil _ _) ?_ ?_⟩
                  · rw [List.flatMap_cons, htext]
                    rfl
                  · rw [htext]
                    exact hfirst
                  · rw [← List.singleton_append, behind_append]
                    exact hscan

theorem scan_isScan (word : α → Bool) (hr : r.nullable = false) (s : List α) :
    (scan word r s).flatMap Piece.text = s ∧ IsScan word r false (scan word r s) :=
  scanFrom_isScan hr s false

theorem IsScan.of_append {ps qs : List (Piece α)} (h : IsScan word r prev (ps ++ qs)) :
    IsScan word r (behind word prev (ps.flatMap Piece.text)) qs := by
  induction ps generalizing prev with
  | nil => exact h
  | cons p ps ih =>
      rw [List.flatMap_cons, behind_append]
      cases h with
      | kept _ h => exact ih h
      | found _ _ h => exact ih h

/-- A match of the pattern stands somewhere in the text. -/
def Occurs (word : α → Bool) (r : Regex α) (s : List α) : Prop :=
  ∃ before u after, s = before ++ (u ++ after) ∧
    Matches word r (behind word false before) u (ahead word after false)

/-- A match of the pattern stands among the characters that a scan keeps. -/
def OccursKept (word : α → Bool) (r : Regex α) (ps : List (Piece α)) : Prop :=
  ∃ qs u qs', ps = qs ++ (u.map Piece.kept ++ qs') ∧
    Matches word r (behind word false (qs.flatMap Piece.text)) u
      (ahead word (qs'.flatMap Piece.text) false)

theorem flatMap_text_kept (u : List α) : (u.map Piece.kept).flatMap Piece.text = u := by
  induction u with
  | nil => rfl
  | cons c u ih =>
      rw [List.map_cons, List.flatMap_cons, ih]
      rfl

theorem OccursKept.occurs {ps : List (Piece α)} (h : OccursKept word r ps) :
    Occurs word r (ps.flatMap Piece.text) := by
  obtain ⟨qs, u, qs', rfl, hmatch⟩ := h
  refine ⟨_, u, _, ?_, hmatch⟩
  rw [List.flatMap_append, List.flatMap_append, flatMap_text_kept]

/-- **A scan keeps no match.** -/
theorem IsScan.not_occursKept {ps : List (Piece α)} (hr : r.nullable = false)
    (h : IsScan word r false ps) : ¬ OccursKept word r ps := by
  rintro ⟨qs, u, qs', rfl, hmatch⟩
  obtain ⟨c, u, rfl⟩ := List.exists_cons_of_ne_nil (hmatch.ne_nil hr)
  cases h.of_append with
  | kept hnone _ =>
      refine first_eq_none_iff.mp hnone (c :: u) (qs'.flatMap Piece.text) ?_ hmatch
      change c :: (u.map Piece.kept ++ qs').flatMap Piece.text = _
      rw [List.flatMap_append, flatMap_text_kept, List.cons_append]

theorem IsScan.matches_found {ps qs : List (Piece α)} (h : IsScan word r prev (ps ++ .found u :: qs)) :
    Matches word r (behind word prev (ps.flatMap Piece.text)) u (ahead word (qs.flatMap Piece.text) false) := by
  cases h.of_append with
  | found _ hfirst _ =>
      obtain ⟨t, ht, hmatch⟩ := first_eq_some hfirst
      exact List.append_cancel_left ht ▸ hmatch

theorem eq_map_kept {ps : List (Piece α)} (h : ps.any Piece.isFound = false) :
    ps = (ps.flatMap Piece.text).map .kept := by
  induction ps with
  | nil => rfl
  | cons p ps ih =>
      rw [List.any_cons, Bool.or_eq_false_iff] at h
      cases p with
      | kept c =>
          rw [List.flatMap_cons, List.map_append, ← ih h.2]
          rfl
      | found u => cases h.1

theorem test_iff (hr : r.nullable = false) : test word r s = true ↔ Occurs word r s := by
  obtain ⟨htext, hscan⟩ := scan_isScan word hr s
  constructor
  · intro h
    obtain ⟨p, hp, hfound⟩ := List.any_eq_true.mp h
    cases p with
    | kept c => cases hfound
    | found u =>
        obtain ⟨ps, qs, hps⟩ := List.append_of_mem hp
        rw [hps] at hscan htext
        exact ⟨_, u, _, by rw [← htext, List.flatMap_append]; rfl, hscan.matches_found⟩
  · rintro ⟨before, u, after, hs, hmatch⟩
    by_contra hnot
    refine hscan.not_occursKept hr ⟨before.map .kept, u, after.map .kept, ?_, ?_⟩
    · rw [eq_map_kept (Bool.eq_false_iff.mpr hnot), htext, hs, List.map_append, List.map_append]
    · rw [flatMap_text_kept, flatMap_text_kept]
      exact hmatch

theorem replace_eq_self (hr : r.nullable = false) (h : ¬ Occurs word r s) (f : List α → List α) :
    replace word r f s = s := by
  have hkept := eq_map_kept (Bool.eq_false_iff.mpr ((test_iff hr).not.mpr h))
  rw [(scan_isScan word hr s).1] at hkept
  rw [replace, hkept, List.flatMap_map]
  exact List.flatMap_pure_eq_map id s ▸ List.map_id s

/-! ### Blanking -/

section Blanking

variable {blank : α}

/-- A match never cuts through a word. -/
def Whole (word : α → Bool) (r : Regex α) : Prop :=
  ∀ prev u next, Matches word r prev u next → u ≠ [] ∧ (prev = true → ahead word u next = false) ∧
    (next = true → behind word prev u = false)

theorem whole_bounded (ha : a.nullable = false) : Whole word (bounded a) := by
  intro prev u next h
  obtain ⟨hne, hprev, hnext, -⟩ := (matches_bounded ha).mp h
  exact ⟨hne, fun h => Bool.eq_false_iff.mpr (h ▸ hprev.symm), fun h => Bool.eq_false_iff.mpr (h ▸ hnext)⟩

def Piece.blanked (blank : α) : Piece α → α
  | .kept c => c
  | .found _ => blank

theorem replace_blank (s : List α) :
    replace word r (fun _ => [blank]) s = (scan word r s).map (Piece.blanked blank) := by
  rw [replace, List.map_eq_flatMap]
  refine List.flatMap_congr fun p _ => ?_
  cases p <;> rfl

/-- What holds no blank stands among the kept characters. -/
theorem kept_of_blanked {ps : List (Piece α)} {before after : List α} (hu : blank ∉ u)
    (h : ps.map (Piece.blanked blank) = before ++ (u ++ after)) : ∃ qs qs', ps = qs ++ (u.map .kept ++ qs') ∧
      qs.map (Piece.blanked blank) = before ∧ qs'.map (Piece.blanked blank) = after := by
  obtain ⟨qs, rest, rfl, rfl, hrest⟩ := List.map_eq_append_iff.mp h
  obtain ⟨us, qs', rfl, rfl, rfl⟩ := List.map_eq_append_iff.mp hrest
  refine ⟨qs, qs', ?_, rfl, rfl⟩
  congr 2
  rw [List.map_map]
  refine (List.map_id us).symm.trans (List.map_congr_left fun p hp => ?_)
  cases p with
  | kept c => rfl
  | found v => exact absurd (List.mem_map_of_mem (f := Piece.blanked blank) hp) hu

/-- A character ahead of which no word goes on is the same to see, blanked or not. -/
theorem IsScan.behind_blanked {ps qs : List (Piece α)} (h : IsScan word r prev (ps ++ qs))
    (hwhole : Whole word r) (hblank : word blank = false)
    (hahead : ahead word (qs.flatMap Piece.text) false = true ∨
      behind word prev (ps.map (Piece.blanked blank)) = true) :
    behind word prev (ps.map (Piece.blanked blank)) = behind word prev (ps.flatMap Piece.text) := by
  induction ps using List.reverseRecOn with
  | nil => rfl
  | append_singleton ps p _ =>
      rw [List.map_append, List.map_singleton, behind_concat] at hahead ⊢
      cases p with
      | kept c => rw [List.flatMap_append, List.flatMap_singleton, Piece.text, behind_concat]; rfl
      | found u =>
          rw [List.append_assoc] at h
          have hnext := hahead.resolve_right (by rw [Piece.blanked, hblank]; decide)
          rw [List.flatMap_append, List.flatMap_singleton, behind_append, Piece.text, Piece.blanked, hblank,
            (hwhole _ _ _ h.matches_found).2.2 hnext]

theorem IsScan.ahead_blanked {ps qs : List (Piece α)} (h : IsScan word r prev (ps ++ qs))
    (hwhole : Whole word r) (hblank : word blank = false)
    (hbehind : behind word prev (ps.flatMap Piece.text) = true ∨
      ahead word (qs.map (Piece.blanked blank)) false = true) :
    ahead word (qs.map (Piece.blanked blank)) false = ahead word (qs.flatMap Piece.text) false := by
  cases qs with
  | nil => rfl
  | cons p qs =>
      cases p with
      | kept c => rfl
      | found u =>
          have hprev := hbehind.resolve_right (by rw [List.map_cons, ahead_cons, Piece.blanked, hblank]; decide)
          obtain ⟨hne, hstart, -⟩ := hwhole _ _ _ h.matches_found
          obtain ⟨c, u, rfl⟩ := List.exists_cons_of_ne_nil hne
          exact hblank.trans (hstart hprev).symm

/-- **Blanking makes no match of a plain pattern**, and leaves none of its own. -/
theorem occursKept_plain [DecidableEq α] {m : Regex α} {ps : List (Piece α)} (hm : m.isPlain = true)
    (hblank : m.avoids blank = true) (h : Occurs word m (ps.map (Piece.blanked blank))) : OccursKept word m ps := by
  obtain ⟨before, u, after, hs, hmatch⟩ := h
  obtain ⟨qs, qs', rfl, -, -⟩ := kept_of_blanked (hmatch.notMem hblank) hs
  exact ⟨qs, u, qs', rfl, hmatch.plain hm _ _⟩

/-- A pattern between boundaries sees the neighbours it saw. -/
theorem occursKept_bounded [DecidableEq α] {ps : List (Piece α)} (ha : a.nullable = false)
    (havoids : a.avoids blank = true) (hscan : IsScan word r false ps) (hwhole : Whole word r) (hblank : word blank = false)
    (h : Occurs word (bounded a) (ps.map (Piece.blanked blank))) : OccursKept word (bounded a) ps := by
  obtain ⟨before, u, after, hs, hmatch⟩ := h
  obtain ⟨hne, hprev, hnext, hmatch⟩ := (matches_bounded ha).mp hmatch
  obtain ⟨qs, qs', rfl, rfl, rfl⟩ := kept_of_blanked (hmatch.notMem havoids) hs
  have hstart : ∀ t, ahead word (u ++ t) false = ahead word u (ahead word (qs'.map (Piece.blanked blank)) false) := by
    intro t
    obtain ⟨c, u, rfl⟩ := List.exists_cons_of_ne_nil hne
    rfl
  have hend : ∀ x y, behind word x u = behind word y u := by
    intro x y
    obtain ⟨v, c, rfl⟩ := (List.eq_nil_or_concat' u).resolve_left hne
    rw [behind_concat, behind_concat]
  have hbehind : behind word false (qs.map (Piece.blanked blank)) = behind word false (qs.flatMap Piece.text) := by
    refine hscan.behind_blanked hwhole hblank ?_
    rw [List.flatMap_append, flatMap_text_kept, hstart]
    by_cases hp : behind word false (qs.map (Piece.blanked blank)) = true
    · exact .inr hp
    · rw [Bool.not_eq_true] at hp
      rw [hp] at hprev
      exact .inl (Bool.ne_false_iff.mp hprev.symm)
  have hahead : ahead word (qs'.map (Piece.blanked blank)) false = ahead word (qs'.flatMap Piece.text) false := by
    rw [← List.append_assoc] at hscan
    refine hscan.ahead_blanked hwhole hblank ?_
    rw [List.flatMap_append, flatMap_text_kept, behind_append, hend _ (behind word false (qs.map (Piece.blanked blank)))]
    by_cases hn : ahead word (qs'.map (Piece.blanked blank)) false = true
    · exact .inr hn
    · rw [Bool.not_eq_true] at hn
      rw [hn] at hnext
      exact .inl (Bool.ne_false_iff.mp hnext)
  refine ⟨qs, u, qs', rfl, (matches_bounded ha).mpr ?_⟩
  rw [← hbehind, ← hahead]
  exact ⟨hne, hprev, hnext, hmatch⟩

/-! ### Runs -/

theorem head?_repeated_char {p : α → Bool} (n : Nat) (hn : s.length ≤ n) :
    (repeated word (ways word (.char p)) n prev s).head? = some (s.takeWhile p) := by
  induction n generalizing prev s with
  | zero =>
      obtain rfl := List.length_eq_zero_iff.mp (Nat.le_zero.mp hn)
      rfl
  | succ n ih =>
      cases s with
      | nil => rfl
      | cons c s =>
          rw [repeated, ways, List.takeWhile_cons]
          by_cases hp : p c = true
          · have hrest : (repeated word (ways word (.char p)) n (behind word prev [c]) s).head? =
                some (s.takeWhile p) := ih (Nat.le_of_succ_le_succ hn)
            obtain ⟨tail, htail⟩ := List.head?_eq_some_iff.mp hrest
            simp [hp, htail]
          · simp [hp]

/-- A run of a class is matched to its end. -/
theorem first_plus_char {p : α → Bool} : first word (plus (.char p)) prev s =
    if (s.takeWhile p).isEmpty then none else some (s.takeWhile p) := by
  cases s with
  | nil => rfl
  | cons c s =>
      rw [first, plus, ways, ways, List.takeWhile_cons]
      by_cases hp : p c = true
      · have hrest : (repeated word (ways word (.char p)) s.length (behind word prev [c]) s).head? =
            some (s.takeWhile p) := head?_repeated_char s.length le_rfl
        obtain ⟨tail, htail⟩ := List.head?_eq_some_iff.mp hrest
        simp [hp, ways, htail]
      · simp [hp]

theorem whole_of_reads (hr : r.nullable = false) (hreads : r.Reads fun c => !word c) : Whole word r := by
  intro prev u next h
  have hne := h.ne_nil hr
  have hout : ∀ c ∈ u, word c = false := fun c hc => by simpa using h.reads hreads c hc
  refine ⟨hne, fun _ => ?_, fun _ => ?_⟩
  · obtain ⟨c, u, rfl⟩ := List.exists_cons_of_ne_nil hne
    exact hout c List.mem_cons_self
  · obtain ⟨v, c, rfl⟩ := (List.eq_nil_or_concat' u).resolve_left hne
    rw [behind_concat]
    exact hout c (List.mem_append_right _ List.mem_cons_self)

section Collapse

variable {p : α → Bool} {ps : List (Piece α)}

theorem IsScan.kept_out {c : α} (h : IsScan word (plus (.char p)) prev (.kept c :: ps)) : p c = false := by
  cases h with
  | kept hnone _ =>
      rw [first_plus_char, List.takeWhile_cons] at hnone
      by_contra hp
      simp [Bool.ne_false_iff.mp hp] at hnone

theorem IsScan.found_run (h : IsScan word (plus (.char p)) prev (.found u :: ps)) :
    (∀ c ∈ u, p c = true) ∧ ∀ c ∈ (ps.flatMap Piece.text).head?, p c = false := by
  cases h with
  | found hne hfirst _ =>
      have hrun : (u ++ ps.flatMap Piece.text).takeWhile p = u := by
        rw [first_plus_char] at hfirst
        by_cases hempty : ((u ++ ps.flatMap Piece.text).takeWhile p).isEmpty = true
        · rw [if_pos hempty] at hfirst
          cases hfirst
        · rw [if_neg hempty] at hfirst
          exact Option.some.inj hfirst
      have hall : ∀ c ∈ u, p c = true := fun c hc => List.mem_takeWhile_imp (hrun.symm ▸ hc)
      refine ⟨hall, fun c hc => ?_⟩
      rw [List.takeWhile_append_of_pos hall] at hrun
      cases htext : ps.flatMap Piece.text with
      | nil =>
          rw [htext] at hc
          cases hc
      | cons d t =>
          rw [htext] at hc hrun
          obtain rfl := Option.some.inj hc
          by_contra hp
          rw [List.takeWhile_cons_of_pos (Bool.ne_false_iff.mp hp)] at hrun
          exact List.cons_ne_nil _ _ (List.append_right_eq_self.mp hrun)

/-- **A run becomes one blank.** -/
theorem IsScan.collapsed (h : IsScan word (plus (.char p)) prev ps) (blank : α) :
    (∀ c ∈ ps.map (Piece.blanked blank), p c = true → c = blank) ∧
      (ps.map (Piece.blanked blank)).IsChain fun c d => ¬ (p c = true ∧ p d = true) := by
  induction ps generalizing prev with
  | nil => exact ⟨fun c hc => absurd hc List.not_mem_nil, .nil⟩
  | cons q ps ih =>
      have hrest : ∃ prev', IsScan word (plus (.char p)) prev' ps := by
        cases h with
        | kept _ h => exact ⟨_, h⟩
        | found _ _ h => exact ⟨_, h⟩
      obtain ⟨prev', hrest⟩ := hrest
      obtain ⟨hblank, hchain⟩ := ih hrest
      cases q with
      | kept c =>
          have hc := h.kept_out
          refine ⟨fun d hd hp => ?_, List.isChain_cons.mpr ⟨fun d _ hboth => ?_, hchain⟩⟩
          · obtain rfl | hd := List.mem_cons.mp hd
            · exact absurd hp (Bool.eq_false_iff.mp hc)
            · exact hblank d hd hp
          · exact absurd hboth.1 (Bool.eq_false_iff.mp hc)
      | found u =>
          refine ⟨fun d hd hp => ?_, List.isChain_cons.mpr ⟨fun d hd hboth => ?_, hchain⟩⟩
          · obtain rfl | hd := List.mem_cons.mp hd
            · rfl
            · exact hblank d hd hp
          · -- The run has ended, so what follows is a kept character.
            have hnext := h.found_run.2
            cases ps with
            | nil => cases hd
            | cons q ps =>
                cases q with
                | kept c =>
                    obtain rfl := Option.some.inj hd
                    rw [Piece.blanked, hnext c rfl] at hboth
                    cases hboth.2
                | found v =>
                    have hrun := hrest.found_run.1
                    cases hrest with
                    | found hne _ _ =>
                        obtain ⟨c, v, rfl⟩ := List.exists_cons_of_ne_nil hne
                        exact absurd (hrun c List.mem_cons_self) (Bool.eq_false_iff.mp (hnext c rfl))

/-- Blanks that stand alone stay as they are. -/
theorem IsScan.blanked_eq_text (h : IsScan word (plus (.char p)) prev ps)
    (hblank : ∀ c ∈ ps.flatMap Piece.text, p c = true → c = blank)
    (hchain : (ps.flatMap Piece.text).IsChain fun c d => ¬ (p c = true ∧ p d = true)) :
    ps.map (Piece.blanked blank) = ps.flatMap Piece.text := by
  induction ps generalizing prev with
  | nil => rfl
  | cons q ps ih =>
      rw [List.flatMap_cons] at hblank hchain
      have hrest := fun prev' (h : IsScan word (plus (.char p)) prev' ps) =>
        ih h (fun c hc => hblank c (List.mem_append_right _ hc)) (List.isChain_append.mp hchain).2.1
      cases q with
      | kept c =>
          cases h with
          | kept _ h => rw [List.map_cons, hrest _ h]; rfl
      | found u =>
          have hrun := h.found_run.1
          cases h with
          | found hne _ h =>
              obtain ⟨c, u, rfl⟩ := List.exists_cons_of_ne_nil hne
              cases u with
              | nil =>
                  have hc : c = blank := hblank c List.mem_cons_self (hrun c List.mem_cons_self)
                  rw [List.map_cons, hrest _ h, Piece.blanked, ← hc]
                  rfl
              | cons d u =>
                  have hstart := (List.isChain_cons_cons.mp hchain).1
                  exact (hstart ⟨hrun c List.mem_cons_self,
                    hrun d (List.mem_cons_of_mem _ List.mem_cons_self)⟩).elim

end Collapse

end Blanking

end Regex
