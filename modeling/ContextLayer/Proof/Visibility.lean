import ContextLayer.Visibility
import Mathlib.Algebra.BigOperators.Group.List.Basic
import Mathlib.Computability.Language

/-!
# What a glob grants

A glob is matched through a regular expression, made of it by substitution. What is granted is a language: a unit stands for
itself, `*` for a run inside a segment, and `**` for a run across directories, of what `.` matches.
-/

namespace ContextLayer

open Text

inductive GlobToken where
  | unit (u : UInt16)
  | segment
  | path

/-- Stars are taken two by two, from the left. -/
def globTokens : Text → List GlobToken
  | [] => []
  | 0x2A :: 0x2A :: rest => .path :: globTokens rest
  | 0x2A :: rest => .segment :: globTokens rest
  | u :: rest => .unit u :: globTokens rest

def GlobToken.language : GlobToken → Language UInt16
  | .unit u => {[u]}
  | .segment => {s | 0x2F ∉ s}
  | .path => {s | ∀ u ∈ s, isLineTerminator u = false}

/-- The targets a glob stands for. -/
def globLanguage (pattern : Text) : Language UInt16 := ((globTokens pattern).map GlobToken.language).prod

/-! ### The matcher -/

def GlobItem.language : GlobItem → Language UInt16
  | .literal u optional => {s | s = [u] ∨ optional = true ∧ s = []}
  | .run anything => {s | ∀ u ∈ s, GlobItem.admits anything u = true}

theorem mem_literal {u : UInt16} {optional : Bool} {s : Text} :
    s ∈ (GlobItem.literal u optional).language ↔ s = [u] ∨ optional = true ∧ s = [] := Iff.rfl

theorem mem_run {anything : Bool} {s : Text} :
    s ∈ (GlobItem.run anything).language ↔ ∀ u ∈ s, GlobItem.admits anything u = true := Iff.rfl

theorem mem_runSuffixes {anything : Bool} {s t : Text} :
    t ∈ runSuffixes anything s ↔ ∃ r ∈ (GlobItem.run anything).language, r ++ t = s := by
  simp only [mem_run]
  induction s generalizing t with
  | nil =>
      rw [runSuffixes, List.mem_singleton]
      constructor
      · rintro rfl
        exact ⟨[], fun _ h => absurd h List.not_mem_nil, rfl⟩
      · rintro ⟨r, -, h⟩
        exact (List.append_eq_nil_iff.mp h).2
  | cons u s ih =>
      rw [runSuffixes, List.mem_cons]
      constructor
      · rintro (rfl | h)
        · exact ⟨[], fun _ h => absurd h List.not_mem_nil, rfl⟩
        · split at h
          · rename_i hu
            obtain ⟨r, hr, rfl⟩ := ih.mp h
            exact ⟨u :: r, List.forall_mem_cons.mpr ⟨hu, hr⟩, rfl⟩
          · exact absurd h List.not_mem_nil
      · rintro ⟨r, hr, h⟩
        cases r with
        | nil => exact .inl h
        | cons v r =>
            obtain ⟨rfl, hs⟩ := List.cons.inj h
            rw [List.forall_mem_cons] at hr
            rw [if_pos hr.1]
            exact .inr (ih.mpr ⟨r, hr.2, hs⟩)

theorem matchItems_literal {u : UInt16} {optional : Bool} {items : List GlobItem} {s : Text} :
    matchItems (.literal u optional :: items) s = true ↔
      optional = true ∧ matchItems items s = true ∨ ∃ rest, s = u :: rest ∧ matchItems items rest = true := by
  cases s with
  | nil => simp [matchItems]
  | cons v s =>
      rw [matchItems, Bool.or_eq_true, Bool.and_eq_true, Bool.and_eq_true, beq_iff_eq]
      refine or_congr Iff.rfl ⟨?_, ?_⟩
      · rintro ⟨rfl, h⟩
        exact ⟨s, rfl, h⟩
      · rintro ⟨rest, heq, h⟩
        obtain ⟨rfl, rfl⟩ := List.cons.inj heq
        exact ⟨rfl, h⟩

/-- **The matcher decides the language** of what it is given. -/
theorem matchItems_iff {items : List GlobItem} {s : Text} :
    matchItems items s = true ↔ s ∈ (items.map GlobItem.language).prod := by
  induction items generalizing s with
  | nil => rw [matchItems, List.isEmpty_iff, List.map_nil, List.prod_nil, Language.mem_one]
  | cons item items ih =>
      rw [List.map_cons, List.prod_cons, Language.mem_mul]
      cases item with
      | literal u optional =>
          rw [matchItems_literal, ih]
          simp only [mem_literal]
          constructor
          · rintro (⟨hoptional, h⟩ | ⟨rest, rfl, h⟩)
            · exact ⟨[], .inr ⟨hoptional, rfl⟩, s, h, rfl⟩
            · exact ⟨[u], .inl rfl, rest, ih.mp h, rfl⟩
          · rintro ⟨r, rfl | ⟨hoptional, rfl⟩, t, ht, rfl⟩
            · exact .inr ⟨t, rfl, ih.mpr ht⟩
            · exact .inl ⟨hoptional, ht⟩
      | run anything =>
          rw [matchItems, List.any_eq_true]
          constructor
          · rintro ⟨t, ht, h⟩
            obtain ⟨r, hr, rfl⟩ := mem_runSuffixes.mp ht
            exact ⟨r, hr, t, ih.mp h, rfl⟩
          · rintro ⟨r, hr, t, ht, rfl⟩
            exact ⟨t, mem_runSuffixes.mpr ⟨r, hr, rfl⟩, ih.mpr ht⟩

/-! ### The substitutions -/

def GlobToken.item : GlobToken → GlobItem
  | .unit u => .literal u false
  | .segment => .run false
  | .path => .run true

theorem language_item (token : GlobToken) : token.item.language = token.language := by
  ext s
  cases token with
  | unit u => exact ⟨fun h => h.elim id fun h => absurd h.1 Bool.false_ne_true, .inl⟩
  | segment =>
      change (∀ u ∈ s, (u != 0x2F) = true) ↔ 0x2F ∉ s
      simp only [bne_iff_ne, ne_eq]
      exact ⟨fun h hs => h _ hs rfl, fun h u hu heq => h (heq ▸ hu)⟩
  | path =>
      change (∀ u ∈ s, (!isLineTerminator u) = true) ↔ ∀ u ∈ s, isLineTerminator u = false
      simp only [Bool.not_eq_true']

/-- A pattern without `?`, and without the placeholder. -/
structure PlainGlob (pattern : Text) : Prop where
  question : 0x3F ∉ pattern
  placeholder : 0x00 ∉ pattern

theorem PlainGlob.tail {u : UInt16} {pattern : Text} (h : PlainGlob (u :: pattern)) : PlainGlob pattern :=
  ⟨fun hmem => h.question (List.mem_cons_of_mem _ hmem), fun hmem => h.placeholder (List.mem_cons_of_mem _ hmem)⟩

theorem compileGlob_of_plain {pattern : Text} (h : PlainGlob pattern) :
    compileGlob pattern = some ((globTokens pattern).map GlobToken.item) := by
  have hquestion := h.question
  have hplaceholder := h.placeholder
  fun_induction compileGlob pattern
  case case1 => rfl
  case case4 rest _ ih =>
      rw [ih h.tail.tail h.tail.tail.question h.tail.tail.placeholder]
      rfl
  case case6 rest _ hstar _ ih =>
      rw [ih h.tail h.tail.question h.tail.placeholder, globTokens.eq_3 _ hstar]
      rfl
  case case11 u rest _ _ _ _ hstar _ _ _ _ ih =>
      rw [ih h.tail h.tail.question h.tail.placeholder, globTokens.eq_4 _ _ (fun _ hu _ => hstar hu) hstar]
      rfl
  -- a `?` or a placeholder in the pattern
  all_goals simp at hquestion hplaceholder

/-- **Who sees a path**: it is in the language of a glob of the caller's, and nothing else is seen. -/
theorem pathVisible_iff (scopes : List Scope) (hplain : ∀ scope ∈ scopes, PlainGlob scope.pattern) (relPath : Text) :
    pathVisible scopes relPath = true ↔ ∃ scope ∈ scopes, relPath ∈ globLanguage scope.pattern := by
  rw [pathVisible, List.any_eq_true]
  refine exists_congr fun scope => and_congr_right fun hscope => ?_
  have hitems : (globTokens scope.pattern).map GlobToken.item = scope.items :=
    Option.some.inj ((compileGlob_of_plain (hplain scope hscope)).symm.trans scope.compiled)
  rw [globMatch, matchItems_iff, globLanguage, ← hitems, List.map_map]
  exact iff_of_eq (congrArg (relPath ∈ ·) (congrArg List.prod (List.map_congr_left fun token _ => language_item token)))

/-- What is directly under a directory. -/
def oneLevel : Scope := ⟨js "s/*", [.literal 0x73 false, .literal 0x2F false, .run false], by decide⟩

theorem pathVisible_iff_oneLevel :
    pathVisible [oneLevel] (js "s/index.md") = true ↔
      ∃ scope ∈ [oneLevel], js "s/index.md" ∈ globLanguage scope.pattern :=
  pathVisible_iff [oneLevel] (List.forall_mem_singleton.mpr ⟨by decide, by decide⟩) _

/-! ### A directory -/

theorem globTokens_literal {dir : Text} (hstar : 0x2A ∉ dir) (rest : Text) :
    globTokens (dir ++ rest) = dir.map .unit ++ globTokens rest := by
  induction dir with
  | nil => rfl
  | cons u dir ih =>
      rw [List.mem_cons, not_or] at hstar
      obtain ⟨hu, hdir⟩ := hstar
      rw [List.cons_append, globTokens.eq_4 _ _ (fun _ heq _ => hu heq.symm) fun heq => hu heq.symm, ih hdir, List.map_cons,
        List.cons_append]

theorem prod_units (dir : Text) : ((dir.map GlobToken.unit).map GlobToken.language).prod = {dir} := by
  induction dir with
  | nil => rfl
  | cons u dir ih =>
      rw [List.map_cons, List.map_cons, List.prod_cons, ih]
      ext s
      rw [Language.mem_mul]
      constructor
      · rintro ⟨_, rfl, _, rfl, rfl⟩
        rfl
      · rintro rfl
        exact ⟨[u], rfl, dir, rfl, rfl⟩

/-- `<dir>/**` is what is under the directory, at any depth. -/
theorem mem_globLanguage_subtree {dir : Text} (hstar : 0x2A ∉ dir) {path : Text} :
    path ∈ globLanguage (dir ++ js "/**") ↔
      ∃ rest, path = dir ++ js "/" ++ rest ∧ ∀ u ∈ rest, isLineTerminator u = false := by
  have hslash : (0x2A : UInt16) ∉ dir ++ js "/" := by
    rw [List.mem_append, not_or]
    exact ⟨hstar, by decide⟩
  have hsplit : dir ++ js "/**" = dir ++ js "/" ++ [0x2A, 0x2A] := by
    rw [List.append_assoc]
    rfl
  rw [globLanguage, hsplit, globTokens_literal hslash, List.map_append, List.prod_append, prod_units, Language.mem_mul]
  change (∃ a, a = dir ++ js "/" ∧ ∃ b ∈ GlobToken.path.language * 1, a ++ b = path) ↔ _
  rw [mul_one]
  constructor
  · rintro ⟨_, rfl, rest, hrest, rfl⟩
    exact ⟨rest, rfl, hrest⟩
  · rintro ⟨rest, rfl, hrest⟩
    exact ⟨_, rfl, rest, hrest, rfl⟩

end ContextLayer
