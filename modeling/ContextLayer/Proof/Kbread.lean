import ContextLayer.Kbread
import ContextLayer.Proof.CodePoints

/-!
# Two readers of front matter

The core looks for dashes at the start of a line, the generator for a line of three dashes. Both are taken to cuts
of the text behind the opening fence, and there the first is the second or ahead of it.
-/

namespace ContextLayer.Kbread

open Text Partition

variable {yaml : PyStr → Option PyJson} {text rest block after : Text}

/-! ### A word in the code points of a text -/

theorem units_map_unit (word : Text) : (word.map CodePoint.unit).flatMap CodePoint.units = word := by
  induction word with
  | nil => rfl
  | cons u word ih =>
      rw [List.map_cons, List.flatMap_cons, ih]
      rfl

theorem codePoints_append_word {word : Text} (hword : ∀ u ∈ word, isSurrogate u = false) (hne : word ≠ [])
    (a b : Text) : codePoints (a ++ (word ++ b)) = codePoints a ++ (word.map .unit ++ codePoints b) := by
  cases word with
  | nil => exact absurd rfl hne
  | cons u word =>
      rw [List.cons_append, codePoints_append_cons (hword u List.mem_cons_self),
        codePoints_append_of_forall fun v hv => hword v (List.mem_cons_of_mem u hv)]
      rfl

/-- **A word of no surrogates** is found in a text where it is found in its code points. -/
theorem dropInfix?_codePoints (word : Text) (hword : ∀ u ∈ word, isSurrogate u = false) (hne : word ≠ [])
    (text : Text) : (codePoints text).dropInfix? (word.map .unit) =
      (text.dropInfix? word).map (Prod.map codePoints codePoints) := by
  have hunits : ∀ {a b : PyStr}, codePoints text = a ++ (word.map .unit ++ b) →
      text = a.flatMap CodePoint.units ++ (word ++ b.flatMap CodePoint.units) := by
    intro a b h
    rw [← flatMap_units_codePoints text, h, List.flatMap_append, List.flatMap_append, units_map_unit]
  cases hcut : text.dropInfix? word with
  | none => exact dropInfix?_eq_none.mpr fun a b h => dropInfix?_eq_none.mp hcut _ _ (hunits h)
  | some parts =>
      obtain ⟨htext, hfirst⟩ := dropInfix?_eq_some.mp hcut
      refine dropInfix?_eq_some.mpr ⟨?_, fun a b h => ?_⟩
      · rw [htext]
        exact codePoints_append_word hword hne _ _
      · by_contra hlt
        have hsplit : codePoints parts.1 ++ (word.map .unit ++ codePoints parts.2) = a ++ (word.map .unit ++ b) := by
          rw [← codePoints_append_word hword hne, ← htext, h]
        obtain ⟨c, hc, -⟩ | ⟨c, hc, -⟩ := List.append_eq_append_iff.mp hsplit
        · rw [hc, List.length_append] at hlt
          exact hlt (Nat.le_add_right _ _)
        · have hparts : parts.1 = a.flatMap CodePoint.units ++ c.flatMap CodePoint.units := by
            rw [← flatMap_units_codePoints parts.1, hc, List.flatMap_append]
          have hle := hfirst _ _ (hunits h)
          have hnil : c.flatMap CodePoint.units = [] := by
            rw [← List.length_eq_zero_iff]
            have := congrArg List.length hparts
            rw [List.length_append] at this
            omega
          have hc' : c = [] := by
            cases c with
            | nil => rfl
            | cons p c => cases p <;> cases hnil
          rw [hc, hc', List.append_nil] at hlt
          exact hlt (le_refl _)

/-! ### The two scanners as cuts -/

theorem find?_eq (word text : PyStr) :
    Frontmatter.find? word text = (text.dropInfix? word).map fun parts => parts.1.length := by
  induction text with
  | nil =>
      by_cases hword : word = []
      · subst hword
        rfl
      · rw [Frontmatter.find?, if_neg hword, dropInfix?_eq_none.mpr fun a b h => ?_]
        · rfl
        · exact hword (List.append_eq_nil_iff.mp (List.append_eq_nil_iff.mp h.symm).2).1
  | cons p text ih =>
      rw [Frontmatter.find?]
      by_cases hprefix : word <+: p :: text
      · rw [if_pos hprefix, dropInfix?_of_prefix hprefix]
        rfl
      · rw [if_neg hprefix, dropInfix?_cons hprefix, ih, Option.map_map, Option.map_map]
        rfl

/-- The block the generator reads, and the body behind it. -/
def exactBlock (rest : Text) : Option (Text × Text) :=
  if js "---\n" <+: rest then some ([], rest.drop 4)
  else (rest.dropInfix? (js "\n---\n")).map fun parts => (parts.1 ++ js "\n", parts.2)

theorem codePoints_fenced (rest : Text) :
    codePoints (js "---\n" ++ rest) = py "---" ++ codePoints (0x0A :: rest) := by
  rw [codePoints_cons (by decide)]
  exact codePoints_append_of_forall (isSurrogate_of_all (by decide)) rest

theorem dropInfix?_fence (text : Text) : (codePoints text).dropInfix? (py "\n---\n") =
    (text.dropInfix? (js "\n---\n")).map (Prod.map codePoints codePoints) :=
  dropInfix?_codePoints (js "\n---\n") (isSurrogate_of_all (by decide)) (by decide) text

/-- The generator behind the opening fence. -/
theorem split_fenced (yaml : PyStr → Option PyJson) (rest : Text) :
    Frontmatter.split yaml (codePoints (js "---\n" ++ rest)) =
      match exactBlock rest with
      | none => (none, codePoints (js "---\n" ++ rest))
      | some (raw, body) =>
          match yaml (codePoints raw) with
          | some (.obj members) => (some members, codePoints body)
          | _ => (none, codePoints (js "---\n" ++ rest)) := by
  have hopen := codePoints_fenced rest
  have hcons : codePoints (0x0A :: rest) = .unit 0x0A :: codePoints rest := codePoints_cons (by decide) rest
  have hdrop : (codePoints (js "---\n" ++ rest)).drop 3 = codePoints (0x0A :: rest) := by rw [hopen]; rfl
  unfold Frontmatter.split exactBlock
  rw [if_pos ⟨codePoints rest, by rw [hopen, hcons]; rfl⟩, find?_eq, hdrop, dropInfix?_fence]
  by_cases hfence : js "---\n" <+: rest
  · obtain ⟨body, rfl⟩ := hfence
    have hprefix : js "\n---\n" <+: 0x0A :: (js "---\n" ++ body) := ⟨body, rfl⟩
    rw [if_pos ⟨body, rfl⟩, dropInfix?_of_prefix hprefix]
    have hbody : (codePoints (js "---\n" ++ (js "---\n" ++ body))).drop 8 = codePoints body := by
      rw [hopen, hcons, codePoints_fenced, codePoints_cons (by decide)]
      rfl
    show (match yaml [] with
      | some (.obj members) => (some members, (codePoints (js "---\n" ++ (js "---\n" ++ body))).drop 8)
      | _ => (none, codePoints (js "---\n" ++ (js "---\n" ++ body)))) = _
    rw [hbody]
    rfl
  · rw [if_neg hfence]
    have hprefix : ¬ js "\n---\n" <+: 0x0A :: rest := by
      intro h
      exact hfence (List.cons_prefix_cons.mp h).2
    rw [dropInfix?_cons hprefix]
    cases hcut : rest.dropInfix? (js "\n---\n") with
    | none => rfl
    | some parts =>
        obtain ⟨block, body⟩ := parts
        obtain ⟨rfl, -⟩ := dropInfix?_eq_some.mp hcut
        have hlength : (codePoints (0x0A :: block)).length = (codePoints block ++ py "\n").length := by
          rw [codePoints_cons (by decide), List.length_append, List.length_cons]
          rfl
        have hline : codePoints (block ++ js "\n") = codePoints block ++ py "\n" :=
          codePoints_append_units (isSurrogate_of_all (by decide)) block
        have hrest : codePoints (block ++ (js "\n---\n" ++ body)) =
            (codePoints block ++ py "\n") ++ (py "---\n" ++ codePoints body) := by
          rw [codePoints_append_word (isSurrogate_of_all (by decide)) (by decide), List.append_assoc]
          rfl
        have hraw : ((codePoints (js "---\n" ++ (block ++ (js "\n---\n" ++ body)))).drop 4).take
            (codePoints (0x0A :: block)).length = codePoints (block ++ js "\n") := by
          rw [hopen, hcons, hlength, hline]
          show (codePoints (block ++ (js "\n---\n" ++ body))).take _ = _
          rw [hrest]
          exact List.take_left
        have hbody : (codePoints (js "---\n" ++ (block ++ (js "\n---\n" ++ body)))).drop
            ((codePoints (0x0A :: block)).length + 8) = codePoints body := by
          rw [hopen, hcons, hlength, hrest]
          show List.drop _ ((py "---" ++ [CodePoint.unit 0x0A]) ++ (codePoints block ++ py "\n" ++ (py "---\n" ++ _))) = _
          rw [← List.append_assoc, ← List.append_assoc]
          refine List.drop_left' ?_
          rw [List.length_append, List.length_append]
          show 4 + _ + 4 = _
          omega
        show (match yaml (((codePoints (js "---\n" ++ (block ++ (js "\n---\n" ++ body)))).drop 4).take
            (codePoints (0x0A :: block)).length) with
          | some (.obj members) => (some members, (codePoints (js "---\n" ++ (block ++ (js "\n---\n" ++ body)))).drop
              ((codePoints (0x0A :: block)).length + 8))
          | _ => (none, codePoints (js "---\n" ++ (block ++ (js "\n---\n" ++ body))))) = _
        rw [hraw, hbody]
        rfl

/-- The core behind the opening fence. -/
theorem parseFrontMatter_fenced (yaml : PyStr → Option PyJson) (rest : Text) :
    parseFrontMatter yaml (js "---\n" ++ rest) =
      match rest.dropInfix? (js "\n---") with
      | none => (none, js "---\n" ++ rest)
      | some (block, after) =>
          match yaml (codePoints (block ++ js "\n")) with
          | none => (none, js "---\n" ++ rest)
          | some fm => (if isObject fm then some fm else none,
              ((cut 0x0A after).map Prod.snd).getD (js "---\n" ++ rest)) := by
  have hdrop : (js "---\n" ++ rest).drop 4 = rest := rfl
  unfold parseFrontMatter
  rw [if_pos ⟨rest, rfl⟩, hdrop, indexOf]
  cases hcut : rest.dropInfix? (js "\n---") with
  | none => rfl
  | some parts =>
      obtain ⟨block, after⟩ := parts
      obtain ⟨rfl, -⟩ := dropInfix?_eq_some.mp hcut
      have htext : js "---\n" ++ (block ++ (js "\n---" ++ after)) =
          (js "---\n" ++ block ++ js "\n") ++ (js "---" ++ after) := by
        simp only [List.append_assoc]
        rfl
      have hlength : block.length + 4 + 1 = (js "---\n" ++ block ++ js "\n").length := by
        rw [List.length_append, List.length_append]
        show _ = 4 + _ + 1
        omega
      have hraw : ((js "---\n" ++ (block ++ (js "\n---" ++ after))).take (block.length + 4 + 1)).drop 4 =
          block ++ js "\n" := by
        rw [htext, hlength, List.take_left]
        rfl
      have hafter : (js "---\n" ++ (block ++ (js "\n---" ++ after))).drop (block.length + 4 + 1) =
          js "---" ++ after := by
        rw [htext, hlength, List.drop_left]
      have hbody : (js "---\n" ++ (block ++ (js "\n---" ++ after))).drop
          (((indexOf (js "\n") (js "---" ++ after)).map (· + (block.length + 4 + 1) + 1)).getD 0) =
            ((cut 0x0A after).map Prod.snd).getD (js "---\n" ++ (block ++ (js "\n---" ++ after))) := by
        have hindex : indexOf (js "\n") (js "---" ++ after) =
            (cut 0x0A after).map fun parts => parts.1.length + 3 := by
          rw [indexOf, show js "\n" = [0x0A] from rfl, dropInfix?_singleton]
          show ((((cut 0x0A after).map _).map _).map _).map _ = _
          rw [Option.map_map, Option.map_map, Option.map_map]
          rfl
        rw [hindex]
        cases hline : cut 0x0A after with
        | none => rfl
        | some parts =>
            obtain ⟨line, body⟩ := parts
            obtain ⟨rfl, -⟩ := cut_eq_some.mp hline
            have hsplit : js "---\n" ++ (block ++ (js "\n---" ++ (line ++ 0x0A :: body))) =
                (js "---\n" ++ block ++ js "\n" ++ (js "---" ++ line ++ js "\n")) ++ body := by
              simp only [List.append_assoc]
              rfl
            rw [hsplit]
            refine List.drop_left' ?_
            simp only [List.length_append, Option.map_some, Option.getD_some]
            show 4 + _ + 1 + (3 + _ + 1) = _
            omega
      show (match yaml (codePoints (((js "---\n" ++ (block ++ (js "\n---" ++ after))).take
          (block.length + 4 + 1)).drop 4)) with
        | none => (none, js "---\n" ++ (block ++ (js "\n---" ++ after)))
        | some fm => (if isObject fm then some fm else none, (js "---\n" ++ (block ++ (js "\n---" ++ after))).drop
            (((indexOf (js "\n") ((js "---\n" ++ (block ++ (js "\n---" ++ after))).drop
              (block.length + 4 + 1))).map (· + (block.length + 4 + 1) + 1)).getD 0))) = _
      rw [hraw, hafter, hbody]

/-! ### Where the two blocks are one -/

/-- A line of three dashes behind the block ends in what follows the dashes of the core. -/
theorem newline_mem_after {a b : Text} (hfirst : block.length ≤ a.length)
    (h : block ++ (js "\n---" ++ after) = a ++ (js "\n---\n" ++ b)) : (0x0A : UInt16) ∈ after := by
  obtain ⟨c, rfl, hc⟩ | ⟨c, rfl, hc⟩ := List.append_eq_append_iff.mp h
  · have hcut : c ++ (js "\n---\n" ++ b) = (c ++ js "\n---") ++ 0x0A :: b := by
      rw [List.append_assoc]
      rfl
    rw [hcut] at hc
    have hdrop : after = ((c ++ js "\n---") ++ 0x0A :: b).drop 4 := by rw [← hc]; rfl
    rw [hdrop, List.drop_append_of_le_length (by rw [List.length_append]; exact Nat.le_add_left _ _)]
    exact List.mem_append_right _ List.mem_cons_self
  · have hnil : c = [] := by
      rw [← List.length_eq_zero_iff]
      rw [List.length_append] at hfirst
      omega
    subst hnil
    have hdrop : after = (js "\n---\n" ++ b).drop 4 := by rw [hc]; rfl
    rw [hdrop]
    exact List.mem_cons_self

/-- A line of three dashes ends the block of the core if it is the first with a break behind it. -/
theorem dropInfix?_fence_eq (hcut : rest.dropInfix? (js "\n---") = some (block, after)) {body : Text}
    (hafter : after = js "\n" ++ body) : rest.dropInfix? (js "\n---\n") = some (block, body) := by
  obtain ⟨rfl, hfirst⟩ := dropInfix?_eq_some.mp hcut
  refine dropInfix?_eq_some.mpr ⟨by rw [hafter]; rfl, fun a b h => ?_⟩
  exact hfirst a (js "\n" ++ b) (by rw [h]; rfl)

/-- Bodies that agree follow one line. -/
theorem prefix_of_body_eq (hcut : rest.dropInfix? (js "\n---") = some (block, after)) {line body a : Text}
    (hline : cut 0x0A after = some (line, body)) (hfence : rest.dropInfix? (js "\n---\n") = some (a, body)) :
    js "\n" <+: after := by
  obtain ⟨hrest, hfirst⟩ := dropInfix?_eq_some.mp hcut
  obtain ⟨hrest', -⟩ := dropInfix?_eq_some.mp hfence
  obtain ⟨rfl, hnotMem⟩ := cut_eq_some.mp hline
  have hle : block.length ≤ a.length := hfirst a (js "\n" ++ body) (by rw [hrest']; rfl)
  have heq : block ++ (js "\n---" ++ line) ++ 0x0A :: body = a ++ js "\n---" ++ 0x0A :: body := by
    calc block ++ (js "\n---" ++ line) ++ 0x0A :: body
        = block ++ (js "\n---" ++ (line ++ 0x0A :: body)) := by simp only [List.append_assoc]
      _ = rest := hrest.symm
      _ = a ++ (js "\n---\n" ++ body) := hrest'
      _ = a ++ js "\n---" ++ 0x0A :: body := by rw [List.append_assoc]; rfl
  have hcancel := List.append_cancel_right heq
  obtain ⟨c, hc, hc'⟩ | ⟨c, hc, hc'⟩ := List.append_eq_append_iff.mp hcancel
  · cases c with
    | nil =>
        rw [List.nil_append] at hc'
        have hnil : line = [] := by
          have := congrArg List.length hc'
          rw [List.length_append] at this
          rw [← List.length_eq_zero_iff]
          omega
        subst hnil
        exact ⟨body, rfl⟩
    | cons d c =>
        -- The line break of `\n---` would stand in the line.
        have hmem : (0x0A : UInt16) ∈ js "---" ++ line := by
          have htail : js "---" ++ line = c ++ js "\n---" := (List.cons.inj hc').2
          rw [htail]
          exact List.mem_append_right _ List.mem_cons_self
        exact absurd ((List.mem_append.mp hmem).resolve_left (by decide)) hnotMem
  · have hnil : c = [] := by
      rw [hc, List.length_append] at hle
      rw [← List.length_eq_zero_iff]
      omega
    subst hnil
    rw [List.nil_append] at hc'
    have hnil : line = [] := by
      have := congrArg List.length hc'
      rw [List.length_append] at this
      rw [← List.length_eq_zero_iff]
      omega
    subst hnil
    exact ⟨body, rfl⟩

/-! ### One reading -/

theorem exactBlock_of_cut_eq_none (h : rest.dropInfix? (js "\n---") = none) :
    exactBlock rest = none ∨ ∃ body, exactBlock rest = some ([], body) := by
  unfold exactBlock
  by_cases hfence : js "---\n" <+: rest
  · rw [if_pos hfence]
    exact Or.inr ⟨_, rfl⟩
  · rw [if_neg hfence]
    refine Or.inl (Option.map_eq_none_iff.mpr (dropInfix?_eq_none.mpr fun a b hrest => ?_))
    exact dropInfix?_eq_none.mp h a (js "\n" ++ b) (by rw [hrest]; rfl)

/-- The generator finds no mapping. -/
def NoMapping (yaml : PyStr → Option PyJson) (rest : Text) : Prop :=
  ∀ raw body, exactBlock rest = some (raw, body) → ∀ members, yaml (codePoints raw) ≠ some (.obj members)

theorem split_of_noMapping (h : NoMapping yaml rest) :
    Frontmatter.split yaml (codePoints (js "---\n" ++ rest)) = (none, codePoints (js "---\n" ++ rest)) := by
  rw [split_fenced]
  cases hblock : exactBlock rest with
  | none => rfl
  | some parts =>
      have hnot := h parts.1 parts.2 hblock
      dsimp only
      cases hyaml : yaml (codePoints parts.1) with
      | none => rfl
      | some v =>
          cases v with
          | obj members => exact absurd hyaml (hnot members)
          | null | bool _ | number _ | nonFinite _ | str _ | arr _ => rfl

theorem split_of_mapping {raw body : Text} {members : Frontmatter.Members} (h : exactBlock rest = some (raw, body))
    (hyaml : yaml (codePoints raw) = some (.obj members)) :
    Frontmatter.split yaml (codePoints (js "---\n" ++ rest)) = (some members, codePoints body) := by
  rw [split_fenced, h]
  dsimp only
  rw [hyaml]

/-- The generator returns a mapping, or all of the text. -/
theorem noMapping_or_mapping (yaml : PyStr → Option PyJson) (rest : Text) : NoMapping yaml rest ∨
    ∃ raw body members, exactBlock rest = some (raw, body) ∧ yaml (codePoints raw) = some (.obj members) := by
  by_cases h : NoMapping yaml rest
  · exact Or.inl h
  · unfold NoMapping at h
    push Not at h
    obtain ⟨raw, body, hblock, members, hyaml⟩ := h
    exact Or.inr ⟨raw, body, members, hblock, hyaml⟩

theorem length_lt_of_exactBlock {raw body : Text} (h : exactBlock rest = some (raw, body)) :
    body.length < (js "---\n" ++ rest).length := by
  have hle : body.length ≤ rest.length := by
    unfold exactBlock at h
    by_cases hfence : js "---\n" <+: rest
    · rw [if_pos hfence] at h
      obtain ⟨-, rfl⟩ := Prod.mk.inj (Option.some.inj h)
      exact (List.length_drop ..).trans_le (Nat.sub_le _ _)
    · rw [if_neg hfence] at h
      obtain ⟨parts, hcut, heq⟩ := Option.map_eq_some_iff.mp h
      obtain ⟨-, rfl⟩ := Prod.mk.inj heq
      rw [(dropInfix?_eq_some.mp hcut).1, List.length_append, List.length_append]
      omega
  rw [List.length_append]
  show _ < 4 + _
  omega

/-- The two readers, where both find no mapping. -/
theorem readSame_iff_body (hnone : NoMapping yaml rest) (hcore : (parseFrontMatter yaml (js "---\n" ++ rest)).1 = none) :
    ReadSame yaml (js "---\n" ++ rest) ↔ (parseFrontMatter yaml (js "---\n" ++ rest)).2 = js "---\n" ++ rest := by
  have hsplit := split_of_noMapping hnone
  constructor
  · intro h
    have := h.body
    rw [hsplit] at this
    exact codePoints_injective this
  · intro h
    constructor
    · rw [hcore, hsplit]
      rfl
    · rw [h, hsplit]

theorem readSame_of_not_fenced (h : ¬ js "---\n" <+: text) : ReadSame yaml text := by
  have hcore : parseFrontMatter yaml text = (none, text) := if_neg h
  have hsplit : Frontmatter.split yaml (codePoints text) = (none, codePoints text) := by
    refine if_neg ?_
    rintro ⟨tail, htail⟩
    refine h ⟨tail.flatMap CodePoint.units, ?_⟩
    rw [← flatMap_units_codePoints text, ← htail, List.flatMap_append]
    rfl
  constructor
  · rw [hcore, hsplit]
    rfl
  · rw [hcore, hsplit]

theorem noMapping_of_line (hempty : yaml [] = some .null)
    (hcut : rest.dropInfix? (js "\n---") = some (block, after)) (hline : (0x0A : UInt16) ∉ after) :
    NoMapping yaml rest := by
  intro raw body hblock members hyaml
  obtain ⟨hrest, hfirst⟩ := dropInfix?_eq_some.mp hcut
  unfold exactBlock at hblock
  by_cases hfence : js "---\n" <+: rest
  · rw [if_pos hfence] at hblock
    obtain ⟨rfl, -⟩ := Prod.mk.inj (Option.some.inj hblock)
    have : yaml [] = some (.obj members) := hyaml
    rw [hempty] at this
    cases this
  · rw [if_neg hfence] at hblock
    obtain ⟨parts, hparts, -⟩ := Option.map_eq_some_iff.mp hblock
    obtain ⟨hrest', -⟩ := dropInfix?_eq_some.mp hparts
    have hle := hfirst parts.1 (js "\n" ++ parts.2) (by rw [hrest']; rfl)
    exact hline (newline_mem_after hle (hrest.symm.trans hrest'))

/-- A mapping is read alike where the line that ends the block is three dashes and a break. -/
theorem readSame_mapping_iff (hempty : yaml [] = some .null)
    (hcut : rest.dropInfix? (js "\n---") = some (block, after)) {members : Frontmatter.Members}
    (hyaml : yaml (codePoints (block ++ js "\n")) = some (.obj members)) :
    ReadSame yaml (js "---\n" ++ rest) ↔ js "\n" <+: after ∧ ¬ js "---\n" <+: rest := by
  have hcore : parseFrontMatter yaml (js "---\n" ++ rest) =
      (some (.obj members), ((cut 0x0A after).map Prod.snd).getD (js "---\n" ++ rest)) := by
    rw [parseFrontMatter_fenced, hcut]
    dsimp only
    rw [hyaml]
    rfl
  constructor
  · intro h
    have hmembers := h.frontMatter
    rw [hcore] at hmembers
    rcases noMapping_or_mapping yaml rest with hnone | ⟨raw, body, members', hblock, hyaml'⟩
    · rw [split_of_noMapping hnone] at hmembers
      cases hmembers
    · have hbody : ((cut 0x0A after).map Prod.snd).getD (js "---\n" ++ rest) = body := by
        have := h.body
        rw [hcore, split_of_mapping hblock hyaml'] at this
        exact codePoints_injective this
      cases hline : cut 0x0A after with
      | none =>
          rw [hline] at hbody
          have := length_lt_of_exactBlock hblock
          rw [← hbody] at this
          exact absurd this (lt_irrefl _)
      | some parts =>
          rw [hline] at hbody
          unfold exactBlock at hblock
          by_cases hfence : js "---\n" <+: rest
          · rw [if_pos hfence] at hblock
            obtain ⟨rfl, -⟩ := Prod.mk.inj (Option.some.inj hblock)
            have : yaml [] = some (.obj members') := hyaml'
            rw [hempty] at this
            cases this
          · rw [if_neg hfence] at hblock
            obtain ⟨parts', hcut', heq⟩ := Option.map_eq_some_iff.mp hblock
            obtain ⟨-, rfl⟩ := Prod.mk.inj heq
            have hline' : cut 0x0A after = some (parts.1, parts'.2) := by
              rw [hline, ← show parts.2 = parts'.2 from hbody]
            exact ⟨prefix_of_body_eq hcut hline' hcut', hfence⟩
  · rintro ⟨⟨body, rfl⟩, hfence⟩
    have hblock : exactBlock rest = some (block ++ js "\n", body) := by
      unfold exactBlock
      rw [if_neg hfence, dropInfix?_fence_eq hcut rfl]
      rfl
    constructor
    · rw [hcore, split_of_mapping hblock hyaml]
      rfl
    · rw [hcore, split_of_mapping hblock hyaml]
      rfl

theorem not_readSame_of_list {items : List PyJson} (hcut : rest.dropInfix? (js "\n---") = some (block, after))
    (hyaml : yaml (codePoints (block ++ js "\n")) = some (.arr items)) :
    ¬ ReadSame yaml (js "---\n" ++ rest) := by
  intro h
  have := h.frontMatter
  rw [parseFrontMatter_fenced, hcut] at this
  dsimp only at this
  rw [hyaml] at this
  cases hsplit : (Frontmatter.split yaml (codePoints (js "---\n" ++ rest))).1 with
  | none =>
      rw [hsplit] at this
      cases this
  | some members =>
      rw [hsplit] at this
      cases this

/-- A scalar is dropped with its block, unless the text ends with the line that closes it. -/
theorem readSame_scalar_iff (hempty : yaml [] = some .null)
    (hcut : rest.dropInfix? (js "\n---") = some (block, after)) {v : PyJson} (hv : isObject v = false)
    (hyaml : yaml (codePoints (block ++ js "\n")) = some v) :
    ReadSame yaml (js "---\n" ++ rest) ↔ (0x0A : UInt16) ∉ after := by
  have hcore : parseFrontMatter yaml (js "---\n" ++ rest) =
      (none, ((cut 0x0A after).map Prod.snd).getD (js "---\n" ++ rest)) := by
    rw [parseFrontMatter_fenced, hcut]
    dsimp only
    rw [hyaml]
    dsimp only
    rw [hv]
    rfl
  constructor
  · intro h hmem
    cases hline : cut 0x0A after with
    | none => exact cut_eq_none.mp hline hmem
    | some parts =>
        rw [hline] at hcore
        have hfront := h.frontMatter
        have hbody := h.body
        rw [hcore] at hfront hbody
        rcases noMapping_or_mapping yaml rest with hnone | ⟨raw, body, members', hblock, hyaml'⟩
        · rw [split_of_noMapping hnone] at hbody
          have heq : parts.2 = js "---\n" ++ rest := codePoints_injective hbody
          have hlength := congrArg List.length heq
          obtain ⟨rfl, -⟩ := dropInfix?_eq_some.mp hcut
          obtain ⟨rfl, -⟩ := cut_eq_some.mp hline
          simp only [List.length_append, List.length_cons] at hlength
          omega
        · rw [split_of_mapping hblock hyaml'] at hfront
          cases hfront
  · intro hmem
    refine (readSame_iff_body (noMapping_of_line hempty hcut hmem) (by rw [hcore])).mpr ?_
    rw [hcore, cut_eq_none.mpr hmem]
    rfl

/-- What is no YAML is no front matter, if the generator does not read on. -/
theorem readSame_error_iff (hempty : yaml [] = some .null)
    (hcut : rest.dropInfix? (js "\n---") = some (block, after))
    (hyaml : yaml (codePoints (block ++ js "\n")) = none) :
    ReadSame yaml (js "---\n" ++ rest) ↔
      (¬ js "---\n" <+: rest → ∀ block' body, rest.dropInfix? (js "\n---\n") = some (block', body) →
        ∀ members, yaml (codePoints (block' ++ js "\n")) ≠ some (.obj members)) := by
  have hcore : parseFrontMatter yaml (js "---\n" ++ rest) = (none, js "---\n" ++ rest) := by
    rw [parseFrontMatter_fenced, hcut]
    dsimp only
    rw [hyaml]
  have hcondition : NoMapping yaml rest ↔
      (¬ js "---\n" <+: rest → ∀ block' body, rest.dropInfix? (js "\n---\n") = some (block', body) →
        ∀ members, yaml (codePoints (block' ++ js "\n")) ≠ some (.obj members)) := by
    unfold NoMapping exactBlock
    by_cases hfence : js "---\n" <+: rest
    · refine iff_of_true ?_ fun h => absurd hfence h
      intro raw body hblock members hmembers
      rw [if_pos hfence] at hblock
      obtain ⟨rfl, -⟩ := Prod.mk.inj (Option.some.inj hblock)
      have : yaml [] = some (.obj members) := hmembers
      rw [hempty] at this
      cases this
    · rw [if_neg hfence]
      constructor
      · intro h _ block' body hblock'
        exact h (block' ++ js "\n") body (by rw [hblock']; rfl)
      · intro h raw body hblock members
        obtain ⟨parts, hparts, heq⟩ := Option.map_eq_some_iff.mp hblock
        obtain ⟨rfl, rfl⟩ := Prod.mk.inj heq
        exact h hfence parts.1 parts.2 hparts members
  rw [← hcondition]
  constructor
  · intro h
    rcases noMapping_or_mapping yaml rest with hnone | ⟨raw, body, members', hblock, hyaml'⟩
    · exact hnone
    · have := h.frontMatter
      rw [hcore, split_of_mapping hblock hyaml'] at this
      cases this
  · intro hnone
    exact (readSame_iff_body hnone (by rw [hcore])).mpr (by rw [hcore])

/-- **Which documents the two readers agree on.** -/
theorem readSame_iff (yaml : PyStr → Option PyJson) (hempty : yaml [] = some .null) (text : Text) :
    ReadSame yaml text ↔ ReadAlike yaml text := by
  by_cases hfenced : js "---\n" <+: text
  · obtain ⟨rest, rfl⟩ := hfenced
    have hrest : ReadAlike yaml (js "---\n" ++ rest) ↔
        ∀ block after, rest.dropInfix? (js "\n---") = some (block, after) →
          ReadSame yaml (js "---\n" ++ rest) := by
      unfold ReadAlike
      constructor
      · intro h block after hcut
        have hcase := h rest rfl block after hcut
        cases hyaml : yaml (codePoints (block ++ js "\n")) with
        | none =>
            rw [hyaml] at hcase
            exact (readSame_error_iff hempty hcut hyaml).mpr hcase
        | some v =>
            rw [hyaml] at hcase
            cases v with
            | obj members => exact (readSame_mapping_iff hempty hcut hyaml).mpr hcase
            | arr items => exact hcase.elim
            | null | bool _ | number _ | nonFinite _ | str _ =>
                exact (readSame_scalar_iff hempty hcut rfl hyaml).mpr hcase
      · intro h rest' hrest' block after hcut
        obtain rfl := List.append_cancel_left hrest'
        have hsame := h block after hcut
        cases hyaml : yaml (codePoints (block ++ js "\n")) with
        | none => exact (readSame_error_iff hempty hcut hyaml).mp hsame
        | some v =>
            cases v with
            | obj members => exact (readSame_mapping_iff hempty hcut hyaml).mp hsame
            | arr items => exact not_readSame_of_list hcut hyaml hsame
            | null | bool _ | number _ | nonFinite _ | str _ =>
                exact (readSame_scalar_iff hempty hcut rfl hyaml).mp hsame
    rw [hrest]
    refine ⟨fun h _ _ _ => h, fun h => ?_⟩
    cases hcut : rest.dropInfix? (js "\n---") with
    | some parts => exact h parts.1 parts.2 hcut
    | none =>
        have hcore : parseFrontMatter yaml (js "---\n" ++ rest) = (none, js "---\n" ++ rest) := by
          rw [parseFrontMatter_fenced, hcut]
        have hnone : NoMapping yaml rest := by
          intro raw body hblock members hmembers
          rcases exactBlock_of_cut_eq_none hcut with hblock' | ⟨body', hblock'⟩
          · rw [hblock'] at hblock
            cases hblock
          · rw [hblock'] at hblock
            obtain ⟨rfl, -⟩ := Prod.mk.inj (Option.some.inj hblock)
            have : yaml [] = some (.obj members) := hmembers
            rw [hempty] at this
            cases this
        exact (readSame_iff_body hnone (by rw [hcore])).mpr (by rw [hcore])
  · refine iff_of_true (readSame_of_not_fenced hfenced) fun rest htext => ?_
    exact absurd ⟨rest, htext.symm⟩ hfenced

/-- A loader that knows one line. -/
def oneLine (text : PyStr) : Option PyJson :=
  if text = py "foo: 1\n" then some (.obj [(py "foo", .bool true)]) else some .null

theorem readSame_line : ReadSame oneLine (js "---\nfoo: 1\n---\nbody\n") := by
  refine (readSame_iff oneLine rfl _).mpr fun rest htext block after hcut => ?_
  have hfence : js "---\nfoo: 1\n---\nbody\n" = js "---\n" ++ js "foo: 1\n---\nbody\n" := by decide
  rw [hfence] at htext
  obtain rfl := List.append_cancel_left htext
  have hparts : (js "foo: 1\n---\nbody\n").dropInfix? (js "\n---") = some (js "foo: 1", js "\nbody\n") := by decide
  rw [hparts] at hcut
  cases hcut
  have hyaml : oneLine (codePoints (js "foo: 1" ++ js "\n")) = some (.obj [(py "foo", .bool true)]) := if_pos rfl
  rw [hyaml]
  exact ⟨⟨js "body\n", rfl⟩, by decide⟩

/-- The closing line has no break, and the generator reads no front matter. -/
theorem not_readSame_unbroken :
    ¬ ∀ yaml : PyStr → Option PyJson, yaml [] = some .null → ∀ text, ReadSame yaml text := by
  intro hall
  have hfront := (hall oneLine rfl (js "---\nfoo: 1\n---")).frontMatter
  have hsplit : (Frontmatter.split oneLine (codePoints (js "---\nfoo: 1\n---"))).1.isSome = false := by decide
  have hcore : (parseFrontMatter oneLine (js "---\nfoo: 1\n---")).1.isSome = true := by decide
  rw [hfront, Option.isSome_map, hsplit] at hcore
  cases hcore

end ContextLayer.Kbread
