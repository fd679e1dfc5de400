import ContextLayer.Changelog

/-!
# What the sources can write into a changelog

`neutralize` takes two of the four line terminators away and keeps the other two in place, so it maps
the stretches between separators one by one. The lines of the body are then the lines of its
templates: the first begins with the literal of its template, and every other one with what follows
a separator in a value.
-/

namespace ContextLayer

open Text

theorem isLineTerminator_eq (u : UInt16) : isLineTerminator u = (isBreak u || isSeparator u) := by
  simp only [isLineTerminator, isBreak, isSeparator, Bool.or_assoc]

theorem not_isBreak_of_isSeparator {u : UInt16} (hu : isSeparator u = true) : isBreak u = false := by
  simp only [isSeparator, Bool.or_eq_true, beq_iff_eq] at hu
  obtain rfl | rfl := hu <;> decide

/-- What ends a prefix that does not hold `u` comes before `u`. -/
theorem exists_eq_append_of_notMem {α : Type} {x y a b : List α} {u : α} (hu : u ∉ x)
    (h : x ++ y = a ++ u :: b) : ∃ a', a = x ++ a' ∧ y = a' ++ u :: b := by
  induction x generalizing a with
  | nil => exact ⟨a, rfl, h⟩
  | cons v x ih =>
      cases a with
      | nil =>
          rw [List.cons_append, List.nil_append, List.cons.injEq] at h
          exact absurd (h.1 ▸ List.mem_cons_self) hu
      | cons w a =>
          simp only [List.cons_append, List.cons.injEq] at h
          obtain ⟨a', rfl, hy⟩ := ih (fun hmem => hu (List.mem_cons_of_mem v hmem)) h.2
          exact ⟨a', by rw [h.1, List.cons_append], hy⟩

/-! ### Separators survive `neutralize` -/

/-- A rewriting that maps the stretches between separators, and brings no line terminator of its
own. -/
structure KeepsSeparators (f : Text → Text) : Prop where
  append_cons : ∀ a u b, isSeparator u = true → f (a ++ u :: b) = f a ++ u :: f b
  split : ∀ s a u b, isLineTerminator u = true → f s = a ++ u :: b →
    ∃ a' b', s = a' ++ u :: b' ∧ f b' = b

theorem KeepsSeparators.comp {f g : Text → Text} (hg : KeepsSeparators g) (hf : KeepsSeparators f) :
    KeepsSeparators fun s => g (f s) where
  append_cons a u b hu := by
    simp only [hf.append_cons a u b hu, hg.append_cons (f a) u (f b) hu]
  split s a u b hu h := by
    obtain ⟨a', b', hfs, hb⟩ := hg.split (f s) a u b hu h
    obtain ⟨a'', b'', hs, hb'⟩ := hf.split s a' u b' hu hfs
    exact ⟨a'', b'', hs, by rw [hb', hb]⟩

theorem isBreak_of_mem_collapseBreaks {s : Text} {u : UInt16} (hu : u ∈ collapseBreaks s) :
    isBreak u = false := by
  induction s with
  | nil => simp [collapseBreaks] at hu
  | cons v s ih =>
      rw [collapseBreaks] at hu
      split at hu
      · split at hu
        · exact ih hu
        · obtain rfl | hu := List.mem_cons.mp hu
          · decide
          · exact ih hu
      · obtain rfl | hu := List.mem_cons.mp hu
        · simpa using ‹¬ isBreak u = true›
        · exact ih hu

theorem keepsSeparators_collapseBreaks : KeepsSeparators collapseBreaks where
  append_cons a u b hu := by
    have hbreak := not_isBreak_of_isSeparator hu
    induction a with
    | nil => simp [collapseBreaks, hbreak]
    | cons v a ih =>
        have hhead : (a ++ u :: b).head?.any isBreak = a.head?.any isBreak := by
          cases a <;> simp [hbreak]
        simp only [List.cons_append, collapseBreaks, ih, hhead]
        split
        · split <;> rfl
        · rfl
  split s := by
    induction s with
    | nil => intro a u b _ h; simp [collapseBreaks] at h
    | cons v s ih =>
        intro a u b hu h
        have hbreak : isBreak u = false := isBreak_of_mem_collapseBreaks (s := v :: s) (by rw [h]; simp)
        have later : ∀ a, collapseBreaks s = a ++ u :: b →
            ∃ a' b', v :: s = a' ++ u :: b' ∧ collapseBreaks b' = b := by
          intro a h
          obtain ⟨a', b', hs, hb⟩ := ih a u b hu h
          exact ⟨v :: a', b', by rw [hs, List.cons_append], hb⟩
        rw [collapseBreaks] at h
        split at h
        · split at h
          · exact later a h
          · cases a with
            | nil =>
                simp only [List.nil_append, List.cons.injEq] at h
                rw [← h.1] at hu
                exact absurd hu (by decide)
            | cons w a =>
                simp only [List.cons_append, List.cons.injEq] at h
                exact later a h.2
        · cases a with
          | nil =>
              simp only [List.nil_append, List.cons.injEq] at h
              exact ⟨[], s, by rw [h.1, List.nil_append], h.2⟩
          | cons w a =>
              simp only [List.cons_append, List.cons.injEq] at h
              exact later a h.2

theorem keepsSeparators_replaceUnit {w : UInt16} {replacement : Text}
    (hw : isSeparator w = false) (hplain : replacement.any isLineTerminator = false) :
    KeepsSeparators (replaceUnit w replacement) where
  append_cons a u b hu := by
    have hne : u ≠ w := by
      rintro rfl
      rw [hu] at hw
      cases hw
    simp [replaceUnit, hne]
  split s := by
    induction s with
    | nil => intro a u b _ h; simp [replaceUnit] at h
    | cons v s ih =>
        intro a u b hu h
        have hnot : u ∉ replacement := fun hmem => List.any_eq_false.mp hplain u hmem hu
        have later : ∀ a, replaceUnit w replacement s = a ++ u :: b →
            ∃ a' b', v :: s = a' ++ u :: b' ∧ replaceUnit w replacement b' = b := by
          intro a h
          obtain ⟨a', b', hs, hb⟩ := ih a u b hu h
          exact ⟨v :: a', b', by rw [hs, List.cons_append], hb⟩
        simp only [replaceUnit, List.flatMap_cons] at h
        split at h
        · obtain ⟨a', -, h'⟩ := exists_eq_append_of_notMem hnot h
          exact later a' h'
        · cases a with
          | nil =>
              simp only [List.singleton_append, List.nil_append, List.cons.injEq] at h
              exact ⟨[], s, by rw [h.1, List.nil_append], h.2⟩
          | cons z a =>
              simp only [List.cons_append, List.cons.injEq] at h
              exact later a h.2

theorem keepsSeparators_escapes (escapes : List (UInt16 × Text))
    (h : ∀ e ∈ escapes, isSeparator e.1 = false ∧ e.2.any isLineTerminator = false) :
    KeepsSeparators fun s => escapes.foldl (fun s e => replaceUnit e.1 e.2 s) s := by
  induction escapes with
  | nil => exact ⟨fun a u b _ => rfl, fun s a u b _ h => ⟨a, b, h, rfl⟩⟩
  | cons e escapes ih =>
      have he := h e List.mem_cons_self
      exact (ih fun e' he' => h e' (List.mem_cons_of_mem e he')).comp
        (keepsSeparators_replaceUnit he.1 he.2)

theorem keepsSeparators_markdownEscapes :
    KeepsSeparators fun s => markdownEscapes.foldl (fun s e => replaceUnit e.1 e.2 s) s :=
  keepsSeparators_escapes markdownEscapes (by decide)

theorem keepsSeparators_neutralize : KeepsSeparators neutralize :=
  keepsSeparators_markdownEscapes.comp keepsSeparators_collapseBreaks

theorem isSeparator_of_mem_neutralize {s : Text} {u : UInt16} (hmem : u ∈ neutralize s)
    (hu : isLineTerminator u = true) : isSeparator u = true := by
  obtain ⟨a, b, hab⟩ := List.append_of_mem hmem
  obtain ⟨a', b', hcollapsed, -⟩ :=
    keepsSeparators_markdownEscapes.split (collapseBreaks s) a u b hu hab
  have hbreak : isBreak u = false := isBreak_of_mem_collapseBreaks (s := s) (by simp [hcollapsed])
  rw [isLineTerminator_eq, hbreak, Bool.false_or] at hu
  exact hu

example : neutralize (js "a\nb|c") = js "a b&#124;c" := by decide +kernel

/-! ### The lines of a text -/

section Lines

variable {Q : Text → Prop}

/-- `Q` holds of every line but the first. -/
def LaterLines (Q : Text → Prop) (s : Text) : Prop :=
  ∀ a u b, s = a ++ u :: b → isLineTerminator u = true → Q (restOfLine b)

theorem exists_lineStarts_eq (s : Text) : ∃ later, lineStarts s = s :: later := by
  induction s with
  | nil => exact ⟨[], rfl⟩
  | cons u s ih =>
      obtain ⟨later, hs⟩ := ih
      rw [lineStarts, hs]
      split
      · cases ‹s :: later = []›
      · split <;> exact ⟨_, rfl⟩

theorem lineStarts_cons (u : UInt16) (s : Text) : lineStarts (u :: s) =
    (u :: s) :: if isLineTerminator u then lineStarts s else (lineStarts s).tail := by
  obtain ⟨later, hs⟩ := exists_lineStarts_eq s
  rw [lineStarts, hs]
  cases isLineTerminator u <;> simp

theorem mem_tail_lineStarts {s t : Text} : t ∈ (lineStarts s).tail ↔
    ∃ a u, s = a ++ u :: t ∧ isLineTerminator u = true := by
  induction s with
  | nil => simp [lineStarts]
  | cons u s ih =>
      have hsplit : (∃ a w, u :: s = a ++ w :: t ∧ isLineTerminator w = true) ↔
          (s = t ∧ isLineTerminator u = true) ∨
            ∃ a w, s = a ++ w :: t ∧ isLineTerminator w = true := by
        constructor
        · rintro ⟨a, w, h, hw⟩
          cases a with
          | nil =>
              obtain ⟨rfl, rfl⟩ := List.cons.inj h
              exact .inl ⟨rfl, hw⟩
          | cons v a => exact .inr ⟨a, w, (List.cons.inj h).2, hw⟩
        · rintro (⟨rfl, hu⟩ | ⟨a, w, rfl, hw⟩)
          · exact ⟨[], u, rfl, hu⟩
          · exact ⟨u :: a, w, rfl, hw⟩
      rw [hsplit, ← ih, lineStarts_cons, List.tail_cons]
      obtain ⟨later, hs⟩ := exists_lineStarts_eq s
      cases isLineTerminator u <;> simp [hs, eq_comm]

/-- The texts from the start of a line on, cut at its end, are the lines. -/
theorem map_restOfLine_lineStarts (s : Text) :
    (lineStarts s).map restOfLine = s.splitOnP isLineTerminator := by
  induction s with
  | nil => rfl
  | cons u s ih =>
      rw [List.splitOnP_cons_eq_if_modifyHead, ← ih, lineStarts_cons]
      obtain ⟨later, hs⟩ := exists_lineStarts_eq s
      cases hu : isLineTerminator u <;> simp [hs, restOfLine, hu]

theorem forall_mem_splitOnP (s : Text) : (∀ line ∈ s.splitOnP isLineTerminator, Q line) ↔
    Q (restOfLine s) ∧ LaterLines Q s := by
  obtain ⟨later, hs⟩ := exists_lineStarts_eq s
  have hlater : ∀ t, t ∈ later ↔ ∃ a u, s = a ++ u :: t ∧ isLineTerminator u = true := by
    intro t
    rw [← mem_tail_lineStarts, hs, List.tail_cons]
  rw [← map_restOfLine_lineStarts, hs, List.map_cons, List.forall_mem_cons]
  refine and_congr_right fun _ => ⟨?_, ?_⟩
  · intro h a u b hab hu
    exact h _ (List.mem_map_of_mem ((hlater b).mpr ⟨a, u, hab, hu⟩))
  · intro h line hline
    obtain ⟨b, hb, rfl⟩ := List.mem_map.mp hline
    obtain ⟨a, u, hab, hu⟩ := (hlater b).mp hb
    exact h a u b hab hu

theorem LaterLines.of_plain {s : Text} (h : s.any isLineTerminator = false) : LaterLines Q s := by
  rintro a u b rfl hu
  exact absurd hu (List.any_eq_false.mp h u (by simp))

/-- The later lines of two texts that are put together: those the first one begins, the last of
them running on into the second, and those of the second. -/
theorem laterLines_append (s t : Text) : LaterLines Q (s ++ t) ↔
    (∀ a u b, s = a ++ u :: b → isLineTerminator u = true → Q (restOfLine (b ++ t))) ∧
      LaterLines Q t := by
  constructor
  · intro h
    constructor
    · rintro a u b rfl hu
      exact h a u (b ++ t) (by simp) hu
    · rintro a u b rfl hu
      exact h (s ++ a) u b (by simp) hu
  · rintro ⟨hs, ht⟩ a u b hab hu
    obtain ⟨c, rfl, hc⟩ | ⟨c, rfl, hc⟩ := List.append_eq_append_iff.mp hab
    · exact ht c u b hc hu
    · cases c with
      | nil =>
          rw [List.nil_append] at hc
          exact ht [] u b hc.symm hu
      | cons v c =>
          obtain ⟨rfl, rfl⟩ := List.cons.inj hc
          exact hs a u c rfl hu

theorem restOfLine_append_of_plain {s : Text} (h : s.any isLineTerminator = false) (t : Text) :
    restOfLine (s ++ t) = s ++ restOfLine t := by
  refine List.takeWhile_append_of_pos fun u hu => ?_
  simpa using List.any_eq_false.mp h u hu

end Lines

/-! ### The lines of the body -/

theorem js_append (s t : String) : js (s ++ t) = js s ++ js t := by
  rw [js, js, js, String.toList_append, List.flatMap_append]

/-- A literal is its list of characters, which spares the kernel its bytes. -/
theorem js_ofList (l : List Char) : js (String.ofList l) = l.flatMap ofChar := by
  rw [js, String.toList_ofList]

theorem Lead.plain (lead : Lead) : lead.text.any isLineTerminator = false := by
  cases lead
  case graphOnly =>
    simp only [Lead.text, js_append, List.any_append, Bool.or_eq_false_iff]
    refine ⟨⟨⟨⟨?_, ?_⟩, ?_⟩, ?_⟩, ?_⟩ <;>
    · rw [js_ofList]
      decide
  all_goals
    rw [Lead.text, js_ofList]
    decide

theorem Lead.head?_any (lead : Lead) : lead.text.head?.any (fun u => u != 0x43) = true := by
  cases lead
  case graphOnly =>
    simp only [Lead.text, js_append, List.append_assoc]
    rw [js_ofList]
    decide
  all_goals
    rw [Lead.text, js_ofList]
    decide

theorem ownLine_nil : OwnLine [] := .inl rfl

theorem OwnLine.of_lead (lead : Lead) (s : Text) : OwnLine (restOfLine (lead.text ++ s)) := by
  rw [restOfLine_append_of_plain lead.plain]
  exact .inr ⟨lead, List.prefix_append _ _⟩

/-- A template begins no line but with what follows a separator in one of its values. -/
theorem laterLines_renderPieces (pieces : List Piece) :
    LaterLines OwnLine (renderPieces pieces) ↔ Quiet pieces := by
  induction pieces with
  | nil => simp [renderPieces, Quiet, LaterLines]
  | cons piece rest ih =>
      have hcons : renderPieces (piece :: rest) = piece.render ++ renderPieces rest := rfl
      rw [hcons, laterLines_append, ih]
      cases piece with
      | literal text plain =>
          rw [Quiet, and_iff_right_iff_imp]
          rintro - a u b hab hu
          have hmem : u ∈ text := by
            change text = a ++ u :: b at hab
            simp [hab]
          exact absurd hu (List.any_eq_false.mp plain u hmem)
      | shown value =>
          refine and_congr_left fun _ => ?_
          constructor
          · rintro h a u b rfl hu
            refine h (neutralize a) u (neutralize b) (keepsSeparators_neutralize.append_cons a u b hu) ?_
            rw [isLineTerminator_eq, hu, Bool.or_true]
          · intro h a u b hab hu
            obtain ⟨a', b', hvalue, rfl⟩ := keepsSeparators_neutralize.split value a u b hu hab
            have hmem : u ∈ neutralize value := by
              change neutralize value = a ++ u :: neutralize b' at hab
              simp [hab]
            exact h a' u b' hvalue (isSeparator_of_mem_neutralize hmem hu)

theorem forall_mem_line (line : Line) :
    (∀ l ∈ line.render.splitOnP isLineTerminator, OwnLine l) ↔ Quiet line.pieces := by
  rw [forall_mem_splitOnP]
  cases line with
  | blank =>
      refine iff_of_true ⟨ownLine_nil, ?_⟩ trivial
      exact LaterLines.of_plain rfl
  | led lead rest =>
      have hlater : LaterLines OwnLine (lead.text ++ renderPieces rest) ↔ Quiet rest := by
        rw [laterLines_append, laterLines_renderPieces, and_iff_right_iff_imp]
        rintro - a u b hab hu
        exact absurd hu (List.any_eq_false.mp lead.plain u (by simp [hab]))
      rw [Line.render, hlater, Line.pieces, and_iff_right_iff_imp]
      exact fun _ => OwnLine.of_lead lead (renderPieces rest)

theorem forall_mem_append_newline (s : Text) :
    (∀ l ∈ (s ++ [0x0A]).splitOnP isLineTerminator, OwnLine l) ↔
      ∀ l ∈ s.splitOnP isLineTerminator, OwnLine l := by
  rw [List.splitOnP_append_cons s [] (by decide)]
  simp [or_imp, forall_and, ownLine_nil]

theorem forall_mem_joinLines (lines : List Line) :
    (∀ l ∈ (joinLines lines).splitOnP isLineTerminator, OwnLine l) ↔
      ∀ line ∈ lines, Quiet line.pieces := by
  fun_induction joinLines lines with
  | case1 => simp [ownLine_nil]
  | case2 line => rw [forall_mem_line, List.forall_mem_singleton]
  | case3 line lines hne ih =>
      rw [List.splitOnP_append_cons _ _ (by decide), List.forall_mem_append, forall_mem_line, ih,
        List.forall_mem_cons]

theorem forall_mem_rdropWhile (s : Text) :
    (∀ l ∈ (s.rdropWhile fun u => u == 0x0A).splitOnP isLineTerminator, OwnLine l) ↔
      ∀ l ∈ s.splitOnP isLineTerminator, OwnLine l := by
  induction s using List.reverseRecOn with
  | nil => rfl
  | append_singleton s u ih =>
      rw [List.rdropWhile_concat]
      split
      · obtain rfl : u = 0x0A := by simpa using ‹(u == 0x0A) = true›
        rw [ih, forall_mem_append_newline]
      · rfl

/-- The lines of a body are its own when no value of it begins another. -/
theorem forall_mem_buildBody (input : ChangelogInput) :
    (∀ l ∈ (buildBody input).splitOnP isLineTerminator, OwnLine l) ↔
      ∀ line ∈ bodyLines input, Quiet line.pieces := by
  unfold buildBody
  split
  · rw [forall_mem_append_newline, forall_mem_rdropWhile, forall_mem_joinLines]
  · rw [forall_mem_append_newline, forall_mem_joinLines]

/-! ### Trailers -/

theorem exists_append_of_dropPrefix {p s rest : Text} (h : dropPrefix p s = some rest) :
    s = p ++ rest := by
  fun_induction dropPrefix p s with
  | case1 s => simpa using h
  | case2 => cases h
  | case3 u p s ih => rw [ih h, List.cons_append]
  | case4 => cases h

/-- No line of the file's own is the start of a trailer. -/
theorem matchTrailer_eq_none {s : Text} (h : OwnLine (restOfLine s)) : matchTrailer s = none := by
  cases hdrop : dropPrefix (js "CL-Resolves:") s with
  | none => simp [matchTrailer, hdrop]
  | some rest =>
      rw [exists_append_of_dropPrefix hdrop, restOfLine_append_of_plain (by decide)] at h
      cases h with
      | inl hblank =>
          rw [List.all_append, Bool.and_eq_true] at hblank
          exact absurd hblank.1 (by decide)
      | inr hlead =>
          obtain ⟨lead, t, ht⟩ := hlead
          have hhead := lead.head?_any
          cases htext : lead.text with
          | nil => simp [htext] at hhead
          | cons u text =>
              rw [htext] at ht hhead
              obtain rfl : u = 0x43 := (List.cons.inj ht).1
              simp at hhead

theorem parseResolveTrailers_eq_nil {body : Text}
    (h : ∀ line ∈ body.splitOnP isLineTerminator, OwnLine line) : parseResolveTrailers body = [] := by
  rw [parseResolveTrailers, List.filterMap_eq_nil_iff]
  intro s hs
  rw [← map_restOfLine_lineStarts] at h
  rw [matchTrailer_eq_none (h _ (List.mem_map_of_mem hs)), Option.map_none]

theorem quiet_of_forall_value (pieces : List Piece)
    (h : ∀ value ∈ pieces.filterMap Piece.value?, value.any isSeparator = false) : Quiet pieces := by
  induction pieces with
  | nil => trivial
  | cons piece rest ih =>
      cases piece with
      | literal text plain => exact ih h
      | shown value =>
          change ∀ v ∈ value :: rest.filterMap Piece.value?, v.any isSeparator = false at h
          rw [List.forall_mem_cons] at h
          refine ⟨?_, ih h.2⟩
          rintro a u b rfl hu
          exact absurd hu (List.any_eq_false.mp h.1 u (by simp))

/-- **Text of the sources is inert** exactly when nothing that follows a U+2028 or U+2029 in it can
stand at the start of a line; where no value holds either of them, it always is. -/
theorem inert_iff (input : ChangelogInput) :
    (Inert (buildBody input) ↔ ∀ line ∈ bodyLines input, Quiet line.pieces) ∧
      ((∀ value ∈ shownValues input, value.any isSeparator = false) → Inert (buildBody input)) := by
  have hiff : Inert (buildBody input) ↔ ∀ line ∈ bodyLines input, Quiet line.pieces := by
    rw [← forall_mem_buildBody]
    exact ⟨Inert.lines, fun h => ⟨parseResolveTrailers_eq_nil h, h⟩⟩
  refine ⟨hiff, fun h => hiff.mpr fun line hline => ?_⟩
  refine quiet_of_forall_value line.pieces fun value hvalue => h value ?_
  exact List.mem_flatMap.mpr ⟨line, hline, hvalue⟩

/-- A run that adds one table. -/
def addedTable (name : Text) : ChangelogInput where
  diffs := [⟨js "shop", [⟨⟨js "table", js "public", name⟩, none, [], [], []⟩], [], []⟩]
  scan := some ⟨[], [], [], []⟩
  wheel := none
  excluded := []
  graphOnly := false

/-- A name that a line separator cuts twice. -/
def forgedTrailer : Text :=
  js "orders CL-Resolves: 11111111-1111-1111-1111-111111111111 "

theorem inert_orders : Inert (buildBody (addedTable (js "orders"))) :=
  (inert_iff (addedTable (js "orders"))).2 (by decide)

theorem not_inert_forgedTrailer :
    (¬ ∀ input, Inert (buildBody input)) ∧
      ¬ ∀ input, parseResolveTrailers (buildBody input) = [] := by
  have htrailer : parseResolveTrailers (buildBody (addedTable forgedTrailer)) =
      [js "11111111-1111-1111-1111-111111111111"] := by decide
  constructor
  · intro h
    have := (h (addedTable forgedTrailer)).trailers
    rw [htrailer] at this
    cases this
  · intro h
    have := h (addedTable forgedTrailer)
    rw [htrailer] at this
    cases this

end ContextLayer
