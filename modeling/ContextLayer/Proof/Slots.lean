import ContextLayer.Lib.Lines
import ContextLayer.Proof.Render

/-!
# One slot in a line

A document is a list of lines, and of a line either all is facts or there is a slot at its end, which is filled with a
cell. So a carriage return stands in the same lines of each variant, and no line with a slot has one.
-/

namespace ContextLayer.Render

open Text StableSort PyText

/-! ### What breaks no line -/

/-- No line break at all. -/
def Unbroken (s : PyStr) : Prop := ∀ c ∈ s, c ≠ newline ∧ c ≠ carriageReturn

instance (s : PyStr) : Decidable (Unbroken s) := inferInstanceAs (Decidable (∀ c ∈ s, _))

theorem Unbroken.newline {s : PyStr} (h : Unbroken s) : newline ∉ s := fun hmem => (h _ hmem).1 rfl

theorem Unbroken.carriageReturn {s : PyStr} (h : Unbroken s) : carriageReturn ∉ s := fun hmem => (h _ hmem).2 rfl

@[simp]
theorem unbroken_append {s t : PyStr} : Unbroken (s ++ t) ↔ Unbroken s ∧ Unbroken t :=
  List.forall_mem_append

@[simp]
theorem unbroken_nil : Unbroken [] := nofun

theorem unbroken_flatMap {α : Type} {l : List α} {f : α → PyStr} (h : ∀ a ∈ l, Unbroken (f a)) :
    Unbroken (l.flatMap f) := fun c hc => by
  obtain ⟨a, ha, hc⟩ := List.mem_flatMap.mp hc
  exact h a ha c hc

@[simp]
theorem unbroken_cell (s : PyStr) : Unbroken (cell s) := by
  refine unbroken_flatMap fun p hp => ?_
  have hreturn : p ≠ carriageReturn := fun heq => carriageReturn_notMem_newlines s (heq ▸ hp)
  unfold cellChar
  by_cases hslash : p = .unit 0x5C
  · rw [if_pos hslash]
    decide
  · rw [if_neg hslash]
    by_cases hbar : p = .unit 0x7C
    · rw [if_pos hbar]
      decide
    · rw [if_neg hbar]
      by_cases hfeed : p = newline
      · rw [if_pos hfeed]
        decide
      · rw [if_neg hfeed]
        intro c hc
        rw [List.mem_singleton.mp hc]
        exact ⟨hfeed, hreturn⟩

@[simp]
theorem unbroken_code (s : PyStr) : Unbroken (code s) := by
  rw [code, unbroken_append, unbroken_append]
  exact ⟨⟨by decide, unbroken_cell s⟩, by decide⟩

@[simp]
theorem unbroken_dash : Unbroken dash := by decide

@[simp]
theorem unbroken_optCell (value : Option PyStr) : Unbroken (optCell value) := by
  cases value with
  | none => exact unbroken_dash
  | some s => exact unbroken_cell s

@[simp]
theorem unbroken_codeOrDash (value : Option PyStr) : Unbroken (codeOrDash value) := by
  cases value with
  | none => exact unbroken_dash
  | some s => exact unbroken_code s

@[simp]
theorem unbroken_purposeCell (value : Option PyJson) (mode : Mode) : Unbroken (purposeCell value mode) := by
  cases mode with
  | marker => exact (by decide : Unbroken (py "purpose-slot"))
  | absent => exact unbroken_dash
  | real =>
      unfold purposeCell
      dsimp only
      split
      case h_1 s =>
        by_cases hs : s = []
        · rw [if_pos hs]
          exact unbroken_dash
        · rw [if_neg hs]
          exact unbroken_cell s
      case h_2 => exact unbroken_dash

@[simp]
theorem unbroken_statusCell (fm : Frontmatter.Members) : Unbroken (statusCell fm) := by
  rw [statusCell]
  split
  case h_1 s _ =>
    by_cases hs : s = []
    · rw [if_pos hs]
      exact unbroken_dash
    · rw [if_neg hs]
      exact unbroken_cell s
  case h_2 => exact unbroken_dash

@[simp]
theorem unbroken_number (n : JsNumber) : Unbroken (n.text.map .unit) := by
  intro c hc
  obtain ⟨u, hu, rfl⟩ := List.mem_map.mp hc
  have hnumeric := n.numeric u hu
  constructor <;>
    · intro heq
      obtain rfl := CodePoint.unit.inj heq
      revert hnumeric
      decide

@[simp]
theorem unbroken_mangle (name : PyStr) : Unbroken (Naming.mangle name) := by
  refine unbroken_flatMap fun p _ => ?_
  cases p with
  | pair high low hhigh hlow =>
      rw [Naming.mangleChar]
      decide
  | unit u =>
      rw [Naming.mangleChar]
      split
      case isTrue h =>
        intro c hc
        obtain rfl := List.mem_singleton.mp hc
        constructor <;>
          · intro heq
            have := congrArg UInt16.toNat (CodePoint.unit.inj heq)
            have h1 := UInt16.le_iff_toNat_le.mp h.1
            have h2 := UInt16.le_iff_toNat_le.mp h.2
            simp only [UInt16.toNat_add, UInt16.reduceToNat] at this h1 h2
            omega
      case isFalse =>
        split
        case isTrue h =>
          intro c hc
          obtain rfl := List.mem_singleton.mp hc
          constructor <;>
            · rintro heq
              obtain rfl := CodePoint.unit.inj heq
              revert h
              decide
        case isFalse => split <;> [decide; (split <;> decide)]

@[simp]
theorem unbroken_columnCells (unicode : Unicode) (c : Column) : Unbroken (columnCells unicode c) := by
  have hordinal : Unbroken (str unicode (.number c.ordinal.number)) := unbroken_number _
  have hnullable : Unbroken (if c.nullable = true then py "true" else py "false") := by
    by_cases h : c.nullable = true
    · rw [if_pos h]
      decide
    · rw [if_neg h]
      decide
  simp only [columnCells, unbroken_append, hordinal, hnullable, unbroken_cell, unbroken_codeOrDash,
    unbroken_optCell, and_true]
  decide

theorem unbroken_kind {s : Snapshot} {o : SourceObject} (h : o ∈ known s) : Unbroken o.kind := by
  have hall : ∀ class_ : SystemClass, ∀ kind ∈ family class_, Unbroken kind := by
    intro class_
    cases class_ <;> decide
  exact hall _ _ (mem_known.mp h).2

/-! ### Lines -/

/-- A line of a document: facts, or facts with a purpose behind them. -/
inductive DocLine where
  | facts (text : PyStr)
  | slot (before : PyStr) (value : Option PyJson)

def DocLine.text (mode : Mode) : DocLine → PyStr
  | .facts text => text
  | .slot before value => before ++ purposeCell value mode ++ py " |"

/-- A line that is one line. -/
def DocLine.IsLine : DocLine → Prop
  | .facts text => newline ∉ text
  | .slot before _ => Unbroken before

/-- Line by line: facts, or a slot behind facts. -/
def Slotted (f : Mode → PyStr) : Prop :=
  ∃ ls : List DocLine, (∀ mode, f mode = ls.flatMap fun l => l.text mode ++ [newline]) ∧ ∀ l ∈ ls, l.IsLine

theorem Slotted.append {f g : Mode → PyStr} (hf : Slotted f) (hg : Slotted g) : Slotted fun mode => f mode ++ g mode := by
  obtain ⟨ls, hls, hlines⟩ := hf
  obtain ⟨ls', hls', hlines'⟩ := hg
  refine ⟨ls ++ ls', fun mode => ?_, fun l hl => ?_⟩
  · dsimp only
    rw [hls, hls', List.flatMap_append]
  · exact (List.mem_append.mp hl).elim (hlines l) (hlines' l)

theorem Slotted.nil : Slotted fun _ => [] := ⟨[], fun _ => rfl, nofun⟩

theorem Slotted.flatMap {α : Type} {items : List α} {f : Mode → α → PyStr}
    (h : ∀ a ∈ items, Slotted fun mode => f mode a) : Slotted fun mode => items.flatMap (f mode) := by
  induction items with
  | nil => exact Slotted.nil
  | cons a items ih =>
      exact (h a List.mem_cons_self).append (ih fun b hb => h b (List.mem_cons_of_mem a hb))

theorem Slotted.const {text : PyStr} (h : text.getLast? = some newline) : Slotted fun _ => text := by
  obtain ⟨ls, rfl, hlines⟩ := Lines.exists_pieces h
  refine ⟨ls.map .facts, fun _ => ?_, fun l hl => ?_⟩
  · rw [List.flatMap_map]
    rfl
  · obtain ⟨line, hline, rfl⟩ := List.mem_map.mp hl
    exact hlines line hline

/-- One line, with a slot in it. -/
theorem Slotted.slot {before : PyStr} (h : Unbroken before) (value : Option PyJson) :
    Slotted fun mode => before ++ purposeCell value mode ++ py " |\n" := by
  have hend : py " |\n" = py " |" ++ [newline] := by decide
  refine ⟨[.slot before value], fun mode => ?_, fun l hl => ?_⟩
  · rw [List.flatMap_singleton, DocLine.text, hend, List.append_assoc _ _ [newline]]
  · obtain rfl := List.mem_singleton.mp hl
    exact h

theorem DocLine.newline_notMem_text {l : DocLine} (h : l.IsLine) (mode : Mode) : newline ∉ l.text mode := by
  cases l with
  | facts text => exact h
  | slot before value =>
      rw [DocLine.text, List.mem_append, List.mem_append, not_or, not_or]
      exact ⟨⟨h.newline, (unbroken_purposeCell value mode).newline⟩, by decide⟩

/-- The lines of a variant. -/
theorem lines_flatMap {ls : List DocLine} (h : ∀ l ∈ ls, l.IsLine) (mode : Mode) :
    lines (ls.flatMap fun l => l.text mode ++ [newline]) = ls.map (DocLine.text mode) ++ [[]] := by
  have hmap : (ls.flatMap fun l => l.text mode ++ [newline]) =
      (ls.map (DocLine.text mode)).flatMap fun l => l ++ [newline] := by rw [List.flatMap_map]
  have hline : ∀ line ∈ ls.map (DocLine.text mode), newline ∉ line := by
    intro line hline
    obtain ⟨l, hl, rfl⟩ := List.mem_map.mp hline
    exact l.newline_notMem_text (h l hl) mode
  rw [lines, hmap, Lines.splitOn_flatMap hline]

/-! ### Bodies -/

section

variable {unicode : Unicode} {s : Snapshot}

theorem ends_append {a b : PyStr} (hb : b.getLast? = some newline) : (a ++ b).getLast? = some newline := by
  rw [List.getLast?_append, hb, Option.some_or]

/-- The object document behind its columns. -/
def objectRest (unicode : Unicode) (system : PyStr) (all : List SourceObject) (o : SourceObject) :
    Option PyStr :=
  (statCells o "indexes").bind fun indexes => (checksSection o).map fun checks =>
    objectKeys all o ++ titledList (py "Indexes") (indexes.map quoted) ++ checks ++
      py "\n## Row estimate & freshness\n\nRow estimate: " ++ rowEstimate unicode o ++
      objectTail unicode system all o

theorem objectBody_eq (system : PyStr) (all : List SourceObject) (purposes : Frontmatter.Members)
    (mode : Mode) (o : SourceObject) : objectBody unicode system all purposes mode o =
      (objectRest unicode system all o).map fun rest =>
        objectHead system o ++ columnTable unicode purposes mode o.columns ++ rest := by
  rw [objectBody, objectRest]
  cases statCells o "indexes" with
  | none => rfl
  | some indexes =>
      cases checksSection o with
      | none => rfl
      | some checks => simp only [Option.bind_some, Option.map_some, Option.bind_eq_bind, pure, List.append_assoc]

theorem ends_objectTail (system : PyStr) (all : List SourceObject) (o : SourceObject) :
    (objectTail unicode system all o).getLast? = some newline := by
  have hreferences : (if referenceRows system all o = [] then py "—\n"
      else py "| Object | Via |\n|---|---|\n" ++ (referenceRows system all o).flatten).getLast? =
        some newline := by
    by_cases hnil : referenceRows system all o = []
    · rw [if_pos hnil]
      decide
    · rw [if_neg hnil]
      obtain ⟨rows, row, hrows⟩ := List.eq_nil_or_concat' (referenceRows system all o) |>.resolve_left hnil
      have hrow : row ∈ referenceRows system all o := hrows ▸ List.mem_append_right _ List.mem_cons_self
      obtain ⟨other, -, hrow⟩ := List.mem_flatMap.mp hrow
      obtain ⟨fk, -, rfl⟩ := List.mem_map.mp hrow
      rw [hrows, List.flatten_append, List.flatten_singleton, ← List.append_assoc]
      exact ends_append (ends_append (by decide))
  rw [objectTail]
  cases definitionText unicode o with
  | none =>
      rw [Option.elim_none, List.append_nil]
      exact ends_append hreferences
  | some text =>
      rw [Option.elim_some]
      exact ends_append (ends_append (by decide))

theorem slotted_columnTable (purposes : Frontmatter.Members) (columns : List Column) :
    Slotted fun mode => columnTable unicode purposes mode columns := by
  unfold columnTable
  by_cases hnil : columns = []
  · simp only [if_pos hnil]
    exact Slotted.const (by decide)
  · simp only [if_neg hnil]
    refine (Slotted.const (by decide)).append (Slotted.flatMap fun c _ => ?_)
    unfold columnRow
    refine Slotted.slot ?_ (Dict.get? purposes c.name)
    simp only [unbroken_append, unbroken_columnCells, true_and]
    decide

theorem slotted_objectBody (system : PyStr) (all : List SourceObject) (purposes : Frontmatter.Members)
    (o : SourceObject) {rest : PyStr} (h : objectRest unicode system all o = some rest) :
    Slotted fun mode => objectHead system o ++ columnTable unicode purposes mode o.columns ++ rest := by
  refine ((Slotted.const (ends_append (by decide))).append (slotted_columnTable purposes o.columns)).append
    (Slotted.const ?_)
  obtain ⟨indexes, -, h⟩ := Option.bind_eq_some_iff.mp h
  obtain ⟨checks, -, rfl⟩ := Option.map_eq_some_iff.mp h
  exact ends_append (ends_objectTail system all o)

theorem slotted_of_ends_or_nil {text : PyStr} (h : text = [] ∨ text.getLast? = some newline) :
    Slotted fun _ => text := by
  obtain rfl | h := h
  · exact Slotted.nil
  · exact Slotted.const h

/-- Facts up to a hash, and the purpose in the line below it. -/
theorem slotted_purposeLine (facts : PyStr) (value : Option PyJson) :
    Slotted fun mode => facts ++ py "\x60 |\n| Purpose | " ++ purposeCell value mode ++ py " |\n" := by
  have hhash : py "\x60 |\n| Purpose | " = py "\x60 |\n" ++ py "| Purpose | " := by decide
  have hslot : Slotted fun mode => py "| Purpose | " ++ purposeCell value mode ++ py " |\n" :=
    Slotted.slot (by decide) value
  have hfacts : Slotted fun _ => facts ++ py "\x60 |\n" := Slotted.const (ends_append (by decide))
  rw [hhash]
  simpa only [List.append_assoc] using hfacts.append hslot

theorem slotted_memberSection (system : PyStr) (purposes : Frontmatter.Members) (o : SourceObject) :
    Slotted fun mode => memberSection unicode system purposes mode o := by
  have hparagraph : Slotted fun _ => paragraph o.description := by
    refine slotted_of_ends_or_nil ?_
    cases o.description with
    | none => exact .inl rfl
    | some text => exact .inr (ends_append (by decide))
  have hparameters : Slotted fun _ => parameterTable unicode o.columns := by
    refine slotted_of_ends_or_nil ?_
    unfold parameterTable
    by_cases hnil : o.columns = []
    · rw [if_pos hnil]
      exact .inl rfl
    · rw [if_neg hnil]
      obtain ⟨columns, c, hcolumns⟩ := List.eq_nil_or_concat' o.columns |>.resolve_left hnil
      rw [hcolumns, List.flatMap_append, List.flatMap_singleton, ← List.append_assoc, ← List.append_assoc]
      exact .inr (ends_append (by decide))
  exact ((slotted_purposeLine _ _).append hparagraph).append hparameters

theorem slotted_groupBody (system group : PyStr) (purposes : Frontmatter.Members) (members : List SourceObject) :
    Slotted fun mode => groupBody unicode system group purposes mode members := by
  unfold groupBody
  exact (Slotted.const (ends_append (by decide))).append
    (Slotted.flatMap fun o _ => slotted_memberSection system purposes o)

theorem slotted_cells {cells : PyStr} (hcells : Unbroken cells) {stem : PyStr} (hstem : Unbroken stem) (info : Info) :
    Slotted fun mode => cells ++ documentCells stem info mode := by
  have hlink : Unbroken (if info.exists? then py "[" ++ stem ++ py ".md](" ++ stem ++ py ".md)" else dash) := by
    by_cases h : info.exists? = true
    · rw [if_pos h]
      simp only [unbroken_append, hstem, and_true]
      decide
    · rw [if_neg h]
      exact unbroken_dash
  unfold documentCells humanCells
  simp only [← List.append_assoc]
  refine Slotted.slot ?_ (Frontmatter.get info.fm "purpose")
  simp only [unbroken_append, hcells, hstem, hlink, unbroken_statusCell, and_true, true_and]
  decide

theorem slotted_schemaIndexBody (schema : PyStr) (info : SourceObject → Info) {members : List SourceObject}
    (h : ∀ o ∈ members, o ∈ known s) :
    Slotted fun mode => schemaIndexBody s.system schema info mode members := by
  unfold schemaIndexBody
  refine (Slotted.const (ends_append (by decide))).append (Slotted.flatMap fun o ho => ?_)
  unfold schemaIndexRow
  refine slotted_cells ?_ (unbroken_mangle o.name) _
  simp only [unbroken_append, unbroken_cell, unbroken_kind (h o ho), and_true]
  decide

theorem slotted_systemIndexBody (hasNotes : Bool) (summary : PyStr) {table : Mode → PyStr} (h : Slotted table) :
    Slotted fun mode => systemIndexBody s hasNotes summary (table mode) := by
  have hproperties : (sourceProperties s).getLast? = some newline := by
    unfold sourceProperties
    split
    case h_1 => decide
    case h_2 => decide
    case h_3 => exact ends_append (by decide)
  have hnotes : Slotted fun _ => if hasNotes = true then py "\nNotes: [_notes.md](_notes.md)\n" else [] := by
    refine slotted_of_ends_or_nil ?_
    by_cases hhas : hasNotes = true
    · rw [if_pos hhas]
      exact .inr (by decide)
    · rw [if_neg hhas]
      exact .inl rfl
  unfold systemIndexBody
  exact ((((Slotted.const (ends_append (by decide))).append hnotes).append h).append
    (Slotted.const (by decide))).append (Slotted.const hproperties)

theorem slotted_sqlIndexBody (count : Nat) (hasNotes : Bool) (rows : List SchemaRow) :
    Slotted fun mode => sqlIndexBody s count hasNotes rows mode := by
  unfold sqlIndexBody
  refine slotted_systemIndexBody hasNotes _ ((Slotted.const (by decide)).append (Slotted.flatMap fun r _ => ?_))
  unfold schemaRow
  refine Slotted.slot ?_ (Frontmatter.get r.notes.fm "purpose")
  simp only [unbroken_append, unbroken_cell, unbroken_mangle, natText, unbroken_number, and_true]
  decide

theorem slotted_apiIndexBody (count : Nat) (hasNotes : Bool) {rows : List GroupRow}
    (h : ∀ r ∈ rows, Unbroken r.group ∧ Unbroken r.kind) :
    Slotted fun mode => apiIndexBody s count hasNotes rows mode := by
  unfold apiIndexBody
  refine slotted_systemIndexBody hasNotes _ ((Slotted.const (by decide +kernel)).append
    (Slotted.flatMap fun r hr => ?_))
  unfold groupRow
  refine slotted_cells ?_ (h r hr).1 _
  simp only [unbroken_append, (h r hr).1, (h r hr).2, natText, unbroken_number, and_true]
  decide

/-- **A body has its slots in lines of their own**, whichever document it is of. -/
theorem bodyFor_slotted (info : PyStr → Info) {doc : PyStr × DocEntry} (hdoc : doc ∈ docsOf s) :
    ∃ body : Option (Mode → PyStr), (∀ mode, bodyFor unicode s info mode doc.2 = body.map fun f => f mode) ∧
      ∀ f ∈ body, Slotted f := by
  obtain ⟨-, o, -, rfl⟩ | ⟨-, schema, -, rfl⟩ | ⟨hclass, group, hgroup, rfl⟩ | rfl := mem_docsOf.mp hdoc
  · refine ⟨(objectRest unicode s.system (known s) o).map fun rest mode => objectHead s.system o ++
      columnTable unicode (fmMap (info (objectPath s.system o ".md")).fm "column_purposes") mode o.columns ++ rest,
      fun mode => ?_, fun f hf => ?_⟩
    · rw [bodyFor, objectBody_eq, Option.map_map]
      rfl
    · obtain ⟨rest, hrest, rfl⟩ := Option.map_eq_some_iff.mp hf
      exact slotted_objectBody _ _ _ _ hrest
  · exact ⟨some _, fun mode => rfl, fun f hf => Option.some.inj hf ▸
      slotted_schemaIndexBody _ _ fun o ho => (mem_membersOf.mp ho).1⟩
  · exact ⟨some _, fun mode => rfl, fun f hf => Option.some.inj hf ▸ slotted_groupBody _ _ _ _⟩
  · cases hclass : s.systemClass with
    | sql =>
        simp only [bodyFor, hclass]
        exact ⟨some _, fun mode => rfl, fun f hf => Option.some.inj hf ▸ slotted_sqlIndexBody _ _ _⟩
    | api =>
        simp only [bodyFor, hclass]
        refine ⟨some _, fun mode => rfl, fun f hf => Option.some.inj hf ▸ slotted_apiIndexBody _ _ fun r hr => ?_⟩
        obtain ⟨group, hgroup, rfl⟩ := List.mem_map.mp hr
        obtain ⟨o, ho, rfl⟩ := mem_keysOf.mp hgroup
        have hgroups := groupOf_mem (hclass ▸ (mem_known.mp ho).2)
        have hall : ∀ group ∈ [py "dimensions", py "metrics", py "events"], Unbroken group := by decide
        refine ⟨hall _ hgroups, ?_⟩
        dsimp only
        cases hmembers : membersOf s groupOf (groupOf o) with
        | nil => exact unbroken_nil
        | cons first rest =>
            exact unbroken_kind (mem_membersOf.mp (hmembers ▸ List.mem_cons_self)).1

end

end ContextLayer.Render
