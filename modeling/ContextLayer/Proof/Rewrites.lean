import ContextLayer.Proof.Restamp
import ContextLayer.Rerender

/-!
# A system rendered twice

The second render finds each document as the first one has left it, and of the human documents it reads the same. So all
that may differ is what it reads of a machine document: its front matter, and, where an object is called `index`, the
index of its schema in place of its human document.
-/

namespace ContextLayer.Rerender

open Text PyText Render StableSort

/-! ### Cells -/

/-- No bar stands in a cell but behind a backslash. -/
inductive IsCell : PyStr → Prop
  | nil : IsCell []
  | plain {c : CodePoint} {s : PyStr} : c ≠ .unit 0x7C → c ≠ .unit 0x5C → IsCell s → IsCell (c :: s)
  | escaped {c : CodePoint} {s : PyStr} : IsCell s → IsCell (.unit 0x5C :: c :: s)

theorem IsCell.append {s t : PyStr} (hs : IsCell s) (ht : IsCell t) : IsCell (s ++ t) := by
  induction hs with
  | nil => exact ht
  | plain hbar hslash _ ih => exact .plain hbar hslash ih
  | escaped _ ih => exact .escaped ih

theorem isCell_cellChar (p : CodePoint) : IsCell (cellChar p) := by
  rw [cellChar]
  by_cases hslash : p = .unit 0x5C
  · rw [if_pos hslash]
    exact .escaped .nil
  rw [if_neg hslash]
  by_cases hbar : p = .unit 0x7C
  · rw [if_pos hbar]
    exact .escaped .nil
  rw [if_neg hbar]
  by_cases hfeed : p = newline
  · rw [if_pos hfeed]
    exact .plain (by decide) (by decide) (.plain (by decide) (by decide) (.plain (by decide) (by decide)
      (.plain (by decide) (by decide) .nil)))
  · rw [if_neg hfeed]
    exact .plain hbar hslash .nil

theorem isCell_cell (text : PyStr) : IsCell (cell text) := by
  rw [cell]
  induction newlines text with
  | nil => exact .nil
  | cons p s ih => exact (isCell_cellChar p).append ih

theorem isCell_statusCell (fm : Frontmatter.Members) : IsCell (statusCell fm) := by
  have hdash : IsCell dash := .plain (by decide) (by decide) .nil
  rw [statusCell]
  split
  case h_1 s _ =>
    by_cases hs : s = []
    · rw [if_pos hs]
      exact hdash
    · rw [if_neg hs]
      exact isCell_cell s
  case h_2 => exact hdash

/-- A cell ends where the bar behind it stands. -/
theorem IsCell.append_inj {s t u v : PyStr} (hs : IsCell s) (ht : IsCell t)
    (h : s ++ .unit 0x20 :: .unit 0x7C :: u = t ++ .unit 0x20 :: .unit 0x7C :: v) : s = t ∧ u = v := by
  -- a bar that is not behind a backslash is not in a cell
  have hbar : ∀ {s u v : PyStr}, IsCell s → .unit 0x7C :: u ≠ s ++ .unit 0x20 :: v := by
    intro s u v hs heq
    cases hs with
    | nil => exact absurd (List.cons.inj heq).1 (by decide)
    | plain hne => exact hne (List.cons.inj heq).1.symm
    | escaped => exact absurd (List.cons.inj heq).1 (by decide)
  induction hs generalizing t with
  | nil =>
      cases ht with
      | nil => exact ⟨rfl, (List.cons.inj (List.cons.inj h).2).2⟩
      | plain _ _ ht => exact absurd (List.cons.inj h).2 (hbar ht)
      | escaped => exact absurd (List.cons.inj h).1 (by decide)
  | plain _ hslash hs ih =>
      cases ht with
      | nil => exact absurd (List.cons.inj h).2.symm (hbar hs)
      | plain _ _ ht =>
          obtain ⟨rfl, hrest⟩ := List.cons.inj h
          obtain ⟨rfl, huv⟩ := ih ht hrest
          exact ⟨rfl, huv⟩
      | escaped => exact absurd (List.cons.inj h).1 hslash
  | escaped _ ih =>
      cases ht with
      | nil => exact absurd (List.cons.inj h).1 (by decide)
      | plain _ hslash => exact absurd (List.cons.inj h).1.symm hslash
      | escaped ht =>
          simp only [List.cons_append, List.cons.injEq, true_and] at h
          obtain ⟨rfl, huv⟩ := ih ht h.2
          exact ⟨by rw [h.1], huv⟩

/-! ### Rows -/

/-- Two tables of the same rows agree row by row. -/
theorem flatMap_rows_inj {α : Type} {l : List α} {f g : α → PyStr} (hf : ∀ a ∈ l, newline ∉ f a)
    (hg : ∀ a ∈ l, newline ∉ g a) (h : (l.flatMap fun a => f a ++ [newline]) = l.flatMap fun a => g a ++ [newline]) :
    ∀ a ∈ l, f a = g a := by
  induction l with
  | nil => exact nofun
  | cons a l ih =>
      rw [List.flatMap_cons, List.flatMap_cons, List.append_assoc, List.append_assoc] at h
      obtain ⟨hfirst, hrest⟩ := append_mark_inj (hf a List.mem_cons_self) (hg a List.mem_cons_self) h
      intro b hb
      rcases List.mem_cons.mp hb with rfl | hb
      · exact hfirst
      · exact ih (fun b hb => hf b (List.mem_cons_of_mem a hb)) (fun b hb => hg b (List.mem_cons_of_mem a hb)) hrest b hb

section

variable {unicode : Unicode}

/-- A column's row up to its end. -/
def columnLine (unicode : Unicode) (purposes : Frontmatter.Members) (c : Column) : PyStr :=
  columnCells unicode c ++ py " " ++ purposeCell (Dict.get? purposes c.name) .real ++ py " |"

theorem unbroken_columnLine (purposes : Frontmatter.Members) (c : Column) : Unbroken (columnLine unicode purposes c) := by
  simp only [columnLine, unbroken_append, unbroken_columnCells, unbroken_purposeCell, and_true, true_and]
  decide

theorem columnTable_eq (purposes : Frontmatter.Members) (columns : List Column) :
    columnTable unicode purposes .real columns = if columns = [] then py "—\n" else
      py "| # | Column | Type | Nullable | Default | Description | Purpose |\n|---|---|---|---|---|---|---|\n" ++
        columns.flatMap fun c => columnLine unicode purposes c ++ [newline] := by
  have hend : py " |\n" = py " |" ++ [newline] := by decide
  have hrow : columnRow unicode purposes .real = fun c => columnLine unicode purposes c ++ [newline] := by
    funext c
    rw [columnRow, columnLine, hend, List.append_assoc _ _ [newline]]
  rw [columnTable, hrow]

theorem carriageReturn_notMem_columnTable (purposes : Frontmatter.Members) (columns : List Column) :
    carriageReturn ∉ columnTable unicode purposes .real columns := by
  rw [columnTable_eq]
  by_cases hnil : columns = []
  · rw [if_pos hnil]
    decide
  · rw [if_neg hnil, List.mem_append, not_or]
    refine ⟨by decide, fun hmem => ?_⟩
    obtain ⟨c, -, hc⟩ := List.mem_flatMap.mp hmem
    rcases List.mem_append.mp hc with hc | hc
    · exact (unbroken_columnLine purposes c).carriageReturn hc
    · exact absurd hc (by decide)

/-- The purposes are read off the table. -/
theorem columnTable_eq_iff {purposes purposes' : Frontmatter.Members} {columns : List Column} :
    columnTable unicode purposes .real columns = columnTable unicode purposes' .real columns ↔
      ∀ c ∈ columns, purposeCell (Dict.get? purposes c.name) .real = purposeCell (Dict.get? purposes' c.name) .real := by
  rw [columnTable_eq, columnTable_eq]
  constructor
  · intro h c hc
    rw [if_neg (List.ne_nil_of_mem hc), if_neg (List.ne_nil_of_mem hc)] at h
    have hrow := flatMap_rows_inj (fun c _ => (unbroken_columnLine purposes c).newline)
      (fun c _ => (unbroken_columnLine purposes' c).newline) (List.append_cancel_left h) c hc
    exact List.append_cancel_left (List.append_cancel_right hrow)
  · intro h
    have hrows : (columns.flatMap fun c => columnLine unicode purposes c ++ [newline]) =
        columns.flatMap fun c => columnLine unicode purposes' c ++ [newline] :=
      List.flatMap_congr fun c hc => by rw [columnLine, columnLine, h c hc]
    rw [hrows]

end

/-- The cells of a human document are read off its row. -/
theorem humanCells_eq_iff {stem : PyStr} {i j : Info} : humanCells stem i .real = humanCells stem j .real ↔
    i.exists? = j.exists? ∧ statusCell i.fm = statusCell j.fm ∧
      purposeCell (Frontmatter.get i.fm "purpose") .real = purposeCell (Frontmatter.get j.fm "purpose") .real := by
  have hbar : py " | " = .unit 0x20 :: .unit 0x7C :: py " " := by decide
  have hhead : ∀ i : Info, (humanCells stem i .real).head? = some (if i.exists? then .unit 0x5B else .unit 0x2014) := by
    intro i
    rw [humanCells]
    by_cases hexists : i.exists? = true
    · rw [if_pos hexists, if_pos hexists]
      simp only [List.append_assoc]
      rw [List.head?_append_of_ne_nil _ (by decide)]
      decide
    · rw [if_neg hexists, if_neg hexists]
      simp only [List.append_assoc]
      rw [List.head?_append_of_ne_nil _ (by decide)]
      decide
  constructor
  · intro h
    have hexists : i.exists? = j.exists? := by
      have hsame := congrArg List.head? h
      rw [hhead, hhead, Option.some_inj] at hsame
      cases hi : i.exists? <;> cases hj : j.exists? <;> rw [hi, hj] at hsame <;> first | rfl | exact absurd hsame (by decide)
    simp only [humanCells, hexists, List.append_assoc, List.append_cancel_left_eq] at h
    rw [hbar, List.cons_append, List.cons_append] at h
    obtain ⟨hstatus, hpurpose⟩ := (isCell_statusCell i.fm).append_inj (isCell_statusCell j.fm) h
    exact ⟨hexists, hstatus, List.append_cancel_right (List.append_cancel_left hpurpose)⟩
  · rintro ⟨hexists, hstatus, hpurpose⟩
    rw [humanCells, humanCells, hexists, hstatus, hpurpose]

/-- An object's row of the index up to its end. -/
def indexLine (info : SourceObject → Info) (o : SourceObject) : PyStr :=
  py "| \x60" ++ cell o.name ++ py "\x60 | " ++ o.kind ++ py " | [" ++ Naming.mangle o.name ++ py ".schema.md](" ++
    Naming.mangle o.name ++ py ".schema.md) | " ++
    (if (info o).exists? then py "[" ++ Naming.mangle o.name ++ py ".md](" ++ Naming.mangle o.name ++ py ".md)" else dash) ++
    py " | " ++ statusCell (info o).fm ++ py " | " ++ purposeCell (Frontmatter.get (info o).fm "purpose") .real ++ py " |"

theorem schemaIndexRow_eq (info : SourceObject → Info) (o : SourceObject) :
    schemaIndexRow info .real o = indexLine info o ++ [newline] := by
  have hend : py " |\n" = py " |" ++ [newline] := by decide
  have hopen : py " | [" = py " | " ++ py "[" := by decide
  simp only [schemaIndexRow, documentCells, humanCells, indexLine, hend, hopen, List.append_assoc]

theorem unbroken_indexLine {o : SourceObject} (h : Unbroken o.kind) (info : SourceObject → Info) :
    Unbroken (indexLine info o) := by
  have hlink : Unbroken (if (info o).exists? then
      py "[" ++ Naming.mangle o.name ++ py ".md](" ++ Naming.mangle o.name ++ py ".md)" else dash) := by
    by_cases hexists : (info o).exists? = true
    · rw [if_pos hexists]
      simp only [unbroken_append, unbroken_mangle, and_true]
      decide
    · rw [if_neg hexists]
      exact unbroken_dash
  simp only [indexLine, unbroken_append, unbroken_cell, unbroken_mangle, unbroken_statusCell, unbroken_purposeCell, h,
    hlink, and_true]
  decide

/-- A table is read off a text behind its title and a line without a break. -/
theorem table_of_newlines {title facts count count' header rows rows' : PyStr} (htitle : title.getLast? = some newline)
    (hfacts : carriageReturn ∉ facts) (hcount : Unbroken count) (hcount' : Unbroken count')
    (hheader : carriageReturn ∉ header) (hrows : carriageReturn ∉ rows) (hrows' : carriageReturn ∉ rows')
    (h : newlines (title ++ (facts ++ (count ++ newline :: (header ++ rows)))) =
      newlines (title ++ (facts ++ (count' ++ newline :: (header ++ rows'))))) : rows = rows' := by
  have hplain : ∀ {count rows : PyStr}, Unbroken count → carriageReturn ∉ rows →
      newlines (title ++ (facts ++ (count ++ newline :: (header ++ rows)))) =
        newlines title ++ (facts ++ (count ++ newline :: (header ++ rows))) := by
    intro count rows hcount hrows
    rw [newlines_append_of_getLast htitle (by decide)]
    refine congrArg _ (newlines_eq_self ?_)
    simp only [List.mem_append, List.mem_cons, not_or]
    exact ⟨hfacts, hcount.carriageReturn, by decide, hheader, hrows⟩
  rw [hplain hcount hrows, hplain hcount' hrows'] at h
  obtain ⟨-, hrest⟩ := append_mark_inj hcount.newline hcount'.newline (List.append_cancel_left (List.append_cancel_left h))
  exact List.append_cancel_left hrest

/-- The rows of an index, as they are read. -/
theorem schemaIndexRow_of_body {system schema : PyStr} {info info' : SourceObject → Info} {members : List SourceObject}
    (hkind : ∀ o ∈ members, Unbroken o.kind)
    (h : newlines (schemaIndexBody system schema info .real members) =
      newlines (schemaIndexBody system schema info' .real members)) :
    ∀ o ∈ members, schemaIndexRow info .real o = schemaIndexRow info' .real o := by
  have hnumber : ∀ n : Nat, Unbroken (natText n) := fun n => unbroken_number _
  have hrows : ∀ info : SourceObject → Info, members.flatMap (schemaIndexRow info .real) =
      members.flatMap fun o => indexLine info o ++ [newline] :=
    fun info => List.flatMap_congr fun o _ => schemaIndexRow_eq info o
  have hheader : py " with human docs.\n\n| Object | Kind | Machine doc | Human doc | Status | Purpose |\n|---|---|---|---|---|---|\n" =
      py " with human docs." ++ ([newline] ++
        py "\n| Object | Kind | Machine doc | Human doc | Status | Purpose |\n|---|---|---|---|---|---|\n") := by decide +kernel
  have hreturn : ∀ info : SourceObject → Info,
      carriageReturn ∉ members.flatMap fun o => indexLine info o ++ [newline] := by
    intro info hmem
    obtain ⟨o, ho, hmem⟩ := List.mem_flatMap.mp hmem
    rcases List.mem_append.mp hmem with hmem | hmem
    · exact (unbroken_indexLine (hkind o ho) info).carriageReturn hmem
    · exact absurd hmem (by decide)
  have hcount : ∀ info : SourceObject → Info,
      Unbroken (natText (members.countP fun o => (info o).exists?) ++ py " with human docs.") := by
    intro info
    rw [unbroken_append]
    exact ⟨hnumber _, by decide⟩
  have hfacts : carriageReturn ∉ counted members.length "object" ++ py " · " := by
    have hplural : Unbroken (if members.length ≠ 1 then py "s" else []) := by split <;> decide
    refine Unbroken.carriageReturn ?_
    simp only [counted, unbroken_append, hnumber, hplural, and_true, true_and]
    decide
  have htitle : (py "# " ++ system ++ py " — schema \x60" ++ cell schema ++ py "\x60\n\n").getLast? = some newline :=
    ends_append (by decide)
  have hbody : ∀ info : SourceObject → Info, schemaIndexBody system schema info .real members =
      (py "# " ++ system ++ py " — schema \x60" ++ cell schema ++ py "\x60\n\n") ++
        ((counted members.length "object" ++ py " · ") ++
          ((natText (members.countP fun o => (info o).exists?) ++ py " with human docs.") ++ newline ::
            (py "\n| Object | Kind | Machine doc | Human doc | Status | Purpose |\n|---|---|---|---|---|---|\n" ++
              members.flatMap fun o => indexLine info o ++ [newline]))) := by
    intro info
    rw [schemaIndexBody, hrows, hheader]
    simp only [List.append_assoc, List.cons_append, List.nil_append]
  rw [hbody, hbody] at h
  have hsame := table_of_newlines htitle hfacts (hcount info) (hcount info') (by decide) (hreturn info) (hreturn info') h
  intro o ho
  rw [schemaIndexRow_eq, schemaIndexRow_eq]
  refine congrArg (· ++ [newline]) (flatMap_rows_inj (fun o ho => ?_) (fun o ho => ?_) hsame o ho)
  · exact (unbroken_indexLine (hkind o ho) info).newline
  · exact (unbroken_indexLine (hkind o ho) info').newline

/-! ### What is printed of a human document -/

theorem notes_human (dir : PyStr) : isMachineFile (dir ++ py "/_notes.md") = false := by
  have hnotes : py "/_notes.md" = py "/" ++ py "_notes.md" := by decide
  rw [hnotes, ← List.append_assoc, isMachineFile_append (by decide)]
  decide

theorem PrintsSame.refl (o : SourceObject) (i : Info) : PrintsSame o i i := ⟨rfl, rfl, rfl, fun _ _ => rfl⟩

section

variable {unicode : Unicode} {s : Snapshot} {info info' : PyStr → Info}

/-- What a body asks of the siblings of a known object. -/
theorem printsSame_of_known (hhuman : ∀ path, isMachineFile path = false → info path = info' path)
    (hindex : s.systemClass = .sql → ∀ o ∈ known s, Naming.mangle o.name = py "index" →
      PrintsSame o (info (objectPath s.system o ".md")) (info' (objectPath s.system o ".md")))
    (hclass : s.systemClass = .sql) {o : SourceObject} (ho : o ∈ known s) :
    PrintsSame o (info (objectPath s.system o ".md")) (info' (objectPath s.system o ".md")) := by
  by_cases hname : Naming.mangle o.name = py "index"
  · exact hindex hclass o ho hname
  · rw [hhuman _ (Bool.eq_false_iff.mpr fun hmachine => hname ((isMachineFile_objectPath s.system o).mp hmachine))]
    exact PrintsSame.refl o _

theorem countP_of_printsSame (hhuman : ∀ path, isMachineFile path = false → info path = info' path)
    (hindex : s.systemClass = .sql → ∀ o ∈ known s, Naming.mangle o.name = py "index" →
      PrintsSame o (info (objectPath s.system o ".md")) (info' (objectPath s.system o ".md")))
    (hclass : s.systemClass = .sql) (schema : PyStr) :
    ((membersOf s SourceObject.schema schema).countP fun o => (info (objectPath s.system o ".md")).exists?) =
      (membersOf s SourceObject.schema schema).countP fun o => (info' (objectPath s.system o ".md")).exists? :=
  List.countP_congr fun o ho => by rw [(printsSame_of_known hhuman hindex hclass (mem_membersOf.mp ho).1).exists?]

/-- **Bodies that print the same**, of each document. -/
theorem bodyFor_of_printsSame (hhuman : ∀ path, isMachineFile path = false → info path = info' path)
    (hindex : s.systemClass = .sql → ∀ o ∈ known s, Naming.mangle o.name = py "index" →
      PrintsSame o (info (objectPath s.system o ".md")) (info' (objectPath s.system o ".md")))
    {doc : PyStr × DocEntry} (hdoc : doc ∈ docsOf s) :
    bodyFor unicode s info .real doc.2 = bodyFor unicode s info' .real doc.2 := by
  have hsame := fun (hclass : s.systemClass = .sql) {o : SourceObject} (ho : o ∈ known s) =>
    printsSame_of_known hhuman hindex hclass ho
  cases hclass : s.systemClass with
  | api =>
      -- no sibling is a machine document
      refine bodyFor_congr hdoc (fun path hpath => hhuman path (Bool.eq_false_iff.mpr fun hmachine => ?_)) .real
      have hsql := (sibling_cases hdoc hpath hmachine).1
      rw [hclass] at hsql
      cases hsql
  | sql =>
      obtain ⟨-, o, ho, rfl⟩ | ⟨-, schema, -, rfl⟩ | ⟨happly, -⟩ | rfl := mem_docsOf.mp hdoc
      · rw [bodyFor, bodyFor, objectBody_eq, objectBody_eq, columnTable_eq_iff.mpr (hsame hclass ho).columns]
      · have hrows : (membersOf s SourceObject.schema schema).flatMap
            (schemaIndexRow (fun o => info (objectPath s.system o ".md")) .real) =
              (membersOf s SourceObject.schema schema).flatMap
                (schemaIndexRow (fun o => info' (objectPath s.system o ".md")) .real) := by
          refine List.flatMap_congr fun o ho => ?_
          have hprints := hsame hclass (mem_membersOf.mp ho).1
          rw [schemaIndexRow, schemaIndexRow, documentCells, documentCells,
            humanCells_eq_iff.mpr ⟨hprints.exists?, hprints.status, hprints.purpose⟩]
        rw [bodyFor, bodyFor, schemaIndexBody, schemaIndexBody,
          countP_of_printsSame hhuman hindex hclass, hrows]
      · rw [hclass] at happly
        cases happly
      · have hnotes : info (systemNotesPath s) = info' (systemNotesPath s) := hhuman _ (notes_human _)
        rw [bodyFor, bodyFor, hnotes, hclass]
        refine congrArg (fun rows => some (sqlIndexBody s _ _ rows .real)) (List.map_congr_left fun schema _ => ?_)
        dsimp only
        rw [countP_of_printsSame hhuman hindex hclass, hhuman (notesPath s schema) (notes_human _)]

/-- And what is printed the same of an object called `index`, where its document and its row are read the same. -/
theorem printsSame_of_bodies (hclass : s.systemClass = .sql) {o : SourceObject} (ho : o ∈ known s)
    (hbodies : ∀ doc ∈ docsOf s, (bodyFor unicode s info .real doc.2).map newlines =
      (bodyFor unicode s info' .real doc.2).map newlines)
    (hsome : ∀ doc ∈ docsOf s, (bodyFor unicode s info' .real doc.2).isSome) :
    PrintsSame o (info (objectPath s.system o ".md")) (info' (objectPath s.system o ".md")) := by
  have hobject : (objectPath s.system o ".schema.md", DocEntry.object o) ∈ docsOf s :=
    mem_docsOf.mpr (.inl ⟨hclass, o, ho, rfl⟩)
  have hschema : indexDoc s o ∈ docsOf s :=
    mem_docsOf.mpr (.inr (.inl ⟨hclass, o.schema, mem_keysOf.mpr ⟨o, ho, rfl⟩, rfl⟩))
  have hcolumns : columnTable unicode (fmMap (info (objectPath s.system o ".md")).fm "column_purposes") .real o.columns =
      columnTable unicode (fmMap (info' (objectPath s.system o ".md")).fm "column_purposes") .real o.columns := by
    have hbody := hbodies _ hobject
    have hsome := hsome _ hobject
    have hhead : (objectHead s.system o).getLast? = some newline := ends_append (by decide)
    simp only [bodyFor, objectBody_eq] at hbody hsome
    obtain ⟨rest, hrest⟩ := Option.isSome_iff_exists.mp ((Option.isSome_map ..).symm.trans hsome)
    rw [hrest, Option.map_some, Option.map_some, Option.map_some, Option.map_some, Option.some_inj, List.append_assoc,
      List.append_assoc, newlines_append_of_getLast hhead (by decide), newlines_append_of_getLast hhead (by decide),
      newlines_append (carriageReturn_notMem_columnTable _ _), newlines_append (carriageReturn_notMem_columnTable _ _)] at hbody
    exact List.append_cancel_right (List.append_cancel_left hbody)
  have hrow : schemaIndexRow (fun o => info (objectPath s.system o ".md")) .real o =
      schemaIndexRow (fun o => info' (objectPath s.system o ".md")) .real o := by
    have hbody := hbodies _ hschema
    rw [indexDoc, bodyFor, bodyFor, Option.map_some, Option.map_some, Option.some_inj] at hbody
    exact schemaIndexRow_of_body (fun o ho => unbroken_kind (mem_membersOf.mp ho).1) hbody o (mem_membersOf.mpr ⟨ho, rfl⟩)
  rw [schemaIndexRow, schemaIndexRow, documentCells, documentCells] at hrow
  obtain ⟨hexists, hstatus, hpurpose⟩ :=
    humanCells_eq_iff.mp (List.append_cancel_left (List.append_cancel_left hrow))
  exact ⟨hexists, hstatus, hpurpose, columnTable_eq_iff.mp hcolumns⟩

end

/-! ### What a write leaves, and what is read of it -/

section

variable {unicode : Unicode} {yaml : Yaml} {s : Snapshot} {files tree : Files} {doc : PyStr × DocEntry} {date : PyStr}

theorem emit_head (entry : DocEntry) (date rest : PyStr) : headFor unicode s entry date ++ rest =
    Frontmatter.emit unicode (fieldsFor s entry date) ++ (py "\n" ++ rest) := by
  rw [headFor, List.append_assoc]

/-- The date is read off the head alone. -/
theorem oldDate_head (hdoc : doc ∈ docsOf s) (date rest rest' : PyStr) :
    oldDate unicode yaml (headFor unicode s doc.2 date ++ rest) =
      oldDate unicode yaml (headFor unicode s doc.2 date ++ rest') := by
  have hplain := (Frontmatter.built_fieldsFor hdoc date).plain
  rw [emit_head, emit_head, oldDate, oldDate, Frontmatter.split_emit hplain, Frontmatter.split_emit hplain]
  cases yaml.load ((fieldsFor s doc.2 date).flatMap (Frontmatter.fieldLines unicode)) with
  | none => rfl
  | some value => cases value <;> rfl

/-- The loader raises on a document where it does on its front matter. -/
theorem refuses_head (hdoc : doc ∈ docsOf s) (date rest : PyStr) :
    yaml.refuses (headFor unicode s doc.2 date ++ rest) = yaml.raises (blockOf unicode s doc.2 date) := by
  obtain ⟨hfence, hfind, hraw, -⟩ :=
    Frontmatter.cut_emit unicode (Frontmatter.built_fieldsFor hdoc date).plain (py "\n" ++ rest)
  rw [emit_head, Yaml.refuses, decide_eq_true hfence, hfind, Bool.true_and, Option.elim_some, hraw, blockOf]

/-- A machine document as it is read for a human one. -/
theorem humanInfo_head (hdoc : doc ∈ docsOf s) {path : PyStr} {bytes : List UInt8} (hfile : files path = some bytes)
    {rest : PyStr} (htext : readText bytes = headFor unicode s doc.2 date ++ rest) :
    humanInfo yaml files path = pageInfo unicode yaml s doc.2 date := by
  rw [humanInfo, hfile, pageInfo, blockOf]
  dsimp only
  rw [htext, emit_head, Frontmatter.split_emit (Frontmatter.built_fieldsFor hdoc date).plain]
  cases yaml.load ((fieldsFor s doc.2 date).flatMap (Frontmatter.fieldLines unicode)) with
  | none => rfl
  | some value => cases value <;> rfl

theorem NextStamp.unique {date date' : PyStr} (h : NextStamp unicode yaml files s doc date)
    (h' : NextStamp unicode yaml files s doc date') : date = date' := by
  rcases h with ⟨bytes, hbytes, hdate, hfilling⟩ | ⟨hnone, rfl⟩ <;>
    rcases h' with ⟨bytes', hbytes', hdate', hfilling'⟩ | ⟨hnone', rfl⟩
  · obtain rfl := Option.some.inj (hbytes.symm.trans hbytes')
    exact Option.some.inj (hdate.symm.trans hdate')
  · exact absurd ⟨bytes, hbytes, hdate, hfilling⟩ (hnone' date)
  · exact absurd ⟨bytes', hbytes', hdate', hfilling'⟩ (hnone date')
  · rfl

/-- What a first render leaves of a document: the text of its date, which is read back where it has been kept. -/
structure Leaves (unicode : Unicode) (yaml : Yaml) (s : Snapshot) (files : Files) (doc : PyStr × DocEntry)
    (bytes : List UInt8) (date real : PyStr) : Prop where
  stamp : NextStamp unicode yaml files s doc date
  body : bodyFor unicode s (humanInfo yaml files) .real doc.2 = some real
  text : readText bytes = headFor unicode s doc.2 date ++ newlines real
  kept : readText bytes = headFor unicode s doc.2 date ++ real ∧ oldDate unicode yaml (readText bytes) = some date ∨
    date = s.capturedAt.take 10 ∧ encodeUtf8 (headFor unicode s doc.2 date ++ real) = some bytes

theorem readText_of_write (hdoc : doc ∈ docsOf s) {bytes : List UInt8} {real : PyStr}
    (h : encodeUtf8 (headFor unicode s doc.2 date ++ real) = some bytes) :
    readText bytes = headFor unicode s doc.2 date ++ newlines real := by
  rw [readText_of_encode h, newlines_append (carriageReturn_notMem_headFor hdoc date)]

theorem newlines_readText (bytes : List UInt8) : newlines (readText bytes) = readText bytes :=
  newlines_eq_self (carriageReturn_notMem_newlines _)

theorem leaves_of_docBytes (hdoc : doc ∈ docsOf s) {bytes : List UInt8}
    (h : docBytes unicode yaml s files doc = some bytes) : ∃ date real, Leaves unicode yaml s files doc bytes date real := by
  have hwrite := writeMachine_of_docBytes h
  obtain ⟨real, hreal, -⟩ := Option.bind_eq_some_iff.mp hwrite
  replace hreal : bodyFor unicode s (humanInfo yaml files) .real doc.2 = some real := hreal
  let v : Version := ⟨s, doc.2, humanInfo yaml files⟩
  obtain ⟨f, ls, hf, hbody⟩ := (v.hasLines unicode hdoc (s.capturedAt.take 10)).2 real hreal
  obtain rfl : f .real = real := Option.some.inj ((hbody .real).symm.trans hreal)
  have htext : ∀ d mode, v.text unicode d mode = headFor unicode s doc.2 d ++ f mode := fun d mode => by
    rw [Version.text, hbody, Option.getD_some]
  have hfresh : ∀ {d}, encodeUtf8 (headFor unicode s doc.2 d ++ f .real) = some bytes → d = s.capturedAt.take 10 →
      NextStamp unicode yaml files s doc d → Leaves unicode yaml s files doc bytes d (f .real) :=
    fun hbytes hd hstamp => ⟨hstamp, hreal, readText_of_write hdoc hbytes, .inr ⟨hd, hbytes⟩⟩
  cases hfile : files doc.1 with
  | none =>
      rw [hfile, writeMachine, hreal] at hwrite
      refine ⟨_, _, hfresh hwrite rfl (.inr ⟨?_, rfl⟩)⟩
      rintro d ⟨bytes, hbytes, -⟩
      rw [hfile] at hbytes
      cases hbytes
  | some old =>
      rw [hfile] at hwrite
      have hkeeps := fun d => hf.keeps_iff (ends_headFor unicode s doc.2 d) (readText old)
      rcases writeMachine_cases hbody hwrite with ⟨d, hold, hcase⟩ | ⟨hnot, hbytes⟩
      · have hfilling : IsFilling (readText old) (headFor unicode s doc.2 d ++ f .absent)
            (headFor unicode s doc.2 d ++ f .marker) := by
          refine (hkeeps d).mp ?_
          rcases hcase with ⟨hsame, -⟩ | ⟨-, hconfined, -⟩
          · exact .inl hsame
          · exact .inr hconfined
        -- what is kept was read, so it has no carriage return
        have hplain : carriageReturn ∉ f .real := by
          obtain ⟨ls', hls'⟩ := (v.hasLines unicode hdoc d).1
          rw [← htext, ← htext] at hfilling
          have hreturn := hls'.carriageReturn_notMem (carriageReturn_notMem_newlines _) hfilling .real
          rw [htext, List.mem_append, not_or] at hreturn
          exact hreturn.2
        have hread : readText bytes = headFor unicode s doc.2 d ++ f .real := by
          rcases hcase with ⟨hsame, rfl⟩ | ⟨-, -, hbytes⟩
          · exact hsame.symm
          · rw [readText_of_write hdoc hbytes, newlines_eq_self hplain]
        have hdate : oldDate unicode yaml (readText bytes) = some d := by
          obtain ⟨rest, hrest, -⟩ := (isFilling_append (ends_headFor unicode s doc.2 d) _ _ _).mp hfilling
          rw [hread, oldDate_head hdoc d _ rest, ← hrest, hold]
        refine ⟨d, f .real, .inl ⟨old, hfile, hold, ?_⟩, hreal, ?_, .inl ⟨hread, hdate⟩⟩
        · rw [htext, htext]
          exact hfilling
        · rw [hread, newlines_eq_self hplain]
      · refine ⟨_, _, hfresh hbytes rfl (.inr ⟨?_, rfl⟩)⟩
        rintro d ⟨bytes', hbytes', hold, hfilling⟩
        obtain rfl := Option.some.inj (hfile.symm.trans hbytes')
        rw [htext, htext] at hfilling
        exact hnot d hold ((hkeeps d).mpr hfilling)

/-- **The second write** of what the first has left changes nothing where the loader takes it and its body is the same. -/
theorem Leaves.writeMachine_again (hdoc : doc ∈ docsOf s) {bytes : List UInt8} {real : PyStr}
    (h : Leaves unicode yaml s files doc bytes date real) (hraises : yaml.raises (blockOf unicode s doc.2 date) = false)
    {info : PyStr → Info} (hreal : bodyFor unicode s info .real doc.2 = some real) :
    writeMachine unicode yaml (headFor unicode s doc.2) (fun mode => bodyFor unicode s info mode doc.2)
      (s.capturedAt.take 10) (some bytes) = some bytes := by
  let v : Version := ⟨s, doc.2, info⟩
  obtain ⟨f, ls, -, hbody⟩ := (v.hasLines unicode hdoc date).2 real hreal
  obtain rfl : f .real = real := Option.some.inj ((hbody .real).symm.trans hreal)
  have hbody' : ∀ mode, bodyFor unicode s info mode doc.2 = some (f mode) := hbody
  have hrefuses : yaml.refuses (readText bytes) = false := by rw [h.text, refuses_head hdoc, hraises]
  simp only [writeMachine, hbody', Option.bind_eq_bind, Option.bind_some, hrefuses, Bool.false_eq_true, if_false]
  rcases h.kept with ⟨htext, hdate⟩ | ⟨rfl, hbytes⟩
  · rw [hdate]
    dsimp only
    rw [if_pos htext.symm]
  · cases hdate : oldDate unicode yaml (readText bytes) with
    | none => exact hbytes
    | some d =>
        dsimp only
        by_cases hsame : headFor unicode s doc.2 d ++ f .real = readText bytes
        · rw [if_pos hsame]
        rw [if_neg hsame]
        by_cases hhead : headFor unicode s doc.2 d <+: readText bytes
        · rw [if_pos hhead]
          -- either date is the day of the snapshot
          obtain ⟨rest, hrest⟩ := hhead
          obtain ⟨rfl, -⟩ := headFor_append_inj (hrest.trans h.text)
          rw [hbytes, ite_self]
        · rw [if_neg hhead]
          exact hbytes

/-- And where it changes nothing, the loader takes it and its body is read the same. -/
theorem Leaves.of_writeMachine_again (hdoc : doc ∈ docsOf s) {bytes : List UInt8} {real : PyStr}
    (h : Leaves unicode yaml s files doc bytes date real) {info : PyStr → Info}
    (hwrite : writeMachine unicode yaml (headFor unicode s doc.2) (fun mode => bodyFor unicode s info mode doc.2)
      (s.capturedAt.take 10) (some bytes) = some bytes) :
    yaml.raises (blockOf unicode s doc.2 date) = false ∧
      (bodyFor unicode s info .real doc.2).map newlines = some (newlines real) := by
  constructor
  · obtain ⟨real', hreal', hwrite⟩ := Option.bind_eq_some_iff.mp hwrite
    rw [Bool.eq_false_iff]
    intro hraises
    dsimp only at hwrite
    rw [if_pos (by rw [h.text, refuses_head hdoc, hraises])] at hwrite
    cases hwrite
  · obtain ⟨date', real', hreal', htext⟩ := writeMachine_spec hwrite
    rw [newlines_append (carriageReturn_notMem_headFor hdoc date'), h.text] at htext
    rw [hreal', Option.map_some, (headFor_append_inj htext).2]

/-! ### The second render -/

/-- A document of the plan as the first render has left it. -/
theorem Leaves.of_rendered (h : Rendered unicode yaml s files tree) (hdoc : doc ∈ docsOf s) :
    ∃ bytes date real, tree doc.1 = some bytes ∧ Leaves unicode yaml s files doc bytes date real := by
  obtain ⟨bytes, hbytes⟩ := Option.isSome_iff_exists.mp (h.isSome doc hdoc)
  obtain ⟨date, real, hleaves⟩ := leaves_of_docBytes hdoc hbytes
  exact ⟨bytes, date, real, (h.written doc hdoc).trans hbytes, hleaves⟩

theorem human_of_rendered (h : Rendered unicode yaml s files tree) {path : PyStr} (hpath : isMachineFile path = false) :
    tree path = files path :=
  h.untouched fun hgen => Bool.false_ne_true (hpath.symm.trans hgen.2)

theorem indexDoc_mem {o : SourceObject} (hclass : s.systemClass = .sql) (ho : o ∈ known s) : indexDoc s o ∈ docsOf s :=
  mem_docsOf.mpr (.inr (.inl ⟨hclass, o.schema, mem_keysOf.mpr ⟨o, ho, rfl⟩, rfl⟩))

/-- The index of a schema is what the second render reads for the human document of an object called `index`. -/
theorem humanInfo_index (h : Rendered unicode yaml s files tree) {o : SourceObject} (hclass : s.systemClass = .sql)
    (ho : o ∈ known s) (hname : Naming.mangle o.name = py "index") :
    ∃ date, NextStamp unicode yaml files s (indexDoc s o) date ∧
      humanInfo yaml tree (objectPath s.system o ".md") = pageInfo unicode yaml s (indexDoc s o).2 date := by
  obtain ⟨bytes, date, real, hbytes, hleaves⟩ := Leaves.of_rendered h (indexDoc_mem hclass ho)
  refine ⟨date, hleaves.stamp, ?_⟩
  rw [objectPath_index hname]
  exact humanInfo_head (indexDoc_mem hclass ho) hbytes hleaves.text

/-- What one render leaves **the next one leaves alone** exactly where the system settles. -/
theorem rendered_again_iff (h : Rendered unicode yaml s files tree) :
    Rendered unicode yaml s tree tree ↔ Settles unicode yaml files s := by
  have hplan : expectedDocs s = some (docsOf s) := expectedDocs_eq_some.mpr ⟨rfl, h.nodup⟩
  have hhuman : ∀ path, isMachineFile path = false → humanInfo yaml tree path = humanInfo yaml files path := by
    intro path hpath
    rw [humanInfo, humanInfo, human_of_rendered h hpath]
  constructor
  · intro hagain
    have hleft : ∀ doc ∈ docsOf s, ∃ bytes date real, Leaves unicode yaml s files doc bytes date real ∧
        yaml.raises (blockOf unicode s doc.2 date) = false ∧
          (bodyFor unicode s (humanInfo yaml tree) .real doc.2).map newlines = some (newlines real) := by
      intro doc hdoc
      obtain ⟨bytes, date, real, hbytes, hleaves⟩ := Leaves.of_rendered h hdoc
      have hwrite := writeMachine_of_docBytes ((hagain.written doc hdoc).symm.trans hbytes)
      rw [hbytes] at hwrite
      exact ⟨bytes, date, real, hleaves, hleaves.of_writeMachine_again hdoc hwrite⟩
    constructor
    · intro plan hplan' doc hdoc date hstamp
      obtain rfl := Option.some.inj (hplan.symm.trans hplan')
      obtain ⟨bytes, date', real, hleaves, hraises, -⟩ := hleft doc hdoc
      rwa [hstamp.unique hleaves.stamp]
    · intro hclass o ho hname date hstamp
      obtain ⟨date', hstamp', hpage⟩ := humanInfo_index h hclass ho hname
      rw [hstamp.unique hstamp', ← hpage]
      have hbodies : ∀ doc ∈ docsOf s, (bodyFor unicode s (humanInfo yaml files) .real doc.2).map newlines =
          (bodyFor unicode s (humanInfo yaml tree) .real doc.2).map newlines := by
        intro doc hdoc
        obtain ⟨bytes, date, real, hleaves, -, hbody⟩ := hleft doc hdoc
        rw [hleaves.body, hbody, Option.map_some]
      have hsome : ∀ doc ∈ docsOf s, (bodyFor unicode s (humanInfo yaml tree) .real doc.2).isSome := by
        intro doc hdoc
        obtain ⟨bytes, date, real, hleaves, -, hbody⟩ := hleft doc hdoc
        obtain ⟨body, hsome, -⟩ := Option.map_eq_some_iff.mp hbody
        exact Option.isSome_iff_exists.mpr ⟨body, hsome⟩
      exact printsSame_of_bodies hclass ho hbodies hsome
  · intro hsettles
    have hbody : ∀ doc ∈ docsOf s, bodyFor unicode s (humanInfo yaml files) .real doc.2 =
        bodyFor unicode s (humanInfo yaml tree) .real doc.2 := by
      intro doc hdoc
      refine bodyFor_of_printsSame (fun path hpath => (hhuman path hpath).symm) (fun hclass o ho hname => ?_) hdoc
      obtain ⟨date, hstamp, hpage⟩ := humanInfo_index h hclass ho hname
      rw [hpage]
      exact hsettles.same hclass o ho hname date hstamp
    have hagain : ∀ doc ∈ docsOf s, docBytes unicode yaml s tree doc = tree doc.1 := by
      intro doc hdoc
      obtain ⟨bytes, date, real, hbytes, hleaves⟩ := Leaves.of_rendered h hdoc
      have hreadable := readable_of_docBytes ((h.written doc hdoc).symm.trans hbytes)
      have hsiblings : ∀ path ∈ siblings s doc.2, unreadable yaml tree path = false := by
        intro path hpath
        by_cases hmachine : isMachineFile path = true
        · -- the path of an index, which the loader takes
          obtain ⟨hclass, o, ho, hname, rfl⟩ := sibling_cases hdoc hpath hmachine
          obtain ⟨bytes, date, real, hbytes, hleaves⟩ := Leaves.of_rendered h (indexDoc_mem hclass ho)
          rw [objectPath_index hname]
          have hraises := hsettles.reads _ hplan _ (indexDoc_mem hclass ho) date hleaves.stamp
          have hindex : tree (schemaIndexPath s.system o.schema) = some bytes := hbytes
          rw [unreadable, hindex, Option.elim_some, hleaves.text, refuses_head (indexDoc_mem hclass ho), hraises]
        · rw [unreadable, human_of_rendered h (Bool.eq_false_iff.mpr hmachine)]
          exact hreadable path hpath
      rw [docBytes, if_pos hsiblings, hbytes]
      exact hleaves.writeMachine_again hdoc (hsettles.reads _ hplan doc hdoc date hleaves.stamp)
        ((hbody doc hdoc).symm.trans hleaves.body)
    refine ⟨h.nodup, fun doc hdoc => ?_, fun doc hdoc => (hagain doc hdoc).symm, fun path hpath => ?_⟩
    · obtain ⟨bytes, date, real, hbytes, -⟩ := Leaves.of_rendered h hdoc
      rw [hagain doc hdoc, hbytes]
      rfl
    · by_cases hgen : systemDir s.system ++ py "/" <+: path ∧ isMachineFile path = true
      · rw [if_pos hgen, h.others path hpath, if_pos hgen]
      · rw [if_neg hgen]

end

end ContextLayer.Rerender
