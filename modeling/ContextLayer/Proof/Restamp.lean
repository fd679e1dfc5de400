import ContextLayer.Proof.RenderTree
import ContextLayer.Proof.Slots
import ContextLayer.Proof.Pages
import ContextLayer.Restamp

/-!
# The stamp moves with the facts

The comparison of the lines finds exactly the texts that are the document with some texts in its slots. So what is left to
ask is when a text is that without the same facts, and when the same facts are not that.
-/

namespace ContextLayer.Render

open Text StableSort PyText

/-! ### One line -/

theorem commonPrefix_append {c d : CodePoint} (h : c ≠ d) (b x y : PyStr) :
    commonPrefix (b ++ c :: x) (b ++ d :: y) = b.length := by
  induction b with
  | nil => rw [List.nil_append, List.nil_append, commonPrefix, if_neg h, List.length_nil]
  | cons p b ih => rw [List.cons_append, List.cons_append, commonPrefix, if_pos rfl, ih, List.length_cons]

theorem lineConfined_self (old text : PyStr) : lineConfined old text text = true ↔ old = text := by
  rw [lineConfined, if_pos rfl, decide_eq_true_eq]

theorem drop_length_sub (a b : PyStr) : (a ++ b).drop ((a ++ b).length - b.length) = b := by
  rw [List.length_append, Nat.add_sub_cancel, List.drop_left]

/-- The mark and the dash have neither a first nor a last character in common. -/
theorem lineConfined_slot (old before after : PyStr) :
    lineConfined old (before ++ purposeCell none .absent ++ after) (before ++ purposeCell none .marker ++ after) = true ↔
      ∃ inside, old = before ++ inside ++ after := by
  have hdash : purposeCell none .absent = [.unit 0x2014] := by decide
  have hmark : purposeCell none .marker = .unit 0x70 :: py "urpose-slot" := by decide
  have hback : (purposeCell none .marker).reverse = .unit 0x74 :: (py "purpose-slo").reverse := by decide
  have hne : before ++ purposeCell none .absent ++ after ≠ before ++ purposeCell none .marker ++ after := by
    intro heq
    have hlength := congrArg List.length heq
    simp only [List.length_append, hdash, hmark, List.length_cons, List.length_nil] at hlength
    have : (py "urpose-slot").length = 11 := by decide
    omega
  have hp : commonPrefix (before ++ purposeCell none .absent ++ after) (before ++ purposeCell none .marker ++ after) =
      before.length := by
    rw [List.append_assoc, List.append_assoc, hdash, hmark]
    exact commonPrefix_append (by decide) before _ _
  have hdrop : ∀ mode, (before ++ purposeCell none mode ++ after).drop before.length = purposeCell none mode ++ after := by
    intro mode
    rw [List.append_assoc, List.drop_left]
  have hq : commonPrefix (purposeCell none .absent ++ after).reverse (purposeCell none .marker ++ after).reverse =
      after.length := by
    rw [List.reverse_append, List.reverse_append, hback, hdash, ← List.length_reverse]
    exact commonPrefix_append (by decide) after.reverse _ _
  rw [lineConfined, if_neg hne]
  dsimp only
  rw [hp, hdrop, hdrop, hq]
  simp only [Bool.and_eq_true, decide_eq_true_eq]
  have htake : (before ++ purposeCell none .absent ++ after).take before.length = before := by
    rw [List.append_assoc, List.take_left]
  rw [htake, drop_length_sub]
  constructor
  · rintro ⟨⟨hlength, hbefore⟩, hafter⟩
    refine ⟨(old.drop before.length).take (old.length - after.length - before.length), ?_⟩
    have hsplit : old.length - after.length = before.length + (old.length - after.length - before.length) := by omega
    calc old
        = old.take (old.length - after.length) ++ old.drop (old.length - after.length) :=
          (List.take_append_drop _ old).symm
      _ = old.take (before.length + (old.length - after.length - before.length)) ++ after := by rw [hafter, ← hsplit]
      _ = before ++ (old.drop before.length).take (old.length - after.length - before.length) ++ after := by
          rw [List.take_add, hbefore]
  · rintro ⟨inside, rfl⟩
    refine ⟨⟨by simp only [List.length_append]; omega, by rw [List.append_assoc, List.take_left]⟩, ?_⟩
    exact drop_length_sub _ after

theorem variant_eq_iff {f : FilledLine} : f.variant .absent = f.variant .marker ↔ ∃ text, f = .facts text := by
  cases f with
  | facts text => exact iff_of_true rfl ⟨text, rfl⟩
  | slot before inside after =>
      refine iff_of_false (fun heq => ?_) nofun
      have hlength := congrArg List.length heq
      have hdash : (purposeCell none .absent).length = 1 := by decide
      have hmark : (purposeCell none .marker).length = 12 := by decide
      simp only [FilledLine.variant, List.length_append] at hlength
      omega

/-- A line with some text in its slot. -/
def DocLine.fill (inside : PyStr) : DocLine → PyStr
  | .facts text => text
  | .slot before _ => before ++ inside ++ py " |"

theorem lineConfined_iff (old : PyStr) (l : DocLine) :
    lineConfined old (l.text .absent) (l.text .marker) = true ↔ ∃ inside, old = l.fill inside := by
  cases l with
  | facts text => exact (lineConfined_self old text).trans ⟨fun h => ⟨[], h⟩, fun ⟨_, h⟩ => h⟩
  | slot before value => exact lineConfined_slot old before (py " |")

theorem form_iff (old : PyStr) (l : DocLine) : (∃ form : FilledLine, old = form.filled ∧
    l.text .absent = form.variant .absent ∧ l.text .marker = form.variant .marker) ↔ ∃ inside, old = l.fill inside := by
  rw [← lineConfined_iff]
  constructor
  · rintro ⟨form, rfl, habsent, hmarked⟩
    rw [habsent, hmarked]
    cases form with
    | facts text => exact (lineConfined_self text text).mpr rfl
    | slot before inside after => exact (lineConfined_slot _ before after).mpr ⟨inside, rfl⟩
  · intro h
    obtain ⟨inside, rfl⟩ := (lineConfined_iff old l).mp h
    cases l with
    | facts text => exact ⟨.facts text, rfl, rfl, rfl⟩
    | slot before value => exact ⟨.slot before inside (py " |"), rfl, rfl, rfl⟩

/-! ### All lines -/

/-- The lines of a document, in each of its variants. -/
structure HasLines (f : Mode → PyStr) (ls : List DocLine) : Prop where
  eq : ∀ mode, lines (f mode) = ls.map (DocLine.text mode)
  isLine : ∀ l ∈ ls, l.IsLine

theorem Slotted.hasLines {f : Mode → PyStr} (hf : Slotted f) : ∃ ls, HasLines f ls := by
  obtain ⟨ls, hls, hlines⟩ := hf
  refine ⟨ls ++ [.facts []], fun mode => ?_, fun l hl => ?_⟩
  · rw [hls, lines_flatMap hlines, List.map_append]
    rfl
  · rcases List.mem_append.mp hl with hl | hl
    · exact hlines l hl
    · rw [List.mem_singleton.mp hl]
      exact List.not_mem_nil

/-- Each line of a text is the line of the document with some text in its slot. -/
def Fills (old : List PyStr) (ls : List DocLine) : Prop :=
  List.Forall₂ (fun o l => ∃ inside, o = DocLine.fill inside l) old ls

theorem fills_iff_forms (old : List PyStr) (ls : List DocLine) : Fills old ls ↔
    ∃ fs : List FilledLine, old = fs.map FilledLine.filled ∧
      ls.map (DocLine.text .absent) = fs.map (FilledLine.variant .absent) ∧
        ls.map (DocLine.text .marker) = fs.map (FilledLine.variant .marker) := by
  constructor
  · intro h
    induction h with
    | nil => exact ⟨[], rfl, rfl, rfl⟩
    | cons hline _ ih =>
        obtain ⟨form, rfl, habsent, hmarked⟩ := (form_iff _ _).mpr hline
        obtain ⟨fs, rfl, hfs⟩ := ih
        refine ⟨form :: fs, rfl, ?_, ?_⟩
        · rw [List.map_cons, List.map_cons, habsent, hfs.1]
        · rw [List.map_cons, List.map_cons, hmarked, hfs.2]
  · rintro ⟨fs, rfl, habsent, hmarked⟩
    induction fs generalizing ls with
    | nil =>
        obtain rfl := List.map_eq_nil_iff.mp habsent
        exact .nil
    | cons form fs ih =>
        cases ls with
        | nil => cases habsent
        | cons l ls =>
            rw [List.map_cons, List.map_cons, List.cons.injEq] at habsent hmarked
            exact .cons ((form_iff _ l).mp ⟨form, rfl, habsent.1, hmarked.1⟩) (ih ls habsent.2 hmarked.2)

section

variable {f : Mode → PyStr} {ls : List DocLine}

theorem HasLines.isFilling_iff (hf : HasLines f ls) (old : PyStr) :
    IsFilling old (f .absent) (f .marker) ↔ Fills (lines old) ls := by
  rw [IsFilling, hf.eq, hf.eq, fills_iff_forms]

/-- **What is confined to the slots** is the document with some texts in them. -/
theorem HasLines.purposeConfined_iff (hf : HasLines f ls) (old : PyStr) :
    purposeConfined old (f .absent) (f .marker) = true ↔ IsFilling old (f .absent) (f .marker) := by
  rw [hf.isFilling_iff, Fills, List.forall₂_iff_zip, purposeConfined, hf.eq, hf.eq, List.zip_map', List.zip_map_right]
  simp only [Bool.and_eq_true, decide_eq_true_eq, List.length_map, and_true, List.all_map, List.all_eq_true,
    Function.comp_apply, Prod.map_fst, Prod.map_snd, id_eq, lineConfined_iff, Prod.forall]

/-- The document fills its own slots. -/
theorem HasLines.isFilling (hf : HasLines f ls) (mode : Mode) : IsFilling (f mode) (f .absent) (f .marker) := by
  rw [hf.isFilling_iff, hf.eq, Fills, List.forall₂_map_left_iff, List.forall₂_same]
  intro l _
  cases l with
  | facts text => exact ⟨[], rfl⟩
  | slot before value => exact ⟨purposeCell value mode, rfl⟩

end

/-! ### A head of facts -/

theorem isFilling_append {head : PyStr} (hhead : head.getLast? = some newline) (old absent marked : PyStr) :
    IsFilling old (head ++ absent) (head ++ marked) ↔ ∃ rest, old = head ++ rest ∧ IsFilling rest absent marked := by
  obtain ⟨hs, rfl, hlines⟩ := Lines.exists_pieces hhead
  simp only [IsFilling, lines, Lines.splitOn_flatMap_append hlines]
  constructor
  · rintro ⟨fs, hold, habsent, hmarked⟩
    obtain ⟨heads, fs, rfl, hheads, hrest⟩ := List.map_eq_append_iff.mp habsent.symm
    rw [List.map_append] at hmarked
    obtain ⟨hsame, hmarked⟩ := List.append_inj hmarked (by rw [← hheads, List.length_map, List.length_map])
    -- a line that is the same in both variants is facts
    have hfilled : heads.map FilledLine.filled = hs := by
      rw [← hheads]
      refine List.map_congr_left fun f hf => ?_
      obtain ⟨text, rfl⟩ := variant_eq_iff.mp (List.map_inj_left.mp (hheads.trans hsame) f hf)
      rfl
    have hne : fs.map FilledLine.filled ≠ [] := by
      intro hnil
      rw [List.map_eq_nil_iff.mp hnil] at hrest
      exact List.splitOn_ne_nil newline absent hrest.symm
    rw [List.map_append, hfilled] at hold
    have hold' : old = hs.flatMap (fun l => l ++ [newline]) ++ [newline].intercalate (fs.map FilledLine.filled) := by
      rw [← Lines.intercalate_append_of_ne_nil hs hne, ← hold, List.intercalate_splitOn]
    refine ⟨_, hold', fs, ?_, hrest.symm, hmarked⟩
    rw [hold', Lines.splitOn_flatMap_append hlines] at hold
    exact List.append_cancel_left hold
  · rintro ⟨rest, rfl, fs, hold, habsent, hmarked⟩
    refine ⟨hs.map .facts ++ fs, ?_, ?_, ?_⟩
    · rw [Lines.splitOn_flatMap_append hlines, hold, List.map_append, List.map_map]
      exact congrArg (· ++ _) (List.map_id hs).symm
    · rw [habsent, List.map_append, List.map_map]
      exact congrArg (· ++ _) (List.map_id hs).symm
    · rw [hmarked, List.map_append, List.map_map]
      exact congrArg (· ++ _) (List.map_id hs).symm

/-- **The comparison a write makes**: the text is the document of the date, or one with other texts in its slots. -/
theorem HasLines.keeps_iff {f : Mode → PyStr} {ls : List DocLine} (hf : HasLines f ls) {head : PyStr}
    (hhead : head.getLast? = some newline) (old : PyStr) : (head ++ f .real = old ∨
      head <+: old ∧ purposeConfined (old.drop head.length) (f .absent) (f .marker) = true) ↔
        IsFilling old (head ++ f .absent) (head ++ f .marker) := by
  rw [isFilling_append hhead]
  constructor
  · rintro (rfl | ⟨⟨rest, rfl⟩, hconfined⟩)
    · exact ⟨_, rfl, hf.isFilling .real⟩
    · rw [List.drop_left, hf.purposeConfined_iff] at hconfined
      exact ⟨rest, rfl, hconfined⟩
  · rintro ⟨rest, rfl, hfilling⟩
    refine .inr ⟨List.prefix_append _ _, ?_⟩
    rwa [List.drop_left, hf.purposeConfined_iff]

/-! ### The same facts -/

theorem mem_lines {text : PyStr} {c : CodePoint} (hc : c ≠ newline) : c ∈ text ↔ ∃ l ∈ lines text, c ∈ l := by
  constructor
  · intro hmem
    have hcut := Lines.flatMap_splitOn text ▸ List.mem_append_left [newline] hmem
    obtain ⟨l, hl, hmem⟩ := List.mem_flatMap.mp hcut
    exact ⟨l, hl, (List.mem_append.mp hmem).resolve_right fun h => hc (List.mem_singleton.mp h)⟩
  · rintro ⟨l, hl, hmem⟩
    exact Lines.mem_of_mem_splitOn hl hmem

section

variable {f g : Mode → PyStr} {ls ls' : List DocLine}

/-- A carriage return stands in facts. -/
theorem HasLines.carriageReturn_mem_iff (hf : HasLines f ls) (mode : Mode) :
    carriageReturn ∈ f mode ↔ ∃ text, .facts text ∈ ls ∧ carriageReturn ∈ text := by
  rw [mem_lines (by decide), hf.eq]
  constructor
  · rintro ⟨line, hline, hmem⟩
    obtain ⟨l, hl, rfl⟩ := List.mem_map.mp hline
    cases l with
    | facts text => exact ⟨text, hl, hmem⟩
    | slot before value =>
        have hplain : Unbroken (before ++ purposeCell value mode ++ py " |") := by
          rw [unbroken_append, unbroken_append]
          exact ⟨⟨hf.isLine _ hl, unbroken_purposeCell value mode⟩, by decide⟩
        exact absurd hmem hplain.carriageReturn
  · rintro ⟨text, hl, hmem⟩
    exact ⟨text, List.mem_map_of_mem hl, hmem⟩

/-- What is filled has the carriage returns of the facts. -/
theorem Fills.mem_of_facts {old : List PyStr} (h : Fills old ls) {text : PyStr} (hl : .facts text ∈ ls) : text ∈ old := by
  induction h with
  | nil => cases hl
  | cons hline _ ih =>
      rcases List.mem_cons.mp hl with rfl | hl
      · obtain ⟨inside, rfl⟩ := hline
        exact List.mem_cons_self
      · exact List.mem_cons_of_mem _ (ih hl)

theorem HasLines.carriageReturn_notMem (hf : HasLines f ls) {old : PyStr} (hold : carriageReturn ∉ old)
    (h : IsFilling old (f .absent) (f .marker)) (mode : Mode) : carriageReturn ∉ f mode := by
  rw [hf.carriageReturn_mem_iff]
  rintro ⟨text, hl, hmem⟩
  exact hold (Lines.mem_of_mem_splitOn (((hf.isFilling_iff old).mp h).mem_of_facts hl) hmem)

theorem DocLine.text_ne (before : PyStr) (value : Option PyJson) :
    (DocLine.slot before value).text .absent ≠ (DocLine.slot before value).text .marker := by
  have hform := mt (variant_eq_iff (f := .slot before [] (py " |"))).mp nofun
  exact hform

/-- A line of the same facts fills a slot, or is no more than its facts. -/
theorem DocLine.fill_iff_of_same {l l' : DocLine} (h : l.text .absent = l'.text .absent) :
    (∃ inside, l.text .real = l'.fill inside) ↔
      (l.text .real ≠ l.text .absent → l'.text .absent ≠ l'.text .marker) := by
  cases l' with
  | facts text =>
      constructor
      · rintro ⟨inside, heq⟩ hne
        exact absurd (heq.trans h.symm) hne
      · intro himp
        exact ⟨[], (not_not.mp fun hne => himp hne rfl).trans h⟩
  | slot before value =>
      refine iff_of_true ?_ fun _ => DocLine.text_ne before value
      cases l with
      | facts text => exact ⟨purposeCell value .absent, h⟩
      | slot first purpose =>
          obtain rfl : first = before := List.append_cancel_right (List.append_cancel_right h)
          exact ⟨purposeCell purpose .real, rfl⟩

/-- Two documents of the same facts: the first fills the slots of the second exactly where the second has a slot for each
of its purposes. -/
theorem fills_iff_of_same (h : ls.map (DocLine.text .absent) = ls'.map (DocLine.text .absent)) :
    Fills (ls.map (DocLine.text .real)) ls' ↔
      ∀ i : Nat, (ls.map (DocLine.text .real))[i]? ≠ (ls.map (DocLine.text .absent))[i]? →
        (ls'.map (DocLine.text .absent))[i]? ≠ (ls'.map (DocLine.text .marker))[i]? := by
  induction ls generalizing ls' with
  | nil =>
      obtain rfl := List.map_eq_nil_iff.mp h.symm
      exact iff_of_true .nil fun i hne => absurd rfl hne
  | cons l ls ih =>
      cases ls' with
      | nil => cases h
      | cons l' ls' =>
          rw [List.map_cons, List.map_cons, List.cons.injEq] at h
          have hfirst := DocLine.fill_iff_of_same h.1
          have hrest := ih h.2
          constructor
          · intro hfills
            obtain ⟨hline, hfills⟩ := List.forall₂_cons.mp hfills
            intro i
            cases i with
            | zero => simpa using hfirst.mp hline
            | succ i => simpa using hrest.mp hfills i
          · intro hslots
            refine .cons (hfirst.mpr (by simpa using hslots 0)) (hrest.mpr fun i => ?_)
            simpa using hslots (i + 1)

end

/-! ### One write -/

section

variable {unicode : Unicode} {yaml : Yaml} {v v₁ v₂ : Version} {date newDate : PyStr} {bytes₁ bytes₂ : List UInt8}

theorem ends_headFor (unicode : Unicode) (s : Snapshot) (entry : DocEntry) (date : PyStr) :
    (headFor unicode s entry date).getLast? = some newline := by
  rw [headFor]
  exact ends_append (by decide)

/-- The body of a version in each mode, where it is not an exception. -/
theorem Version.hasLines (v : Version) (unicode : Unicode) {path : PyStr} (hdoc : (path, v.entry) ∈ docsOf v.s) (date : PyStr) :
    (∃ ls, HasLines (v.text unicode date) ls) ∧ ∀ real, bodyFor unicode v.s v.info .real v.entry = some real →
      ∃ f ls, HasLines f ls ∧ ∀ mode, bodyFor unicode v.s v.info mode v.entry = some (f mode) := by
  obtain ⟨body, hbody, hslotted⟩ := bodyFor_slotted v.info hdoc
  have hhead : Slotted fun _ => headFor unicode v.s v.entry date := Slotted.const (ends_headFor unicode v.s v.entry date)
  cases body with
  | none =>
      have htext : v.text unicode date = fun mode => headFor unicode v.s v.entry date ++ [] := by
        funext mode
        rw [Version.text, hbody]
        rfl
      refine ⟨htext ▸ (hhead.append Slotted.nil).hasLines, fun real hreal => ?_⟩
      rw [hbody] at hreal
      cases hreal
  | some f =>
      have hf := hslotted f rfl
      have htext : v.text unicode date = fun mode => headFor unicode v.s v.entry date ++ f mode := by
        funext mode
        rw [Version.text, hbody]
        rfl
      obtain ⟨ls, hls⟩ := hf.hasLines
      exact ⟨htext ▸ (hhead.append hf).hasLines, fun _ _ => ⟨f, ls, hls, hbody⟩⟩

/-- **The date that is read** off a document is its own exactly where YAML reads it back. -/
theorem Version.oldDate_iff {path : PyStr} (hdoc : (path, v.entry) ∈ docsOf v.s) (date : PyStr) :
    oldDate unicode yaml (newlines (v.text unicode date .real)) = some date ↔ v.ReadsBack unicode yaml date := by
  have htext : newlines (v.text unicode date .real) = Frontmatter.emit unicode (fieldsFor v.s v.entry date) ++
      (py "\n" ++ newlines ((bodyFor unicode v.s v.info .real v.entry).getD [])) := by
    rw [Version.text, newlines_append (carriageReturn_notMem_headFor hdoc date), headFor, List.append_assoc]
  rw [htext, oldDate, Frontmatter.split_emit (Frontmatter.built_fieldsFor hdoc date).plain, Version.ReadsBack,
    Option.filter_eq_some_iff]
  cases yaml.load ((fieldsFor v.s v.entry date).flatMap (Frontmatter.fieldLines unicode)) with
  | none => simp
  | some value =>
      cases value with
      | obj members =>
          dsimp only
          rw [Option.bind_some, Option.bind_eq_some_iff]
          constructor
          · rintro ⟨⟨value, hvalue, htext⟩, hdate⟩
            refine ⟨hdate, members, rfl, ?_⟩
            cases value with
            | str text =>
                cases htext
                exact hvalue
            | _ => cases htext
          · rintro ⟨hdate, _, hmembers, hvalue⟩
            cases hmembers
            exact ⟨⟨_, hvalue, rfl⟩, hdate⟩
      | _ => simp

/-- The stamp of a document that is read. -/
theorem Version.bears_inj {path : PyStr} (hdoc : (path, v.entry) ∈ docsOf v.s) {bytes : List UInt8} {date date' : PyStr}
    (h : v.Bears unicode bytes date) (h' : v.Bears unicode bytes date') : date = date' := by
  have heq := h.symm.trans h'
  rw [Version.text, Version.text, newlines_append (carriageReturn_notMem_headFor hdoc date),
    newlines_append (carriageReturn_notMem_headFor hdoc date')] at heq
  exact (headFor_append_inj heq).1

/-- A write over a file: it keeps the date it reads, and the bytes if the text is the same, or writes the new date. -/
theorem writeMachine_cases {head : PyStr → PyStr} {body : Mode → Option PyStr} {f : Mode → PyStr}
    (hbody : ∀ mode, body mode = some (f mode))
    (h : writeMachine unicode yaml head body newDate (some bytes₁) = some bytes₂) :
    (∃ d, oldDate unicode yaml (readText bytes₁) = some d ∧
      (head d ++ f .real = readText bytes₁ ∧ bytes₂ = bytes₁ ∨
        head d ++ f .real ≠ readText bytes₁ ∧ (head d <+: readText bytes₁ ∧
          purposeConfined ((readText bytes₁).drop (head d).length) (f .absent) (f .marker) = true) ∧
            encodeUtf8 (head d ++ f .real) = some bytes₂)) ∨
    (∀ d, oldDate unicode yaml (readText bytes₁) = some d → ¬ (head d ++ f .real = readText bytes₁ ∨
      head d <+: readText bytes₁ ∧
        purposeConfined ((readText bytes₁).drop (head d).length) (f .absent) (f .marker) = true)) ∧
      encodeUtf8 (head newDate ++ f .real) = some bytes₂ := by
  simp only [writeMachine, hbody, Option.bind_eq_bind, Option.bind_some] at h
  by_cases hrefuses : yaml.refuses (readText bytes₁) = true
  · rw [if_pos hrefuses] at h
    cases h
  rw [if_neg hrefuses] at h
  cases hold : oldDate unicode yaml (readText bytes₁) with
  | none =>
      rw [hold] at h
      exact .inr ⟨nofun, h⟩
  | some d =>
      rw [hold] at h
      dsimp only at h
      by_cases hsame : head d ++ f .real = readText bytes₁
      · rw [if_pos hsame] at h
        exact .inl ⟨d, rfl, .inl ⟨hsame, (Option.some.inj h).symm⟩⟩
      rw [if_neg hsame] at h
      by_cases hconfined : head d <+: readText bytes₁ ∧
          purposeConfined ((readText bytes₁).drop (head d).length) (f .absent) (f .marker) = true
      · rw [if_pos hconfined.1, if_pos hconfined.2] at h
        exact .inl ⟨d, rfl, .inr ⟨hsame, hconfined, h⟩⟩
      · refine .inr ⟨fun d' hd' => ?_, ?_⟩
        · obtain rfl := Option.some.inj hd'
          exact not_or.mpr ⟨hsame, hconfined⟩
        · split at h
          case isTrue hhead => rwa [if_neg fun hall => hconfined ⟨hhead, hall⟩] at h
          case isFalse => exact h

/-- **What a write leaves** bears the date of the file where the file is the document of that date with some texts in its
slots. -/
theorem Version.bears_iff {path : PyStr} (hdoc : (path, v.entry) ∈ docsOf v.s)
    (h : writeMachine unicode yaml (headFor unicode v.s v.entry) (fun mode => bodyFor unicode v.s v.info mode v.entry)
      newDate (some bytes₁) = some bytes₂) (hdate : date ≠ newDate) :
    (v.Bears unicode bytes₂ date ↔ oldDate unicode yaml (readText bytes₁) = some date ∧
      IsFilling (readText bytes₁) (v.text unicode date .absent) (v.text unicode date .marker)) ∧
    (oldDate unicode yaml (readText bytes₁) = some date → v.text unicode date .real = readText bytes₁ →
      bytes₂ = bytes₁) := by
  obtain ⟨real, hreal, -⟩ := Option.bind_eq_some_iff.mp h
  obtain ⟨f, ls, hf, hbody⟩ := (v.hasLines unicode hdoc date).2 real hreal
  have htext : ∀ d mode, v.text unicode d mode = headFor unicode v.s v.entry d ++ f mode := by
    intro d mode
    rw [Version.text, hbody]
    rfl
  have hkeeps := hf.keeps_iff (ends_headFor unicode v.s v.entry date) (readText bytes₁)
  rw [← htext, ← htext, ← htext] at hkeeps
  have hwritten : ∀ {d}, encodeUtf8 (headFor unicode v.s v.entry d ++ f .real) = some bytes₂ →
      v.Bears unicode bytes₂ d := fun hd => by rw [Version.Bears, readText_of_encode hd, htext]
  rcases writeMachine_cases hbody h with ⟨d, hold, hcase⟩ | ⟨hnot, hbytes⟩
  · have hbears : v.Bears unicode bytes₂ d := by
      rcases hcase with ⟨hsame, rfl⟩ | ⟨-, -, hbytes⟩
      · rw [Version.Bears, htext, hsame, newlines_eq_self]
        exact carriageReturn_notMem_newlines _
      · exact hwritten hbytes
    by_cases hd : d = date
    · subst hd
      refine ⟨iff_of_true hbears ⟨hold, hkeeps.mp ?_⟩, fun _ hsame => ?_⟩
      · rcases hcase with ⟨hsame, -⟩ | ⟨-, hconfined, -⟩
        · exact .inl (htext d .real ▸ hsame)
        · exact .inr hconfined
      · rcases hcase with ⟨-, heq⟩ | ⟨hne, -⟩
        · exact heq
        · exact absurd (htext d .real ▸ hsame) hne
    · refine ⟨iff_of_false (fun h' => hd (Version.bears_inj hdoc hbears h')) fun h' => ?_, fun h' => ?_⟩
      · exact hd (Option.some.inj (hold.symm.trans h'.1))
      · exact absurd (Option.some.inj (hold.symm.trans h')) hd
  · refine ⟨iff_of_false (fun h' => hdate (Version.bears_inj hdoc h' (hwritten hbytes))) fun h' => ?_, fun h' hsame => ?_⟩
    · exact hnot date h'.1 (htext date .real ▸ hkeeps.mpr h'.2)
    · exact absurd (.inl (htext date .real ▸ hsame)) (hnot date h')

/-- The same facts: the file is a filling where they have no carriage return and each purpose has a slot. -/
theorem Version.isFilling_iff_of_same (unicode : Unicode) (date : PyStr) {path₁ path₂ : PyStr} (hdoc₁ : (path₁, v₁.entry) ∈ docsOf v₁.s)
    (hdoc₂ : (path₂, v₂.entry) ∈ docsOf v₂.s)
    (h : v₁.text unicode date .absent = v₂.text unicode date .absent) :
    IsFilling (newlines (v₁.text unicode date .real)) (v₂.text unicode date .absent) (v₂.text unicode date .marker) ↔
      carriageReturn ∉ v₂.text unicode date .absent ∧
        ∀ i : Nat, (lines (v₁.text unicode date .real))[i]? ≠ (lines (v₁.text unicode date .absent))[i]? →
          (lines (v₂.text unicode date .absent))[i]? ≠ (lines (v₂.text unicode date .marker))[i]? := by
  obtain ⟨ls₁, hls₁⟩ := (v₁.hasLines unicode hdoc₁ date).1
  obtain ⟨ls₂, hls₂⟩ := (v₂.hasLines unicode hdoc₂ date).1
  have hmap : ls₁.map (DocLine.text .absent) = ls₂.map (DocLine.text .absent) := by
    rw [← hls₁.eq, ← hls₂.eq, h]
  have hplain : carriageReturn ∉ v₂.text unicode date .absent →
      newlines (v₁.text unicode date .real) = v₁.text unicode date .real := by
    rw [← h, hls₁.carriageReturn_mem_iff, ← hls₁.carriageReturn_mem_iff .real]
    exact newlines_eq_self
  have hfills := fills_iff_of_same hmap
  rw [← hls₁.eq, ← hls₁.eq, ← hls₂.eq, ← hls₂.eq] at hfills
  constructor
  · intro hfilling
    have hreturn := hls₂.carriageReturn_notMem (carriageReturn_notMem_newlines _) hfilling .absent
    rw [hplain hreturn, hls₂.isFilling_iff] at hfilling
    exact ⟨hreturn, hfills.mp hfilling⟩
  · rintro ⟨hreturn, hslots⟩
    rw [hplain hreturn, hls₂.isFilling_iff]
    exact hfills.mpr hslots

/-- A document that is written over another version of it. -/
theorem Version.movesWithFacts_iff_isTold {path₁ path₂ : PyStr} (hdoc₁ : (path₁, v₁.entry) ∈ docsOf v₁.s)
    (hdoc₂ : (path₂, v₂.entry) ∈ docsOf v₂.s)
    (h : writeMachine unicode yaml (headFor unicode v₂.s v₂.entry)
      (fun mode => bodyFor unicode v₂.s v₂.info mode v₂.entry) newDate (some bytes₁) = some bytes₂)
    (hbears : v₁.Bears unicode bytes₁ date) (hdate : date ≠ newDate) :
    MovesWithFacts unicode v₁ v₂ date bytes₁ bytes₂ ↔ IsTold unicode yaml v₁ v₂ date := by
  obtain ⟨hkeep, huntouched⟩ := Version.bears_iff hdoc₂ h hdate
  rw [hbears, Version.oldDate_iff hdoc₁] at hkeep huntouched
  have hsame := fun heq => isFilling_iff_of_same unicode date hdoc₁ hdoc₂ heq
  constructor
  · rintro ⟨hstamp, -⟩
    refine ⟨fun heq => ?_, fun hne hreads hfilling => hne (hstamp.mp (hkeep.mpr ⟨hreads, hfilling⟩))⟩
    obtain ⟨hreads, hfilling⟩ := hkeep.mp (hstamp.mpr heq)
    exact ⟨hreads, (hsame heq).mp hfilling⟩
  · intro htold
    refine ⟨⟨fun hkept => ?_, fun heq => ?_⟩, fun heq hreal => ?_⟩
    · by_contra hne
      exact htold.differ hne (hkeep.mp hkept).1 (hkeep.mp hkept).2
    · exact hkeep.mpr ⟨(htold.same heq).1, (hsame heq).mpr (htold.same heq).2⟩
    · obtain ⟨ls₂, hls₂⟩ := (v₂.hasLines unicode hdoc₂ date).1
      have hreturn : carriageReturn ∉ v₂.text unicode date .real := by
        rw [hls₂.carriageReturn_mem_iff, ← hls₂.carriageReturn_mem_iff .absent]
        exact (htold.same heq).2.1
      exact huntouched (htold.same heq).1 (by rw [hreal, newlines_eq_self hreturn])

end

/-! ### A tree rendered again -/

section

variable {unicode : Unicode} {yaml : Yaml} {s : Snapshot} {files tree : Files}

theorem rendered_alone (h : renderTree unicode yaml [s] files = some tree) {plan : List (PyStr × DocEntry)}
    (hplan : expectedDocs s = some plan) {doc : PyStr × DocEntry} (hdoc : doc ∈ plan) :
    doc ∈ docsOf s ∧ tree doc.1 = docBytes unicode yaml s files doc ∧ ∃ bytes, tree doc.1 = some bytes := by
  obtain ⟨-, between, hbetween, hboot⟩ := renderTree_eq_some h
  have hsort : StableSort.sortOn Snapshot.system [s] = [s] := List.perm_singleton.mp sortOn_perm
  rw [hsort, List.foldlM_cons] at hbetween
  obtain ⟨finish, hfinish, hbetween⟩ := Option.bind_eq_some_iff.mp hbetween
  obtain rfl := Option.some.inj hbetween
  obtain ⟨rfl, -⟩ := expectedDocs_eq_some.mp hplan
  have hrendered := renderSystem_iff.mp hfinish
  have hwritten : tree doc.1 = docBytes unicode yaml s files doc := by
    rw [bootstrap_untouched hboot (isMachineFile_of_mem hdoc).2, hrendered.written doc hdoc]
  exact ⟨hdoc, hwritten, hwritten ▸ Option.isSome_iff_exists.mp (hrendered.isSome doc hdoc)⟩

/-- A document that was not there bears the date of the snapshot. -/
theorem bears_of_new (h : renderTree unicode yaml [s] files = some tree) {plan : List (PyStr × DocEntry)}
    (hplan : expectedDocs s = some plan) {doc : PyStr × DocEntry} (hdoc : doc ∈ plan) (hnew : files doc.1 = none)
    {bytes : List UInt8} (hbytes : tree doc.1 = some bytes) :
    Version.Bears unicode ⟨s, doc.2, humanInfo yaml files⟩ bytes (s.capturedAt.take 10) := by
  obtain ⟨-, hwritten, -⟩ := rendered_alone h hplan hdoc
  have hwrite := writeMachine_of_docBytes (hwritten.symm.trans hbytes)
  rw [hnew] at hwrite
  obtain ⟨real, hreal, hbytes⟩ := Option.bind_eq_some_iff.mp hwrite
  rw [Version.Bears, readText_of_encode hbytes, Version.text]
  exact congrArg (fun body : Option PyStr => newlines (headFor unicode s doc.2 (s.capturedAt.take 10) ++ body.getD []))
    hreal.symm

/-- **The stamp moves exactly with the facts** where the same facts have no carriage return and a slot for each purpose
there was, their date is read back, and facts that are not the same are no filling of each other. -/
theorem movesWithFacts_iff {s₁ s₂ : Snapshot} {tree₁ edited tree₂ : Files}
    (h₁ : renderTree unicode yaml [s₁] files = some tree₁)
    (hedited : ∀ path, Generated [s₁] path → edited path = tree₁ path)
    (h₂ : renderTree unicode yaml [s₂] edited = some tree₂) {plan₁ plan₂ : List (PyStr × DocEntry)}
    (hplan₁ : expectedDocs s₁ = some plan₁) (hplan₂ : expectedDocs s₂ = some plan₂) {doc₁ doc₂ : PyStr × DocEntry}
    (hdoc₁ : doc₁ ∈ plan₁) (hdoc₂ : doc₂ ∈ plan₂) (hpath : doc₁.1 = doc₂.1) {bytes₁ bytes₂ : List UInt8}
    (hbytes₁ : tree₁ doc₁.1 = some bytes₁) (hbytes₂ : tree₂ doc₂.1 = some bytes₂) {date : PyStr}
    (hstamp : Version.Bears unicode ⟨s₁, doc₁.2, humanInfo yaml files⟩ bytes₁ date)
    (hdate : date ≠ s₂.capturedAt.take 10) :
    MovesWithFacts unicode ⟨s₁, doc₁.2, humanInfo yaml files⟩ ⟨s₂, doc₂.2, humanInfo yaml edited⟩ date bytes₁ bytes₂ ↔
      IsTold unicode yaml ⟨s₁, doc₁.2, humanInfo yaml files⟩ ⟨s₂, doc₂.2, humanInfo yaml edited⟩ date := by
  obtain ⟨hmem₁, -⟩ := rendered_alone h₁ hplan₁ hdoc₁
  obtain ⟨hmem₂, hwritten, -⟩ := rendered_alone h₂ hplan₂ hdoc₂
  have hwrite := writeMachine_of_docBytes (hwritten.symm.trans hbytes₂)
  have hfile : edited doc₂.1 = some bytes₁ := by
    rw [← hpath, hedited _ ⟨s₁, List.mem_cons_self, (isMachineFile_of_mem hmem₁).2, (isMachineFile_of_mem hmem₁).1⟩,
      hbytes₁]
  rw [hfile] at hwrite
  exact Version.movesWithFacts_iff_isTold hmem₁ hmem₂ hwrite hstamp hdate

end

/-! ### The same snapshot a day later -/

/-- A loader of YAML 1.1 that knows the blocks of a plan. -/
def planYaml (s : Snapshot) (date : PyStr) : Yaml where
  load := fun text =>
    (((docsOf s).map fun doc => fieldsFor s doc.2 date).find? fun fields =>
      decide (fields.flatMap (Frontmatter.fieldLines asciiOnly) = text)).bind fun fields =>
        match Frontmatter.readBlock asciiOnly fields with
        | .value v => some v
        | _ => none
  raises := fun _ => false

def signupOf (description : Option PyStr) : SourceObject :=
  { signup with
    description := description
    schemaHash := py "sha256:73da317e1efac02a6763e53227b6b10bab47390a13a07d5a0429ca93ec40715e"
    schemaHash_pattern := by rw [py_ofList]; decide }

def events (description : Option PyStr) (day : String) : Snapshot :=
  { shop (py "shop") [signupOf description] (by decide) with capturedAt := py day ++ py "T00:00:00Z" }

/-- The document of the events. -/
def eventsDoc (description : Option PyStr) : PyStr × DocEntry :=
  (groupPath (py "shop") (py "events") ".schema.md", .group (py "events") [signupOf description])

def eventsPlan (description : Option PyStr) : List (PyStr × DocEntry) :=
  [eventsDoc description, (systemIndexPath (py "shop"), .systemIndex)]

theorem expectedDocs_events (description : Option PyStr) (day : String) :
    expectedDocs (events description day) = some (eventsPlan description) := rfl

def eventsYaml (description : Option PyStr) : Yaml := planYaml (events description "2026-07-10") (py "2026-07-10")

/-- Rendered on one day, and on the next. -/
def renderTwice (description : Option PyStr) : Option Files :=
  (renderTree asciiOnly (eventsYaml description) [events description "2026-07-10"] rootFiles).bind
    (renderTree asciiOnly (eventsYaml description) [events description "2026-07-11"])

/-- The document of the events as it was rendered in a tree. -/
def eventsVersion (description : Option PyStr) (day : String) (files : Files) : Version :=
  ⟨events description day, (eventsDoc description).2, humanInfo (eventsYaml description) files⟩

theorem exists_runs {description : Option PyStr} (h : (renderTwice description).isSome) :
    ∃ tree₁ tree₂ bytes₁ bytes₂,
      renderTree asciiOnly (eventsYaml description) [events description "2026-07-10"] rootFiles = some tree₁ ∧
      renderTree asciiOnly (eventsYaml description) [events description "2026-07-11"] tree₁ = some tree₂ ∧
      tree₁ (eventsDoc description).1 = some bytes₁ ∧ tree₂ (eventsDoc description).1 = some bytes₂ := by
  obtain ⟨tree₂, h⟩ := Option.isSome_iff_exists.mp h
  obtain ⟨tree₁, h₁, h₂⟩ := Option.bind_eq_some_iff.mp h
  obtain ⟨-, -, bytes₁, hbytes₁⟩ := rendered_alone h₁ (expectedDocs_events description _) List.mem_cons_self
  obtain ⟨-, -, bytes₂, hbytes₂⟩ := rendered_alone h₂ (expectedDocs_events description _) List.mem_cons_self
  exact ⟨tree₁, tree₂, bytes₁, bytes₂, h₁, h₂, hbytes₁, hbytes₂⟩

theorem headFor_congr {s s' : Snapshot} (hsystem : s.system = s'.system) (hmode : s.sourceMode = s'.sourceMode)
    (entry : DocEntry) (date : PyStr) : headFor asciiOnly s entry date = headFor asciiOnly s' entry date := by
  have hidentity : identityFields s entry = identityFields s' entry := by
    cases entry <;> simp only [identityFields, hsystem]
  rw [headFor, headFor, fieldsFor, fieldsFor, hidentity, hmode]

theorem groupBody_absent (unicode : Unicode) (system group : PyStr) (purposes : Frontmatter.Members)
    (members : List SourceObject) :
    groupBody unicode system group purposes .absent members = groupBody unicode system group [] .absent members := by
  unfold groupBody
  exact congrArg _ (List.flatMap_congr fun o _ => rfl)

/-- A rendering on the next day, of the same facts. -/
theorem facts_events (description : Option PyStr) (files files' : Files) (date : PyStr) :
    (eventsVersion description "2026-07-10" files).text asciiOnly date .absent =
      (eventsVersion description "2026-07-11" files').text asciiOnly date .absent := by
  have hsystem : ∀ day, (events description day).system = py "shop" := fun _ => rfl
  have hmode : ∀ day, (events description day).sourceMode = .live := fun _ => rfl
  have hhead : headFor asciiOnly (events description "2026-07-10") (eventsDoc description).2 date =
      headFor asciiOnly (events description "2026-07-11") (eventsDoc description).2 date :=
    headFor_congr ((hsystem _).trans (hsystem _).symm) ((hmode _).trans (hmode _).symm) _ _
  have hbody : ∀ day files, bodyFor asciiOnly (events description day) (humanInfo (eventsYaml description) files) .absent
      (eventsDoc description).2 = some (groupBody asciiOnly (py "shop") (py "events") [] .absent
        [signupOf description]) := by
    intro day files
    exact congrArg some (groupBody_absent _ _ _ _ _)
  simp only [Version.text, eventsVersion, hhead, hbody]

theorem stamp_events {description : Option PyStr} {tree : Files} {bytes : List UInt8}
    (h : renderTree asciiOnly (eventsYaml description) [events description "2026-07-10"] rootFiles = some tree)
    (hbytes : tree (eventsDoc description).1 = some bytes) :
    (eventsVersion description "2026-07-10" rootFiles).Bears asciiOnly bytes (py "2026-07-10") := by
  have hday : (events description "2026-07-10").capturedAt.take 10 = py "2026-07-10" :=
    (by decide : (py "2026-07-10" ++ py "T00:00:00Z").take 10 = py "2026-07-10")
  have hnone : rootFiles (groupPath (py "shop") (py "events") ".schema.md") = none := by decide
  have hbears := bears_of_new h (expectedDocs_events description _) List.mem_cons_self hnone hbytes
  rwa [hday] at hbears

example : (expectedDocs (events none "2026-07-10")).isSome := by decide +kernel

def twoLines : Option PyStr := some (py "one\r\ntwo")

example : twoLines.map newlines = some (py "one\ntwo") := by decide +kernel

theorem isSome_renderTwice : (renderTwice none).isSome ∧ (renderTwice twoLines).isSome := by
  have hgroups : py "\n## Groups\n\n| Group | Kind | Objects | Machine doc | Human doc | Status | Purpose |\n|---|---|---|---|---|---|---|\n" =
      _ := py_ofList _
  have hfacts : py "\x60\n\n| Fact | Value |\n|---|---|\n| Object | \x60" = _ := py_ofList _
  delta renderTwice renderTree renderSystem renderDoc bodyFor apiIndexBody groupBody memberSection
  rw [hgroups, hfacts]
  constructor <;> decide +kernel

theorem movesWithFacts_events : ∃ tree₁ tree₂ bytes₁ bytes₂,
    renderTree asciiOnly (eventsYaml none) [events none "2026-07-10"] rootFiles = some tree₁ ∧
      renderTree asciiOnly (eventsYaml none) [events none "2026-07-11"] tree₁ = some tree₂ ∧
        MovesWithFacts asciiOnly (eventsVersion none "2026-07-10" rootFiles) (eventsVersion none "2026-07-11" tree₁)
          (py "2026-07-10") bytes₁ bytes₂ := by
  have hplan := expectedDocs_events none
  obtain ⟨tree₁, tree₂, bytes₁, bytes₂, h₁, h₂, hbytes₁, hbytes₂⟩ :=
    exists_runs isSome_renderTwice.1
  have hstamp := stamp_events h₁ hbytes₁
  refine ⟨tree₁, tree₂, bytes₁, bytes₂, h₁, h₂, (movesWithFacts_iff h₁ (fun _ _ => rfl) h₂ (hplan _) (hplan _)
    List.mem_cons_self List.mem_cons_self rfl hbytes₁ hbytes₂ hstamp (by decide)).mpr ⟨fun _ => ?_, fun hne => ?_⟩⟩
  · have hplain : carriageReturn ∉ (eventsVersion none "2026-07-10" rootFiles).text asciiOnly (py "2026-07-10") .absent := by
      decide +kernel
    have hempty : (eventsVersion none "2026-07-10" rootFiles).text asciiOnly (py "2026-07-10") .real =
        (eventsVersion none "2026-07-10" rootFiles).text asciiOnly (py "2026-07-10") .absent := by decide +kernel
    have hread : oldDate asciiOnly (eventsYaml none) (newlines ((eventsVersion none "2026-07-10" rootFiles).text asciiOnly
        (py "2026-07-10") .real)) = some (py "2026-07-10") := by decide +kernel
    exact ⟨(Version.oldDate_iff (rendered_alone h₁ (hplan _) List.mem_cons_self).1 _).mp hread,
      fun hmem => hplain ((facts_events none rootFiles tree₁ _).symm ▸ hmem),
      fun i hi => absurd (congrArg (fun text => (lines text)[i]?) hempty) hi⟩
  · exact absurd (facts_events none rootFiles tree₁ _) hne

/-- A description with line breaks of two characters is restamped each day, with the same facts. -/
theorem not_movesWithFacts_lineBreaks : ∃ tree₁ tree₂ bytes₁ bytes₂,
    renderTree asciiOnly (eventsYaml twoLines) [events twoLines "2026-07-10"] rootFiles =
        some tree₁ ∧
      renderTree asciiOnly (eventsYaml twoLines) [events twoLines "2026-07-11"] tree₁ =
          some tree₂ ∧
        tree₁ (eventsDoc twoLines).1 = some bytes₁ ∧ tree₂ (eventsDoc twoLines).1 = some bytes₂ ∧
          ¬ MovesWithFacts asciiOnly (eventsVersion twoLines "2026-07-10" rootFiles)
            (eventsVersion twoLines "2026-07-11" tree₁) (py "2026-07-10") bytes₁ bytes₂ := by
  have hplan := expectedDocs_events twoLines
  obtain ⟨tree₁, tree₂, bytes₁, bytes₂, h₁, h₂, hbytes₁, hbytes₂⟩ :=
    exists_runs isSome_renderTwice.2
  refine ⟨tree₁, tree₂, bytes₁, bytes₂, h₁, h₂, hbytes₁, hbytes₂, fun hmoves => ?_⟩
  obtain ⟨hdoc, hwritten, -⟩ := rendered_alone h₂ (hplan _) List.mem_cons_self
  have hwrite := writeMachine_of_docBytes (hwritten.symm.trans hbytes₂)
  rw [hbytes₁] at hwrite
  have hstamp := stamp_events h₁ hbytes₁
  have htold : IsTold asciiOnly (eventsYaml twoLines) (eventsVersion twoLines "2026-07-10" rootFiles)
      (eventsVersion twoLines "2026-07-11" tree₁) (py "2026-07-10") :=
    (Version.movesWithFacts_iff_isTold (rendered_alone h₁ (hplan _) List.mem_cons_self).1 hdoc hwrite hstamp
      (by decide)).mp hmoves
  have hreturn : carriageReturn ∈ (eventsVersion twoLines "2026-07-10" rootFiles).text asciiOnly
      (py "2026-07-10") .absent := by decide +kernel
  have hsame := facts_events twoLines rootFiles tree₁ (py "2026-07-10")
  exact (htold.same hsame).2.1 (hsame ▸ hreturn)

end ContextLayer.Render
