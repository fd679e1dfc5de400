import ContextLayer.Lib.Lines
import ContextLayer.Lib.Pointwise
import ContextLayer.Proof.PyJson
import ContextLayer.Statuses

/-!
# All marks or none

A list of status writes is planned first and written then. Nothing can go wrong once writing has begun, where the documents are
different ones and the reasons can be encoded: what is written has the characters of a file that was read, and those of the reasons.
-/

namespace ContextLayer.Statuses

open Text PyText Frontmatter YamlScalars Render

/-! ### What can be encoded -/

def HasBytes (s : PyStr) : Prop := ∀ c ∈ s, c.isLone = false

theorem encodeUtf8_eq_some {s : PyStr} : (∃ bytes, encodeUtf8 s = some bytes) ↔ HasBytes s := by
  have hany : s.any CodePoint.isLone = true ↔ ¬ HasBytes s := by
    simp [HasBytes]
  rw [encodeUtf8]
  split
  · rename_i hlone
    exact iff_of_false (fun h => by obtain ⟨bytes, h⟩ := h; cases h) (hany.mp hlone)
  · rename_i hlone
    exact iff_of_true ⟨_, rfl⟩ (not_not.mp fun h => hlone (hany.mpr h))

theorem hasBytes_of_any {s : PyStr} (h : s.any CodePoint.isLone = false) : HasBytes s := by
  simpa [HasBytes] using h

theorem HasBytes.subset {s t : PyStr} (h : HasBytes s) (hsub : t ⊆ s) : HasBytes t := fun c hc => h c (hsub hc)

theorem hasBytes_append {s t : PyStr} : HasBytes (s ++ t) ↔ HasBytes s ∧ HasBytes t := List.forall_mem_append

theorem hasBytes_cons {c : CodePoint} {s : PyStr} : HasBytes (c :: s) ↔ c.isLone = false ∧ HasBytes s := List.forall_mem_cons

theorem hasBytes_of_decode {bytes : List UInt8} {s : PyStr} (h : decode bytes = some s) : HasBytes s := by
  rw [decode] at h
  split at h
  · rename_i hencode
    rw [← Option.some.inj h]
    exact encodeUtf8_eq_some.mp ⟨bytes, hencode⟩
  · cases h

theorem mem_newlinesAfter {c : CodePoint} {s : PyStr} {afterReturn : Bool} (h : c ∈ newlinesAfter afterReturn s) :
    c = newline ∨ c ∈ s := by
  induction s generalizing afterReturn with
  | nil => exact absurd h List.not_mem_nil
  | cons p rest ih =>
      have htail : c = newline ∨ c ∈ rest → c = newline ∨ c ∈ p :: rest := Or.imp_right (List.mem_cons_of_mem p)
      rw [newlinesAfter] at h
      split at h
      · rcases List.mem_cons.mp h with heq | hrest
        · exact .inl heq
        · exact htail (ih hrest)
      · split at h
        · exact htail (ih h)
        · rcases List.mem_cons.mp h with heq | hrest
          · exact .inr (heq ▸ List.mem_cons_self)
          · exact htail (ih hrest)

theorem isLone_newline : newline.isLone = false := by decide

theorem HasBytes.newlines {s : PyStr} (h : HasBytes s) : HasBytes (newlines s) := by
  intro c hc
  rcases mem_newlinesAfter hc with rfl | hmem
  · exact isLone_newline
  · exact h c hmem

/-! ### The edited lines -/

theorem HasBytes.linesOf {s l : PyStr} (h : HasBytes s) (hl : l ∈ linesOf s) : HasBytes l :=
  fun c hc => h c (Lines.mem_of_mem_splitOn (List.mem_of_mem_dropLast hl) hc)

theorem hasBytes_unlines {ls : List PyStr} (h : ∀ l ∈ ls, HasBytes l) : HasBytes (unlines ls) := by
  intro c hc
  obtain ⟨l, hl, hc⟩ := List.mem_flatMap.mp hc
  rcases List.mem_append.mp hc with hmem | hnewline
  · exact h l hl c hmem
  · rw [List.mem_singleton.mp hnewline]
    exact isLone_newline

theorem forall_mem_replaceFirst {P : PyStr → Prop} {p : PyStr → Bool} {f : PyStr → List PyStr} {ls : List PyStr}
    (h : ∀ l ∈ ls, P l) (hf : ∀ l ∈ ls, ∀ l' ∈ f l, P l') : ∀ l ∈ replaceFirst p f ls, P l := by
  induction ls with
  | nil => exact List.forall_mem_nil _
  | cons l ls ih =>
      rw [List.forall_mem_cons] at h hf
      rw [replaceFirst]
      split
      · exact List.forall_mem_append.mpr ⟨hf.1, h.2⟩
      · exact List.forall_mem_cons.mpr ⟨h.1, ih h.2 hf.2⟩

theorem forall_mem_replaceBlock {P : PyStr → Prop} {new ls : List PyStr} (h : ∀ l ∈ ls, P l) (hnew : ∀ l ∈ new, P l) :
    ∀ l ∈ replaceBlock new ls, P l := by
  induction ls with
  | nil => exact List.forall_mem_nil _
  | cons l ls ih =>
      rw [List.forall_mem_cons] at h
      rw [replaceBlock]
      split
      · exact List.forall_mem_append.mpr ⟨hnew, fun l hl => h.2 l ((List.dropWhile_sublist _).subset hl)⟩
      · exact List.forall_mem_cons.mpr ⟨h.1, ih h.2⟩

theorem hasBytes_expandEscape {c : CodePoint} {s : PyStr} (h : expandEscape c = some s) (hc : c.isLone = false) :
    HasBytes s := by
  have hall : (templateEscapes.all fun e => !isSurrogate e.2) = true := rfl
  have hescapes : ∀ e ∈ templateEscapes, (CodePoint.unit e.2).isLone = false := fun e he => by
    have hunit := List.all_eq_true.mp hall e he
    rw [Bool.not_eq_true'] at hunit
    exact hunit
  cases c with
  | pair high low hhigh hlow =>
      rw [← Option.some.inj h]
      exact hasBytes_of_any rfl
  | unit u =>
      rw [expandEscape] at h
      split at h
      · rename_i v hv
        rw [← Option.some.inj h]
        exact List.forall_mem_singleton.mpr (hescapes (u, v) (Dict.mem_of_get? hv))
      · split at h
        · cases h
        · rw [← Option.some.inj h]
          exact hasBytes_cons.mpr ⟨by decide, List.forall_mem_singleton.mpr hc⟩

theorem hasBytes_expand {template s : PyStr} (h : expand template = some s) (htemplate : HasBytes template) : HasBytes s := by
  fun_induction expand template generalizing s
  case case1 =>
      rw [← Option.some.inj h]
      exact htemplate
  case case2 => cases h
  case case3 =>
      rw [← Option.some.inj h]
      exact htemplate
  case case4 d rest ih =>
      obtain ⟨a, ha, h⟩ := Option.bind_eq_some_iff.mp h
      obtain ⟨b, hb, rfl⟩ := Option.map_eq_some_iff.mp h
      rw [hasBytes_cons, hasBytes_cons] at htemplate
      exact hasBytes_append.mpr ⟨hasBytes_expandEscape ha htemplate.2.1, ih hb htemplate.2.2⟩
  case case5 c d rest hc ih =>
      obtain ⟨b, hb, rfl⟩ := Option.map_eq_some_iff.mp h
      rw [hasBytes_cons] at htemplate
      exact hasBytes_cons.mpr ⟨htemplate.1, ih hb htemplate.2⟩

theorem hasBytes_pyQuote {s : PyStr} (h : s.any CodePoint.isLone = false) : HasBytes (pyQuote s) :=
  hasBytes_of_any ((any_isLone_pyQuote s).trans h)

theorem hasBytes_intercalate {sep : PyStr} {parts : List PyStr} (hsep : HasBytes sep) (h : ∀ part ∈ parts, HasBytes part) :
    HasBytes (sep.intercalate parts) := by
  induction parts with
  | nil => exact List.forall_mem_nil _
  | cons part parts ih =>
      rw [List.forall_mem_cons] at h
      cases parts with
      | nil =>
          rw [List.intercalate_singleton]
          exact h.1
      | cons next parts =>
          rw [List.intercalate_cons_of_ne_nil (List.cons_ne_nil _ _)]
          exact hasBytes_append.mpr ⟨hasBytes_append.mpr ⟨h.1, hsep⟩, ih h.2⟩

/-- The texts around the strings. -/
theorem hasBytes_punctuation : ∀ s ∈ [py "[", py "]", py ", ", py "object: ", py "change: ", py "detail: ", py "path: ",
    py "contamination: null", py "contamination: \x7b", py "\x7d", py "status: contaminated", py "status: stale"],
    s.any CodePoint.isLone = false := by decide

theorem hasBytes_contaminationText {r : Scan.Reason} (h : ∀ s ∈ strings r, s.any CodePoint.isLone = false) :
    HasBytes (contaminationText (some r)) := by
  have hquote : ∀ s ∈ strings r, HasBytes (pyQuote s) := fun s hs => hasBytes_pyQuote (h s hs)
  have hpunctuation := fun s hs => hasBytes_of_any (hasBytes_punctuation s hs)
  simp only [List.forall_mem_cons] at hpunctuation
  obtain ⟨hopen, hclose, hcomma, hobject, hchange, hdetail, hpath, -, hleft, hright, -⟩ := hpunctuation
  simp only [strings, List.forall_mem_append, List.forall_mem_cons] at hquote
  obtain ⟨⟨hqobject, hqchange, hqdetail, -⟩, hqpath⟩ := hquote
  have hlist : HasBytes (flowList r.path) := by
    refine hasBytes_append.mpr ⟨hasBytes_append.mpr ⟨hopen, hasBytes_intercalate hcomma ?_⟩, hclose⟩
    exact List.forall_mem_map.mpr hqpath
  refine hasBytes_append.mpr ⟨hasBytes_append.mpr ⟨hleft, hasBytes_intercalate hcomma ?_⟩, hright⟩
  rw [reasonEntries, List.forall_mem_append]
  constructor
  · simp only [List.forall_mem_cons, hasBytes_append]
    exact ⟨⟨hobject, hqobject⟩, ⟨hchange, hqchange⟩, ⟨hdetail, hqdetail⟩, List.forall_mem_nil _⟩
  · split
    · exact List.forall_mem_nil _
    · exact List.forall_mem_singleton.mpr (hasBytes_append.mpr ⟨hpath, hlist⟩)

theorem hasBytes_setContamination {text : PyStr} {ls new : List PyStr} (htext : HasBytes text) (h : ∀ l ∈ ls, HasBytes l)
    (hnew : setContamination text ls = some new) : ∀ l ∈ new, HasBytes l := by
  rw [setContamination] at hnew
  split at hnew
  · obtain ⟨expanded, hexpanded, rfl⟩ := Option.map_eq_some_iff.mp hnew
    have hbytes : HasBytes expanded :=
      hasBytes_expand hexpanded (hasBytes_append.mpr ⟨htext, List.forall_mem_singleton.mpr isLone_newline⟩)
    exact forall_mem_replaceBlock h fun l hl => hbytes.linesOf hl
  · rw [← Option.some.inj hnew]
    refine forall_mem_replaceFirst h fun l hl => ?_
    simp only [List.forall_mem_cons]
    exact ⟨h l hl, htext, List.forall_mem_nil _⟩

theorem hasBytes_setStatus {status : Mark} {ls : List PyStr} (h : ∀ l ∈ ls, HasBytes l) :
    ∀ l ∈ setStatus status ls, HasBytes l := by
  refine forall_mem_replaceFirst h fun l _ => List.forall_mem_singleton.mpr (hasBytes_of_any ?_)
  cases status with
  | contaminated => decide
  | stale => decide

theorem hasBytes_editLines {i : Instruction} (hi : i.contamination.Encodable) {ls new : List PyStr} (h : ∀ l ∈ ls, HasBytes l)
    (hnew : editLines i ls = some new) : ∀ l ∈ new, HasBytes l := by
  rw [editLines] at hnew
  split at hnew
  · rw [← Option.some.inj hnew]
    exact hasBytes_setStatus h
  · exact hasBytes_setContamination (hasBytes_of_any (by decide)) (hasBytes_setStatus h) hnew
  · rename_i r hr
    rw [hr] at hi
    exact hasBytes_setContamination (hasBytes_contaminationText hi) (hasBytes_setStatus h) hnew

/-! ### One instruction -/

/-- What is known of a text that was edited. -/
structure Edited (yaml : Yaml) (text : PyStr) (i : Instruction) (ls new : List PyStr) (rest edited : PyStr) : Prop where
  page : pageOf text = some (ls, rest)
  lines : editLines i ls = some new
  bytes : edited = fence ++ unlines new ++ rest
  reads : ∃ fm, split yaml.load edited = (some fm, (split yaml.load text).2) ∧
    (get fm "status").bind PyJson.asStr = some i.status.text ∧ carries fm i.contamination = true

theorem edited_of_applyInstruction {yaml : Yaml} {text edited : PyStr} {i : Instruction}
    (h : applyInstruction yaml text i = .edited edited) : ∃ ls new rest, Edited yaml text i ls new rest edited := by
  rw [applyInstruction] at h
  split at h
  · cases h
  · rename_i hfence
    cases hn : find? (py "\n---\n") (text.drop 3) with
    | none => rw [hn] at h; cases h
    | some n =>
        simp only [hn] at h
        split at h
        · cases h
        · cases hnew : editLines i (linesOf ((text.drop 4).take n)) with
          | none => rw [hnew] at h; cases h
          | some new =>
              simp only [hnew] at h
              split at h
              · cases h
              · split at h
                · cases h
                · rename_i fm body hsplit
                  split at h
                  · cases h
                  · rename_i hbody
                    split at h
                    · cases h
                    · rename_i hstatus
                      split at h
                      · cases h
                      · rename_i hcarries
                        obtain rfl := Applied.edited.inj h
                        refine ⟨_, new, _, ?_, hnew, rfl, fm, ?_, not_not.mp hstatus, Bool.not_eq_false _ ▸ hcarries⟩
                        · rw [pageOf, if_pos (not_not.mp hfence), hn, Option.map_some]
                        · rw [hsplit, not_not.mp hbody]

theorem hasBytes_of_applyInstruction {yaml : Yaml} {text edited : PyStr} {i : Instruction} (hi : i.contamination.Encodable)
    (htext : HasBytes text) (h : applyInstruction yaml text i = .edited edited) : HasBytes edited := by
  obtain ⟨ls, new, rest, hedited⟩ := edited_of_applyInstruction h
  have hpage := hedited.page
  rw [pageOf] at hpage
  split at hpage
  · obtain ⟨n, -, hpage⟩ := Option.map_eq_some_iff.mp hpage
    obtain ⟨rfl, rfl⟩ := Prod.mk.inj hpage
    rw [hedited.bytes, hasBytes_append, hasBytes_append]
    refine ⟨⟨hasBytes_of_any (by decide), hasBytes_unlines (hasBytes_editLines hi (fun l hl => ?_) hedited.lines)⟩, ?_⟩
    · exact (htext.subset fun c hc => List.mem_of_mem_drop (List.mem_of_mem_take hc)).linesOf hl
    · exact htext.subset (List.drop_subset _ _)
  · cases hpage

/-! ### All instructions -/

theorem planOne_eq_ok {yaml : Yaml} {files : Files} {i : Instruction} {planned : Option PyStr}
    (h : planOne yaml files i = .ok planned) : ∃ bytes s text, files i.doc = some bytes ∧ decode bytes = some s ∧
      applyInstruction yaml (newlines s) i = .edited text ∧ planned = if text = newlines s then none else some text := by
  rw [planOne] at h
  cases hbytes : files i.doc with
  | none => rw [hbytes] at h; cases h
  | some bytes =>
      simp only [hbytes] at h
      cases hs : decode bytes with
      | none => rw [hs] at h; cases h
      | some s =>
          simp only [hs] at h
          cases happly : applyInstruction yaml (newlines s) i with
          | edited text =>
              rw [happly] at h
              exact ⟨bytes, s, text, rfl, hs, happly, (Except.ok.inj h).symm⟩
          | refused why => rw [happly] at h; cases h
          | raises => rw [happly] at h; cases h

theorem planAll_eq_ok {yaml : Yaml} {files : Files} {is : List Instruction} {plans : List (PyStr × Option PyStr)}
    (h : planAll yaml files is = .ok plans) :
    List.Forall₂ (fun i plan => plan.1 = i.doc ∧ planOne yaml files i = .ok plan.2) is plans := by
  induction is generalizing plans with
  | nil =>
      rw [planAll] at h
      exact Except.ok.inj h ▸ .nil
  | cons i is ih =>
      rw [planAll] at h
      obtain ⟨text, htext, h⟩ := Pointwise.bind_eq_ok.mp h
      obtain ⟨rest, hrest, h⟩ := Pointwise.bind_eq_ok.mp h
      exact Except.ok.inj h ▸ .cons ⟨rfl, htext⟩ (ih hrest)

theorem writeAll_eq {planned : List (PyStr × PyStr)} (hdocs : (planned.map Prod.fst).Nodup)
    (hbytes : ∀ p ∈ planned, HasBytes p.2) (files : Files) : ∃ files', writeAll files planned = (files', true) ∧
      (∀ p ∈ planned, files' p.1 = encodeUtf8 p.2) ∧ ∀ path, path ∉ planned.map Prod.fst → files' path = files path := by
  induction planned generalizing files with
  | nil => exact ⟨files, rfl, List.forall_mem_nil _, fun _ _ => rfl⟩
  | cons p planned ih =>
      rw [List.forall_mem_cons] at hbytes
      rw [List.map_cons, List.nodup_cons] at hdocs
      obtain ⟨bytes, hencode⟩ := encodeUtf8_eq_some.mpr hbytes.1
      obtain ⟨files', hwrite, hplanned, hother⟩ := ih hdocs.2 hbytes.2 (withDoc files p.1 bytes)
      refine ⟨files', ?_, List.forall_mem_cons.mpr ⟨?_, hplanned⟩, fun path hpath => ?_⟩
      · rw [writeAll, writeText, hencode]
        exact hwrite
      · rw [hother p.1 hdocs.1, hencode, withDoc, if_pos rfl]
      · rw [List.map_cons, List.mem_cons, not_or] at hpath
        rw [hother path hpath.2, withDoc, if_neg hpath.1]

/-- **All marks or none.** Of different documents all instructions are applied, each to what its document was, or no file has
changed. -/
theorem applyAll_all_or_none (yaml : Yaml) (files : Files) (is : List Instruction) (hdocs : (is.map Instruction.doc).Nodup)
    (hreasons : ∀ i ∈ is, i.contamination.Encodable) : AllOrNothing yaml files is := by
  cases hplans : planAll yaml files is with
  | error failure =>
      left
      refine ⟨failure, ?_⟩
      rw [applyAll, hplans]
  | ok plans =>
      right
      have hforall := planAll_eq_ok hplans
      have hdocs' : plans.map Prod.fst = is.map Instruction.doc :=
        (Pointwise.map_eq_of_forall₂ hforall fun _ _ _ h => h.1.symm).symm
      have hsublist := Pointwise.map_filterMap_sublist (l := plans) (g := Prod.fst) (k := Prod.fst)
        (h := fun plan : PyStr × Option PyStr => plan.2.map (Prod.mk plan.1)) fun plan p h => by
          obtain ⟨text, -, rfl⟩ := Option.map_eq_some_iff.mp h
          rfl
      have hplanned : ∀ p ∈ plans.filterMap (fun plan => plan.2.map (Prod.mk plan.1)), HasBytes p.2 := by
        intro p hp
        obtain ⟨plan, hplan, hp⟩ := List.mem_filterMap.mp hp
        obtain ⟨text, htext, rfl⟩ := Option.map_eq_some_iff.mp hp
        obtain ⟨i, hi, -, hone⟩ := Pointwise.exists_of_mem_forall₂ hforall hplan
        obtain ⟨bytes, s, edited, -, hs, happly, hplan⟩ := planOne_eq_ok hone
        rw [htext] at hplan
        split at hplan
        · cases hplan
        · rw [Option.some.inj hplan]
          exact hasBytes_of_applyInstruction (hreasons i hi) (hasBytes_of_decode hs).newlines happly
      obtain ⟨files', hwrite, hwritten, hother⟩ := writeAll_eq ((hdocs' ▸ hdocs).sublist hsublist) hplanned files
      refine ⟨files', _, by rw [applyAll, hplans]; dsimp only; rw [hwrite], fun i hi => ?_, fun path hpath => ?_⟩
      · obtain ⟨plan, hplan, hdoc, hone⟩ := Pointwise.exists_of_mem_left_forall₂ hforall hi
        obtain ⟨bytes, s, text, hbytes, hs, happly, htext⟩ := planOne_eq_ok hone
        refine ⟨bytes, s, text, hbytes, hs, happly, ?_⟩
        split at htext
        · rename_i hsame
          rw [if_pos hsame, ← hbytes]
          refine hother i.doc fun hmem => ?_
          -- the plan of the document is to leave it
          obtain ⟨p, hp, hpdoc⟩ := List.mem_map.mp hmem
          obtain ⟨plan', hplan', hp⟩ := List.mem_filterMap.mp hp
          obtain ⟨text', htext', rfl⟩ := Option.map_eq_some_iff.mp hp
          obtain rfl : plan' = plan := List.inj_on_of_nodup_map (hdocs' ▸ hdocs) hplan' hplan (hpdoc.trans hdoc.symm)
          rw [htext] at htext'
          cases htext'
        · rename_i hchanged
          rw [if_neg hchanged, ← hdoc]
          exact hwritten (plan.1, text) (List.mem_filterMap.mpr ⟨plan, hplan, by rw [htext]; rfl⟩)
      · refine hother path fun hmem => ?_
        have hpath' := hsublist.subset hmem
        rw [hdocs'] at hpath'
        obtain ⟨i, hi, hdoc⟩ := List.mem_map.mp hpath'
        exact hpath i hi hdoc

/-- A loader that knows two blocks. -/
def twoBlocks : Yaml where
  load block :=
    if block = py "status: draft\n" then some (.obj [(py "status", .str (py "draft"))])
    else if block = py "status: stale\n" then some (.obj [(py "status", .str (py "stale"))])
    else none
  raises _ := false

def draft : PyStr := py "---\nstatus: draft\n---\nText\n"

def markStale (doc : PyStr) : Instruction := ⟨doc, .stale, .keep⟩

theorem applyAll_all_or_none_draft :
    AllOrNothing twoBlocks (fun _ => encodeUtf8 draft) [markStale (py "a.md"), markStale (py "b.md")] :=
  applyAll_all_or_none _ _ _ (by decide)
    (List.forall_mem_cons.mpr ⟨trivial, List.forall_mem_cons.mpr ⟨trivial, List.forall_mem_nil _⟩⟩)

/-! ### What a mark leaves -/

theorem prefix_drop_of_find? {needle text : PyStr} {n : Nat} (h : find? needle text = some n) : needle <+: text.drop n := by
  induction text generalizing n with
  | nil =>
      rw [find?] at h
      split at h
      · rename_i hneedle
        rw [hneedle]
        exact List.nil_prefix
      · cases h
  | cons p text ih =>
      rw [find?] at h
      split at h
      · rename_i hprefix
        rw [← Option.some.inj h]
        exact hprefix
      · obtain ⟨m, hm, rfl⟩ := Option.map_eq_some_iff.mp h
        exact ih hm

/-- The lines of the page make the page, and behind them is the closing fence. -/
theorem eq_of_pageOf {text rest : PyStr} {ls : List PyStr} (h : pageOf text = some (ls, rest)) :
    text = fence ++ unlines ls ++ rest ∧ fence <+: rest := by
  rw [pageOf] at h
  split at h
  · rename_i hfence
    obtain ⟨n, hn, h⟩ := Option.map_eq_some_iff.mp h
    obtain ⟨rfl, rfl⟩ := Prod.mk.inj h
    obtain ⟨body, rfl⟩ := hfence
    obtain ⟨behind, hbehind⟩ := prefix_drop_of_find? hn
    have hdrop3 : (fence ++ body).drop 3 = newline :: body := rfl
    have hdrop4 : (fence ++ body).drop 4 = body := rfl
    have hdropn : (fence ++ body).drop (n + 4) = body.drop n := by
      rw [Nat.add_comm, ← List.drop_drop, hdrop4]
    rw [hdrop3] at hbehind
    rw [hdrop4, hdropn]
    have hrest : fence ++ behind = body.drop n := congrArg List.tail hbehind |>.trans (List.tail_drop ..)
    refine ⟨?_, hrest ▸ List.prefix_append _ _⟩
    have hlines : unlines (linesOf (body.take n)) = body.take n := by
      cases n with
      | zero => rfl
      | succ n =>
          have hget : body[n]? = some newline := by
            have hhead := congrArg List.head? hbehind
            rw [List.head?_drop] at hhead
            exact hhead.symm
          rw [List.take_add_one, hget, Option.toList_some, linesOf, Lines.splitOn_concat, List.dropLast_concat]
          exact Lines.flatMap_splitOn _
    rw [hlines, List.append_assoc, List.take_append_drop]
  · cases h

/-- The lines of neither mark. -/
def keptLines (ls : List PyStr) : List PyStr := (replaceBlock [] ls).eraseP isStatusLine

/-- The lines of the marks, as they are asked for. -/
def markLines (i : Instruction) : List PyStr :=
  (py "status: " ++ i.status.text) ::
    match i.contamination with
    | .keep => []
    | .clear => [contaminationText none]
    | .set r => contaminationText (some r) :: linesOf ((expand (contaminationText (some r) ++ [newline])).getD [])

theorem eraseP_sublist_replaceFirst (p : PyStr → Bool) (f : PyStr → List PyStr) (ls : List PyStr) :
    (ls.eraseP p).Sublist (replaceFirst p f ls) := by
  induction ls with
  | nil => exact List.Sublist.refl _
  | cons l ls ih =>
      rw [replaceFirst, List.eraseP_cons]
      cases hl : p l with
      | true => exact List.sublist_append_right _ _
      | false => exact ih.cons_cons l

theorem replaceBlock_nil_sublist (new ls : List PyStr) : (replaceBlock [] ls).Sublist (replaceBlock new ls) := by
  induction ls with
  | nil => exact List.Sublist.refl _
  | cons l ls ih =>
      rw [replaceBlock, replaceBlock]
      split
      · exact List.sublist_append_right _ _
      · exact ih.cons_cons l

theorem replaceBlock_nil_sublist_self (ls : List PyStr) : (replaceBlock [] ls).Sublist ls := by
  induction ls with
  | nil => exact List.Sublist.refl _
  | cons l ls ih =>
      rw [replaceBlock]
      split
      · exact (List.dropWhile_sublist _).cons l
      · exact ih.cons_cons l

/-- The line of a mark. -/
structure IsStatus (line : PyStr) : Prop where
  status : isStatusLine line = true
  contamination : isContaminationLine line = false
  indented : isIndented line = false

theorem isStatus_of_isStatusLine {l : PyStr} (h : isStatusLine l = true) : IsStatus l := by
  refine ⟨h, ?_, ?_⟩
  all_goals
    obtain ⟨rest, rfl⟩ := of_decide_eq_true h
    rfl

theorem isStatus_setStatus (status : Mark) : IsStatus (py "status: " ++ status.text) :=
  isStatus_of_isStatusLine (decide_eq_true (by cases status <;> decide))

theorem eraseP_setStatus (status : Mark) (ls : List PyStr) :
    (setStatus status ls).eraseP isStatusLine = ls.eraseP isStatusLine := by
  induction ls with
  | nil => rfl
  | cons l ls ih =>
      rw [setStatus, replaceFirst]
      cases hl : isStatusLine l with
      | true =>
          rw [if_pos rfl, List.singleton_append, List.eraseP_cons_of_pos (isStatus_setStatus status).status,
            List.eraseP_cons_of_pos hl]
      | false =>
          have hl' : ¬ isStatusLine l = true := by rw [hl]; exact Bool.false_ne_true
          rw [if_neg Bool.false_ne_true, List.eraseP_cons_of_neg hl', List.eraseP_cons_of_neg hl', ← ih]
          rfl

theorem dropWhile_setStatus (status : Mark) (ls : List PyStr) :
    (setStatus status ls).dropWhile isIndented = setStatus status (ls.dropWhile isIndented) := by
  induction ls with
  | nil => rfl
  | cons l ls ih =>
      cases hl : isStatusLine l with
      | true =>
          have hindented := (isStatus_of_isStatusLine hl).indented
          simp [setStatus, replaceFirst, hl, hindented, (isStatus_setStatus status).indented]
      | false =>
          cases hindented : isIndented l with
          | true => simpa [setStatus, replaceFirst, hl, hindented] using ih
          | false => simp [setStatus, replaceFirst, hl, hindented]

/-- The block is found where it was. -/
theorem replaceBlock_setStatus (status : Mark) (ls : List PyStr) :
    replaceBlock [] (setStatus status ls) = setStatus status (replaceBlock [] ls) := by
  induction ls with
  | nil => rfl
  | cons l ls ih =>
      cases hl : isStatusLine l with
      | true =>
          have hcontamination := (isStatus_of_isStatusLine hl).contamination
          simp [setStatus, replaceFirst, replaceBlock, hl, hcontamination, (isStatus_setStatus status).contamination]
      | false =>
          cases hcontamination : isContaminationLine l with
          | true => simpa [setStatus, replaceFirst, replaceBlock, hl, hcontamination] using dropWhile_setStatus status ls
          | false => simpa [setStatus, replaceFirst, replaceBlock, hl, hcontamination] using ih

theorem keptLines_setStatus (status : Mark) (ls : List PyStr) : keptLines (setStatus status ls) = keptLines ls := by
  rw [keptLines, replaceBlock_setStatus, eraseP_setStatus, keptLines]

theorem keptLines_sublist_eraseP (ls : List PyStr) : (keptLines ls).Sublist (ls.eraseP isStatusLine) :=
  (replaceBlock_nil_sublist_self ls).eraseP

theorem keptLines_sublist_setContamination {text : PyStr} {ls new : List PyStr} (h : setContamination text ls = some new) :
    (keptLines ls).Sublist new := by
  rw [setContamination] at h
  split at h
  · obtain ⟨expanded, -, rfl⟩ := Option.map_eq_some_iff.mp h
    exact List.eraseP_sublist.trans (replaceBlock_nil_sublist _ ls)
  · rw [← Option.some.inj h]
    exact (keptLines_sublist_eraseP ls).trans (eraseP_sublist_replaceFirst _ _ ls)

theorem keptLines_sublist_editLines {i : Instruction} {ls new : List PyStr} (h : editLines i ls = some new) :
    (keptLines ls).Sublist new := by
  rw [editLines] at h
  split at h
  · rw [← Option.some.inj h]
    exact (keptLines_sublist_eraseP ls).trans (eraseP_sublist_replaceFirst _ _ ls)
  · rw [← keptLines_setStatus i.status]
    exact keptLines_sublist_setContamination h
  · rw [← keptLines_setStatus i.status]
    exact keptLines_sublist_setContamination h

theorem mem_setContamination {P : PyStr → Prop} {text : PyStr} {ls new : List PyStr} (hls : ∀ l ∈ ls, P l) (htext : P text)
    (hexpanded : ∀ l ∈ linesOf ((expand (text ++ [newline])).getD []), P l) (h : setContamination text ls = some new) :
    ∀ l ∈ new, P l := by
  rw [setContamination] at h
  split at h
  · obtain ⟨expanded, hexpand, rfl⟩ := Option.map_eq_some_iff.mp h
    rw [hexpand, Option.getD_some] at hexpanded
    exact forall_mem_replaceBlock hls hexpanded
  · rw [← Option.some.inj h]
    refine forall_mem_replaceFirst hls fun l hl => ?_
    simp only [List.forall_mem_cons]
    exact ⟨hls l hl, htext, List.forall_mem_nil _⟩

/-- No line is made up. -/
theorem mem_editLines {i : Instruction} {ls new : List PyStr} (h : editLines i ls = some new) :
    ∀ l ∈ new, l ∈ ls ∨ l ∈ markLines i := by
  have hstatus : ∀ l ∈ setStatus i.status ls, l ∈ ls ∨ l ∈ markLines i :=
    forall_mem_replaceFirst (fun _ => .inl) fun _ _ => List.forall_mem_singleton.mpr (.inr List.mem_cons_self)
  rw [editLines] at h
  rw [markLines] at hstatus ⊢
  cases hedit : i.contamination with
  | keep =>
      rw [hedit] at h hstatus
      rw [← Option.some.inj h]
      exact hstatus
  | clear =>
      rw [hedit] at h hstatus
      have hexpand : linesOf ((expand (contaminationText none ++ [newline])).getD []) = [contaminationText none] := by decide
      exact mem_setContamination hstatus (.inr (by simp)) (fun l hl => .inr (List.mem_cons_of_mem _ (hexpand ▸ hl))) h
  | set r =>
      rw [hedit] at h hstatus
      exact mem_setContamination hstatus (.inr (by simp)) (fun l hl => .inr (by simp [hl])) h

/-- The draft with its mark. -/
def stale : PyStr := py "---\nstatus: stale\n---\nText\n"

end ContextLayer.Statuses
