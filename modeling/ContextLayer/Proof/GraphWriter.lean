import ContextLayer.GraphWriter
import ContextLayer.Lib.Pointwise
import ContextLayer.Proof.Loads

/-!
# What the write of the graph leaves

The printed graph is read back as the graph, so a file that holds it is found equal to it. What is found equal need not
be the graph, for Python's equality does not tell `true` from `1`; and what is JSON need not be an object.
-/

namespace ContextLayer.GraphWriter

open Text PyText PyJson Statuses StableSort

/-! ### Equality -/

theorem pyEqItems_iff {a b : List PyJson} : pyEqItems a b = true ↔ List.Forall₂ (fun v w => v.pyEq w = true) a b := by
  induction a generalizing b with
  | nil => cases b <;> simp [pyEqItems]
  | cons v rest ih =>
      cases b with
      | nil => simp [pyEqItems]
      | cons w rest' => rw [pyEqItems, Bool.and_eq_true, ih, List.forall₂_cons]

theorem pyEqMembers_iff {a b : List (PyStr × PyJson)} :
    pyEqMembers a b = true ↔ ∀ m ∈ a, ∃ w, Dict.get? b m.1 = some w ∧ m.2.pyEq w = true := by
  induction a with
  | nil => exact iff_of_true rfl (List.forall_mem_nil _)
  | cons m rest ih =>
      rw [pyEqMembers, Bool.and_eq_true, ih, List.forall_mem_cons]
      cases Dict.get? b m.1 <;> simp

/-- The same JSON is equal for Python. -/
theorem pyEq_of_sortKeys {v w : PyJson} (hw : w.Distinct) (h : v.sortKeys = w.sortKeys) : v.pyEq w = true := by
  induction v using PyJson.induction generalizing w with
  | null | bool | number | nonFinite | str =>
      cases w with
      | arr | obj => cases h
      | _ => cases h <;> simp [pyEq, asNumber]
  | arr items ih =>
      cases w with
      | arr items' =>
          rw [sortKeys_arr, sortKeys_arr, arr.injEq] at h
          rw [pyEq, pyEqItems_iff]
          rw [← List.forall₂_eq_eq_eq, List.forall₂_map_left_iff, List.forall₂_map_right_iff] at h
          exact Pointwise.forall₂_mono h fun v hv w hw' heq => ih v hv (distinct_arr.mp hw w hw') heq
      | _ => cases h
  | obj members ih =>
      cases w with
      | obj members' =>
          obtain ⟨hnodup, hvalues⟩ := distinct_obj.mp hw
          rw [sortKeys_obj, sortKeys_obj, obj.injEq] at h
          have hperm : (members.map fun m => (m.1, m.2.sortKeys)).Perm (members'.map fun m => (m.1, m.2.sortKeys)) :=
            sortOn_perm.symm.trans ((List.Perm.of_eq h).trans sortOn_perm)
          have hlength := hperm.length_eq
          rw [List.length_map, List.length_map] at hlength
          rw [pyEq, hlength, beq_self_eq_true, Bool.true_and, pyEqMembers_iff]
          intro m hm
          obtain ⟨m', hm', heq⟩ := List.mem_map.mp (hperm.subset (List.mem_map_of_mem hm))
          obtain ⟨hkey, hvalue⟩ := Prod.mk.inj heq
          refine ⟨m'.2, Dict.get?_of_mem hnodup (hkey ▸ hm'), ih m hm (hvalues m' hm') hvalue.symm⟩
      | _ => cases h

/-! ### Without the stamp -/

/-- Without the stamp, the graph is what was printed of it. -/
theorem sameModulo_printed {graph : GraphDict} (hdistinct : (PyJson.obj graph).Distinct) :
    SameModulo (printed graph) graph := by
  have hpop : popGeneratedAt (printed graph) =
      some (.obj ((orderedMembers graph).filter fun m => decide (m.1 ≠ py "generated_at"))) := by
    rw [printed, sortKeys_eq_orderedMembers]
    rfl
  refine ⟨_, _, hpop, rfl, sortKeys_obj_perm ?_ ?_⟩
  · exact (distinct_obj.mp hdistinct).1.sublist (List.filter_sublist.map _)
  · have hfilter : ((orderedMembers graph).filter fun m => decide (m.1 ≠ py "generated_at")).Perm
        ((graph.filter fun m => decide (m.1 ≠ py "generated_at")).map fun m => (m.1, m.2.sortKeys)) := by
      refine ((orderedMembers_perm graph).filter _).trans (.of_eq ?_)
      rw [List.filter_map]
      rfl
    refine (hfilter.map _).trans (.of_eq ?_)
    rw [List.map_map]
    exact List.map_congr_left fun m _ => by rw [Function.comp_apply, sortKeys_sortKeys]

theorem distinct_popGeneratedAt {v w : PyJson} (hv : v.Distinct) (h : popGeneratedAt v = some w) : w.Distinct := by
  cases v with
  | obj members =>
      cases h
      obtain ⟨hnodup, hvalues⟩ := distinct_obj.mp hv
      exact distinct_obj.mpr
        ⟨hnodup.sublist (List.filter_sublist.map _), fun m hm => hvalues m (List.mem_of_mem_filter hm)⟩
  | _ => cases h

/-- What is the graph but for the stamp passes for it. -/
theorem equalWithout_of_sameModulo {old : PyJson} {graph : GraphDict} (hdistinct : (PyJson.obj graph).Distinct)
    (h : SameModulo old graph) : equalWithout old (printed graph) = some true := by
  obtain ⟨v, w, hv, hw, heq⟩ := h
  obtain ⟨v', w', hv', hw', heq'⟩ := sameModulo_printed hdistinct
  obtain rfl := Option.some.inj (hw.symm.trans hw')
  rw [equalWithout, hv, hv']
  exact congrArg some (pyEq_of_sortKeys (distinct_popGeneratedAt hdistinct.sortKeys hv') (heq.trans heq'.symm))

theorem equalWithout_eq_none {old : PyJson} (graph : GraphDict) :
    equalWithout old (printed graph) = none ↔ ∀ members, old ≠ .obj members := by
  cases old with
  | obj members => exact iff_of_false (fun h => nomatch h) fun h => h members rfl
  | null | bool | number | nonFinite | str | arr => exact iff_of_true rfl fun _ heq => nomatch heq

/-! ### Reading what was written -/

section

variable {number : PyStr → Option (PyJson × PyStr)} {file : Option (List UInt8)} {graph : GraphDict}

theorem carriageReturn_notMem_indentation (level : Nat) : carriageReturn ∉ indentation level := by
  rw [indentation, List.mem_cons, not_or]
  exact ⟨by decide, fun h => absurd (List.mem_replicate.mp h).2 (by decide)⟩

theorem carriageReturn_notMem_itemsText {level : Nat} {items : List PyJson}
    (h : ∀ v ∈ items, carriageReturn ∉ dumpsIndented (level + 1) v) : carriageReturn ∉ itemsText level items := by
  induction items with
  | nil =>
      rw [itemsText, List.mem_append, not_or]
      exact ⟨carriageReturn_notMem_indentation level, by decide⟩
  | cons v rest ih =>
      rw [List.forall_mem_cons] at h
      simp only [itemsText, List.mem_cons, List.mem_append, not_or]
      exact ⟨by decide, carriageReturn_notMem_indentation _, h.1, ih h.2⟩

theorem carriageReturn_notMem_memberLine {level : Nat} {m : PyStr × PyJson}
    (h : carriageReturn ∉ dumpsIndented (level + 1) m.2) : carriageReturn ∉ memberLine level m := by
  have hkey : carriageReturn ∉ pyQuote m.1 := fun hmem => absurd (le_of_mem_pyQuote hmem) (by decide)
  rw [memberLine, List.mem_append, List.mem_append, not_or, not_or]
  exact ⟨hkey, by decide, h⟩

theorem carriageReturn_notMem_membersText {level : Nat} {members : List (PyStr × PyJson)}
    (h : ∀ m ∈ members, carriageReturn ∉ dumpsIndented (level + 1) m.2) : carriageReturn ∉ membersText level members := by
  induction members with
  | nil =>
      rw [membersText, List.mem_append, not_or]
      exact ⟨carriageReturn_notMem_indentation level, by decide⟩
  | cons m rest ih =>
      rw [List.forall_mem_cons] at h
      simp only [membersText, List.mem_cons, List.mem_append, not_or]
      exact ⟨by decide, carriageReturn_notMem_indentation _, carriageReturn_notMem_memberLine h.1, ih h.2⟩

theorem carriageReturn_notMem_dumpsIndented (v : PyJson) (level : Nat) : carriageReturn ∉ dumpsIndented level v := by
  induction v using PyJson.induction generalizing level with
  | null =>
      rw [dumpsIndented]
      decide
  | bool b => cases b <;> rw [dumpsIndented] <;> decide
  | nonFinite f => cases f <;> rw [dumpsIndented] <;> decide
  | number n =>
      intro hmem
      obtain ⟨u, hu, heq⟩ := List.mem_map.mp hmem
      exact unit_ne_of_isNumeric (n.text.numeric u hu) (by decide) heq
  | str s => exact fun hmem => absurd (le_of_mem_pyQuote hmem) (by decide)
  | arr items ih =>
      cases items with
      | nil => exact (by decide : carriageReturn ∉ py "[]")
      | cons v rest =>
          have hv := ih v List.mem_cons_self (level + 1)
          have hrest := carriageReturn_notMem_itemsText fun w hw => ih w (List.mem_cons_of_mem _ hw) (level + 1)
          simp only [dumpsIndented_arr, List.mem_cons, List.mem_append, not_or]
          exact ⟨by decide, carriageReturn_notMem_indentation _, hv, hrest⟩
  | obj members ih =>
      cases members with
      | nil => exact (by decide : carriageReturn ∉ py "\x7b\x7d")
      | cons m rest =>
          have hm := carriageReturn_notMem_memberLine (ih m List.mem_cons_self (level + 1))
          have hrest := carriageReturn_notMem_membersText fun w hw => ih w (List.mem_cons_of_mem _ hw) (level + 1)
          simp only [dumpsIndented_obj, List.mem_cons, List.mem_append, not_or]
          exact ⟨by decide, carriageReturn_notMem_indentation _, hm, hrest⟩

theorem carriageReturn_notMem_renderGraph (graph : GraphDict) : carriageReturn ∉ renderGraph graph := by
  rw [renderGraph, List.mem_append, not_or]
  exact ⟨carriageReturn_notMem_dumpsIndented _ 0, by decide⟩

theorem loads_renderGraph (hdistinct : (PyJson.obj graph).Distinct) (hnumbers : (PyJson.obj graph).NumbersRead number) :
    loads number (renderGraph graph) = some (printed graph) :=
  loads_dumpsIndented hdistinct.sortKeys hnumbers.sortKeys

theorem decode_of_encode {s : PyStr} {bytes : List UInt8} (h : encodeUtf8 s = some bytes) : decode bytes = some s := by
  rw [decode, codePoints_of_encode h, if_pos h]

theorem encode_of_decode {s : PyStr} {bytes : List UInt8} (h : decode bytes = some s) : encodeUtf8 s = some bytes := by
  rw [decode] at h
  split at h
  case isTrue henc => exact Option.some.inj h ▸ henc
  case isFalse => cases h

/-! ### One write -/

theorem writeGraph_of_undecoded {bytes : List UInt8} (h : decode bytes = none) :
    writeGraph number (some bytes) graph = ⟨some bytes, none⟩ := by
  rw [writeGraph, h]

theorem writeGraph_of_unread (hdecoded : ∀ bytes ∈ file, (decode bytes).isSome) (h : readGraph number file = none)
    (hdistinct : (PyJson.obj graph).Distinct) (hnumbers : (PyJson.obj graph).NumbersRead number) :
    writeGraph number file graph = replaceFile file (renderGraph graph) := by
  cases file with
  | none => rfl
  | some bytes =>
      obtain ⟨text, htext⟩ := Option.isSome_iff_exists.mp (hdecoded bytes rfl)
      rw [readGraph, Option.bind_some, htext, Option.bind_some] at h
      have hne : newlines text ≠ renderGraph graph := by
        intro heq
        rw [heq, loads_renderGraph hdistinct hnumbers] at h
        cases h
      rw [writeGraph, htext]
      dsimp only
      rw [equalModuloGeneratedAt, if_neg hne, h]

/-- What is read of a file decides what is done with it. -/
theorem writeGraph_of_read {old : PyJson} (h : readGraph number file = some old)
    (hdistinct : (PyJson.obj graph).Distinct) (hnumbers : (PyJson.obj graph).NumbersRead number) :
    writeGraph number file graph =
      match equalWithout old (printed graph) with
      | none => ⟨file, none⟩
      | some true => ⟨file, some false⟩
      | some false => replaceFile file (renderGraph graph) := by
  obtain ⟨text, htext, hload⟩ := Option.bind_eq_some_iff.mp h
  obtain ⟨bytes, rfl, hdecode⟩ := Option.bind_eq_some_iff.mp htext
  have hequal : equalModuloGeneratedAt number (newlines text) (renderGraph graph) = equalWithout old (printed graph) := by
    rw [equalModuloGeneratedAt]
    split
    case isTrue heq =>
      rw [heq, loads_renderGraph hdistinct hnumbers] at hload
      rw [← Option.some.inj hload, equalWithout_of_sameModulo hdistinct (sameModulo_printed hdistinct)]
    case isFalse =>
      rw [hload, loads_renderGraph hdistinct hnumbers]
      rfl
  rw [writeGraph, hdecode]
  cases hwithout : equalWithout old (printed graph) with
  | none => simp only [hequal, hwithout]
  | some same => cases same <;> simp only [hequal, hwithout]

/-- What was written is read back. -/
theorem readGraph_replaced {bytes : List UInt8} (h : encodeUtf8 (renderGraph graph) = some bytes)
    (hdistinct : (PyJson.obj graph).Distinct) (hnumbers : (PyJson.obj graph).NumbersRead number) :
    readGraph number (some bytes) = some (printed graph) := by
  rw [readGraph, Option.bind_some, decode_of_encode h, Option.bind_some,
    newlines_eq_self (carriageReturn_notMem_renderGraph graph), loads_renderGraph hdistinct hnumbers]

/-! ### The rule -/

theorem keepsRule_of_equal {old : PyJson} (h : readGraph number file = some old)
    (hequal : equalWithout old (printed graph) = some true) (hsame : SameModulo old graph)
    (hdistinct : (PyJson.obj graph).Distinct) (hnumbers : (PyJson.obj graph).NumbersRead number) :
    KeepsRule number file graph := by
  have hwrite : writeGraph number file graph = ⟨file, some false⟩ := by
    rw [writeGraph_of_read h hdistinct hnumbers, hequal]
  refine ⟨?_, ?_, ?_, ?_⟩ <;> rw [hwrite]
  · exact ⟨old, h, hsame⟩
  · exact ⟨false, rfl, by simp⟩
  · exact fun _ _ _ => rfl
  · exact hwrite

theorem keepsRule_of_replaced (hwrite : writeGraph number file graph = replaceFile file (renderGraph graph))
    (hnot : ∀ old, readGraph number file = some old → equalWithout old (printed graph) ≠ some true)
    (hlone : (renderGraph graph).any CodePoint.isLone = false)
    (hdistinct : (PyJson.obj graph).Distinct) (hnumbers : (PyJson.obj graph).NumbersRead number) :
    KeepsRule number file graph := by
  have hself := equalWithout_of_sameModulo hdistinct (sameModulo_printed hdistinct)
  obtain ⟨bytes, hbytes⟩ : ∃ bytes, encodeUtf8 (renderGraph graph) = some bytes := ⟨_, encodeUtf8_eq_some.mpr ⟨hlone, rfl⟩⟩
  have hread : readGraph number (some bytes) = some (printed graph) := readGraph_replaced hbytes hdistinct hnumbers
  have hfile : writeGraph number file graph = ⟨some bytes, some true⟩ := by rw [hwrite, replaceFile, hbytes]
  refine ⟨?_, ?_, ?_, ?_⟩ <;> rw [hfile]
  · exact ⟨_, hread, sameModulo_printed hdistinct⟩
  · refine ⟨true, rfl, fun _ heq => ?_, fun _ => rfl⟩
    exact hnot _ (heq ▸ hread) hself
  · exact fun old hold hsame => absurd (equalWithout_of_sameModulo hdistinct hsame) (hnot old hold)
  · rw [writeGraph_of_read hread hdistinct hnumbers, hself]

end

/-- **The write keeps its rule exactly** where the file is text that holds no other JSON than an object, what passes for
the graph is the graph, and a graph that is to be written has bytes. -/
theorem keepsRule_iff {number : PyStr → Option (PyJson × PyStr)} {graph : GraphDict}
    (hdistinct : (PyJson.obj graph).Distinct) (hnumbers : (PyJson.obj graph).NumbersRead number)
    (file : Option (List UInt8)) : KeepsRule number file graph ↔ IsWritable number file graph := by
  constructor
  · intro h
    obtain ⟨changed, hchanged, -⟩ := h.returns
    have hdecoded : ∀ bytes ∈ file, (decode bytes).isSome := by
      intro bytes hbytes
      obtain rfl := Option.mem_def.mp hbytes
      by_contra hnone
      rw [writeGraph_of_undecoded (Option.not_isSome_iff_eq_none.mp hnone)] at hchanged
      cases hchanged
    refine ⟨hdecoded, fun old hold => ?_, fun old hold hequal => ?_, fun hnot => ?_⟩
    · by_contra hother
      rw [writeGraph_of_read hold hdistinct hnumbers, (equalWithout_eq_none graph).mpr (not_exists.mp hother)] at hchanged
      cases hchanged
    · obtain ⟨old', hold', hsame⟩ := h.holds
      rw [writeGraph_of_read hold hdistinct hnumbers, hequal, hold] at hold'
      exact Option.some.inj hold' ▸ hsame
    · have hwrite : writeGraph number file graph = replaceFile file (renderGraph graph) ∨
          (writeGraph number file graph).changed = none := by
        cases hread : readGraph number file with
        | none => exact .inl (writeGraph_of_unread hdecoded hread hdistinct hnumbers)
        | some old =>
            rw [writeGraph_of_read hread hdistinct hnumbers]
            match hequal : equalWithout old (printed graph) with
            | none => exact .inr rfl
            | some true => exact absurd hequal (hnot old hread)
            | some false => exact .inl rfl
      rcases hwrite with hwrite | hwrite
      · rw [hwrite, replaceFile] at hchanged
        cases hbytes : encodeUtf8 (renderGraph graph) with
        | none =>
            rw [hbytes] at hchanged
            cases hchanged
        | some bytes => exact (encodeUtf8_eq_some.mp hbytes).1
      · rw [hwrite] at hchanged
        cases hchanged
  · intro h
    cases hread : readGraph number file with
    | none =>
        have hnot : ∀ old, readGraph number file = some old → equalWithout old (printed graph) ≠ some true := by
          rw [hread]
          exact fun _ hold => nomatch hold
        exact keepsRule_of_replaced (writeGraph_of_unread h.decoded hread hdistinct hnumbers) hnot (h.printable hnot)
          hdistinct hnumbers
    | some old =>
        have hwrite := writeGraph_of_read hread hdistinct hnumbers
        match hequal : equalWithout old (printed graph) with
        | none =>
            obtain ⟨members, rfl⟩ := h.object old hread
            exact absurd rfl ((equalWithout_eq_none graph).mp hequal members)
        | some true => exact keepsRule_of_equal hread hequal (h.same old hread hequal) hdistinct hnumbers
        | some false =>
            have hnot : ∀ old', readGraph number file = some old' → equalWithout old' (printed graph) ≠ some true := by
              intro old' hold'
              rw [hread] at hold'
              rw [← Option.some.inj hold', hequal]
              exact fun h => nomatch h
            rw [hequal] at hwrite
            exact keepsRule_of_replaced hwrite hnot (h.printable hnot) hdistinct hnumbers

/-! ### Three files -/

/-- A graph without nodes, as far as it is read. -/
def emptyGraph : GraphDict :=
  [(py "generated_at", .str (py "2026-08-01T00:00:00Z")), (py "attested", .bool true), (py "nodes", .arr [])]

/-- One digit is read. -/
def readDigit (s : PyStr) : Option (PyJson × PyStr) := some (.number (.int 1), s.tail)

theorem distinct_emptyGraph : (PyJson.obj emptyGraph).Distinct := by
  rw [distinct_obj]
  refine ⟨by decide, fun m hm => ?_⟩
  simp only [emptyGraph, List.mem_cons, List.not_mem_nil, or_false] at hm
  rcases hm with rfl | rfl | rfl <;> trivial

theorem numbersRead_emptyGraph : (PyJson.obj emptyGraph).NumbersRead readDigit := by
  rw [numbersRead_obj]
  intro m hm
  simp only [emptyGraph, List.mem_cons, List.not_mem_nil, or_false] at hm
  rcases hm with rfl | rfl | rfl <;> trivial

theorem keepsRule_emptyGraph : KeepsRule readDigit none emptyGraph := by
  refine (keepsRule_iff distinct_emptyGraph numbersRead_emptyGraph none).mpr ⟨?_, ?_, ?_, fun _ => by decide +kernel⟩
  · exact fun bytes hbytes => nomatch hbytes
  · exact fun old hold => nomatch hold
  · exact fun old hold => nomatch hold

theorem dumps_of_sameModulo {old : PyJson} {graph : GraphDict} (h : SameModulo old graph) :
    (popGeneratedAt old).map (fun v => v.sortKeys.dumps) =
      (popGeneratedAt (.obj graph)).map fun v => v.sortKeys.dumps := by
  obtain ⟨v, w, hv, hw, heq⟩ := h
  rw [hv, hw, Option.map_some, Option.map_some, heq]

/-- A list is not rewritten, `1` is left where the graph has `true`, and half a character is not written. -/
theorem not_keepsRule : ¬ KeepsRule readDigit (encodeUtf8 (py "[]")) emptyGraph ∧
    ¬ KeepsRule readDigit (encodeUtf8 (py "\x7b\"attested\": 1, \"nodes\": []\x7d")) emptyGraph ∧
    ¬ KeepsRule readDigit none [(py "inputs", .str [.unit 0xD83D])] := by
  refine ⟨fun h => ?_, fun h => ?_, fun h => ?_⟩
  · obtain ⟨changed, hchanged, -⟩ := h.returns
    have hraised : (writeGraph readDigit (encodeUtf8 (py "[]")) emptyGraph).changed = none := by decide +kernel
    rw [hraised] at hchanged
    cases hchanged
  · obtain ⟨old, hold, hsame⟩ := h.holds
    have hdumps : ((readGraph readDigit (writeGraph readDigit
        (encodeUtf8 (py "\x7b\"attested\": 1, \"nodes\": []\x7d")) emptyGraph).file).bind popGeneratedAt).map
          (fun v => v.sortKeys.dumps) ≠ (popGeneratedAt (.obj emptyGraph)).map fun v => v.sortKeys.dumps := by decide +kernel
    rw [hold] at hdumps
    exact hdumps (dumps_of_sameModulo hsame)
  · obtain ⟨changed, hchanged, -⟩ := h.returns
    have hraised : (writeGraph readDigit none [(py "inputs", .str [.unit 0xD83D])]).changed = none := by decide +kernel
    rw [hraised] at hchanged
    cases hchanged

end ContextLayer.GraphWriter
