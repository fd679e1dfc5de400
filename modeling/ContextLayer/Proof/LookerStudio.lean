import ContextLayer.Lib.Pointwise
import ContextLayer.LookerStudio
import ContextLayer.Proof.PyText

/-!
# What the link wires

The loop keeps, of the rows so far, the views the systems start with, those that are left over, and the parameters of the
linked sources by alias. So two sources of one alias write over each other, and a view that is left over twice is asked
for twice.
-/

namespace ContextLayer.LookerStudio

open Text PyText PyJson StableSort Pointwise

/-! ### Reading the link -/

theorem quote_eq_some {text q : PyStr} (h : quote text = some q) :
    unquote q = text ∧ ∀ p ∈ q, p ≠ ampersand ∧ p ≠ equalsSign := by
  obtain ⟨bytes, hbytes, rfl⟩ := Option.map_eq_some_iff.mp h
  constructor
  · have hunits : ((Percent.encode isSafe bytes).map fun b => CodePoint.unit b.toUInt16).map linkByte =
        Percent.encode isSafe bytes := by
      rw [List.map_map]
      refine (List.map_congr_left fun b _ => ?_).trans (List.map_id _)
      exact UInt8.toUInt8_toUInt16 b
    rw [unquote, hunits, Percent.decode_encode (by decide), codePoints_of_encode hbytes]
  · intro p hp
    obtain ⟨b, hb, rfl⟩ := List.mem_map.mp hp
    have hall : ∀ n < 256, (isSafe (UInt8.ofNat n) = true ∨ UInt8.ofNat n = Percent.percent ∨
        ∃ d < 16, UInt8.ofNat n = Percent.digit d) →
          CodePoint.unit (UInt8.ofNat n).toUInt16 ≠ ampersand ∧ CodePoint.unit (UInt8.ofNat n).toUInt16 ≠ equalsSign := by
      decide +kernel
    have hn := hall b.toNat b.toNat_lt
    rw [UInt8.ofNat_toNat] at hn
    exact hn (Percent.mem_encode hb)

/-- **A link is read as the parameters it was made of.** -/
theorem readLink_urlencode {pairs : List (PyStr × PyStr)} (hne : pairs ≠ []) {query : PyStr}
    (h : urlencode pairs = some query) : readLink (LINKING_BASE ++ py "?" ++ query) = pairs := by
  obtain ⟨parts, hparts, h⟩ := Option.bind_eq_some_iff.mp h
  cases h
  have hforall := forall₂_of_mapM hparts
  have hdrop : (LINKING_BASE ++ py "?" ++ [ampersand].intercalate parts).drop (LINKING_BASE.length + 1) =
      [ampersand].intercalate parts := List.drop_left' (by rw [List.length_append]; rfl)
  -- a part is a key and a value, and neither has a separator
  have hpart : List.Forall₂ (fun pair part => ampersand ∉ part ∧ (unquote (part.takeWhile (· != equalsSign)),
      unquote ((part.dropWhile (· != equalsSign)).drop 1)) = pair) pairs parts := by
    refine hforall.imp fun pair part hmade => ?_
    obtain ⟨key, hkey, hmade⟩ := Option.bind_eq_some_iff.mp hmade
    obtain ⟨value, hvalue, hmade⟩ := Option.bind_eq_some_iff.mp hmade
    cases hmade
    obtain ⟨hreadkey, hplainkey⟩ := quote_eq_some hkey
    obtain ⟨hreadvalue, hplainvalue⟩ := quote_eq_some hvalue
    have hkeychars : ∀ p ∈ key, (p != equalsSign) = true := fun p hp => bne_iff_ne.mpr (hplainkey p hp).2
    constructor
    · rw [List.mem_append, List.mem_cons, not_or, not_or]
      exact ⟨fun hmem => (hplainkey _ hmem).1 rfl, by decide, fun hmem => (hplainvalue _ hmem).1 rfl⟩
    · rw [List.takeWhile_append_of_pos hkeychars, List.takeWhile_cons_of_neg (by decide), List.append_nil,
        List.dropWhile_append_of_pos hkeychars, List.dropWhile_cons_of_neg (by decide), List.drop_one, List.tail_cons,
        hreadkey, hreadvalue]
  have hnonempty : parts ≠ [] := by
    rintro rfl
    exact hne (List.eq_nil_of_length_eq_zero hforall.length_eq)
  have hplain : ∀ part ∈ parts, ampersand ∉ part := by
    intro part hmem
    obtain ⟨pair, -, hpair, -⟩ := exists_of_mem_forall₂ hpart hmem
    exact hpair
  rw [readLink, hdrop, List.splitOn_intercalate _ hplain hnonempty]
  have hmap := map_eq_of_forall₂ (f := id) hpart fun pair _ part hp => hp.2.symm
  rw [List.map_id] at hmap
  exact hmap.symm

/-! ### What the loop keeps -/

theorem positionsFrom_append (before rows : List QueryRow) (row : QueryRow) :
    positionsFrom before (rows ++ [row]) = positionsFrom before rows ++ [(before ++ rows, row)] := by
  induction rows generalizing before with
  | nil => rw [List.nil_append, List.append_nil, positionsFrom, positionsFrom, positionsFrom, List.nil_append]
  | cons first rest ih =>
      rw [List.cons_append, positionsFrom, positionsFrom, ih, List.append_assoc, List.singleton_append, List.cons_append]

theorem leadViews_append (rows : List QueryRow) (row : QueryRow) : leadViews (rows ++ [row]) = leadViews rows ++
    (if row.system ∈ rows.map QueryRow.system then none
      else row.manualView.map (Prod.mk row.sourceAlias)).toList := by
  rw [leadViews, positionsFrom_append, List.filterMap_append, ← leadViews, List.nil_append]
  congr 1

theorem leftViews_append (rows : List QueryRow) (row : QueryRow) : leftViews (rows ++ [row]) = leftViews rows ++
    (if row.system ∈ rows.map QueryRow.system then
      row.manualView.filter fun ref => decide ((row.sourceAlias, ref) ∉ leadViews rows) else none).toList := by
  rw [leftViews, positionsFrom_append, List.filterMap_append, ← leftViews, List.nil_append]
  congr 1

theorem mem_appendNew {refs : List PyStr} {ref r : PyStr} : r ∈ appendNew refs ref ↔ r ∈ refs ∨ r = ref := by
  rw [appendNew]
  split
  case isTrue h => exact ⟨.inl, fun hr => hr.elim id fun heq => heq ▸ h⟩
  case isFalse => rw [List.mem_append, List.mem_singleton]

theorem nodup_appendNew {refs : List PyStr} (h : refs.Nodup) (ref : PyStr) : (appendNew refs ref).Nodup := by
  rw [appendNew]
  split
  case isTrue => exact h
  case isFalse hnot => exact List.concat_eq_append ▸ h.concat hnot

/-- What the loop has wired of the rows so far. -/
structure Wired (rows : List QueryRow) (st : WireState) : Prop where
  systems : ∀ system, system ∈ st.wiredSystems ↔ system ∈ rows.map QueryRow.system
  lead : st.manualWiring = leadViews rows
  left : st.unwired = leftViews rows
  backing : ∀ ref, ref ∈ st.backing ↔ ∃ row ∈ rows, row.manualView = some ref
  nodup : st.backing.Nodup

theorem wired_start : Wired [] .start where
  systems := fun _ => Iff.rfl
  lead := rfl
  left := rfl
  backing := fun _ => by simp [WireState.start]
  nodup := List.nodup_nil

/-- One row more. -/
theorem Wired.wire {rows : List QueryRow} {st : WireState} (h : Wired rows st) (row : QueryRow) :
    Wired (rows ++ [row]) (wire st row) := by
  have hsystems := h.systems row.system
  rw [LookerStudio.wire]
  cases hwiring : row.wiring with
  | linked params =>
      have hview : row.manualView = none := by rw [QueryRow.manualView, hwiring]
      have hrest : leadViews (rows ++ [row]) = leadViews rows ∧ leftViews (rows ++ [row]) = leftViews rows := by
        rw [leadViews_append, leftViews_append, hview]
        constructor <;> split <;> simp
      have hbacking : ∀ ref, ref ∈ st.backing ↔ ∃ r ∈ rows ++ [row], r.manualView = some ref := by
        intro ref
        rw [h.backing]
        simp [hview, or_and_right, exists_or]
      dsimp only
      split
      case isTrue hmem =>
        refine ⟨fun system => ?_, by rw [h.lead, hrest.1], by rw [h.left, hrest.2], hbacking, h.nodup⟩
        rw [h.systems, List.map_append, List.mem_append, List.map_singleton, List.mem_singleton]
        exact ⟨.inl, fun hor => hor.elim id fun heq => heq ▸ hsystems.mp hmem⟩
      case isFalse =>
        refine ⟨fun system => ?_, by rw [h.lead, hrest.1], by rw [h.left, hrest.2], hbacking, h.nodup⟩
        rw [List.mem_append, h.systems, List.map_append, List.mem_append, List.map_singleton]
  | manual ref =>
      have hview : row.manualView = some ref := by rw [QueryRow.manualView, hwiring]
      have hbacking : ∀ r, r ∈ appendNew st.backing ref ↔ ∃ q ∈ rows ++ [row], q.manualView = some r := by
        intro r
        rw [mem_appendNew, h.backing]
        simp [hview, or_and_right, exists_or, eq_comm]
      have hnodup := nodup_appendNew h.nodup ref
      dsimp only
      by_cases hmem : row.system ∈ st.wiredSystems
      · have hrows := hsystems.mp hmem
        have hsame : ∀ system, system ∈ st.wiredSystems ↔ system ∈ (rows ++ [row]).map QueryRow.system := by
          intro system
          rw [h.systems, List.map_append, List.mem_append, List.map_singleton, List.mem_singleton]
          exact ⟨.inl, fun hor => hor.elim id fun heq => heq ▸ hrows⟩
        have hlead : st.manualWiring = leadViews (rows ++ [row]) := by
          rw [leadViews_append, if_pos hrows, h.lead]
          simp
        rw [if_pos hmem]
        by_cases hpointed : (row.sourceAlias, ref) ∈ st.manualWiring
        · rw [if_pos hpointed]
          refine ⟨hsame, hlead, ?_, hbacking, hnodup⟩
          rw [leftViews_append, if_pos hrows, hview, ← h.lead, h.left]
          simp [Option.filter, hpointed]
        · rw [if_neg hpointed]
          refine ⟨hsame, hlead, ?_, hbacking, hnodup⟩
          rw [leftViews_append, if_pos hrows, hview, ← h.lead, h.left]
          simp [Option.filter, hpointed]
      · have hrows := mt hsystems.mpr hmem
        rw [if_neg hmem]
        refine ⟨fun system => ?_, ?_, ?_, hbacking, hnodup⟩
        · rw [List.mem_append, h.systems, List.map_append, List.mem_append, List.map_singleton]
        · rw [leadViews_append, if_neg hrows, hview, h.lead]
          simp
        · rw [leftViews_append, if_neg hrows, h.left]
          simp

theorem mem_of_mem_positionsFrom {before rows : List QueryRow} {pos : List QueryRow × QueryRow}
    (h : pos ∈ positionsFrom before rows) : pos.2 ∈ rows := by
  induction rows generalizing before with
  | nil => cases h
  | cons row rest ih =>
      rcases List.mem_cons.mp h with rfl | hrest
      · exact List.mem_cons_self
      · exact List.mem_cons_of_mem _ (ih hrest)

/-- A view that is started with, or left over, is the view of a manual row. -/
theorem exists_manualView {rows : List QueryRow} {a ref : PyStr} (h : (a, ref) ∈ leadViews rows ∨ ref ∈ leftViews rows) :
    ∃ row ∈ rows, row.manualView = some ref := by
  rcases h with hlead | hleft
  · obtain ⟨⟨before, row⟩, hpos, hview⟩ := List.mem_filterMap.mp hlead
    refine ⟨row, mem_of_mem_positionsFrom hpos, ?_⟩
    dsimp only at hview
    split at hview
    case isTrue => cases hview
    case isFalse =>
      obtain ⟨found, hfound, heq⟩ := Option.map_eq_some_iff.mp hview
      rw [hfound, (Prod.mk.inj heq).2]
  · obtain ⟨⟨before, row⟩, hpos, hview⟩ := List.mem_filterMap.mp hleft
    refine ⟨row, mem_of_mem_positionsFrom hpos, ?_⟩
    dsimp only at hview
    split at hview
    case isTrue => exact (Option.filter_eq_some_iff.mp hview).1
    case isFalse => cases hview

theorem wired_foldl (rows : List QueryRow) : Wired rows (rows.foldl wire .start) := by
  induction rows using List.reverseRecOn with
  | nil => exact wired_start
  | append_singleton rows row ih =>
      rw [List.foldl_append, List.foldl_cons, List.foldl_nil]
      exact ih.wire row

/-! ### The parameters -/

/-- A system has one source. -/
def OneSource (rows : List QueryRow) : Prop :=
  ∀ row ∈ rows, ∀ row' ∈ rows, row.system = row'.system →
    row.sourceAlias = row'.sourceAlias ∧ ∀ params, row.wiring = .linked params → row'.wiring = .linked params

/-- The parameters of the rows so far. -/
structure HasParams (rows : List QueryRow) (ds : List (PyStr × PyStr)) : Prop where
  nodup : (ds.map Prod.fst).Nodup
  made : ∀ e ∈ ds, ∃ row ∈ rows, ∃ params, row.wiring = .linked params ∧
    ∃ param ∈ params, e = (dsKey row.sourceAlias param.1, param.2)
  covered : ∀ row ∈ rows, ∀ params, row.wiring = .linked params →
    ∀ param ∈ params, dsKey row.sourceAlias param.1 ∈ ds.map Prod.fst

theorem foldl_set (key : PyStr → PyStr) (params ds : List (PyStr × PyStr)) (hnodup : (ds.map Prod.fst).Nodup) :
    ((params.foldl (fun ds param => Dict.set ds (key param.1) param.2) ds).map Prod.fst).Nodup ∧
      (∀ e ∈ params.foldl (fun ds param => Dict.set ds (key param.1) param.2) ds,
        e ∈ ds ∨ ∃ param ∈ params, e = (key param.1, param.2)) ∧
      ∀ k, k ∈ ds.map Prod.fst ∨ (∃ param ∈ params, k = key param.1) →
        k ∈ (params.foldl (fun ds param => Dict.set ds (key param.1) param.2) ds).map Prod.fst := by
  induction params generalizing ds with
  | nil => exact ⟨hnodup, fun e he => .inl he, fun k hk => hk.elim id fun ⟨_, hmem, _⟩ => nomatch hmem⟩
  | cons param rest ih =>
      obtain ⟨hnodup', hmade, hcovered⟩ := ih (Dict.set ds (key param.1) param.2) (Dict.nodup_set hnodup _ _)
      refine ⟨hnodup', fun e he => ?_, fun k hk => hcovered k ?_⟩
      · rcases hmade e he with hold | ⟨other, hother, heq⟩
        · rcases Dict.mem_set hold with hmem | rfl
          · exact .inl hmem
          · exact .inr ⟨param, List.mem_cons_self, rfl⟩
        · exact .inr ⟨other, List.mem_cons_of_mem _ hother, heq⟩
      · rw [Dict.map_fst_set]
        rcases hk with hmem | ⟨other, hother, rfl⟩
        · left
          split
          case isTrue => exact hmem
          case isFalse => exact List.mem_append_left _ hmem
        · rcases List.mem_cons.mp hother with rfl | hother
          · left
            split
            case isTrue hin => exact hin
            case isFalse => exact List.mem_append_right _ List.mem_cons_self
          · exact .inr ⟨other, hother, rfl⟩

theorem HasParams.wire {rows : List QueryRow} {st : WireState} (hwired : Wired rows st)
    (h : HasParams rows st.dsParams) {row : QueryRow} (hone : OneSource (rows ++ [row])) :
    HasParams (rows ++ [row]) (wire st row).dsParams := by
  have hmade : ∀ e ∈ st.dsParams, ∃ r ∈ rows ++ [row], ∃ params, r.wiring = .linked params ∧
      ∃ param ∈ params, e = (dsKey r.sourceAlias param.1, param.2) := by
    intro e he
    obtain ⟨r, hr, hrest⟩ := h.made e he
    exact ⟨r, List.mem_append_left _ hr, hrest⟩
  cases hwiring : row.wiring with
  | manual ref =>
      have hsame : (LookerStudio.wire st row).dsParams = st.dsParams := by
        rw [LookerStudio.wire, hwiring]
        dsimp only
        split
        · split <;> rfl
        · rfl
      rw [hsame]
      refine ⟨h.nodup, hmade, fun r hr params hparams => ?_⟩
      rcases List.mem_append.mp hr with hr | hr
      · exact h.covered r hr params hparams
      · rw [List.mem_singleton.mp hr, hwiring] at hparams
        cases hparams
  | linked params =>
      by_cases hmem : row.system ∈ st.wiredSystems
      · have hsame : (LookerStudio.wire st row).dsParams = st.dsParams := by
          rw [LookerStudio.wire, hwiring]
          dsimp only
          rw [if_pos hmem]
        rw [hsame]
        refine ⟨h.nodup, hmade, fun r hr params' hparams' => ?_⟩
        rcases List.mem_append.mp hr with hr | hr
        · exact h.covered r hr params' hparams'
        · -- an earlier row of the system has its parameters
          obtain ⟨first, hfirst, hsystem⟩ := List.mem_map.mp ((hwired.systems row.system).mp hmem)
          obtain rfl := List.mem_singleton.mp hr
          obtain ⟨halias, hlinked⟩ := hone r (List.mem_append_right _ List.mem_cons_self) first
            (List.mem_append_left _ hfirst) hsystem.symm
          intro param hparam
          rw [halias]
          exact h.covered first hfirst params' (hlinked params' hparams') param hparam
      · have hset : (LookerStudio.wire st row).dsParams =
            params.foldl (fun ds param => Dict.set ds (dsKey row.sourceAlias param.1) param.2) st.dsParams := by
          rw [LookerStudio.wire, hwiring]
          dsimp only
          rw [if_neg hmem]
        obtain ⟨hnodup, hadded, hcovered⟩ := foldl_set (dsKey row.sourceAlias) params st.dsParams h.nodup
        rw [hset]
        refine ⟨hnodup, fun e he => ?_, fun r hr params' hparams' param hparam => hcovered _ ?_⟩
        · rcases hadded e he with hold | ⟨param, hparam, rfl⟩
          · exact hmade e hold
          · exact ⟨row, List.mem_append_right _ List.mem_cons_self, params, hwiring, param, hparam, rfl⟩
        · rcases List.mem_append.mp hr with hr | hr
          · exact .inl (h.covered r hr params' hparams' param hparam)
          · obtain rfl := List.mem_singleton.mp hr
            rw [hwiring] at hparams'
            cases hparams'
            exact .inr ⟨param, hparam, rfl⟩

theorem hasParams_foldl {rows : List QueryRow} (hone : OneSource rows) :
    HasParams rows (rows.foldl wire .start).dsParams := by
  induction rows using List.reverseRecOn with
  | nil => exact ⟨List.nodup_nil, fun _ he => (nomatch he), fun _ hr => (nomatch hr)⟩
  | append_singleton rows row ih =>
      have hbefore : OneSource rows := fun r hr r' hr' =>
        hone r (List.mem_append_left _ hr) r' (List.mem_append_left _ hr')
      rw [List.foldl_append, List.foldl_cons, List.foldl_nil]
      exact (ih hbefore).wire (wired_foldl rows) hone

/-! ### Reading the queries -/

section

variable {unicode : Unicode} {sources : PyJson}

theorem orConfig_eq_ok {α : Type} {value : Option α} {e : ConfigError} {a : α} :
    orConfig value e = .ok a ↔ value = some a := by
  cases value <;> simp [orConfig]

theorem refuseIf_eq_ok {condition : Prop} [Decidable condition] {e : ConfigError} {u : Unit} :
    refuseIf condition e = .ok u ↔ ¬ condition := by
  rw [refuseIf]
  split <;> simp [*]

/-- What a row is: its alias and its wiring are those of the source of its system. -/
theorem readQuery_eq_ok {query : PyJson} {row : QueryRow} (h : readQuery unicode sources query = .ok row) :
    nonEmptyText (getOr (sourceOf sources row.system) "alias") = some row.sourceAlias ∧
      row.view = reportingView query ∧ ∃ kind,
        sourceKind row.system (getOr (sourceOf sources row.system) "kind") = .ok kind ∧
          match kind.2 with
          | .manual => ∃ ref, row.wiring = .manual ref ∧ row.view = some ref
          | .linked connector => row.wiring = .linked (sourceParams unicode connector (sourceOf sources row.system)) := by
  obtain ⟨-, -, h⟩ := bind_eq_ok.mp h
  obtain ⟨system, -, h⟩ := bind_eq_ok.mp h
  obtain ⟨-, -, h⟩ := bind_eq_ok.mp h
  obtain ⟨⟨name, kind⟩, hkind, h⟩ := bind_eq_ok.mp h
  obtain ⟨sourceAlias, halias, h⟩ := bind_eq_ok.mp h
  obtain ⟨dialect, -, h⟩ := bind_eq_ok.mp h
  obtain ⟨wiring, hwiring, h⟩ := bind_eq_ok.mp h
  cases h
  refine ⟨orConfig_eq_ok.mp halias, rfl, (name, kind), hkind, ?_⟩
  unfold readWiring at hwiring
  cases kind with
  | manual =>
      obtain ⟨_, hmode, hwiring⟩ := bind_eq_ok.mp hwiring
      obtain ⟨ref, href, hwiring⟩ := bind_eq_ok.mp hwiring
      cases hwiring
      refine ⟨ref, rfl, ?_⟩
      dsimp only
      rw [reportingView, if_pos (not_not.mp (refuseIf_eq_ok.mp hmode)), orConfig_eq_ok.mp href]
  | linked connector =>
      obtain ⟨-, -, hwiring⟩ := bind_eq_ok.mp hwiring
      obtain ⟨-, -, hwiring⟩ := bind_eq_ok.mp hwiring
      cases hwiring
      rfl

theorem oneSource_of_read {rows : List QueryRow} (h : ∀ row ∈ rows, ∃ query, readQuery unicode sources query = .ok row) :
    OneSource rows := by
  intro row hrow row' hrow' hsystem
  obtain ⟨query, hquery⟩ := h row hrow
  obtain ⟨query', hquery'⟩ := h row' hrow'
  obtain ⟨halias, -, kind, hkind, hwiring⟩ := readQuery_eq_ok hquery
  obtain ⟨halias', -, kind', hkind', hwiring'⟩ := readQuery_eq_ok hquery'
  rw [← hsystem] at halias' hkind' hwiring'
  obtain rfl := Except.ok.inj (hkind.symm.trans hkind')
  refine ⟨Option.some.inj (halias.symm.trans halias'), fun params hparams => ?_⟩
  split at hwiring
  case h_1 =>
    obtain ⟨ref, hmanual, -⟩ := hwiring
    rw [hmanual] at hparams
    cases hparams
  case h_2 connector hlinked =>
    rw [hlinked] at hwiring'
    rw [hwiring', ← hwiring, hparams]

/-- The names of the parameters have no point. -/
theorem point_notMem_param {query : PyJson} {row : QueryRow} (h : readQuery unicode sources query = .ok row)
    {params : List (PyStr × PyStr)} (hparams : row.wiring = .linked params) {param : PyStr × PyStr} (hparam : param ∈ params) :
    CodePoint.unit 0x2E ∉ param.1 := by
  obtain ⟨-, -, kind, hkind, hwiring⟩ := readQuery_eq_ok h
  split at hwiring
  case h_1 =>
    obtain ⟨ref, hmanual, -⟩ := hwiring
    rw [hmanual] at hparams
    cases hparams
  case h_2 connector hlinked =>
    have htable : (kind.1, connector) ∈ linkingConnectors := by
      unfold sourceKind at hkind
      split at hkind
      case h_1 s _ =>
        split at hkind
        case h_1 found hfound =>
          cases hkind
          cases hlinked
          exact Dict.mem_of_get? hfound
        case h_2 =>
          split at hkind <;> cases hkind
          cases hlinked
      all_goals cases hkind
    have hnames : ∀ entry ∈ linkingConnectors, ∀ p ∈ entry.2.params, CodePoint.unit 0x2E ∉ p.2 := by decide
    rw [hparams] at hwiring
    cases hwiring
    rcases List.mem_cons.mp hparam with rfl | hmem
    · show CodePoint.unit 0x2E ∉ py "connector"
      decide
    · obtain ⟨entry, hentry, hvalue⟩ := List.mem_filterMap.mp hmem
      have hpoint := hnames _ htable entry hentry
      split at hvalue
      case h_1 => cases hvalue
      case h_2 =>
        cases hvalue
        exact hpoint

end

theorem append_point_inj {w w' x x' : PyStr} (hw : CodePoint.unit 0x2E ∉ w) (hw' : CodePoint.unit 0x2E ∉ w')
    (h : w ++ .unit 0x2E :: x = w' ++ .unit 0x2E :: x') : w = w' ∧ x = x' := by
  induction w generalizing w' with
  | nil =>
      cases w' with
      | nil => exact ⟨rfl, (List.cons.inj h).2⟩
      | cons c w' => exact absurd (List.mem_cons.mpr (.inl (List.cons.inj h).1)) hw'
  | cons c w ih =>
      cases w' with
      | nil => exact absurd (List.mem_cons.mpr (.inl (List.cons.inj h).1.symm)) hw
      | cons c' w' =>
          rw [List.mem_cons, not_or] at hw hw'
          obtain ⟨rfl, hx⟩ := ih hw.2 hw'.2 (List.cons.inj h).2
          exact ⟨by rw [(List.cons.inj h).1], hx⟩

/-- A key has the alias and the name of the parameter it is made of. -/
theorem dsKey_inj {a a' w w' : PyStr} (hw : CodePoint.unit 0x2E ∉ w) (hw' : CodePoint.unit 0x2E ∉ w')
    (h : dsKey a w = dsKey a' w') : a = a' ∧ w = w' := by
  have hreverse : ∀ a w : PyStr, (dsKey a w).reverse = w.reverse ++ .unit 0x2E :: (a.reverse ++ (py "ds.").reverse) := by
    intro a w
    simp only [dsKey, List.reverse_append, List.append_assoc]
    rfl
  have heq := congrArg List.reverse h
  rw [hreverse, hreverse] at heq
  obtain ⟨hwords, hrest⟩ := append_point_inj (by rwa [List.mem_reverse]) (by rwa [List.mem_reverse]) heq
  exact ⟨List.reverse_injective (List.append_cancel_right hrest), List.reverse_injective hwords⟩

/-! ### Publishing -/

section

variable {unicode : Unicode} {sha256 : List UInt8 → PyStr} {config artifact flags : PyJson} {target : PyStr}
  {r : PublishResult}

theorem orRaise_eq_ok {α : Type} {value : Option α} {a : α} : orRaise value = .ok a ↔ value = some a := by
  cases value <;> simp [orRaise]

theorem filterMap_toOption {α β ε : Type} {f : α → Except ε β} {l : List α} {bs : List β}
    (h : List.Forall₂ (fun a b => f a = .ok b) l bs) : l.filterMap (fun a => (f a).toOption) = bs := by
  induction h with
  | nil => rfl
  | cons hab _ ih =>
      rw [List.filterMap_cons, hab, ih]
      rfl

/-- What is published is made of what the loop keeps of the rows. -/
theorem publish_eq_ok (h : publish unicode sha256 config artifact flags target = .ok r) :
    (∀ row ∈ queryRows unicode config artifact, ∃ query, readQuery unicode (getOr config "sources") query = .ok row) ∧
      (∃ templateId name, readLink r.url =
        linkParams templateId name ((queryRows unicode config artifact).foldl wire .start).dsParams) ∧
      r.backing = ((queryRows unicode config artifact).foldl wire .start).backing ∧
      ∃ blend : Option (List PyJson), r.steps =
        .openLink :: ((queryRows unicode config artifact).foldl wire .start).manualWiring.map
            (fun pair => .point pair.1 pair.2) ++
          blend.toList.map (fun keys => .verifyBlend (blendPairs unicode keys)) ++
            ((queryRows unicode config artifact).foldl wire .start).unwired.map .add ++ [.copy] := by
  obtain ⟨-, -, h⟩ := bind_eq_ok.mp h
  obtain ⟨artifactId, -, h⟩ := bind_eq_ok.mp h
  obtain ⟨queries, hqueries, h⟩ := bind_eq_ok.mp h
  obtain ⟨templateId, -, h⟩ := bind_eq_ok.mp h
  obtain ⟨-, -, h⟩ := bind_eq_ok.mp h
  obtain ⟨blend, -, h⟩ := bind_eq_ok.mp h
  obtain ⟨rows, hrows, h⟩ := bind_eq_ok.mp h
  obtain ⟨substitutions, -, h⟩ := bind_eq_ok.mp h
  obtain ⟨query, hquery, h⟩ := bind_eq_ok.mp h
  obtain ⟨id, -, h⟩ := bind_eq_ok.mp h
  cases h
  have hforall := forall₂_of_mapM_ok hrows
  have hread : queryRows unicode config artifact = rows := by
    rw [queryRows, orConfig_eq_ok.mp hqueries, Option.getD_some]
    exact filterMap_toOption hforall
  rw [hread]
  refine ⟨fun row hrow => ?_, ⟨templateId, reportName artifact config, ?_⟩, rfl, blend, rfl⟩
  · obtain ⟨q, -, hq⟩ := exists_of_mem_forall₂ hforall hrow
    exact ⟨q, hq⟩
  · exact readLink_urlencode (List.cons_ne_nil _ _) (orRaise_eq_ok.mp hquery)

/-- A parameter of a source is in the link where it is among those the loop keeps. -/
theorem mem_linkParams {templateId name a w v : PyStr} {ds : List (PyStr × PyStr)} :
    (dsKey a w, v) ∈ linkParams templateId name ds ↔ (dsKey a w, v) ∈ ds := by
  have hreport : ∀ key ∈ [py "c.reportId", py "r.reportName"], dsKey a w ≠ key := by
    intro key hkey heq
    have hhead : (dsKey a w).head? = some (.unit 0x64) := rfl
    have hother : ∀ key ∈ [py "c.reportId", py "r.reportName"], key.head? ≠ some (.unit 0x64) := by decide
    exact hother key hkey (heq ▸ hhead)
  rw [linkParams, List.mem_cons, List.mem_cons, mem_sortOn]
  constructor
  · rintro (heq | heq | hmem)
    · exact absurd (Prod.mk.inj heq).1 (hreport _ (by simp))
    · exact absurd (Prod.mk.inj heq).1 (hreport _ (by simp))
    · exact hmem
  · exact fun hmem => .inr (.inr hmem)

/-- The steps that name a view: those that point its alias at it, and those that add it. -/
theorem countP_steps (lead : List (PyStr × PyStr)) (left : List PyStr) (blend : List PyStr) (a ref : PyStr) :
    (Step.openLink :: lead.map (fun pair => Step.point pair.1 pair.2) ++ blend.map Step.verifyBlend ++
      left.map Step.add ++ [Step.copy]).countP (fun step => decide (step = .point a ref ∨ step = .add ref)) =
        lead.count (a, ref) + left.count ref := by
  have hlead : (lead.map fun pair => Step.point pair.1 pair.2).countP
      (fun step => decide (step = .point a ref ∨ step = .add ref)) = lead.count (a, ref) := by
    rw [List.countP_map, List.count]
    refine List.countP_congr fun pair _ => ?_
    simp [Prod.ext_iff]
  have hleft : (left.map Step.add).countP (fun step => decide (step = .point a ref ∨ step = .add ref)) =
      left.count ref := by
    rw [List.countP_map, List.count]
    exact List.countP_congr fun r _ => by simp
  have hblend : (blend.map Step.verifyBlend).countP (fun step => decide (step = .point a ref ∨ step = .add ref)) = 0 := by
    rw [List.countP_map, List.countP_eq_zero]
    simp
  rw [List.cons_append, List.cons_append, List.cons_append, List.countP_cons_of_neg (by simp), List.countP_append,
    List.countP_append, List.countP_append, hlead, hleft, hblend, List.countP_cons_of_neg (by simp), List.countP_nil]
  omega

/-- **The link wires every source exactly where** linked sources of one alias agree, and each view of a query is started
with once or left over once. -/
theorem wiresEverySource_iff (h : publish unicode sha256 config artifact flags target = .ok r) :
    WiresEverySource (queryRows unicode config artifact) r ↔ IsUnshared (queryRows unicode config artifact) := by
  obtain ⟨hread, ⟨templateId, name, hlink⟩, hbacking, blend, hsteps⟩ := publish_eq_ok h
  generalize queryRows unicode config artifact = rows at *
  have hwired := wired_foldl rows
  have hparams := hasParams_foldl (oneSource_of_read hread)
  have hcount : ∀ a ref, r.steps.countP (fun step => decide (step = .point a ref ∨ step = .add ref)) =
      (leadViews rows).count (a, ref) + (leftViews rows).count ref := by
    intro a ref
    have hblend : blend.toList.map (fun keys => Step.verifyBlend (blendPairs unicode keys)) =
        (blend.toList.map (blendPairs unicode)).map Step.verifyBlend := by rw [List.map_map]; rfl
    rw [hsteps, hwired.lead, hwired.left, hblend]
    exact countP_steps _ _ _ a ref
  constructor
  · rintro ⟨hlinked, -, hnamed⟩
    refine ⟨fun row hrow row' hrow' params params' hwiring hwiring' halias param hparam param' hparam' heq => ?_,
      fun row hrow ref href => (hcount _ _).symm.trans (hnamed row hrow ref href)⟩
    have hmem := hlinked row hrow params hwiring param hparam
    have hmem' := hlinked row' hrow' params' hwiring' param' hparam'
    rw [hlink, mem_linkParams] at hmem hmem'
    rw [← halias, ← heq] at hmem'
    exact (Prod.mk.inj (List.inj_on_of_nodup_map hparams.nodup hmem hmem' rfl)).2
  · rintro ⟨hagree, hviews⟩
    refine ⟨fun row hrow params hwiring param hparam => ?_, fun row hrow ref href => ?_,
      fun row hrow ref href => (hcount _ _).trans (hviews row hrow ref href)⟩
    · obtain ⟨e, he, hkey⟩ := List.mem_map.mp (hparams.covered row hrow params hwiring param hparam)
      obtain ⟨row', hrow', params', hwiring', param', hparam', rfl⟩ := hparams.made e he
      obtain ⟨query, hquery⟩ := hread row hrow
      obtain ⟨query', hquery'⟩ := hread row' hrow'
      obtain ⟨halias, hname⟩ := dsKey_inj (point_notMem_param hquery' hwiring' hparam')
        (point_notMem_param hquery hwiring hparam) hkey
      have hvalue := hagree row hrow row' hrow' params params' hwiring hwiring' halias.symm param hparam param' hparam'
        hname.symm
      rw [hlink, mem_linkParams, hvalue, ← halias, ← hname]
      exact he
    · have hone := hviews row hrow ref href
      have hnamed : (row.sourceAlias, ref) ∈ leadViews rows ∨ ref ∈ leftViews rows := by
        rw [← List.count_pos_iff, ← List.count_pos_iff (a := ref)]
        omega
      rw [hbacking]
      exact List.count_eq_one_of_mem hwired.nodup ((hwired.backing ref).mpr (exists_manualView hnamed))

end

/-! ### Two links -/

def configOf (sources : List (PyStr × PyJson)) : PyJson :=
  .obj [(py "template_report_id", .str (py "tmpl-abc123")), (py "sources", .obj sources)]

def artifactOf (queries : List PyJson) : PyJson :=
  .obj [(py "id", .str (py "ra-1")), (py "title", .str (py "New users")), (py "queries", .arr queries)]

def templateLink : PyJson := .obj [(py "create_report", .str (py "template_link"))]

def ga4Source (sourceAlias property : String) : PyJson :=
  .obj [(py "kind", .str (py "ga4")), (py "alias", .str (py sourceAlias)), (py "property_id", .str (py property))]

def postgresSource (sourceAlias : String) : PyJson :=
  .obj [(py "kind", .str (py "postgres")), (py "alias", .str (py sourceAlias))]

def apiQuery (system : String) : PyJson := .obj [(py "system", .str (py system))]

def viewQuery (system ref : String) : PyJson :=
  .obj [(py "system", .str (py system)),
    (py "backing", .obj [(py "mode", .str (py "reporting_view")), (py "ref", .str (py ref))])]

theorem wiresEverySource_iff_signups :
    ∃ r, publish asciiOnly (fun _ => [])
        (configOf [(py "ga4", ga4Source "ga" "1"), (py "supabase", postgresSource "sb")])
        (artifactOf [apiQuery "ga4", viewQuery "supabase" "reporting.signups"]) templateLink (py "reporting") = .ok r ∧
      WiresEverySource (queryRows asciiOnly
        (configOf [(py "ga4", ga4Source "ga" "1"), (py "supabase", postgresSource "sb")])
        (artifactOf [apiQuery "ga4", viewQuery "supabase" "reporting.signups"])) r := by
  obtain ⟨r, hr⟩ : ∃ r, publish asciiOnly (fun _ => [])
      (configOf [(py "ga4", ga4Source "ga" "1"), (py "supabase", postgresSource "sb")])
      (artifactOf [apiQuery "ga4", viewQuery "supabase" "reporting.signups"]) templateLink (py "reporting") = .ok r :=
    ⟨_, rfl⟩
  have hrows : queryRows asciiOnly (configOf [(py "ga4", ga4Source "ga" "1"), (py "supabase", postgresSource "sb")])
      (artifactOf [apiQuery "ga4", viewQuery "supabase" "reporting.signups"]) =
        [⟨py "ga4", py "ga", none, .linked [(py "connector", py "googleAnalytics"), (py "propertyId", py "1")]⟩,
          ⟨py "supabase", py "sb", some (py "reporting.signups"), .manual (py "reporting.signups")⟩] := rfl
  refine ⟨r, hr, (wiresEverySource_iff hr).mpr (hrows ▸ ⟨?_, ?_⟩)⟩
  · intro row hrow row' hrow' params params' hparams hparams' _
    rcases List.mem_pair.mp hrow with rfl | rfl <;> rcases List.mem_pair.mp hrow' with rfl | rfl <;> cases hparams <;>
      cases hparams'
    decide
  · intro row hrow ref href
    rcases List.mem_pair.mp hrow with rfl | rfl <;> cases href
    rfl

/-- Two systems of one alias write over each other, and a view is asked for twice. -/
theorem not_wiresEverySource :
    (∃ r, publish asciiOnly (fun _ => []) (configOf [(py "web", ga4Source "ga" "1"), (py "app", ga4Source "ga" "2")])
        (artifactOf [apiQuery "web", apiQuery "app"]) templateLink (py "reporting") = .ok r ∧
      ¬ WiresEverySource (queryRows asciiOnly
        (configOf [(py "web", ga4Source "ga" "1"), (py "app", ga4Source "ga" "2")])
        (artifactOf [apiQuery "web", apiQuery "app"])) r) ∧
    ∃ r, publish asciiOnly (fun _ => []) (configOf [(py "supabase", postgresSource "sb")])
        (artifactOf [viewQuery "supabase" "reporting.a", viewQuery "supabase" "reporting.b",
          viewQuery "supabase" "reporting.b"]) templateLink (py "reporting") = .ok r ∧
      ¬ WiresEverySource (queryRows asciiOnly (configOf [(py "supabase", postgresSource "sb")])
        (artifactOf [viewQuery "supabase" "reporting.a", viewQuery "supabase" "reporting.b",
          viewQuery "supabase" "reporting.b"])) r := by
  refine ⟨⟨_, rfl, fun h => ?_⟩, ⟨_, rfl, fun h => ?_⟩⟩
  · have hlink := h.linked _ (List.mem_of_getElem? (i := 0) rfl) _ rfl (py "propertyId", py "1")
      (List.mem_of_getElem? (i := 1) rfl)
    revert hlink
    decide +kernel
  · have hnamed := h.named _ (List.mem_of_getElem? (i := 1) rfl) (py "reporting.b") rfl
    revert hnamed
    decide +kernel

end ContextLayer.LookerStudio
