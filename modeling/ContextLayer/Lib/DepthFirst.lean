import Mathlib.Algebra.GroupWithZero.Nat
import Mathlib.Algebra.Order.BigOperators.Group.List
import Mathlib.Algebra.Order.Group.Nat
import Mathlib.Data.List.Nodup
import Mathlib.Logic.Relation
import ContextLayer.Lib.Dict

/-!
# Searching in depth

A search goes down the arcs of a graph with a stack of nodes, each with the number of its arcs that have been taken. An
arc that leads to a node of the stack closes a cycle. All closing arcs lie on cycles, and without them the graph has
none: the nodes are finished in an order in which every other arc leads to a node that is finished before.
-/

namespace DepthFirst

variable {α ι : Type}

/-! ### Arcs -/

section

variable (neighbors : α → List (α × ι))

def Arc (a b : α) : Prop := ∃ l, (b, l) ∈ neighbors a

/-- Some arc of the label lies on a cycle. -/
def OnCycle (l : ι) : Prop := ∃ a b, (b, l) ∈ neighbors a ∧ Relation.ReflTransGen (Arc neighbors) b a

/-- An arc with another label than these. -/
def Other (closing : List ι) (a b : α) : Prop := ∃ l, (b, l) ∈ neighbors a ∧ l ∉ closing

end

theorem transGen_of_onCycle {neighbors : α → List (α × ι)} {l : ι} (h : OnCycle neighbors l) :
    ∃ a, Relation.TransGen (Arc neighbors) a a := by
  obtain ⟨a, b, harc, hback⟩ := h
  exact ⟨a, Relation.TransGen.head' ⟨l, harc⟩ hback⟩

/-! ### The search -/

/-- The nodes that are finished, the last one first, the labels of the closing arcs, and the stack. -/
structure State (α ι : Type) where
  finished : List α
  closing : List ι
  stack : List (α × Nat)

variable [DecidableEq α] (neighbors : α → List (α × ι))

def turn (st : State α ι) : State α ι :=
  match st.stack with
  | [] => st
  | (a, i) :: rest =>
      match (neighbors a)[i]? with
      | none => { st with finished := a :: st.finished, stack := rest }
      | some (b, l) =>
          if b ∈ st.stack.map Prod.fst then { st with closing := st.closing ++ [l], stack := (a, i + 1) :: rest }
          else if b ∈ st.finished then { st with stack := (a, i + 1) :: rest }
          else { st with stack := (b, 0) :: (a, i + 1) :: rest }

/-- From one start on, if it has not been found. -/
def enter (fuel : Nat) (st : State α ι) (start : α) : State α ι :=
  if start ∈ st.finished then st else (turn neighbors)^[fuel] { st with stack := [(start, 0)] }

def search (fuel : Nat) (starts : List α) : State α ι := starts.foldl (enter neighbors fuel) ⟨[], [], []⟩

/-! ### What holds of the stack -/

/-- Below a node of the stack is the one it was reached from. The arcs that have been taken close a cycle, lead to a
finished node or to the one above. -/
def Frames (finished : List α) (closing : List ι) : Option α → List (α × Nat) → Prop
  | _, [] => True
  | above, (a, i) :: below =>
      (∀ b l, (b, l) ∈ (neighbors a).take i → l ∈ closing ∨ b ∈ finished ∨ above = some b) ∧
        (∀ b, above = some b → Arc neighbors a b) ∧ i ≤ (neighbors a).length ∧ Frames finished closing (some a) below

/-- Every arc of a finished node closes a cycle or leads to a node that was finished before. -/
def Ordered (closing : List ι) : List α → Prop
  | [] => True
  | a :: before => (∀ b l, (b, l) ∈ neighbors a → l ∈ closing ∨ b ∈ before) ∧ Ordered closing before

structure Inv (nodes : List α) (st : State α ι) : Prop where
  frames : Frames neighbors st.finished st.closing none st.stack
  ordered : Ordered neighbors st.closing st.finished
  nodup : (st.stack.map Prod.fst ++ st.finished).Nodup
  known : st.stack.map Prod.fst ++ st.finished ⊆ nodes
  cycles : ∀ l ∈ st.closing, OnCycle neighbors l

variable {neighbors} {nodes finished finished' : List α} {closing closing' : List ι}

omit [DecidableEq α] in
theorem Frames.mono (hfinished : finished ⊆ finished') (hclosing : closing ⊆ closing') {above : Option α}
    {stack : List (α × Nat)} (h : Frames neighbors finished closing above stack) :
    Frames neighbors finished' closing' above stack := by
  induction stack generalizing above with
  | nil => exact trivial
  | cons frame below ih =>
      obtain ⟨htaken, harc, hi, hbelow⟩ := h
      exact ⟨fun b l hb => (htaken b l hb).imp (hclosing ·) (.imp_left (hfinished ·)), harc, hi, ih hbelow⟩

omit [DecidableEq α] in
/-- The node above is finished. -/
theorem Frames.finish {a : α} {stack : List (α × Nat)} (h : Frames neighbors finished closing (some a) stack) :
    Frames neighbors (a :: finished) closing none stack := by
  cases stack with
  | nil => exact trivial
  | cons frame below =>
      obtain ⟨htaken, -, hi, hbelow⟩ := h
      refine ⟨fun b l hb => (htaken b l hb).imp_right fun hor => .inl ?_, fun b hb => (nomatch hb), hi,
        hbelow.mono (List.subset_cons_self _ _) (List.Subset.refl _)⟩
      obtain hb | hb := hor
      · exact List.mem_cons_of_mem _ hb
      · exact Option.some.inj hb ▸ List.mem_cons_self

omit [DecidableEq α] in
/-- A node of the stack leads to the one on top. -/
theorem Frames.reaches {above : Option α} {a : α} {i : Nat} {below : List (α × Nat)}
    (h : Frames neighbors finished closing above ((a, i) :: below)) {b : α}
    (hb : b ∈ ((a, i) :: below).map Prod.fst) : Relation.ReflTransGen (Arc neighbors) b a := by
  induction below generalizing above a i with
  | nil =>
      obtain rfl := List.mem_singleton.mp hb
      exact .refl
  | cons frame below ih =>
      obtain rfl | hb := List.mem_cons.mp hb
      · exact .refl
      · obtain ⟨-, -, -, hframe⟩ := h
        exact (ih hframe hb).tail (hframe.2.1 a rfl)

omit [DecidableEq α] in
theorem Ordered.mono (hclosing : closing ⊆ closing') (h : Ordered neighbors closing finished) :
    Ordered neighbors closing' finished := by
  induction finished with
  | nil => exact trivial
  | cons a before ih => exact ⟨fun b l hb => (h.1 b l hb).imp_left (hclosing ·), ih h.2⟩

omit [DecidableEq α] in
/-- One more arc has been taken. -/
theorem Frames.advance {a : α} {i : Nat} {rest : List (α × Nat)} {b : α} {l : ι}
    (h : Frames neighbors finished closing none ((a, i) :: rest)) (hi : (neighbors a)[i]? = some (b, l))
    (hclosing : closing ⊆ closing') {above : Option α} (habove : ∀ c, above = some c → c = b)
    (hb : l ∈ closing' ∨ b ∈ finished ∨ above = some b) :
    Frames neighbors finished closing' above ((a, i + 1) :: rest) := by
  obtain ⟨htaken, -, -, hbelow⟩ := h
  refine ⟨fun c l' hc => ?_, fun c hc => ?_, (List.getElem?_eq_some_iff.mp hi).1,
    hbelow.mono (List.Subset.refl _) hclosing⟩
  · rw [List.take_add_one, hi, Option.toList_some, List.mem_append, List.mem_singleton] at hc
    obtain hc | hc := hc
    · exact (htaken c l' hc).imp (hclosing ·) (.imp_right fun hnone => (nomatch hnone))
    · obtain ⟨rfl, rfl⟩ := Prod.mk.inj hc
      exact hb
  · obtain rfl := habove c hc
    exact ⟨l, List.mem_of_getElem? hi⟩

/-- **What a turn does.** -/
theorem turn_cases (neighbors : α → List (α × ι)) (st : State α ι) :
    (st.stack = [] ∧ turn neighbors st = st) ∨ ∃ a i rest, st.stack = (a, i) :: rest ∧
      (((neighbors a).length ≤ i ∧ turn neighbors st = ⟨a :: st.finished, st.closing, rest⟩) ∨
      ∃ b l, (neighbors a)[i]? = some (b, l) ∧
        ((b ∈ st.stack.map Prod.fst ∧ turn neighbors st = ⟨st.finished, st.closing ++ [l], (a, i + 1) :: rest⟩) ∨
        (b ∉ st.stack.map Prod.fst ∧ b ∈ st.finished ∧
          turn neighbors st = ⟨st.finished, st.closing, (a, i + 1) :: rest⟩) ∨
        (b ∉ st.stack.map Prod.fst ∧ b ∉ st.finished ∧
          turn neighbors st = ⟨st.finished, st.closing, (b, 0) :: (a, i + 1) :: rest⟩))) := by
  obtain ⟨finished, closing, stack⟩ := st
  unfold turn
  cases stack with
  | nil => exact .inl ⟨rfl, rfl⟩
  | cons frame rest =>
      obtain ⟨a, i⟩ := frame
      refine .inr ⟨a, i, rest, rfl, ?_⟩
      dsimp only
      cases hi : (neighbors a)[i]? with
      | none => exact .inl ⟨List.getElem?_eq_none_iff.mp hi, rfl⟩
      | some arc =>
          obtain ⟨b, l⟩ := arc
          refine .inr ⟨b, l, rfl, ?_⟩
          dsimp only
          by_cases hstack : b ∈ ((a, i) :: rest).map Prod.fst
          · exact .inl ⟨hstack, if_pos hstack⟩
          · rw [if_neg hstack]
            by_cases hfinished : b ∈ finished
            · exact .inr (.inl ⟨hstack, hfinished, if_pos hfinished⟩)
            · exact .inr (.inr ⟨hstack, hfinished, if_neg hfinished⟩)

/-- **One turn.** -/
theorem Inv.turn (hclosed : ∀ a ∈ nodes, ∀ b l, (b, l) ∈ neighbors a → b ∈ nodes) {st : State α ι}
    (h : Inv neighbors nodes st) : Inv neighbors nodes (turn neighbors st) := by
  have hframes := h.frames
  have hnodup := h.nodup
  have hknown := h.known
  obtain ⟨-, heq⟩ | ⟨a, i, rest, hst, ⟨hlast, heq⟩ | ⟨b, l, hi, hcases⟩⟩ := turn_cases neighbors st
  · rwa [heq]
  · -- all arcs have been taken
    rw [hst] at hframes hnodup hknown
    have htaken := hframes.1
    rw [List.take_of_length_le hlast] at htaken
    rw [heq]
    refine ⟨hframes.2.2.2.finish, ⟨fun b l hb => (htaken b l hb).imp_right fun hor => ?_, h.ordered⟩, ?_, fun x hx => ?_,
      h.cycles⟩
    · exact hor.resolve_right fun hnone => (nomatch hnone)
    · refine (List.Perm.nodup_iff ?_).mpr hnodup
      exact List.perm_middle
    · refine hknown ((List.Perm.mem_iff ?_).mp hx)
      exact List.perm_middle
  · rw [hst] at hframes hnodup hknown hcases
    obtain ⟨hstack, heq⟩ | ⟨-, hfinished, heq⟩ | ⟨hstack, hfinished, heq⟩ := hcases
    · rw [heq]
      refine ⟨hframes.advance hi (List.subset_append_left _ _) (fun c hc => (nomatch hc)) (.inl (by simp)),
        h.ordered.mono (List.subset_append_left _ _), hnodup, hknown, fun l' hl' => ?_⟩
      obtain hl' | hl' := List.mem_append.mp hl'
      · exact h.cycles l' hl'
      · obtain rfl := List.mem_singleton.mp hl'
        exact ⟨a, b, List.mem_of_getElem? hi, hframes.reaches hstack⟩
    · rw [heq]
      exact ⟨hframes.advance hi (List.Subset.refl _) (fun c hc => (nomatch hc)) (.inr (.inl hfinished)), h.ordered,
        hnodup, hknown, h.cycles⟩
    · rw [heq]
      have hb : b ∈ nodes := hclosed a (hknown (by simp)) b l (List.mem_of_getElem? hi)
      refine ⟨⟨fun c l' hc => by simp at hc, fun c hc => (nomatch hc), Nat.zero_le _, ?_⟩, h.ordered, ?_, ?_, h.cycles⟩
      · exact hframes.advance hi (List.Subset.refl _) (fun c hc => (Option.some.inj hc).symm) (.inr (.inr rfl))
      · refine List.nodup_cons.mpr ⟨fun hmem => ?_, hnodup⟩
        exact (List.mem_append.mp hmem).elim hstack hfinished
      · exact List.cons_subset.mpr ⟨hb, hknown⟩

/-! ### The turns that are left -/

variable (neighbors) in
/-- The turns that a node is still good for. -/
def turnsAt (st : State α ι) (a : α) : Nat :=
  if a ∈ st.finished then 0 else (neighbors a).length + 1 - (Dict.get? st.stack a).getD 0

variable (neighbors) in
def turnsLeft (nodes : List α) (st : State α ι) : Nat := (nodes.map (turnsAt neighbors st)).sum

/-- A turn is one of the node on top. -/
theorem turnsLeft_turn {st : State α ι} (h : Inv neighbors nodes st) (hst : st.stack ≠ []) :
    turnsLeft neighbors nodes (turn neighbors st) < turnsLeft neighbors nodes st := by
  have hnodup := h.nodup
  have hframes := h.frames
  obtain ⟨hnil, -⟩ | ⟨a, i, rest, hstack, hcases⟩ := turn_cases neighbors st
  · exact absurd hnil hst
  · rw [hstack] at hnodup hframes
    have hunfinished : a ∉ st.finished := (List.disjoint_of_nodup_append hnodup) List.mem_cons_self
    have hnode : a ∈ nodes := h.known (by rw [hstack]; simp)
    have hi := hframes.2.2.1
    have hspent : turnsAt neighbors st a = (neighbors a).length + 1 - i := by
      rw [turnsAt, if_neg hunfinished, hstack, Dict.get?_cons, if_pos rfl, Option.getD_some]
    have hspends : turnsAt neighbors (turn neighbors st) a < turnsAt neighbors st a ∧
        ∀ x, x ≠ a → turnsAt neighbors (turn neighbors st) x = turnsAt neighbors st x := by
      have hadvance : ∀ closing, turnsAt neighbors ⟨st.finished, closing, (a, i + 1) :: rest⟩ a <
          turnsAt neighbors st a ∧ ∀ x, x ≠ a →
            turnsAt neighbors ⟨st.finished, closing, (a, i + 1) :: rest⟩ x = turnsAt neighbors st x := by
        intro closing
        refine ⟨?_, fun x hx => ?_⟩
        · rw [hspent, turnsAt, if_neg hunfinished, Dict.get?_cons, if_pos rfl, Option.getD_some]
          omega
        · rw [turnsAt, turnsAt, hstack, Dict.get?_cons, Dict.get?_cons, if_neg hx.symm, if_neg hx.symm]
      obtain ⟨-, heq⟩ | ⟨b, l, -, ⟨-, heq⟩ | ⟨-, -, heq⟩ | ⟨hb, -, heq⟩⟩ := hcases
      · rw [heq, hspent]
        refine ⟨?_, fun x hx => ?_⟩
        · rw [turnsAt, if_pos List.mem_cons_self]
          omega
        · rw [turnsAt, turnsAt, hstack, Dict.get?_cons, if_neg hx.symm]
          simp only [List.mem_cons, hx, false_or]
      · rw [heq]
        exact hadvance _
      · rw [heq]
        exact hadvance _
      · -- the node that is entered has all its turns left
        have hba : b ≠ a := fun hba => hb (by rw [hstack, hba]; exact List.mem_cons_self)
        have hentered : ∀ x, turnsAt neighbors ⟨st.finished, st.closing, (b, 0) :: (a, i + 1) :: rest⟩ x =
            turnsAt neighbors ⟨st.finished, st.closing, (a, i + 1) :: rest⟩ x := by
          intro x
          rw [turnsAt, turnsAt, Dict.get?_cons b 0 ((a, i + 1) :: rest)]
          by_cases hx : b = x
          · subst hx
            have hnone : Dict.get? ((a, i + 1) :: rest) b = none := by
              rw [Dict.get?_cons, if_neg (Ne.symm hba), ← Option.not_isSome_iff_eq_none, Dict.isSome_get?_iff]
              rintro ⟨e, he, rfl⟩
              exact hb (by rw [hstack]; exact List.mem_cons_of_mem _ (List.mem_map_of_mem he))
            rw [if_pos rfl, hnone]
            rfl
          · rw [if_neg hx]
        rw [heq]
        simp only [hentered]
        exact hadvance _
    refine List.sum_lt_sum _ _ (fun x _ => ?_) ⟨a, hnode, hspends.1⟩
    by_cases hx : x = a
    · exact hx ▸ hspends.1.le
    · exact (hspends.2 x hx).le

/-- **Turn after turn**, until the stack is empty. -/
theorem Inv.iterate (hclosed : ∀ a ∈ nodes, ∀ b l, (b, l) ∈ neighbors a → b ∈ nodes) {fuel : Nat} {st : State α ι}
    (h : Inv neighbors nodes st) (hfuel : turnsLeft neighbors nodes st ≤ fuel) :
    Inv neighbors nodes ((DepthFirst.turn neighbors)^[fuel] st) ∧ ((DepthFirst.turn neighbors)^[fuel] st).stack = [] ∧
      st.stack.map Prod.fst ++ st.finished ⊆ ((DepthFirst.turn neighbors)^[fuel] st).finished := by
  induction fuel generalizing st with
  | zero =>
      have hempty : st.stack = [] := by
        by_contra hst
        exact Nat.not_lt_zero _ ((turnsLeft_turn h hst).trans_le hfuel)
      refine ⟨h, hempty, ?_⟩
      rw [hempty]
      exact List.Subset.refl _
  | succ fuel ih =>
      rw [Function.iterate_succ_apply]
      by_cases hst : st.stack = []
      · have hturn : DepthFirst.turn neighbors st = st := by
          obtain ⟨-, heq⟩ | ⟨a, i, rest, hstack, -⟩ := turn_cases neighbors st
          · exact heq
          · rw [hst] at hstack
            cases hstack
        have hfixed : (DepthFirst.turn neighbors)^[fuel] st = st := Function.iterate_fixed hturn fuel
        rw [hturn, hfixed, hst]
        exact ⟨h, rfl, List.Subset.refl _⟩
      · obtain ⟨hinv, hempty, hfound⟩ := ih (h.turn hclosed)
          (Nat.lt_succ_iff.mp ((turnsLeft_turn h hst).trans_le hfuel))
        refine ⟨hinv, hempty, fun x hx => hfound ?_⟩
        obtain ⟨hnil, -⟩ | ⟨a, i, rest, hstack, hcases⟩ := turn_cases neighbors st
        · exact absurd hnil hst
        · rw [hstack] at hx
          obtain ⟨-, heq⟩ | ⟨b, l, -, ⟨-, heq⟩ | ⟨-, -, heq⟩ | ⟨-, -, heq⟩⟩ := hcases
          · rw [heq]
            refine (List.Perm.mem_iff ?_).mpr hx
            exact List.perm_middle
          · rw [heq]
            exact hx
          · rw [heq]
            exact hx
          · rw [heq]
            exact List.mem_cons_of_mem _ hx

/-! ### The whole search -/

theorem turnsLeft_le (st : State α ι) :
    turnsLeft neighbors nodes st ≤ (nodes.map fun a => (neighbors a).length + 1).sum := by
  refine List.sum_le_sum fun a _ => ?_
  unfold turnsAt
  by_cases h : a ∈ st.finished
  · rw [if_pos h]
    exact Nat.zero_le _
  · rw [if_neg h]
    exact Nat.sub_le _ _

omit [DecidableEq α] in
variable (neighbors nodes) in
theorem inv_empty : Inv neighbors nodes (⟨[], [], []⟩ : State α ι) :=
  ⟨trivial, trivial, List.nodup_nil, List.nil_subset _, fun _ hl => absurd hl List.not_mem_nil⟩

omit [DecidableEq α] in
theorem Inv.start {st : State α ι} (h : Inv neighbors nodes st) {start : α} (hfound : start ∉ st.finished)
    (hstart : start ∈ nodes) (hempty : st.stack = []) : Inv neighbors nodes { st with stack := [(start, 0)] } := by
  have hnodup := h.nodup
  have hknown := h.known
  rw [hempty] at hnodup hknown
  refine ⟨⟨fun b l hb => by simp at hb, fun b hb => (nomatch hb), Nat.zero_le _, trivial⟩, h.ordered, ?_, ?_, h.cycles⟩
  · exact List.nodup_cons.mpr ⟨hfound, hnodup⟩
  · exact List.cons_subset.mpr ⟨hstart, hknown⟩

/-- **One start.** -/
theorem Inv.enter (hclosed : ∀ a ∈ nodes, ∀ b l, (b, l) ∈ neighbors a → b ∈ nodes) {fuel : Nat}
    (hfuel : (nodes.map fun a => (neighbors a).length + 1).sum ≤ fuel) {st : State α ι} (h : Inv neighbors nodes st)
    (hempty : st.stack = []) {start : α} (hstart : start ∈ nodes) :
    Inv neighbors nodes (enter neighbors fuel st start) ∧ (enter neighbors fuel st start).stack = [] ∧
      start ∈ (enter neighbors fuel st start).finished ∧ st.finished ⊆ (enter neighbors fuel st start).finished := by
  unfold DepthFirst.enter
  by_cases hfound : start ∈ st.finished
  · rw [if_pos hfound]
    exact ⟨h, hempty, hfound, List.Subset.refl _⟩
  · rw [if_neg hfound]
    obtain ⟨hinv', hempty', hsub⟩ := (h.start hfound hstart hempty).iterate hclosed ((turnsLeft_le _).trans hfuel)
    exact ⟨hinv', hempty', hsub List.mem_cons_self, fun x hx => hsub (List.mem_cons_of_mem _ hx)⟩

theorem Inv.foldl_enter (hclosed : ∀ a ∈ nodes, ∀ b l, (b, l) ∈ neighbors a → b ∈ nodes) {fuel : Nat}
    (hfuel : (nodes.map fun a => (neighbors a).length + 1).sum ≤ fuel) {starts : List α} (hstarts : starts ⊆ nodes)
    {st : State α ι} (h : Inv neighbors nodes st) (hempty : st.stack = []) :
    Inv neighbors nodes (starts.foldl (DepthFirst.enter neighbors fuel) st) ∧
      starts ++ st.finished ⊆ (starts.foldl (DepthFirst.enter neighbors fuel) st).finished := by
  induction starts generalizing st with
  | nil => exact ⟨h, List.Subset.refl _⟩
  | cons start rest ih =>
      obtain ⟨hstart, hrest⟩ := List.cons_subset.mp hstarts
      obtain ⟨hinv, hempty', hfound, hsub⟩ := h.enter hclosed hfuel hempty hstart
      obtain ⟨hinv', hsub'⟩ := ih hrest hinv hempty'
      refine ⟨hinv', List.cons_subset.mpr ⟨hsub' (List.mem_append_right _ hfound), fun x hx => hsub' ?_⟩⟩
      exact (List.mem_append.mp hx).elim (List.mem_append_left _) fun hx => List.mem_append_right _ (hsub hx)

omit [DecidableEq α] in
/-- Along the arcs that do not close a cycle one comes to nodes that were finished before. -/
theorem Ordered.before (h : Ordered neighbors closing finished) {before : List α} {a b : α}
    (hsplit : (a :: before) <:+ finished) (hpath : Relation.TransGen (Other neighbors closing) a b) : b ∈ before := by
  have hstep : ∀ {a : α} {before finished : List α}, Ordered neighbors closing finished → (a :: before) <:+ finished →
      ∀ b, Other neighbors closing a b → b ∈ before := by
    intro a before finished hordered hsuffix b ⟨l, harc, hother⟩
    induction finished with
    | nil => cases List.eq_nil_of_suffix_nil hsuffix
    | cons c rest ih =>
        obtain heq | hsuffix := List.suffix_cons_iff.mp hsuffix
        · obtain ⟨rfl, rfl⟩ := List.cons.inj heq
          exact (hordered.1 b l harc).resolve_left hother
        · exact ih hordered.2 hsuffix
  induction hpath with
  | single hab => exact hstep h hsplit _ hab
  | tail _ hbc ih =>
      obtain ⟨earlier, later, rfl⟩ := List.append_of_mem ih
      have hsuffix : ∀ b, (b :: later) <:+ a :: (earlier ++ b :: later) := fun b =>
        (List.suffix_append _ _).trans (List.suffix_cons _ _)
      exact List.mem_append_right _ (List.mem_cons_of_mem _ (hstep h ((hsuffix _).trans hsplit) _ hbc))

/-- **The search finds the cycles**: the labels it reports lie on cycles, and there are none without them. -/
theorem search_cycles (hclosed : ∀ a ∈ nodes, ∀ b l, (b, l) ∈ neighbors a → b ∈ nodes)
    (houtside : ∀ a b l, (b, l) ∈ neighbors a → a ∈ nodes) {fuel : Nat}
    (hfuel : (nodes.map fun a => (neighbors a).length + 1).sum ≤ fuel) {starts : List α}
    (hstarts : ∀ a, a ∈ starts ↔ a ∈ nodes) :
    (∀ l ∈ (search neighbors fuel starts).closing, OnCycle neighbors l) ∧
      ∀ a, ¬ Relation.TransGen (Other neighbors (search neighbors fuel starts).closing) a a := by
  obtain ⟨hinv, hfound⟩ := (inv_empty neighbors nodes).foldl_enter hclosed hfuel (fun a ha => (hstarts a).mp ha) rfl
  refine ⟨hinv.cycles, fun a hcycle => ?_⟩
  obtain ⟨b, ⟨l, harc, -⟩, -⟩ := Relation.TransGen.head'_iff.mp hcycle
  have ha : a ∈ (search neighbors fuel starts).finished :=
    hfound (List.mem_append_left _ ((hstarts a).mpr (houtside a b l harc)))
  obtain ⟨later, before, hsplit⟩ := List.append_of_mem ha
  have hsuffix : (a :: before) <:+ (search neighbors fuel starts).finished := ⟨later, hsplit.symm⟩
  have hnodup := (List.nodup_append.mp hinv.nodup).2.1
  have hmem := hinv.ordered.before hsuffix hcycle
  exact (List.nodup_cons.mp (hnodup.sublist hsuffix.sublist)).1 hmem

end DepthFirst
