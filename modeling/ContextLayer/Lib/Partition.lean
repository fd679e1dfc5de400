import Mathlib.Data.List.DropRight
import Mathlib.Data.List.TakeWhile
import Mathlib.Data.Nat.Find

/-!
# Cutting and stripping

A list is cut at the first of a separator, and stripped of what a predicate holds of at either end.
-/

namespace Partition

variable {α β : Type}

/-! ### Cutting -/

/-- What stands ahead of the first separator, and what behind it. -/
def cut [DecidableEq α] (sep : α) : List α → Option (List α × List α)
  | [] => none
  | a :: l => if a = sep then some ([], l) else (cut sep l).map fun parts => (a :: parts.1, parts.2)

theorem cut_append [DecidableEq α] {sep : α} {a b : List α} (h : sep ∉ a) :
    cut sep (a ++ sep :: b) = some (a, b) := by
  induction a with
  | nil => rw [List.nil_append, cut, if_pos rfl]
  | cons c a ih =>
      rw [List.mem_cons, not_or] at h
      rw [List.cons_append, cut, if_neg (Ne.symm h.1), ih h.2]
      rfl

theorem cut_eq_none [DecidableEq α] {sep : α} {l : List α} : cut sep l = none ↔ sep ∉ l := by
  induction l with
  | nil => exact iff_of_true rfl List.not_mem_nil
  | cons c l ih =>
      rw [cut]
      by_cases hc : c = sep
      · rw [if_pos hc]
        exact iff_of_false nofun fun h => h (hc ▸ List.mem_cons_self)
      · rw [if_neg hc, Option.map_eq_none_iff, ih, List.mem_cons, or_iff_right (Ne.symm hc)]

theorem cut_eq_some [DecidableEq α] {sep : α} {l a b : List α} :
    cut sep l = some (a, b) ↔ l = a ++ sep :: b ∧ sep ∉ a := by
  refine ⟨fun h => ?_, fun ⟨hl, ha⟩ => hl ▸ cut_append ha⟩
  induction l generalizing a with
  | nil => cases h
  | cons c l ih =>
      rw [cut] at h
      by_cases hc : c = sep
      · rw [if_pos hc] at h
        obtain ⟨rfl, rfl⟩ := Prod.mk.inj (Option.some.inj h)
        exact ⟨hc ▸ rfl, List.not_mem_nil⟩
      · rw [if_neg hc] at h
        obtain ⟨⟨a', b'⟩, hcut, heq⟩ := Option.map_eq_some_iff.mp h
        obtain ⟨rfl, rfl⟩ := Prod.mk.inj heq
        obtain ⟨rfl, ha⟩ := ih hcut
        refine ⟨rfl, ?_⟩
        rw [List.mem_cons, not_or]
        exact ⟨Ne.symm hc, ha⟩

/-! ### The first of a word -/

/-- No cut at the word is further ahead. -/
theorem dropInfix?_eq_some [DecidableEq α] {l word a b : List α} :
    l.dropInfix? word = some (a, b) ↔
      l = a ++ (word ++ b) ∧ ∀ a' b', l = a' ++ (word ++ b') → a.length ≤ a'.length := by
  rw [List.dropInfix?_eq_some_iff]
  constructor
  · rintro ⟨⟨word', hl, hword⟩, hfirst⟩
    obtain rfl := eq_of_beq hword
    refine ⟨by rw [hl, List.append_assoc], fun a' b' h => ?_⟩
    exact hfirst a' word' b' (by rw [h, List.append_assoc]) BEq.rfl
  · rintro ⟨hl, hfirst⟩
    refine ⟨⟨word, by rw [hl, List.append_assoc], BEq.rfl⟩, fun a' word' b' h hword => ?_⟩
    obtain rfl := eq_of_beq hword
    exact hfirst a' b' (by rw [h, List.append_assoc])

theorem dropInfix?_eq_none [DecidableEq α] {l word : List α} :
    l.dropInfix? word = none ↔ ∀ a b, l ≠ a ++ (word ++ b) := by
  classical
  constructor
  · intro h a b hl
    have hex : ∃ n, ∃ a b, l = a ++ (word ++ b) ∧ a.length = n := ⟨a.length, a, b, hl, rfl⟩
    obtain ⟨a', b', hl', hlength⟩ := Nat.find_spec hex
    have hsome := dropInfix?_eq_some.mpr ⟨hl', fun a'' b'' h'' =>
      hlength ▸ Nat.find_min' hex ⟨a'', b'', h'', rfl⟩⟩
    rw [h] at hsome
    cases hsome
  · intro h
    cases hcut : l.dropInfix? word with
    | none => rfl
    | some parts => exact absurd (dropInfix?_eq_some.mp hcut).1 (h parts.1 parts.2)

theorem dropInfix?_of_prefix [DecidableEq α] {word l : List α} (h : word <+: l) :
    l.dropInfix? word = some ([], l.drop word.length) := by
  obtain ⟨b, rfl⟩ := h
  rw [List.drop_left]
  exact dropInfix?_eq_some.mpr ⟨rfl, fun _ _ _ => Nat.zero_le _⟩

theorem dropInfix?_cons [DecidableEq α] {word l : List α} {c : α} (h : ¬ word <+: c :: l) :
    (c :: l).dropInfix? word = (l.dropInfix? word).map fun parts => (c :: parts.1, parts.2) := by
  have hcons : ∀ {a b}, c :: l = a ++ (word ++ b) → ∃ a', a = c :: a' ∧ l = a' ++ (word ++ b) := by
    intro a b hl
    cases a with
    | nil => exact absurd ⟨b, hl.symm⟩ h
    | cons d a =>
        obtain ⟨rfl, hrest⟩ := List.cons.inj hl
        exact ⟨a, rfl, hrest⟩
  cases hcut : l.dropInfix? word with
  | none =>
      refine dropInfix?_eq_none.mpr fun a b hl => ?_
      obtain ⟨a', -, hl'⟩ := hcons hl
      exact dropInfix?_eq_none.mp hcut a' b hl'
  | some parts =>
      obtain ⟨hl, hfirst⟩ := dropInfix?_eq_some.mp hcut
      refine dropInfix?_eq_some.mpr ⟨congrArg (c :: ·) hl, fun a b hab => ?_⟩
      obtain ⟨a', rfl, hl'⟩ := hcons hab
      exact Nat.succ_le_succ (hfirst a' b hl')

theorem dropInfix?_singleton [DecidableEq α] (c : α) (l : List α) : l.dropInfix? [c] = cut c l := by
  induction l with
  | nil => rfl
  | cons d l ih =>
      rw [cut]
      by_cases hc : d = c
      · rw [if_pos hc, dropInfix?_of_prefix (List.cons_prefix_cons.mpr ⟨hc.symm, List.nil_prefix⟩)]
        rfl
      · rw [if_neg hc, dropInfix?_cons fun h => hc (List.cons_prefix_cons.mp h).1.symm, ih]

/-! ### Stripping -/

variable {p : α → Bool}

/-- Without what `p` holds of at either end. -/
def strip (p : α → Bool) (l : List α) : List α := (l.dropWhile p).rdropWhile p

theorem strip_eq_nil {l : List α} : strip p l = [] ↔ ∀ a ∈ l, p a = true := by
  rw [strip, List.rdropWhile_eq_nil_iff]
  refine ⟨fun h a ha => ?_, fun h a ha => h a (List.dropWhile_suffix p |>.subset ha)⟩
  rw [← List.takeWhile_append_dropWhile (p := p) (l := l), List.mem_append] at ha
  exact ha.elim List.mem_takeWhile_imp (h a)

theorem strip_ne_nil {l : List α} : strip p l ≠ [] ↔ ∃ a ∈ l, p a = false := by
  rw [Ne, strip_eq_nil]
  simp only [not_forall, Bool.not_eq_true, exists_prop]

/-- A strip is found where its ends are. -/
theorem strip_append {a b c : List α} (ha : ∀ x ∈ a, p x = true) (hb : ∀ x ∈ b, p x = true)
    (hhead : ∀ x ∈ c.head?, p x = false) (hlast : ∀ x ∈ c.getLast?, p x = false) :
    strip p (a ++ (c ++ b)) = c := by
  rw [strip, List.dropWhile_append_of_pos ha]
  cases c with
  | nil => rw [List.nil_append, List.dropWhile_eq_nil_iff.mpr hb, List.rdropWhile_nil]
  | cons x c =>
      have hx : ¬ p x = true := by rw [hhead x rfl]; exact Bool.false_ne_true
      rw [List.cons_append, List.dropWhile_cons_of_neg hx, ← List.cons_append, List.rdropWhile,
        List.reverse_append, List.dropWhile_append_of_pos fun y hy => hb y (List.mem_reverse.mp hy)]
      have hrest : ((x :: c).reverse.dropWhile p) = (x :: c).reverse := by
        refine List.dropWhile_eq_self_iff.mpr fun hpos => ?_
        rw [hlast _ (by rw [List.getLast?_eq_head?_reverse, List.head?_eq_getElem?,
          List.getElem?_eq_getElem hpos]; rfl)]
        exact Bool.false_ne_true
      rw [hrest, List.reverse_reverse]

/-- A list falls apart into its ends and what is stripped of them. -/
theorem exists_strip (p : α → Bool) (l : List α) : ∃ a b, l = a ++ (strip p l ++ b) ∧
    (∀ x ∈ a, p x = true) ∧ (∀ x ∈ b, p x = true) ∧ (∀ x ∈ (strip p l).head?, p x = false) ∧
      ∀ x ∈ (strip p l).getLast?, p x = false := by
  refine ⟨l.takeWhile p, (l.dropWhile p).rtakeWhile p, ?_, fun x hx => List.mem_takeWhile_imp hx,
    fun x hx => List.mem_rtakeWhile_imp hx, fun x hx => ?_, fun x hx => ?_⟩
  · rw [strip, List.rdropWhile_append_rtakeWhile, List.takeWhile_append_dropWhile]
  · have hhead : (l.dropWhile p).head? = some x := by
      obtain ⟨rest, hrest⟩ := List.rdropWhile_prefix p (l := l.dropWhile p)
      rw [← hrest, List.head?_append, show (List.rdropWhile p (l.dropWhile p)).head? = some x from hx,
        Option.some_or]
    have hnot := List.head?_dropWhile_not p l
    rw [hhead] at hnot
    exact hnot
  · rw [strip, Option.mem_def, List.getLast?_eq_some_getLast (List.ne_nil_of_mem (List.mem_of_getLast? hx)),
      Option.some_inj] at hx
    rw [← hx, ← Bool.not_eq_true]
    exact List.rdropWhile_last_not p _ _

end Partition
