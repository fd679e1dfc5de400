import Mathlib.Data.List.Induction
import Mathlib.Order.Basic

/-!
# Sliding windows

A limiter that admits a request when fewer than `limit` of the admitted ones still count, and forgets
those that do not. Which ones count is a relation between the present and a stamp, the window; all it
has to be is closed under going back: a stamp that counts now counted before.
-/

namespace SlidingWindow

variable {T : Type} [Preorder T]

/-- When a stamp counts. -/
structure Window (T : Type) [Preorder T] where
  live : T → T → Bool
  live_of_le : ∀ {now later t : T}, now ≤ later → live later t = true → live now t = true

variable (w : Window T) (limit : Nat)

/-- One request. The stamps that no longer count are dropped, whether it is admitted or not. -/
def attempt (now : T) (stamps : List T) : Bool × List T :=
  let kept := stamps.filter (w.live now)
  if limit ≤ kept.length then (false, kept) else (true, kept ++ [now])

/-- The same without forgetting: the stamps of all requests admitted so far. -/
def record (now : T) (log : List T) : Bool × List T :=
  if limit ≤ (log.filter (w.live now)).length then (false, log) else (true, log ++ [now])

/-- From `now` on, the stamps kept count as all of them do. -/
def Keeps (now : T) (stamps log : List T) : Prop :=
  ∀ later, now ≤ later → stamps.filter (w.live later) = log.filter (w.live later)

variable {w limit} {now later t : T} {stamps log : List T}

theorem Keeps.mono (h : Keeps w now stamps log) (hle : now ≤ later) : Keeps w later stamps log :=
  fun t ht => h t (hle.trans ht)

/-- Dropping what does not count now drops nothing that counts later. -/
theorem filter_filter_live (hle : now ≤ later) (stamps : List T) :
    (stamps.filter (w.live now)).filter (w.live later) = stamps.filter (w.live later) := by
  rw [List.filter_filter]
  apply List.filter_congr
  intro t _
  cases hlive : w.live later t with
  | false => rfl
  | true => simpa using w.live_of_le hle hlive

theorem Keeps.filtered (h : Keeps w now stamps log) : Keeps w now (stamps.filter (w.live now)) log := by
  intro later hle
  rw [filter_filter_live hle, h later hle]

theorem Keeps.append (h : Keeps w now stamps log) (added : List T) :
    Keeps w now (stamps ++ added) (log ++ added) := by
  intro later hle
  rw [List.filter_append, List.filter_append, h later hle]

/-- **Forgetting changes no decision**, and keeps enough for the next one. -/
theorem Keeps.attempt (h : Keeps w now stamps log) (limit : Nat) :
    (attempt w limit now stamps).1 = (record w limit now log).1 ∧
      Keeps w now (SlidingWindow.attempt w limit now stamps).2 (record w limit now log).2 := by
  have hlength := congrArg List.length (h now le_rfl)
  unfold SlidingWindow.attempt record
  by_cases hfull : limit ≤ (stamps.filter (w.live now)).length
  · rw [if_pos hfull, if_pos (hlength ▸ hfull)]
    exact ⟨rfl, h.filtered⟩
  · rw [if_neg hfull, if_neg (hlength ▸ hfull)]
    exact ⟨rfl, h.filtered.append [now]⟩

/-- At most `limit` of the stamps that count at once. -/
def Bounded (w : Window T) (limit : Nat) (log : List T) : Prop :=
  ∀ p : T → Bool, (∀ s ∈ log, ∀ t ∈ log, p s = true → p t = true → s ≤ t → w.live t s = true) →
    (log.filter p).length ≤ limit

theorem bounded_nil : Bounded w limit ([] : List T) := fun _ _ => Nat.zero_le _

/-- One more request keeps every window within the limit, when time does not go back. -/
theorem Bounded.record (h : Bounded w limit log) (hle : ∀ t ∈ log, t ≤ now) :
    Bounded w limit (record w limit now log).2 := by
  unfold SlidingWindow.record
  by_cases hfull : limit ≤ (log.filter (w.live now)).length
  · rw [if_pos hfull]
    exact h
  · rw [if_neg hfull]
    intro p hp
    have hlog : (log.filter p).length ≤ limit := by
      apply h p
      intro s hs t ht
      exact hp s (List.mem_append_left _ hs) t (List.mem_append_left _ ht)
    by_cases hnow : p now = true
    · -- whatever of the window came before still counts at the new request
      have hsub : (log.filter p).length ≤ (log.filter (w.live now)).length := by
        rw [← List.countP_eq_length_filter, ← List.countP_eq_length_filter]
        apply List.countP_mono_left
        intro t ht hpt
        exact hp t (List.mem_append_left _ ht) now (by simp) hpt hnow (hle t ht)
      rw [List.filter_append, List.filter_cons_of_pos hnow, List.filter_nil, List.length_append,
        List.length_singleton]
      omega
    · rw [List.filter_append, List.filter_cons_of_neg hnow, List.filter_nil, List.append_nil]
      exact hlog

theorem le_of_mem_record (hle : ∀ t ∈ log, t ≤ now) : ∀ t ∈ (record w limit now log).2, t ≤ now := by
  unfold record
  by_cases hfull : limit ≤ (log.filter (w.live now)).length
  · rw [if_pos hfull]
    exact hle
  · rw [if_neg hfull]
    intro t ht
    rcases List.mem_append.mp ht with hmem | hmem
    · exact hle t hmem
    · exact (List.mem_singleton.mp hmem).le

theorem pairwise_record (h : log.Pairwise (· ≤ ·)) (hle : ∀ t ∈ log, t ≤ now) :
    (record w limit now log).2.Pairwise (· ≤ ·) := by
  unfold record
  by_cases hfull : limit ≤ (log.filter (w.live now)).length
  · rw [if_pos hfull]
    exact h
  · rw [if_neg hfull]
    refine List.pairwise_append.mpr ⟨h, List.pairwise_singleton _ _, fun s hs t ht => ?_⟩
    exact List.mem_singleton.mp ht ▸ hle s hs

end SlidingWindow
