import ContextLayer.Mcp
import ContextLayer.Lib.SlidingWindow
import ContextLayer.Proof.Platform
import Mathlib.Algebra.Order.Floor.Semiring

/-!
# Rate limits

The limiter keeps the stamps of the last minute or hour only, under one key per subject and category. Over
any run of the gateway it decides as one that kept them all: what begins a call is counted by is the number
of calls of the same subject and category that began within the window.
-/

namespace ContextLayer.Mcp

open Text SlidingWindow

/-! ### The limiter -/

theorem nul_notMem_text (category : RateCategory) : (0x00 : UInt16) ∉ category.text := by
  cases category <;> decide

theorem RateCategory.text_injective {c c' : RateCategory} (h : c.text = c'.text) : c = c' := by
  cases c <;> cases c' <;> first | rfl | exact absurd h (by decide)

/-- A subject may hold any unit, but the last NUL of a key is the separator. -/
theorem bucketKey_inj {subject subject' : Text} {c c' : RateCategory}
    (h : bucketKey subject c = bucketKey subject' c') : subject = subject' ∧ c = c' := by
  unfold bucketKey at h
  obtain ⟨gap, hsubject, htail⟩ | ⟨gap, hsubject, htail⟩ := List.append_eq_append_iff.mp h
  · cases gap with
    | nil =>
        rw [List.append_nil] at hsubject
        exact ⟨hsubject.symm, RateCategory.text_injective (List.cons.inj htail).2⟩
    | cons u gap =>
        refine absurd ?_ (nul_notMem_text c)
        rw [(List.cons.inj htail).2]
        simp
  · cases gap with
    | nil =>
        rw [List.append_nil] at hsubject
        exact ⟨hsubject, (RateCategory.text_injective (List.cons.inj htail).2).symm⟩
    | cons u gap =>
        refine absurd ?_ (nul_notMem_text c')
        rw [(List.cons.inj htail).2]
        simp

/-- The window of a category: what lies less than its milliseconds back. -/
def RateCategory.window (category : RateCategory) : Window Int where
  live now t := decide (now - t < category.ms)
  live_of_le := by
    intro now later t hle hlive
    rw [decide_eq_true_eq] at hlive ⊢
    omega

theorem live_iff {category : RateCategory} {now t : Int} :
    category.window.live now t = true ↔ now - t < category.ms := decide_eq_true_iff

def Limit.count (limit : Limit) : Nat := ⌈limit.val⌉₊

theorem Limit.count_pos (limit : Limit) : 0 < limit.count := Nat.ceil_pos.mpr limit.2

theorem Limit.count_le (limit : Limit) (n : Nat) : limit.count ≤ n ↔ limit.val ≤ n := Nat.ceil_le

variable {limiter : RateLimiter} {subject subject' : Text} {category category' : RateCategory} {now : Int}

/-- The calls that still count. -/
def RateLimiter.kept (limiter : RateLimiter) (subject : Text) (category : RateCategory) (now : Int) :
    List Int :=
  (limiter.bucket subject category).filter (category.window.live now)

@[simp]
theorem limits_check : (limiter.check subject category now).2.limits = limiter.limits := by
  unfold RateLimiter.check
  dsimp only
  split <;> rfl

theorem check_fst : (limiter.check subject category now).1 =
    if (limiter.limits.limit category).count ≤ (limiter.kept subject category now).length then
      some (retryAfterS (limiter.kept subject category now) category.ms now)
    else none := by
  unfold RateLimiter.check
  dsimp only
  change (if _ ≤ ((limiter.kept subject category now).length : ℚ) then _ else _ : RateDecision × RateLimiter).1 = _
  by_cases hfull : (limiter.limits.limit category).count ≤ (limiter.kept subject category now).length
  · rw [if_pos hfull, if_pos ((Limit.count_le _ _).mp hfull)]
    rfl
  · rw [if_neg hfull, if_neg fun hle => hfull ((Limit.count_le _ _).mpr hle)]

theorem bucket_check_self : (limiter.check subject category now).2.bucket subject category =
    (attempt category.window (limiter.limits.limit category).count now (limiter.bucket subject category)).2 := by
  unfold RateLimiter.check attempt
  dsimp only
  change (RateLimiter.bucket (if _ ≤ ((limiter.kept subject category now).length : ℚ) then _ else _ :
    RateDecision × RateLimiter).2 subject category) =
      (if _ ≤ (limiter.kept subject category now).length then _ else _ : Bool × List Int).2
  by_cases hfull : (limiter.limits.limit category).count ≤ (limiter.kept subject category now).length
  · rw [if_pos hfull, if_pos ((Limit.count_le _ _).mp hfull)]
    simp only [RateLimiter.bucket, Dict.get?_set_self, Option.getD_some]
    rfl
  · rw [if_neg hfull, if_neg fun hle => hfull ((Limit.count_le _ _).mpr hle)]
    simp only [RateLimiter.bucket, Dict.get?_set_self, Option.getD_some]
    rfl

/-- Nobody else's calls are touched. -/
theorem bucket_check_ne (h : subject ≠ subject' ∨ category ≠ category') :
    (limiter.check subject category now).2.bucket subject' category' = limiter.bucket subject' category' := by
  have hkey : bucketKey subject category ≠ bucketKey subject' category' := fun heq =>
    h.elim (· (bucketKey_inj heq).1) (· (bucketKey_inj heq).2)
  unfold RateLimiter.check
  dsimp only
  split <;> simp only [RateLimiter.bucket, Dict.get?_set_ne _ _ hkey]

/-! ### All calls so far -/

/-- When the counted calls of a subject in a category began. -/
def admittedAt (begun : List Running) (subject : Text) (category : RateCategory) : List Int :=
  (begun.filter fun r => r.admitted && decide (r.subject = subject) && decide (r.category = category)).map
    Running.started

theorem isRateLimited_verdict (profile : AgentProfile) (limit : RateDecision) (call : ToolCall) :
    (verdict profile limit call).isRateLimited = limit.isSome := by
  cases limit with
  | some k => rfl
  | none =>
      unfold verdict
      dsimp only
      split
      · split
        · split <;> rfl
        · rfl
      · rfl

theorem verdict_eq_rateLimited {profile : AgentProfile} {limit : RateDecision} {call : ToolCall} {k : Int}
    (h : verdict profile limit call = .rateLimited k) : limit = some k := by
  cases limit with
  | some k' => exact congrArg some (Verdict.rateLimited.inj h)
  | none =>
      have hnot := isRateLimited_verdict profile none call
      rw [h] at hnot
      cases hnot

variable {ctx : CallContext} {call : ToolCall} {auditId : Text}

theorem admitted_begin : (begin limiter ctx call auditId now).1.admitted =
    (limiter.check ctx.identity.subject (categoryForTool call.tool) now).1.isNone := by
  unfold Running.admitted begin
  dsimp only
  rw [isRateLimited_verdict, Option.not_isSome]

theorem admittedAt_append_of_ne {begun : List Running} {r : Running}
    (h : r.admitted = false ∨ r.subject ≠ subject ∨ r.category ≠ category) :
    admittedAt (begun ++ [r]) subject category = admittedAt begun subject category := by
  unfold admittedAt
  have hr : (r.admitted && decide (r.subject = subject) && decide (r.category = category)) = false := by
    rcases h with h | h | h <;> simp [h]
  rw [List.filter_append, List.filter_cons_of_neg (by simp only [hr, Bool.false_eq_true, not_false_iff]),
    List.filter_nil, List.append_nil]

theorem admittedAt_append_self {begun : List Running} {r : Running} (h : r.admitted = true) :
    admittedAt (begun ++ [r]) r.subject r.category = admittedAt begun r.subject r.category ++ [r.started] := by
  simp [admittedAt, List.filter_append, h]

/-- What the limiter holds, against all calls that were counted. -/
structure Limited (limits : RateLimits) (s : State) : Prop where
  limiter : s.limiter.limits = limits
  keeps : ∀ subject category, SlidingWindow.Keeps category.window s.clock (s.limiter.bucket subject category)
    (admittedAt s.begun subject category)
  bounded : ∀ subject category,
    Bounded category.window (limits.limit category).count (admittedAt s.begun subject category)
  past : ∀ subject category, ∀ t ∈ admittedAt s.begun subject category, t ≤ s.clock
  sorted : ∀ subject category, (admittedAt s.begun subject category).Pairwise (· ≤ ·)

variable {P : Platform} {rolesClaim : Text} {limits : RateLimits} {s s' : State}

/-- A call that begins is recorded as a limiter that forgets nothing would record it. -/
theorem Limited.record (h : Limited limits s) (ctx : CallContext) (call : ToolCall) (auditId : Text)
    (hclock : s.clock ≤ now) :
    let r := (begin s.limiter ctx call auditId now).1
    (r.admitted = (SlidingWindow.record r.category.window (limits.limit r.category).count now
        (admittedAt s.begun r.subject r.category)).1) ∧
      admittedAt (s.begun ++ [r]) r.subject r.category =
        (SlidingWindow.record r.category.window (limits.limit r.category).count now
          (admittedAt s.begun r.subject r.category)).2 := by
  intro r
  have hlength : (s.limiter.kept r.subject r.category now).length =
      ((admittedAt s.begun r.subject r.category).filter (r.category.window.live now)).length :=
    congrArg List.length (h.keeps r.subject r.category now hclock)
  have hadmitted : r.admitted =
      (s.limiter.check r.subject r.category now).1.isNone := admitted_begin
  rw [check_fst, h.limiter, hlength] at hadmitted
  unfold SlidingWindow.record
  by_cases hfull : (limits.limit r.category).count ≤
      ((admittedAt s.begun r.subject r.category).filter (r.category.window.live now)).length
  · rw [if_pos hfull] at hadmitted ⊢
    exact ⟨hadmitted, admittedAt_append_of_ne (.inl hadmitted)⟩
  · rw [if_neg hfull] at hadmitted ⊢
    exact ⟨hadmitted, admittedAt_append_self hadmitted⟩

theorem Limited.begin (h : Limited limits s) (hclock : s.clock ≤ now)
    (hbegun : s'.begun = s.begun ++ [(begin s.limiter ctx call auditId now).1])
    (hlimiter : s'.limiter = (begin s.limiter ctx call auditId now).2) (hnow : s'.clock = now) :
    Limited limits s' := by
  obtain ⟨-, hlog⟩ := h.record ctx call auditId hclock
  set r := (Mcp.begin s.limiter ctx call auditId now).1 with hr
  have hcheck : s'.limiter = (s.limiter.check r.subject r.category now).2 := hlimiter
  have hkeeps := ((h.keeps r.subject r.category).mono hclock).attempt (limits.limit r.category).count
  have hle : ∀ t ∈ admittedAt s.begun r.subject r.category, t ≤ now := fun t ht =>
    (h.past _ _ t ht).trans hclock
  -- the log of another subject or category stays as it is
  have hother : ∀ {subject category}, r.subject ≠ subject ∨ r.category ≠ category →
      admittedAt s'.begun subject category = admittedAt s.begun subject category := fun hne => by
    rw [hbegun]
    exact admittedAt_append_of_ne (.inr hne)
  have hcases : ∀ subject category, (r.subject ≠ subject ∨ r.category ≠ category) ∨
      r.subject = subject ∧ r.category = category := fun subject category => by
    by_cases hs : r.subject = subject
    · by_cases hc : r.category = category
      · exact .inr ⟨hs, hc⟩
      · exact .inl (.inr hc)
    · exact .inl (.inl hs)
  have hself : admittedAt s'.begun r.subject r.category =
      (SlidingWindow.record r.category.window (limits.limit r.category).count now
        (admittedAt s.begun r.subject r.category)).2 := hbegun ▸ hlog
  constructor
  · rw [hcheck, limits_check, h.limiter]
  · intro subject category
    rw [hnow, hcheck]
    rcases hcases subject category with hne | ⟨rfl, rfl⟩
    · rw [bucket_check_ne hne, hother hne]
      exact (h.keeps _ _).mono hclock
    · rw [bucket_check_self, h.limiter, hself]
      exact hkeeps.2
  · intro subject category
    rcases hcases subject category with hne | ⟨rfl, rfl⟩
    · rw [hother hne]
      exact h.bounded _ _
    · rw [hself]
      exact (h.bounded _ _).record hle
  · intro subject category
    rw [hnow]
    rcases hcases subject category with hne | ⟨rfl, rfl⟩
    · rw [hother hne]
      exact fun t ht => (h.past _ _ t ht).trans hclock
    · rw [hself]
      exact le_of_mem_record hle
  · intro subject category
    rcases hcases subject category with hne | ⟨rfl, rfl⟩
    · rw [hother hne]
      exact h.sorted _ _
    · rw [hself]
      exact pairwise_record (h.sorted _ _) hle

theorem Limited.congr (h : Limited limits s) (hlimiter : s'.limiter = s.limiter) (hclock : s'.clock = s.clock)
    (hbegun : s'.begun = s.begun) : Limited limits s' := by
  constructor
  · rw [hlimiter, h.limiter]
  · rw [hlimiter, hclock, hbegun]
    exact h.keeps
  · rw [hbegun]
    exact h.bounded
  · rw [hclock, hbegun]
    exact h.past
  · rw [hbegun]
    exact h.sorted

/-! ### What an event does -/

section

variable {i : Nat} {result : ToolResult} {written : Bool} {req : Request} {answer : Introspection}
  {ws : Option Workspace}

theorem step?_post (h : step? P rolesClaim s (.post req answer ws auditId written) = some s') :
    auditId ∉ s.drawn ∧
      ((∃ status row, connect P rolesClaim req answer ws auditId = .refused status row ∧
        s' = { s with
          audit := s.audit ++ (if written then row.toList else [])
          drawn := auditId :: s.drawn }) ∨
      ∃ ctx, connect P rolesClaim req answer ws auditId = .opened ctx ∧
        s' = { s with
          waiting := s.waiting ++ req.calls.map fun call => (ctx, call)
          opened := s.opened ++ [⟨req, answer, ctx⟩]
          drawn := auditId :: s.drawn }) := by
  rw [step?] at h
  split at h
  · cases h
  · refine ⟨by assumption, ?_⟩
    split at h
    case h_1 status row hconnect => exact .inl ⟨status, row, hconnect, (Option.some.inj h).symm⟩
    case h_2 ctx hconnect => exact .inr ⟨ctx, hconnect, (Option.some.inj h).symm⟩

theorem step?_start (h : step? P rolesClaim s (.start i auditId now) = some s') :
    auditId ∉ s.drawn ∧ s.clock ≤ now ∧ ∃ ctx call, s.waiting[i]? = some (ctx, call) ∧
      s' = { s with
        limiter := (begin s.limiter ctx call auditId now).2
        clock := now
        waiting := s.waiting.eraseIdx i
        running := s.running ++ [(begin s.limiter ctx call auditId now).1]
        begun := s.begun ++ [(begin s.limiter ctx call auditId now).1]
        drawn := auditId :: s.drawn } := by
  rw [step?] at h
  split at h
  · cases h
  · rename_i hnot
    obtain ⟨hfresh, hclock⟩ := not_or.mp hnot
    obtain ⟨waits, hwaits, hs'⟩ := Option.map_eq_some_iff.mp h
    exact ⟨hfresh, not_lt.mp hclock, waits.1, waits.2, hwaits, hs'.symm⟩

theorem step?_finish (h : step? P rolesClaim s (.finish i result now written) = some s') :
    ∃ r, s.running[i]? = some r ∧
      s' = { s with
        running := s.running.eraseIdx i
        audit := s.audit ++ (if written then [r.row P result now] else [])
        answered := s.answered ++ [⟨r, r.row P result now, written⟩] } := by
  rw [step?] at h
  obtain ⟨r, hr, hs'⟩ := Option.map_eq_some_iff.mp h
  exact ⟨r, hr, hs'.symm⟩

end

theorem limited_initial (limits : RateLimits) (now : Int) : Limited limits (initial limits now) where
  limiter := rfl
  keeps _ _ _ _ := rfl
  bounded _ _ := bounded_nil
  past _ _ _ ht := absurd ht List.not_mem_nil
  sorted _ _ := List.Pairwise.nil

variable {t₀ : Int}

theorem limited (h : (machine P rolesClaim limits t₀).Reachable s) : Limited limits s := by
  refine h.invariant_ofStep (limited_initial limits t₀) fun s e s' hstep hs => ?_
  cases e with
  | post req answer ws auditId written =>
      obtain ⟨-, ⟨status, row, -, rfl⟩ | ⟨ctx, -, rfl⟩⟩ := step?_post hstep
      · exact hs.congr rfl rfl rfl
      · exact hs.congr rfl rfl rfl
  | start i auditId now =>
      obtain ⟨-, hclock, ctx, call, -, rfl⟩ := step?_start hstep
      exact hs.begin hclock rfl rfl rfl
  | finish i result now written =>
      obtain ⟨r, -, rfl⟩ := step?_finish hstep
      exact hs.congr rfl rfl rfl

/-! ### Admission -/

/-- A call is counted when fewer than the limit of those that were still count. -/
theorem Limited.admitted_iff (h : Limited limits s) (ctx : CallContext) (call : ToolCall) (auditId : Text)
    (hclock : s.clock ≤ now) :
    let r := (Mcp.begin s.limiter ctx call auditId now).1
    r.admitted = true ↔ ((admittedAt s.begun r.subject r.category).filter
      (r.category.window.live now)).length < (limits.limit r.category).count := by
  intro r
  rw [(h.record ctx call auditId hclock).1, SlidingWindow.record]
  split
  · exact iff_of_false Bool.false_ne_true (not_lt.mpr (by assumption))
  · exact iff_of_true rfl (not_le.mp (by assumption))

theorem Limit.lt_count (limit : Limit) (n : Nat) : n < limit.count ↔ (n : ℚ) < limit.val := Nat.lt_ceil

/-- **The limiter admits by all calls so far**: a call is counted exactly when fewer than the limit of
those that were, of its subject and category, began within the window. -/
theorem admission_exact {i : Nat} (h : (machine P rolesClaim limits t₀).Reachable s)
    (hstep : step? P rolesClaim s (.start i auditId now) = some s') :
    ∃ r, s'.begun = s.begun ++ [r] ∧ r.started = now ∧
      (r.admitted = true ↔
        (((admittedAt s.begun r.subject r.category).filter fun t =>
          decide (now - t < r.category.ms)).length : ℚ) < limits.limit r.category) := by
  obtain ⟨-, hclock, ctx, call, -, rfl⟩ := step?_start hstep
  refine ⟨_, rfl, rfl, ((limited h).admitted_iff ctx call auditId hclock).trans ?_⟩
  rw [Limit.lt_count]
  rfl

theorem Running.admitted_of_executes {r : Running} (h : r.executes = true) : r.admitted = true := by
  unfold Running.executes at h
  unfold Running.admitted
  cases hverdict : r.verdict with
  | rateLimited k =>
      rw [hverdict] at h
      cases h
  | denied code reason message => rfl
  | executes => rfl

theorem length_filter_admittedAt (begun : List Running) (p : Int → Bool) :
    ((admittedAt begun subject category).filter p).length = (begun.filter fun r =>
      r.admitted && decide (r.subject = subject) && decide (r.category = category) && p r.started).length := by
  rw [admittedAt, List.filter_map, List.length_map, List.filter_filter]
  congr 2
  funext r
  exact Bool.and_comm ..

/-- **No more tools run than the limit**, of one subject and category, in any stretch of the length of
the window. -/
theorem executions_bounded (h : (machine P rolesClaim limits t₀).Reachable s) (subject : Text)
    (category : RateCategory) (first : Int) :
    (s.begun.filter fun r => r.executes && decide (r.subject = subject) && decide (r.category = category) &&
      decide (first ≤ r.started ∧ r.started < first + category.ms)).length ≤
        ⌈(limits.limit category).val⌉₊ := by
  have hbound := (limited h).bounded subject category
    (fun t => decide (first ≤ t ∧ t < first + category.ms)) ?_
  · rw [length_filter_admittedAt] at hbound
    refine le_trans ?_ hbound
    rw [← List.countP_eq_length_filter, ← List.countP_eq_length_filter]
    refine List.countP_mono_left fun r _ hr => ?_
    simp only [Bool.and_eq_true] at hr ⊢
    exact ⟨⟨⟨Running.admitted_of_executes hr.1.1.1, hr.1.1.2⟩, hr.1.2⟩, hr.2⟩
  · intro t _ u _ ht hu _
    rw [decide_eq_true_eq] at ht hu
    rw [live_iff]
    omega

/-! ### The hint of a refusal -/

theorem kept_eq (h : Limited limits s) (hclock : s.clock ≤ now) :
    s.limiter.kept subject category now =
      (admittedAt s.begun subject category).filter (category.window.live now) :=
  h.keeps subject category now hclock

theorem ms_pos (category : RateCategory) : 0 < category.ms := by cases category <;> decide

/-- Of the hint: the first whole second at which the oldest call no longer counts. -/
theorem retryAfterS_spec {oldest ms k : Int} {stamps : List Int} (hlive : now - oldest < ms)
    (hk : retryAfterS (oldest :: stamps) ms now = k) :
    oldest + ms ≤ now + 1000 * k ∧ now + 1000 * (k - 1) < oldest + ms := by
  unfold retryAfterS at hk
  rw [List.headD_cons] at hk
  omega

/-- The window of a refused call is full, and no fuller. -/
theorem Limited.full (h : Limited limits s) (ctx : CallContext) (call : ToolCall) (auditId : Text)
    (hclock : s.clock ≤ now)
    (hrefused : (Mcp.begin s.limiter ctx call auditId now).1.admitted = false) :
    let r := (Mcp.begin s.limiter ctx call auditId now).1
    ((admittedAt s.begun r.subject r.category).filter (r.category.window.live now)).length =
      (limits.limit r.category).count := by
  intro r
  apply le_antisymm
  · refine h.bounded r.subject r.category (r.category.window.live now) fun t ht u hu hlt hlu hle => ?_
    have := h.past r.subject r.category u hu
    rw [live_iff] at hlt ⊢
    omega
  · refine not_lt.mp fun hlt => ?_
    have hadmitted := (h.admitted_iff ctx call auditId hclock).mpr hlt
    rw [hrefused] at hadmitted
    cases hadmitted

/-- Where the stamps that count are in order, the hint is right to the second: with the oldest of them
gone one call fits, and until then all of them count. -/
theorem window_after {oldest later k : Int} {log rest : List Int} (hsorted : log.Pairwise (· ≤ ·))
    (hkept : log.filter (category.window.live now) = oldest :: rest)
    (hk : retryAfterS (oldest :: rest) category.ms now = k) (hle : now ≤ later) :
    (now + 1000 * k ≤ later →
      (log.filter (category.window.live later)).length < (oldest :: rest).length) ∧
    (later ≤ now + 1000 * (k - 1) →
      (log.filter (category.window.live later)).length = (oldest :: rest).length) := by
  have hlive : now - oldest < category.ms := by
    have hmem : oldest ∈ log.filter (category.window.live now) := hkept ▸ List.mem_cons_self
    exact live_iff.mp (List.mem_filter.mp hmem).2
  obtain ⟨hgone, hstays⟩ := retryAfterS_spec hlive hk
  have hordered := hsorted.sublist (List.filter_sublist (p := category.window.live now))
  rw [hkept] at hordered
  rw [← filter_filter_live hle, hkept]
  constructor
  · intro hafter
    have hnot : ¬ category.window.live later oldest = true := by
      rw [live_iff]
      omega
    rw [List.filter_cons_of_neg hnot, List.length_cons]
    exact Nat.lt_succ_of_le (List.length_filter_le _ _)
  · intro hbefore
    rw [List.filter_eq_self.mpr]
    intro t ht
    rw [live_iff]
    rcases List.mem_cons.mp ht with rfl | hmem
    · omega
    · have := List.rel_of_pairwise_cons hordered hmem
      omega

/-- **The hint of a refusal is exact**: while no other call of the subject and category is counted, a call
is let through from `retry_after_s` seconds on, and a whole second earlier it is not. -/
theorem retry_after_exact {s₂ s₂' : State} {i j : Nat} {auditId₂ : Text} {later k : Int} {r r₂ : Running}
    (h : (machine P rolesClaim limits t₀).Reachable s) (h₂ : (machine P rolesClaim limits t₀).Reachable s₂)
    (hstep : step? P rolesClaim s (.start i auditId now) = some s') (hr : s'.begun = s.begun ++ [r])
    (hk : r.verdict = .rateLimited k)
    (hstep₂ : step? P rolesClaim s₂ (.start j auditId₂ later) = some s₂') (hr₂ : s₂'.begun = s₂.begun ++ [r₂])
    (hsubject : r₂.subject = r.subject) (hcategory : r₂.category = r.category) (hle : now ≤ later)
    (hlog : admittedAt s₂.begun r.subject r.category = admittedAt s.begun r.subject r.category) :
    (now + 1000 * k ≤ later → r₂.admitted = true) ∧
      (later ≤ now + 1000 * (k - 1) → r₂.admitted = false) := by
  obtain ⟨-, hclock, ctx, call, -, rfl⟩ := step?_start hstep
  obtain ⟨-, hclock₂, ctx₂, call₂, -, rfl⟩ := step?_start hstep₂
  obtain rfl := List.singleton_inj.mp (List.append_cancel_left hr)
  obtain rfl := List.singleton_inj.mp (List.append_cancel_left hr₂)
  set r := (Mcp.begin s.limiter ctx call auditId now).1 with hdef
  -- the refusal: a full window, and the hint that its oldest call gives
  have hrefused : r.admitted = false := by
    rw [Running.admitted, hk]
    rfl
  have hfull := (limited h).full ctx call auditId hclock hrefused
  have hcheck : (s.limiter.check r.subject r.category now).1 = some k := verdict_eq_rateLimited hk
  rw [check_fst, kept_eq (limited h) hclock] at hcheck
  cases hkept : (admittedAt s.begun r.subject r.category).filter (r.category.window.live now) with
  | nil =>
      have := (limits.limit r.category).count_pos
      rw [← hfull, ← hdef, hkept] at this
      exact absurd this (lt_irrefl _)
  | cons oldest rest =>
      rw [hkept] at hcheck
      have hhint : retryAfterS (oldest :: rest) r.category.ms now = k := by
        split at hcheck
        · exact Option.some.inj hcheck
        · cases hcheck
      obtain ⟨hafter, hbefore⟩ :=
        window_after ((limited h).sorted r.subject r.category) hkept hhint hle
      have hadmitted := (limited h₂).admitted_iff ctx₂ call₂ auditId₂ hclock₂
      dsimp only at hadmitted
      rw [hsubject, hcategory, hlog, ← hfull, ← hdef, hkept] at hadmitted
      constructor
      · intro hle'
        exact hadmitted.mpr (hafter hle')
      · intro hle'
        refine Bool.eq_false_iff.mpr fun htrue => ?_
        exact absurd (hadmitted.mp htrue) (hbefore hle').not_lt

/-! ### One call a minute -/

def once : Limit := ⟨1, one_pos⟩

def onceAMinute : RateLimits := ⟨once, once, once, once, once⟩

/-- A request that hands over three calls of a tool that its profile grants. -/
def threeReads : Event :=
  .post
    { authorization := some (js "Bearer t")
      profile := some (js "analyst")
      setup := none
      sessionId := none
      toolCall := none
      calls := List.replicate 3 ⟨js "get_table", []⟩ }
    (.payload (.obj [(js "active", .bool true), (js "sub", .str (js "ada")), (js "roles", .arr [.str (js "r")])]))
    (some ⟨[], [], [(js "analyst", [(js "roles", .arr [.str (js "r")]), (js "tools", .obj [(js "allow", .arr [.str (js "get_table")])])])],
      none⟩)
    (js "1") true

/-- A read at the start, one a tenth of a second later, and one when a minute is over after that. -/
def reads : List Event := [threeReads, .start 0 (js "2") 0, .start 0 (js "3") 100, .start 0 (js "4") 60100]

noncomputable def afterReads (n : Nat) : State :=
  (machine .ideal (js "roles") onceAMinute 0).run (reads.take n)

theorem reachable_afterReads (n : Nat) :
    (machine .ideal (js "roles") onceAMinute 0).Reachable (afterReads n) := Machine.reachable_run _ _

theorem start_second : step? .ideal (js "roles") (afterReads 2) (.start 0 (js "3") 100) = some (afterReads 3) := rfl

theorem start_third : step? .ideal (js "roles") (afterReads 3) (.start 0 (js "4") 60100) = some (afterReads 4) := rfl

theorem admission_exact_second : ∃ r, (afterReads 3).begun = (afterReads 2).begun ++ [r] ∧ r.started = 100 ∧
    (r.admitted = true ↔ (((admittedAt (afterReads 2).begun r.subject r.category).filter fun t =>
      decide (100 - t < r.category.ms)).length : ℚ) < onceAMinute.limit r.category) :=
  admission_exact (reachable_afterReads 2) start_second

theorem retry_after_exact_second : ∃ r r₂, (afterReads 3).begun = (afterReads 2).begun ++ [r] ∧
    (afterReads 4).begun = (afterReads 3).begun ++ [r₂] ∧ r.verdict = .rateLimited 60 ∧ r₂.admitted = true := by
  refine ⟨_, _, rfl, rfl, rfl, ?_⟩
  refine (retry_after_exact (reachable_afterReads 2) (reachable_afterReads 3) start_second rfl rfl
    start_third rfl rfl rfl (by decide) rfl).1 (by decide)

theorem executions_bounded_reads : ((afterReads 4).begun.filter fun r => r.executes &&
    decide (r.subject = js "ada") && decide (r.category = .read) &&
      decide (0 ≤ r.started ∧ r.started < 0 + RateCategory.read.ms)).length ≤
        ⌈(onceAMinute.limit .read).val⌉₊ :=
  executions_bounded (reachable_afterReads 4) (js "ada") .read 0

end ContextLayer.Mcp
