import ContextLayer.Windows
import Mathlib.Data.List.Flatten

/-!
# What the sweeps miss

A sweep answers what it has read with an event at the time of its own clock, and the next sweep takes
every record up to that time for answered. So nothing is missed as long as no event hides a record that
no sweep has read.
-/

namespace ContextLayer.Windows

open Text

/-! ### The query -/

theorem mem_ruleNames (name : RuleName) : name ∈ ruleNames := by
  cases name <;> decide

theorem foldl_max_eq_or_mem (l : List Nat) (a : Nat) : l.foldl max a = a ∨ l.foldl max a ∈ l := by
  induction l generalizing a with
  | nil => exact .inl rfl
  | cons b rest ih =>
      rw [List.foldl_cons]
      obtain h | h := ih (max a b)
      · rw [h]
        obtain hmax | hmax := max_choice a b <;> rw [hmax]
        · exact .inl rfl
        · exact .inr List.mem_cons_self
      · exact .inr (List.mem_cons_of_mem _ h)

theorem le_foldl_max (l : List Nat) (a : Nat) : a ≤ l.foldl max a ∧ ∀ b ∈ l, b ≤ l.foldl max a := by
  induction l generalizing a with
  | nil => exact ⟨le_refl a, fun b hb => absurd hb List.not_mem_nil⟩
  | cons c rest ih =>
      obtain ⟨hstart, hrest⟩ := ih (max a c)
      refine ⟨(le_max_left a c).trans hstart, fun b hb => ?_⟩
      obtain rfl | hb := List.mem_cons.mp hb
      · exact (le_max_right a b).trans hstart
      · exact hrest b hb

namespace DetectorRule

variable {d : DetectorRule} {now now' : Nat} {visible before new : List AuditRecord} {g : Group}
  {row : WindowRow}

theorem mem_hits {t : Nat} : (g, t) ∈ d.hits now visible ↔
    ∃ r ∈ visible, d.horizon now < r.ts ∧ g ∈ d.groups r ∧ t = r.ts := by
  simp only [hits, List.mem_flatMap, List.mem_filter, List.mem_map, decide_eq_true_eq, Prod.mk.injEq]
  constructor
  · rintro ⟨r, ⟨hr, hwindow⟩, g', hg, rfl, rfl⟩
    exact ⟨r, hr, hwindow, hg, rfl⟩
  · rintro ⟨r, hr, hwindow, hg, rfl⟩
    exact ⟨r, ⟨hr, hwindow⟩, g, hg, rfl, rfl⟩

theorem mem_stamps {t : Nat} : t ∈ d.stamps now visible g ↔ (g, t) ∈ d.hits now visible := by
  simp only [stamps, List.mem_map, List.mem_filter, decide_eq_true_eq]
  constructor
  · rintro ⟨⟨g', t'⟩, ⟨h, rfl⟩, rfl⟩
    exact h
  · intro h
    exact ⟨(g, t), ⟨h, rfl⟩, rfl⟩

theorem mem_rows : row ∈ d.rows now visible ↔ d.stamps now visible row.group ≠ [] ∧
    row.n = (d.stamps now visible row.group).length ∧
    row.latest = (d.stamps now visible row.group).foldl max 0 ∧ d.threshold ≤ row.n := by
  simp only [rows, List.mem_filter, List.mem_map, List.mem_dedup, decide_eq_true_eq, Prod.exists,
    exists_and_right, exists_eq_right]
  constructor
  · rintro ⟨⟨g, ⟨t, ht⟩, rfl⟩, hthreshold⟩
    exact ⟨List.ne_nil_of_mem (mem_stamps.mpr ht), rfl, rfl, hthreshold⟩
  · rintro ⟨hne, hn, hlatest, hthreshold⟩
    obtain ⟨t, ht⟩ := List.exists_mem_of_ne_nil _ hne
    refine ⟨⟨row.group, ⟨t, mem_stamps.mp ht⟩, ?_⟩, hthreshold⟩
    rw [← hn, ← hlatest]

/-- A row is about a record in the window, and no record it is about is later than its time. -/
theorem exists_of_mem_rows (h : row ∈ d.rows now visible) :
    ∃ r ∈ visible, d.horizon now < r.ts ∧ row.group ∈ d.groups r ∧ row.latest = r.ts := by
  obtain ⟨hne, -, hlatest, -⟩ := mem_rows.mp h
  have hmem : row.latest ∈ d.stamps now visible row.group := by
    obtain hzero | hmem := foldl_max_eq_or_mem (d.stamps now visible row.group) 0
    · obtain ⟨t, ht⟩ := List.exists_mem_of_ne_nil _ hne
      have hle := (le_foldl_max (d.stamps now visible row.group) 0).2 t ht
      rw [hzero] at hle
      rw [hlatest, hzero]
      exact Nat.le_zero.mp hle ▸ ht
    · exact hlatest ▸ hmem
  exact mem_hits.mp (mem_stamps.mp hmem)

theorem le_latest (h : row ∈ d.rows now visible) {r : AuditRecord} (hr : r ∈ visible)
    (hg : row.group ∈ d.groups r) : r.ts ≤ row.latest := by
  by_cases hwindow : d.horizon now < r.ts
  · have hstamp := mem_stamps.mpr (mem_hits.mpr ⟨r, hr, hwindow, hg, rfl⟩)
    rw [(mem_rows.mp h).2.2.1]
    exact (le_foldl_max _ 0).2 _ hstamp
  · -- What has left the window is older than what is in it.
    obtain ⟨r', -, hwindow', -, hlatest⟩ := exists_of_mem_rows h
    omega

theorem horizon_mono (h : now ≤ now') : d.horizon now ≤ d.horizon now' := by
  unfold horizon
  omega

theorem stamps_sublist (h : now ≤ now') :
    (d.stamps now' visible g).Sublist (d.stamps now visible g) := by
  have hfilter : (visible.filter fun r => decide (d.horizon now' < r.ts)).Sublist
      (visible.filter fun r => decide (d.horizon now < r.ts)) := by
    refine List.monotone_filter_right visible fun r hr => ?_
    exact decide_eq_true ((horizon_mono h).trans_lt (of_decide_eq_true hr))
  exact ((hfilter.flatMap _).filter _).map _

/-- As time passes rows lose records, and only old ones. -/
theorem exists_row_of_le (h : now ≤ now') (hrow : row ∈ d.rows now' visible) :
    ∃ row' ∈ d.rows now visible, row'.group = row.group ∧ row.latest ≤ row'.latest := by
  obtain ⟨hne, hn, hlatest, hthreshold⟩ := mem_rows.mp hrow
  have hsub : (d.stamps now' visible row.group).Sublist (d.stamps now visible row.group) := stamps_sublist h
  refine ⟨⟨row.group, (d.stamps now visible row.group).length,
    (d.stamps now visible row.group).foldl max 0⟩, mem_rows.mpr ⟨?_, rfl, rfl, ?_⟩, rfl, ?_⟩
  · intro hnil
    rw [hnil] at hsub
    exact hne (List.sublist_nil.mp hsub)
  · have hlength := hsub.length_le
    dsimp only
    omega
  · dsimp only
    rw [hlatest]
    obtain hzero | hmem := foldl_max_eq_or_mem (d.stamps now' visible row.group) 0
    · rw [hzero]
      exact Nat.zero_le _
    · exact (le_foldl_max _ 0).2 _ (hsub.subset hmem)

/-- Records that are not about a group do not change its row. -/
theorem mem_rows_of_append (hnew : ∀ r ∈ new, row.group ∉ d.groups r)
    (h : row ∈ d.rows now (before ++ new)) : row ∈ d.rows now before := by
  have hnil : d.stamps now new row.group = [] := by
    by_contra hne
    obtain ⟨t, ht⟩ := List.exists_mem_of_ne_nil _ hne
    obtain ⟨r, hr, -, hg, -⟩ := mem_hits.mp (mem_stamps.mp ht)
    exact hnew r hr hg
  have hstamps : d.stamps now (before ++ new) row.group = d.stamps now before row.group := by
    have happend : d.stamps now (before ++ new) row.group =
        d.stamps now before row.group ++ d.stamps now new row.group := by
      simp only [stamps, hits, List.filter_append, List.flatMap_append, List.map_append]
    rw [happend, hnil, List.append_nil]
  rw [mem_rows, hstamps] at h
  exact mem_rows.mpr h

end DetectorRule

/-! ### Events and records -/

section

variable (sha256 : List UInt8 → Text)

/-- An event of the group, of class 1. -/
def About (g : Group) (e : ClassedEvent) : Prop :=
  e.detectorClass = 1 ∧ e.row.fingerprint = g.fingerprint sha256

/-- The row is answered. -/
def Covered (events : List ClassedEvent) (row : WindowRow) : Prop :=
  ∃ e ∈ events, About sha256 row.group e ∧ millis row.latest ≤ e.row.ts

/-- The record is later than every event of the group. -/
def Ahead (events : List ClassedEvent) (g : Group) (r : AuditRecord) : Prop :=
  ∀ e ∈ events, About sha256 g e → e.row.ts < millis r.ts

/-- The group has a record that the sweep before has not read. -/
def Pass.IsNew (p : Pass) (g : Group) : Prop := ∃ r ∈ p.read, r ∉ p.before ∧ g ∈ p.rule.groups r

/-- The pass has recorded an event of the group's scope. -/
def Pass.Recorded (p : Pass) (g : Group) : Prop :=
  ∃ g' ∈ p.recorded, g'.fingerprint sha256 = g.fingerprint sha256

end

variable {sha256 : List UInt8 → Text} {w w' : WindowWorld} {events : List ClassedEvent}
  {e : ClassedEvent} {row : WindowRow} {g : Group} {r : AuditRecord} {a : ActivePass}

theorem millis_mono {ts ts' : Nat} (h : ts ≤ ts') : millis ts ≤ millis ts' := Nat.div_le_div_right h

theorem answered_iff : answered sha256 events row = true ↔ Covered sha256 events row := by
  have hmem : ∀ ts, ts ∈ (events.filter fun e => decide (e.detectorClass = 1 ∧
      e.row.fingerprint = row.group.fingerprint sha256)).map (fun e => e.row.ts) ↔
      ∃ e ∈ events, About sha256 row.group e ∧ e.row.ts = ts := by
    intro ts
    simp only [List.mem_map, List.mem_filter, decide_eq_true_eq, and_assoc, About]
  unfold answered lastEvent Covered
  constructor
  · intro h
    obtain ⟨ts, hmax, hts⟩ := (Option.any_eq_true _ _).mp h
    obtain ⟨e, he, habout, rfl⟩ := (hmem ts).mp (List.max?_mem hmax)
    exact ⟨e, he, habout, of_decide_eq_true hts⟩
  · rintro ⟨e, he, habout, hle⟩
    have hts := (hmem _).mpr ⟨e, he, habout, rfl⟩
    cases hmax : ((events.filter fun e => decide (e.detectorClass = 1 ∧
        e.row.fingerprint = row.group.fingerprint sha256)).map fun e => e.row.ts).max? with
    | none =>
        rw [List.max?_eq_none_iff.mp hmax] at hts
        cases hts
    | some ts =>
        have hge := (List.max?_eq_some_iff.mp hmax).2 _ hts
        exact decide_eq_true (hle.trans hge)

theorem Covered.append (h : Covered sha256 events row) (e : ClassedEvent) :
    Covered sha256 (events ++ [e]) row := by
  obtain ⟨e', he', hcovers⟩ := h
  exact ⟨e', List.mem_append_left _ he', hcovers⟩

theorem Covered.mono (h : Covered sha256 events row) {row' : WindowRow} (hgroup : row.group = row'.group)
    (hlatest : row'.latest ≤ row.latest) : Covered sha256 events row' := by
  obtain ⟨e, he, habout, hle⟩ := h
  exact ⟨e, he, hgroup ▸ habout, (millis_mono hlatest).trans hle⟩

theorem Ahead.append (h : Ahead sha256 events g r)
    (he : About sha256 g e → e.row.ts < millis r.ts) : Ahead sha256 (events ++ [e]) g r := by
  intro e' he' habout
  obtain he' | he' := List.mem_append.mp he'
  · exact h e' he' habout
  · obtain rfl := List.mem_singleton.mp he'
    exact he habout

/-! ### The invariant -/

section

variable (sha256)

/-- A pass under way, among the events so far. -/
structure PassOk (w : WindowWorld) (a : ActivePass) : Prop where
  before : a.pass.before = w.seen a.pass.rule.rule
  same : ∀ p ∈ w.lastPass a.pass.rule.rule, p.rule = a.pass.rule
  now : a.pass.now ≤ w.now
  read : a.pass.read <+: w.visible
  grown : a.pass.before <+: a.pass.read
  rows : ∀ row, row ∈ a.pass.rows ↔ row ∈ a.pass.rule.rows a.pass.now a.pass.read
  left : ∀ row ∈ a.left, row ∈ a.pass.rows
  /-- What the sweep before has read is answered. -/
  settled : ∀ row ∈ a.pass.rule.rows a.pass.now a.pass.before, Covered sha256 w.events row
  handled : ∀ row ∈ a.pass.rows, row ∈ a.left ∨ (∃ f, a.filing = some (row, f)) ∨ Covered sha256 w.events row
  /-- No event hides a row with a new record before its turn. -/
  waiting : ∀ row ∈ a.pass.rows, ∀ r ∈ a.pass.read, r ∉ a.pass.before → row.group ∈ a.pass.rule.groups r →
    a.pass.Recorded sha256 row.group ∨ (∃ f, a.filing = some (row, f)) ∨
      row ∈ a.left ∧ Ahead sha256 w.events row.group r
  files : ∀ f ∈ a.filing, f.1 ∈ a.pass.rows ∧ f.2.fingerprint = f.1.group.fingerprint sha256 ∧
    a.pass.IsNew f.1.group
  sparing : ∀ g ∈ a.pass.recorded, a.pass.IsNew g

structure Sound (w : WindowWorld) : Prop where
  nodup : ((w.pending ++ w.visible).map AuditRecord.auditId).Nodup
  seen : ∀ p ∈ w.passes, p.read <+: w.visible
  covered : ∀ name, ∀ p ∈ w.lastPass name, ∀ now, w.now ≤ now → ∀ row ∈ p.rule.rows now p.read,
    Covered sha256 w.events row
  /-- A record that no sweep has read is later than the events of its groups. -/
  fresh : ∀ name, ∀ r ∈ w.visible, r ∉ w.seen name →
    (∀ x ∈ w.sweeps, ∀ a ∈ x.active, a.pass.rule.rule = name → r ∉ a.pass.read) →
      ∀ g ∈ name.groups r, Ahead sha256 w.events g r
  alone : w.sweeps.length ≤ 1
  active : ∀ x ∈ w.sweeps, ∀ a ∈ x.active, PassOk sha256 w a
  lawful : ∀ p ∈ w.passes, p.Lawful sha256

end

theorem seen_congr (h : w'.passes = w.passes) (name : RuleName) : w'.seen name = w.seen name := by
  unfold WindowWorld.seen WindowWorld.lastPass
  rw [h]

/-- What a pass has found stays so while records come in. -/
theorem PassOk.frame (h : PassOk sha256 w a) (hpasses : w'.passes = w.passes)
    (hevents : w'.events = w.events) (hvisible : w.visible <+: w'.visible) (hnow : w.now ≤ w'.now) :
    PassOk sha256 w' a where
  before := h.before.trans (seen_congr hpasses _).symm
  same := by
    unfold WindowWorld.lastPass
    rw [hpasses]
    exact h.same
  now := h.now.trans hnow
  read := h.read.trans hvisible
  grown := h.grown
  rows := h.rows
  left := h.left
  settled := hevents ▸ h.settled
  handled := hevents ▸ h.handled
  waiting := hevents ▸ h.waiting
  files := h.files
  sparing := h.sparing

theorem sweeps_of_mem (hS : Sound sha256 w) {x : ActiveSweep} (h : x ∈ w.sweeps) : w.sweeps = [x] := by
  have hlength := List.length_pos_of_mem h
  obtain ⟨y, hy⟩ := List.length_eq_one_iff.mp (le_antisymm hS.alone hlength)
  rw [hy, List.mem_singleton] at h
  exact h ▸ hy

theorem sweeps_of_sweep? (hS : Sound sha256 w) {session : Nat} {x : ActiveSweep}
    (h : w.sweep? session = some x) : w.sweeps = [x] ∧ x.session = session := by
  have hfind := List.find?_some h
  exact ⟨sweeps_of_mem hS (List.mem_of_find?_eq_some h), by simpa using hfind⟩

theorem enter_eq {x y : ActiveSweep} (h : w.sweeps = [x]) (hsession : x.session = y.session) :
    w.enter y = { w with sweeps := [y] } := by
  rw [WindowWorld.enter, h, List.map_singleton, if_pos hsession]

/-! ### Records -/

theorem groups_subset {d : DetectorRule} (h : g ∈ d.groups r) : g ∈ d.rule.groups r :=
  (List.mem_filter.mp h).1

theorem Sound.insertRecord (hS : Sound sha256 w) (hid : r.auditId ∉ (w.pending ++ w.visible).map AuditRecord.auditId)
    (hts : w.now ≤ r.ts) : Sound sha256 { w with now := r.ts, pending := w.pending ++ [r] } where
  nodup := by
    have hperm : (w.pending ++ [r] ++ w.visible).Perm (r :: (w.pending ++ w.visible)) := by
      rw [List.append_assoc]
      exact List.perm_middle
    exact ((hperm.map _).nodup_iff).mpr (List.nodup_cons.mpr ⟨hid, hS.nodup⟩)
  seen := hS.seen
  covered := fun name p hp now hnow => hS.covered name p hp now (hts.trans hnow)
  fresh := hS.fresh
  alone := hS.alone
  active := fun x hx a ha => (hS.active x hx a ha).frame rfl rfl (List.prefix_refl _) hts
  lawful := hS.lawful

theorem Sound.commitRecord (hS : Sound sha256 w) (hr : r ∈ w.pending)
    (hsteady : ∀ name ∈ ruleNames, ∀ g ∈ name.groups r, ∀ e ∈ w.events, e.detectorClass = 1 →
      e.row.fingerprint = g.fingerprint sha256 → e.row.ts < millis r.ts) :
    Sound sha256 { w with pending := w.pending.filter fun q => decide (q.auditId ≠ r.auditId)
                          visible := w.visible ++ [r] } where
  nodup := by
    have hids := hS.nodup
    rw [List.map_append, List.nodup_append] at hids
    obtain ⟨hpending, hvisible, hdisjoint⟩ := hids
    rw [List.map_append, List.map_append, List.nodup_append, List.nodup_append]
    refine ⟨hpending.sublist (List.filter_sublist.map _), ⟨hvisible, List.nodup_singleton _, ?_⟩, ?_⟩
    · intro id hid id' hid' heq
      obtain rfl := List.mem_singleton.mp hid'
      exact hdisjoint _ (List.mem_map_of_mem hr) id hid heq.symm
    · intro id hid id' hid'
      obtain ⟨q, hq, rfl⟩ := List.mem_map.mp hid
      obtain ⟨hq, hne⟩ := List.mem_filter.mp hq
      obtain hid' | hid' := List.mem_append.mp hid'
      · exact hdisjoint _ (List.mem_map_of_mem hq) id' hid'
      · obtain rfl := List.mem_singleton.mp hid'
        exact of_decide_eq_true hne
  seen := fun p hp => (hS.seen p hp).trans (List.prefix_append _ _)
  covered := hS.covered
  fresh := by
    intro name q hq hseen hread g hg
    obtain hq | hq := List.mem_append.mp hq
    · exact hS.fresh name q hq hseen hread g hg
    · obtain rfl := List.mem_singleton.mp hq
      exact fun e he habout => hsteady name (mem_ruleNames name) g hg e he habout.1 habout.2
  alone := hS.alone
  active := fun x hx a ha => (hS.active x hx a ha).frame rfl rfl (List.prefix_append _ _) le_rfl
  lawful := hS.lawful

/-! ### Queries -/

/-- Where no pass is under way the sweeps can come and go. -/
theorem Sound.resweep (hS : Sound sha256 w) (hidle : ∀ x ∈ w.sweeps, x.active = none)
    {sweeps : List ActiveSweep} (hidle' : ∀ x ∈ sweeps, x.active = none) (halone : sweeps.length ≤ 1)
    (returned : List Nat) : Sound sha256 { w with sweeps, returned } where
  nodup := hS.nodup
  seen := hS.seen
  covered := hS.covered
  fresh := fun name r hr hseen _ => hS.fresh name r hr hseen fun x hx a ha =>
    absurd (hidle x hx ▸ ha) (Option.not_mem_none a)
  alone := halone
  active := fun x hx a ha => absurd (hidle' x hx ▸ ha) (Option.not_mem_none a)
  lawful := hS.lawful

theorem nodup_visible (hS : Sound sha256 w) : w.visible.Nodup := by
  have hids := hS.nodup
  rw [List.map_append, List.nodup_append] at hids
  exact List.Nodup.of_map _ hids.2.1

theorem passOk_read (hS : Sound sha256 w) {x : ActiveSweep} (hsweeps : w.sweeps = [x])
    (hidle : x.active = none) {d : DetectorRule} (hsame : ∀ p ∈ w.lastPass d.rule, p.rule = d)
    {now : Nat} (hnow : w.now ≤ now) {rows : List WindowRow} (hrows : rows.Perm (d.rows now w.visible)) :
    PassOk sha256 { w with now := now } ⟨⟨d, w.seen d.rule, now, w.visible, rows, []⟩, rows, none⟩ where
  before := rfl
  same := hsame
  now := le_rfl
  read := List.prefix_refl _
  grown := by
    unfold WindowWorld.seen
    cases hlast : w.lastPass d.rule with
    | none => exact List.nil_prefix
    | some p => exact hS.seen p (List.mem_of_find?_eq_some hlast)
  rows := fun _ => hrows.mem_iff
  left := fun _ hrow => hrow
  settled := by
    intro row hrow
    cases hlast : w.lastPass d.rule with
    | none =>
        obtain ⟨r, hr, -⟩ := DetectorRule.exists_of_mem_rows hrow
        rw [WindowWorld.seen, hlast] at hr
        exact absurd hr List.not_mem_nil
    | some p =>
        obtain rfl := hsame p hlast
        refine hS.covered p.rule.rule p hlast now hnow row ?_
        rwa [WindowWorld.seen, hlast] at hrow
  handled := fun _ hrow => .inl hrow
  waiting := by
    intro row hrow r hr hnew hg
    refine .inr (.inr ⟨hrow, ?_⟩)
    refine hS.fresh d.rule r hr hnew (fun y hy a ha => ?_) row.group (groups_subset hg)
    obtain rfl := List.mem_singleton.mp (hsweeps ▸ hy)
    exact absurd (hidle ▸ ha) (Option.not_mem_none a)
  files := fun _ hf => absurd hf (Option.not_mem_none _)
  sparing := fun _ hg => absurd hg List.not_mem_nil

theorem Sound.read (hS : Sound sha256 w) {x : ActiveSweep} (hsweeps : w.sweeps = [x])
    (hidle : x.active = none) {d : DetectorRule} (hsame : ∀ p ∈ w.lastPass d.rule, p.rule = d)
    {now : Nat} (hnow : w.now ≤ now) {rows : List WindowRow} (hrows : rows.Perm (d.rows now w.visible))
    {y : ActiveSweep} (hy : y.active = some ⟨⟨d, w.seen d.rule, now, w.visible, rows, []⟩, rows, none⟩) :
    Sound sha256 { w with now := now, sweeps := [y] } where
  nodup := hS.nodup
  seen := hS.seen
  covered := fun name p hp now' hnow' => hS.covered name p hp now' (hnow.trans hnow')
  fresh := by
    intro name r hr hseen hread g hg
    refine hS.fresh name r hr hseen (fun z hz a ha => ?_) g hg
    obtain rfl := List.mem_singleton.mp (hsweeps ▸ hz)
    exact absurd (hidle ▸ ha) (Option.not_mem_none a)
  alone := le_rfl
  active := by
    intro z hz a ha
    obtain rfl := List.mem_singleton.mp hz
    obtain rfl := Option.some.inj (hy.symm.trans ha)
    exact (passOk_read hS hsweeps hidle hsame hnow hrows).frame rfl rfl (List.prefix_refl _) le_rfl
  lawful := hS.lawful

/-! ### Events -/

/-- Answered rows are answered under every clock. -/
theorem PassOk.isNew (h : PassOk sha256 w a) (hnodup : w.visible.Nodup) (hrow : row ∈ a.pass.rows)
    (hopen : answered sha256 w.events row = false) : a.pass.IsNew row.group := by
  by_contra hold
  obtain ⟨new, hread⟩ := h.grown
  have hnew : ∀ r ∈ new, row.group ∉ a.pass.rule.groups r := by
    intro r hr hg
    have hreadNodup : (a.pass.before ++ new).Nodup := hread ▸ hnodup.sublist h.read.sublist
    have hbefore : r ∉ a.pass.before := fun hbefore =>
      (List.nodup_append.mp hreadNodup).2.2 r hbefore r hr rfl
    exact hold ⟨r, hread ▸ List.mem_append_right _ hr, hbefore, hg⟩
  have hrows := (h.rows row).mp hrow
  rw [← hread] at hrows
  have hcovered := h.settled row (DetectorRule.mem_rows_of_append hnew hrows)
  rw [answered_iff.mpr hcovered] at hopen
  cases hopen

/-- A pass that goes on, with its rows and events as they were. -/
theorem Sound.advance (hS : Sound sha256 w) {x y : ActiveSweep} {b : ActivePass} (hsweeps : w.sweeps = [x])
    (hx : x.active = some a) (hy : y.active = some b) (hrule : b.pass.rule = a.pass.rule)
    (hread : b.pass.read = a.pass.read) (hb : PassOk sha256 w b) : Sound sha256 { w with sweeps := [y] } where
  nodup := hS.nodup
  seen := hS.seen
  covered := hS.covered
  fresh := by
    intro name r hr hseen hunread g hg
    refine hS.fresh name r hr hseen (fun z hz c hc hname => ?_) g hg
    obtain rfl := List.mem_singleton.mp (hsweeps ▸ hz)
    obtain rfl := Option.some.inj (hx.symm.trans hc)
    rw [← hread]
    exact hunread y List.mem_cons_self b hy (hrule ▸ hname)
  alone := le_rfl
  active := by
    intro z hz c hc
    obtain rfl := List.mem_singleton.mp hz
    obtain rfl := Option.some.inj (hy.symm.trans hc)
    exact hb.frame rfl rfl (List.prefix_refl _) le_rfl
  lawful := hS.lawful

theorem PassOk.skip {pass : Pass} {left : List WindowRow} (h : PassOk sha256 w ⟨pass, row :: left, none⟩)
    (hanswered : answered sha256 w.events row = true) : PassOk sha256 w ⟨pass, left, none⟩ :=
  have hcovered := answered_iff.mp hanswered
  { h with
    left := fun row' hrow' => h.left row' (List.mem_cons_of_mem _ hrow')
    handled := by
      intro row' hrow'
      obtain hleft | hrest := h.handled row' hrow'
      · obtain rfl | hleft := List.mem_cons.mp hleft
        · exact .inr (.inr hcovered)
        · exact .inl hleft
      · exact .inr hrest
    waiting := by
      intro row' hrow' r hr hnew hg
      obtain hrecorded | hfiling | ⟨hleft, hahead⟩ := h.waiting row' hrow' r hr hnew hg
      · exact .inl hrecorded
      · exact .inr (.inl hfiling)
      · obtain rfl | hleft := List.mem_cons.mp hleft
        · -- An event that answers the row would be later than a record it is about.
          obtain ⟨e, he, habout, hle⟩ := hcovered
          have hlt := hahead e he habout
          have hlatest := millis_mono (DetectorRule.le_latest ((h.rows _).mp hrow') hr hg)
          omega
        · exact .inr (.inr ⟨hleft, hahead⟩) }

theorem PassOk.files_row {pass : Pass} {left : List WindowRow}
    (h : PassOk sha256 w ⟨pass, row :: left, none⟩) (hnodup : w.visible.Nodup)
    (hopen : answered sha256 w.events row = false) {f : Filing}
    (hf : f.fingerprint = row.group.fingerprint sha256) :
    PassOk sha256 w ⟨pass, left, some (row, f)⟩ :=
  have hrow := h.left row List.mem_cons_self
  { h with
    left := fun row' hrow' => h.left row' (List.mem_cons_of_mem _ hrow')
    handled := by
      intro row' hrow'
      obtain hleft | ⟨_, hnone⟩ | hcovered := h.handled row' hrow'
      · obtain rfl | hleft := List.mem_cons.mp hleft
        · exact .inr (.inl ⟨f, rfl⟩)
        · exact .inl hleft
      · cases hnone
      · exact .inr (.inr hcovered)
    waiting := by
      intro row' hrow' r hr hnew hg
      obtain hrecorded | ⟨_, hnone⟩ | ⟨hleft, hahead⟩ := h.waiting row' hrow' r hr hnew hg
      · exact .inl hrecorded
      · cases hnone
      · obtain rfl | hleft := List.mem_cons.mp hleft
        · exact .inr (.inl ⟨f, rfl⟩)
        · exact .inr (.inr ⟨hleft, hahead⟩)
    files := by
      intro f' hf'
      obtain rfl := Option.some.inj hf'
      exact ⟨hrow, hf, h.isNew hnodup hrow hopen⟩ }

theorem PassOk.record {pass : Pass} {left : List WindowRow} {f : Filing}
    (h : PassOk sha256 w ⟨pass, left, some (row, f)⟩) (hclock : millis row.latest ≤ f.ts) (issueId : Text) :
    PassOk sha256 { w with events := w.events ++ [⟨1, f.event issueId⟩] }
      ⟨{ pass with recorded := pass.recorded ++ [row.group] }, left, none⟩ where
  before := h.before
  same := h.same
  now := h.now
  read := h.read
  grown := h.grown
  rows := h.rows
  left := h.left
  settled := fun row' hrow' => (h.settled row' hrow').append _
  handled := by
    intro row' hrow'
    obtain hleft | ⟨_, hfiling⟩ | hcovered := h.handled row' hrow'
    · exact .inl hleft
    · obtain ⟨rfl, rfl⟩ := Prod.mk.inj (Option.some.inj hfiling)
      exact .inr (.inr ⟨_, List.mem_append_right _ List.mem_cons_self, ⟨rfl, (h.files _ rfl).2.1⟩, hclock⟩)
    · exact .inr (.inr (hcovered.append _))
  waiting := by
    intro row' hrow' r hr hnew hg
    by_cases hscope : row.group.fingerprint sha256 = row'.group.fingerprint sha256
    · exact .inl ⟨row.group, List.mem_append_right _ List.mem_cons_self, hscope⟩
    · obtain ⟨g, hg, heq⟩ | ⟨_, hfiling⟩ | ⟨hleft, hahead⟩ := h.waiting row' hrow' r hr hnew hg
      · exact .inl ⟨g, List.mem_append_left _ hg, heq⟩
      · exact absurd (congrArg (fun row => row.group.fingerprint sha256)
          (Prod.mk.inj (Option.some.inj hfiling)).1) hscope
      · refine .inr (.inr ⟨hleft, hahead.append fun habout => absurd ?_ hscope⟩)
        exact (h.files _ rfl).2.1.symm.trans habout.2
  files := fun _ hf => absurd hf (Option.not_mem_none _)
  sparing := by
    intro g hg
    obtain hg | hg := List.mem_append.mp hg
    · exact h.sparing g hg
    · exact List.mem_singleton.mp hg ▸ (h.files _ rfl).2.2

theorem Sound.record (hS : Sound sha256 w) {x y : ActiveSweep} {pass : Pass} {left : List WindowRow}
    {f : Filing} (hsweeps : w.sweeps = [x]) (hx : x.active = some ⟨pass, left, some (row, f)⟩)
    (hclock : millis row.latest ≤ f.ts) (hspares : w.Spares sha256 (some x.session) f.fingerprint f.ts)
    (issueId : Text)
    (hy : y.active = some ⟨{ pass with recorded := pass.recorded ++ [row.group] }, left, none⟩) :
    Sound sha256 { w with events := w.events ++ [⟨1, f.event issueId⟩], sweeps := [y] } where
  nodup := hS.nodup
  seen := hS.seen
  covered := fun name p hp now hnow row hrow => (hS.covered name p hp now hnow row hrow).append _
  fresh := by
    intro name r hr hseen hunread g hg
    have hunread' : pass.rule.rule = name → r ∉ pass.read := hunread y List.mem_cons_self _ hy
    have hold : Ahead sha256 w.events g r := by
      refine hS.fresh name r hr hseen (fun z hz c hc => ?_) g hg
      obtain rfl := List.mem_singleton.mp (hsweeps ▸ hz)
      obtain rfl := Option.some.inj (hx.symm.trans hc)
      exact hunread'
    refine hold.append fun habout => ?_
    obtain hlt | hin | hread := hspares name (mem_ruleNames name) r hr g hg habout.2.symm
    · exact hlt
    · exact absurd hin hseen
    · obtain ⟨z, hz, c, hc, hname, hin, -⟩ := hread
      obtain rfl := List.mem_singleton.mp (hsweeps ▸ hz)
      obtain rfl := Option.some.inj (hx.symm.trans hc)
      exact absurd hin (hunread' hname)
  alone := le_rfl
  active := by
    intro z hz c hc
    obtain rfl := List.mem_singleton.mp hz
    obtain rfl := Option.some.inj (hy.symm.trans hc)
    have hpass := hS.active x (hsweeps ▸ List.mem_cons_self) _ hx
    exact (hpass.record hclock issueId).frame rfl rfl (List.prefix_refl _) le_rfl
  lawful := hS.lawful

theorem Sound.file (hS : Sound sha256 w)
    (hspares : e.detectorClass = 1 → w.Spares sha256 none e.row.fingerprint e.row.ts) :
    Sound sha256 { w with events := w.events ++ [e] } where
  nodup := hS.nodup
  seen := hS.seen
  covered := fun name p hp now hnow row hrow => (hS.covered name p hp now hnow row hrow).append _
  fresh := by
    intro name r hr hseen hunread g hg
    refine (hS.fresh name r hr hseen hunread g hg).append fun habout => ?_
    obtain hlt | hin | ⟨x, hx, a, ha, hname, hin, -⟩ :=
      hspares habout.1 name (mem_ruleNames name) r hr g hg habout.2.symm
    · exact hlt
    · exact absurd hin hseen
    · exact absurd hin (hunread x hx a ha hname)
  alone := hS.alone
  active := by
    intro x hx a ha
    have h := hS.active x hx a ha
    have hsweeps := sweeps_of_mem hS hx
    refine
      { h with
        settled := fun row hrow => (h.settled row hrow).append _
        handled := fun row hrow => (h.handled row hrow).imp_right fun h => h.imp_right fun h => h.append _
        waiting := ?_ }
    intro row hrow r hr hnew hg
    refine (h.waiting row hrow r hr hnew hg).imp_right fun h => h.imp_right fun ⟨hleft, hahead⟩ => ⟨hleft, ?_⟩
    refine hahead.append fun habout => ?_
    have hvisible : r ∈ w.visible := (hS.active x hx a ha).read.subset hr
    obtain hlt | hin | ⟨z, hz, c, hc, -, -, hleft'⟩ :=
      hspares habout.1 a.pass.rule.rule (mem_ruleNames _) r hvisible _ (groups_subset hg) habout.2.symm
    · exact hlt
    · exact absurd ((hS.active x hx a ha).before ▸ hin) hnew
    · obtain rfl := List.mem_singleton.mp (hsweeps ▸ hz)
      obtain rfl := Option.some.inj (ha.symm.trans hc)
      obtain hnone | hout := hleft'
      · cases hnone
      · exact absurd (List.mem_map_of_mem hleft) hout
  lawful := hS.lawful

theorem Sound.deleteBefore (hS : Sound sha256 w) {ts : Nat} (hidle : ∀ x ∈ w.sweeps, x.active = none)
    (hold : ∀ name, ∀ p ∈ w.lastPass name, (ts * 1000 : Int) ≤ p.rule.horizon w.now) :
    Sound sha256 { w with events := w.events.filter fun e => decide (ts ≤ e.row.ts) } where
  nodup := hS.nodup
  seen := hS.seen
  covered := by
    intro name p hp now hnow row hrow
    obtain ⟨e, he, habout, hle⟩ := hS.covered name p hp now hnow row hrow
    -- A row in the window is later than what is deleted.
    obtain ⟨r, -, hwindow, -, hlatest⟩ := DetectorRule.exists_of_mem_rows hrow
    have hhorizon := DetectorRule.horizon_mono (d := p.rule) (show w.now ≤ now from hnow)
    have hts := hold name p hp
    have hkept : ts ≤ millis row.latest := (Nat.le_div_iff_mul_le (by decide)).mpr (by omega)
    exact ⟨e, List.mem_filter.mpr ⟨he, decide_eq_true (hkept.trans hle)⟩, habout, hle⟩
  fresh := fun name r hr hseen hunread g hg e he habout =>
    hS.fresh name r hr hseen hunread g hg e (List.mem_filter.mp he).1 habout
  alone := hS.alone
  active := fun x hx a ha => absurd (hidle x hx ▸ ha) (Option.not_mem_none a)
  lawful := hS.lawful

/-! ### The end of a pass -/

theorem PassOk.lawful {pass : Pass} (h : PassOk sha256 w ⟨pass, [], none⟩) : pass.Lawful sha256 where
  complete := by
    rintro row hrow ⟨r, hr, hnew, hg⟩
    obtain hrecorded | ⟨_, hnone⟩ | ⟨hleft, -⟩ := h.waiting row hrow r hr hnew hg
    · exact hrecorded
    · cases hnone
    · cases hleft
  sparing := h.sparing

theorem Sound.endPass (hS : Sound sha256 w) {x : ActiveSweep} {pass : Pass} (hsweeps : w.sweeps = [x])
    (hx : x.active = some ⟨pass, [], none⟩) {sweeps : List ActiveSweep}
    (hidle : ∀ y ∈ sweeps, y.active = none) (halone : sweeps.length ≤ 1) :
    Sound sha256 { w with passes := pass :: w.passes, sweeps } :=
  have h := hS.active x (hsweeps ▸ List.mem_cons_self) _ hx
  have hother : ∀ name, pass.rule.rule ≠ name →
      (pass :: w.passes).find? (fun p => decide (p.rule.rule = name)) = w.lastPass name :=
    fun name hname => List.find?_cons_of_neg (by simpa using hname)
  have hself : (pass :: w.passes).find? (fun p => decide (p.rule.rule = pass.rule.rule)) = some pass :=
    List.find?_cons_of_pos (by simp)
  { nodup := hS.nodup
    seen := by
      intro p hp
      obtain rfl | hp := List.mem_cons.mp hp
      · exact h.read
      · exact hS.seen p hp
    covered := by
      intro name p hp now hnow row hrow
      by_cases hname : pass.rule.rule = name
      · subst hname
        obtain rfl := Option.some.inj (hself.symm.trans hp)
        obtain ⟨row', hrow', hgroup, hlatest⟩ := DetectorRule.exists_row_of_le (h.now.trans hnow) hrow
        obtain hleft | ⟨_, hnone⟩ | hcovered := h.handled row' ((h.rows row').mpr hrow')
        · cases hleft
        · cases hnone
        · exact hcovered.mono hgroup hlatest
      · exact hS.covered name p ((hother name hname).symm.trans hp) now hnow row hrow
    fresh := by
      intro name r hr hseen _ g hg
      by_cases hname : pass.rule.rule = name
      · subst hname
        have hunread : r ∉ pass.read := by
          rw [WindowWorld.seen, WindowWorld.lastPass, hself] at hseen
          exact hseen
        refine hS.fresh _ r hr (fun hin => hunread (h.grown.subset (h.before.symm ▸ hin)))
          (fun y hy a ha _ => ?_) g hg
        obtain rfl := List.mem_singleton.mp (hsweeps ▸ hy)
        exact Option.some.inj (hx.symm.trans ha) ▸ hunread
      · rw [WindowWorld.seen, WindowWorld.lastPass, hother name hname] at hseen
        refine hS.fresh name r hr hseen (fun y hy a ha hrule => ?_) g hg
        obtain rfl := List.mem_singleton.mp (hsweeps ▸ hy)
        obtain rfl := Option.some.inj (hx.symm.trans ha)
        exact absurd hrule hname
    alone := halone
    active := fun y hy a ha => absurd (hidle y hy ▸ ha) (Option.not_mem_none a)
    lawful := by
      intro p hp
      obtain rfl | hp := List.mem_cons.mp hp
      · exact h.lawful
      · exact hS.lawful p hp }

/-! ### The run -/

theorem leave_eq {x : ActiveSweep} (h : w.sweeps = [x]) {session : Nat} (hsession : x.session = session) :
    w.leave session = { w with sweeps := [] } := by
  simp [WindowWorld.leave, h, hsession]

theorem Sound.step (hS : Sound sha256 w) {e : WindowEvent} (hsteady : w.Steady sha256 e)
    (hstep : w.step? sha256 e = some w') : Sound sha256 w' := by
  cases e with
  | insertRecord r =>
      rw [WindowWorld.step?] at hstep
      by_cases hrefused : r.auditId ∈ (w.pending ++ w.visible).map AuditRecord.auditId ∨ r.ts < w.now
      · rw [if_pos hrefused] at hstep
        cases hstep
      · rw [if_neg hrefused] at hstep
        obtain rfl := Option.some.inj hstep
        rw [not_or, Nat.not_lt] at hrefused
        exact hS.insertRecord hrefused.1 hrefused.2
  | commitRecord auditId =>
      rw [WindowWorld.step?] at hstep
      obtain ⟨r, hfind, rfl⟩ := Option.map_eq_some_iff.mp hstep
      have hr := List.mem_of_find?_eq_some hfind
      obtain rfl : r.auditId = auditId := by
        have hid := List.find?_some hfind
        simpa using hid
      exact hS.commitRecord hr (hsteady r hr rfl)
  | loadRules session rules =>
      have hnil : w.sweeps = [] := List.length_eq_zero_iff.mp hsteady
      have hnone : w.sweep? session = none := by rw [WindowWorld.sweep?, hnil, List.find?_nil]
      rw [WindowWorld.step?, hnone, if_neg (by decide)] at hstep
      obtain rfl := Option.some.inj hstep
      refine hS.resweep (fun x hx => absurd (hnil ▸ hx) List.not_mem_nil) (fun x hx => ?_) ?_ _
      · rw [hnil] at hx
        exact List.mem_singleton.mp hx ▸ rfl
      · rw [hnil]
        exact le_rfl
  | read session now rows =>
      rw [WindowWorld.step?] at hstep
      split at hstep
      · rename_i _ d rest emitted hsweep
        obtain ⟨hsweeps, hsession⟩ := sweeps_of_sweep? hS hsweep
        by_cases hmay : w.now ≤ now ∧ rows.Perm (d.rows now w.visible)
        · rw [if_pos hmay] at hstep
          obtain rfl := Option.some.inj hstep
          rw [enter_eq (w := { w with now := now }) hsweeps hsession]
          exact hS.read hsweeps rfl (hsteady _ hsweep d rfl) hmay.1 hmay.2 rfl
        · rw [if_neg hmay] at hstep
          cases hstep
      · cases hstep
  | check session clock issueId =>
      rw [WindowWorld.step?] at hstep
      split at hstep
      · rename_i _ todo pass row left emitted hsweep
        obtain ⟨hsweeps, hsession⟩ := sweeps_of_sweep? hS hsweep
        have hpass := hS.active _ (hsweeps ▸ List.mem_cons_self) _ rfl
        by_cases hanswered : answered sha256 w.events row = true
        · rw [if_pos hanswered] at hstep
          obtain rfl := Option.some.inj hstep
          rw [enter_eq hsweeps hsession]
          exact hS.advance hsweeps rfl rfl rfl rfl (hpass.skip hanswered)
        · rw [if_neg hanswered] at hstep
          obtain rfl := Option.some.inj hstep
          rw [enter_eq hsweeps hsession]
          exact hS.advance hsweeps rfl rfl rfl rfl
            (hpass.files_row (nodup_visible hS) (Bool.eq_false_iff.mpr hanswered) rfl)
      · cases hstep
  | record session issueId =>
      rw [WindowWorld.step?] at hstep
      split at hstep
      · rename_i _ todo pass left row f emitted hsweep
        obtain ⟨hsweeps, hsession⟩ := sweeps_of_sweep? hS hsweep
        obtain ⟨hclock, hspares⟩ := hsteady _ hsweep _ rfl _ rfl
        obtain rfl := Option.some.inj hstep
        rw [enter_eq (w := { w with events := w.events ++ [⟨1, f.event issueId⟩] }) hsweeps hsession]
        exact hS.record hsweeps rfl hclock (hsession ▸ hspares) issueId rfl
      · cases hstep
  | endPass session =>
      rw [WindowWorld.step?] at hstep
      split at hstep
      · rename_i _ todo pass emitted hsweep
        obtain ⟨hsweeps, hsession⟩ := sweeps_of_sweep? hS hsweep
        obtain rfl := Option.some.inj hstep
        rw [enter_eq (w := { w with passes := pass :: w.passes }) hsweeps hsession]
        exact hS.endPass hsweeps rfl (fun y hy => List.mem_singleton.mp hy ▸ rfl) le_rfl
      · cases hstep
  | endSweep session =>
      rw [WindowWorld.step?] at hstep
      split at hstep
      · rename_i _ emitted hsweep
        obtain ⟨hsweeps, hsession⟩ := sweeps_of_sweep? hS hsweep
        obtain rfl := Option.some.inj hstep
        rw [leave_eq hsweeps hsession]
        exact hS.resweep (fun x hx => List.mem_singleton.mp (hsweeps ▸ hx) ▸ rfl)
          (fun x hx => absurd hx List.not_mem_nil) (Nat.zero_le _) _
      · cases hstep
  | fail session =>
      rw [WindowWorld.step?] at hstep
      split at hstep
      · rename_i _ todo active emitted hsweep
        obtain ⟨hsweeps, hsession⟩ := sweeps_of_sweep? hS hsweep
        obtain rfl := Option.some.inj hstep
        rw [leave_eq hsweeps hsession]
        have hnone : ∀ x ∈ ([] : List ActiveSweep), x.active = none := fun x hx => absurd hx List.not_mem_nil
        cases active with
        | none =>
            exact hS.resweep (fun x hx => List.mem_singleton.mp (hsweeps ▸ hx) ▸ rfl) hnone (Nat.zero_le _) _
        | some a =>
            obtain ⟨hleft, hfiling⟩ := hsteady _ hsweep a rfl
            obtain ⟨pass, left, filing⟩ := a
            obtain rfl := List.length_eq_zero_iff.mp hleft
            obtain rfl := Option.isNone_iff_eq_none.mp hfiling
            exact hS.endPass hsweeps rfl hnone (Nat.zero_le _)
      · cases hstep
  | file e =>
      obtain rfl := Option.some.inj hstep
      exact hS.file hsteady
  | deleteBefore ts =>
      obtain rfl := Option.some.inj hstep
      exact hS.deleteBefore (fun x hx => Option.isNone_iff_eq_none.mp (hsteady.1 x hx))
        fun name p hp => hsteady.2 name (mem_ruleNames name) p hp

theorem Sound.start : Sound sha256 .start where
  nodup := List.nodup_nil
  seen := fun _ hp => absurd hp List.not_mem_nil
  covered := fun _ _ hp => absurd hp (Option.not_mem_none _)
  fresh := fun _ _ hr => absurd hr List.not_mem_nil
  alone := Nat.zero_le _
  active := fun _ hx => absurd hx List.not_mem_nil
  lawful := fun _ hp => absurd hp List.not_mem_nil

theorem sound_of_reachable
    (h : ((windowMachine sha256).restrict (WindowWorld.Steady sha256)).Reachable w) : Sound sha256 w := by
  refine h.invariant Sound.start fun w e _ hmay hS => ?_
  obtain ⟨w', hw'⟩ := Option.isSome_iff_exists.mp hmay.1
  have hnext : ((windowMachine sha256).restrict (WindowWorld.Steady sha256)).next w e = w' := by
    change (w.step? sha256 e).getD w = w'
    rw [hw', Option.getD_some]
  rw [hnext]
  exact hS.step hmay.2 hw'

/-- **No record is missed, and none is answered twice**, in a run whose steps are steady. -/
theorem passes_lawful
    (h : ((windowMachine sha256).restrict (WindowWorld.Steady sha256)).Reachable w) :
    ∀ p ∈ w.passes, p.Lawful sha256 := (sound_of_reachable h).lawful

/-! ### Runs -/

section Runs

/-- A digest that is no digest. -/
def bytesDigest (bytes : List UInt8) : Text := bytes.map UInt8.toUInt16

theorem bytesDigest_injective : Function.Injective bytesDigest :=
  List.map_injective_iff.mpr fun a b h => by
    have hnat : a.toUInt16.toNat = b.toUInt16.toNat := congrArg UInt16.toNat h
    rw [UInt8.toNat_toUInt16, UInt8.toNat_toUInt16] at hnat
    exact UInt8.toNat_inj.mp hnat

/-- A failed validation, committed as soon as it is inserted. -/
def failure (auditId : String) (ts : Nat) : List WindowEvent :=
  [.insertRecord ⟨js auditId, ts, js "validate_sql", some (js "fail"), [js "d.t"], none, none⟩,
    .commitRecord (js auditId)]

def shippedRules : List DetectorRule := [⟨.repeatedValidateFail, true, ⟨none, none, none⟩⟩]

/-- A sweep up to its first event, which it stamps and has still to write. -/
def sweepTo (now clock n latest : Nat) : List WindowEvent :=
  [.loadRules 0 shippedRules, .read 0 now [⟨.object (js "d.t"), n, latest⟩], .check 0 clock (js "i")]

def steadyRun : List WindowEvent :=
  failure "a" 1000 ++ failure "b" 2000 ++ failure "c" 3000 ++ sweepTo 3000 3 3 3000 ++
    [.record 0 (js "i"), .endPass 0, .endSweep 0] ++ failure "d" 4000 ++ sweepTo 4000 5 4 4000 ++
    [.record 0 (js "i"), .endPass 0]

/-- The fourth failure is seen after the query and before the event is stamped. -/
def hiddenRun : List WindowEvent :=
  failure "a" 1000 ++ failure "b" 2000 ++ failure "c" 3000 ++
    [.loadRules 0 shippedRules, .read 0 3000 [⟨.object (js "d.t"), 3, 3000⟩]] ++ failure "d" 4000 ++
    [.check 0 5 (js "i"), .record 0 (js "i"), .endPass 0, .endSweep 0] ++ sweepTo 6000 7 4 4000 ++ [.endPass 0]

theorem passes_lawful_steadyRun :
    (∀ p ∈ (((windowMachine bytesDigest).restrict (WindowWorld.Steady bytesDigest)).run steadyRun).passes,
      p.Lawful bytesDigest) ∧
    (((windowMachine bytesDigest).restrict (WindowWorld.Steady bytesDigest)).run steadyRun).passes.map
      (fun p => p.recorded.length) = [1, 1] :=
  ⟨passes_lawful (Machine.reachable_run _ steadyRun), by decide +kernel⟩

theorem not_passes_lawful :
    ¬ ∀ sha256 : List UInt8 → Text, Function.Injective sha256 → ∀ w, (windowMachine sha256).Reachable w →
      ∀ p ∈ w.passes, p.Lawful sha256 := by
  intro h
  obtain ⟨p, hp, hnone, row, hrow, hnew⟩ : ∃ p ∈ ((windowMachine bytesDigest).run hiddenRun).passes,
      p.recorded.isEmpty = true ∧
        ∃ row ∈ p.rows, ∃ r ∈ p.read, r ∉ p.before ∧ row.group ∈ p.rule.groups r := by
    decide +kernel
  have hlawful := h bytesDigest bytesDigest_injective _ (Machine.reachable_run _ hiddenRun) p hp
  obtain ⟨g, hg, -⟩ := hlawful.complete row hrow hnew
  rw [List.isEmpty_iff.mp hnone] at hg
  exact List.not_mem_nil hg

end Runs

end ContextLayer.Windows
