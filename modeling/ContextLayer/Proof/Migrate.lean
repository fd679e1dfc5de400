import ContextLayer.Migrate
import ContextLayer.Proof.Platform

/-!
# Each migration once, in order

The lock is held by one replica at a time, so what the holder read of the table stays true but for what it adds itself. So a
version is executed and recorded once, with the checksum of what was executed; and where every release only adds files behind
those of the one before, the database is always at one prefix of the newest, wherever replicas fail.
-/

namespace ContextLayer.Migrate

open Text

variable {P : Platform} {s s' : State} {i j : Nat} {r : Replica} {files : List Migration} {stage : Stage}

/-! ### The lock -/

/-- Behind the lock, and before it is given back. -/
def Stage.Holds : Stage → Prop
  | .locking | .unlocking _ | .done _ => False
  | _ => True

/-- Nobody else loses or gets the lock. -/
def Frees (s s' : State) (i : Nat) : Prop := ∀ j, j ≠ i → s.lock = some j → s'.lock = some j

theorem frees_of_eq (h : s'.lock = s.lock) : Frees s s' i := fun _ _ hj => h.trans hj

theorem frees_release (h : s'.lock = if s.lock = some i then none else s.lock) : Frees s s' i := by
  intro j hne hj
  rw [h, hj, if_neg fun heq => hne (Option.some.inj heq)]

theorem frees_of_none (h : s.lock = none) : Frees s s' i := by
  intro j _ hj
  rw [h] at hj
  cases hj

/-! ### What a replica knows -/

section

variable (P)

/-- What holds of a replica, by the rows: the files behind it are recorded as they are on its disk, and what it is about to
record is not there. -/
def Stage.Knows (files : List Migration) (rows : List Applied) : Stage → Prop
  | .next seen rest _ => (∃ behind, files = behind ++ rest ∧ ∀ f ∈ behind, record P f ∈ rows) ∧ seen ⊆ rows
  | .begun seen file rest _ =>
      (∃ behind, files = behind ++ file :: rest ∧ ∀ f ∈ behind, record P f ∈ rows) ∧ seen ⊆ rows
  | .executed seen file rest _ =>
      (∃ behind, files = behind ++ file :: rest ∧ ∀ f ∈ behind, record P f ∈ rows) ∧ seen ⊆ rows
  | .recorded seen file rest _ =>
      ((∃ behind, files = behind ++ file :: rest ∧ ∀ f ∈ behind, record P f ∈ rows) ∧ seen ⊆ rows) ∧
        file.version ∉ rows.map Prod.fst
  | .unlocking (some _) => ∀ f ∈ files, record P f ∈ rows
  | .done (some _) => ∀ f ∈ files, record P f ∈ rows
  | _ => True

/-- What every run keeps. -/
structure Inv (s : State) : Prop where
  rows : s.rows = s.executed.map (record P)
  once : (s.executed.map Migration.version).Nodup
  lock : ∀ (i : Nat) (r : Replica), s.replicas[i]? = some r → r.stage.Holds → s.lock = some i
  knows : ∀ (i : Nat) (r : Replica), s.replicas[i]? = some r → r.stage.Knows P r.files s.rows

end

theorem getElem?_goto {i j : Nat} {replicas : List Replica} {r r' : Replica}
    (h : (replicas.set i r')[j]? = some r) : j = i ∧ r = r' ∨ j ≠ i ∧ replicas[j]? = some r := by
  by_cases hij : i = j
  · subst hij
    rw [List.getElem?_set_self'] at h
    obtain ⟨_, -, rfl⟩ := Option.map_eq_some_iff.mp h
    exact .inl ⟨rfl, rfl⟩
  · rw [List.getElem?_set_ne hij] at h
    exact .inr ⟨fun heq => hij heq.symm, h⟩

theorem Stage.Knows.mono {rows rows' : List Applied} (h : stage.Knows P files rows) (hsub : rows ⊆ rows')
    (hfree : ¬ stage.Holds) : stage.Knows P files rows' := by
  cases stage with
  | locking => trivial
  | unlocking result =>
      cases result with
      | none => trivial
      | some applied => exact fun f hf => hsub (h f hf)
  | done result =>
      cases result with
      | none => trivial
      | some applied => exact fun f hf => hsub (h f hf)
  | _ => exact absurd trivial hfree

/-- A step of one replica that writes nothing. -/
theorem Inv.goto (h : Inv P s) (hreplicas : s'.replicas = s.replicas.set i ⟨files, stage⟩) (hrows : s'.rows = s.rows)
    (hexecuted : s'.executed = s.executed) (hfrees : Frees s s' i) (hholds : stage.Holds → s'.lock = some i)
    (hknows : stage.Knows P files s.rows) : Inv P s' := by
  constructor
  · rw [hrows, hexecuted]
    exact h.rows
  · rw [hexecuted]
    exact h.once
  · intro j r hj hr
    rw [hreplicas] at hj
    obtain ⟨rfl, rfl⟩ | ⟨hne, hold⟩ := getElem?_goto hj
    · exact hholds hr
    · exact hfrees j hne (h.lock j r hold hr)
  · intro j r hj
    rw [hreplicas] at hj
    rw [hrows]
    obtain ⟨rfl, rfl⟩ | ⟨-, hold⟩ := getElem?_goto hj
    · exact hknows
    · exact h.knows j r hold

/-- The commit of the holder: nobody else is behind the lock. -/
theorem Inv.commit (h : Inv P s) {file : Migration} (hlock : s.lock = some i)
    (hnew : file.version ∉ s.rows.map Prod.fst) (hreplicas : s'.replicas = s.replicas.set i ⟨files, stage⟩)
    (hrows : s'.rows = s.rows ++ [record P file]) (hexecuted : s'.executed = s.executed ++ [file])
    (hholds : stage.Holds → s'.lock = some i) (hknows : stage.Knows P files (s.rows ++ [record P file])) : Inv P s' := by
  have hothers : ∀ j r, j ≠ i → s.replicas[j]? = some r → ¬ r.stage.Holds := by
    intro j r hne hj hholds
    have := h.lock j r hj hholds
    rw [hlock] at this
    exact hne (Option.some.inj this).symm
  constructor
  · rw [hrows, hexecuted, List.map_append, h.rows]
    rfl
  · rw [hexecuted, List.map_append]
    refine List.nodup_append.mpr ⟨h.once, List.nodup_singleton _, fun v hv v' hv' heq => hnew ?_⟩
    rw [List.map_singleton, List.mem_singleton] at hv'
    rw [h.rows, List.map_map, ← hv', ← heq]
    exact hv
  · intro j r hj hr
    rw [hreplicas] at hj
    obtain ⟨rfl, rfl⟩ | ⟨hne, hold⟩ := getElem?_goto hj
    · exact hholds hr
    · exact absurd hr (hothers j r hne hold)
  · intro j r hj
    rw [hreplicas] at hj
    rw [hrows]
    obtain ⟨rfl, rfl⟩ | ⟨hne, hold⟩ := getElem?_goto hj
    · exact hknows
    · exact (h.knows j r hold).mono (List.subset_append_left _ _) (hothers j r hne hold)

theorem mem_of_get? {rows : List Applied} {version checksum : Text} (h : Dict.get? rows version = some checksum) :
    (version, checksum) ∈ rows := Dict.mem_of_get? h

theorem Inv.lose (h : Inv P s) : Inv P (s.lose i files) :=
  h.goto rfl rfl rfl (frees_release rfl) False.elim trivial

theorem Inv.advance (h : Inv P s) {reply : Reply} (hi : s.replicas[i]? = some ⟨files, stage⟩)
    (hadvance : s.advance P i files stage reply = some s') : Inv P s' := by
  have hlock : stage.Holds → s.lock = some i := h.lock i _ hi
  have hknows : stage.Knows P files s.rows := h.knows i _ hi
  cases stage with
  | locking =>
      cases reply with
      | ok =>
          rw [State.advance] at hadvance
          split at hadvance
          · rename_i hnone
            obtain rfl := Option.some.inj hadvance
            exact h.goto rfl rfl rfl (frees_of_none hnone) (fun _ => rfl) trivial
          · cases hadvance
      | error => exact Option.some.inj hadvance ▸ h.goto rfl rfl rfl (frees_of_eq rfl) False.elim trivial
      | lost committed => exact Option.some.inj hadvance ▸ h.lose
  | creating =>
      cases reply with
      | ok => exact Option.some.inj hadvance ▸ h.goto rfl rfl rfl (frees_of_eq rfl) (fun _ => hlock trivial) trivial
      | error => exact Option.some.inj hadvance ▸ h.goto rfl rfl rfl (frees_of_eq rfl) False.elim trivial
      | lost committed => exact Option.some.inj hadvance ▸ h.lose
  | reading =>
      cases reply with
      | ok =>
          rw [State.advance] at hadvance
          split at hadvance
          · rename_i rows hrows
            obtain rfl := Option.some.inj hadvance
            refine h.goto rfl rfl rfl (frees_of_eq rfl) (fun _ => hlock trivial) ⟨⟨[], rfl, ?_⟩, ?_⟩
            · exact fun f hf => absurd hf List.not_mem_nil
            · rw [State.rows, hrows]
              exact List.Subset.refl _
          · cases hadvance
      | error => exact Option.some.inj hadvance ▸ h.goto rfl rfl rfl (frees_of_eq rfl) False.elim trivial
      | lost committed => exact Option.some.inj hadvance ▸ h.lose
  | next seen rest applied =>
      obtain ⟨⟨behind, rfl, hbehind⟩, hseen⟩ := hknows
      cases reply with
      | ok =>
          cases rest with
          | nil =>
              rw [List.append_nil] at hadvance
              refine Option.some.inj hadvance ▸ h.goto rfl rfl rfl (frees_of_eq rfl) False.elim hbehind
          | cons file rest =>
              rw [State.advance] at hadvance
              split at hadvance
              · exact Option.some.inj hadvance ▸
                  h.goto rfl rfl rfl (frees_of_eq rfl) (fun _ => hlock trivial) ⟨⟨behind, rfl, hbehind⟩, hseen⟩
              · rename_i checksum hchecksum
                split at hadvance
                · rename_i hsame
                  refine Option.some.inj hadvance ▸
                    h.goto rfl rfl rfl (frees_of_eq rfl) (fun _ => hlock trivial)
                      ⟨⟨behind ++ [file], by rw [List.append_assoc]; rfl, ?_⟩, hseen⟩
                  intro f hf
                  rcases List.mem_append.mp hf with hold | hnew
                  · exact hbehind f hold
                  · obtain rfl := List.mem_singleton.mp hnew
                    have hmem := mem_of_get? hchecksum
                    rw [hsame] at hmem
                    exact hseen hmem
                · exact Option.some.inj hadvance ▸ h.goto rfl rfl rfl (frees_of_eq rfl) False.elim trivial
      | error =>
          cases rest with
          | nil => cases hadvance
          | cons file rest =>
              exact Option.some.inj hadvance ▸ h.goto rfl rfl rfl (frees_of_eq rfl) False.elim trivial
      | lost committed =>
          cases rest with
          | nil => exact Option.some.inj hadvance ▸ h.lose
          | cons file rest => exact Option.some.inj hadvance ▸ h.lose
  | begun seen file rest applied =>
      cases reply with
      | ok => exact Option.some.inj hadvance ▸ h.goto rfl rfl rfl (frees_of_eq rfl) (fun _ => hlock trivial) hknows
      | error => exact Option.some.inj hadvance ▸ h.goto rfl rfl rfl (frees_of_eq rfl) (fun _ => hlock trivial) trivial
      | lost committed => exact Option.some.inj hadvance ▸ h.lose
  | executed seen file rest applied =>
      cases reply with
      | ok =>
          rw [State.advance] at hadvance
          split at hadvance
          · cases hadvance
          · rename_i hnew
            exact Option.some.inj hadvance ▸
              h.goto rfl rfl rfl (frees_of_eq rfl) (fun _ => hlock trivial) ⟨hknows, hnew⟩
      | error => exact Option.some.inj hadvance ▸ h.goto rfl rfl rfl (frees_of_eq rfl) (fun _ => hlock trivial) trivial
      | lost committed => exact Option.some.inj hadvance ▸ h.lose
  | recorded seen file rest applied =>
      obtain ⟨⟨⟨behind, rfl, hbehind⟩, hseen⟩, hnew⟩ := hknows
      cases reply with
      | ok =>
          obtain rfl := Option.some.inj hadvance
          refine h.commit (hlock trivial) hnew rfl rfl rfl (fun _ => hlock trivial)
            ⟨⟨behind ++ [file], by rw [List.append_assoc]; rfl, ?_⟩, fun row hrow => List.mem_append_left _ (hseen hrow)⟩
          intro f hf
          rcases List.mem_append.mp hf with hold | hmem
          · exact List.mem_append_left _ (hbehind f hold)
          · obtain rfl := List.mem_singleton.mp hmem
            exact List.mem_append_right _ List.mem_cons_self
      | error => exact Option.some.inj hadvance ▸ h.goto rfl rfl rfl (frees_of_eq rfl) (fun _ => hlock trivial) trivial
      | lost committed =>
          cases committed with
          | false => exact Option.some.inj hadvance ▸ h.lose
          | true => exact Option.some.inj hadvance ▸ h.commit (hlock trivial) hnew rfl rfl rfl False.elim trivial
  | aborted =>
      cases reply with
      | lost committed => exact Option.some.inj hadvance ▸ h.lose
      | _ => exact Option.some.inj hadvance ▸ h.goto rfl rfl rfl (frees_of_eq rfl) False.elim trivial
  | unlocking result =>
      have hdone : (Stage.done result).Knows P files s.rows := by
        cases result with
        | none => trivial
        | some applied => exact hknows
      cases reply with
      | ok => exact Option.some.inj hadvance ▸ h.goto rfl rfl rfl (frees_release rfl) False.elim hdone
      | error => exact Option.some.inj hadvance ▸ h.goto rfl rfl rfl (frees_of_eq rfl) False.elim hdone
      | lost committed => exact Option.some.inj hadvance ▸ h.lose
  | done result => cases hadvance

theorem getElem?_append_singleton {replicas : List Replica} {r r' : Replica}
    (h : (replicas ++ [r'])[j]? = some r) : replicas[j]? = some r ∨ r = r' := by
  rcases Nat.lt_or_ge j replicas.length with hlt | hge
  · rw [List.getElem?_append_left hlt] at h
    exact .inl h
  · rw [List.getElem?_append_right hge] at h
    exact .inr (List.mem_singleton.mp (List.mem_of_getElem? h))

theorem Inv.start (h : Inv P s) (files : List Migration) :
    Inv P { s with replicas := s.replicas ++ [⟨files, .locking⟩] } := by
  refine { h with lock := fun j r hj hr => ?_, knows := fun j r hj => ?_ }
  · rcases getElem?_append_singleton hj with hold | rfl
    · exact h.lock j r hold hr
    · exact hr.elim
  · rcases getElem?_append_singleton hj with hold | rfl
    · exact h.knows j r hold
    · trivial

theorem Inv.step (h : Inv P s) {e : Event} (hstep : step? P s e = some s') : Inv P s' := by
  cases e with
  | start dir => exact Option.some.inj hstep ▸ h.start dir.migrations
  | reply i reply =>
      obtain ⟨r, hi, hadvance⟩ := Option.bind_eq_some_iff.mp hstep
      exact h.advance hi hadvance

theorem inv_initial (P : Platform) : Inv P initial := by
  refine ⟨rfl, List.nodup_nil, fun i r hi => ?_, fun i r hi => ?_⟩
  · cases hi
  · cases hi

theorem inv (h : (machine P).Reachable s) : Inv P s :=
  h.invariant_ofStep (inv_initial P) fun _ _ _ hstep hs => hs.step hstep

/-- The table of a run, whatever releases take part in it. -/
structure Migrated (P : Platform) (s : State) : Prop where
  /-- The table says what was executed, with the checksum of what was executed. -/
  rows : s.rows = s.executed.map (record P)
  once : (s.executed.map Migration.version).Nodup
  /-- A replica that returns finds every file of its own recorded as it is on its disk. -/
  returned : ∀ r ∈ s.replicas, ∀ applied, r.stage = .done (some applied) → ∀ f ∈ r.files, record P f ∈ s.rows
  /-- One replica at a time is between the lock and its release. -/
  exclusive : ∀ (i j : Nat) (r r' : Replica), s.replicas[i]? = some r → s.replicas[j]? = some r' →
    r.stage.Holds → r'.stage.Holds → i = j

/-- **No version is applied twice, and none unrecorded**, however many replicas start and wherever they fail. -/
theorem migrations_recorded (h : (machine P).Reachable s) : Migrated P s := by
  have hs := inv h
  refine ⟨hs.rows, hs.once, fun r hr applied hdone => ?_, fun i j r r' hi hj hr hr' => ?_⟩
  · obtain ⟨i, hi⟩ := List.mem_iff_getElem?.mp hr
    have hknows := hs.knows i r hi
    rw [hdone] at hknows
    exact hknows
  · exact Option.some.inj ((hs.lock i r hi hr).symm.trans (hs.lock j r' hj hr'))

/-! ### Releases that only add files -/

/-- What a replica of such a release knows, by what was executed. What it has seen was there when it took the lock; where
it has applied something itself, all that was executed is behind it. -/
def Stage.InOrder (P : Platform) (files executed : List Migration) : Stage → Prop
  | .next seen rest _ => ∃ behind known, files = behind ++ rest ∧ seen = known.map (record P) ∧ known <+: executed ∧
      behind <+: executed ∧ (known = executed ∨ behind = executed)
  | .begun seen file rest _ => files = executed ++ file :: rest ∧
      ∃ known, seen = known.map (record P) ∧ known <+: executed
  | .executed seen file rest _ => files = executed ++ file :: rest ∧
      ∃ known, seen = known.map (record P) ∧ known <+: executed
  | .recorded seen file rest _ => files = executed ++ file :: rest ∧
      ∃ known, seen = known.map (record P) ∧ known <+: executed
  | .unlocking (some _) => files <+: executed
  | .done (some _) => files <+: executed
  | _ => True

/-- What a run keeps whose releases are prefixes of one list. -/
structure Ordered (P : Platform) (all : List Migration) (s : State) : Prop extends Inv P s where
  images : ∀ (i : Nat) (r : Replica), s.replicas[i]? = some r → r.files <+: all
  executedOf : s.executed <+: all
  inOrder : ∀ (i : Nat) (r : Replica), s.replicas[i]? = some r → r.stage.InOrder P r.files s.executed

section

variable {all executed behind known rest : List Migration} {file : Migration}

theorem notMem_behind (hall : (all.map Migration.version).Nodup) (hfiles : behind ++ file :: rest <+: all) :
    file ∉ behind := by
  obtain ⟨later, rfl⟩ := hfiles
  intro hmem
  rw [List.append_assoc, List.map_append] at hall
  exact (List.nodup_append.mp hall).2.2 _ (List.mem_map_of_mem hmem) _ (List.mem_map_of_mem List.mem_cons_self) rfl

theorem behind_concat (hfiles : behind ++ file :: rest <+: all) : behind ++ [file] <+: all :=
  List.IsPrefix.trans ⟨rest, by rw [List.append_assoc]; rfl⟩ hfiles

/-- The file in turn, if it was seen, was executed next; and else everything executed is behind it. -/
theorem file_in_turn (hall : (all.map Migration.version).Nodup) (hfiles : behind ++ file :: rest <+: all)
    (hexecuted : executed <+: all) (hknown : known <+: executed) (hbehind : behind <+: executed)
    (hor : known = executed ∨ behind = executed) :
    (file ∈ known → known = executed ∧ behind ++ [file] <+: executed) ∧ (file ∉ known → behind = executed) := by
  have hnot := notMem_behind hall hfiles
  have hconcat := List.prefix_or_prefix_of_prefix (behind_concat hfiles) hexecuted
  constructor
  · intro hmem
    have hknownAll : known = executed := hor.resolve_right fun heq => hnot (heq ▸ hknown.subset hmem)
    refine ⟨hknownAll, ?_⟩
    rcases hconcat with hle | hle
    · exact hle
    · rcases List.prefix_concat_iff.mp hle with heq | hle
      · exact heq ▸ List.prefix_rfl
      · exact absurd (hle.subset (hknown.subset hmem)) hnot
  · intro hmem
    refine hor.elim (fun hknownAll => ?_) id
    rcases hconcat with hle | hle
    · exact absurd (hknownAll ▸ hle.subset (List.mem_append_right _ List.mem_cons_self)) hmem
    · rcases List.prefix_concat_iff.mp hle with heq | hle
      · exact absurd (hknownAll ▸ heq ▸ List.mem_append_right _ List.mem_cons_self) hmem
      · exact hbehind.eq_of_length_le hle.length_le

theorem mem_of_map_get? (hall : (all.map Migration.version).Nodup) (hknown : known ⊆ all) (hfile : file ∈ all)
    {checksum : Text} (h : Dict.get? (known.map (record P)) file.version = some checksum) : file ∈ known := by
  obtain ⟨g, hg, heq⟩ := List.mem_map.mp (Dict.mem_of_get? h)
  obtain rfl := List.inj_on_of_nodup_map hall (hknown hg) hfile (congrArg Prod.fst heq)
  exact hg

theorem notMem_of_map_get? (h : Dict.get? (known.map (record P)) file.version = none) : file ∉ known := by
  intro hmem
  have hsome : (Dict.get? (known.map (record P)) file.version).isSome :=
    Dict.isSome_get?_iff.mpr ⟨record P file, List.mem_map_of_mem hmem, rfl⟩
  rw [h] at hsome
  cases hsome

end

variable {all : List Migration}

theorem Stage.InOrder.mono {executed : List Migration} (h : stage.InOrder P files executed) (file : Migration)
    (hfree : ¬ stage.Holds) : stage.InOrder P files (executed ++ [file]) := by
  cases stage with
  | locking => trivial
  | unlocking result =>
      cases result with
      | none => trivial
      | some applied => exact List.IsPrefix.trans h (List.prefix_append _ _)
  | done result =>
      cases result with
      | none => trivial
      | some applied => exact List.IsPrefix.trans h (List.prefix_append _ _)
  | _ => exact absurd trivial hfree

/-- What a step does to what was executed, and to the replica that takes it. -/
inductive Moves (P : Platform) (s s' : State) (i : Nat) (files : List Migration) : Prop where
  | stays (stage : Stage) (hreplicas : s'.replicas = s.replicas.set i ⟨files, stage⟩)
      (hexecuted : s'.executed = s.executed) (hinOrder : stage.InOrder P files s.executed)
  | commits (stage : Stage) (file : Migration) (rest : List Migration)
      (hreplicas : s'.replicas = s.replicas.set i ⟨files, stage⟩) (hfiles : files = s.executed ++ file :: rest)
      (hexecuted : s'.executed = s.executed ++ [file]) (hlock : s.lock = some i)
      (hinOrder : stage.InOrder P files (s.executed ++ [file]))

theorem Ordered.moves (h : Ordered P all s) (hall : (all.map Migration.version).Nodup) {reply : Reply}
    (hi : s.replicas[i]? = some ⟨files, stage⟩) (hadvance : s.advance P i files stage reply = some s') :
    Moves P s s' i files := by
  have hlock : stage.Holds → s.lock = some i := h.lock i _ hi
  have hinOrder : stage.InOrder P files s.executed := h.inOrder i _ hi
  have hfiles : files <+: all := h.images i _ hi
  cases stage with
  | locking =>
      cases reply with
      | ok =>
          rw [State.advance] at hadvance
          split at hadvance
          · exact Option.some.inj hadvance ▸ .stays _ rfl rfl trivial
          · cases hadvance
      | _ => exact Option.some.inj hadvance ▸ .stays _ rfl rfl trivial
  | reading =>
      cases reply with
      | ok =>
          rw [State.advance] at hadvance
          split at hadvance
          · rename_i rows hrows
            refine Option.some.inj hadvance ▸ .stays _ rfl rfl
              ⟨[], s.executed, rfl, ?_, List.prefix_rfl, List.nil_prefix, .inl rfl⟩
            rw [← h.rows, State.rows, hrows]
            rfl
          · cases hadvance
      | _ => exact Option.some.inj hadvance ▸ .stays _ rfl rfl trivial
  | next seen rest applied =>
      obtain ⟨behind, known, rfl, rfl, hknown, hbehind, hor⟩ := hinOrder
      cases reply with
      | ok =>
          cases rest with
          | nil =>
              rw [List.append_nil] at hadvance ⊢
              exact Option.some.inj hadvance ▸ .stays _ rfl rfl hbehind
          | cons file rest =>
              obtain ⟨hseen, hunseen⟩ := file_in_turn hall hfiles h.executedOf hknown hbehind hor
              rw [State.advance] at hadvance
              split at hadvance
              · rename_i hnone
                have heq := hunseen (notMem_of_map_get? hnone)
                exact Option.some.inj hadvance ▸ .stays _ rfl rfl ⟨heq ▸ rfl, known, rfl, hknown⟩
              · rename_i checksum hchecksum
                have hmem := mem_of_map_get? hall (fun f hf => h.executedOf.subset (hknown.subset hf))
                  (hfiles.subset (List.mem_append_right _ List.mem_cons_self)) hchecksum
                split at hadvance
                · refine Option.some.inj hadvance ▸ .stays _ rfl rfl
                    ⟨behind ++ [file], known, ?_, rfl, hknown, (hseen hmem).2, .inl (hseen hmem).1⟩
                  rw [List.append_assoc]
                  rfl
                · exact Option.some.inj hadvance ▸ .stays _ rfl rfl trivial
      | error =>
          cases rest with
          | nil => cases hadvance
          | cons file rest => exact Option.some.inj hadvance ▸ .stays _ rfl rfl trivial
      | lost committed =>
          cases rest with
          | nil => exact Option.some.inj hadvance ▸ .stays _ rfl rfl trivial
          | cons file rest => exact Option.some.inj hadvance ▸ .stays _ rfl rfl trivial
  | begun seen file rest applied =>
      cases reply with
      | ok => exact Option.some.inj hadvance ▸ .stays _ rfl rfl hinOrder
      | _ => exact Option.some.inj hadvance ▸ .stays _ rfl rfl trivial
  | executed seen file rest applied =>
      cases reply with
      | ok =>
          rw [State.advance] at hadvance
          split at hadvance
          · cases hadvance
          · exact Option.some.inj hadvance ▸ .stays _ rfl rfl hinOrder
      | _ => exact Option.some.inj hadvance ▸ .stays _ rfl rfl trivial
  | recorded seen file rest applied =>
      obtain ⟨hturn, known, hseen, hknown⟩ := hinOrder
      cases reply with
      | ok =>
          refine Option.some.inj hadvance ▸ .commits _ file rest rfl hturn rfl (hlock trivial)
            ⟨s.executed ++ [file], known, ?_, hseen, hknown.trans (List.prefix_append _ _), List.prefix_rfl, .inr rfl⟩
          rw [hturn, List.append_assoc]
          rfl
      | error => exact Option.some.inj hadvance ▸ .stays _ rfl rfl trivial
      | lost committed =>
          cases committed with
          | false => exact Option.some.inj hadvance ▸ .stays _ rfl rfl trivial
          | true => exact Option.some.inj hadvance ▸ .commits _ file rest rfl hturn rfl (hlock trivial) trivial
  | unlocking result =>
      have hdone : (Stage.done result).InOrder P files s.executed := by
        cases result with
        | none => trivial
        | some applied => exact hinOrder
      cases reply with
      | lost committed => exact Option.some.inj hadvance ▸ .stays _ rfl rfl trivial
      | _ => exact Option.some.inj hadvance ▸ .stays _ rfl rfl hdone
  | done result => cases hadvance
  | _ =>
      cases reply with
      | _ => exact Option.some.inj hadvance ▸ .stays _ rfl rfl trivial

theorem Ordered.advance (h : Ordered P all s) (hall : (all.map Migration.version).Nodup) {reply : Reply}
    (hi : s.replicas[i]? = some ⟨files, stage⟩) (hadvance : s.advance P i files stage reply = some s') :
    Ordered P all s' := by
  have himages : ∀ (stage' : Stage), s'.replicas = s.replicas.set i ⟨files, stage'⟩ →
      ∀ (j : Nat) (r : Replica), s'.replicas[j]? = some r → r.files <+: all := by
    intro stage' hreplicas j r hj
    rw [hreplicas] at hj
    obtain ⟨rfl, rfl⟩ | ⟨-, hold⟩ := getElem?_goto hj
    · exact (h.images j _ hi : files <+: all)
    · exact h.images j r hold
  refine { toInv := h.toInv.advance hi hadvance, images := ?_, executedOf := ?_, inOrder := ?_ }
  · cases h.moves hall hi hadvance with
    | stays stage' hreplicas _ _ => exact himages stage' hreplicas
    | commits stage' _ _ hreplicas _ _ _ _ => exact himages stage' hreplicas
  · cases h.moves hall hi hadvance with
    | stays _ _ hexecuted _ => exact hexecuted ▸ h.executedOf
    | commits _ file rest _ hfiles hexecuted _ _ =>
        have hprefix : files <+: all := h.images i _ hi
        rw [hexecuted]
        exact behind_concat (hfiles ▸ hprefix)
  · intro j r hj
    cases h.moves hall hi hadvance with
    | stays stage' hreplicas hexecuted hinOrder =>
        rw [hreplicas] at hj
        rw [hexecuted]
        obtain ⟨rfl, rfl⟩ | ⟨-, hold⟩ := getElem?_goto hj
        · exact hinOrder
        · exact h.inOrder j r hold
    | commits stage' file _ hreplicas _ hexecuted hlock hinOrder =>
        rw [hreplicas] at hj
        rw [hexecuted]
        obtain ⟨rfl, rfl⟩ | ⟨hne, hold⟩ := getElem?_goto hj
        · exact hinOrder
        · refine (h.inOrder j r hold).mono file fun hholds => hne ?_
          exact Option.some.inj ((h.lock j r hold hholds).symm.trans hlock)

/-- Every release that starts holds the first of `all`. -/
def OnlyAdds (all : List Migration) : State → Event → Prop
  | _, .start dir => dir.migrations <+: all
  | _, .reply _ _ => True

theorem Ordered.step (h : Ordered P all s) (hall : (all.map Migration.version).Nodup) {e : Event}
    (hadds : OnlyAdds all s e) (hstep : step? P s e = some s') : Ordered P all s' := by
  cases e with
  | start dir =>
      obtain rfl := Option.some.inj hstep
      refine { toInv := h.toInv.start dir.migrations, images := ?_, executedOf := h.executedOf, inOrder := ?_ }
      · intro j r hj
        rcases getElem?_append_singleton hj with hold | rfl
        · exact h.images j r hold
        · exact hadds
      · intro j r hj
        rcases getElem?_append_singleton hj with hold | rfl
        · exact h.inOrder j r hold
        · trivial
  | reply i reply =>
      obtain ⟨r, hi, hadvance⟩ := Option.bind_eq_some_iff.mp hstep
      exact h.advance hall hi hadvance

theorem ordered (hall : (all.map Migration.version).Nodup)
    (h : ((machine P).restrict (OnlyAdds all)).Reachable s) : Ordered P all s := by
  refine h.invariant ?_ fun s e _ hmay hs => ?_
  · refine { toInv := inv_initial P, images := ?_, executedOf := List.nil_prefix, inOrder := ?_ }
    · intro i r hi
      cases hi
    · intro i r hi
      cases hi
  · obtain ⟨s', hs'⟩ := Option.isSome_iff_exists.mp hmay.1
    have hnext : ((machine P).restrict (OnlyAdds all)).next s e = s' := by
      change (step? P s e).getD s = s'
      rw [hs', Option.getD_some]
    rw [hnext]
    exact hs.step hall hmay.2 hs'

theorem nodup_migrations (dir : Directory) : (dir.migrations.map Migration.version).Nodup := by
  refine ((List.perm_insertionSort _ _).map _).nodup_iff.mpr ?_
  exact dir.distinct.sublist (List.filter_sublist.map _)

/-- **The database is at a prefix of the newest release**, where each release only adds files behind those of the one
before: in order, without a gap, and at all of the files of any replica that has returned. -/
theorem migrations_in_order (newest : Directory)
    (h : ((machine P).restrict (OnlyAdds newest.migrations)).Reachable s) :
    s.executed <+: newest.migrations ∧ s.rows = s.executed.map (record P) ∧
      ∀ r ∈ s.replicas, ∀ applied, r.stage = .done (some applied) → r.files <+: s.executed := by
  have hs := ordered (nodup_migrations newest) h
  refine ⟨hs.executedOf, hs.rows, fun r hr applied hdone => ?_⟩
  obtain ⟨i, hi⟩ := List.mem_iff_getElem?.mp hr
  have hinOrder := hs.inOrder i r hi
  rw [hdone] at hinOrder
  exact hinOrder

/-! ### A release behind another -/

def first : Directory where
  files := [⟨js "README", []⟩, ⟨js "1.sql", js "a"⟩]
  distinct := by decide

def second : Directory where
  files := [⟨js "2.sql", js "b"⟩, ⟨js "1.sql", js "a"⟩]
  distinct := by decide

instance decidableOnlyAdds (all : List Migration) : DecidableRel (OnlyAdds all)
  | _, .start dir => inferInstanceAs (Decidable (dir.migrations <+: all))
  | _, .reply _ _ => inferInstanceAs (Decidable True)

/-- The first release loses its connection behind the commit of its only file; the second finds the file recorded. -/
def upgrade : List Event :=
  [.start first, .start second] ++ List.replicate 6 (.reply 0 .ok) ++ [.reply 0 (.lost true)] ++
    List.replicate 10 (.reply 1 .ok)

noncomputable def upgraded : State := ((machine .ideal).restrict (OnlyAdds second.migrations)).run upgrade

theorem reachable_upgraded : ((machine .ideal).restrict (OnlyAdds second.migrations)).Reachable upgraded :=
  Machine.reachable_run _ _

theorem migrations_in_order_upgraded : upgraded.executed <+: second.migrations ∧
    upgraded.rows = upgraded.executed.map (record .ideal) ∧
      ∀ r ∈ upgraded.replicas, ∀ applied, r.stage = .done (some applied) → r.files <+: upgraded.executed :=
  migrations_in_order second reachable_upgraded

theorem migrations_recorded_upgraded : Migrated .ideal upgraded :=
  migrations_recorded reachable_upgraded.of_restrict

example : upgraded.executed.map Migration.version = [js "1.sql", js "2.sql"] := by decide +kernel

end ContextLayer.Migrate
