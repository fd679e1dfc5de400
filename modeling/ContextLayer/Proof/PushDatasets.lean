import ContextLayer.PushDatasets

/-!
# Whose dataset a delivery works on

A name stands for the first twelve letters and digits of an id. Where these keep the artifacts apart, what has the
name of an artifact was created for it; where they do not, the first delivery of the second artifact works on the
dataset of the first.
-/

namespace ContextLayer

open Text

variable {unicode : Unicode} {isAlnum : CodePoint → Bool} {artifacts : Set AcceptedArtifact}

/-- Two ids differ in one of their first twelve letters and digits, unless they have none and are not delivered. -/
def Separated (isAlnum : CodePoint → Bool) (artifacts : Set AcceptedArtifact) : Prop :=
  ∀ a ∈ artifacts, ∀ b ∈ artifacts, a.id ≠ b.id → lettersOf isAlnum (codePoints a.id) ≠ [] →
    ∃ i < 12, (lettersOf isAlnum (codePoints a.id))[i]? ≠ (lettersOf isAlnum (codePoints b.id))[i]?

theorem datasetName_eq_ok {artifactId name : PyStr} : datasetName unicode isAlnum artifactId = .ok name ↔
    lettersOf isAlnum artifactId ≠ [] ∧ name = py "cl-" ++ (lettersOf isAlnum artifactId).take 12 := by
  unfold datasetName
  by_cases hnil : lettersOf isAlnum artifactId = []
  · simp [hnil]
  · have htake : (lettersOf isAlnum artifactId).take 12 ≠ [] := by simpa using hnil
    simp only [htake, if_false, Except.ok.injEq, ne_eq, hnil, not_false_eq_true, true_and]
    exact eq_comm

theorem take_eq_take_iff {α : Type} {xs ys : List α} {n : Nat} :
    xs.take n = ys.take n ↔ ∀ i < n, xs[i]? = ys[i]? := by
  constructor
  · intro h i hi
    rw [← List.getElem?_take_of_lt hi, h, List.getElem?_take_of_lt hi]
  · intro h
    apply List.ext_getElem?
    intro i
    by_cases hi : i < n
    · rw [List.getElem?_take_of_lt hi, List.getElem?_take_of_lt hi, h i hi]
    · rw [List.getElem?_take_eq_none (Nat.le_of_not_lt hi), List.getElem?_take_eq_none (Nat.le_of_not_lt hi)]

/-- Separated artifacts have one name only if they are one. -/
theorem Separated.id_eq (h : Separated isAlnum artifacts) {a b : AcceptedArtifact} (ha : a ∈ artifacts)
    (hb : b ∈ artifacts) {name : PyStr} (hname : datasetName unicode isAlnum (codePoints a.id) = .ok name)
    (hname' : datasetName unicode isAlnum (codePoints b.id) = .ok name) : a.id = b.id := by
  by_contra hne
  obtain ⟨hletters, rfl⟩ := datasetName_eq_ok.mp hname
  obtain ⟨-, hsame⟩ := datasetName_eq_ok.mp hname'
  obtain ⟨i, hi, hdiffer⟩ := h a ha b hb hne hletters
  exact hdiffer (take_eq_take_iff.mp (List.append_cancel_left hsame) i hi)

/-- What a workspace keeps as long as it is of separated artifacts. -/
structure Workspace.Owned (unicode : Unicode) (isAlnum : CodePoint → Bool) (artifacts : Set AcceptedArtifact)
    (w : Workspace) : Prop where
  ids : (w.datasets.map PushDataset.id).Nodup
  assigned : ∀ d ∈ w.datasets, d.id ∈ w.assigned
  named : ∀ d ∈ w.datasets, ∃ a ∈ artifacts, a.id = d.owner ∧
    datasetName unicode isAlnum (codePoints a.id) = .ok d.name
  delivering : ∀ n delivery, w.deliveries n = some delivery → ∃ a ∈ artifacts, a.id = delivery.artifactId ∧
    datasetName unicode isAlnum (codePoints a.id) = .ok delivery.name
  target : ∀ n delivery, w.deliveries n = some delivery → ∀ i ∈ delivery.target, i ∈ w.assigned ∧
    ∀ d ∈ w.datasets, d.id = i → d.owner = delivery.artifactId
  apart : w.Apart

namespace Workspace

variable {w w' : Workspace}

theorem Owned.addressing (h : w.Owned unicode isAlnum artifacts) {n : Nat} {delivery : PushDelivery}
    (hdelivery : w.deliveries n = some delivery) {i : Text} (hi : delivery.target = some i) :
    (w.addressing delivery i).Owned unicode isAlnum artifacts where
  ids := h.ids
  assigned := h.assigned
  named := h.named
  delivering := h.delivering
  target := h.target
  apart := by
    intro call hcall
    rcases List.mem_append.mp hcall with hold | hnew
    · exact h.apart call hold
    · obtain ⟨d, hd, rfl⟩ := List.mem_map.mp hnew
      obtain ⟨hmem, hid⟩ := List.mem_filter.mp hd
      exact ((h.target n delivery hdelivery i hi).2 d hmem (of_decide_eq_true hid)).symm

theorem Owned.without (h : w.Owned unicode isAlnum artifacts) (p : PushDataset → Bool) :
    ({ w with datasets := w.datasets.filter p } : Workspace).Owned unicode isAlnum artifacts where
  ids := h.ids.sublist (List.filter_sublist.map _)
  assigned d hd := h.assigned d (List.mem_of_mem_filter hd)
  named d hd := h.named d (List.mem_of_mem_filter hd)
  delivering := h.delivering
  target n delivery hdelivery i hi :=
    ⟨(h.target n delivery hdelivery i hi).1, fun d hd => (h.target n delivery hdelivery i hi).2 d
      (List.mem_of_mem_filter hd)⟩
  apart := h.apart

theorem deliveries_withDelivery (n : Nat) (delivery : Option PushDelivery) (m : Nat) :
    (w.withDelivery n delivery).deliveries m = if m = n then delivery else w.deliveries m := by
  change Function.update w.deliveries n delivery m = _
  rw [Function.update_apply]

theorem Owned.withDelivery (h : w.Owned unicode isAlnum artifacts) (n : Nat) {delivery : Option PushDelivery}
    (hartifact : ∀ x ∈ delivery, ∃ a ∈ artifacts, a.id = x.artifactId ∧
      datasetName unicode isAlnum (codePoints a.id) = .ok x.name)
    (htarget : ∀ x ∈ delivery, ∀ i ∈ x.target, i ∈ w.assigned ∧ ∀ d ∈ w.datasets, d.id = i → d.owner = x.artifactId) :
    (w.withDelivery n delivery).Owned unicode isAlnum artifacts where
  ids := h.ids
  assigned := h.assigned
  named := h.named
  delivering m x hx := by
    rw [deliveries_withDelivery] at hx
    split at hx
    · exact hartifact x hx
    · exact h.delivering m x hx
  target m x hx := by
    rw [deliveries_withDelivery] at hx
    split at hx
    · exact htarget x hx
    · exact h.target m x hx
  apart := h.apart

/-- A new dataset belongs to the artifact it is created for, and to no delivery but that. -/
theorem Owned.create (h : w.Owned unicode isAlnum artifacts) {n : Nat} {delivery : PushDelivery}
    (hdelivery : w.deliveries n = some delivery) {datasetId : Text} (hfresh : datasetId ∉ w.assigned) :
    ({ w with
      datasets := w.datasets ++ [⟨datasetId, delivery.name, delivery.artifactId⟩]
      assigned := datasetId :: w.assigned } : Workspace).Owned unicode isAlnum artifacts where
  ids := by
    rw [List.map_append, List.nodup_append]
    refine ⟨h.ids, List.nodup_singleton _, fun i hi j hj heq => ?_⟩
    obtain ⟨d, hd, rfl⟩ := List.mem_map.mp hi
    have hid : d.id = datasetId := heq.trans (List.mem_singleton.mp hj)
    exact hfresh (hid ▸ h.assigned d hd)
  assigned d hd := by
    rcases List.mem_append.mp hd with hold | hnew
    · exact List.mem_cons_of_mem _ (h.assigned d hold)
    · rw [List.mem_singleton.mp hnew]
      exact List.mem_cons_self
  named d hd := by
    rcases List.mem_append.mp hd with hold | hnew
    · exact h.named d hold
    · rw [List.mem_singleton.mp hnew]
      exact h.delivering n delivery hdelivery
  delivering := h.delivering
  target m x hx i hi := by
    obtain ⟨hassigned, howner⟩ := h.target m x hx i hi
    refine ⟨List.mem_cons_of_mem _ hassigned, fun d hd hid => ?_⟩
    rcases List.mem_append.mp hd with hold | hnew
    · exact howner d hold hid
    · rw [List.mem_singleton.mp hnew] at hid
      have hsame : datasetId = i := hid
      exact absurd (hsame ▸ hassigned) hfresh
  apart := h.apart

/-- What has the name of an artifact was created for it. -/
theorem Owned.owner_of_name (h : w.Owned unicode isAlnum artifacts) (hsep : Separated isAlnum artifacts)
    {a : AcceptedArtifact} (ha : a ∈ artifacts) {d : PushDataset} (hd : d ∈ w.datasets)
    (hname : datasetName unicode isAlnum (codePoints a.id) = .ok d.name) : d.owner = a.id := by
  obtain ⟨b, hb, howner, hname'⟩ := h.named d hd
  rw [← howner]
  exact hsep.id_eq hb ha hname' hname

theorem findDataset_eq_some {listing : List PushDataset} {name : PyStr} {d : PushDataset}
    (h : findDataset listing name = some d) : d ∈ listing ∧ d.name = name :=
  ⟨List.mem_of_find?_eq_some h, by simpa using List.find?_some h⟩

/-- One step keeps it. -/
theorem Owned.step (hsep : Separated isAlnum artifacts) {e : PushEvent} (hwithin : e.Within artifacts)
    (h : w.Owned unicode isAlnum artifacts) (hstep : w.step? unicode isAlnum e = some w') :
    w'.Owned unicode isAlnum artifacts := by
  cases e with
  | locate n artifact listing =>
      simp only [step?] at hstep
      split at hstep
      · rename_i name hnone hname
        split at hstep
        · rename_i hlisting
          cases hstep
          refine h.withDelivery n (fun x hx => ?_) fun x hx i hi => ?_
          · cases hx
            exact ⟨artifact, hwithin, rfl, hname⟩
          · cases hx
            obtain ⟨d, hfind, rfl⟩ := Option.map_eq_some_iff.mp hi
            obtain ⟨hmem, rfl⟩ := findDataset_eq_some hfind
            have hd := hlisting.subset hmem
            refine ⟨h.assigned d hd, fun d' hd' hid => ?_⟩
            have hsame : d' = d := List.inj_on_of_nodup_map h.ids hd' hd hid
            rw [hsame]
            exact h.owner_of_name hsep hwithin hd hname
        · cases hstep
      · cases hstep
  | create n datasetId =>
      simp only [step?] at hstep
      split at hstep
      · rename_i artifactId name created hdelivery
        split at hstep
        · cases hstep
        · rename_i hfresh
          cases hstep
          refine (h.create hdelivery hfresh).withDelivery n (fun x hx => ?_) fun x hx i hi => ?_
          · cases hx
            exact h.delivering n ⟨artifactId, name, none, created⟩ hdelivery
          · cases hx
            cases hi
            refine ⟨List.mem_cons_self, fun d hd hid => ?_⟩
            rcases List.mem_append.mp hd with hold | hnew
            · exact absurd (hid ▸ h.assigned d hold) hfresh
            · rw [List.mem_singleton.mp hnew]
      · cases hstep
  | address n =>
      simp only [step?] at hstep
      split at hstep
      · rename_i hdelivery
        cases hstep
        exact h.addressing hdelivery rfl
      · cases hstep
  | remove n =>
      simp only [step?] at hstep
      split at hstep
      · rename_i hdelivery
        cases hstep
        exact (h.addressing hdelivery rfl).without _
      · cases hstep
  | finish n =>
      obtain ⟨delivery, -, rfl⟩ := Option.map_eq_some_iff.mp hstep
      exact h.withDelivery n (fun x hx => by cases hx) fun x hx => by cases hx

theorem owned_start : start.Owned unicode isAlnum artifacts where
  ids := List.nodup_nil
  assigned _ hd := absurd hd List.not_mem_nil
  named _ hd := absurd hd List.not_mem_nil
  delivering _ _ hx := by cases hx
  target _ _ hx := by cases hx
  apart _ hcall := absurd hcall List.not_mem_nil

theorem next_eq {e : PushEvent} (h : w.step? unicode isAlnum e = some w') :
    ((pushMachine unicode isAlnum).restrict fun _ e => e.Within artifacts).next w e = w' := by
  change (w.step? unicode isAlnum e).getD w = w'
  rw [h, Option.getD_some]

theorem reachable_step {e : PushEvent}
    (hw : ((pushMachine unicode isAlnum).restrict fun _ e => e.Within artifacts).Reachable w)
    (hwithin : e.Within artifacts) (h : w.step? unicode isAlnum e = some w') :
    ((pushMachine unicode isAlnum).restrict fun _ e => e.Within artifacts).Reachable w' := by
  rw [← next_eq h]
  exact hw.step e ⟨Option.isSome_of_eq_some h, hwithin⟩

theorem owned_of_reachable (hsep : Separated isAlnum artifacts)
    (h : ((pushMachine unicode isAlnum).restrict fun _ e => e.Within artifacts).Reachable w) :
    w.Owned unicode isAlnum artifacts := by
  refine h.invariant owned_start fun s e _ hmay hs => ?_
  obtain ⟨s', hs'⟩ := Option.isSome_iff_exists.mp hmay.1
  rw [next_eq hs']
  exact hs.step hsep hmay.2 hs'

theorem Owned.findsOwn (h : w.Owned unicode isAlnum artifacts) (hsep : Separated isAlnum artifacts)
    {artifact : AcceptedArtifact} (ha : artifact ∈ artifacts) : w.FindsOwn unicode isAlnum artifact := by
  intro listing name hlisting hname
  cases hfind : findDataset listing name with
  | some d =>
      obtain ⟨hmem, rfl⟩ := findDataset_eq_some hfind
      exact h.owner_of_name hsep ha (hlisting.subset hmem) hname
  | none =>
      intro d hd howner
      obtain ⟨b, -, hid, hname'⟩ := h.named d hd
      rw [hid, howner, hname] at hname'
      have hmiss := List.find?_eq_none.mp hfind d (hlisting.symm.subset hd)
      rw [decide_eq_true_eq] at hmiss
      exact hmiss (Except.ok.inj hname').symm

/-- The first delivery into an empty workspace. -/
theorem reachable_created {artifact : AcceptedArtifact} (ha : artifact ∈ artifacts) {name : PyStr}
    (hname : datasetName unicode isAlnum (codePoints artifact.id) = .ok name) :
    ∃ w, ((pushMachine unicode isAlnum).restrict fun _ e => e.Within artifacts).Reachable w ∧
      w.datasets = [⟨js "dataset", name, artifact.id⟩] := by
  have hlocated : start.step? unicode isAlnum (.locate 0 artifact []) =
      some (start.withDelivery 0 (some ⟨artifact.id, name, none, false⟩)) := by
    simp [step?, start, hname, findDataset]
  obtain ⟨w, hcreated⟩ : ∃ w, (start.withDelivery 0 (some ⟨artifact.id, name, none, false⟩)).step? unicode isAlnum
      (.create 0 (js "dataset")) = some w ∧ w.datasets = [⟨js "dataset", name, artifact.id⟩] := by
    simp [step?, withDelivery, start]
  have hreach := reachable_step (e := .locate 0 artifact []) .start ha hlocated
  exact ⟨w, reachable_step (e := .create 0 (js "dataset")) hreach trivial hcreated.1, hcreated.2⟩

/-- **No artifact shares a dataset**, in any run of deliveries and restores of these artifacts, and each finds its own
again, if and only if their ids differ in one of the first twelve letters and digits. -/
theorem apart_iff (unicode : Unicode) (isAlnum : CodePoint → Bool) (artifacts : Set AcceptedArtifact) :
    (∀ w, ((pushMachine unicode isAlnum).restrict fun _ e => e.Within artifacts).Reachable w →
        w.Apart ∧ ∀ artifact ∈ artifacts, w.FindsOwn unicode isAlnum artifact) ↔ Separated isAlnum artifacts := by
  constructor
  · intro h a ha b hb hne hletters
    by_contra hsame
    have hname : datasetName unicode isAlnum (codePoints a.id) =
        .ok (py "cl-" ++ (lettersOf isAlnum (codePoints a.id)).take 12) := datasetName_eq_ok.mpr ⟨hletters, rfl⟩
    have htake : (lettersOf isAlnum (codePoints a.id)).take 12 = (lettersOf isAlnum (codePoints b.id)).take 12 := by
      refine take_eq_take_iff.mpr fun i hi => ?_
      by_contra hdiffer
      exact hsame ⟨i, hi, hdiffer⟩
    have hletters' : lettersOf isAlnum (codePoints b.id) ≠ [] := by
      intro hnil
      rw [hnil, List.take_nil, List.take_eq_nil_iff] at htake
      exact htake.elim (fun hzero => by cases hzero) hletters
    have hname' : datasetName unicode isAlnum (codePoints b.id) =
        .ok (py "cl-" ++ (lettersOf isAlnum (codePoints a.id)).take 12) :=
      datasetName_eq_ok.mpr ⟨hletters', congrArg _ htake⟩
    obtain ⟨w, hreach, hdatasets⟩ := reachable_created ha hname
    have hown := (h w hreach).2 b hb w.datasets _ (.refl _) hname'
    have hfind : findDataset w.datasets (py "cl-" ++ (lettersOf isAlnum (codePoints a.id)).take 12) =
        some ⟨js "dataset", py "cl-" ++ (lettersOf isAlnum (codePoints a.id)).take 12, a.id⟩ := by
      simp [hdatasets, findDataset]
    rw [hfind] at hown
    exact hne hown
  · intro hsep w hw
    have howned := owned_of_reachable hsep hw
    exact ⟨howned.apart, fun artifact ha => howned.findsOwn hsep ha⟩

end Workspace

/-! ### Two artifacts of one name -/

def asciiAlnum : CodePoint → Bool
  | .unit u => (0x30 ≤ u && u ≤ 0x39) || (0x41 ≤ u && u ≤ 0x5A) || (0x61 ≤ u && u ≤ 0x7A)
  | .pair _ _ _ _ => false

def ordersArtifact (id title : String) : List (Text × Json) :=
  [(js "artifact_version", .str (js "1")), (js "id", .str (js id)), (js "title", .str (js title)),
    (js "queries", .arr [.obj [(js "name", .str (js "orders")), (js "system", .str (js "crm")),
      (js "request", .obj [(js "dialect", .str (js "sql")), (js "statement", .str (js "SELECT 1"))]),
      (js "validated_against", .str (js "sha256:1")), (js "backing", .obj [(js "mode", .str (js "direct"))])]])]

def january : AcceptedArtifact := ⟨ordersArtifact "ra-monthly-orders-01" "January", by decide +kernel⟩

def february : AcceptedArtifact := ⟨ordersArtifact "ra-monthly-orders-02" "February", by decide +kernel⟩

/-- The delivery of February works on the dataset of January. -/
theorem february_addresses_january : january.id ≠ february.id ∧
    ((pushMachine asciiOnly asciiAlnum).run [.locate 0 january [], .create 0 (js "d"), .finish 0,
      .locate 1 february [⟨js "d", py "cl-monthlyorder", january.id⟩], .address 1]).addressed =
      [(february.id, january.id)] := by
  decide +kernel

end ContextLayer
