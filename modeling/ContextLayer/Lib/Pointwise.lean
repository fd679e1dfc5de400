import Mathlib.Data.List.Forall2
import Mathlib.Data.List.Nodup

/-!
# Lists related element by element

A list and what a function that can fail makes of it are related element by element. A relation of two lists carries
over to what is computed of their elements.
-/

namespace Pointwise

variable {α β γ κ : Type}

/-! ### What a function that can fail makes of a list -/

theorem mapM_eq_some_map {F : α → Option β} {h : α → β} {l : List α} (hl : ∀ a ∈ l, F a = some (h a)) :
    l.mapM F = some (l.map h) := by
  induction l with
  | nil => rfl
  | cons a rest ih =>
      rw [List.mapM_cons, hl a List.mem_cons_self, ih fun b hb => hl b (List.mem_cons_of_mem _ hb)]
      rfl

theorem forall₂_of_mapM {F : α → Option β} {l : List α} {r : List β} (h : l.mapM F = some r) :
    List.Forall₂ (fun a b => F a = some b) l r := by
  induction l generalizing r with
  | nil =>
      cases h
      exact .nil
  | cons a rest ih =>
      rw [List.mapM_cons, Option.bind_eq_bind, Option.bind_eq_some_iff] at h
      obtain ⟨b, hb, h⟩ := h
      rw [Option.bind_eq_bind, Option.bind_eq_some_iff] at h
      obtain ⟨bs, hbs, h⟩ := h
      cases h
      exact .cons hb (ih hbs)

/-! ### What a function that can raise makes of a list -/

section

variable {ε : Type} {x : Except ε α}

theorem bind_eq_ok {f : α → Except ε β} {b : β} : x >>= f = .ok b ↔ ∃ a, x = .ok a ∧ f a = .ok b := by
  cases x with
  | error r => exact ⟨fun h => (nomatch h), fun ⟨_, h, _⟩ => (nomatch h)⟩
  | ok a => exact ⟨fun h => ⟨a, rfl, h⟩, fun ⟨_, h, hf⟩ => Except.ok.inj h ▸ hf⟩

theorem forall₂_of_mapM_ok {f : α → Except ε β} {l : List α} {bs : List β} (h : l.mapM f = .ok bs) :
    List.Forall₂ (fun a b => f a = .ok b) l bs := by
  induction l generalizing bs with
  | nil =>
      rw [List.mapM_nil] at h
      exact Except.ok.inj h ▸ .nil
  | cons a rest ih =>
      rw [List.mapM_cons] at h
      obtain ⟨b, hb, h⟩ := bind_eq_ok.mp h
      obtain ⟨bs', hbs', h⟩ := bind_eq_ok.mp h
      exact Except.ok.inj h ▸ .cons hb (ih hbs')

theorem exists_of_mem_mapM_ok {f : α → Except ε β} {l : List α} {bs : List β} (h : l.mapM f = .ok bs) {a : α}
    (ha : a ∈ l) : ∃ b ∈ bs, f a = .ok b := by
  have hbs := forall₂_of_mapM_ok h
  clear h
  induction hbs with
  | nil => cases ha
  | cons hb _ ih =>
      obtain rfl | ha := List.mem_cons.mp ha
      · exact ⟨_, List.mem_cons_self, hb⟩
      · obtain ⟨b, hmem, hb⟩ := ih ha
        exact ⟨b, List.mem_cons_of_mem _ hmem, hb⟩

theorem mapM_ok {f : α → Except ε β} {l : List α} :
    (∃ bs, l.mapM f = .ok bs) ↔ ∀ a ∈ l, ∃ b, f a = .ok b := by
  induction l with
  | nil => exact ⟨fun _ => List.forall_mem_nil _, fun _ => ⟨[], rfl⟩⟩
  | cons a rest ih =>
      rw [List.forall_mem_cons, ← ih, List.mapM_cons]
      simp only [bind_eq_ok]
      constructor
      · rintro ⟨_, b, hb, bs, hbs, -⟩
        exact ⟨⟨b, hb⟩, bs, hbs⟩
      · rintro ⟨⟨b, hb⟩, bs, hbs⟩
        exact ⟨b :: bs, b, hb, bs, hbs, rfl⟩

end

/-! ### What two lists have of each other -/

theorem exists_of_mem_forall₂ {R : α → β → Prop} {l : List α} {r : List β} (h : List.Forall₂ R l r) {b : β}
    (hb : b ∈ r) : ∃ a ∈ l, R a b := by
  induction h with
  | nil => cases hb
  | cons hab _ ih =>
      rcases List.mem_cons.mp hb with rfl | hmem
      · exact ⟨_, List.mem_cons_self, hab⟩
      · obtain ⟨a, ha, hR⟩ := ih hmem
        exact ⟨a, List.mem_cons_of_mem _ ha, hR⟩

theorem exists_of_mem_left_forall₂ {R : α → β → Prop} {l : List α} {r : List β} (h : List.Forall₂ R l r) {a : α}
    (ha : a ∈ l) : ∃ b ∈ r, R a b := by
  obtain ⟨b, hb, hR⟩ := exists_of_mem_forall₂ h.flip ha
  exact ⟨b, hb, hR⟩

theorem forall₂_mono {R S : α → β → Prop} {l : List α} {r : List β} (h : List.Forall₂ R l r)
    (hRS : ∀ a ∈ l, ∀ b ∈ r, R a b → S a b) : List.Forall₂ S l r := by
  induction h with
  | nil => exact .nil
  | cons hab _ ih =>
      exact .cons (hRS _ List.mem_cons_self _ List.mem_cons_self hab)
        (ih fun a ha b hb => hRS a (List.mem_cons_of_mem _ ha) b (List.mem_cons_of_mem _ hb))

theorem map_eq_of_forall₂ {R : α → β → Prop} {f : α → γ} {g : β → γ} {l : List α} {r : List β}
    (h : List.Forall₂ R l r) (hfg : ∀ a ∈ l, ∀ b, R a b → f a = g b) : l.map f = r.map g := by
  induction h with
  | nil => rfl
  | cons hab _ ih =>
      rw [List.map_cons, List.map_cons, hfg _ List.mem_cons_self _ hab,
        ih fun a ha => hfg a (List.mem_cons_of_mem _ ha)]

theorem forall₂_iff_forall {R P : α → β → Prop} {Q : α → Prop} {l : List α} {r : List β}
    (h : List.Forall₂ R l r) (hPQ : ∀ a b, b ∈ r → R a b → (P a b ↔ Q a)) : List.Forall₂ P l r ↔ ∀ a ∈ l, Q a := by
  induction h with
  | nil => simp
  | cons hab _ ih =>
      rw [List.forall₂_cons, List.forall_mem_cons, hPQ _ _ List.mem_cons_self hab,
        ih fun a b hb => hPQ a b (List.mem_cons_of_mem _ hb)]

theorem forall₂_of_zipIdx {R : α → Nat → β → Prop} {l : List α} {r : List β}
    (h : List.Forall₂ (fun p b => R p.1 p.2 b) l.zipIdx r) : List.Forall₂ (fun a b => ∃ i, R a i b) l r := by
  rw [← List.zipIdx_map_fst 0 l, List.forall₂_map_left_iff]
  exact h.imp fun p b hp => ⟨p.2, hp⟩

theorem forall₂_and {R S : α → β → Prop} {l : List α} {r : List β} (hR : List.Forall₂ R l r)
    (hS : List.Forall₂ S l r) : List.Forall₂ (fun a b => R a b ∧ S a b) l r := by
  induction hR with
  | nil => exact .nil
  | cons hab _ ih =>
      rw [List.forall₂_cons] at hS
      exact .cons ⟨hab, hS.1⟩ (ih hS.2)

theorem mem_filterMap_of_subset {F : α → Option β} {l l' : List α} (hsub : ∀ a ∈ l', a ∈ l) {b : β}
    (hb : b ∈ l'.filterMap F) : b ∈ l.filterMap F := by
  obtain ⟨a, ha, hF⟩ := List.mem_filterMap.mp hb
  exact List.mem_filterMap.mpr ⟨a, hsub a ha, hF⟩

/-- Where keys differ, what one key has alone is all there is. -/
theorem flatMap_of_nodup {key : α → κ} {g : α → List β} {l : List α} (hnodup : (l.map key).Nodup) {a : α}
    (ha : a ∈ l) (hg : ∀ b ∈ l, key b ≠ key a → g b = []) : l.flatMap g = g a := by
  obtain ⟨ahead, behind, rfl⟩ := List.append_of_mem ha
  rw [List.map_append, List.map_cons, List.nodup_middle, List.nodup_cons, List.mem_append, not_or] at hnodup
  have hother : ∀ l : List α, key a ∉ l.map key → (∀ b ∈ l, b ∈ ahead ++ a :: behind) → l.flatMap g = [] := by
    intro l hkey hsub
    refine List.flatMap_eq_nil_iff.mpr fun b hb => hg b (hsub b hb) fun heq => hkey ?_
    rw [← heq]
    exact List.mem_map_of_mem hb
  rw [List.flatMap_append, List.flatMap_cons, hother ahead hnodup.1.1 fun b hb => List.mem_append_left _ hb,
    hother behind hnodup.1.2 fun b hb => List.mem_append_right _ (List.mem_cons_of_mem _ hb), List.nil_append,
    List.append_nil]

/-! ### Searching a list -/

theorem map_filterMap_sublist {h : α → Option β} {g : β → γ} {k : α → γ} {l : List α}
    (hkey : ∀ a b, h a = some b → g b = k a) : ((l.filterMap h).map g).Sublist (l.map k) := by
  induction l with
  | nil => exact List.Sublist.refl _
  | cons a rest ih =>
      rw [List.filterMap_cons]
      cases ha : h a with
      | none => exact ih.cons _
      | some b =>
          rw [List.map_cons, List.map_cons, hkey a b ha]
          exact ih.cons_cons _

end Pointwise
