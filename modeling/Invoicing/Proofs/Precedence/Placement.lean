import Invoicing.Precedence.Schedule
import Mathlib.Data.List.Perm.Basic

/-!
# Placing items after what they need

Every item that leaves the queue stands behind all that it needs. An item that
never leaves it needs another one that never does, so nothing is held back
without cause.
-/
namespace Invoicing.Precedence

variable {α : Type} {needs : α → List α}

/-- Every item comes once and behind all that it needs, where the items done before count
as placed. -/
def Ordered (needs : α → List α) (done : List α) : List α → Prop
  | [] => True
  | a :: items => a ∉ done ∧ (∀ b ∈ needs a, b ∈ done) ∧ Ordered needs (a :: done) items

namespace Ordered

variable {done items : List α}

theorem not_mem_done (h : Ordered needs done items) {a : α} (ha : a ∈ items) : a ∉ done := by
  induction items generalizing done with
  | nil => cases ha
  | cons b items ih =>
    obtain ⟨hb, -, hrest⟩ := h
    cases ha with
    | head => exact hb
    | tail _ ha =>
      intro hd
      exact ih hrest ha (List.mem_cons_of_mem b hd)

theorem nodup (h : Ordered needs done items) : items.Nodup := by
  induction items generalizing done with
  | nil => exact .nil
  | cons a items ih =>
    refine List.nodup_cons.mpr ⟨?_, ih h.2.2⟩
    intro ha
    exact h.2.2.not_mem_done ha List.mem_cons_self

/-- What goes over from the needs of an item to the item holds of all items in order. -/
theorem induction {P : α → Prop} (h : Ordered needs done items) (hdone : ∀ a ∈ done, P a)
    (hstep : ∀ a ∈ items, (∀ b ∈ needs a, P b) → P a) : ∀ a ∈ items, P a := by
  induction items generalizing done with
  | nil => intro a ha; cases ha
  | cons b items ih =>
    have hb : P b := hstep b List.mem_cons_self fun c hc => hdone c (h.2.1 c hc)
    intro a ha
    cases ha with
    | head => exact hb
    | tail _ ha =>
      refine ih h.2.2 ?_ (fun c hc => hstep c (List.mem_cons_of_mem b hc)) a ha
      intro c hc
      cases hc with
      | head => exact hb
      | tail _ hc => exact hdone c hc

/-- The same items are in order for fewer needs. -/
theorem mono {needs' : α → List α} (h : Ordered needs done items)
    (hsub : ∀ a ∈ items, ∀ b ∈ needs' a, b ∈ needs a) : Ordered needs' done items := by
  induction items generalizing done with
  | nil => trivial
  | cons a items ih =>
    refine ⟨h.1, ?_, ih h.2.2 fun b hb => hsub b (List.mem_cons_of_mem a hb)⟩
    intro b hb
    exact h.2.1 b (hsub a List.mem_cons_self b hb)

/-- Where an item stands, the items before it hold all of its needs that were not done. -/
theorem needs_before (h : Ordered needs done items) {before after : List α} {a b : α}
    (hsplit : items = before ++ a :: after) (hb : b ∈ needs a) : b ∈ done ∨ b ∈ before := by
  induction before generalizing done items with
  | nil =>
    subst hsplit
    exact .inl (h.2.1 b hb)
  | cons c before ih =>
    subst hsplit
    rcases ih h.2.2 rfl with hb | hb
    · cases hb with
      | head => exact .inr List.mem_cons_self
      | tail _ hb => exact .inl hb
    · exact .inr (List.mem_cons_of_mem c hb)

end Ordered

/-- The items of a list of waiting items. -/
def waiters (waiting : Waiting α) : List α :=
  waiting.map Prod.fst

theorem freed_append_held_perm (waiting : Waiting α) :
    (freed waiting ++ waiters (held waiting)).Perm (waiters waiting) := by
  unfold freed waiters held
  rw [← List.map_append]
  exact (List.filter_append_perm _ waiting).map Prod.fst

theorem mem_freed_iff {waiting : Waiting α} {a : α} : a ∈ freed waiting ↔ (a, []) ∈ waiting := by
  simp [freed, List.isEmpty_iff]

theorem mem_held_iff {waiting : Waiting α} {a : α} {left : List α} :
    (a, left) ∈ held waiting ↔ (a, left) ∈ waiting ∧ left ≠ [] := by
  simp [held]

variable [DecidableEq α]

@[simp] theorem waiters_release (a : α) (waiting : Waiting α) :
    waiters (release a waiting) = waiters waiting := by
  simp [waiters, release]

theorem mem_release_iff {a : α} {waiting : Waiting α} {b : α} {left : List α} :
    (b, left) ∈ release a waiting ↔
      ∃ rest, (b, rest) ∈ waiting ∧ left = rest.filter (· ≠ a) := by
  simp only [release, List.mem_map, Prod.mk.injEq, Prod.exists]
  constructor
  · rintro ⟨c, rest, hm, rfl, rfl⟩
    exact ⟨rest, hm, rfl⟩
  · rintro ⟨rest, hm, rfl⟩
    exact ⟨b, rest, hm, rfl, rfl⟩

theorem subset_place (queue : List α) (waiting : Waiting α) : queue ⊆ place queue waiting := by
  fun_induction place queue waiting with
  | case1 => exact List.Subset.refl _
  | case2 waiting a queue ih =>
    intro b hb
    cases hb with
    | head => exact List.mem_cons_self
    | tail _ hb => exact List.mem_cons_of_mem a (ih (List.mem_append_left _ hb))

/-- Only items of the queue and waiting items are placed. -/
theorem mem_of_mem_place (queue : List α) (waiting : Waiting α) {b : α}
    (hb : b ∈ place queue waiting) : b ∈ queue ++ waiters waiting := by
  fun_induction place queue waiting with
  | case1 => cases hb
  | case2 waiting a queue ih =>
    cases hb with
    | head => exact List.mem_cons_self
    | tail _ hb =>
      have h := ih hb
      rw [List.append_assoc, List.mem_append,
        (freed_append_held_perm (release a waiting)).mem_iff, waiters_release] at h
      exact List.mem_cons_of_mem a (List.mem_append.mpr h)

/-- What holds while items are placed: those of the queue need only what is done, and
those that wait still wait for exactly the needs that are not done. -/
structure Placing (needs : α → List α) (done queue : List α) (waiting : Waiting α) : Prop where
  nodup : (queue ++ waiters waiting).Nodup
  fresh : ∀ a ∈ queue ++ waiters waiting, a ∉ done
  ready : ∀ a ∈ queue, ∀ b ∈ needs a, b ∈ done
  left : ∀ a left, (a, left) ∈ waiting → left = (needs a).filter (· ∉ done)
  held : ∀ a left, (a, left) ∈ waiting → left ≠ []

namespace Placing

variable {done queue : List α} {waiting : Waiting α} {a : α}

theorem next_perm (a : α) (queue : List α) (waiting : Waiting α) :
    (queue ++ freed (release a waiting) ++ waiters (Precedence.held (release a waiting))).Perm
      (queue ++ waiters waiting) := by
  rw [List.append_assoc, ← waiters_release a waiting]
  exact (freed_append_held_perm _).append_left queue

/-- The first item of the queue leaves it. -/
theorem next (h : Placing needs done (a :: queue) waiting) :
    Placing needs (a :: done) (queue ++ freed (release a waiting))
      (Precedence.held (release a waiting)) where
  nodup := (next_perm a queue waiting).nodup_iff.mpr (List.nodup_cons.mp h.nodup).2
  fresh := by
    intro b hb
    rw [(next_perm a queue waiting).mem_iff] at hb
    have hne : b ≠ a := by
      rintro rfl
      exact (List.nodup_cons.mp h.nodup).1 hb
    simpa [hne] using h.fresh b (List.mem_cons_of_mem a hb)
  ready := by
    intro b hb c hc
    rcases List.mem_append.mp hb with hb | hb
    · exact List.mem_cons_of_mem a (h.ready b (List.mem_cons_of_mem a hb) c hc)
    · obtain ⟨rest, hm, hrest⟩ := mem_release_iff.mp (mem_freed_iff.mp hb)
      by_cases hd : c ∈ done
      · exact List.mem_cons_of_mem a hd
      · have hcr : c ∈ rest := by
          rw [h.left b rest hm]
          exact List.mem_filter.mpr ⟨hc, by simpa using hd⟩
        have hca := List.filter_eq_nil_iff.mp hrest.symm c hcr
        have : c = a := by simpa using hca
        exact this ▸ List.mem_cons_self
  left := by
    intro b left hw
    obtain ⟨rest, hm, rfl⟩ := mem_release_iff.mp (mem_held_iff.mp hw).1
    rw [h.left b rest hm, List.filter_filter]
    apply List.filter_congr
    intro c hc
    simp only [List.mem_cons, not_or, Bool.decide_and]
  held := fun b left hw => (mem_held_iff.mp hw).2

theorem ordered (h : Placing needs done queue waiting) :
    Ordered needs done (place queue waiting) := by
  fun_induction place queue waiting generalizing done with
  | case1 => trivial
  | case2 waiting a queue ih =>
    exact ⟨h.fresh a List.mem_cons_self, h.ready a List.mem_cons_self, ih h.next⟩

/-- An item that is never placed needs one that is never placed. -/
theorem unplaced (h : Placing needs done queue waiting) {a : α} (ha : a ∈ waiters waiting)
    (hp : a ∉ place queue waiting) :
    ∃ b ∈ needs a, b ∉ done ∧ b ∉ place queue waiting := by
  fun_induction place queue waiting generalizing done with
  | case1 waiting =>
    obtain ⟨⟨a, left⟩, hw, rfl⟩ := List.mem_map.mp ha
    obtain ⟨b, hb⟩ := List.exists_mem_of_ne_nil left (h.held a left hw)
    rw [h.left a left hw, List.mem_filter] at hb
    exact ⟨b, hb.1, by simpa using hb.2, List.not_mem_nil⟩
  | case2 waiting c queue ih =>
    rw [← waiters_release c, ← (freed_append_held_perm _).mem_iff, List.mem_append] at ha
    have hp' := fun hm => hp (List.mem_cons_of_mem c hm)
    rcases ha with ha | ha
    · exact absurd (subset_place _ _ (List.mem_append_right queue ha)) hp'
    · obtain ⟨b, hb, hbd, hbp⟩ := ih h.next ha hp'
      simp only [List.mem_cons, not_or] at hbd ⊢
      exact ⟨b, hb, hbd.2, hbd.1, hbp⟩

end Placing

end Invoicing.Precedence
