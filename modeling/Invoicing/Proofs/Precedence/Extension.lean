import Invoicing.Proofs.Precedence.Restriction

/-!
# The schedule of more items

Items may come among others that they do not need. They are then on a cycle, or
reach one, exactly as without them, and the others leave the schedule of these
items as it is.
-/
namespace Invoicing.Precedence

open Relation (TransGen)

variable {α : Type}

/-- What is kept of a schedule depends on its items alone. -/
theorem Schedule.filter_congr {keep keep' : α → Bool} {s : Schedule α}
    (h : ∀ a ∈ s.order ++ s.cyclic ++ s.blocked, keep a = keep' a) :
    s.filter keep = s.filter keep' := by
  simp only [List.mem_append] at h
  rw [filter, filter, List.filter_congr fun a ha => h a (.inl (.inl ha)),
    List.filter_congr fun a ha => h a (.inl (.inr ha)),
    List.filter_congr fun a ha => h a (.inr ha)]

variable [DecidableEq α] {p q : Precedence α} {a b : α}

/-- The items of one precedence are found in another, in the same order and with the same needs. -/
structure PartOf (p q : Precedence α) : Prop where
  items : q.items.filter (· ∈ p.items) = p.items
  needs : ∀ a ∈ p.items, q.needs a = p.needs a

namespace PartOf

variable (h : p.PartOf q)
include h

theorem needs_iff (ha : a ∈ p.items) : q.Needs a b ↔ p.Needs a b := by
  rw [Needs, Needs, h.needs a ha]

theorem mem_items_of_needs (ha : a ∈ p.items) (hab : q.Needs a b) : b ∈ p.items :=
  p.needs_mem ((h.needs_iff ha).mp hab)

theorem transGen_iff (ha : a ∈ p.items) : TransGen q.Needs a b ↔ TransGen p.Needs a b := by
  constructor
  · intro hab
    -- Whatever is reached on the way is an item of the part again.
    suffices TransGen p.Needs a b ∧ b ∈ p.items from this.1
    induction hab with
    | single hab => exact ⟨.single ((h.needs_iff ha).mp hab), h.mem_items_of_needs ha hab⟩
    | tail _ hcb ih =>
      obtain ⟨hac, hc⟩ := ih
      exact ⟨hac.tail ((h.needs_iff hc).mp hcb), h.mem_items_of_needs hc hcb⟩
  · intro hab
    induction hab with
    | single hab => exact .single ((h.needs_iff ha).mpr hab)
    | tail hac hcb ih =>
      obtain ⟨d, -, hdc⟩ := Relation.TransGen.tail'_iff.mp hac
      exact ih.tail ((h.needs_iff (p.needs_mem hdc)).mpr hcb)

/-- An item is on a cycle of the part if it is on one at all. -/
theorem isCyclic_eq (ha : a ∈ p.items) : q.isCyclic a = p.isCyclic a := by
  rw [Bool.eq_iff_iff, isCyclic_iff, isCyclic_iff, OnCycle, OnCycle, h.transGen_iff ha]

theorem order_items : q.order p.items = p.order p.items := by
  have hwaiting : q.waitingIn p.items = p.waitingIn p.items :=
    List.map_congr_left fun a ha => by rw [h.needs a ha]
  rw [order, order, hwaiting]

/-- The schedule of a part is the whole schedule without the other items. -/
theorem fullSchedule_eq_filter : p.fullSchedule = q.fullSchedule.filter (· ∈ p.items) := by
  have hneeds : ∀ a b, decide (a ∈ p.items) → q.Needs a b → decide (b ∈ p.items) := by
    simp only [decide_eq_true_eq]
    exact fun a b ha hab => h.mem_items_of_needs ha hab
  have horder := order_filter hneeds
  have hunplaced := unplaced_filter hneeds
  rw [h.items, h.order_items] at horder hunplaced
  have hcyclic : ∀ a ∈ p.items.filter (· ∉ p.order p.items), p.isCyclic a = q.isCyclic a :=
    fun a ha => (h.isCyclic_eq (List.mem_of_mem_filter ha)).symm
  rw [fullSchedule_eq, fullSchedule_eq q, Schedule.filter, Schedule.mk.injEq]
  refine ⟨horder, ?_, ?_⟩
  · rw [List.filter_congr hcyclic, hunplaced, List.filter_comm]
  · rw [List.filter_congr fun a ha => congrArg not (hcyclic a ha), hunplaced, List.filter_comm]

end PartOf

end Invoicing.Precedence
