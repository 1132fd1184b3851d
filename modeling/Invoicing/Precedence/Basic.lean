/-!
Items that need other items first. The items come in an order of their own, and
what an item needs is again among them.
-/
namespace Invoicing

structure Precedence (α : Type) where
  items : List α
  needs : α → List α
  nodup : items.Nodup
  needs_mem : ∀ {a b}, b ∈ needs a → b ∈ items

namespace Precedence

variable {α : Type} [DecidableEq α] (p : Precedence α)

/-- How many items have not been seen. -/
def unseen (seen : List α) : Nat :=
  p.items.countP (· ∉ seen)

/-- Seeing a new item leaves fewer unseen. -/
theorem unseen_cons_lt {a : α} {seen : List α} (ha : a ∈ p.items) (hs : a ∉ seen) :
    p.unseen (a :: seen) < p.unseen seen := by
  unfold unseen
  generalize p.items = items at ha
  induction items with
  | nil => simp at ha
  | cons b items ih =>
    have le : items.countP (· ∉ a :: seen) ≤ items.countP (· ∉ seen) :=
      List.countP_mono_left (by simp +contextual)
    rw [List.countP_cons, List.countP_cons]
    by_cases hb : b = a
    · subst hb
      simp only [List.mem_cons, true_or, not_true_eq_false, decide_false, hs, not_false_eq_true,
        decide_true, Bool.false_eq_true, ↓reduceIte] at le ⊢
      exact Nat.lt_succ_of_le le
    · have := ih (by simpa [Ne.symm hb] using ha)
      simp only [List.mem_cons, hb, false_or] at this ⊢
      omega

end Precedence

end Invoicing
