import Invoicing.Precedence.Basic

/-!
The items that some items need, directly or through others.
-/
namespace Invoicing.Precedence

variable {α : Type} [DecidableEq α] (p : Precedence α)

/-- The items seen so far, together with the frontier and all that it needs. -/
def explore (frontier seen : List α) : List α :=
  match frontier with
  | [] => seen
  | a :: frontier =>
    if _h : a ∈ p.items ∧ a ∉ seen then explore (p.needs a ++ frontier) (a :: seen)
    else explore frontier seen
termination_by (p.unseen seen, frontier.length)
decreasing_by
  · exact Prod.Lex.left _ _ (p.unseen_cons_lt _h.1 _h.2)
  · exact Prod.Lex.right _ (Nat.lt_succ_self _)

/-- The items among the roots and everything they need. -/
def reach (roots : List α) : List α :=
  p.explore roots []

end Invoicing.Precedence
