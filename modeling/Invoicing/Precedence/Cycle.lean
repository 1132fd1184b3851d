import Invoicing.Precedence.Basic

/-!
Items that need themselves: a depth-first search in three colours from each of
them. Items not seen yet are white, those on the walk that is underway grey, and
those seen that the walk has left again black. The search goes on to white items
and ends where the walk comes back to its start.
-/
namespace Invoicing.Precedence

variable {α : Type} [DecidableEq α] (p : Precedence α)

/-- A walk is a path, last item first, and with each item the needs still to be followed. -/
abbrev Walk (α : Type) := List (α × List α)

/-- The items of a walk from its start on. -/
def path (walk : Walk α) : List α :=
  (walk.map Prod.fst).reverse

/-- How much of a walk is left to follow. -/
def leftToFollow : Walk α → Nat
  | [] => 0
  | (_, needs) :: walk => needs.length + 1 + leftToFollow walk

/-- The depth-first search, with its stack: the first path that leads back to the start. The start
stays grey. A white item is entered; a grey one closes a cycle that the start is not on, a black
one has been explored, and either is passed over. -/
def search (start : α) (walk : Walk α) (seen : List α) : Option (List α) :=
  match walk with
  | [] => none
  | (_, []) :: walk => search start walk seen
  | (a, b :: needs) :: walk =>
    if b = start then some (path ((a, needs) :: walk) ++ [start])
    else if _h : b ∈ p.items ∧ b ∉ seen then
      search start ((b, p.needs b) :: (a, needs) :: walk) (b :: seen)
    else search start ((a, needs) :: walk) seen
termination_by (p.unseen seen, leftToFollow walk)
decreasing_by
  · exact Prod.Lex.right _ (by simp [leftToFollow])
  · exact Prod.Lex.left _ _ (p.unseen_cons_lt _h.1 _h.2)
  · exact Prod.Lex.right _ (by simp [leftToFollow])

/-- A path from an item through needs back to itself, if there is one. -/
def cycleThrough (a : α) : Option (List α) :=
  if a ∈ p.items then p.search a [(a, p.needs a)] [a] else none

/-- Whether an item needs itself. -/
def isCyclic (a : α) : Bool :=
  (p.cycleThrough a).isSome

theorem cycleThrough_of_not_mem {a : α} (h : a ∉ p.items) : p.cycleThrough a = none := by
  simp [cycleThrough, h]

end Invoicing.Precedence
