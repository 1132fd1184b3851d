import Invoicing.Precedence.Cycle
import Invoicing.Precedence.Reach

/-!
Putting items after what they need: a topological order by Kahn's algorithm.
Items that need nothing more stand in a queue; each item that leaves the queue
is no longer waited for, and the items that waited for nothing else join the
queue in their own order. Items that never get into the queue need themselves,
or something that does.
-/
namespace Invoicing.Precedence

variable {α : Type}

/-- Items with what they still wait for. -/
abbrev Waiting (α : Type) := List (α × List α)

/-- The items that wait for nothing. -/
def freed (waiting : Waiting α) : List α :=
  (waiting.filter (·.2.isEmpty)).map Prod.fst

/-- The items that wait for something. -/
def held (waiting : Waiting α) : Waiting α :=
  waiting.filter (!·.2.isEmpty)

theorem length_freed_add_held (waiting : Waiting α) :
    (freed waiting).length + (held waiting).length = waiting.length := by
  induction waiting with
  | nil => rfl
  | cons w waiting ih =>
    simp only [freed, held, List.length_map] at ih ⊢
    cases h : w.2.isEmpty <;> simp [h] <;> omega

variable [DecidableEq α]

/-- An item is no longer waited for. -/
def release (a : α) (waiting : Waiting α) : Waiting α :=
  waiting.map fun (b, needs) => (b, needs.filter (· ≠ a))

@[simp] theorem length_release (a : α) (waiting : Waiting α) :
    (release a waiting).length = waiting.length := by
  simp [release]

/-- The loop of Kahn's algorithm: the items of the queue and those that join it, in the order in
which they leave it. What an item still waits for are its edges that have not been removed. -/
def place (queue : List α) (waiting : Waiting α) : List α :=
  match queue with
  | [] => []
  | a :: queue =>
    a :: place (queue ++ freed (release a waiting)) (held (release a waiting))
termination_by queue.length + waiting.length
decreasing_by
  have := length_freed_add_held (release a waiting)
  simp only [length_release] at this
  simp only [List.length_append, List.length_cons]
  omega

/-- Items in three parts: those that can be put in order, those that need themselves, and those
that need one of those. -/
structure Schedule (α : Type) where
  order : List α
  cyclic : List α
  blocked : List α
  deriving DecidableEq, Repr

namespace Schedule

/-- The items that could not be put in order. -/
def unplaced (s : Schedule α) : List α :=
  s.cyclic ++ s.blocked

def hasCycles (s : Schedule α) : Bool :=
  !s.cyclic.isEmpty

/-- The place of an item in the order. -/
def position (s : Schedule α) (a : α) : Option Nat :=
  s.order.idxOf? a

end Schedule

variable (p : Precedence α)

/-- Items of the scope with what they wait for within it. -/
def waitingIn (scope : List α) : Waiting α :=
  scope.map fun a => (a, (p.needs a).filter (· ∈ scope))

/-- The items of the scope that can be put in order, in that order. -/
def order (scope : List α) : List α :=
  place (freed (p.waitingIn scope)) (held (p.waitingIn scope))

/-- The items that the roots reach, in the order of the items. -/
def scope (roots : List α) : List α :=
  let reached := p.reach roots
  p.items.filter (· ∈ reached)

/-- The schedule of the roots and all that they need. -/
def schedule (roots : List α) : Schedule α :=
  let scope := p.scope roots
  let order := p.order scope
  let (cyclic, blocked) := (scope.filter (· ∉ order)).partition p.isCyclic
  { order, cyclic, blocked }

/-- The schedule of all items. -/
def fullSchedule : Schedule α :=
  p.schedule p.items

end Invoicing.Precedence
