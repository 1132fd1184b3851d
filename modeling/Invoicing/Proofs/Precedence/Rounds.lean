import Invoicing.Proofs.Precedence.Cycle
import Mathlib.Algebra.BigOperators.Group.List.Basic
import Mathlib.Algebra.GroupWithZero.Nat

/-!
# How long the search for a cycle goes on

The search goes on round by round. A round takes the next need of the last item
of the walk, or leaves that item if none is left; an item is entered once. So
the search ends after no more rounds than there are items and needs.
-/
namespace Invoicing.Precedence

variable {α : Type}

/-- The search ends after so many rounds with what it has found by then. -/
inductive EndsAfter (p : Precedence α) (start : α) :
    Nat → Walk α → List α → Option (List α) → Prop where
  | nowhere {seen : List α} : EndsAfter p start 0 [] seen none
  | back {a : α} {needs seen : List α} {walk : Walk α} :
    EndsAfter p start 0 ((a, start :: needs) :: walk) seen
      (some (path ((a, needs) :: walk) ++ [start]))
  | leave {n : Nat} {a : α} {seen : List α} {walk : Walk α} {found : Option (List α)}
    (h : EndsAfter p start n walk seen found) :
    EndsAfter p start (n + 1) ((a, []) :: walk) seen found
  | enter {n : Nat} {a b : α} {needs seen : List α} {walk : Walk α} {found : Option (List α)}
    (hb : b ≠ start) (hi : b ∈ p.items) (hs : b ∉ seen)
    (h : EndsAfter p start n ((b, p.needs b) :: (a, needs) :: walk) (b :: seen) found) :
    EndsAfter p start (n + 1) ((a, b :: needs) :: walk) seen found
  | pass {n : Nat} {a b : α} {needs seen : List α} {walk : Walk α} {found : Option (List α)}
    (hb : b ≠ start) (hs : b ∈ p.items → b ∈ seen)
    (h : EndsAfter p start n ((a, needs) :: walk) seen found) :
    EndsAfter p start (n + 1) ((a, b :: needs) :: walk) seen found

/-- How many items and needs there are. -/
def size (p : Precedence α) : Nat :=
  (p.items.map fun a => (p.needs a).length + 1).sum

variable [DecidableEq α] {p : Precedence α} {a b : α} {needs seen : List α} {walk : Walk α}

/-- How many items and needs lie in front of the search. -/
def ahead (p : Precedence α) (walk : Walk α) (seen : List α) : Nat :=
  leftToFollow walk + ((p.items.filter (· ∉ seen)).map fun a => (p.needs a).length + 1).sum

/-- An item that is entered is no longer among those that have not been seen. -/
theorem perm_cons_unseen (hi : b ∈ p.items) (hs : b ∉ seen) :
    (p.items.filter (· ∉ seen)).Perm (b :: p.items.filter (· ∉ b :: seen)) := by
  have hb : b ∈ p.items.filter (· ∉ seen) := List.mem_filter.mpr ⟨hi, decide_eq_true hs⟩
  have herase : (p.items.filter (· ∉ seen)).erase b = p.items.filter (· ∉ b :: seen) := by
    rw [(List.filter_sublist.nodup p.nodup).erase_eq_filter, List.filter_filter]
    refine List.filter_congr fun x _ => ?_
    rw [bne, beq_eq_decide]
    simp
  exact herase ▸ List.perm_cons_erase hb

theorem ahead_enter (hi : b ∈ p.items) (hs : b ∉ seen) :
    p.ahead ((b, p.needs b) :: walk) (b :: seen) = p.ahead walk seen := by
  have hsum := ((perm_cons_unseen hi hs).map fun a => (p.needs a).length + 1).sum_eq
  rw [List.map_cons, List.sum_cons] at hsum
  rw [ahead, ahead, hsum, leftToFollow]
  omega

/-- What the search tells is what it has found after so many rounds. -/
theorem search_endsAfter (start : α) (walk : Walk α) (seen : List α) :
    ∃ n ≤ p.ahead walk seen, p.EndsAfter start n walk seen (p.search start walk seen) := by
  fun_induction search p start walk seen with
  | case1 seen => exact ⟨0, Nat.zero_le _, .nowhere⟩
  | case2 seen a walk ih =>
    obtain ⟨n, hn, h⟩ := ih
    refine ⟨n + 1, ?_, .leave h⟩
    simp only [ahead, leftToFollow, List.length_nil] at hn ⊢
    omega
  | case3 seen a walk needs => exact ⟨0, Nat.zero_le _, .back⟩
  | case4 seen a b walk needs hb hnew ih =>
    obtain ⟨n, hn, h⟩ := ih
    refine ⟨n + 1, ?_, .enter hb hnew.1 hnew.2 h⟩
    rw [ahead_enter hnew.1 hnew.2] at hn
    simp only [ahead, leftToFollow, List.length_cons] at hn ⊢
    omega
  | case5 seen a b walk needs hb hold ih =>
    obtain ⟨n, hn, h⟩ := ih
    refine ⟨n + 1, ?_, .pass hb (fun hi => ?_) h⟩
    · simp only [ahead, leftToFollow, List.length_cons] at hn ⊢
      omega
    · exact Decidable.not_not.mp fun hs => hold ⟨hi, hs⟩

/-- The search for a way back to an item takes no more rounds than there are items and needs. -/
theorem cycleThrough_endsAfter (ha : a ∈ p.items) :
    ∃ n ≤ p.size, p.EndsAfter a n [(a, p.needs a)] [a] (p.cycleThrough a) := by
  have hsize : p.ahead [(a, p.needs a)] [a] = p.size := by
    rw [ahead_enter ha List.not_mem_nil, ahead, size]
    simp [leftToFollow]
  rw [cycleThrough, if_pos ha, ← hsize]
  exact search_endsAfter a _ _

end Invoicing.Precedence
