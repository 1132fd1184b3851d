import Invoicing.Proofs.Precedence.Reachability
import Mathlib.Data.List.Chain

/-!
# The search for a cycle

The walk that looks for a way back to an item finds one exactly if the item is
on a cycle, and the path it tells leads from the item from need to need back to
it without meeting any item twice.
-/
namespace Invoicing.Precedence

open Relation (ReflTransGen TransGen)

variable {α : Type} {p : Precedence α}

@[simp] theorem path_nil : path ([] : Walk α) = [] := rfl

@[simp] theorem path_cons (a : α) (needs : List α) (walk : Walk α) :
    path ((a, needs) :: walk) = path walk ++ [a] := by
  simp [path]

/-- A path from need to need that comes back to its start and meets nothing twice before. -/
def IsCycle (p : Precedence α) (a : α) (cycle : List α) : Prop :=
  ∃ inner, cycle = a :: inner ++ [a] ∧ (a :: inner).Nodup ∧ cycle.IsChain p.Needs

theorem IsCycle.onCycle {a : α} {cycle : List α} (h : p.IsCycle a cycle) : p.OnCycle a := by
  obtain ⟨inner, rfl, -, hchain⟩ := h
  cases inner with
  | nil => exact .single (by simpa using hchain)
  | cons b inner =>
    have hab : p.Needs a b := by simp_all
    have hrest : (b :: inner ++ [a]).IsChain p.Needs := by simp_all
    refine .head' hab ?_
    exact hrest.concat_induction_head (fun x => ReflTransGen p.Needs b x) (b :: inner) (a := b)
      rfl (fun _ _ hxy hx => hx.tail hxy) .refl

/-- What a walk knows on its way: its items lead on from the start, none of them twice,
and what is left to follow from each of them is needed by it. -/
structure Underway (p : Precedence α) (start : α) (walk : Walk α) (seen : List α) : Prop where
  chain : (path walk).IsChain p.Needs
  head : ∀ a ∈ (path walk).head?, a = start
  nodup : (path walk).Nodup
  seen : ∀ a ∈ path walk, a ∈ seen
  left : ∀ w ∈ walk, ∀ b ∈ w.2, p.Needs w.1 b

namespace Underway

variable {start a b : α} {needs seen : List α} {walk : Walk α}

theorem leave (h : p.Underway start ((a, needs) :: walk) seen) : p.Underway start walk seen where
  chain := by
    have := h.chain
    rw [path_cons] at this
    exact this.left_of_append
  head := by
    intro x hx
    refine h.head x ?_
    rw [path_cons, List.head?_append]
    simp [Option.mem_def.mp hx]
  nodup := by
    have := h.nodup
    rw [path_cons, List.nodup_append] at this
    exact this.1
  seen := by
    intro x hx
    exact h.seen x (by rw [path_cons]; exact List.mem_append_left _ hx)
  left := fun w hw => h.left w (List.mem_cons_of_mem _ hw)

theorem skip (h : p.Underway start ((a, b :: needs) :: walk) seen) :
    p.Underway start ((a, needs) :: walk) seen where
  chain := by simpa using h.chain
  head := by simpa using h.head
  nodup := by simpa using h.nodup
  seen := by simpa using h.seen
  left := by
    intro w hw x hx
    cases hw with
    | head => exact h.left (a, b :: needs) List.mem_cons_self x (List.mem_cons_of_mem b hx)
    | tail _ hw => exact h.left w (List.mem_cons_of_mem _ hw) x hx

theorem needs_next (h : p.Underway start ((a, b :: needs) :: walk) seen) : p.Needs a b :=
  h.left (a, b :: needs) List.mem_cons_self b List.mem_cons_self

theorem chain_next (h : p.Underway start ((a, b :: needs) :: walk) seen) :
    (path ((a, needs) :: walk) ++ [b]).IsChain p.Needs := by
  refine List.isChain_append.mpr ⟨h.skip.chain, .singleton b, ?_⟩
  intro x hx y hy
  have hxa : x = a := by simpa [eq_comm] using hx
  have hyb : y = b := by simpa [eq_comm] using hy
  rw [hxa, hyb]
  exact h.needs_next

theorem enter (h : p.Underway start ((a, b :: needs) :: walk) seen) (hb : b ∉ seen) :
    p.Underway start ((b, p.needs b) :: (a, needs) :: walk) (b :: seen) where
  chain := by
    rw [path_cons b]
    exact h.chain_next
  head := by
    intro x hx
    refine h.skip.head x ?_
    rw [path_cons b, List.head?_append] at hx
    simpa using hx
  nodup := by
    rw [path_cons b, List.nodup_append]
    refine ⟨h.skip.nodup, by simp, ?_⟩
    intro x hx y hy
    rw [List.mem_singleton.mp hy]
    rintro rfl
    exact hb (h.skip.seen x hx)
  seen := by
    intro x hx
    rw [path_cons b] at hx
    rcases List.mem_append.mp hx with hx | hx
    · exact List.mem_cons_of_mem b (h.skip.seen x hx)
    · rw [List.mem_singleton.mp hx]
      exact List.mem_cons_self
  left := by
    intro w hw
    cases hw with
    | head => exact fun x hx => hx
    | tail _ hw => exact h.skip.left w hw

/-- Where the next need is the start, the walk has gone round. -/
theorem isCycle (h : p.Underway start ((a, start :: needs) :: walk) seen) :
    p.IsCycle start (path ((a, needs) :: walk) ++ [start]) := by
  have hchain := h.chain_next
  have hnodup := h.skip.nodup
  have hhead := h.skip.head
  generalize hpath : path ((a, needs) :: walk) = items at hchain hnodup hhead
  cases items with
  | nil => simp at hpath
  | cons x inner =>
    obtain rfl : x = start := hhead x rfl
    exact ⟨inner, rfl, hnodup, hchain⟩

end Underway

/-- Whatever a seen item needs has been seen and is not the start, unless it is still to
be followed. -/
def Followed (p : Precedence α) (start : α) (walk : Walk α) (seen : List α) : Prop :=
  ∀ x ∈ seen, ∀ y, p.Needs x y →
    (y ∈ seen ∧ y ≠ start) ∨ ∃ rest, (x, rest) ∈ walk ∧ y ∈ rest

namespace Followed

variable {start a b : α} {needs seen : List α} {walk : Walk α}

theorem leave (h : p.Followed start ((a, []) :: walk) seen) : p.Followed start walk seen := by
  intro x hx y hxy
  rcases h x hx y hxy with hy | ⟨rest, hw, hy⟩
  · exact .inl hy
  · rcases List.mem_cons.mp hw with he | hw
    · obtain ⟨rfl, rfl⟩ := Prod.mk.inj he
      cases hy
    · exact .inr ⟨rest, hw, hy⟩

/-- The next need is passed over if it has been seen. -/
theorem skip (h : p.Followed start ((a, b :: needs) :: walk) seen)
    (hb : b ∈ p.items → b ∈ seen) (hne : b ≠ start) :
    p.Followed start ((a, needs) :: walk) seen := by
  intro x hx y hxy
  rcases h x hx y hxy with hy | ⟨rest, hw, hy⟩
  · exact .inl hy
  · rcases List.mem_cons.mp hw with he | hw
    · obtain ⟨rfl, rfl⟩ := Prod.mk.inj he
      cases hy with
      | head => exact .inl ⟨hb (p.needs_mem hxy), hne⟩
      | tail _ hy => exact .inr ⟨needs, List.mem_cons_self, hy⟩
    · exact .inr ⟨rest, List.mem_cons_of_mem _ hw, hy⟩

theorem enter (h : p.Followed start ((a, b :: needs) :: walk) seen) (hne : b ≠ start) :
    p.Followed start ((b, p.needs b) :: (a, needs) :: walk) (b :: seen) := by
  intro x hx y hxy
  cases hx with
  | head => exact .inr ⟨p.needs b, List.mem_cons_self, hxy⟩
  | tail _ hx =>
    rcases h x hx y hxy with ⟨hy, hys⟩ | ⟨rest, hw, hy⟩
    · exact .inl ⟨List.mem_cons_of_mem b hy, hys⟩
    · rcases List.mem_cons.mp hw with he | hw
      · obtain ⟨rfl, rfl⟩ := Prod.mk.inj he
        cases hy with
        | head => exact .inl ⟨List.mem_cons_self, hne⟩
        | tail _ hy => exact .inr ⟨needs, by simp, hy⟩
      · exact .inr ⟨rest, by simp [hw], hy⟩

end Followed

variable [DecidableEq α]

/-- A path that is told is a cycle through the start. -/
theorem isCycle_of_search (start : α) (walk : Walk α) (seen : List α)
    (h : p.Underway start walk seen) {cycle : List α}
    (hs : p.search start walk seen = some cycle) : p.IsCycle start cycle := by
  fun_induction search p start walk seen with
  | case1 => cases hs
  | case2 seen a walk ih => exact ih h.leave hs
  | case3 seen a walk needs =>
    obtain rfl := Option.some.inj hs
    exact h.isCycle
  | case4 seen a b walk needs hb hnew ih => exact ih (h.enter hnew.2) hs
  | case5 seen a b walk needs hb hold ih => exact ih h.skip hs

/-- A search without result has seen a set of items that are closed under needs and do
not need the start. -/
theorem closed_of_search_eq_none (start : α) (walk : Walk α) (seen : List α)
    (h : p.Followed start walk seen) (hs : p.search start walk seen = none) :
    ∃ closed, seen ⊆ closed ∧ ∀ x ∈ closed, ∀ y, p.Needs x y → y ∈ closed ∧ y ≠ start := by
  fun_induction search p start walk seen with
  | case1 seen =>
    refine ⟨seen, List.Subset.refl seen, ?_⟩
    intro x hx y hxy
    rcases h x hx y hxy with hy | ⟨_, hw, _⟩
    · exact hy
    · cases hw
  | case2 seen a walk ih => exact ih h.leave hs
  | case3 => cases hs
  | case4 seen a b walk needs hb hnew ih =>
    obtain ⟨closed, hseen, hclosed⟩ := ih (h.enter hb) hs
    exact ⟨closed, fun x hx => hseen (List.mem_cons_of_mem b hx), hclosed⟩
  | case5 seen a b walk needs hb hold ih =>
    refine ih (h.skip (fun hi => ?_) hb) hs
    exact Decidable.not_not.mp fun hn => hold ⟨hi, hn⟩

theorem isCycle_of_cycleThrough {a : α} {cycle : List α} (h : p.cycleThrough a = some cycle) :
    p.IsCycle a cycle := by
  unfold cycleThrough at h
  split at h
  · refine isCycle_of_search a _ _ ?_ h
    constructor <;> simp [path, Needs]
  · cases h

theorem not_onCycle_of_cycleThrough {a : α} (h : p.cycleThrough a = none) : ¬ p.OnCycle a := by
  intro hc
  rw [cycleThrough, if_pos hc.mem_items] at h
  obtain ⟨closed, hseen, hclosed⟩ := closed_of_search_eq_none a _ _ (by
    intro x hx y hxy
    rw [List.mem_singleton.mp hx] at hxy ⊢
    exact .inr ⟨p.needs a, List.mem_singleton.mpr rfl, hxy⟩) h
  obtain ⟨b, hab, hba⟩ := Relation.TransGen.tail'_iff.mp hc
  have hb : b ∈ closed := by
    clear hba
    induction hab with
    | refl => exact hseen (List.mem_singleton.mpr rfl)
    | tail _ hbc ih => exact (hclosed _ ih _ hbc).1
  exact (hclosed b hb a hba).2 rfl

/-- The search tells exactly whether an item is on a cycle. -/
theorem isCyclic_iff {a : α} : p.isCyclic a = true ↔ p.OnCycle a := by
  unfold isCyclic
  cases h : p.cycleThrough a with
  | none => simpa using not_onCycle_of_cycleThrough h
  | some cycle => simpa using (isCycle_of_cycleThrough h).onCycle

end Invoicing.Precedence
