import Invoicing.Precedence.Schedule
import Mathlib.Logic.Relation

/-!
# What items reach

An item reaches whatever it needs, directly or through others. The exploration
from some roots finds exactly the items that the roots reach, and whatever is
needed within the scope of a schedule lies in that scope again.
-/
namespace Invoicing.Precedence

open Relation (ReflTransGen TransGen)

variable {α : Type} (p : Precedence α)

/-- One item needs another directly. -/
def Needs (a b : α) : Prop := b ∈ p.needs a

/-- One item is the other, or needs it directly or through others. -/
def Reaches : α → α → Prop := ReflTransGen p.Needs

/-- An item needs itself, directly or through others. -/
def OnCycle (a : α) : Prop := TransGen p.Needs a a

/-- An item is on a cycle or needs an item that is. -/
def ReachesCycle (a : α) : Prop := ∃ c, p.Reaches a c ∧ p.OnCycle c

variable {p}

theorem OnCycle.mem_items {a : α} (h : p.OnCycle a) : a ∈ p.items := by
  obtain ⟨b, -, hb⟩ := Relation.TransGen.tail'_iff.mp h
  exact p.needs_mem hb

theorem OnCycle.reachesCycle {a : α} (h : p.OnCycle a) : p.ReachesCycle a :=
  ⟨a, .refl, h⟩

theorem Needs.reachesCycle {a b : α} (h : p.Needs a b) (hb : p.ReachesCycle b) :
    p.ReachesCycle a := by
  obtain ⟨c, hc, hcc⟩ := hb
  exact ⟨c, .head h hc, hcc⟩

theorem Reaches.mem_items {a b : α} (h : p.Reaches a b) (ha : a ∈ p.items) : b ∈ p.items := by
  cases h with
  | refl => exact ha
  | tail _ hcb => exact p.needs_mem hcb

variable [DecidableEq α]

/-- Whoever goes from need to need within a list that always holds a next one comes
back to an item seen before. -/
theorem reachesCycle_of_seen {stuck : List α}
    (hstuck : ∀ a ∈ stuck, ∃ b ∈ stuck, p.Needs a b) (hitems : ∀ a ∈ stuck, a ∈ p.items)
    (seen : List α) (a : α) (ha : a ∈ stuck) (hseen : ∀ x ∈ seen, TransGen p.Needs x a)
    (hnew : a ∉ seen) : p.ReachesCycle a := by
  obtain ⟨b, hb, hab⟩ := hstuck a ha
  by_cases hba : b ∈ a :: seen
  · cases hba with
    | head => exact OnCycle.reachesCycle (.single hab)
    | tail _ hba => exact OnCycle.reachesCycle (.head hab (hseen b hba))
  · have hlt := p.unseen_cons_lt (hitems a ha) hnew
    refine hab.reachesCycle (reachesCycle_of_seen hstuck hitems (a :: seen) b hb ?_ hba)
    intro x hx
    cases hx with
    | head => exact .single hab
    | tail _ hx => exact (hseen x hx).tail hab
termination_by p.unseen seen

/-- Items that each need another one of them all reach a cycle. -/
theorem reachesCycle_of_stuck {stuck : List α}
    (hstuck : ∀ a ∈ stuck, ∃ b ∈ stuck, p.Needs a b) (hitems : ∀ a ∈ stuck, a ∈ p.items)
    {a : α} (ha : a ∈ stuck) : p.ReachesCycle a :=
  reachesCycle_of_seen hstuck hitems [] a ha (by simp) (by simp)

/-- Whatever holds of the frontier and goes from each item to its needs holds of all
that is found. -/
theorem explore_induction {P : α → Prop} (hneeds : ∀ a b, P a → p.Needs a b → P b)
    (frontier seen : List α) (hfrontier : ∀ a ∈ frontier, a ∈ p.items → P a)
    (hseen : ∀ a ∈ seen, P a) : ∀ a ∈ p.explore frontier seen, P a := by
  fun_induction explore p frontier seen with
  | case1 seen => exact hseen
  | case2 seen a frontier h ih =>
    have ha : P a := hfrontier a List.mem_cons_self h.1
    apply ih
    · intro b hb hbi
      rcases List.mem_append.mp hb with hb | hb
      · exact hneeds a b ha hb
      · exact hfrontier b (List.mem_cons_of_mem a hb) hbi
    · intro b hb
      cases hb with
      | head => exact ha
      | tail _ hb => exact hseen b hb
  | case3 seen a frontier h ih =>
    exact ih (fun b hb => hfrontier b (List.mem_cons_of_mem a hb)) hseen

theorem subset_explore (frontier seen : List α) : seen ⊆ p.explore frontier seen := by
  fun_induction explore p frontier seen with
  | case1 seen => exact List.Subset.refl seen
  | case2 seen a frontier h ih => exact fun b hb => ih (List.mem_cons_of_mem a hb)
  | case3 seen a frontier h ih => exact ih

theorem mem_explore_of_frontier (frontier seen : List α) {a : α} (ha : a ∈ frontier)
    (hi : a ∈ p.items) : a ∈ p.explore frontier seen := by
  fun_induction explore p frontier seen with
  | case1 seen => cases ha
  | case2 seen b frontier h ih =>
    cases ha with
    | head => exact subset_explore _ _ List.mem_cons_self
    | tail _ ha => exact ih (List.mem_append_right _ ha)
  | case3 seen b frontier h ih =>
    cases ha with
    | head => exact subset_explore _ _ (Decidable.not_not.mp fun hs => h ⟨hi, hs⟩)
    | tail _ ha => exact ih ha

/-- If the frontier holds all that the items seen so far still need, then nothing that
is needed is missing at the end. -/
theorem explore_closed (frontier seen : List α)
    (hseen : ∀ a ∈ seen, ∀ b, p.Needs a b → b ∈ seen ∨ b ∈ frontier) :
    ∀ a ∈ p.explore frontier seen, ∀ b, p.Needs a b → b ∈ p.explore frontier seen := by
  fun_induction explore p frontier seen with
  | case1 seen =>
    intro a ha b hab
    exact (hseen a ha b hab).resolve_right List.not_mem_nil
  | case2 seen c frontier h ih =>
    apply ih
    intro a ha b hab
    cases ha with
    | head => exact .inr (List.mem_append_left _ hab)
    | tail _ ha =>
      rcases hseen a ha b hab with hb | hb
      · exact .inl (List.mem_cons_of_mem c hb)
      · cases hb with
        | head => exact .inl List.mem_cons_self
        | tail _ hb => exact .inr (List.mem_append_right _ hb)
  | case3 seen c frontier h ih =>
    apply ih
    intro a ha b hab
    rcases hseen a ha b hab with hb | hb
    · exact .inl hb
    · cases hb with
      | head => exact .inl (Decidable.not_not.mp fun hs => h ⟨p.needs_mem hab, hs⟩)
      | tail _ hb => exact .inr hb

/-- The exploration finds the items among the roots and all that they reach. -/
theorem mem_reach_iff {roots : List α} {a : α} :
    a ∈ p.reach roots ↔ ∃ r ∈ roots, r ∈ p.items ∧ p.Reaches r a := by
  constructor
  · intro h
    refine explore_induction (P := fun a => ∃ r ∈ roots, r ∈ p.items ∧ p.Reaches r a)
      ?_ roots [] ?_ (by simp) a h
    · rintro a b ⟨r, hr, hri, hra⟩ hab
      exact ⟨r, hr, hri, .tail hra hab⟩
    · intro r hr hri
      exact ⟨r, hr, hri, .refl⟩
  · rintro ⟨r, hr, hri, hra⟩
    have closed := explore_closed (p := p) roots [] (by simp)
    induction hra with
    | refl => exact mem_explore_of_frontier roots [] hr hri
    | tail _ hbc ih => exact closed _ ih _ hbc

theorem mem_scope_iff {roots : List α} {a : α} :
    a ∈ p.scope roots ↔ ∃ r ∈ roots, r ∈ p.items ∧ p.Reaches r a := by
  simp only [scope, List.mem_filter, decide_eq_true_eq, mem_reach_iff]
  constructor
  · exact And.right
  · rintro ⟨r, hr, hri, hra⟩
    exact ⟨hra.mem_items hri, r, hr, hri, hra⟩

theorem nodup_scope (p : Precedence α) (roots : List α) : (p.scope roots).Nodup :=
  List.filter_sublist.nodup p.nodup

theorem mem_items_of_mem_scope {roots : List α} {a : α} (h : a ∈ p.scope roots) :
    a ∈ p.items :=
  (List.mem_filter.mp h).1

/-- What an item of a scope needs is in the scope. -/
theorem mem_scope_of_needs {roots : List α} {a b : α} (ha : a ∈ p.scope roots)
    (hab : p.Needs a b) : b ∈ p.scope roots := by
  obtain ⟨r, hr, hri, hra⟩ := mem_scope_iff.mp ha
  exact mem_scope_iff.mpr ⟨r, hr, hri, .tail hra hab⟩

end Invoicing.Precedence
