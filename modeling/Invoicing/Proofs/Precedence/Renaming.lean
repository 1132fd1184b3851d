import Invoicing.Proofs.Mapping
import Invoicing.Proofs.Precedence.Schedule

/-!
# Items under other names

Nothing but whether two items are the same is ever asked of them. So items that
keep their order and their needs under other names are put in the same order,
and the same ones are on a cycle or behind one.
-/
namespace Invoicing.Precedence

open Relation (TransGen)

variable {α β : Type} {f : α → β} {p : Precedence α} {q : Precedence β} {a : α}
  {items queue scope : List α} {waiting : Waiting α}

/-- The items of one precedence are those of another under other names. -/
structure Renames (f : α → β) (p : Precedence α) (q : Precedence β) : Prop where
  injOn : Set.InjOn f {a | a ∈ p.items}
  items : q.items = p.items.map f
  needs : ∀ a ∈ p.items, q.needs (f a) = (p.needs a).map f

def Schedule.map (f : α → β) (s : Schedule α) : Schedule β :=
  ⟨s.order.map f, s.cyclic.map f, s.blocked.map f⟩

/-- Items under other names, waiting as before. -/
def mapWaiting (f : α → β) (waiting : Waiting α) : Waiting β :=
  waiting.map fun w => (f w.1, w.2.map f)

/-- Whatever waits or is waited for is one of the items. -/
def Within (items : List α) (waiting : Waiting α) : Prop :=
  ∀ w ∈ waiting, w.1 ∈ items ∧ w.2 ⊆ items

theorem freed_mapWaiting (waiting : Waiting α) :
    freed (mapWaiting f waiting) = (freed waiting).map f := by
  simp [freed, mapWaiting, List.filter_map, Function.comp_def]

theorem held_mapWaiting (waiting : Waiting α) :
    held (mapWaiting f waiting) = mapWaiting f (held waiting) := by
  simp [held, mapWaiting, List.filter_map, Function.comp_def]

namespace Within

theorem subset_freed (h : Within items waiting) : freed waiting ⊆ items :=
  fun _ ha => (h _ (mem_freed_iff.mp ha)).1

theorem held (h : Within items waiting) : Within items (held waiting) :=
  fun w hw => h w (List.mem_of_mem_filter hw)

end Within

namespace Renames

variable (h : Renames f p q)
include h

theorem transGen {a b : α} (ha : a ∈ p.items) (hab : TransGen p.Needs a b) :
    TransGen q.Needs (f a) (f b) := by
  have hneeds : ∀ {x y}, x ∈ p.items → p.Needs x y → q.Needs (f x) (f y) := by
    intro x y hx hxy
    rw [Needs, h.needs x hx]
    exact List.mem_map_of_mem hxy
  induction hab with
  | single hab => exact .single (hneeds ha hab)
  | tail hac hcb ih =>
    obtain ⟨d, -, hdc⟩ := Relation.TransGen.tail'_iff.mp hac
    exact ih.tail (hneeds (p.needs_mem hdc) hcb)

/-- What is needed under another name is another name of what is needed. -/
theorem exists_of_transGen {y : β} (ha : a ∈ p.items) (hay : TransGen q.Needs (f a) y) :
    ∃ b ∈ p.items, f b = y ∧ TransGen p.Needs a b := by
  have hneeds : ∀ {x z}, x ∈ p.items → q.Needs (f x) z → ∃ b ∈ p.items, f b = z ∧ p.Needs x b := by
    intro x z hx hxz
    rw [Needs, h.needs x hx] at hxz
    obtain ⟨b, hb, rfl⟩ := List.mem_map.mp hxz
    exact ⟨b, p.needs_mem hb, rfl, hb⟩
  induction hay with
  | single hay =>
    obtain ⟨b, hb, rfl, hab⟩ := hneeds ha hay
    exact ⟨b, hb, rfl, .single hab⟩
  | tail _ hcz ih =>
    obtain ⟨c, hc, rfl, hac⟩ := ih
    obtain ⟨b, hb, rfl, hcb⟩ := hneeds hc hcz
    exact ⟨b, hb, rfl, hac.tail hcb⟩

theorem onCycle_iff (ha : a ∈ p.items) : q.OnCycle (f a) ↔ p.OnCycle a := by
  constructor
  · intro hcycle
    obtain ⟨b, hb, hba, hab⟩ := h.exists_of_transGen ha hcycle
    rwa [h.injOn hb ha hba] at hab
  · exact h.transGen ha

end Renames

variable [DecidableEq α] [DecidableEq β]

theorem Within.release (h : Within items waiting) (a : α) : Within items (release a waiting) := by
  intro (b, left) hw
  obtain ⟨rest, hrest, rfl⟩ := mem_release_iff.mp hw
  obtain ⟨hb, hsub⟩ := h (b, rest) hrest
  exact ⟨hb, fun c hc => hsub (List.mem_of_mem_filter hc)⟩

theorem release_mapWaiting (hf : Set.InjOn f {a | a ∈ items}) (h : Within items waiting)
    (ha : a ∈ items) : release (f a) (mapWaiting f waiting) = mapWaiting f (release a waiting) := by
  rw [release, release, mapWaiting, mapWaiting, List.map_map, List.map_map]
  refine List.map_congr_left fun w hw => ?_
  have hleft : (w.2.map f).filter (· ≠ f a) = (w.2.filter (· ≠ a)).map f := by
    refine filter_map_of_congr fun b hb => ?_
    simp only [ne_eq, hf.eq_iff ((h w hw).2 hb) ha]
  exact congrArg (f w.1, ·) hleft

/-- Under other names items leave the queue in the same order. -/
theorem place_mapWaiting (hf : Set.InjOn f {a | a ∈ items}) (hqueue : queue ⊆ items)
    (h : Within items waiting) :
    place (queue.map f) (mapWaiting f waiting) = (place queue waiting).map f := by
  -- Whatever joins the queue is an item again, so names never meet on the way.
  fun_induction place queue waiting with
  | case1 waiting => rw [List.map_nil, place]
  | case2 waiting a queue ih =>
    obtain ⟨ha, hqueue⟩ := List.cons_subset.mp hqueue
    have hrelease := h.release a
    rw [List.map_cons, place, release_mapWaiting hf h ha, freed_mapWaiting, held_mapWaiting,
      ← List.map_append, ih (List.append_subset.mpr ⟨hqueue, hrelease.subset_freed⟩) hrelease.held,
      List.map_cons]

namespace Renames

variable (h : Renames f p q)
include h

theorem waitingIn (hscope : scope ⊆ p.items) :
    q.waitingIn (scope.map f) = mapWaiting f (p.waitingIn scope) := by
  rw [Precedence.waitingIn, Precedence.waitingIn, mapWaiting, List.map_map, List.map_map]
  refine List.map_congr_left fun a ha => ?_
  have hneeds : (q.needs (f a)).filter (· ∈ scope.map f) =
      ((p.needs a).filter (· ∈ scope)).map f := by
    rw [h.needs a (hscope ha)]
    refine filter_map_of_congr fun b hb => ?_
    simp only [mem_map_iff_of_injOn h.injOn hscope (p.needs_mem hb)]
  exact congrArg (f a, ·) hneeds

theorem order (hscope : scope ⊆ p.items) : q.order (scope.map f) = (p.order scope).map f := by
  have hwithin : Within p.items (p.waitingIn scope) := by
    intro w hw
    obtain ⟨a, ha, rfl⟩ := List.mem_map.mp hw
    exact ⟨hscope ha, fun b hb => p.needs_mem (List.mem_of_mem_filter hb)⟩
  rw [Precedence.order, Precedence.order, h.waitingIn hscope, freed_mapWaiting, held_mapWaiting,
    place_mapWaiting h.injOn hwithin.subset_freed hwithin.held]

theorem isCyclic (ha : a ∈ p.items) : q.isCyclic (f a) = p.isCyclic a := by
  rw [Bool.eq_iff_iff, isCyclic_iff, isCyclic_iff, h.onCycle_iff ha]

/-- Under other names the same items are in each part of the schedule, in the same order. -/
theorem fullSchedule : q.fullSchedule = p.fullSchedule.map f := by
  have hsub : p.items ⊆ p.items := List.Subset.refl _
  have horder : q.order q.items = (p.order p.items).map f := by
    rw [h.items, h.order hsub]
  have hrest : q.items.filter (· ∉ q.order q.items) =
      (p.items.filter (· ∉ p.order p.items)).map f := by
    rw [horder, h.items]
    refine filter_map_of_congr fun a ha => ?_
    simp only [mem_map_iff_of_injOn h.injOn (fun _ hb => mem_of_mem_order hb) ha]
  have hcyclic : ∀ a ∈ p.items.filter (· ∉ p.order p.items), q.isCyclic (f a) = p.isCyclic a :=
    fun a ha => h.isCyclic (List.mem_of_mem_filter ha)
  have hblocked : ((p.items.filter (· ∉ p.order p.items)).map f).filter (!q.isCyclic ·) =
      ((p.items.filter (· ∉ p.order p.items)).filter (!p.isCyclic ·)).map f :=
    filter_map_of_congr fun a ha => congrArg not (hcyclic a ha)
  rw [fullSchedule_eq, fullSchedule_eq, hrest, horder, filter_map_of_congr hcyclic, hblocked]
  rfl

end Renames

end Invoicing.Precedence
