import Invoicing.Proofs.Precedence.Cycle
import Invoicing.Proofs.Precedence.Placement

/-!
# The three parts of a schedule

The order of a schedule holds the items of its scope that reach no cycle, each
behind what it needs. The other items of the scope are those on a cycle and
those that only reach one, and no item is in two parts.
-/
namespace Invoicing.Precedence

variable {α : Type} {p : Precedence α}

/-- What reaches a cycle needs something that does. -/
theorem ReachesCycle.next {a : α} (h : p.ReachesCycle a) :
    ∃ b, p.Needs a b ∧ p.ReachesCycle b := by
  obtain ⟨c, hac, hc⟩ := h
  rcases Relation.ReflTransGen.cases_head hac with rfl | ⟨b, hab, hbc⟩
  · obtain ⟨b, hab, hba⟩ := Relation.TransGen.head'_iff.mp hc
    exact ⟨b, hab, a, hba, hc⟩
  · exact ⟨b, hab, c, hbc, hc⟩

variable [DecidableEq α]

/-- What an item needs within a scope. -/
def needsIn (p : Precedence α) (scope : List α) (a : α) : List α :=
  (p.needs a).filter (· ∈ scope)

@[simp] theorem mem_needsIn_iff {scope : List α} {a b : α} :
    b ∈ p.needsIn scope a ↔ p.Needs a b ∧ b ∈ scope := by
  simp [needsIn, Needs]

@[simp] theorem waiters_waitingIn (scope : List α) : waiters (p.waitingIn scope) = scope := by
  simp [waiters, waitingIn, Function.comp_def]

/-- At first the items without needs stand in the queue and all others wait. -/
theorem placing_waitingIn {scope : List α} (hscope : scope.Nodup) :
    Placing (p.needsIn scope) [] (freed (p.waitingIn scope)) (held (p.waitingIn scope)) where
  nodup := by
    rw [(freed_append_held_perm _).nodup_iff, waiters_waitingIn]
    exact hscope
  fresh := fun _ _ => List.not_mem_nil
  ready := by
    intro a ha b hb
    obtain ⟨c, -, he⟩ := List.mem_map.mp (mem_freed_iff.mp ha)
    obtain ⟨rfl, hnil⟩ := Prod.mk.inj he
    rw [needsIn, hnil] at hb
    cases hb
  left := by
    intro a left hm
    obtain ⟨c, -, he⟩ := List.mem_map.mp (mem_held_iff.mp hm).1
    obtain ⟨rfl, rfl⟩ := Prod.mk.inj he
    simp [needsIn]
  held := fun a left hm => (mem_held_iff.mp hm).2

theorem mem_of_mem_order {scope : List α} {a : α} (h : a ∈ p.order scope) : a ∈ scope := by
  have := mem_of_mem_place _ _ h
  rwa [(freed_append_held_perm _).mem_iff, waiters_waitingIn] at this

/-- An item of a scope that is not put in order needs another one that is not. -/
theorem needs_unplaced {scope : List α} (hscope : scope.Nodup) {a : α} (ha : a ∈ scope)
    (hn : a ∉ p.order scope) : ∃ b ∈ scope, b ∉ p.order scope ∧ p.Needs a b := by
  rw [← waiters_waitingIn (p := p) scope, ← (freed_append_held_perm _).mem_iff,
    List.mem_append] at ha
  rcases ha with ha | ha
  · exact absurd (subset_place _ _ ha) hn
  · obtain ⟨b, hb, -, hbn⟩ := (placing_waitingIn hscope).unplaced ha hn
    obtain ⟨hab, hbs⟩ := mem_needsIn_iff.mp hb
    exact ⟨b, hbs, hbn, hab⟩

/-- In the order of a scope every item comes once and behind all that it needs. -/
theorem ordered_order (p : Precedence α) (roots : List α) :
    Ordered p.needs [] (p.order (p.scope roots)) := by
  refine (placing_waitingIn (p.nodup_scope roots)).ordered.mono ?_
  intro a ha b hab
  exact mem_needsIn_iff.mpr ⟨hab, mem_scope_of_needs (mem_of_mem_order ha) hab⟩

/-- The items put in order are those that reach no cycle. -/
theorem mem_order_iff {roots : List α} {a : α} :
    a ∈ p.order (p.scope roots) ↔ a ∈ p.scope roots ∧ ¬ p.ReachesCycle a := by
  constructor
  · intro ha
    refine ⟨mem_of_mem_order ha, ?_⟩
    refine (p.ordered_order roots).induction (P := fun a => ¬ p.ReachesCycle a) (by simp) ?_ a ha
    intro a _ hneeds hc
    obtain ⟨b, hab, hb⟩ := hc.next
    exact hneeds b hab hb
  · rintro ⟨ha, hc⟩
    by_contra hn
    let stuck := (p.scope roots).filter (· ∉ p.order (p.scope roots))
    have hstuck : ∀ x ∈ stuck, ∃ y ∈ stuck, p.Needs x y := by
      intro x hx
      obtain ⟨hxs, hxn⟩ := List.mem_filter.mp hx
      obtain ⟨y, hys, hyn, hxy⟩ := needs_unplaced (p.nodup_scope roots) hxs (by simpa using hxn)
      exact ⟨y, List.mem_filter.mpr ⟨hys, by simpa using hyn⟩, hxy⟩
    have hitems : ∀ x ∈ stuck, x ∈ p.items := fun x hx =>
      mem_items_of_mem_scope (List.mem_filter.mp hx).1
    exact hc (reachesCycle_of_stuck hstuck hitems (List.mem_filter.mpr ⟨ha, by simpa using hn⟩))

@[simp] theorem order_schedule (p : Precedence α) (roots : List α) :
    (p.schedule roots).order = p.order (p.scope roots) := rfl

theorem schedule_eq (p : Precedence α) (roots : List α) : p.schedule roots =
    ⟨p.order (p.scope roots),
      ((p.scope roots).filter (· ∉ p.order (p.scope roots))).filter p.isCyclic,
      ((p.scope roots).filter (· ∉ p.order (p.scope roots))).filter (!p.isCyclic ·)⟩ := by
  simp [schedule, Function.comp_def]

theorem cyclic_schedule (p : Precedence α) (roots : List α) :
    (p.schedule roots).cyclic =
      ((p.scope roots).filter (· ∉ p.order (p.scope roots))).filter p.isCyclic := by
  rw [schedule_eq]

theorem blocked_schedule (p : Precedence α) (roots : List α) :
    (p.schedule roots).blocked =
      ((p.scope roots).filter (· ∉ p.order (p.scope roots))).filter (!p.isCyclic ·) := by
  rw [schedule_eq]

theorem mem_cyclic_iff {roots : List α} {a : α} :
    a ∈ (p.schedule roots).cyclic ↔ a ∈ p.scope roots ∧ p.OnCycle a := by
  rw [cyclic_schedule, List.mem_filter, List.mem_filter, isCyclic_iff, decide_eq_true_eq,
    mem_order_iff]
  constructor
  · rintro ⟨⟨hs, -⟩, hc⟩
    exact ⟨hs, hc⟩
  · rintro ⟨hs, hc⟩
    exact ⟨⟨hs, fun h => h.2 hc.reachesCycle⟩, hc⟩

theorem mem_blocked_iff {roots : List α} {a : α} :
    a ∈ (p.schedule roots).blocked ↔
      a ∈ p.scope roots ∧ ¬ p.OnCycle a ∧ p.ReachesCycle a := by
  rw [blocked_schedule, List.mem_filter, List.mem_filter, Bool.not_eq_true', ← Bool.not_eq_true,
    isCyclic_iff, decide_eq_true_eq, mem_order_iff]
  constructor
  · rintro ⟨⟨hs, hr⟩, hc⟩
    exact ⟨hs, hc, by_contra fun hn => hr ⟨hs, hn⟩⟩
  · rintro ⟨hs, hc, hr⟩
    exact ⟨⟨hs, fun h => h.2 hr⟩, hc⟩

/-- No item is in a schedule twice. -/
theorem nodup_schedule (p : Precedence α) (roots : List α) :
    ((p.schedule roots).order ++ (p.schedule roots).cyclic ++
      (p.schedule roots).blocked).Nodup := by
  have hrest : ((p.scope roots).filter (· ∉ p.order (p.scope roots))).Nodup :=
    (p.nodup_scope roots).sublist List.filter_sublist
  have hcyclic : (p.schedule roots).cyclic.Nodup := by
    rw [cyclic_schedule]
    exact List.filter_sublist.nodup hrest
  have hblocked : (p.schedule roots).blocked.Nodup := by
    rw [blocked_schedule]
    exact List.filter_sublist.nodup hrest
  rw [List.nodup_append, List.nodup_append]
  refine ⟨⟨(p.ordered_order roots).nodup, hcyclic, ?_⟩, hblocked, ?_⟩
  · rintro a ha b hb rfl
    exact (mem_order_iff.mp ha).2 (mem_cyclic_iff.mp hb).2.reachesCycle
  · rintro a ha b hb rfl
    obtain ⟨-, hc, hr⟩ := mem_blocked_iff.mp hb
    rcases List.mem_append.mp ha with ha | ha
    · exact (mem_order_iff.mp ha).2 hr
    · exact hc (mem_cyclic_iff.mp ha).2

/-- Together the three parts hold the items of the scope. -/
theorem mem_schedule_iff {roots : List α} {a : α} :
    a ∈ (p.schedule roots).order ++ (p.schedule roots).cyclic ++ (p.schedule roots).blocked ↔
      a ∈ p.scope roots := by
  simp only [List.mem_append, order_schedule, mem_order_iff, mem_cyclic_iff, mem_blocked_iff]
  constructor
  · rintro ((h | h) | h) <;> exact h.1
  · intro hs
    by_cases hr : p.ReachesCycle a
    · by_cases hc : p.OnCycle a
      · exact .inl (.inr ⟨hs, hc⟩)
      · exact .inr ⟨hs, hc, hr⟩
    · exact .inl (.inl ⟨hs, hr⟩)

theorem idxOf?_lt_of_before {before after : List α} {a b : α} (ha : a ∉ before)
    (hb : b ∈ before) :
    ∃ i j, (before ++ a :: after).idxOf? b = some i ∧
      (before ++ a :: after).idxOf? a = some j ∧ i < j := by
  induction before with
  | nil => cases hb
  | cons c before ih =>
    obtain ⟨hac, ha⟩ : a ≠ c ∧ a ∉ before := by simpa using ha
    by_cases hcb : c = b
    · have hsome : ((before ++ a :: after).idxOf? a).isSome := by simp
      obtain ⟨j, hj⟩ := Option.isSome_iff_exists.mp hsome
      exact ⟨0, j + 1, by simp [List.idxOf?_cons, hcb],
        by simp [List.idxOf?_cons, hac.symm, hj], Nat.succ_pos j⟩
    · obtain ⟨i, j, hi, hj, hij⟩ := ih ha ((List.mem_cons.mp hb).resolve_left (Ne.symm hcb))
      exact ⟨i + 1, j + 1, by simp [List.idxOf?_cons, hcb, hi],
        by simp [List.idxOf?_cons, hac.symm, hj], Nat.succ_lt_succ hij⟩

/-- What an item of the order needs has a place before it. -/
theorem position_lt {roots : List α} {a b : α} (ha : a ∈ (p.schedule roots).order)
    (hab : p.Needs a b) :
    ∃ i j, (p.schedule roots).position b = some i ∧ (p.schedule roots).position a = some j ∧
      i < j := by
  obtain ⟨before, after, hsplit⟩ := List.mem_iff_append.mp ha
  have hordered := p.ordered_order roots
  have hb := (hordered.needs_before hsplit hab).resolve_left List.not_mem_nil
  have hnodup := hordered.nodup
  rw [← order_schedule, hsplit, List.nodup_append] at hnodup
  have hab' : a ∉ before := fun h => hnodup.2.2 a h a List.mem_cons_self rfl
  unfold Schedule.position
  rw [hsplit]
  exact idxOf?_lt_of_before hab' hb

/-- Two schedules have the same items in each part. -/
structure Schedule.Matches (s t : Schedule α) : Prop where
  order : s.order.Perm t.order
  cyclic : s.cyclic.Perm t.cyclic
  blocked : s.blocked.Perm t.blocked

theorem mem_scope_items {a : α} : a ∈ p.scope p.items ↔ a ∈ p.items := by
  rw [mem_scope_iff]
  constructor
  · intro ⟨r, _, hr, h⟩
    exact h.mem_items hr
  · intro ha
    exact ⟨a, ha, ha, .refl⟩

/-- All items together need nothing else. -/
theorem scope_items (p : Precedence α) : p.scope p.items = p.items :=
  List.filter_eq_self.mpr fun _ ha => (List.mem_filter.mp (mem_scope_items.mpr ha)).2

theorem fullSchedule_eq (p : Precedence α) : p.fullSchedule =
    ⟨p.order p.items, (p.items.filter (· ∉ p.order p.items)).filter p.isCyclic,
      (p.items.filter (· ∉ p.order p.items)).filter (!p.isCyclic ·)⟩ := by
  rw [fullSchedule, schedule_eq, scope_items]

/-- The parts that items belong to do not depend on the order in which the items come. -/
theorem fullSchedule_matches {q : Precedence α} (hneeds : p.Needs = q.Needs)
    (hitems : ∀ a, a ∈ p.items ↔ a ∈ q.items) : p.fullSchedule.Matches q.fullSchedule := by
  have hscope : ∀ a, a ∈ p.scope p.items ↔ a ∈ q.scope q.items := by
    intro a
    rw [mem_scope_items, mem_scope_items, hitems]
  have hcycle : p.OnCycle = q.OnCycle := by
    funext a
    rw [OnCycle, OnCycle, hneeds]
  have hreaches : p.ReachesCycle = q.ReachesCycle := by
    funext a
    rw [ReachesCycle, ReachesCycle, Reaches, Reaches, hneeds, hcycle]
  have hp := p.nodup_schedule p.items
  have hq := q.nodup_schedule q.items
  rw [List.nodup_append, List.nodup_append] at hp hq
  refine ⟨?_, ?_, ?_⟩
  · refine (List.perm_ext_iff_of_nodup hp.1.1 hq.1.1).mpr ?_
    intro a
    rw [order_schedule, order_schedule, mem_order_iff, mem_order_iff, hscope, hreaches]
  · refine (List.perm_ext_iff_of_nodup hp.1.2.1 hq.1.2.1).mpr ?_
    intro a
    rw [mem_cyclic_iff, mem_cyclic_iff, hscope, hcycle]
  · refine (List.perm_ext_iff_of_nodup hp.2.1 hq.2.1).mpr ?_
    intro a
    rw [mem_blocked_iff, mem_blocked_iff, hscope, hcycle, hreaches]

end Invoicing.Precedence
