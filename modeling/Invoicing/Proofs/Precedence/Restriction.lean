import Invoicing.Proofs.Precedence.Schedule

/-!
# The schedule of a part

Items that need nothing outside a part wait for the same items whether or not there
are others. Others may leave the queue between them, but free none of them. So a
schedule of the part is the schedule of all items with the others left out.
-/
namespace Invoicing.Precedence

variable {α : Type} {keep : α → Bool} {queue : List α} {waiting : Waiting α}

/-- Of the items in each part of a schedule those that are kept. -/
def Schedule.filter (keep : α → Bool) (s : Schedule α) : Schedule α :=
  ⟨s.order.filter keep, s.cyclic.filter keep, s.blocked.filter keep⟩

/-- The waiting items that are kept. -/
def keepWaiting (keep : α → Bool) (waiting : Waiting α) : Waiting α :=
  waiting.filter (keep ·.1)

/-- No item that is kept waits for one that is not. -/
def Keeps (keep : α → Bool) (waiting : Waiting α) : Prop :=
  ∀ w ∈ waiting, keep w.1 → ∀ b ∈ w.2, keep b

theorem freed_keepWaiting (waiting : Waiting α) :
    freed (keepWaiting keep waiting) = (freed waiting).filter keep := by
  simp [freed, keepWaiting, List.filter_map, List.filter_filter, Function.comp_def, Bool.and_comm]

theorem held_keepWaiting (waiting : Waiting α) :
    held (keepWaiting keep waiting) = keepWaiting keep (held waiting) := by
  simp [held, keepWaiting, List.filter_filter, Bool.and_comm]

/-- Of items that wait for something none is freed and all are held. -/
theorem freed_eq_nil (h : ∀ w ∈ waiting, w.2 ≠ []) : freed waiting = [] := by
  simpa [freed, List.isEmpty_iff] using h

theorem held_eq_self (h : ∀ w ∈ waiting, w.2 ≠ []) : held waiting = waiting := by
  simpa [held, List.isEmpty_iff] using h

variable [DecidableEq α]

theorem release_keepWaiting (a : α) (waiting : Waiting α) :
    release a (keepWaiting keep waiting) = keepWaiting keep (release a waiting) := by
  simp [release, keepWaiting, List.filter_map, Function.comp_def]

/-- Where nobody waits for an item, nothing changes when it leaves the queue. -/
theorem release_eq_self {a : α} (h : ∀ w ∈ waiting, a ∉ w.2) : release a waiting = waiting := by
  refine (List.map_congr_left fun w hw => ?_).trans (List.map_id waiting)
  have hleft : w.2.filter (· ≠ a) = w.2 := by
    refine List.filter_eq_self.mpr fun b hb => decide_eq_true ?_
    rintro rfl
    exact h w hw hb
  exact congrArg (w.1, ·) hleft

theorem Keeps.next (h : Keeps keep waiting) (a : α) : Keeps keep (held (release a waiting)) := by
  intro (b, left) hw hb c hc
  obtain ⟨rest, hrest, rfl⟩ := mem_release_iff.mp (mem_held_iff.mp hw).1
  exact h (b, rest) hrest hb c (List.mem_of_mem_filter hc)

/-- An item that is left out frees none that is kept. -/
theorem Keeps.release_keepWaiting (h : Keeps keep waiting) {a : α} (ha : ¬ keep a) :
    release a (keepWaiting keep waiting) = keepWaiting keep waiting := by
  refine release_eq_self fun w hw hmem => ha ?_
  obtain ⟨hw, hkeep⟩ := List.mem_filter.mp hw
  exact h w hw hkeep a hmem

/-- The items that are kept leave the queue as if there were no others. -/
theorem filter_place (hkeeps : Keeps keep waiting) (hheld : ∀ w ∈ waiting, w.2 ≠ []) :
    (place queue waiting).filter keep = place (queue.filter keep) (keepWaiting keep waiting) := by
  fun_induction place queue waiting with
  | case1 waiting => rw [List.filter_nil, place]
  | case2 waiting a queue ih =>
    have ih := ih (hkeeps.next a) fun w hw => (mem_held_iff.mp hw).2
    rw [List.filter_append, ← freed_keepWaiting, ← held_keepWaiting,
      ← Precedence.release_keepWaiting] at ih
    by_cases ha : keep a
    · rw [List.filter_cons_of_pos ha, List.filter_cons_of_pos ha, place, ih]
    · have hkept : ∀ w ∈ keepWaiting keep waiting, w.2 ≠ [] :=
        fun w hw => hheld w (List.mem_of_mem_filter hw)
      rw [List.filter_cons_of_neg ha, List.filter_cons_of_neg ha, ih,
        hkeeps.release_keepWaiting ha, freed_eq_nil hkept, held_eq_self hkept, List.append_nil]

variable {p : Precedence α}

theorem waitingIn_filter (hneeds : ∀ a b, keep a → p.Needs a b → keep b) :
    p.waitingIn (p.items.filter keep) = keepWaiting keep (p.waitingIn p.items) := by
  rw [waitingIn, waitingIn, keepWaiting, List.filter_map]
  refine List.map_congr_left fun a ha => congrArg (a, ·) (List.filter_congr fun b hb => ?_)
  have hb' : keep b := hneeds a b (List.mem_filter.mp ha).2 hb
  simp [hb']

theorem keeps_waitingIn (hneeds : ∀ a b, keep a → p.Needs a b → keep b) (scope : List α) :
    Keeps keep (p.waitingIn scope) := by
  intro w hw hkeep b hb
  obtain ⟨a, -, rfl⟩ := List.mem_map.mp hw
  exact hneeds a b hkeep (List.mem_of_mem_filter hb)

theorem order_filter (hneeds : ∀ a b, keep a → p.Needs a b → keep b) :
    p.order (p.items.filter keep) = (p.order p.items).filter keep := by
  have hkeeps : Keeps keep (held (p.waitingIn p.items)) :=
    fun w hw => keeps_waitingIn hneeds p.items w (List.mem_of_mem_filter hw)
  rw [order, order, filter_place hkeeps fun w hw => (mem_held_iff.mp hw).2, waitingIn_filter hneeds,
    freed_keepWaiting, held_keepWaiting]

/-- The items of a part that are not put in order are those that are not put in order at all. -/
theorem unplaced_filter (hneeds : ∀ a b, keep a → p.Needs a b → keep b) :
    (p.items.filter keep).filter (· ∉ p.order (p.items.filter keep)) =
      (p.items.filter (· ∉ p.order p.items)).filter keep := by
  rw [order_filter hneeds, List.filter_filter, List.filter_filter]
  refine List.filter_congr fun a _ => ?_
  cases hkeep : keep a <;> simp [hkeep]

theorem scope_eq_filter (p : Precedence α) (roots : List α) :
    p.scope roots = p.items.filter (· ∈ p.scope roots) :=
  List.filter_congr fun a ha => by simp [scope, ha]

/-- The schedule for some roots is that of all items with those left out that the roots do not
reach. -/
theorem schedule_eq_filter (p : Precedence α) (roots : List α) :
    p.schedule roots = p.fullSchedule.filter (· ∈ p.scope roots) := by
  have hneeds : ∀ a b, decide (a ∈ p.scope roots) → p.Needs a b → decide (b ∈ p.scope roots) := by
    simp only [decide_eq_true_eq]
    exact fun a b ha hab => mem_scope_of_needs ha hab
  have hunplaced := unplaced_filter hneeds
  have horder := order_filter hneeds
  rw [← scope_eq_filter] at hunplaced horder
  rw [schedule_eq, fullSchedule_eq, hunplaced, horder, Schedule.filter, List.filter_comm p.isCyclic,
    List.filter_comm (!p.isCyclic ·)]

end Invoicing.Precedence
