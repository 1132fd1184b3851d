import Mathlib.Data.Int.Order.Basic
import Mathlib.Order.MinMax
import Invoicing.Proofs.Precedence.Schedule

/-!
# What decides the order

An item joins the queue when the last of its needs leaves it, and those that join it
together do so in their own order. As the queue is left in the order in which it is
joined, the place of an item is decided by the place of the last item that it needs
and, where that is the same, by its rank among the items.
-/
namespace Invoicing.Precedence

variable {α : Type} [DecidableEq α] {needs : α → List α} {rank : α → Nat}
  {order done queue items items' : List α} {waiting : Waiting α} {a b : α}

/-- The place in an order of the last of some items, and -1 if there are none. -/
def lastPlace (order items : List α) : Int :=
  (items.map fun a => (order.idxOf a : Int)).foldr max (-1)

theorem lastPlace_le_iff {i : Int} :
    lastPlace order items ≤ i ↔ -1 ≤ i ∧ ∀ a ∈ items, (order.idxOf a : Int) ≤ i := by
  induction items with
  | nil => simp [lastPlace]
  | cons a items ih =>
    have hcons : lastPlace order (a :: items) = max (order.idxOf a : Int) (lastPlace order items) :=
      rfl
    rw [hcons, max_le_iff, ih, List.forall_mem_cons]
    exact and_left_comm

/-- The last place depends on which items there are only. -/
theorem lastPlace_congr (h : ∀ a, a ∈ items ↔ a ∈ items') :
    lastPlace order items = lastPlace order items' := by
  refine eq_of_forall_ge_iff fun i => ?_
  simp only [lastPlace_le_iff, h]

theorem lastPlace_eq {i : Nat} (ha : a ∈ items) (hi : order.idxOf a = i)
    (hle : ∀ b ∈ items, order.idxOf b ≤ i) : lastPlace order items = i := by
  refine le_antisymm (lastPlace_le_iff.mpr ⟨by omega, fun b hb => ?_⟩) ?_
  · exact_mod_cast hle b hb
  · rw [← hi]
    exact (lastPlace_le_iff.mp le_rfl).2 a ha

/-- One item joins the queue before another: the last of its needs has an earlier place, or the
same one and its own rank is lower. -/
def JoinsBefore (needs : α → List α) (rank : α → Nat) (order : List α) (a b : α) : Prop :=
  lastPlace order (needs a) < lastPlace order (needs b) ∨
    lastPlace order (needs a) = lastPlace order (needs b) ∧ rank a < rank b

theorem JoinsBefore.asymm (h : JoinsBefore needs rank order a b) :
    ¬ JoinsBefore needs rank order b a := by
  unfold JoinsBefore at *
  omega

/-- What holds while items are placed, the ones done being listed from the last: whatever has
joined the queue has joined it in order, and what waits is ranked. -/
structure Joining (needs : α → List α) (rank : α → Nat) (order done queue : List α)
    (waiting : Waiting α) : Prop where
  placing : Placing needs done queue waiting
  placed : done.reverse ++ place queue waiting = order
  closed : ∀ a ∈ done, ∀ b ∈ needs a, b ∈ done
  joined : (done.reverse ++ queue).Pairwise (JoinsBefore needs rank order)
  ranked : (waiters waiting).Pairwise (rank · < rank ·)

namespace Joining

/-- What is done keeps its place. -/
theorem idxOf_lt (h : Joining needs rank order done queue waiting) (ha : a ∈ done) :
    order.idxOf a < done.length := by
  have ha := List.mem_reverse.mpr ha
  rw [← h.placed, List.idxOf_append_of_mem ha, ← List.length_reverse]
  exact List.idxOf_lt_length_of_mem ha

/-- The first item of the queue is the next to have a place. -/
theorem idxOf_head (h : Joining needs rank order done (a :: queue) waiting) :
    order.idxOf a = done.length := by
  have hfresh : a ∉ done.reverse := by
    rw [List.mem_reverse]
    exact h.placing.fresh a List.mem_cons_self
  rw [← h.placed, place, List.idxOf_append_of_notMem hfresh, List.idxOf_cons_self,
    List.length_reverse, Nat.add_zero]

/-- Whatever has joined the queue needs only what is done. -/
theorem lastPlace_lt (h : Joining needs rank order done queue waiting)
    (ha : a ∈ done.reverse ++ queue) : lastPlace order (needs a) < done.length := by
  have hdone : ∀ b ∈ needs a, b ∈ done := by
    rcases List.mem_append.mp ha with ha | ha
    · exact h.closed a (List.mem_reverse.mp ha)
    · exact h.placing.ready a ha
  have hle : lastPlace order (needs a) ≤ done.length - 1 := by
    refine lastPlace_le_iff.mpr ⟨by omega, fun b hb => ?_⟩
    have := h.idxOf_lt (hdone b hb)
    omega
  omega

/-- An item that joins the queue needs the one that has just left it, and nothing after that. -/
theorem lastPlace_freed (h : Joining needs rank order done (a :: queue) waiting)
    (hb : b ∈ freed (release a waiting)) : lastPlace order (needs b) = done.length := by
  have ha : a ∈ needs b := by
    obtain ⟨rest, hm, hrest⟩ := mem_release_iff.mp (mem_freed_iff.mp hb)
    obtain ⟨c, hc⟩ := List.exists_mem_of_ne_nil rest (h.placing.held b rest hm)
    have hca : c = a := by simpa using List.filter_eq_nil_iff.mp hrest.symm c hc
    rw [h.placing.left b rest hm, hca] at hc
    exact List.mem_of_mem_filter hc
  refine lastPlace_eq ha h.idxOf_head fun c hc => ?_
  rcases List.mem_cons.mp (h.placing.next.ready b (List.mem_append_right queue hb) c hc) with
    rfl | hdone
  · exact h.idxOf_head.le
  · exact (h.idxOf_lt hdone).le

theorem ranked_next (h : Joining needs rank order done queue waiting) (a : α) :
    (freed (release a waiting)).Pairwise (rank · < rank ·) ∧
      (waiters (held (release a waiting))).Pairwise (rank · < rank ·) := by
  have hranked := h.ranked
  rw [← waiters_release a] at hranked
  exact ⟨hranked.sublist (List.filter_sublist.map Prod.fst),
    hranked.sublist (List.filter_sublist.map Prod.fst)⟩

/-- The first item of the queue leaves it. -/
theorem next (h : Joining needs rank order done (a :: queue) waiting) :
    Joining needs rank order (a :: done) (queue ++ freed (release a waiting))
      (held (release a waiting)) where
  placing := h.placing.next
  placed := by
    have hplaced := h.placed
    rw [place] at hplaced
    simpa using hplaced
  closed := by
    intro b hb c hc
    rcases List.mem_cons.mp hb with rfl | hb
    · exact List.mem_cons_of_mem _ (h.placing.ready _ List.mem_cons_self c hc)
    · exact List.mem_cons_of_mem a (h.closed b hb c hc)
  joined := by
    have hsplit : (a :: done).reverse ++ (queue ++ freed (release a waiting)) =
        (done.reverse ++ a :: queue) ++ freed (release a waiting) := by simp
    rw [hsplit, List.pairwise_append]
    refine ⟨h.joined, (h.ranked_next a).1.imp_of_mem ?_, ?_⟩
    · intro b c hb hc hrank
      exact .inr ⟨(h.lastPlace_freed hb).trans (h.lastPlace_freed hc).symm, hrank⟩
    · intro b hb c hc
      refine .inl ?_
      rw [h.lastPlace_freed hc]
      exact h.lastPlace_lt hb
  ranked := (h.ranked_next a).2

theorem pairwise (h : Joining needs rank order done queue waiting) :
    order.Pairwise (JoinsBefore needs rank order) := by
  fun_induction place queue waiting generalizing done with
  | case1 waiting =>
    have hjoined := h.joined
    have hplaced := h.placed
    rw [place] at hplaced
    rwa [hplaced] at hjoined
  | case2 waiting a queue ih => exact ih h.next

end Joining

variable {p : Precedence α} {roots : List α}

/-- At first the items without needs have joined the queue. -/
theorem joining_waitingIn {scope : List α} (hscope : scope.Nodup)
    (hrank : scope.Pairwise (rank · < rank ·)) :
    Joining (p.needsIn scope) rank (p.order scope) [] (freed (p.waitingIn scope))
      (held (p.waitingIn scope)) where
  placing := placing_waitingIn hscope
  placed := rfl
  closed := fun _ ha => absurd ha List.not_mem_nil
  joined := by
    have hnone : ∀ a ∈ freed (p.waitingIn scope), p.needsIn scope a = [] := fun a ha =>
      List.eq_nil_iff_forall_not_mem.mpr fun b hb =>
        absurd ((placing_waitingIn hscope).ready a ha b hb) List.not_mem_nil
    rw [← waiters_waitingIn (p := p) scope] at hrank
    refine (hrank.sublist (List.filter_sublist.map Prod.fst)).imp_of_mem ?_
    intro a b ha hb hab
    refine .inr ⟨?_, hab⟩
    rw [hnone a ha, hnone b hb]
  ranked := by
    rw [← waiters_waitingIn (p := p) scope] at hrank
    exact hrank.sublist (List.filter_sublist.map Prod.fst)

/-- What an item of a scope needs is in the scope. -/
theorem needsIn_scope (ha : a ∈ p.scope roots) : p.needsIn (p.scope roots) a = p.needs a :=
  List.filter_eq_self.mpr fun _ hb => decide_eq_true (mem_scope_of_needs ha hb)

/-- In an order items stand as they have joined the queue. -/
theorem pairwise_order (hrank : p.items.Pairwise (rank · < rank ·)) (roots : List α) :
    (p.order (p.scope roots)).Pairwise
      (JoinsBefore p.needs rank (p.order (p.scope roots))) := by
  have hscope : (p.scope roots).Pairwise (rank · < rank ·) := hrank.sublist List.filter_sublist
  refine (joining_waitingIn (p.nodup_scope roots) hscope).pairwise.imp_of_mem ?_
  intro a b ha hb hab
  rwa [JoinsBefore, needsIn_scope (mem_of_mem_order ha), needsIn_scope (mem_of_mem_order hb)] at hab

/-- In a list of related items one stands before another if it is related to it. -/
theorem idxOf_lt_iff_of_pairwise {r : α → α → Prop} (hasymm : ∀ a b, r a b → ¬ r b a)
    {l : List α} (h : l.Pairwise r) (ha : a ∈ l) (hb : b ∈ l) (hne : a ≠ b) :
    l.idxOf a < l.idxOf b ↔ r a b := by
  have hrel : ∀ {a b}, a ∈ l → b ∈ l → l.idxOf a < l.idxOf b → r a b := by
    intro a b ha hb hlt
    have hr := List.pairwise_iff_getElem.mp h _ _ (List.idxOf_lt_length_of_mem ha)
      (List.idxOf_lt_length_of_mem hb) hlt
    rwa [List.getElem_idxOf, List.getElem_idxOf] at hr
  refine ⟨hrel ha hb, fun hab => ?_⟩
  rcases Nat.lt_trichotomy (l.idxOf a) (l.idxOf b) with hlt | heq | hlt
  · exact hlt
  · exact absurd ((List.idxOf_inj ha).mp heq) hne
  · exact absurd (hrel hb ha hlt) (hasymm a b hab)

/-- Of two items that are put in order the one stands first that has joined the queue first. -/
theorem idxOf_order_lt_iff (hrank : p.items.Pairwise (rank · < rank ·))
    (ha : a ∈ p.order (p.scope roots)) (hb : b ∈ p.order (p.scope roots)) (hne : a ≠ b) :
    (p.order (p.scope roots)).idxOf a < (p.order (p.scope roots)).idxOf b ↔
      JoinsBefore p.needs rank (p.order (p.scope roots)) a b :=
  idxOf_lt_iff_of_pairwise (fun _ _ => JoinsBefore.asymm) (pairwise_order hrank roots) ha hb hne

end Invoicing.Precedence
