import Invoicing.Distinct
import Mathlib.Data.Set.Function

/-!
# Lists under a map

A list whose elements are mapped is filtered, folded and thinned out as the list
itself is, if the conditions and the steps see no difference.
-/
namespace Invoicing

variable {α β γ δ ε σ τ : Type} {f : α → β} {as : List α}

theorem filter_map_of_congr {p : β → Bool} {q : α → Bool} (h : ∀ a ∈ as, p (f a) = q a) :
    (as.map f).filter p = (as.filter q).map f := by
  rw [List.filter_map]
  exact congrArg (List.map f) (List.filter_congr h)

/-- Where the map is injective, what comes from an element is in the list if the element is. -/
theorem mem_map_iff_of_injOn {s : Set α} (hf : Set.InjOn f s) {a : α} (has : ∀ b ∈ as, b ∈ s)
    (ha : a ∈ s) : f a ∈ as.map f ↔ a ∈ as := by
  constructor
  · intro h
    obtain ⟨b, hb, hab⟩ := List.mem_map.mp h
    exact hf (has b hb) ha hab ▸ hb
  · exact List.mem_map_of_mem

/-- The same elements are kept if the same ones have one key. -/
theorem distinctBy_map [DecidableEq γ] [DecidableEq δ] {key : α → γ} {key' : β → δ}
    (h : ∀ a ∈ as, ∀ b ∈ as, key' (f a) = key' (f b) ↔ key a = key b) :
    distinctBy key' (as.map f) = (distinctBy key as).map f := by
  induction as with
  | nil => rfl
  | cons a as ih =>
    have hrest := ih fun b hb c hc => h b (List.mem_cons_of_mem a hb) c (List.mem_cons_of_mem a hc)
    rw [List.map_cons, distinctBy_cons, distinctBy_cons, List.map_cons, hrest]
    refine congrArg (f a :: ·) (filter_map_of_congr fun b hb => ?_)
    have hb := (distinctBy_sublist key as).subset hb
    simp only [ne_eq, h b (List.mem_cons_of_mem a hb) a List.mem_cons_self]

/-- Two folds keep step if each of their steps does, as long as an invariant lasts. -/
theorem foldl_map_of_step {step : σ → α → σ} {step' : τ → β → τ} {r : σ → τ} {P : σ → Prop} {s : σ}
    (hstep : ∀ a ∈ as, ∀ s, P s → P (step s a) ∧ step' (r s) (f a) = r (step s a)) (hs : P s) :
    P (as.foldl step s) ∧ (as.map f).foldl step' (r s) = r (as.foldl step s) := by
  induction as generalizing s with
  | nil => exact ⟨hs, rfl⟩
  | cons a as ih =>
    obtain ⟨ha, has⟩ := List.forall_mem_cons.mp hstep
    obtain ⟨hnext, hsame⟩ := ha s hs
    rw [List.map_cons, List.foldl_cons, List.foldl_cons, hsame]
    exact ih has hnext

/-- Computations one after the other differ in their error only if each of them does. -/
theorem mapM_map_mapError {g : α → Except ε γ} {g' : β → Except δ γ} {e : ε → δ}
    (h : ∀ a ∈ as, g' (f a) = (g a).mapError e) : (as.map f).mapM g' = (as.mapM g).mapError e := by
  induction as with
  | nil => rfl
  | cons a as ih =>
    obtain ⟨ha, has⟩ := List.forall_mem_cons.mp h
    rw [List.map_cons, List.mapM_cons, List.mapM_cons, ha, ih has]
    cases g a with
    | error _ => rfl
    | ok b =>
      cases as.mapM g with
      | error _ => rfl
      | ok bs => rfl

end Invoicing
