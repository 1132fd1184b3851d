import Invoicing.Service.RateLimit
import Mathlib.Data.List.Basic

/-!
# Rationed requests

Requests come one after the other at one instant. The limiter has made as many
checks as requests came that are not exempt, so whether it lets the next one
through depends on their number alone. The service sees the requests that are
let through, and no others.
-/
namespace Invoicing.Service

section

variable {α β σ : Type} {step : σ → α → β × σ} {s : σ} {a : α} {as : List α}

theorem answerAll_cons : answerAll step s (a :: as) =
    ((step s a).1 :: (answerAll step (step s a).2 as).1, (answerAll step (step s a).2 as).2) :=
  rfl

theorem length_answerAll : (answerAll step s as).1.length = as.length := by
  induction as generalizing s with
  | nil => rfl
  | cons a as ih => rw [answerAll_cons, List.length_cons, List.length_cons, ih]

/-- An input is answered in the state behind the inputs before it. -/
theorem getElem?_answerAll (i : Nat) : (answerAll step s as).1[i]? =
    as[i]?.map fun a => (step (answerAll step s (as.take i)).2 a).1 := by
  induction as generalizing s i with
  | nil => rfl
  | cons a as ih =>
    cases i with
    | zero => rfl
    | succ i => exact ih i

end

namespace Limiter

variable {l : Limiter} {n k : Nat}

/-- The limiter behind so many checks. -/
def after (l : Limiter) : Nat → l.State
  | 0 => l.start
  | k + 1 => (l.check (l.after k)).2

/-- Whether a check lets something through that comes behind so many others. -/
def lets (l : Limiter) (k : Nat) : Bool :=
  (l.check (l.after k)).1

/-- Exactly so many are let through, however many more checks there are. -/
def Admits (l : Limiter) (n : Nat) : Prop :=
  ∀ k, n ≤ k → (List.range k).countP l.lets = n

/-- They are the first ones. -/
theorem Admits.lets_iff (h : l.Admits n) : l.lets k ↔ k < n := by
  have hn := h n (Nat.le_refl n)
  rcases Nat.lt_or_ge k n with hk | hk
  · have hall := List.countP_eq_length.mp (hn.trans List.length_range.symm)
    exact iff_of_true (hall k (List.mem_range.mpr hk)) hk
  · have hnext := h (k + 1) (Nat.le_succ_of_le hk)
    rw [List.range_succ, List.countP_append, h k hk, List.countP_singleton] at hnext
    refine iff_of_false (fun hlets => ?_) (Nat.not_lt.mpr hk)
    rw [if_pos hlets] at hnext
    omega

theorem check_counting (q : Quota) (taken : Nat) : (counting q).check taken =
    if taken < q.requestsPerMinute then (true, taken + 1) else (false, taken) :=
  rfl

theorem after_counting (q : Quota) (k : Nat) :
    (counting q).after k = min k q.requestsPerMinute := by
  induction k with
  | zero => exact (Nat.zero_min _).symm
  | succ k ih =>
    rw [after, ih, check_counting]
    split
    · change min k q.requestsPerMinute + 1 = min (k + 1) q.requestsPerMinute
      omega
    · change min k q.requestsPerMinute = min (k + 1) q.requestsPerMinute
      omega

theorem lets_counting (q : Quota) (k : Nat) : (counting q).lets k ↔ k < q.requestsPerMinute := by
  rw [lets, after_counting, check_counting]
  split
  · exact iff_of_true rfl (by omega)
  · exact iff_of_false Bool.false_ne_true (by omega)

/-- A limiter that counts lets through as many as its quota says. -/
theorem admits_counting (q : Quota) : (counting q).Admits q.requestsPerMinute := by
  intro k hk
  induction hk with
  | refl =>
    refine (List.countP_eq_length.mpr fun k hk => ?_).trans List.length_range
    exact (lets_counting q k).mpr (List.mem_range.mp hk)
  | step hk ih =>
    have hlets := mt (lets_counting q _).mp (Nat.not_lt.mpr hk)
    rw [List.range_succ, List.countP_append, ih, List.countP_singleton, if_neg hlets, Nat.add_zero]

end Limiter

variable {β σ : Type} {q : Quota} {l : Limiter} {inner : σ → Request → β × σ} {t : l.State} {s : σ}
  {r : Request} {rs : List Request} {n k : Nat}

theorem isExempt_iff : r.isExempt ↔ r.path = "/health" := by
  simp [Request.isExempt, exemptPaths]

/-- An exempt request is passed on, and the limiter stays as it is. -/
theorem call_of_exempt (h : r.path = "/health") :
    q.call l inner (t, s) r = (.passed (inner s r).1, (t, (inner s r).2)) := by
  simp [Quota.call, Limiter.admit, isExempt_iff.mpr h]

/-- Any other request takes a check, and reaches the service if it is let through. -/
theorem call_of_counted (h : r.path ≠ "/health") :
    q.call l inner (l.after k, s) r =
      if l.lets k then (.passed (inner s r).1, (l.after (k + 1), (inner s r).2))
      else (.refused q.refusal, (l.after (k + 1), s)) := by
  have hcounted : ¬ r.isExempt := fun hexempt => h (isExempt_iff.mp hexempt)
  rw [Quota.call, Limiter.admit, if_neg hcounted]
  rfl

/-- How many of the requests take a check. -/
def counted (rs : List Request) : Nat :=
  rs.countP (·.path ≠ "/health")

theorem counted_cons : counted (r :: rs) = counted rs + if r.path = "/health" then 0 else 1 := by
  rw [counted, List.countP_cons]
  by_cases h : r.path = "/health" <;> simp [h, counted]

/-- The limiter has made as many checks as requests took one. -/
theorem limiter_answerAll :
    (answerAll (q.call l inner) (l.after k, s) rs).2.1 = l.after (k + counted rs) := by
  induction rs generalizing k s with
  | nil => rfl
  | cons r rs ih =>
    rw [answerAll_cons, counted_cons]
    by_cases h : r.path = "/health"
    · rw [call_of_exempt h, if_pos h, ih, Nat.add_zero]
    · have hstep : (q.call l inner (l.after k, s) r).2 =
          (l.after (k + 1), (q.call l inner (l.after k, s) r).2.2) := by
        rw [call_of_counted h]
        split <;> rfl
      rw [hstep, if_neg h, ih]
      congr 1
      omega

theorem limiter_answers : (q.answers l inner s rs).2.1 = l.after (counted rs) := by
  have h : (answerAll (q.call l inner) (l.after 0, s) rs).2.1 = l.after (0 + counted rs) :=
    limiter_answerAll
  rwa [Nat.zero_add] at h

/-- The answer of the service, if there is one. -/
def Answer.passed? : Answer β → Option β
  | .passed answer => some answer
  | .refused _ => none

/-- The requests that are passed on. -/
def passedOn (rs : List Request) (answers : List (Answer β)) : List Request :=
  ((rs.zip answers).filter (·.2.passed?.isSome)).map (·.1)

/-- Either the service answers, or it does not see the request. -/
theorem call_cases (q : Quota) (l : Limiter) (inner : σ → Request → β × σ) (t : l.State) (s : σ)
    (r : Request) : ∃ t', q.call l inner (t, s) r = (.passed (inner s r).1, (t', (inner s r).2)) ∨
      q.call l inner (t, s) r = (.refused q.refusal, (t', s)) := by
  unfold Quota.call
  obtain ⟨passes, t'⟩ := l.admit t r
  refine ⟨t', ?_⟩
  cases passes with
  | true => exact .inl rfl
  | false => exact .inr rfl

/-- The service answers the requests that are passed on as if there were no others. -/
theorem answerAll_passedOn :
    answerAll inner s (passedOn rs (answerAll (q.call l inner) (t, s) rs).1) =
      ((answerAll (q.call l inner) (t, s) rs).1.filterMap Answer.passed?,
        (answerAll (q.call l inner) (t, s) rs).2.2) := by
  induction rs generalizing t s with
  | nil => rfl
  | cons r rs ih =>
    rw [answerAll_cons]
    obtain ⟨t', h | h⟩ := call_cases q l inner t s r
    · rw [h]
      exact congrArg (fun run => ((inner s r).1 :: run.1, run.2)) ih
    · rw [h]
      exact ih

/-- A request is answered by the number of those before it that took a check. -/
theorem getElem?_answers (q : Quota) (l : Limiter) (inner : σ → Request → β × σ) (s : σ) {i : Nat}
    (h : rs[i]? = some r) : ∃ s', (q.answers l inner s rs).1[i]? =
      some (q.call l inner (l.after (counted (rs.take i)), s') r).1 := by
  refine ⟨(q.answers l inner s (rs.take i)).2.2, ?_⟩
  rw [← limiter_answers (s := s), Quota.answers, getElem?_answerAll, h]
  rfl

theorem getElem?_answers_of_counted (q : Quota) (hl : l.Admits n) (inner : σ → Request → β × σ)
    (s : σ) {i : Nat} (h : rs[i]? = some r) (hr : r.path ≠ "/health") :
    ∃ answer, (q.answers l inner s rs).1[i]? =
      some (if counted (rs.take i) < n then .passed answer else .refused q.refusal) := by
  obtain ⟨s', hanswer⟩ := getElem?_answers q l inner s h
  rw [call_of_counted hr] at hanswer
  refine ⟨(inner s' r).1, hanswer.trans ?_⟩
  by_cases hn : counted (rs.take i) < n
  · rw [if_pos (hl.lets_iff.mpr hn), if_pos hn]
  · rw [if_neg (mt hl.lets_iff.mp hn), if_neg hn]

/-- What becomes of requests that come at one instant. -/
structure Rationed (q : Quota) (l : Limiter) (inner : σ → Request → β × σ) (s : σ)
    (rs : List Request) : Prop where
  length : (q.answers l inner s rs).1.length = rs.length
  exempt : ∀ (i : Nat) (r : Request), rs[i]? = some r → r.path = "/health" →
    ∃ answer, (q.answers l inner s rs).1[i]? = some (.passed answer)
  passed : ∀ (i : Nat) (r : Request), rs[i]? = some r → r.path ≠ "/health" →
    ((∃ answer, (q.answers l inner s rs).1[i]? = some (.passed answer)) ↔
      (rs.take i).countP (·.path ≠ "/health") < q.requestsPerMinute)
  refused : ∀ (i : Nat) (r : Request), rs[i]? = some r → r.path ≠ "/health" →
    q.requestsPerMinute ≤ (rs.take i).countP (·.path ≠ "/health") →
      ∃ refusal, (q.answers l inner s rs).1[i]? = some (.refused refusal) ∧ refusal.status = 429
  taken : (q.answers l inner s rs).2.1 = l.after (rs.countP (·.path ≠ "/health"))
  reached : answerAll inner s (passedOn rs (q.answers l inner s rs).1) =
    ((q.answers l inner s rs).1.filterMap Answer.passed?, (q.answers l inner s rs).2.2)

theorem requestsPerMinute_of_ofNat? (h : Quota.ofNat? n = .ok q) : q.requestsPerMinute = n := by
  unfold Quota.ofNat? at h
  split at h
  · cases h; rfl
  · cases h

/-- Behind a limiter that admits as many as an accepted quota says, requests are rationed. -/
theorem answers_rationed (hq : Quota.ofNat? n = .ok q) (hl : l.Admits n)
    (inner : σ → Request → β × σ) (s : σ) (rs : List Request) : Rationed q l inner s rs where
  length := length_answerAll
  exempt i r h hr := by
    obtain ⟨s', hanswer⟩ := getElem?_answers q l inner s h
    rw [call_of_exempt hr] at hanswer
    exact ⟨_, hanswer⟩
  passed i r h hr := by
    rw [requestsPerMinute_of_ofNat? hq]
    obtain ⟨answer, hanswer⟩ := getElem?_answers_of_counted q hl inner s h hr
    rw [hanswer]
    by_cases hn : counted (rs.take i) < n
    · rw [if_pos hn]
      exact iff_of_true ⟨answer, rfl⟩ hn
    · rw [if_neg hn]
      exact iff_of_false (by simp) hn
  refused i r h hr hn := by
    rw [requestsPerMinute_of_ofNat? hq] at hn
    obtain ⟨answer, hanswer⟩ := getElem?_answers_of_counted q hl inner s h hr
    have hrest : ¬ counted (rs.take i) < n := Nat.not_lt.mpr hn
    rw [if_neg hrest] at hanswer
    exact ⟨q.refusal, hanswer, rfl⟩
  taken := limiter_answers
  reached := answerAll_passedOn

def sampleQuota : Quota := ⟨2, Nat.two_pos⟩

/-- Requests of which two are exempt. -/
def sampleRequests : List Request :=
  ["/calc", "/health", "/calc", "/calc", "/health?full", "/health/"].map fun target =>
    { method := "GET", target }

/-- The service counts what it sees. -/
def countRequests (seen : Nat) (_ : Request) : Nat × Nat :=
  (seen, seen + 1)

/-- Four requests reach the service, and the two that come too late do not. -/
theorem answers_sampleRequests_rationed :
    Rationed sampleQuota (.counting sampleQuota) countRequests 0 sampleRequests ∧
      (sampleQuota.answers (.counting sampleQuota) countRequests 0 sampleRequests).1.map
        Answer.passed? = [some 0, some 1, some 2, none, some 3, none] := by
  have hq : Quota.ofNat? 2 = .ok sampleQuota := rfl
  exact ⟨answers_rationed hq (Limiter.admits_counting sampleQuota) countRequests 0 sampleRequests,
    by decide +kernel⟩

end Invoicing.Service
