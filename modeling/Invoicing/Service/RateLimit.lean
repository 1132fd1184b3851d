import Invoicing.Service.Exchange

/-!
A quota of requests that come at one instant. Exempt requests always pass and
take nothing; of the others a limiter lets as many pass as the quota says, and
the rest are refused without being looked at. The service behind may remember
what it has seen.
-/
namespace Invoicing.Service

structure Quota where
  requestsPerMinute : Nat
  positive : 0 < requestsPerMinute

/-- A quota lets something through. -/
def Quota.ofNat? (n : Nat) : Except Failure Quota :=
  if h : 0 < n then .ok ⟨n, h⟩ else .error (.configuration "Rate limit must be greater than 0")

def exemptPaths : List String := ["/health"]

def Request.isExempt (r : Request) : Bool :=
  exemptPaths.contains r.path

def Quota.refusal (q : Quota) : Response :=
  .ofFailure (.rateLimitExceeded s!"Maximum {q.requestsPerMinute} requests per minute")

/-- What is asked whether one thing more fits into a quota at this instant. -/
structure Limiter where
  State : Type
  start : State
  check : State → Bool × State

/-- Lets through as many as the quota says. -/
def Limiter.counting (q : Quota) : Limiter where
  State := Nat
  start := 0
  check taken := if taken < q.requestsPerMinute then (true, taken + 1) else (false, taken)

/-- Whether a request is let through. The limiter is not asked about exempt ones. -/
def Limiter.admit (l : Limiter) (t : l.State) (r : Request) : Bool × l.State :=
  if r.isExempt then (true, t) else l.check t

/-- What the service answers, or a refusal in its place. -/
inductive Answer (β : Type) where
  | passed (answer : β)
  | refused (refusal : Response)

def Answer.response : Answer Response → Response
  | .passed response => response
  | .refused refusal => refusal

variable {α β σ : Type}

/-- One request. The state is that of the limiter and that of the service. -/
def Quota.call (q : Quota) (l : Limiter) (inner : σ → Request → β × σ) (state : l.State × σ)
    (r : Request) : Answer β × (l.State × σ) :=
  let (passes, t) := l.admit state.1 r
  if passes then
    let (answer, s) := inner state.2 r
    (.passed answer, (t, s))
  else (.refused q.refusal, (t, state.2))

/-- What comes of one input after the other, and the state behind them. -/
def answerAll (step : σ → α → β × σ) (s : σ) : List α → List β × σ
  | [] => ([], s)
  | a :: as =>
    let (answer, s') := step s a
    let (answers, s'') := answerAll step s' as
    (answer :: answers, s'')

/-- The answers to requests that come at one instant. -/
def Quota.answers (q : Quota) (l : Limiter) (inner : σ → Request → β × σ) (s : σ)
    (rs : List Request) : List (Answer β) × (l.State × σ) :=
  answerAll (q.call l inner) (l.start, s) rs

/-- The responses to requests that come at one instant, by a service that remembers nothing. -/
def Quota.serve (q : Quota) (inner : Request → Response) (rs : List Request) : List Response :=
  (q.answers (.counting q) (fun _ r => (inner r, ())) () rs).1.map Answer.response

end Invoicing.Service
