import Stepwise.Watched
import Stepwise.Proofs.Job.Terms

/-! # Nested computations

The steps of a job may be jobs again, to any depth, and any of them may be watched. A `Nest U M F β` is such a
computation in a world `U`: it is made from an `M`, its states are `F`, and it resolves to a `β`.

* `Nest.leaf` is an innermost step, whatever it does when it is polled. It sees the waker that it may leave
  with whoever can move it on. `Nest.job` has the steps of another nest, which its own step only names;
  `Nest.any` has states of different kinds, so that steps of one job may be nests of different shapes.
* All source, filter and step calls act on `U`, without a bound on what they do. Beside `U` there is a `Trace`
  of the calls at all levels, the latest first.
* `Nest.attend` polls a nest until it does not wait any more. Each poll from outside has a number, which
  stands for its waker, and the world `U` may change in any way between two polls.
-/

namespace Stepwise
set_option autoImplicit false

namespace Nest

/-- What happens in a nest, at any level. -/
inductive Event
  /-- A poll from outside. -/
  | began (waker : Nat)
  | pulled
  | tested
  | requested
  /-- A step of a job is polled. -/
  | polled
  /-- An innermost step is polled with this waker. -/
  | reached (waker : Nat)
  /-- The innermost step waits. -/
  | waits
  /-- A filter or an innermost step failed. -/
  | failed (e : Failure)
  /-- The message of a failure was composed. -/
  | composed

structure Trace where
  waker : Nat := 0
  events : List Event := []

def Trace.note (event : Event) (tr : Trace) : Trace := { tr with events := event :: tr.events }

/-- A poll from outside begins, with a waker of its own. -/
def Trace.begin (tr : Trace) : Trace where
  waker := tr.waker + 1
  events := .began (tr.waker + 1) :: tr.events

/-- What a job calls in the world `U`. The step names the computation that it makes. -/
structure Calls (U I α P G M : Type) where
  next : Next U I α
  test : P → Call α → Effect U (Outcome Bool × P)
  step : G → Call α → Effect U (M × G)

end Nest

open Nest (Event Trace Calls) in
/-- Computations nested in each other. -/
inductive Nest (U : Type) : Type → Type → Type → Type 1
  | leaf {F β : Type} (poll : Nat → Poller U F β) : Nest U F F β
  | job {I α P G M F β : Type} (calls : Calls U I α P G M) (again : β → Bool)
      (summand : β → Int32) (inner : Nest U M F β) :
      Nest U (Plan I α × P × G) (Job I α P G F) (Option Int32)
  | watched {M F N β : Type} (message : N → Effect U String) (inner : Nest U M F β) :
      Nest U (M × N × String) (Watched F N) β
  | mapped {M F β γ : Type} (f : β → γ) (inner : Nest U M F β) : Nest U M F γ
  | any {ι β : Type} {M F : ι → Type} (inner : ∀ i, Nest U (M i) (F i) β) :
      Nest U (Σ i, M i) (Σ i, F i) β

namespace Nest

variable {U I α P G M F N β : Type}

/-! ## Calls with a trace -/

def note (event : Event) : Effect (U × Trace) Unit :=
  Effect.changes fun ws => (ws.1, ws.2.note event)

/-- Note what an innermost step or a filter has come to, where it does not simply go on. -/
def noteAnswer : Poll β → Effect (U × Trace) Unit
  | .pending => note .waits
  | .ready (.error e) => note (.failed e)
  | _ => pure ()

def reach (poll : Nat → Poller U F β) : Poller (U × Trace) F β := fun x => do
  let waker ← Effect.reads fun ws => ws.2.waker
  note (.reached waker)
  let r ← (poll waker x).within Trace
  noteAnswer r.1
  pure r

/-- The calls of a job with a trace. The computation that the step names is made at once. -/
def kit (calls : Calls U I α P G M) (again : β → Bool) (summand : β → Int32)
    (make : M → Effect (U × Trace) F) (poll : Poller (U × Trace) F β) :
    Kit (U × Trace) I α P G F β where
  next source := do
    note .pulled
    (calls.next source).within Trace
  test p call := do
    note .tested
    let r ← (calls.test p call).within Trace
    noteAnswer (.ready r.1)
    pure r
  step g call := do
    note .requested
    let r ← (calls.step g call).within Trace
    let x ← make r.1
    pure (x, r.2)
  poll x := do
    note .polled
    poll x
  isTrue := again
  summand

def compose (message : N → Effect U String) (n : N) : Effect (U × Trace) String := do
  note .composed
  (message n).within Trace

/-! ## Making and polling -/

def start (fuel : Nat) {M F β : Type} : Nest U M F β → M → Effect (U × Trace) F
  | .leaf _, x => pure x
  | .job calls again summand inner, (plan, filter, consumer) =>
    let k := kit calls again summand (start fuel inner) fun x => pure (.pending, x)
    Job.start k.next k.step fuel plan filter consumer
  | .watched _ inner, (m, n, sql) => do
    let x ← start fuel inner m
    pure (.active x n sql)
  | .mapped _ inner, m => start fuel inner m
  | .any inner, ⟨i, m⟩ => do
    let x ← start fuel (inner i) m
    pure ⟨i, x⟩

def poll [Logging U] (fuel : Nat) {M F β : Type} : Nest U M F β → Poller (U × Trace) F β
  | .leaf poll => reach poll
  | .job calls again summand inner =>
    Job.poll (kit calls again summand (start fuel inner) (poll fuel inner)) fuel
  | .watched message inner => Watched.poll (poll fuel inner) (compose message)
  | .mapped f inner => (poll fuel inner).map f
  | .any inner => fun x => do
    let r ← poll fuel (inner x.1) x.2
    pure (r.1, ⟨x.1, r.2⟩)

/-- Poll until the answer is not to wait, at most once after each of the gaps and once before them. -/
def attend [Logging U] (fuel : Nat) (t : Nest U M F β) :
    List (U → U) → F → Effect (U × Trace) (Poll β × F)
  | [], x => do
    Effect.changes fun ws => (ws.1, ws.2.begin)
    t.poll fuel x
  | gap :: gaps, x => do
    Effect.changes fun ws => (ws.1, ws.2.begin)
    let r ← t.poll fuel x
    match r.1 with
    | .pending => do
      Effect.changes fun ws => (gap ws.1, ws.2)
      t.attend fuel gaps r.2
    | _ => pure r

end Nest

end Stepwise
