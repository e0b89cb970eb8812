import Stepwise.Job
import Stepwise.Meter
import Stepwise.Muted
import Stepwise.Watched

/-!
# Trials

A trial runs one job over a small input, with steps that a meter makes, and then checks what came
of it.

* A `Hall` is the world that trials share: the log, the count of wake-ups, the meter, and the
  calls of filter and step in order.
* `Trial.perform` starts a trial and `Act.poll` polls it. A trial whose job is done resolves when
  all its expectations hold, and panics with the first one that does not.
-/

namespace Stepwise.Suite
set_option autoImplicit false

inductive Item
  | number (n : Int)
  | text (s : String)
  | entry (key : Int) (s : String)
deriving DecidableEq

/-- What trials share. -/
structure Hall where
  level : Level
  /-- The records of the log, the latest first. -/
  records : List Record := []
  woken : Nat := 0
  meter : Meter := {}
  /-- The calls of the filter, the latest first. -/
  tested : List (Call Item) := []
  /-- The calls of the step, the latest first. -/
  visited : List (Call Item) := []

instance : Logging Hall where
  level h := h.level
  setLevel level h := { h with level }
  write record h := { h with records := record :: h.records }

/-- The step that is requested for a call. -/
inductive Request
  | meter (outcome : Outcome Int32)
  | newMeter (outcome : Outcome Int32)
  /-- A step that is resolved and that no meter counts. -/
  | direct (outcome : Outcome Int32)

/-- What is to hold when a job is done. -/
inductive Expectation
  | resolves (value : Option Int32)
  | fails (cause : Cause)
  | tests (calls : List (Call Item))
  | visits (calls : List (Call Item))
  | testCount (n : Nat)
  | visitCount (n : Nat)
  | requested (n : Nat)
  | finished (n : Nat)
  | sequential

/-- A job with what it calls and what is expected of it. -/
structure Trial where
  plan : Plan (List Item) Item
  accepts : Call Item → Outcome Bool := fun _ => .ok true
  /-- The step for a call, given the number of calls before. -/
  request : Nat → Call Item → Request := fun _ _ => .meter (.ok 0)
  /-- The message and the statement that are logged when the job fails. -/
  watch : Option (String × String) := none
  /-- The trial goes on with the meter of the one before. -/
  keepsMeter : Bool := false
  expectations : List Expectation

/-! ## Expectations -/

namespace Expectation

def holds (outcome : Outcome (Option Int32)) (h : Hall) : Expectation → Bool
  | .resolves value =>
    match outcome with
    | .ok v => v == value
    | .error _ => false
  | .fails cause =>
    match outcome with
    | .ok _ => false
    | .error e => e.cause == cause
  | .tests calls => h.tested.reverse == calls
  | .visits calls => h.visited.reverse == calls
  | .testCount n => h.tested.length == n
  | .visitCount n => h.visited.length == n
  | .requested n => h.meter.requested == n
  | .finished n => h.meter.finished == n
  | .sequential => h.meter.verdict == .sequential

/-- What is said when an expectation does not hold. -/
def violation : Expectation → String
  | .resolves _ => "the outcome is not the expected value"
  | .fails _ => "the outcome is not the expected failure"
  | .tests _ => "the filter was not called as expected"
  | .visits _ => "the step was not called as expected"
  | .testCount _ => "the filter was not called as often as expected"
  | .visitCount _ => "the step was not called as often as expected"
  | .requested _ => "the meter did not make as many steps as expected"
  | .finished _ => "not as many steps are over as expected"
  | .sequential => "the steps were not driven one after the other"

end Expectation

def Trial.conclude (t : Trial) (outcome : Outcome (Option Int32)) (h : Hall) : Poll Unit :=
  match t.expectations.find? fun x => !x.holds outcome h with
  | none => .ready (.ok ())
  | some x => .panicked (.assertion x.violation)

/-! ## Performing -/

abbrev TrialJob := Job (List Item) Item Unit Nat (MeterStep Int32)

inductive Act
  | plain (t : Trial) (job : TrialJob)
  | watched (t : Trial) (job : Watched TrialJob String)

def Trial.test (t : Trial) : Unit → Call Item → Effect Hall (Outcome Bool × Unit) :=
  fun _ call h => .returned (t.accepts call, ()) { h with tested := call :: h.tested }

/-- Call the step of a trial, which counts its calls. -/
def Trial.step (t : Trial) (flavor : Flavor) :
    Nat → Call Item → Effect Hall (MeterStep Int32 × Nat) := fun calls call h =>
  let h := { h with visited := call :: h.visited }
  match t.request calls call with
  | .meter outcome =>
    let (step, meter) := h.meter.request flavor outcome
    .returned (step, calls + 1) { h with meter }
  | .newMeter outcome =>
    let (step, meter) := Meter.request flavor outcome {}
    .returned (step, calls + 1) { h with meter }
  | .direct outcome => .returned (.resolved (.holding outcome), calls + 1) h

def Hall.wake : Effect Hall Unit := Effect.changes fun h => { h with woken := h.woken + 1 }

def Hall.changeMeter (f : Meter → Meter) : Effect Hall Unit :=
  Effect.changes fun h => { h with meter := f h.meter }

def Trial.kit (t : Trial) (flavor : Flavor) :
    Kit Hall (List Item) Item Unit Nat (MeterStep Int32) Int32 where
  next := Next.ofList
  test := t.test
  step := t.step flavor
  poll := MeterStep.poll Hall.wake Hall.changeMeter
  isTrue n := n != 0
  summand n := n

/-- Clear the counts of the trial before, and make the job. -/
def Trial.perform (flavor : Flavor) (fuel : Nat) (t : Trial) : Effect Hall Act := do
  Effect.changes fun h =>
    { h with meter := if t.keepsMeter then h.meter else {}, tested := [], visited := [] }
  let job ← Job.start Next.ofList (t.step flavor) fuel t.plan () 0
  match t.watch with
  | none => pure (.plain t job)
  | some (message, sql) => pure (.watched t (.active job message sql))

/-- The answer of a trial from the answer of its job. -/
def Trial.answer (t : Trial) : Poll (Option Int32) → Effect Hall (Poll Unit)
  | .pending => pure .pending
  | .panicked c => pure (.panicked c)
  | .ready outcome => Effect.reads (t.conclude outcome)

def Act.poll (flavor : Flavor) (fuel : Nat) : Poller Hall Act Unit
  | .plain t job => do
    let (answer, job) ← job.poll (t.kit flavor) fuel
    let answer ← t.answer answer
    pure (answer, .plain t job)
  | .watched t job => do
    let (answer, job) ← job.poll (Job.poll (t.kit flavor) fuel) pure
    let answer ← t.answer answer
    pure (answer, .watched t job)

end Stepwise.Suite
