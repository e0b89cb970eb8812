import Stepwise.Muted
import Stepwise.Settled
import Stepwise.Watched
import Stepwise.Script.Supply

/-!
# Tasks

A `Task` is a program of a script under way. `build` makes it, `Task.poll` polls it, and `launch`
makes the task of a loop, whose steps are tasks again.

* The filter and the step of a loop are closures: a rule or a program with the scope it was
  written in and the number of calls so far, which the body sees as `n`. The arguments of a call
  are bound to `v` and `i`.
* Every step that is requested has a number and notes each of its polls under it (`Numbered`).
-/

namespace Stepwise.Script
set_option autoImplicit false

/-- A body with the scope it was written in. -/
structure Closure (B : Type) where
  body : B
  scope : Scope
  calls : Nat := 0

/-- A task with the number of the step it belongs to. -/
structure Numbered (T : Type) where
  id : Nat
  task : T

/-- A program under way. -/
inductive Task
  | settled (c : Settled Value)
  | failed (x : Immediate Value)
  /-- Gives way so many times before the rest is built. -/
  | suspended (left : Nat) (rest : Program) (scope : Scope)
  | receiving (channel : Int64)
  | metered (step : MeterStep Value)
  | looping
    (job : Job Supply Value (Option (Closure Rule)) (Closure Program) (Numbered Task))
  | watched (w : Watched Task (Closure Expr))

/-! ## Calls -/

/-- The names that the arguments of a call are bound to. -/
def bindings : Call Value → Scope
  | .element x => [("v", x)]
  | .indexed x i => [("v", x), ("i", .int (Int64.ofNat i))]
  | .position i => [("i", .int (Int64.ofNat i))]
  | .number i => [("v", .int i.toInt64)]
  | .turn => []

namespace Closure

variable {B : Type}

def inner (c : Closure B) (call : Call Value) : Scope :=
  bindings call ++ ("n", .int (Int64.ofNat c.calls)) :: c.scope

def called (c : Closure B) : Closure B := { c with calls := c.calls + 1 }

end Closure

def Rule.verdict (scope : Scope) : Rule → Effect World (Outcome Bool)
  | .set register e next => do
    let v ← evaluate scope e
    World.setRegister register v
    next.verdict scope
  | .branch condition yes no => do
    let c ← evaluate scope condition
    if c.isTrue then yes.verdict scope else no.verdict scope
  | .ok e => do
    let v ← evaluate scope e
    pure (.ok v.isTrue)
  | .fail x => Effect.reads fun w => .error (x.eval w.registers scope)

/-- Call a filter. Where there is none, everything is accepted. -/
def callFilter (filter : Option (Closure Rule)) (call : Call Value) :
    Effect World (Outcome Bool × Option (Closure Rule)) :=
  match filter with
  | none => pure (.ok true, none)
  | some c => do
    World.note (.filter ((bindings call).map (·.2)))
    let verdict ← c.body.verdict (c.inner call)
    pure (verdict, some c.called)

/-- Call a step: it gets a number, and its program is built. -/
def callStep (build : Scope → Program → Effect World Task) (c : Closure Program)
    (call : Call Value) : Effect World (Numbered Task × Closure Program) := do
  let id ← World.newStep
  World.note (.step id ((bindings call).map (·.2)))
  let task ← build (c.inner call) c.body
  pure ({ id, task }, c.called)

def Numbered.poll (poll : Poller World Task Value) : Poller World (Numbered Task) Value :=
  fun x => do
    World.note (.poll x.id)
    let (answer, task) ← poll x.task
    pure (answer, { x with task })

/-- All that a scripted loop calls. -/
def kit (build : Scope → Program → Effect World Task) (poll : Poller World Task Value) :
    Kit World Supply Value (Option (Closure Rule)) (Closure Program) (Numbered Task) Value where
  next := Supply.next
  test := callFilter
  step := callStep build
  poll := Numbered.poll poll
  isTrue := Value.isTrue
  summand v := v.toInt.toInt32

def compose (message : Closure Expr) : Effect World String := do
  World.note .message
  let v ← evaluate message.scope message.body
  pure v.toText

/-! ## Building -/

/-- The plan of a loop, its expressions evaluated. -/
def Shape.plan (scope : Scope) (shape : Shape) :
    Effect World (Plan Supply Value) := do
  let supply ← shape.elements.supply scope
  let (start, stop) ← shape.elements.bounds scope
  match shape.pattern with
  | .iterate form => pure (.iterate form supply)
  | .list form => do
    let values ← supply.toList
    pure (.list form values)
  | .range filtered => pure (.range filtered start stop)
  | .chain => pure (.chain supply)
  | .sum => pure (.sum supply)
  | .sumList => do
    let values ← supply.toList
    pure (.sumList values)
  | .sumRange => pure (.sumRange start stop)
  | .apply => do
    let values ← supply.toList
    pure (.apply values)
  | .drive => pure .drive

def launch (build : Scope → Program → Effect World Task) (fuel : Nat) (scope : Scope)
    (shape : Shape) (step : Program) : Effect World Task := do
  let plan ← shape.plan scope
  let job ← Job.start Supply.next (callStep build) fuel plan
    (shape.filter.map fun rule => { body := rule, scope }) { body := step, scope }
  match shape.watch with
  | none => pure (.looping job)
  | some watch => do
    let sql ← evaluate scope watch.sql
    pure (.watched (.active (.looping job) { body := watch.message, scope } sql.toText))

/-- Make the task of a program. The fuel bounds the depth of the program and the length of what a
loop takes in when it is made. -/
def build : Nat → Scope → Program → Effect World Task
  | 0, _, _ => Effect.cut
  | fuel + 1, scope, program =>
    match program with
    | .set register e next => do
      let v ← evaluate scope e
      World.setRegister register v
      build fuel scope next
    | .branch condition yes no => do
      let c ← evaluate scope condition
      if c.isTrue then build fuel scope yes else build fuel scope no
    | .ok e => do
      let v ← evaluate scope e
      pure (.settled ⟨v⟩)
    | .fail x => do
      let e ← Effect.reads fun w => x.eval w.registers scope
      pure (.failed (.failed e))
    | .suspend count rest => do
      let k ← evaluate scope count
      let left := k.toInt.toInt.toNat
      World.expectWaits left
      pure (.suspended left rest scope)
    | .receive channel => do
      let c ← evaluate scope channel
      pure (.receiving c.toInt)
    | .loop shape step => launch (build fuel) fuel scope shape step
    | .meter e => do
      let v ← evaluate scope e
      let step ← World.requestMeter (.ok v)
      pure (.metered step)
    | .meterFail e => do
      let v ← evaluate scope e
      let step ← World.requestMeter (.error { cause := .step v.toInt })
      pure (.metered step)

/-! ## Polling -/

/-- The value of a job: a sum is an integer. -/
def ofJob : Option Int32 → Value
  | none => .unit
  | some n => .int n.toInt64

/-- Poll a task. The fuel bounds the depth of the loops in it and the length of their runs. -/
def Task.poll : Nat → Poller World Task Value
  | 0, _ => Effect.cut
  | fuel + 1, task =>
    match task with
    | .settled c => do
      let (answer, c) ← c.poll
      pure (answer, .settled c)
    | .failed x => do
      let (answer, x) ← x.poll
      pure (answer, .failed x)
    | .suspended (left + 1) rest scope => do
      World.wake
      pure (.pending, .suspended left rest scope)
    | .suspended 0 rest scope => do
      let task ← build fuel scope rest
      Task.poll fuel task
    | .receiving channel => do
      let answer ← World.collect channel
      pure (answer, .receiving channel)
    | .metered step => do
      let (answer, step) ← step.poll World.wake World.changeMeter
      pure (answer, .metered step)
    | .looping job => do
      let (answer, job) ← job.poll (kit (build fuel) (Task.poll fuel)) fuel
      pure (answer.map ofJob, .looping job)
    | .watched w => do
      let (answer, w) ← w.poll (Task.poll fuel) compose
      pure (answer, .watched w)

/-- Whether the driven loop of a task has resolved; other tasks do not say. -/
def Task.isOver? : Task → Option Bool
  | .looping job => job.isOver?
  | _ => none

/-! ## Failures outside of loops -/

/-- Log a failure, if there is one, as a watched loop does; a muted call logs nothing. -/
def logFailure (muted : Bool) (failure : Option Failure) (message sql : Expr) :
    Effect World Unit := do
  let sql ← evaluate [] sql
  let body := Statement.logFailure failure (compose { body := message, scope := [] }) sql.toText
  if muted then Muted.run body else body

end Stepwise.Script
