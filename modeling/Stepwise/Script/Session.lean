import Stepwise.Script.Task

/-!
# Sessions

A session has some scripted loops, which are made, polled and dropped from outside, one action
after the other, while messages are sent to them.

* `Session.perform` carries out an action; `run` carries out all and reports on each: the reply,
  the number of wake-ups and the events.
* A loop that answers a poll with a panic is dropped, and so is one that breaks down.
-/

namespace Stepwise.Script
set_option autoImplicit false

structure Spec where
  shape : Shape
  step : Program

inductive Session.Action
  /-- Make a loop anew. -/
  | create (index : Nat)
  | poll (index : Nat)
  /-- Poll until the answer is not pending, so many times at most and once at least. -/
  | finish (index limit : Nat)
  | isOver (index : Nat)
  | drop (index : Nat)
  | send (channel : Int64) (value : Expr)
  | fail (channel : Int64) (failure : FailureExpr)

/-- The answer of a loop to a poll. -/
inductive Session.Answer
  | gone
  | polled (answer : Poll Value)
  | broken (reason : Breakdown)

inductive Session.Reply
  | nothing
  | answer (a : Session.Answer)
  | finished (polls : Nat) (last : Session.Answer)
  | flag (b : Bool)

structure Session.Step where
  reply : Session.Reply
  woken : Nat
  events : List Event

/-- The loops of a session and what they share. -/
structure Session where
  specs : List Spec
  tasks : List (Option Task)
  world : World

namespace Session

/-- A session with none of its loops made. -/
def start (specs : List Spec) (flavor : Flavor) : Session where
  specs
  tasks := specs.map fun _ => none
  world := { flavor }

/-- Do something in the world that the loops share. -/
def onWorld {α : Type} (m : Effect World α) : Effect Session α := fun s =>
  match m s.world with
  | .returned a world => .returned a { s with world }
  | .broken reason world => .broken reason { s with world }
  | .cut world => .cut { s with world }

def setTask (index : Nat) (task : Option Task) : Effect Session Unit :=
  Effect.changes fun s => { s with tasks := s.tasks.set index task }

def task (index : Nat) : Effect Session (Option Task) :=
  Effect.reads fun s => s.tasks[index]?.join

def create (fuel index : Nat) : Effect Session Unit := do
  let spec ← Effect.reads fun s => s.specs[index]?
  match spec with
  | none => pure ()
  | some spec => do
    let task ← onWorld (launch (build fuel) fuel [] spec.shape spec.step)
    setTask index (some task)

/-- Poll a loop; each poll has a number of its own. -/
def poll (fuel index : Nat) : Effect Session Answer := do
  match ← task index with
  | none => pure .gone
  | some task => do
    onWorld (Effect.changes fun w => { w with poller := w.poller + 1 })
    match ← onWorld (task.poll fuel).attempt with
    | .error reason => do
      setTask index none
      pure (.broken reason)
    | .ok (.panicked c, _) => do
      setTask index none
      pure (.polled (.panicked c))
    | .ok (answer, task) => do
      setTask index (some task)
      pure (.polled answer)

/-- Poll a loop until its answer is not pending, so many times at most and once at least, after
`made` polls. -/
def finish (fuel index : Nat) : Nat → Nat → Effect Session (Nat × Answer)
  | 0, made => do
    let answer ← poll fuel index
    pure (made + 1, answer)
  | more + 1, made => do
    let answer ← poll fuel index
    match answer with
    | .polled .pending => finish fuel index more (made + 1)
    | _ => pure (made + 1, answer)

def perform (fuel : Nat) : Action → Effect Session Reply
  | .create index => do
    setTask index none
    create fuel index
    pure .nothing
  | .poll index => do
    let answer ← poll fuel index
    pure (.answer answer)
  | .finish index limit => do
    let (polls, last) ← finish fuel index (limit - 1) 0
    pure (.finished polls last)
  | .isOver index => do
    let task ← task index
    match task.bind Task.isOver? with
    | none => pure .nothing
    | some b => pure (.flag b)
  | .drop index => do
    setTask index none
    pure .nothing
  | .send channel value => do
    let v ← onWorld (evaluate [] value)
    let b ← onWorld (World.deliver channel (.ok v))
    pure (.flag b)
  | .fail channel failure => do
    let e ← onWorld (Effect.reads fun w => failure.eval w.registers [])
    let b ← onWorld (World.deliver channel (.error e))
    pure (.flag b)

/-- Carry out an action with an empty log and report on it. -/
def step (fuel : Nat) (action : Action) : Effect Session Step := do
  onWorld (Effect.changes fun w => { w with events := [], woken := [] })
  let reply ← perform fuel action
  Effect.reads fun s =>
    { reply, woken := s.world.woken.length, events := s.world.events.reverse }

def steps (fuel : Nat) : List Action → Effect Session (List Step)
  | [] => pure []
  | action :: rest => do
    let report ← step fuel action
    let reports ← steps fuel rest
    pure (report :: reports)

end Session

end Stepwise.Script
