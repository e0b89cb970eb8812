import Stepwise.Suite.Catalog

/-!
# Running the suite

The suite performs all its trials one after the other, as one computation that is polled: between
two trials it does not give way. One trial runs in a muted region.

* `Progress.poll` polls the suite.
* `run` polls it up to a number of times and then drops it, wherever it is; the report says how
  often it was polled.
-/

namespace Stepwise.Suite
set_option autoImplicit false

inductive Part
  | plain (t : Trial)
  | muted (t : Trial)

def parts (flavor : Flavor) : List Part :=
  (sourceTrials ++ listTrials ++ rangeTrials ++ emptyTrials ++ indexTrials ++ sumTrials ++
    applicationTrials ++ failingSteps).map .plain ++ [.muted mutedTrial] ++
    (failingFilters ++ longTrials flavor).map .plain

inductive Performance
  | plain (act : Act)
  | muted (region : Muted Trial Act)

inductive Progress
  | fresh (parts : List Part)
  | running (now : Performance) (rest : List Part)
  | finished

def Part.begin (flavor : Flavor) (fuel : Nat) : Part → Effect Hall Performance
  | .plain t => do
    let act ← t.perform flavor fuel
    pure (.plain act)
  | .muted t => pure (.muted (.fresh t))

def Performance.poll (flavor : Flavor) (fuel : Nat) : Poller Hall Performance Unit
  | .plain act => do
    let (answer, act) ← act.poll flavor fuel
    pure (answer, .plain act)
  | .muted region => do
    let (answer, region) ← region.poll (Trial.perform flavor fuel) (Act.poll flavor fuel)
    pure (answer, .muted region)

/-- Perform trials until one gives way. -/
def performAll (flavor : Flavor) (fuel : Nat) : List Part → Effect Hall (Poll Unit × Progress)
  | [] => pure (.ready (.ok ()), .finished)
  | part :: rest => do
    let now ← part.begin flavor fuel
    let (answer, now) ← now.poll flavor fuel
    match answer with
    | .ready (.ok ()) => performAll flavor fuel rest
    | answer => pure (answer, .running now rest)

def Progress.poll (flavor : Flavor) (fuel : Nat) : Poller Hall Progress Unit
  | .finished => pure (.panicked .routineFinished, .finished)
  | .fresh parts => performAll flavor fuel parts
  | .running now rest => do
    let (answer, now) ← now.poll flavor fuel
    match answer with
    | .ready (.ok ()) => performAll flavor fuel rest
    | answer => pure (answer, .running now rest)

/-! ## Reports -/

/-- What is known when the suite was dropped. -/
structure Report where
  polls : Nat
  /-- The last answer that was not pending, if there was one. -/
  answer : Option (Poll Unit)

/-- Poll until the answer is not pending, at most `limit` times, after `made` polls. -/
def pollUpTo (flavor : Flavor) (fuel : Nat) : Nat → Nat → Progress → Effect Hall Report
  | 0, made, _ => pure { polls := made, answer := none }
  | limit + 1, made, progress => do
    let (answer, progress) ← progress.poll flavor fuel
    match answer with
    | .pending => pollUpTo flavor fuel limit (made + 1) progress
    | answer => pure { polls := made + 1, answer := some answer }

/-- Run the suite, polling it so many times at most. -/
def run (flavor : Flavor) (fuel limit : Nat) : Effect Hall Report :=
  pollUpTo flavor fuel limit 0 (.fresh (parts flavor))

end Stepwise.Suite
