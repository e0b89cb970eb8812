import Stepwise.Poll
import Stepwise.Log

/-!
# Regions without logging

A muted region turns the log off when it is entered and puts back the level it found when its body
is over.

* `Muted.run` is a region whose body does not wait.
* `Muted A F` is a region whose body is polled: the first poll enters it and starts the body from
  `A`. Between two polls the log stays off, and a region that is dropped there leaves it off.
-/

namespace Stepwise
set_option autoImplicit false

/-- A muted region whose body is polled. -/
inductive Muted (A F : Type)
  | fresh (start : A)
  /-- Inside the body; the level to be put back. -/
  | inside (level : Level) (body : F)
  | finished

namespace Muted

variable {W A F β : Type}

/-- Turn the log off; gives the level it had. -/
def enter [Logging W] : Effect W Level := fun w =>
  .returned (Logging.level w) (Logging.setLevel .off w)

def leave [Logging W] (level : Level) : Effect W Unit := Effect.changes (Logging.setLevel level)

/-- Do something with the log turned off. -/
def run [Logging W] (body : Effect W β) : Effect W β := do
  let level ← enter
  let b ← body
  leave level
  pure b

/-- Go on with the body; its end is the end of the region. -/
def pollBody [Logging W] (poll : Poller W F β) (level : Level) (x : F) :
    Effect W (Poll β × Muted A F) := do
  let (answer, x) ← poll x
  match answer with
  | .pending => pure (.pending, .inside level x)
  | .panicked c => pure (.panicked c, .inside level x)
  | .ready outcome => do
    leave level
    pure (.ready outcome, .finished)

def poll [Logging W] (start : A → Effect W F) (body : Poller W F β) : Poller W (Muted A F) β
  | .finished => pure (.panicked .routineFinished, .finished)
  | .inside level x => pollBody body level x
  | .fresh a => do
    let level ← enter
    let x ← start a
    pollBody body level x

end Muted

end Stepwise
