import Stepwise.Failure

/-!
# Polls

Work that may have to wait is a state that is polled: each poll moves it on as far as it can go
and says whether it is done.

* `Poll α` is the answer of one poll. `panicked` is the answer of a state that must not be polled
  any more, and leaves the state as it is; the library never passes it on as an outcome.
* `Poller W F α` is the behaviour of the states `F`: one poll gives an answer and the next state.
* `Immediate` is the state that is resolved from the start and can be asked once.
-/

namespace Stepwise
set_option autoImplicit false

/-- A misuse that stops a poll. -/
inductive Panic
  | loopFinished
  | mapFinished
  | chainFinished
  /-- A resolved value was taken twice. -/
  | valueTaken
  /-- A suspended routine was resumed after its end. -/
  | routineFinished
  | assertion (text : String)
deriving DecidableEq

def Panic.text : Panic → String
  | .loopFinished => "`AsyncWhile` polled after completion"
  | .mapFinished => "Map must not be polled after it returned `Poll::Ready`"
  | .chainFinished => "TryFlatten polled after completion"
  | .valueTaken => "Ready polled after completion"
  | .routineFinished => "`async fn` resumed after completion"
  | .assertion text => text

/-- The answer of one poll. -/
inductive Poll (α : Type)
  /-- Not done; whoever will be able to move it on has been told to wake the poller. -/
  | pending
  | ready (outcome : Outcome α)
  /-- The state must not be polled. -/
  | panicked (cause : Panic)

namespace Poll

variable {α β : Type}

@[inline] def map (f : α → β) : Poll α → Poll β
  | .pending => .pending
  | .ready (.ok a) => .ready (.ok (f a))
  | .ready (.error e) => .ready (.error e)
  | .panicked c => .panicked c

def isReady : Poll α → Bool
  | .ready _ => true
  | _ => false

def isPending : Poll α → Bool
  | .pending => true
  | _ => false

theorem map_id (p : Poll α) : p.map id = p := by
  cases p with
  | ready o => cases o <;> rfl
  | _ => rfl

theorem isReady_map (f : α → β) (p : Poll α) : (p.map f).isReady = p.isReady := by
  cases p with
  | ready o => cases o <;> rfl
  | _ => rfl

end Poll

/-- How the states `F` answer a poll in the world `W`. -/
abbrev Poller (W F α : Type) := F → Effect W (Poll α × F)

namespace Poller

variable {W F α β S : Type}

@[inline] def map (f : α → β) (poll : Poller W F α) : Poller W F β := fun x => do
  let (answer, x) ← poll x
  pure (answer.map f, x)

/-- Poll in a world with a second part that stays as it is. -/
@[inline] def within (S : Type) (poll : Poller W F α) : Poller (W × S) F α := fun x =>
  (poll x).within S

/-- The answers of `count` polls; a panic is the last one. -/
def answers (poll : Poller W F α) : Nat → F → Effect W (List (Poll α) × F)
  | 0, x => pure ([], x)
  | count + 1, x => do
    let (answer, x) ← poll x
    match answer with
    | .panicked _ => pure ([answer], x)
    | _ =>
      let (rest, x) ← answers poll count x
      pure (answer :: rest, x)

end Poller

/-! ## Resolved from the start -/

/-- A computation that is resolved before it is polled and gives its outcome away once. -/
inductive Immediate (α : Type)
  | holding (outcome : Outcome α)
  | taken

namespace Immediate

variable {W α : Type}

def poll : Poller W (Immediate α) α
  | .holding outcome => pure (.ready outcome, .taken)
  | .taken => pure (.panicked .valueTaken, .taken)

def failed (e : Failure) : Immediate α := .holding (.error e)

end Immediate

end Stepwise
