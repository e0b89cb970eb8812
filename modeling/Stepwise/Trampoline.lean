import Stepwise.Effect

/-!
# Trampolines

A computation that would call itself hands the call over instead of making it, and a loop makes
the calls one after the other, so the depth of the recursion costs no stack.

* `Trampoline τ κ σ α` is such a computation with a value in `α`: a value, more work, or a
  computation with a continuation for its value. Deferred work is named (`τ` for work, `κ` for
  continuations, which may also be built by the library) and a `Meaning` says what the names do in
  a world `σ`. Names instead of functions make room for computations that hand over for ever.
* `step` makes one step. When two continuations are nested it only turns the nesting to the right.
* `run` goes on to the end and keeps the continuations that wait on a list.
* `continueWith` and `map` extend a computation. `map` on a value is the only one that acts at once.
-/

namespace Stepwise
set_option autoImplicit false

namespace Trampoline

/-- What is to be done with the value of a computation. -/
inductive Cont (κ σ α : Type)
  | call (k : κ)
  /-- Apply a function; what it gives is the value of the whole. -/
  | mapping (f : α → Effect σ α)
  /-- Go on with the first and put the second behind what it gives. -/
  | compose (first second : Cont κ σ α)

/-- Work that was handed over. -/
inductive Thunk (τ κ σ α : Type)
  | call (t : τ)
  /-- Give a value that is already there to a continuation. -/
  | feed (next : Cont κ σ α) (value : α)

end Trampoline

/-- A computation that hands its recursive calls over. -/
inductive Trampoline (τ κ σ α : Type)
  | done (value : α)
  /-- More work gives the next computation. -/
  | more (next : Trampoline.Thunk τ κ σ α)
  /-- The value of a computation goes into a continuation. -/
  | andThen (first : Trampoline τ κ σ α) (next : Trampoline.Cont κ σ α)

namespace Trampoline

/-- What the names of deferred work do. -/
structure Meaning (τ κ σ α : Type) where
  thunk : τ → Effect σ (Trampoline τ κ σ α)
  cont : κ → α → Effect σ (Trampoline τ κ σ α)

variable {τ κ σ α : Type}

/-! ## Deferred work -/

def Meaning.resume (b : Meaning τ κ σ α) : Cont κ σ α → α → Effect σ (Trampoline τ κ σ α)
  | .call k, v => b.cont k v
  | .mapping f, v => do
    let v ← f v
    pure (.done v)
  | .compose first second, v => do
    let t ← b.resume first v
    pure (.andThen t second)

def Meaning.force (b : Meaning τ κ σ α) : Thunk τ κ σ α → Effect σ (Trampoline τ κ σ α)
  | .call t => b.thunk t
  | .feed next v => b.resume next v

/-! ## Building -/

def isDone : Trampoline τ κ σ α → Bool
  | .done _ => true
  | _ => false

/-- Continue with another computation built from the value. The continuation is not run yet, not
even on a value that is already there. -/
def continueWith (t : Trampoline τ κ σ α) (next : Cont κ σ α) : Trampoline τ κ σ α :=
  match t with
  | .done v => .more (.feed next v)
  | t => .andThen t next

/-- Change the value by a function, which runs at once when the value is already there. -/
def map (t : Trampoline τ κ σ α) (f : α → Effect σ α) : Effect σ (Trampoline τ κ σ α) :=
  match t with
  | .done v => do
    let v ← f v
    pure (.done v)
  | t => pure (t.continueWith (.mapping f))

/-! ## Running -/

/-- One step; a value steps to itself. -/
def step (b : Meaning τ κ σ α) : Trampoline τ κ σ α → Effect σ (Trampoline τ κ σ α)
  | .done v => pure (.done v)
  | .more next => b.force next
  | .andThen (.done v) next => b.resume next v
  | .andThen (.more work) next => do
    let t ← b.force work
    pure (.andThen t next)
  | .andThen (.andThen first inner) outer => pure (.andThen first (.compose inner outer))

/-- Step until a value is reached, at most `limit` times; gives the number of steps. -/
def stepUpTo (b : Meaning τ κ σ α) (limit : Nat) (t : Trampoline τ κ σ α) :
    Effect σ (Nat × Trampoline τ κ σ α) :=
  go limit 0 t
where
  /-- The loop of `stepUpTo`, after `made` steps. -/
  go : Nat → Nat → Trampoline τ κ σ α → Effect σ (Nat × Trampoline τ κ σ α)
    | 0, made, t => pure (made, t)
    | left + 1, made, t =>
      if t.isDone then pure (made, t)
      else do
        let t ← t.step b
        go left (made + 1) t

/-- The loop of `run`: the continuations that wait, the innermost first, and the computation
whose value they wait for. Each turn uses one unit of fuel; to find the value needs none. -/
def runWith (b : Meaning τ κ σ α) (fuel : Nat) (waiting : List (Cont κ σ α))
    (t : Trampoline τ κ σ α) : Effect σ α :=
  match t, waiting, fuel with
  | .done v, [], _ => pure v
  | _, _, 0 => Effect.cut
  | .done v, next :: waiting, fuel + 1 => do
    let t ← b.resume next v
    runWith b fuel waiting t
  | .more work, waiting, fuel + 1 => do
    let t ← b.force work
    runWith b fuel waiting t
  | .andThen first next, waiting, fuel + 1 => runWith b fuel (next :: waiting) first

def run (b : Meaning τ κ σ α) (fuel : Nat) (t : Trampoline τ κ σ α) : Effect σ α :=
  runWith b fuel [] t

/-! ## Small laws -/

@[simp] theorem isDone_done (v : α) : (done v : Trampoline τ κ σ α).isDone = true := rfl

@[simp] theorem isDone_more (work : Thunk τ κ σ α) :
    (more work : Trampoline τ κ σ α).isDone = false := rfl

@[simp] theorem isDone_andThen (t : Trampoline τ κ σ α) (next : Cont κ σ α) :
    (t.andThen next).isDone = false := rfl

theorem step_of_isDone (b : Meaning τ κ σ α) (t : Trampoline τ κ σ α) (h : t.isDone = true) :
    t.step b = pure t := by
  cases t with
  | done v => rfl
  | more work => cases h
  | andThen first next => cases h

theorem runWith_done_nil (b : Meaning τ κ σ α) (fuel : Nat) (v : α) :
    runWith b fuel [] (done v) = pure v := by
  cases fuel <;> rfl

theorem runWith_done_cons (b : Meaning τ κ σ α) (fuel : Nat) (next : Cont κ σ α)
    (waiting : List (Cont κ σ α)) (v : α) :
    runWith b (fuel + 1) (next :: waiting) (done v) =
      b.resume next v >>= runWith b fuel waiting := rfl

theorem runWith_more (b : Meaning τ κ σ α) (fuel : Nat) (waiting : List (Cont κ σ α))
    (work : Thunk τ κ σ α) :
    runWith b (fuel + 1) waiting (more work) = b.force work >>= runWith b fuel waiting := rfl

theorem runWith_andThen (b : Meaning τ κ σ α) (fuel : Nat) (waiting : List (Cont κ σ α))
    (first : Trampoline τ κ σ α) (next : Cont κ σ α) :
    runWith b (fuel + 1) waiting (first.andThen next) =
      runWith b fuel (next :: waiting) first := rfl

end Trampoline

end Stepwise
