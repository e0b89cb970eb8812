import Stepwise.Effect

/-!
# Failures

A step or a filter that cannot go on gives a `Failure`: the cause, and the contexts that callers
put around it on the way out.

* `Failure.chain` lists the texts from the outermost context down to the cause; `display` is the
  first of them and `report` joins them all with `": "`.
* `Outcome α` is what a computation resolves to: a value or the failure that ended it.
-/

namespace Stepwise
set_option autoImplicit false

/-- Why a computation failed. -/
inductive Cause
  | message (text : String)
  /-- A step was told to fail; the number says which. -/
  | step (number : Int64)
  /-- A value refused to be formatted. -/
  | formatting
  /-- The sender of an awaited message went away. -/
  | canceled
deriving DecidableEq

def Cause.text : Cause → String
  | .message text => text
  | .step number => "Step " ++ toString number.toInt ++ " failed"
  | .formatting => "an error occurred when formatting an argument"
  | .canceled => "oneshot canceled"

/-- A cause with the contexts added to it, the outermost first. -/
structure Failure where
  cause : Cause
  contexts : List String := []
deriving DecidableEq

namespace Failure

def context (e : Failure) (text : String) : Failure :=
  { e with contexts := text :: e.contexts }

/-- The texts of a failure from the outermost context to the cause. -/
def chain (e : Failure) : List String := e.contexts ++ [e.cause.text]

def display (e : Failure) : String := e.contexts.headD e.cause.text

def report (e : Failure) : String := ": ".intercalate e.chain

theorem chain_ne_nil (e : Failure) : e.chain ≠ [] := by simp [chain]

theorem display_eq_head (e : Failure) : e.display = e.chain.head e.chain_ne_nil := by
  obtain ⟨cause, contexts⟩ := e
  cases contexts <;> rfl

@[simp] theorem cause_context (e : Failure) (text : String) :
    (e.context text).cause = e.cause := rfl

end Failure

/-- What a computation resolves to. -/
abbrev Outcome (α : Type) := Except Failure α

namespace Outcome

variable {α : Type}

def raise (e : Failure) : Outcome α := .error e

/-- A failure if there is one, else success without a value. -/
def absentOr : Option Failure → Outcome (Option α)
  | some e => .error e
  | none => .ok none

/-- A failure if there is one, else the value that came with it. -/
def valueOr (result : α) : Option Failure → Outcome α
  | some e => .error e
  | none => .ok result

end Outcome

end Stepwise
