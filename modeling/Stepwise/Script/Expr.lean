import Stepwise.Script.Value

/-!
# Expressions

The expressions of a script are total: every expression has a value in every scope. Integers wrap
around at 64 bits, division and remainder are Euclidean (the remainder is never negative), and
both are zero where no 64 bit quotient exists.
-/

namespace Stepwise.Script
set_option autoImplicit false

/-- An operation on two values. -/
inductive Op
  | add
  | sub
  | mul
  | div
  | rem
  | less
  | equal
  | append
  | replicate
deriving DecidableEq

inductive Expr
  | literal (v : Value)
  | var (name : String)
  | register (name : String)
  | binary (op : Op) (a b : Expr)
  | not (a : Expr)
  | length (a : Expr)
  | cond (c yes no : Expr)

/-! ## Integers -/

/-- The divisor is zero or the quotient has no 64 bits. -/
def undivided (a b : Int64) : Bool := b == 0 || (a == Int64.minValue && b == -1)

/-- The Euclidean quotient, zero where there is none. -/
def quotient (a b : Int64) : Int64 :=
  if undivided a b then 0 else Int64.ofInt (a.toInt / b.toInt)

/-- The Euclidean remainder, zero where there is no quotient. -/
def remainder (a b : Int64) : Int64 :=
  if undivided a b then 0 else Int64.ofInt (a.toInt % b.toInt)

/-! ## Evaluation -/

/-- The text repeated; a negative count is none, and nothing repeated is nothing. -/
def replicateText (s : String) (count : Int64) : String :=
  if s.isEmpty then s else String.join (List.replicate count.toInt.toNat s)

def Op.apply : Op → Value → Value → Value
  | .add, a, b => .int (a.toInt + b.toInt)
  | .sub, a, b => .int (a.toInt - b.toInt)
  | .mul, a, b => .int (a.toInt * b.toInt)
  | .div, a, b => .int (quotient a.toInt b.toInt)
  | .rem, a, b => .int (remainder a.toInt b.toInt)
  | .less, a, b => .ofBool (decide (a.toInt < b.toInt))
  | .equal, a, b => .ofBool (a == b)
  | .append, a, b => .text (a.toText ++ b.toText)
  | .replicate, a, b => .text (replicateText a.toText b.toInt)

def Expr.eval (registers : Registers) (scope : Scope) : Expr → Value
  | .literal v => v
  | .var name => scope.value name
  | .register name => registers.value name
  | .binary op a b => op.apply (a.eval registers scope) (b.eval registers scope)
  | .not a => .ofBool (!(a.eval registers scope).isTrue)
  | .length a => .int (Int64.ofNat (a.eval registers scope).toText.utf8ByteSize)
  | .cond c yes no =>
    if (c.eval registers scope).isTrue then yes.eval registers scope else no.eval registers scope

/-! ## Failures in a script -/

/-- A cause whose text or number is computed. -/
inductive CauseExpr
  | message (text : Expr)
  | step (number : Expr)
  | formatting
  | canceled

/-- A failure whose parts are computed; the contexts are put around the cause in order. -/
structure FailureExpr where
  cause : CauseExpr
  contexts : List Expr := []

def CauseExpr.eval (registers : Registers) (scope : Scope) : CauseExpr → Cause
  | .message text => .message (text.eval registers scope).toText
  | .step number => .step (number.eval registers scope).toInt
  | .formatting => .formatting
  | .canceled => .canceled

def FailureExpr.eval (registers : Registers) (scope : Scope) (x : FailureExpr) : Failure :=
  x.contexts.foldl (fun e text => e.context (text.eval registers scope).toText)
    { cause := x.cause.eval registers scope }

end Stepwise.Script
