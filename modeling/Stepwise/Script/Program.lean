import Stepwise.Job
import Stepwise.Script.Expr

/-!
# Programs

The programs that the steps of a scripted loop run, and the rules of its filters.

* Building a `Program` reads and sets registers and gives a task; `suspend` puts the building of
  the rest off until the task has waited as often as it says.
* A `Shape` is all of a scripted loop but its step: how it runs (`Pattern`), over what
  (`Elements`), with which filter, and what is logged when it fails (`Watch`).
-/

namespace Stepwise.Script
set_option autoImplicit false

/-- How a filter decides: by the truth of a value, or not at all. -/
inductive Rule
  | set (register : String) (value : Expr) (next : Rule)
  | branch (condition : Expr) (yes no : Rule)
  | ok (value : Expr)
  | fail (failure : FailureExpr)

/-- What a scripted loop runs over. -/
inductive Elements
  /-- The listed values; where there is none, the source says once that it has no element. -/
  | items (items : List (Option Expr))
  /-- The integers from `start` up to `stop`, without it. -/
  | range (start stop : Expr)
  | upward (start : Expr)
  /-- The same value a number of times. -/
  | replicate (value count : Expr)

/-- How a scripted loop runs. -/
inductive Pattern
  | iterate (form : Form)
  | list (form : Form)
  | range (filtered : Bool)
  | chain
  | sum
  | sumList
  | sumRange
  | apply
  | drive

/-- What is logged when a loop fails. -/
structure Watch where
  message : Expr
  sql : Expr

/-- A scripted loop without its step. -/
structure Shape where
  pattern : Pattern
  elements : Elements := .items []
  filter : Option Rule := none
  watch : Option Watch := none

/-- What a step does. -/
inductive Program
  | set (register : String) (value : Expr) (next : Program)
  | branch (condition : Expr) (yes no : Program)
  | ok (value : Expr)
  | fail (failure : FailureExpr)
  | suspend (count : Expr) (next : Program)
  /-- Wait for the message in a mailbox. -/
  | receive (channel : Expr)
  | loop (shape : Shape) (step : Program)
  /-- Request a step with this value from the meter. -/
  | meter (value : Expr)
  /-- Request a step from the meter that fails with this number. -/
  | meterFail (number : Expr)

end Stepwise.Script
