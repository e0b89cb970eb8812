import Stepwise.Failure
import Stepwise.Text.Render

/-!
# Values of a script

Scripts compute with three kinds of values: the unit, integers of 64 bits that wrap around, and
texts. A `Scope` gives names to values, the innermost binding first; `Registers` are the variables
that a script may change while it runs.
-/

namespace Stepwise.Script
set_option autoImplicit false

inductive Value
  | unit
  | int (n : Int64)
  | text (s : String)
deriving DecidableEq, Inhabited

namespace Value

/-- The text of a value: of an integer its decimal digits, of a text the text itself. -/
def toText : Value → String
  | .unit => "()"
  | .int n => toString n.toInt
  | .text s => s

/-- In a report, texts are quoted. -/
instance : Render Value where
  render v :=
    match v with
    | .text s => Text.quoted s
    | v => v.toText

/-- The integer, or zero where there is none. -/
def toInt : Value → Int64
  | .int n => n
  | _ => 0

/-- An integer is true when it is not zero. -/
def isTrue (v : Value) : Bool := v.toInt != 0

def ofBool (b : Bool) : Value := .int (if b then 1 else 0)

@[simp] theorem isTrue_ofBool (b : Bool) : (ofBool b).isTrue = b := by cases b <;> decide

end Value

/-- Names with their values, the innermost binding first. -/
abbrev Scope := List (String × Value)

/-- The value of a name, or the unit where it has none. -/
def Scope.value (scope : Scope) (name : String) : Value := (scope.lookup name).getD .unit

/-- The variables that a script changes, each name once. -/
abbrev Registers := List (String × Value)

namespace Registers

/-- The value of a register, zero before it is first set. -/
def value (registers : Registers) (name : String) : Value :=
  (registers.lookup name).getD (.int 0)

def set : Registers → String → Value → Registers
  | [], name, v => [(name, v)]
  | (other, w) :: rest, name, v =>
    if other = name then (name, v) :: rest else (other, w) :: set rest name v

theorem value_set (registers : Registers) (name other : String) (v : Value) :
    (registers.set name v).value other = if other = name then v else registers.value other := by
  induction registers with
  | nil =>
    by_cases h : other = name
    · subst h; simp [set, value]
    · have hb : (other == name) = false := by simpa using h
      simp [set, value, List.lookup_cons, h, hb]
  | cons r rest ih =>
    obtain ⟨key, w⟩ := r
    by_cases hk : key = name
    · subst hk
      by_cases h : other = key
      · subst h; simp [set, value]
      · have hb : (other == key) = false := by simpa using h
        simp [set, value, List.lookup_cons, h, hb]
    · by_cases h : other = key
      · subst h; simp [set, value, hk]
      · have hb : (other == key) = false := by simpa using h
        simp only [value] at ih
        simp [set, value, List.lookup_cons, hk, hb, ih]

end Registers

end Stepwise.Script
