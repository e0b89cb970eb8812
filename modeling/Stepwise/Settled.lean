import Stepwise.Poll
import Stepwise.Text.Render

/-!
# Settled computations

A computation that is complete with a value answers every poll with that value, so that one of
them can be shared and copied freely. `Absent` is complete without a value.
-/

namespace Stepwise
set_option autoImplicit false

/-- A computation that is complete with `value`. -/
structure Settled (α : Type) where
  value : α
deriving DecidableEq

namespace Settled

variable {W α : Type}

def poll : Poller W (Settled α) α := fun c => pure (.ready (.ok c.value), c)

/-- A settled computation can always be polled again. -/
def isOver (_c : Settled α) : Bool := false

def ofDefault [Inhabited α] : Settled α := ⟨default⟩

def void : Settled Unit := ⟨()⟩

/-- Whatever comes in, complete with nothing. -/
def ignoring (_a : α) : Settled Unit := void

def zero : Settled Int32 := ⟨0⟩

def yes : Settled Bool := ⟨true⟩

def no : Settled Bool := ⟨false⟩

instance [Render α] : Render (Settled α) where
  render c := Text.inline "Completed" c.value

/-- The computation with its value on a line of its own. -/
def spread [Render α] (c : Settled α) : String := Text.spread "Completed" c.value

end Settled

/-- A computation that is complete without a value of the type `α`. -/
structure Absent (α : Type) where
deriving DecidableEq

namespace Absent

variable {W α : Type}

/-- Every poll says that there is no value. -/
def poll : Poller W (Absent α) (Option α) := fun c => pure (.ready (.ok none), c)

/-- The computation in one line, from the name of its type. -/
def render (typeName : String) (_c : Absent α) : String := "Null<" ++ typeName ++ ">"

end Absent

end Stepwise
