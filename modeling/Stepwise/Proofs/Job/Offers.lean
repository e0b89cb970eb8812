import Stepwise.Job
import Stepwise.Proofs.RangeWalk

/-! # The elements of a plan

What a plan runs over, element by element and in order, without the machinery that runs it.

* An `Offer` is an element with the calls that belong to it: the call of the filter, if there is one, and the call of
  the step.
* `Plan.offers` lists the elements. Those of a source are what it gave, and a driven loop has one for its first turn
  and one for every time that it was told to go on.
-/

namespace Stepwise
set_option autoImplicit false

variable {I α : Type}

/-- An element with the calls that belong to it. -/
structure Offer (α : Type) where
  /-- How the filter is called; without a filter every element is accepted. -/
  test : Option (Call α)
  step : Call α

namespace Offer

def number (filtered : Bool) (i : Int32) : Offer α where
  test := if filtered then some (.number i) else none
  step := .number i

def turn : Offer α := { test := none, step := .turn }

/-- What the filter has said of an element that was decided on. -/
def verdict? (o : Offer α) (accepted : Bool) : Option (Call α × Outcome Bool) := o.test.map (·, .ok accepted)

end Offer

namespace Form

def offer (form : Form) (x : α) (i : Nat) : Offer α where
  test := form.test.map (·.call x i)
  step := form.step.call x i

/-- The elements of a list, of which the first one has this index. -/
def offersFrom (form : Form) (i : Nat) (elements : List α) : List (Offer α) :=
  (elements.zipIdx i).map fun e => form.offer e.1 e.2

theorem offersFrom_cons (form : Form) (i : Nat) (x : α) (rest : List α) :
    form.offersFrom i (x :: rest) = form.offer x i :: form.offersFrom (i + 1) rest := rfl

theorem offersFrom_append (form : Form) (i : Nat) (xs ys : List α) :
    form.offersFrom i (xs ++ ys) = form.offersFrom i xs ++ form.offersFrom (i + xs.length) ys := by
  rw [offersFrom, List.zipIdx_append, List.map_append]
  rfl

theorem length_offersFrom (form : Form) (i : Nat) (elements : List α) :
    (form.offersFrom i elements).length = elements.length := by
  rw [offersFrom, List.length_map, List.length_zipIdx]

end Form

/-- The elements of a plan in their order. The source has given these, and a driven loop was told so often to go on. -/
def Plan.offers (given : List α) (repeats : Nat) : Plan I α → List (Offer α)
  | .iterate form _ => form.offersFrom 0 given
  | .list form elements => form.offersFrom 0 elements
  | .range filtered start stop => (integers start stop).map (.number filtered)
  | .chain _ => Form.each.offersFrom 0 given
  | .sum _ => Form.each.offersFrom 0 given
  | .sumList elements => Form.each.offersFrom 0 elements
  | .sumRange start stop => (integers start stop).map (.number false)
  | .apply elements => Form.each.offersFrom 0 elements
  | .drive => List.replicate (repeats + 1) .turn

def Plan.isDrive : Plan I α → Bool
  | .drive => true
  | _ => false

/-- The elements come from the source, and are called in this form. -/
def Plan.Asks (form : Form) : Plan I α → Prop
  | .iterate form' _ => form' = form
  | .chain _ => Form.each = form
  | .sum _ => Form.each = form
  | _ => False

theorem Plan.offers_of_asks {form : Form} {plan : Plan I α} (h : plan.Asks form) (given : List α) (repeats : Nat) :
    plan.offers given repeats = form.offersFrom 0 given := by
  cases plan <;> cases h <;> rfl

end Stepwise
