import Stepwise.Poll
import Stepwise.Source

/-!
# Walks

A walk is the place of a loop in what it runs over. Asked for the next step, it goes on to the
next element that the filter accepts and requests the step for it.

* `Found F` is the answer: a step for an accepted element, the end, or the failure of a filter.
* `Walk` runs over a source. Its index counts every element that was taken from the source, the
  rejected ones too, and filter and step both see it.
* `RangeWalk` runs over the integers from `current` up to `stop`, without it.
-/

namespace Stepwise
set_option autoImplicit false

/-- What a walk finds when it is asked for the next step. -/
inductive Found (F : Type)
  | step (x : F)
  | nothing
  | failed (failure : Failure)

/-- Poll the step, whose value only says to go on; the end says to stop. -/
def Found.poll {W F β : Type} (poll : Poller W F β) : Poller W (Found F) Bool
  | .step x => do
    let (answer, x) ← poll x
    pure (answer.map fun _ => true, .step x)
  | .nothing => pure (.ready (.ok false), .nothing)
  | .failed e => pure (.ready (.error e), .failed e)

/-! ## Over a source -/

/-- What a loop over a source calls: the source, the filter with its private state `P`, and the
step with its private state `G`. Filter and step get the element and its index. -/
structure Scan (W I α P G F : Type) where
  next : Next W I α
  test : P → α → Nat → Effect W (Outcome Bool × P)
  step : G → α → Nat → Effect W (F × G)

/-- The place of a loop over a source. -/
structure Walk (I P G : Type) where
  source : I
  filter : P
  consumer : G
  /-- The number of elements taken from the source. -/
  index : Nat := 0

/-- The step for the next accepted element. The fuel bounds the number of elements taken. -/
def Walk.next {W I α P G F : Type} (b : Scan W I α P G F) :
    Nat → Walk I P G → Effect W (Found F × Walk I P G)
  | 0, _ => Effect.cut
  | fuel + 1, p => do
    let (entry, source) ← b.next p.source
    match entry with
    | none => pure (.nothing, { p with source })
    | some x => do
      let i := p.index
      let (verdict, filter) ← b.test p.filter x i
      let p := { p with source, filter, index := i + 1 }
      match verdict with
      | .ok true => do
        let (step, consumer) ← b.step p.consumer x i
        pure (.step step, { p with consumer })
      | .ok false => p.next b fuel
      | .error e => pure (.failed e, p)

/-! ## Over a range -/

/-- What a loop over a range calls: filter and step get the integer. -/
structure RangeScan (W P G F : Type) where
  test : P → Int32 → Effect W (Outcome Bool × P)
  step : G → Int32 → Effect W (F × G)

/-- The place of a loop over the integers from `current` up to `stop`, without it. -/
structure RangeWalk (P G : Type) where
  current : Int32
  stop : Int32
  filter : P
  consumer : G

namespace RangeWalk

variable {W P G F : Type}

def remaining (p : RangeWalk P G) : Nat := (p.stop.toInt - p.current.toInt).toNat

/-- Go on over the next integers, at most as many as are left. -/
def scan (b : RangeScan W P G F) :
    Nat → RangeWalk P G → Effect W (Found F × RangeWalk P G)
  | 0, p => pure (.nothing, p)
  | left + 1, p => do
    let i := p.current
    let (verdict, filter) ← b.test p.filter i
    let p := { p with current := i + 1, filter }
    match verdict with
    | .ok true => do
      let (step, consumer) ← b.step p.consumer i
      pure (.step step, { p with consumer })
    | .ok false => p.scan b left
    | .error e => pure (.failed e, p)

/-- The step for the next accepted integer. -/
def next (b : RangeScan W P G F) (p : RangeWalk P G) : Effect W (Found F × RangeWalk P G) :=
  p.scan b p.remaining

theorem remaining_eq_zero_iff (p : RangeWalk P G) : p.remaining = 0 ↔ ¬ p.current < p.stop := by
  rw [Int32.lt_iff_toInt_lt, remaining]
  omega

end RangeWalk

end Stepwise
