import Stepwise.Suite.Trial

/-!
# The trials of the suite

Every kind of job over small inputs, then failures of steps and filters, and last some long runs,
which a loop that nested its polls would not survive.
-/

namespace Stepwise.Suite
set_option autoImplicit false

/-! ## Inputs and steps -/

def numbers (ns : List Int) : List Item := ns.map .number

def texts (ss : List String) : List Item := ss.map .text

/-- The integers from `start` on, `count` of them. -/
def interval (start : Int) (count : Nat) : List Int :=
  (List.range count).map fun (i : Nat) => start + Int.ofNat i

def elementCalls (items : List Item) : List (Call Item) := items.map .element

def numberCalls (ns : List Int) : List (Call Item) := ns.map fun n => .number (Int32.ofInt n)

def indexedCalls (pairs : List (Item × Nat)) : List (Call Item) :=
  pairs.map fun p => .indexed p.1 p.2

def positionCalls (positions : List Nat) : List (Call Item) := positions.map .position

/-- The number in a call, zero where there is none. -/
def numberOf : Call Item → Int
  | .element (.number n) => n
  | .indexed (.number n) _ => n
  | .number i => i.toInt
  | _ => 0

/-- The index in a call, zero where there is none. -/
def indexOf : Call Item → Nat
  | .indexed _ i => i
  | .position i => i
  | _ => 0

/-- A step of the meter that resolves to the number in its call. -/
def numberStep : Nat → Call Item → Request := fun _ call =>
  .meter (.ok (Int32.ofInt (numberOf call)))

/-- The cause of a step that is told to fail. -/
def stepCause (n : Int) : Cause := .step (Int64.ofInt n)

/-- A step that fails for the numbers that `bad` picks out. -/
def failingStep (bad : Int → Bool) : Nat → Call Item → Request := fun _ call =>
  let n := numberOf call
  if bad n then .meter (.error { cause := stepCause n }) else .meter (.ok (Int32.ofInt n))

/-! ## Loops -/

def sourceTrials : List Trial :=
  [ { plan := .iterate .each (numbers [5, 3, 8, 1])
      expectations := [.resolves none, .visits (elementCalls (numbers [5, 3, 8, 1])),
        .requested 4, .finished 4, .sequential] },
    { plan := .iterate .each (texts ["s", "p", "a", "c", "e", "d"])
      expectations := [.resolves none,
        .visits (elementCalls (texts ["s", "p", "a", "c", "e", "d"])), .sequential] },
    { plan := .iterate .each (texts ["alpha", "bravo", "charlie"])
      expectations := [.resolves none,
        .visits (elementCalls (texts ["alpha", "bravo", "charlie"]))] },
    { plan := .iterate .eachWhere
        [.entry 1 "one", .entry 2 "two", .entry 3 "three", .entry 4 "four"]
      accepts := fun call =>
        match call with
        | .element (.entry key _) => .ok (key % 2 == 0)
        | _ => .ok true
      expectations := [.resolves none,
        .visits (elementCalls [.entry 2 "two", .entry 4 "four"]), .requested 2, .sequential] },
    { plan := .iterate .eachIndexed (texts ["a", "b", "c"])
      expectations := [.resolves none,
        .visits (indexedCalls ((texts ["a", "b", "c"]).zipIdx))] },
    { plan := .iterate .eachWhere (numbers (interval 1 50))
      accepts := fun _ => .ok false
      expectations := [.resolves none, .testCount 50, .requested 0] },
    { plan := .chain (numbers (interval 0 100))
      expectations := [.resolves none, .visits (elementCalls (numbers (interval 0 100))),
        .sequential] } ]

def listTrials : List Trial :=
  let names := texts ["queue", "source", "walk", "step"]
  [ { plan := .list .each names
      expectations := [.resolves none, .visits (elementCalls names), .sequential] },
    { plan := .list .positionWhere names
      accepts := fun call => .ok (indexOf call != 1)
      expectations := [.resolves none, .tests (positionCalls [0, 1, 2, 3]),
        .visits (indexedCalls [(.text "queue", 0), (.text "walk", 2), (.text "step", 3)]),
        .sequential] } ]

def rangeTrials : List Trial :=
  [ { plan := .range false (-3) 4
      expectations := [.resolves none, .visits (numberCalls (interval (-3) 7)), .finished 7,
        .sequential] },
    { plan := .range true 0 20
      accepts := fun call => .ok (numberOf call % 5 == 0)
      expectations := [.resolves none, .visits (numberCalls [0, 5, 10, 15]), .sequential] },
    { plan := .range true 0 1000
      accepts := fun _ => .ok false
      expectations := [.resolves none, .requested 0] },
    { plan := .range false (Int32.maxValue - 2) Int32.maxValue
      expectations := [.resolves none,
        .visits [.number (Int32.maxValue - 2), .number (Int32.maxValue - 1)]] } ]

/-- Jobs that find nothing to run over, all with one meter. -/
def emptyTrials : List Trial :=
  [ { plan := .range false 0 0, expectations := [.resolves none] },
    { plan := .range false 10 (-10), keepsMeter := true, expectations := [.resolves none] },
    { plan := .list .each [], keepsMeter := true, expectations := [.resolves none] },
    { plan := .iterate .each [], keepsMeter := true, expectations := [.resolves none] },
    { plan := .iterate .eachIndexedWhere [], keepsMeter := true,
      expectations := [.resolves none, .testCount 0] },
    { plan := .sumRange 5 5, keepsMeter := true, expectations := [.resolves (some 0)] },
    { plan := .sum [], keepsMeter := true,
      expectations := [.resolves (some 0), .requested 0] } ]

/-- Indexes are places in the source: a rejected element keeps its own, so a step sees gaps. -/
def indexTrials : List Trial :=
  [ { plan := .iterate .eachIndexed (texts ["a", "b", "c", "d", "e"])
      expectations := [.resolves none,
        .visits (indexedCalls ((texts ["a", "b", "c", "d", "e"]).zipIdx))] },
    { plan := .iterate .eachIndexedWhere (texts ["a", "b", "c", "d", "e", "f"])
      accepts := fun call =>
        match call with
        | .indexed (.text s) _ => .ok (s != "b" && s != "c")
        | _ => .ok true
      expectations := [.resolves none,
        .tests (indexedCalls ((texts ["a", "b", "c", "d", "e", "f"]).zipIdx)),
        .visits (indexedCalls
          [(.text "a", 0), (.text "d", 3), (.text "e", 4), (.text "f", 5)])] },
    { plan := .iterate .eachIndexedWhere (numbers [10, 20, 30, 40, 50])
      accepts := fun call => .ok (indexOf call % 2 == 1)
      expectations := [.resolves none,
        .visits (indexedCalls [(.number 20, 1), (.number 40, 3)])] } ]

/-! ## Sums and applications -/

/-- Sums, which wrap around. -/
def sumTrials : List Trial :=
  [ { plan := .sum (numbers [1, 2, 3, 4])
      request := numberStep
      expectations := [.resolves (some 10), .requested 4, .sequential] },
    { plan := .sumRange 1 101
      request := numberStep
      expectations := [.resolves (some 5050), .visits (numberCalls (interval 1 100)),
        .sequential] },
    { plan := .sumList [.entry 3 "apple", .entry 4 "pear", .entry (-2) "fig"]
      request := fun _ call =>
        match call with
        | .element (.entry price _) => .meter (.ok (Int32.ofInt price))
        | _ => .meter (.ok 0)
      expectations := [.resolves (some 5)] },
    { plan := .sum (numbers [Int32.maxValue.toInt, 1])
      request := numberStep
      expectations := [.resolves (some Int32.minValue)] },
    { plan := .sumRange 0 4
      request := fun _ _ => .meter (.ok Int32.minValue)
      expectations := [.resolves (some 0)] } ]

/-- Applications to no element, to one and to several, which agree with the loop. -/
def applicationTrials : List Trial :=
  let several : List Item := [.number 1, .text "two", .text "3.5", .entry 4 "some"]
  [ { plan := .apply [], expectations := [.resolves none, .requested 0] },
    { plan := .apply [.text "single"]
      request := fun _ _ => .meter (.ok 42)
      expectations := [.resolves none, .visits (elementCalls [.text "single"]), .requested 1,
        .finished 1] },
    { plan := .apply several
      expectations := [.resolves none, .visits (elementCalls several)] },
    { plan := .list .each several
      expectations := [.resolves none, .visits (elementCalls several), .sequential] } ]

/-! ## Failures -/

/-- Failing steps: the failing one is the last that is requested. -/
def failingSteps : List Trial :=
  [ { plan := .range false 0 10
      request := failingStep (· == 3)
      expectations := [.fails (stepCause 3), .visits (numberCalls [0, 1, 2, 3]), .sequential] },
    { plan := .iterate .each (numbers (interval 1 99))
      request := failingStep (· % 7 == 0)
      expectations := [.fails (stepCause 7), .requested 7] },
    { plan := .list .each (numbers [10, 20, 30])
      request := failingStep fun _ => true
      expectations := [.fails (stepCause 10), .requested 1] },
    { plan := .sum (numbers [1, 2, 3, 4])
      request := failingStep (· == 4)
      expectations := [.fails (stepCause 4)] },
    { plan := .sumRange 0 5
      request := failingStep fun _ => true
      expectations := [.fails (stepCause 0), .requested 1] },
    { plan := .apply (numbers [99])
      request := failingStep fun _ => true
      expectations := [.fails (stepCause 99)] },
    { plan := .apply (numbers [1, 2, 3])
      request := failingStep (· == 2)
      expectations := [.fails (stepCause 2), .requested 2] } ]

/-- A watched loop, whose failure stays what it is. -/
def mutedTrial : Trial where
  plan := .range false 0 3
  request := failingStep (· == 1)
  watch := some ("Failed to delete the rows", "DELETE FROM t WHERE id = ?")
  expectations := [.fails (stepCause 1), .requested 2]

def failingFilters : List Trial :=
  let refusal : Cause := .message "Cannot filter an empty name"
  [ { plan := .iterate .eachWhere (texts ["a", "b", "", "c"])
      accepts := fun call =>
        if call = .element (.text "") then .error { cause := refusal } else .ok true
      expectations := [.fails refusal, .visits (elementCalls (texts ["a", "b"])),
        .sequential] },
    { plan := .range true 0 100
      accepts := fun call =>
        let n := numberOf call
        if n = 50 then .error { cause := stepCause 50 } else .ok (n % 10 == 0)
      expectations := [.fails (stepCause 50), .requested 5] } ]

/-! ## Long runs -/

/-- How long the long runs are: steps that give way start every poll anew, so that a shorter run
covers them. -/
def longRun : Flavor → Nat
  | .settled => 1000000
  | .yielding => 20000

/-- Long runs of a driven loop, of loops and of a sum. -/
def longTrials (flavor : Flavor) : List Trial :=
  let length := longRun flavor
  let stop := Int32.ofNat length
  [ { plan := .drive
      request := fun calls _ => .direct (.ok (if calls + 1 < length then 1 else 0))
      expectations := [.resolves none, .visitCount length] },
    { plan := .range false 0 stop
      request := numberStep
      expectations := [.resolves none, .finished length] },
    { plan := .iterate .each (List.replicate length (.text "x"))
      expectations := [.resolves none, .finished length] },
    { plan := .sumRange 0 stop
      request := fun _ _ => .newMeter (.ok 1)
      expectations := [.resolves (some stop)] } ]

end Stepwise.Suite
