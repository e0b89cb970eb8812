import Stepwise.Summation
import Stepwise.Chain
import Stepwise.Application

/-!
# Jobs

Every kind of looping computation of the library, made and polled in one way.

* `Call α` is what a filter or a step is called with, and `Kit` holds all that a job calls.
* `Plan` says what a job runs over and how; `Form` says which arguments filter and step of a loop
  over elements get. `Form.each`, `Form.eachWhere`, `Form.eachIndexed`, `Form.eachIndexedWhere`
  and `Form.positionWhere` are the usual ones.
* `Job.start` makes the job of a plan and `Job.poll` polls it. Only sums resolve to a number.
-/

namespace Stepwise
set_option autoImplicit false

/-- What a filter or a step is called with. -/
inductive Call (α : Type)
  | element (x : α)
  | indexed (x : α) (index : Nat)
  /-- Only the index of an element. -/
  | position (index : Nat)
  | number (i : Int32)
  /-- Nothing: the next turn of a driven loop. -/
  | turn
deriving DecidableEq

/-- All that a job calls: its source, its filter with the private state `P`, its step with the
private state `G`, and the steps `F` under way, which resolve to `β`. -/
structure Kit (W I α P G F β : Type) where
  next : Next W I α
  test : P → Call α → Effect W (Outcome Bool × P)
  step : G → Call α → Effect W (F × G)
  poll : Poller W F β
  /-- Whether a driven loop goes on after a step that resolved to this. -/
  isTrue : β → Bool
  /-- What a step that resolved to this adds to a sum. -/
  summand : β → Int32

/-! ## Plans -/

/-- Which arguments a function on elements gets. -/
inductive Arguments
  | element
  | indexed
  | position

/-- The call for an element and its index. -/
def Arguments.call {α : Type} : Arguments → α → Nat → Call α
  | .element, x, _ => .element x
  | .indexed, x, i => .indexed x i
  | .position, _, i => .position i

/-- How filter and step of a loop over elements are called; `none` stands for no filter. -/
structure Form where
  test : Option Arguments
  step : Arguments

namespace Form

def each : Form := ⟨none, .element⟩

def eachWhere : Form := ⟨some .element, .element⟩

def eachIndexed : Form := ⟨none, .indexed⟩

/-- A step for each element with its index that the filter accepts, which sees both. -/
def eachIndexedWhere : Form := ⟨some .indexed, .indexed⟩

/-- A step for each element with its index that the filter accepts, which sees only the index. -/
def positionWhere : Form := ⟨some .position, .indexed⟩

end Form

/-- What a job is to do. -/
inductive Plan (I α : Type)
  | iterate (form : Form) (source : I)
  | list (form : Form) (elements : List α)
  /-- Loop over the integers from `start` up to `stop`, without it. -/
  | range (filtered : Bool) (start stop : Int32)
  /-- Chain one continuation per element of a source. -/
  | chain (source : I)
  | sum (source : I)
  | sumList (elements : List α)
  | sumRange (start stop : Int32)
  | apply (elements : List α)
  /-- Repeat the step until it resolves to something that is not true. -/
  | drive

/-! ## Jobs -/

/-- A looping computation that was made. -/
inductive Job (I α P G F : Type)
  | iterate (form : Form) (loop : Loop (Walk (Lookahead I α) P G) F)
  | list (form : Form) (loop : Loop (Walk (Lookahead (List α) α) P G) F)
  | range (filtered : Bool) (loop : Loop (RangeWalk P G) F)
  | chain (chain : Chain α G F)
  | sum (sum : Summation (Loop (Walk (Lookahead (Lookahead I α) α) Unit G) F))
  | sumList (sum : Summation (Loop (Walk (Lookahead (Lookahead (List α) α) α) Unit G) F))
  | sumRange (sum : Summation (Loop (RangeWalk Unit G) F))
  | apply (application : Application F (Loop (Walk (Lookahead (List α) α) Unit G) F))
  | drive (loop : While G F)

namespace Kit

variable {W I J α P G F β : Type}

def scan (k : Kit W I α P G F β) (form : Form) (next : Next W J α) : Scan W J α P G F where
  next
  test p x i :=
    match form.test with
    | none => pure (.ok true, p)
    | some arguments => k.test p (arguments.call x i)
  step g x i := k.step g (form.step.call x i)

/-- The calls of a loop over elements that has no filter. -/
def plainScan (k : Kit W I α P G F β) (next : Next W J α) : Scan W J α Unit G F where
  next
  test p _ _ := pure (.ok true, p)
  step g x _ := k.step g (.element x)

def rangeScan (k : Kit W I α P G F β) (filtered : Bool) : RangeScan W P G F where
  test p i := if filtered then k.test p (.number i) else pure (.ok true, p)
  step g i := k.step g (.number i)

/-- The calls of a loop over a range that has no filter. -/
def plainRangeScan (k : Kit W I α P G F β) : RangeScan W Unit G F where
  test p _ := pure (.ok true, p)
  step g i := k.step g (.number i)

def stepper (k : Kit W I α P G F β) : Stepper W G F where
  request g := k.step g .turn
  poll := k.poll.map k.isTrue

end Kit

namespace Job

variable {W I α P G F β : Type}

/-- Make the job of a plan, given how its source and its step are called. The fuel bounds the
elements of a chain. -/
def start (next : Next W I α) (step : G → Call α → Effect W (F × G)) (fuel : Nat)
    (plan : Plan I α) (filter : P) (consumer : G) : Effect W (Job I α P G F) :=
  match plan with
  | .iterate form source => do
    let l ← Loop.ofSource next source filter consumer
    pure (.iterate form l)
  | .list form elements => do
    let l ← Loop.ofSource Next.ofList elements filter consumer
    pure (.list form l)
  | .range filtered start stop => pure (.range filtered (Loop.ofRange start stop filter consumer))
  | .chain source => do
    let c ← Chain.ofSource next fuel source consumer
    pure (.chain c)
  | .sum source => do
    let s ← Summation.ofSource next source consumer
    pure (.sum s)
  | .sumList elements => do
    let s ← Summation.ofSource Next.ofList elements consumer
    pure (.sumList s)
  | .sumRange start stop => pure (.sumRange (Summation.ofRange start stop consumer))
  | .apply elements => do
    let a ← Application.ofList (fun g x => step g (.element x)) elements consumer
    pure (.apply a)
  | .drive => pure (.drive { step := consumer })

/-- The answer of a job that has no value of its own. -/
def unvalued {S : Type} (wrap : S → Job I α P G F) (m : Effect W (Poll Unit × S)) :
    Effect W (Poll (Option Int32) × Job I α P G F) := do
  let (answer, s) ← m
  pure (answer.map fun _ => none, wrap s)

def valued {S : Type} (wrap : S → Job I α P G F) (m : Effect W (Poll Int32 × S)) :
    Effect W (Poll (Option Int32) × Job I α P G F) := do
  let (answer, s) ← m
  pure (answer.map some, wrap s)

/-- Poll a job. The fuel bounds the number of steps and the elements taken for each of them. -/
def poll (k : Kit W I α P G F β) (fuel : Nat) : Poller W (Job I α P G F) (Option Int32)
  | .iterate form l =>
    unvalued (.iterate form)
      (l.poll (Walk.next (k.scan form (Lookahead.next k.next)) fuel) k.poll fuel)
  | .list form l =>
    unvalued (.list form)
      (l.poll (Walk.next (k.scan form (Lookahead.next Next.ofList)) fuel) k.poll fuel)
  | .range filtered l =>
    unvalued (.range filtered) (l.poll (RangeWalk.next (k.rangeScan filtered)) k.poll fuel)
  | .chain c =>
    unvalued .chain (c.poll (fun g x => k.step g (.element x)) k.poll)
  | .sum s =>
    valued .sum
      (s.poll (Walk.next (k.plainScan (Lookahead.next (Lookahead.next k.next))) fuel)
        (k.poll.map k.summand) fuel)
  | .sumList s =>
    valued .sumList
      (s.poll (Walk.next (k.plainScan (Lookahead.next (Lookahead.next Next.ofList))) fuel)
        (k.poll.map k.summand) fuel)
  | .sumRange s =>
    valued .sumRange
      (s.poll (RangeWalk.next k.plainRangeScan) (k.poll.map k.summand) fuel)
  | .apply a =>
    unvalued .apply
      (a.poll (Walk.next (k.plainScan (Lookahead.next Next.ofList)) fuel) k.poll fuel)
  | .drive l => unvalued .drive (l.poll k.stepper fuel)

/-- Whether a driven loop has resolved; other jobs do not say. -/
def isOver? : Job I α P G F → Option Bool
  | .drive l => some l.isOver
  | _ => none

end Job

end Stepwise
