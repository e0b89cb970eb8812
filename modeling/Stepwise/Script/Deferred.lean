import Stepwise.Trampoline
import Stepwise.Script.Expr

/-!
# Scripts that build trampolines

A `Node` describes a trampoline on script values. The work and the continuations it hands over are
closures: a piece of the script with the scope it was written in. `Node.build` gives the
trampoline, `meaning` says what its closures do, and `perform` carries an `Action` out on it.
Tagged work leaves an `Event` in the log when it runs; a tag is an integer or a text.
-/

namespace Stepwise.Script.Deferred
set_option autoImplicit false

/-- The description of a trampoline. -/
inductive Node
  | done (value : Expr)
  | more (tag : Option Value) (next : Node)
  | andThen (first : Node) (tag : Option Value) (name : String) (next : Node)
  | rawAndThen (first : Node) (tag : Option Value) (name : String) (next : Node)
  | map (first : Node) (tag : Option Value) (name : String) (value : Expr)
  | branch (condition : Expr) (yes no : Node)
  | call (definition : String) (arguments : List Expr)

/-- A node with parameters that other nodes may call. -/
structure Definition where
  name : String
  parameters : List String
  body : Node

/-- The scope of a call: the parameters are bound one after the other, so that of two with one
name the later is seen. A parameter without an argument is not bound. -/
def Definition.bind (d : Definition) (arguments : List Value) : Scope :=
  (d.parameters.zip arguments).reverse

/-- What tagged work leaves in the log. -/
inductive Event
  | more (tag : Value)
  | resumed (tag value : Value)
  | mapped (tag value : Value)

structure Work where
  tag : Option Value
  next : Node
  scope : Scope

structure Then where
  tag : Option Value
  name : String
  next : Node
  scope : Scope

/-- The log, the latest event first. -/
abbrev Log := List Event

abbrev Computation := Trampoline Work Then Log Value

def note (tag : Option Value) (event : Value → Event) : Effect Log Unit :=
  match tag with
  | none => pure ()
  | some tag => Effect.changes (event tag :: ·)

/-- The function of a `map`: bind the value and evaluate. -/
def mapping (tag : Option Value) (name : String) (e : Expr) (scope : Scope) :
    Value → Effect Log Value := fun v => do
  note tag (.mapped · v)
  pure (e.eval [] ((name, v) :: scope))

/-- Build the trampoline that a node describes. The fuel bounds the depth of calls. -/
def Node.build (definitions : List Definition) : Nat → Scope → Node → Effect Log Computation
  | 0, _, _ => Effect.cut
  | fuel + 1, scope, node =>
    match node with
    | .done e => pure (.done (e.eval [] scope))
    | .more tag next => pure (.more (.call ⟨tag, next, scope⟩))
    | .andThen first tag name next => do
      let t ← first.build definitions fuel scope
      pure (t.continueWith (.call ⟨tag, name, next, scope⟩))
    | .rawAndThen first tag name next => do
      let t ← first.build definitions fuel scope
      pure (.andThen t (.call ⟨tag, name, next, scope⟩))
    | .map first tag name e => do
      let t ← first.build definitions fuel scope
      t.map (mapping tag name e scope)
    | .branch condition yes no =>
      if (condition.eval [] scope).isTrue then yes.build definitions fuel scope
      else no.build definitions fuel scope
    | .call name arguments =>
      match definitions.find? (·.name = name) with
      | none => Effect.cut
      | some d =>
        d.body.build definitions fuel (d.bind (arguments.map (·.eval [] scope)))

def meaning (definitions : List Definition) (fuel : Nat) :
    Trampoline.Meaning Work Then Log Value where
  thunk work := do
    note work.tag .more
    work.next.build definitions fuel work.scope
  cont k v := do
    note k.tag (.resumed · v)
    k.next.build definitions fuel ((k.name, v) :: k.scope)

/-! ## Actions -/

inductive Action
  | isDone
  | spread
  | step
  | run
  | map (tag : Option Value) (name : String) (value : Expr)
  | andThen (tag : Option Value) (name : String) (next : Node)
  | stepUpTo (limit : Nat)
  | times (count : Nat) (actions : List Action)

inductive Reply
  | nothing
  | flag (b : Bool)
  | text (s : String)
  | value (v : Value)
  | count (n : Nat)

/-- The shape of a trampoline in one line: work that was handed over is not looked into. -/
def render : Computation → String
  | .done v => Text.inline "Done" v
  | .more _ => "More(..)"
  | .andThen _ _ => "AndThen(..)"

/-- The shape of a trampoline with a value on a line of its own. -/
def spread : Computation → String
  | .done v => Text.spread "Done" v
  | t => render t

/-- Do something `count` times as long as a trampoline is left. -/
def iterate (f : Computation → Effect Log (Option Computation)) :
    Nat → Computation → Effect Log (Option Computation)
  | 0, t => pure (some t)
  | count + 1, t => do
    match ← f t with
    | none => pure none
    | some t => iterate f count t

mutual

/-- Carry an action out; gives the reply and the trampoline that is left, if any. -/
def perform (definitions : List Definition) (fuel : Nat) (action : Action) (t : Computation) :
    Effect Log (Reply × Option Computation) :=
  match action with
  | .isDone => pure (.flag t.isDone, some t)
  | .spread => pure (.text (spread t), some t)
  | .step => do
    let t ← t.step (meaning definitions fuel)
    pure (.nothing, some t)
  | .run => do
    let v ← t.run (meaning definitions fuel) fuel
    pure (.value v, none)
  | .map tag name e => do
    let t ← t.map (mapping tag name e [])
    pure (.nothing, some t)
  | .andThen tag name next =>
    pure (.nothing, some (t.continueWith (.call ⟨tag, name, next, []⟩)))
  | .stepUpTo limit => do
    let (made, t) ← t.stepUpTo (meaning definitions fuel) limit
    pure (.count made, some t)
  | .times count actions => do
    let t ← iterate (performAll definitions fuel actions) count t
    pure (.nothing, t)

def performAll (definitions : List Definition) (fuel : Nat) (actions : List Action)
    (t : Computation) : Effect Log (Option Computation) :=
  match actions with
  | [] => pure (some t)
  | action :: rest => do
    let (_, t) ← perform definitions fuel action t
    match t with
    | none => pure none
    | some t => performAll definitions fuel rest t

end

/-- What an action answered, the shape it left and the events it caused. -/
structure Step where
  reply : Reply
  shape : Option String
  events : List Event

def takeEvents : Effect Log (List Event) := fun log => .returned log.reverse []

def steps (definitions : List Definition) (fuel : Nat) :
    List Action → Computation → Effect Log (List Step)
  | [], _ => pure []
  | action :: rest, t => do
    let (reply, t) ← perform definitions fuel action t
    let events ← takeEvents
    match t with
    | none => pure [⟨reply, none, events⟩]
    | some t => do
      let reports ← steps definitions fuel rest t
      pure (⟨reply, some (render t), events⟩ :: reports)

/-- Build a trampoline and carry actions out on it; the first report is on the building. -/
def run (definitions : List Definition) (fuel : Nat) (start : Node) (actions : List Action) :
    Effect Log (List Step) := do
  let t ← start.build definitions fuel []
  let events ← takeEvents
  let reports ← steps definitions fuel actions t
  pure (⟨.nothing, some (render t), events⟩ :: reports)

end Stepwise.Script.Deferred
