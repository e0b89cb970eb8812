import Stepwise.Proofs.Job.Find
import Stepwise.Proofs.Script.Lockstep

/-! # What a script does to its world

A script only adds to the log of its world and to the mailboxes that were used, and it never changes the
number of the poll that is going on: that is done from outside, between two polls.

* `World.Follows` says so of two worlds, `World.Grows` says it of the log. `keeps_build`, `keeps_launch` and
  `Task.keeps_poll` say it of a whole program.
* `build_below` and `launch_below`: with more fuel the same task is made.
-/

namespace Stepwise.Script
set_option autoImplicit false

/-- The log has only grown. -/
def World.Grows (w w' : World) : Prop := w.events <:+ w'.events

/-- The channels that were received from or sent to. -/
def World.used (w : World) : List Int64 := w.mailboxes.map Prod.fst

/-- The log and the channels that were used have only grown, in the same poll. -/
structure World.Follows (w w' : World) : Prop where
  grows : w.Grows w'
  poller : w'.poller = w.poller
  used : w.used ⊆ w'.used

instance : Std.Refl World.Grows := ⟨fun w => List.suffix_refl w.events⟩

instance : Trans World.Grows World.Grows World.Grows := ⟨List.IsSuffix.trans⟩

instance : Std.Refl World.Follows := ⟨fun w => ⟨List.suffix_refl w.events, rfl, List.Subset.refl w.used⟩⟩

instance : Trans World.Follows World.Follows World.Follows :=
  ⟨fun h h' => ⟨Trans.trans h.grows h'.grows, h'.poller.trans h.poller, List.Subset.trans h.used h'.used⟩⟩

theorem World.mem_used_setMailbox {w : World} {c channel : Int64} {box : Mailbox} :
    c ∈ (w.setMailbox channel box).used ↔ c = channel ∨ c ∈ w.used := by
  simp only [World.used, World.setMailbox, List.map_cons, List.mem_cons, List.mem_map, List.mem_filter, bne_iff_ne]
  by_cases hc : c = channel
  · simp only [hc, true_or]
  · have hkept : (∃ entry, (entry ∈ w.mailboxes ∧ entry.1 ≠ channel) ∧ entry.1 = c) ↔
        ∃ entry ∈ w.mailboxes, entry.1 = c := by
      refine exists_congr fun entry => ⟨And.imp_left And.left, ?_⟩
      rintro ⟨h, rfl⟩
      exact ⟨⟨h, hc⟩, rfl⟩
    rw [hkept]

section Follows

variable {F : Type}

/-! ## The calls of a script -/

theorem World.follows_note (w : World) (event : Event) :
    w.Follows { w with events := event :: w.events } :=
  ⟨List.suffix_cons event w.events, rfl, List.Subset.refl w.used⟩

theorem World.follows_of_events {w w' : World} (hevents : w'.events = w.events)
    (hpoller : w'.poller = w.poller) (hmailboxes : w'.mailboxes = w.mailboxes) : w.Follows w' := by
  have hgrows : w.events <:+ w'.events := hevents ▸ List.suffix_refl w'.events
  have hused : w.used = w'.used := by rw [World.used, World.used, hmailboxes]
  exact ⟨hgrows, hpoller, hused ▸ List.Subset.refl w.used⟩

theorem World.follows_setMailbox (w : World) (channel : Int64) (box : Mailbox) :
    w.Follows (w.setMailbox channel box) :=
  ⟨List.suffix_refl w.events, rfl, fun _ hc => World.mem_used_setMailbox.2 (.inr hc)⟩

theorem World.keeps_note (event : Event) : Effect.Keeps World.Follows (World.note event) :=
  fun w => w.follows_note event

theorem keeps_evaluate (scope : Scope) (e : Expr) :
    Effect.Keeps World.Follows (evaluate scope e) := Effect.Keeps.reads _

theorem keeps_setRegister (name : String) (v : Value) :
    Effect.Keeps World.Follows (World.setRegister name v) :=
  fun _ => World.follows_of_events rfl rfl rfl

theorem World.keeps_requestMeter (outcome : Outcome Value) :
    Effect.Keeps World.Follows (World.requestMeter outcome) :=
  fun _ => World.follows_of_events rfl rfl rfl

theorem World.keeps_collect (channel : Int64) :
    Effect.Keeps World.Follows (World.collect channel) := by
  intro w
  rw [World.collect]
  cases (w.mailbox channel).content <;> exact World.follows_setMailbox w channel _

theorem World.keeps_deliver (channel : Int64) (outcome : Outcome Value) :
    Effect.Keeps World.Follows (World.deliver channel outcome) := by
  intro w
  rw [World.deliver]
  cases (w.mailbox channel).content with
  | some held => exact Std.Refl.refl w
  | none =>
    have hput := World.follows_setMailbox w channel { content := some outcome }
    cases (w.mailbox channel).waker with
    | none => exact hput
    | some number => exact { hput with }

theorem World.lockstep_since (first : World) : World.Lockstep (Since World.Follows first 0) where
  registers h := by rw [h.1]
  level h := by rw [h.1]
  event e h := by
    obtain ⟨rfl, hfollows⟩ := h
    exact ⟨rfl, Trans.trans hfollows (World.follows_note _ e)⟩
  assign registers h := by
    obtain ⟨rfl, hfollows⟩ := h
    exact ⟨rfl, Trans.trans hfollows (World.follows_of_events rfl rfl rfl)⟩

/-- What a script does in lockstep with itself only adds to the log. -/
theorem keeps_of_alike {A : Type} {m : Effect World A}
    (h : ∀ first, Alike (Since World.Follows first) m) : Effect.Keeps World.Follows m :=
  Effect.Keeps.of_paired fun first => (h first).imp fun hsame => hsame.2.2

theorem keeps_logFailure (failure : Option Failure) (message : Closure Expr) (sql : String) :
    Effect.Keeps World.Follows (Statement.logFailure failure (compose message) sql) :=
  keeps_of_alike fun first => alike_logFailure (World.lockstep_since first) failure message sql

theorem Supply.keeps_next (source : Supply) : Effect.Keeps World.Follows (Supply.next source) :=
  keeps_of_alike fun first => Supply.alike_next (World.lockstep_since first) source

theorem keeps_callFilter (filter : Option (Closure Rule)) (call : Call Value) :
    Effect.Keeps World.Follows (callFilter filter call) :=
  keeps_of_alike fun first => alike_callFilter (World.lockstep_since first) filter call

theorem Shape.keeps_plan (scope : Scope) (shape : Shape) :
    Effect.Keeps World.Follows (shape.plan scope) :=
  keeps_of_alike fun first => Shape.alike_plan (World.lockstep_since first) scope shape

/-! ## Making tasks -/

theorem keeps_callStep {build : Scope → Program → Effect World Task}
    (hbuild : ∀ scope program, Effect.Keeps World.Follows (build scope program))
    (c : Closure Program) (call : Call Value) :
    Effect.Keeps World.Follows (callStep build c call) := by
  refine Effect.Keeps.bind (fun w => World.follows_of_events rfl rfl rfl) fun id => ?_
  exact (World.keeps_note _).bind fun _ => (hbuild _ c.body).bind fun _ => Effect.Keeps.pure _

theorem keeps_launch {build : Scope → Program → Effect World Task}
    (hbuild : ∀ scope program, Effect.Keeps World.Follows (build scope program)) (fuel : Nat)
    (scope : Scope) (shape : Shape) (step : Program) :
    Effect.Keeps World.Follows (launch build fuel scope shape step) := by
  refine (Shape.keeps_plan scope shape).bind fun plan => ?_
  refine (Job.keeps_start Supply.keeps_next (keeps_callStep hbuild) fuel plan _ _).bind fun job => ?_
  cases shape.watch with
  | none => exact Effect.Keeps.pure _
  | some watch => exact (keeps_evaluate scope watch.sql).bind fun _ => Effect.Keeps.pure _

theorem keeps_build (fuel : Nat) (scope : Scope) (program : Program) :
    Effect.Keeps World.Follows (build fuel scope program) := by
  induction fuel generalizing scope program with
  | zero => exact Effect.Keeps.cut
  | succ fuel ih =>
    cases program with
    | set register e next =>
      exact (keeps_evaluate scope e).bind fun v => (keeps_setRegister register v).bind fun _ =>
        ih scope next
    | branch condition yes no =>
      refine (keeps_evaluate scope condition).bind fun c => ?_
      cases c.isTrue with
      | true => exact ih scope yes
      | false => exact ih scope no
    | ok e => exact (keeps_evaluate scope e).bind fun _ => Effect.Keeps.pure _
    | fail x => exact (Effect.Keeps.reads _).bind fun _ => Effect.Keeps.pure _
    | suspend count rest =>
      refine (keeps_evaluate scope count).bind fun k => ?_
      exact Effect.Keeps.bind (fun w => World.follows_of_events rfl rfl rfl) fun _ => Effect.Keeps.pure _
    | receive channel => exact (keeps_evaluate scope channel).bind fun _ => Effect.Keeps.pure _
    | loop shape step => exact keeps_launch ih fuel scope shape step
    | meter e =>
      exact (keeps_evaluate scope e).bind fun _ => (World.keeps_requestMeter _).bind fun _ =>
        Effect.Keeps.pure _
    | meterFail e =>
      exact (keeps_evaluate scope e).bind fun _ => (World.keeps_requestMeter _).bind fun _ =>
        Effect.Keeps.pure _

theorem keeps_kit {build : Scope → Program → Effect World Task}
    (hbuild : ∀ scope program, Effect.Keeps World.Follows (build scope program))
    (poll : Poller World Task Value) : (kit build poll).Keeps World.Follows where
  next := Supply.keeps_next
  test := keeps_callFilter
  step := keeps_callStep hbuild

/-! ## Polling -/

theorem MeterStep.keeps_poll (step : MeterStep Value) :
    Effect.Keeps World.Follows (step.poll World.wake World.changeMeter) := by
  cases step with
  | resolved x => cases x <;> exact Effect.Keeps.pure _
  | fresh outcome =>
    exact Effect.Keeps.bind (fun w => World.follows_of_events rfl rfl rfl) fun _ => Effect.Keeps.pure _
  | yielded outcome =>
    exact Effect.Keeps.bind (fun w => World.follows_of_events rfl rfl rfl) fun _ => Effect.Keeps.pure _
  | spent => exact Effect.Keeps.pure _

theorem Numbered.keeps_poll {poll : Poller World Task Value}
    (hpoll : ∀ task, Effect.Keeps World.Follows (poll task)) (x : Numbered Task) :
    Effect.Keeps World.Follows (Numbered.poll poll x) :=
  (World.keeps_note _).bind fun _ => (hpoll x.task).bind fun _ => Effect.Keeps.pure _

theorem Watched.keeps_poll {poll : Poller World Task Value}
    (hpoll : ∀ task, Effect.Keeps World.Follows (poll task)) (x : Watched Task (Closure Expr)) :
    Effect.Keeps World.Follows (x.poll poll compose) := by
  cases x with
  | finished => exact Effect.Keeps.pure _
  | active task message sql =>
    refine (hpoll task).bind fun r => ?_
    obtain ⟨answer, task⟩ := r
    cases answer with
    | ready o =>
      cases o with
      | ok v => exact Effect.Keeps.pure _
      | error e => exact (keeps_logFailure (some e) message sql).bind fun _ => Effect.Keeps.pure _
    | _ => exact Effect.Keeps.pure _

theorem Task.keeps_poll (fuel : Nat) (task : Task) :
    Effect.Keeps World.Follows (Task.poll fuel task) := by
  induction fuel generalizing task with
  | zero => exact Effect.Keeps.cut
  | succ fuel ih =>
    cases task with
    | settled c => exact Effect.Keeps.pure _
    | failed x => cases x <;> exact Effect.Keeps.pure _
    | suspended left rest scope =>
      cases left with
      | zero => exact (keeps_build fuel scope rest).bind ih
      | succ left =>
        exact Effect.Keeps.bind (fun w => World.follows_of_events rfl rfl rfl) fun _ =>
          Effect.Keeps.pure _
    | receiving channel =>
      exact (World.keeps_collect channel).bind fun _ => Effect.Keeps.pure _
    | metered step => exact (MeterStep.keeps_poll step).bind fun _ => Effect.Keeps.pure _
    | looping job =>
      have hkit := keeps_kit (keeps_build fuel) (Task.poll fuel)
      exact (Job.keeps_poll hkit (Numbered.keeps_poll ih) fuel job).bind fun _ => Effect.Keeps.pure _
    | watched w => exact (Watched.keeps_poll ih w).bind fun _ => Effect.Keeps.pure _

end Follows

/-! ## More fuel -/

theorem callStep_below {build build' : Scope → Program → Effect World Task}
    (hbuild : ∀ scope program, (build scope program).Below (build' scope program))
    (c : Closure Program) (call : Call Value) : (callStep build c call).Below (callStep build' c call) :=
  (Effect.Below.refl _).bind fun _ => (Effect.Below.refl _).bind fun _ =>
    (hbuild _ _).bind fun _ => Effect.Below.refl _

theorem launch_below {build build' : Scope → Program → Effect World Task}
    (hbuild : ∀ scope program, (build scope program).Below (build' scope program)) {n n' : Nat}
    (hn : n ≤ n') (scope : Scope) (shape : Shape) (step : Program) :
    (launch build n scope shape step).Below (launch build' n' scope shape step) := by
  refine (Effect.Below.refl _).bind fun plan => ?_
  exact (Job.start_below (callStep_below hbuild) hn plan _ _).bind fun _ => Effect.Below.refl _

theorem build_below {n n' : Nat} (hn : n ≤ n') (scope : Scope) (program : Program) :
    (build n scope program).Below (build n' scope program) := by
  induction n generalizing n' scope program with
  | zero => exact Effect.Below.cut _
  | succ n ih =>
    obtain ⟨n', rfl⟩ : ∃ m, n' = m + 1 := ⟨n' - 1, by omega⟩
    have hn' : n ≤ n' := by omega
    cases program with
    | set register e next =>
      exact (Effect.Below.refl _).bind fun _ => (Effect.Below.refl _).bind fun _ => ih hn' scope next
    | branch condition yes no =>
      refine (Effect.Below.refl _).bind fun c => ?_
      cases c.isTrue with
      | true => exact ih hn' scope yes
      | false => exact ih hn' scope no
    | loop shape step => exact launch_below (ih hn') hn' scope shape step
    | _ => exact Effect.Below.refl _

end Stepwise.Script
