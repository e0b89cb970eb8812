import Stepwise.Loop
import Stepwise.Proofs.Ensures
import Stepwise.Proofs.While.Direct

/-! # Places of loops

What every request of a loop keeps of its place, every poll keeps.

* `Loop.ofSource_eq`: a loop over a source when it was made.
* `Poller.Reached`: the states that polls lead to, in whatever worlds they are made.
* `Loop.poll_ensures`: a poll ends in a place that requests keep. By induction on the fuel, turn by turn.
* `Loop.poll_congr`: two ways to find steps that agree in all places that are kept make the same poll.
-/

namespace Stepwise
set_option autoImplicit false

variable {W S I P G F α β : Type}

/-! ## Loops when they are made -/

/-- The loop over a source that has given its first answer. -/
def Loop.looked (entry : Option α) (source : I) (filter : P) (consumer : G) :
    Loop (Walk (Lookahead I α) P G) F :=
  match entry with
  | none => .empty
  | some x => .running { step := { source := { source, seen := some (some x) }, filter, consumer } }

/-- A source is asked once when a loop over it is made. -/
theorem Loop.ofSource_eq (next : Next W I α) (source : I) (filter : P) (consumer : G) :
    (Loop.ofSource next source filter consumer : Effect W (Loop (Walk (Lookahead I α) P G) F)) =
      next source >>= fun r => pure (Loop.looked r.1 r.2 filter consumer) := by
  rw [Loop.ofSource, Lookahead.peek, bind_assoc]
  refine bind_congr fun r => ?_
  obtain ⟨entry, source⟩ := r
  cases entry <;> rfl

/-! ## States that are reached -/

/-- The states that polls lead to, in whatever worlds they are made. -/
inductive Poller.Reached (p : Poller W F α) (x : F) : F → Prop
  | start : Reached p x x
  | poll {y z : F} {answer : Poll α} {w w' : W} (h : Reached p x y) (hp : p y w = .returned (answer, z) w') :
      Reached p x z

theorem Poller.Reached.ensured {p : Poller W F α} {x y : F} {K : F → Prop}
    (hpoll : ∀ y w, K y → (p y w).Ensures (fun _ => True) fun r _ => K r.2) (hx : K x) (h : p.Reached x y) :
    K y := by
  induction h with
  | start => exact hx
  | @poll y z answer w w' _ hp ih =>
    have hensures := hpoll y w ih
    rw [hp] at hensures
    exact hensures

/-! ## Polls -/

/-- What requests keep of the place from which steps are requested, whole polls keep. -/
theorem While.direct_keeps {b : Stepper W S F} {K : S → Prop}
    (hrequest : ∀ s w, K s → (b.request s w).Ensures (fun _ => True) fun r _ => K r.2) (fuel : Nat)
    (l : While S F) (h : K l.step) (w : W) :
    (While.direct b fuel l w).Ensures (fun _ => True) fun r _ => K r.2.step := by
  induction fuel using Nat.strongRecOn generalizing l w with
  | ind fuel ih =>
    rw [While.direct]
    refine Ending.Ensures.bind (Q := fun r _ => K r.2) ?_ fun r w hr => ?_
    · cases l.current with
      | some x => exact h
      | none => exact hrequest l.step w h
    · obtain ⟨x, step⟩ := r
      refine (Ending.Ensures.any _).bind fun r w _ => ?_
      obtain ⟨answer, x⟩ := r
      cases answer with
      | pending => exact hr
      | panicked cause => exact hr
      | ready o =>
        cases o with
        | error e => exact hr
        | ok more =>
          cases more with
          | false => exact hr
          | true =>
            cases fuel with
            | zero => exact trivial
            | succ fuel => exact ih fuel (Nat.lt_succ_self fuel) { step, current := none } hr w

/-- Loops that request the same from all places they come to are the same. -/
theorem While.direct_congr (b b' : Stepper W S F) {K : S → Prop} (hpoll : b'.poll = b.poll)
    (hrequest : ∀ s, K s → b.request s = b'.request s)
    (hkeeps : ∀ s w, K s → (b.request s w).Ensures (fun _ => True) fun r _ => K r.2) (fuel : Nat)
    {s : S} (h : K s) (current : Option F) :
    While.direct b fuel { step := s, current } = While.direct b' fuel { step := s, current } := by
  induction fuel using Nat.strongRecOn generalizing s current with
  | ind fuel ih =>
    have hheld : ∀ {s : S}, K s → ∀ x : F, While.direct b fuel { step := s, current := some x } =
        While.direct b' fuel { step := s, current := some x } := by
      intro s h x
      rw [While.direct, While.direct, hpoll]
      simp only [pure_bind]
      refine bind_congr fun r => ?_
      obtain ⟨answer, x⟩ := r
      cases answer with
      | pending => rfl
      | panicked cause => rfl
      | ready o =>
        cases o with
        | error e => rfl
        | ok more =>
          cases more with
          | false => rfl
          | true =>
            cases fuel with
            | zero => rfl
            | succ fuel => exact ih fuel (Nat.lt_succ_self fuel) h none
    cases current with
    | some x => exact hheld h x
    | none =>
      rw [While.direct_of_none, While.direct_of_none, ← hrequest s h]
      funext w
      refine Ending.Ensures.bind_eq ((hkeeps s w h).mono (fun _ h => h) fun r w hr => ?_)
      exact congrFun (hheld hr r.1) w

/-- The place of a loop that is not empty is in `K`. -/
def Loop.Keeps {C : Type} (K : C → Prop) : Loop C F → Prop
  | .empty => True
  | .running loop => K loop.step

theorem Loop.poll_ensures {C : Type} {find : C → Effect W (Found F × C)} {K : C → Prop}
    (hfind : ∀ c w, K c → (find c w).Ensures (fun _ => True) fun r _ => K r.2) (step : Poller W F β)
    (fuel : Nat) {l : Loop C F} (h : l.Keeps K) (w : W) :
    (Loop.poll find step fuel l w).Ensures (fun _ => True) fun r _ => r.2.Keeps K := by
  cases l with
  | empty => trivial
  | running loop =>
    have hpoll : (loop.poll ⟨find, Found.poll step⟩ fuel w).Ensures (fun _ => True) fun r _ => K r.2.step := by
      obtain ⟨c, current, finished⟩ := loop
      cases finished with
      | true => exact h
      | false =>
        rw [While.poll_eq_direct]
        exact While.direct_keeps hfind fuel _ h w
    exact hpoll.bind fun r w hr => hr

theorem Loop.poll_congr {C : Type} {find find' : C → Effect W (Found F × C)} {K : C → Prop}
    (hfind : ∀ c, K c → find c = find' c)
    (hkeeps : ∀ c w, K c → (find c w).Ensures (fun _ => True) fun r _ => K r.2) (step : Poller W F β)
    (fuel : Nat) {l : Loop C F} (h : l.Keeps K) : l.poll find step fuel = l.poll find' step fuel := by
  cases l with
  | empty => rfl
  | running loop =>
    have hpoll : loop.poll ⟨find, Found.poll step⟩ fuel = loop.poll ⟨find', Found.poll step⟩ fuel := by
      obtain ⟨c, current, finished⟩ := loop
      cases finished with
      | true => rfl
      | false =>
        rw [While.poll_eq_direct, While.poll_eq_direct]
        exact While.direct_congr ⟨find, Found.poll step⟩ ⟨find', Found.poll step⟩ rfl hfind hkeeps fuel h current
    rw [Loop.poll, Loop.poll, hpoll]

end Stepwise
