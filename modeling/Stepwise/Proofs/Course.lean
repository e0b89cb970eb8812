import Stepwise.Walk
import Stepwise.Proofs.Await

/-! # Courses

What all looping computations have in common: steps are found one after the other, each is polled until
it resolves, and what it resolves to decides whether the next one is to be found.

* A `Course` says what becomes of the value of a step and what the whole resolves to. How steps are
  found and polled is given apart, because it depends on the fuel.
* `Course.stage` is one poll: it goes on until a step waits or nothing is left.
* `Course.finish` is a course whose steps are not polled but carried through to the end.
* `tracks_pursue`: if every step tracks a way to carry it through, polling a course tracks carrying the
  course through. `attains_finish` is the other direction.
-/

namespace Stepwise
set_option autoImplicit false

open Filter

variable {W C F β γ : Type}

/-- What becomes of the values of the steps of a loop that is in the place `C`. -/
structure Course (C β γ : Type) where
  /-- The place after a step that resolved to this; there is none when the loop ends with it. -/
  absorb : C → β → Option C
  /-- What the loop resolves to when no step is left. -/
  total : C → γ

/-- A course under way. -/
inductive Course.State (C F : Type)
  /-- No step is under way. -/
  | ahead (place : C)
  /-- This was found and has not been passed. -/
  | under (found : Found F) (place : C)
  /-- It must not be polled. -/
  | closed (cause : Panic)

namespace Course

/-- What follows from the resolution of a step: the resolution of the course, or the place to go on
from. -/
def judge (co : Course C β γ) (c : C) : Resolution β → Resolution γ ⊕ C
  | .error p => .inl (.error p)
  | .ok (.error e) => .inl (.ok (.error e))
  | .ok (.ok b) =>
    match co.absorb c b with
    | none => .inl (.ok (.ok (co.total c)))
    | some c => .inr c

/-- Pass what was found, and go on until a step waits. The fuel bounds how many steps may be followed by
another one. -/
def pursue (co : Course C β γ) (find : C → Effect W (Found F × C)) (step : Stage W F β) :
    Nat → Found F × C → Effect W (Resolution γ ⊕ State C F)
  | _, (.nothing, c) => pure (.inl (.ok (.ok (co.total c))))
  | _, (.failed e, _) => pure (.inl (.ok (.error e)))
  | fuel, (.step x, c) => do
    match ← step x with
    | .inr x => pure (.inr (.under (.step x) c))
    | .inl r =>
      match co.judge c r with
      | .inl r => pure (.inl r)
      | .inr c =>
        match fuel with
        | 0 => Effect.cut
        | fuel + 1 => do
          let next ← find c
          pursue co find step fuel next

def stage (co : Course C β γ) (find : C → Effect W (Found F × C)) (step : Stage W F β) (fuel : Nat) :
    Stage W (State C F) γ
  | .ahead c => do
    let next ← find c
    co.pursue find step fuel next
  | .under found c => co.pursue find step fuel (found, c)
  | .closed cause => pure (.inl (.error cause))

/-- Carry through all steps from what was found. -/
def carry (co : Course C β γ) (find : C → Effect W (Found F × C)) (through : F → Effect W (Resolution β)) :
    Nat → Found F × C → Effect W (Resolution γ)
  | _, (.nothing, c) => pure (.ok (.ok (co.total c)))
  | _, (.failed e, _) => pure (.ok (.error e))
  | fuel, (.step x, c) => do
    let r ← through x
    match co.judge c r with
    | .inl r => pure r
    | .inr c =>
      match fuel with
      | 0 => Effect.cut
      | fuel + 1 => do
        let next ← find c
        carry co find through fuel next

def finish (co : Course C β γ) (find : C → Effect W (Found F × C))
    (through : F → Effect W (Resolution β)) (fuel : Nat) : State C F → Effect W (Resolution γ)
  | .ahead c => do
    let next ← find c
    co.carry find through fuel next
  | .under found c => co.carry find through fuel (found, c)
  | .closed cause => pure (.error cause)

/-! ## After a step -/

/-- What a poll does after a step has resolved. -/
def onward (co : Course C β γ) (find : C → Effect W (Found F × C)) (step : Stage W F β) (fuel : Nat)
    (c : C) (r : Resolution β) : Effect W (Resolution γ ⊕ State C F) :=
  match co.judge c r with
  | .inl r => pure (.inl r)
  | .inr c =>
    match fuel with
    | 0 => Effect.cut
    | fuel + 1 => do
      let next ← find c
      co.pursue find step fuel next

@[simp] theorem pursue_nothing (co : Course C β γ) (find : C → Effect W (Found F × C))
    (step : Stage W F β) (fuel : Nat) (c : C) :
    co.pursue find step fuel (.nothing, c) = pure (.inl (.ok (.ok (co.total c)))) := by
  cases fuel <;> rfl

@[simp] theorem pursue_failed (co : Course C β γ) (find : C → Effect W (Found F × C))
    (step : Stage W F β) (fuel : Nat) (e : Failure) (c : C) :
    co.pursue find step fuel (.failed e, c) = pure (.inl (.ok (.error e))) := by
  cases fuel <;> rfl

theorem pursue_step (co : Course C β γ) (find : C → Effect W (Found F × C)) (step : Stage W F β)
    (fuel : Nat) (x : F) (c : C) :
    co.pursue find step fuel (.step x, c) = (do
      match ← step x with
      | .inr x => pure (.inr (.under (.step x) c))
      | .inl r => co.onward find step fuel c r) := by
  rw [pursue]
  rfl

/-- What is done after a step has been carried through. -/
def further (co : Course C β γ) (find : C → Effect W (Found F × C))
    (through : F → Effect W (Resolution β)) (fuel : Nat) (c : C) (r : Resolution β) :
    Effect W (Resolution γ) :=
  match co.judge c r with
  | .inl r => pure r
  | .inr c =>
    match fuel with
    | 0 => Effect.cut
    | fuel + 1 => do
      let next ← find c
      co.carry find through fuel next

@[simp] theorem carry_nothing (co : Course C β γ) (find : C → Effect W (Found F × C))
    (through : F → Effect W (Resolution β)) (fuel : Nat) (c : C) :
    co.carry find through fuel (.nothing, c) = pure (.ok (.ok (co.total c))) := by
  cases fuel <;> rfl

@[simp] theorem carry_failed (co : Course C β γ) (find : C → Effect W (Found F × C))
    (through : F → Effect W (Resolution β)) (fuel : Nat) (e : Failure) (c : C) :
    co.carry find through fuel (.failed e, c) = pure (.ok (.error e)) := by
  cases fuel <;> rfl

theorem carry_step (co : Course C β γ) (find : C → Effect W (Found F × C))
    (through : F → Effect W (Resolution β)) (fuel : Nat) (x : F) (c : C) :
    co.carry find through fuel (.step x, c) = through x >>= co.further find through fuel c := by
  rw [carry]
  rfl

section After

variable {co : Course C β γ} {c c' : C} {r : Resolution β} {r' : Resolution γ}

theorem absorb_of_judge (h : co.judge c r = .inr c') : ∃ b, r = .ok (.ok b) ∧ co.absorb c b = some c' := by
  match r with
  | .error p => cases h
  | .ok (.error e) => cases h
  | .ok (.ok b) =>
    refine ⟨b, rfl, ?_⟩
    cases habsorb : co.absorb c b with
    | none => simp only [judge, habsorb] at h; cases h
    | some c'' =>
      simp only [judge, habsorb] at h
      cases h
      rfl

theorem total_of_judge {b : β} (h : co.judge c (.ok (.ok b)) = .inl r') : r' = .ok (.ok (co.total c)) := by
  cases habsorb : co.absorb c b with
  | none =>
    simp only [judge, habsorb] at h
    exact (Sum.inl.inj h).symm
  | some c' => simp only [judge, habsorb] at h; cases h

theorem onward_of_inl (find : C → Effect W (Found F × C)) (step : Stage W F β) (fuel : Nat)
    (h : co.judge c r = .inl r') : co.onward find step fuel c r = pure (.inl r') := by
  rw [onward, h]

theorem onward_zero (find : C → Effect W (Found F × C)) (step : Stage W F β)
    (h : co.judge c r = .inr c') : co.onward find step 0 c r = Effect.cut := by
  rw [onward, h]

theorem onward_succ (find : C → Effect W (Found F × C)) (step : Stage W F β) (fuel : Nat)
    (h : co.judge c r = .inr c') :
    co.onward find step (fuel + 1) c r = find c' >>= co.pursue find step fuel := by
  rw [onward, h]

theorem further_of_inl (find : C → Effect W (Found F × C)) (through : F → Effect W (Resolution β))
    (fuel : Nat) (h : co.judge c r = .inl r') : co.further find through fuel c r = pure r' := by
  rw [further, h]

theorem further_zero (find : C → Effect W (Found F × C)) (through : F → Effect W (Resolution β))
    (h : co.judge c r = .inr c') : co.further find through 0 c r = Effect.cut := by
  rw [further, h]

theorem further_succ (find : C → Effect W (Found F × C)) (through : F → Effect W (Resolution β))
    (fuel : Nat) (h : co.judge c r = .inr c') :
    co.further find through (fuel + 1) c r = find c' >>= co.carry find through fuel := by
  rw [further, h]

end After

/-! ## Awaiting a course -/

/-- How the awaiting of a course goes on after the awaiting of its step. -/
def resume (co : Course C β γ) (find : C → Effect W (Found F × C)) (step : Stage W F β) (fuel : Nat)
    (gap : W → W) (c : C) : Awaited F β → Effect W (Awaited (State C F) γ)
  | .waiting x => pure (.waiting (.under (.step x) c))
  | .resolved r m => do
    let s ← co.onward find step fuel c r
    (co.stage find step fuel).awaitRest gap m s

variable {co : Course C β γ} {find₀ find : C → Effect W (Found F × C)} {step₀ step : Stage W F β}
  {fuel : Nat} {gap : W → W}

theorem awaitRest_under (m : Nat) (c : C) (x : F) :
    (co.stage find step fuel).awaitRest gap m (.inr (.under (.step x) c)) =
      step.awaitRest gap m (.inr x) >>= co.resume find step fuel gap c := by
  induction m generalizing x with
  | zero => rfl
  | succ m ih =>
    funext w
    have hleft : (co.stage find step fuel).awaitRest gap (m + 1) (.inr (.under (.step x) c)) w =
        (co.pursue find step fuel (.step x, c) >>=
          (co.stage find step fuel).awaitRest gap m) (gap w) := rfl
    have hright : (step.awaitRest gap (m + 1) (.inr x) >>= co.resume find step fuel gap c) w =
        (step x >>= fun s => step.awaitRest gap m s >>= co.resume find step fuel gap c)
          (gap w) := by
      rw [← bind_assoc]
      rfl
    rw [hleft, hright, pursue_step, bind_assoc]
    refine congrFun (bind_congr fun s => ?_) (gap w)
    cases s with
    | inl r => rw [Stage.awaitRest_inl]; rfl
    | inr x => exact ih x

/-- To await a course is to await its step and to go on with the polls that are left: with what is left
of the first poll if the step resolved in it, else with all of a later one. -/
theorem await_pursue (co : Course C β γ) (find₀ find : C → Effect W (Found F × C))
    (step₀ step : Stage W F β) (fuel : Nat) (gap : W → W) (m j : Nat) (c : C) (x : F) (w : W) :
    ((co.pursue find₀ step₀ j (.step x, c) >>= (co.stage find step fuel).awaitRest gap m) w =
      (step₀.await step gap m x >>= co.resume find step fuel gap c) w ∧
      ∀ r left v, step₀.await step gap m x w = .returned (.resolved r left) v → left < m) ∨
    ∃ r v, step₀.await step gap m x w = .returned (.resolved r m) v ∧
      (co.pursue find₀ step₀ j (.step x, c) >>= (co.stage find step fuel).awaitRest gap m) w =
        (co.onward find₀ step₀ j c r >>= (co.stage find step fuel).awaitRest gap m) v := by
  rw [pursue_step, bind_assoc, Stage.await, bind_assoc]
  cases hx : step₀ x w with
  | cut v =>
    left
    rw [Effect.bind_of_cut _ hx, Effect.bind_of_cut _ hx, Effect.bind_of_cut _ hx]
    exact ⟨rfl, fun r left v h => by cases h⟩
  | broken reason v =>
    left
    rw [Effect.bind_of_broken _ hx, Effect.bind_of_broken _ hx, Effect.bind_of_broken _ hx]
    exact ⟨rfl, fun r left v h => by cases h⟩
  | returned s v =>
    rw [Effect.bind_of_returned _ hx, Effect.bind_of_returned _ hx]
    cases s with
    | inl r =>
      right
      refine ⟨r, v, ?_, rfl⟩
      rw [Effect.bind_of_returned _ hx, Stage.awaitRest_inl]
      rfl
    | inr x =>
      left
      refine ⟨congrFun (awaitRest_under m c x) v, fun r left v' h => ?_⟩
      rw [Effect.bind_of_returned _ hx] at h
      exact Stage.awaitRest_lt h

/-! ## What awaiting comes to -/

section Tracks

variable {R : W → W → Prop} [Std.Refl R] [Trans R R R] {finds : Nat → C → Effect W (Found F × C)}
  {through : Nat → F → Effect W (Resolution β)} {fuels : Nat → Nat}

theorem keeps_further_of {find : C → Effect W (Found F × C)}
    {through : F → Effect W (Resolution β)} {fuel : Nat} (hfind : ∀ c, Effect.Keeps R (find c))
    (hcarry : ∀ fuel' < fuel, ∀ next, Effect.Keeps R (co.carry find through fuel' next)) (c : C)
    (r : Resolution β) : Effect.Keeps R (co.further find through fuel c r) := by
  cases hj : co.judge c r with
  | inl r => rw [further_of_inl _ _ _ hj]; exact Effect.Keeps.pure r
  | inr c =>
    cases fuel with
    | zero => rw [further_zero _ _ hj]; exact Effect.Keeps.cut
    | succ fuel =>
      rw [further_succ _ _ _ hj]
      exact (hfind c).bind (hcarry fuel (Nat.lt_succ_self fuel))

theorem keeps_carry {find : C → Effect W (Found F × C)} {through : F → Effect W (Resolution β)}
    (hfind : ∀ c, Effect.Keeps R (find c)) (hthrough : ∀ x, Effect.Keeps R (through x)) (fuel : Nat)
    (next : Found F × C) : Effect.Keeps R (co.carry find through fuel next) := by
  induction fuel using Nat.strong_induction_on generalizing next with
  | h fuel ih =>
    obtain ⟨found, c⟩ := next
    cases found with
    | nothing => rw [carry_nothing]; exact Effect.Keeps.pure _
    | failed e => rw [carry_failed]; exact Effect.Keeps.pure _
    | step x =>
      rw [carry_step]
      exact (hthrough x).bind (keeps_further_of hfind ih c)

theorem keeps_further {find : C → Effect W (Found F × C)} {through : F → Effect W (Resolution β)}
    (hfind : ∀ c, Effect.Keeps R (find c)) (hthrough : ∀ x, Effect.Keeps R (through x)) (fuel : Nat)
    (c : C) (r : Resolution β) : Effect.Keeps R (co.further find through fuel c r) :=
  keeps_further_of hfind (fun fuel' _ => keeps_carry hfind hthrough fuel') c r

theorem keeps_finish {find : C → Effect W (Found F × C)} {through : F → Effect W (Resolution β)}
    (hfind : ∀ c, Effect.Keeps R (find c)) (hthrough : ∀ x, Effect.Keeps R (through x)) (fuel : Nat)
    (st : State C F) : Effect.Keeps R (co.finish find through fuel st) := by
  cases st with
  | ahead c => exact (hfind c).bind (keeps_carry hfind hthrough fuel)
  | under found c => exact keeps_carry hfind hthrough fuel (found, c)
  | closed cause => exact Effect.Keeps.pure _

theorem keeps_onward_of {find : C → Effect W (Found F × C)} {step : Stage W F β} {fuel : Nat}
    (hfind : ∀ c, Effect.Keeps R (find c))
    (hpursue : ∀ fuel' < fuel, ∀ next, Effect.Keeps R (co.pursue find step fuel' next)) (c : C)
    (r : Resolution β) : Effect.Keeps R (co.onward find step fuel c r) := by
  cases hj : co.judge c r with
  | inl r => rw [onward_of_inl _ _ _ hj]; exact Effect.Keeps.pure _
  | inr c =>
    cases fuel with
    | zero => rw [onward_zero _ _ hj]; exact Effect.Keeps.cut
    | succ fuel =>
      rw [onward_succ _ _ _ hj]
      exact (hfind c).bind (hpursue fuel (Nat.lt_succ_self fuel))

theorem keeps_pursue {find : C → Effect W (Found F × C)} {step : Stage W F β}
    (hfind : ∀ c, Effect.Keeps R (find c)) (hstep : ∀ x, Effect.Keeps R (step x)) (fuel : Nat)
    (next : Found F × C) : Effect.Keeps R (co.pursue find step fuel next) := by
  induction fuel using Nat.strong_induction_on generalizing next with
  | h fuel ih =>
    obtain ⟨found, c⟩ := next
    cases found with
    | nothing => rw [pursue_nothing]; exact Effect.Keeps.pure _
    | failed e => rw [pursue_failed]; exact Effect.Keeps.pure _
    | step x =>
      rw [pursue_step]
      refine (hstep x).bind fun s => ?_
      cases s with
      | inl r => exact keeps_onward_of hfind ih c r
      | inr x => exact Effect.Keeps.pure _

theorem keeps_stage {find : C → Effect W (Found F × C)} {step : Stage W F β}
    (hfind : ∀ c, Effect.Keeps R (find c)) (hstep : ∀ x, Effect.Keeps R (step x)) (fuel : Nat)
    (st : State C F) : Effect.Keeps R (co.stage find step fuel st) := by
  cases st with
  | ahead c => exact (hfind c).bind (keeps_pursue hfind hstep fuel)
  | under found c => exact keeps_pursue hfind hstep fuel (found, c)
  | closed cause => exact Effect.Keeps.pure _

omit [Std.Refl R] [Trans R R R] in
/-- What follows after a step has resolved, if it is known what follows after the next one is found. -/
theorem tracks_onward (through : Nat → F → Effect W (Resolution β)) {later : Stage W (State C F) γ}
    {m j : Nat} (hfuels : ∀ N, N ≤ fuels N)
    (hfind : ∀ᶠ N in atTop, ∀ c, Effect.Below (find c) (finds N c))
    (ih : ∀ j' < j, ∀ s next w,
      ((co.pursue find step j' next >>= later.awaitRest gap m) w).Tracks R
        fun N => co.carry (finds N) (through N) (fuels N - s) next w)
    (s : Nat) (c : C) (r : Resolution β) (w : W) :
    ((co.onward find step j c r >>= later.awaitRest gap m) w).Tracks R
      fun N => co.further (finds N) (through N) (fuels N - s) c r w := by
  unfold onward further
  cases co.judge c r with
  | inl r =>
    rw [Stage.pure_inl_awaitRest]
    exact Eventually.of_forall fun _ => rfl
  | inr c =>
    cases j with
    | zero => trivial
    | succ j =>
      have hpos : ∀ᶠ N in atTop, s + 1 ≤ fuels N :=
        (eventually_ge_atTop (s + 1)).mono fun N hN => hN.trans (hfuels N)
      rw [bind_assoc]
      have hnext := Ending.Tracks.after (hfind.mono fun N hN => hN c)
        (ih j (Nat.lt_succ_self j) (s + 1)) (w := w)
      refine hnext.congr ?_
      filter_upwards [hpos] with N hs
      obtain ⟨d, hd⟩ : ∃ d, fuels N - s = d + 1 := ⟨fuels N - s - 1, by omega⟩
      have hd' : fuels N - (s + 1) = d := by omega
      rw [hd, hd']

/-- Polling on from what was found tracks carrying the course through from there. `s` is how much fuel
the course that is carried through has used up before. -/
theorem tracks_pursue (hfuels : ∀ N, N ≤ fuels N) (hfinds : ∀ N c, Effect.Keeps R (finds N c))
    (hthrough : ∀ N x, Effect.Keeps R (through N x))
    (hfind : ∀ᶠ N in atTop, ∀ c, Effect.Below (find c) (finds N c)) (m : Nat)
    (hlater : ∀ m' < m, ∀ x w, (step.await step gap m' x w).Tracks R fun N => through N x w)
    (hfind₀ : ∀ᶠ N in atTop, ∀ c, Effect.Below (find₀ c) (finds N c))
    (hfirst : ∀ x w, (step₀.await step gap m x w).Tracks R fun N => through N x w)
    (j s : Nat) (next : Found F × C) (w : W) :
    ((co.pursue find₀ step₀ j next >>= (co.stage find step fuel).awaitRest gap m) w).Tracks R
      fun N => co.carry (finds N) (through N) (fuels N - s) next w := by
  induction m using Nat.strong_induction_on generalizing find₀ step₀ j s next w with
  | h m ihm =>
  induction j using Nat.strong_induction_on generalizing s next w with
  | h j ihj =>
  obtain ⟨found, c⟩ := next
  cases found with
  | nothing =>
    rw [pursue_nothing, Stage.pure_inl_awaitRest]
    exact Eventually.of_forall fun N => congrFun (carry_nothing ..) w
  | failed e =>
    rw [pursue_failed, Stage.pure_inl_awaitRest]
    exact Eventually.of_forall fun N => congrFun (carry_failed ..) w
  | step x =>
    simp only [carry_step]
    have htrack := hfirst x w
    obtain ⟨heq, hlt⟩ | ⟨r, v, hr, heq⟩ := await_pursue co find₀ find step₀ step fuel gap
      m j c x w
    · rw [heq]
      refine htrack.bind (fun y => .under (.step y) c) (fun _ => rfl)
        (fun N => keeps_further (hfinds N) (hthrough N) (fuels N - s) c) fun r left v ha => ?_
      have hleft : left < m := hlt r left v ha
      exact tracks_onward (j := fuel) through hfuels hfind
        (fun j' _ => ihm left hleft (fun m' hm' => hlater m' (by omega)) hfind
          (hlater left hleft) j') s c r v
    · rw [hr] at htrack
      rw [heq]
      have hrest := tracks_onward through hfuels hfind₀ ihj s c r v
      refine hrest.congr ?_
      filter_upwards [show ∀ᶠ N in atTop, through N x w = .returned r v from htrack] with N hN
      exact Effect.bind_of_returned _ hN

/-- Awaiting a course tracks carrying it through. -/
theorem tracks_finish (hfuels : ∀ N, N ≤ fuels N) (hfinds : ∀ N c, Effect.Keeps R (finds N c))
    (hthrough : ∀ N x, Effect.Keeps R (through N x))
    (hfind : ∀ᶠ N in atTop, ∀ c, Effect.Below (find c) (finds N c)) (m : Nat)
    (hlater : ∀ m' < m, ∀ x w, (step.await step gap m' x w).Tracks R fun N => through N x w)
    (hfind₀ : ∀ᶠ N in atTop, ∀ c, Effect.Below (find₀ c) (finds N c))
    (hfirst : ∀ x w, (step₀.await step gap m x w).Tracks R fun N => through N x w)
    (j : Nat) (st : State C F) (w : W) :
    ((co.stage find₀ step₀ j).await (co.stage find step fuel) gap m st w).Tracks R
      fun N => co.finish (finds N) (through N) (fuels N) st w := by
  have hpursue : ∀ next w, ((co.pursue find₀ step₀ j next >>=
      (co.stage find step fuel).awaitRest gap m) w).Tracks R
        fun N => co.carry (finds N) (through N) (fuels N) next w :=
    tracks_pursue hfuels hfinds hthrough hfind m hlater hfind₀ hfirst j 0
  cases st with
  | closed cause =>
    have hawait : (co.stage find₀ step₀ j).await (co.stage find step fuel) gap m (.closed cause) w =
        .returned (.resolved (.error cause) m) w := Stage.pure_inl_awaitRest ..
    rw [hawait]
    exact Eventually.of_forall fun N => rfl
  | under found c => exact hpursue (found, c) w
  | ahead c =>
    have hawait : (co.stage find₀ step₀ j).await (co.stage find step fuel) gap m (.ahead c) w =
        (find₀ c >>= fun next => co.pursue find₀ step₀ j next >>=
          (co.stage find step fuel).awaitRest gap m) w := by
      rw [← bind_assoc]
      rfl
    rw [hawait]
    exact Ending.Tracks.after (hfind₀.mono fun N hN => hN c) hpursue

end Tracks

section Attains

variable {finds : Nat → C → Effect W (Found F × C)} {steps : Nat → Stage W F β}
  {through : F → Effect W (Resolution β)}

/-- With enough fuel, for the first poll and for the later ones, and with enough polls, polling on comes
to this ending. -/
def Attained (co : Course C β γ) (finds : Nat → C → Effect W (Found F × C))
    (steps : Nat → Stage W F β) (gap : W → W)
    (first : Nat → Nat → Effect W (Resolution γ ⊕ State C F)) (w : W)
    (e : Ending W (Resolution γ)) : Prop :=
  e.isCut = false → ∃ k used, ∀ n₀ j₀ n j, k ≤ n₀ → k ≤ j₀ → k ≤ n → k ≤ j → ∀ m,
    (first n₀ j₀ >>= (co.stage (finds n) (steps n) j).awaitRest gap (used + m)) w =
      e.map (.resolved · m)

theorem attained_further {fuel : Nat} (hfind : ∃ k, ∀ n, k ≤ n → ∀ c, (find c).Below (finds n c))
    (ih : ∀ fuel' < fuel, ∀ next w, co.Attained finds steps gap
      (fun n j => co.pursue (finds n) (steps n) j next) w (co.carry find through fuel' next w))
    (c : C) (r : Resolution β) (w : W) :
    co.Attained finds steps gap (fun n j => co.onward (finds n) (steps n) j c r) w
      (co.further find through fuel c r w) := by
  intro hcut
  cases hj : co.judge c r with
  | inl r' =>
    refine ⟨0, 0, fun n₀ j₀ n j _ _ _ _ m => ?_⟩
    change (co.onward (finds n₀) (steps n₀) j₀ c r >>= _) w = _
    rw [further_of_inl _ _ _ hj, onward_of_inl _ _ _ hj, Stage.pure_inl_awaitRest, Nat.zero_add]
    rfl
  | inr c' =>
    cases fuel with
    | zero => rw [further_zero _ _ hj] at hcut; exact nomatch hcut
    | succ fuel =>
      rw [further_succ _ _ _ hj] at hcut ⊢
      obtain ⟨kf, hkf⟩ := hfind
      cases hc : find c' w with
      | cut v => rw [Effect.bind_of_cut _ hc] at hcut; exact nomatch hcut
      | broken reason v =>
        rw [Effect.bind_of_broken _ hc]
        refine ⟨kf + 1, 0, fun n₀ j₀ n j hn₀ hj₀ _ _ m => ?_⟩
        have hb : finds n₀ c' w = .broken reason v := (hkf n₀ (by omega) c').of_broken hc
        obtain ⟨j₀, rfl⟩ : ∃ j', j₀ = j' + 1 := ⟨j₀ - 1, by omega⟩
        change (co.onward (finds n₀) (steps n₀) (j₀ + 1) c r >>= _) w = _
        rw [onward_succ _ _ _ hj, bind_assoc, Effect.bind_of_broken _ hb]
        rfl
      | returned next v =>
        rw [Effect.bind_of_returned _ hc] at hcut ⊢
        obtain ⟨k, used, hall⟩ := ih fuel (Nat.lt_succ_self fuel) next v hcut
        refine ⟨max kf k + 1, used, fun n₀ j₀ n j hn₀ hj₀ hn hj' m => ?_⟩
        have hb : finds n₀ c' w = .returned next v := (hkf n₀ (by omega) c').of_returned hc
        obtain ⟨j₀, rfl⟩ : ∃ j', j₀ = j' + 1 := ⟨j₀ - 1, by omega⟩
        change (co.onward (finds n₀) (steps n₀) (j₀ + 1) c r >>= _) w = _
        rw [onward_succ _ _ _ hj, bind_assoc, Effect.bind_of_returned _ hb]
        exact hall n₀ j₀ n j (by omega) (by omega) (by omega) (by omega) m

theorem attained_carry (hfind : ∃ k, ∀ n, k ≤ n → ∀ c, (find c).Below (finds n c))
    (hstep : ∀ x w, Attains steps gap x w (through x w)) (fuel : Nat) (next : Found F × C) (w : W) :
    co.Attained finds steps gap (fun n j => co.pursue (finds n) (steps n) j next) w
      (co.carry find through fuel next w) := by
  induction fuel using Nat.strong_induction_on generalizing next w with
  | h fuel ih =>
  intro hcut
  obtain ⟨found, c⟩ := next
  cases found with
  | nothing =>
    refine ⟨0, 0, fun n₀ j₀ n j _ _ _ _ m => ?_⟩
    change (co.pursue (finds n₀) (steps n₀) j₀ (.nothing, c) >>= _) w = _
    rw [pursue_nothing, carry_nothing, Stage.pure_inl_awaitRest, Nat.zero_add]
    rfl
  | failed e =>
    refine ⟨0, 0, fun n₀ j₀ n j _ _ _ _ m => ?_⟩
    change (co.pursue (finds n₀) (steps n₀) j₀ (.failed e, c) >>= _) w = _
    rw [pursue_failed, carry_failed, Stage.pure_inl_awaitRest, Nat.zero_add]
    rfl
  | step x =>
    rw [carry_step] at hcut ⊢
    have hsteps := hstep x w
    cases hx : through x w with
    | cut v => rw [Effect.bind_of_cut _ hx] at hcut; exact nomatch hcut
    | broken reason v =>
      rw [hx] at hsteps
      obtain ⟨k, used, hall⟩ := hsteps rfl
      refine ⟨k, used, fun n₀ j₀ n j hn₀ _ hn _ m => ?_⟩
      have ha := hall n₀ hn₀ n hn m
      rw [Effect.bind_of_broken _ hx]
      obtain ⟨heq, -⟩ | ⟨r, v', hr, -⟩ := await_pursue co (finds n₀) (finds n)
        (steps n₀) (steps n) j gap (used + m) j₀ c x w
      · rw [heq, Effect.bind_of_broken _ ha]
        rfl
      · rw [ha] at hr
        cases hr
    | returned r v =>
      rw [hx] at hsteps
      rw [Effect.bind_of_returned _ hx] at hcut ⊢
      obtain ⟨k, used, hall⟩ := hsteps rfl
      obtain ⟨k', used', hall'⟩ := attained_further hfind ih c r v hcut
      refine ⟨max k k', used + used', fun n₀ j₀ n j hn₀ hj₀ hn hj m => ?_⟩
      have ha := hall n₀ (by omega) n (by omega) (used' + m)
      rw [Nat.add_assoc]
      obtain ⟨heq, -⟩ | ⟨r', v', hr, heq⟩ := await_pursue co (finds n₀) (finds n)
        (steps n₀) (steps n) j gap (used + (used' + m)) j₀ c x w
      · rw [heq, Effect.bind_of_returned _ ha]
        exact hall' n j n j (by omega) (by omega) (by omega) (by omega) m
      · have hsame := ha.symm.trans hr
        simp only [Ending.map, Ending.returned.injEq, Awaited.resolved.injEq] at hsame
        obtain ⟨⟨rfl, hm⟩, rfl⟩ := hsame
        have hused : used = 0 := by omega
        rw [heq, hused, Nat.zero_add]
        exact hall' n₀ j₀ n j (by omega) (by omega) (by omega) (by omega) m

/-- Where a course comes to an end when it is carried through, awaiting it comes to that end. -/
theorem attains_finish {fuels : Nat → Nat} (hfuels : ∀ n, n ≤ fuels n)
    (hfind : ∃ k, ∀ n, k ≤ n → ∀ c, (find c).Below (finds n c))
    (hstep : ∀ x w, Attains steps gap x w (through x w)) (fuel : Nat) (st : State C F) (w : W) :
    Attains (fun n => co.stage (finds n) (steps n) (fuels n)) gap st w
      (co.finish find through fuel st w) := by
  intro hcut
  cases st with
  | closed cause =>
    exact ⟨0, 0, fun n₀ _ n _ m => by rw [Nat.zero_add]; exact Stage.pure_inl_awaitRest ..⟩
  | under found c =>
    obtain ⟨k, used, hall⟩ := attained_carry hfind hstep fuel (found, c) w hcut
    exact ⟨k, used, fun n₀ hn₀ n hn m => hall n₀ (fuels n₀) n (fuels n) hn₀
      (hn₀.trans (hfuels n₀)) hn (hn.trans (hfuels n)) m⟩
  | ahead c =>
    have hawait : ∀ n₀ n m, (co.stage (finds n₀) (steps n₀) (fuels n₀)).await
        (co.stage (finds n) (steps n) (fuels n)) gap m (.ahead c) w =
        (finds n₀ c >>= fun next => co.pursue (finds n₀) (steps n₀) (fuels n₀) next >>=
          (co.stage (finds n) (steps n) (fuels n)).awaitRest gap m) w := by
      intro n₀ n m
      rw [← bind_assoc]
      rfl
    have hfinish : co.finish find through fuel (.ahead c) = (find c >>= co.carry find through fuel) := rfl
    obtain ⟨kf, hkf⟩ := id hfind
    rw [hfinish] at hcut ⊢
    cases hc : find c w with
    | cut v => rw [Effect.bind_of_cut _ hc] at hcut; exact nomatch hcut
    | broken reason v =>
      refine ⟨kf, 0, fun n₀ hn₀ n hn m => ?_⟩
      have hb : finds n₀ c w = .broken reason v := (hkf n₀ hn₀ c).of_broken hc
      rw [hawait, Effect.bind_of_broken _ hb, Effect.bind_of_broken _ hc]
      rfl
    | returned next v =>
      rw [Effect.bind_of_returned _ hc] at hcut ⊢
      obtain ⟨k, used, hall⟩ := attained_carry hfind hstep fuel next v hcut
      refine ⟨max kf k, used, fun n₀ hn₀ n hn m => ?_⟩
      have hb : finds n₀ c w = .returned next v := (hkf n₀ (by omega) c).of_returned hc
      have h₀ := hfuels n₀
      have h₁ := hfuels n
      rw [hawait, Effect.bind_of_returned _ hb]
      exact hall n₀ (fuels n₀) n (fuels n) (by omega) (by omega) (by omega) (by omega) m

end Attains

end Course

end Stepwise
