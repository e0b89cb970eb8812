import Stepwise.Proofs.Alike

/-! # One course simulates another one

Two courses run side by side, each with its own places and steps and in its own world.

* `Course.Tie` says what ties the two sides to each other: their worlds, their places while no step is under
  way, a step under way with its place, and what they come to. The number is the fuel that is left.
* `Course.meet` polls a step at once after it was found, and `Course.proceed` goes on from there.
* `Course.Simulation`: to find and to meet a step keeps both sides tied. It is a statement about one turn;
  `Simulation.stage` says by induction on the fuel that every poll keeps them tied.
* When the left side ends with the value of a step, the right side may still have to find out that there is
  nothing left (`Tie.judged`).
-/

namespace Stepwise
set_option autoImplicit false

variable {W V C C' F F' β β' γ γ' : Type}

namespace Course

/-! ## Meeting a step -/

/-- Poll what was found, if it is a step. -/
def meet (step : Stage W F β) : Found F × C → Effect W (Found (Resolution β ⊕ F) × C)
  | (.step x, c) => do
    let s ← step x
    pure (.step s, c)
  | (.nothing, c) => pure (.nothing, c)
  | (.failed e, c) => pure (.failed e, c)

/-- Go on after a step was met. -/
def proceed (co : Course C β γ) (find : C → Effect W (Found F × C)) (step : Stage W F β) (fuel : Nat) :
    Found (Resolution β ⊕ F) × C → Effect W (Resolution γ ⊕ State C F)
  | (.nothing, c) => pure (.inl (.ok (.ok (co.total c))))
  | (.failed e, _) => pure (.inl (.ok (.error e)))
  | (.step (.inr x), c) => pure (.inr (.under (.step x) c))
  | (.step (.inl r), c) => co.onward find step fuel c r

theorem pursue_eq_meet (co : Course C β γ) (find : C → Effect W (Found F × C)) (step : Stage W F β)
    (fuel : Nat) (next : Found F × C) :
    co.pursue find step fuel next = meet step next >>= co.proceed find step fuel := by
  obtain ⟨found, c⟩ := next
  cases found with
  | nothing => rw [pursue_nothing]; rfl
  | failed e => rw [pursue_failed]; rfl
  | step x =>
    rw [pursue_step, meet, bind_assoc]
    refine bind_congr fun s => ?_
    cases s <;> rfl

theorem find_pursue_eq_meet (co : Course C β γ) (find : C → Effect W (Found F × C)) (step : Stage W F β)
    (fuel : Nat) (c : C) :
    find c >>= co.pursue find step fuel = (find c >>= meet step) >>= co.proceed find step fuel := by
  rw [bind_assoc]
  exact bind_congr fun next => pursue_eq_meet co find step fuel next

/-! ## What ties two courses -/

/-- What ties two courses to each other. -/
structure Tie (W V C C' F F' γ γ' : Type) where
  worlds : Nat → W → V → Prop
  /-- The places while no step is under way. -/
  ahead : Nat → C → C' → W → V → Prop
  /-- The steps under way, with the places after them. -/
  under : Nat → F × C → F' × C' → W → V → Prop
  ends : Resolution γ → Resolution γ' → W → V → Prop

namespace Tie

variable (t : Tie W V C C' F F' γ γ')

/-- What follows from two steps that have resolved. -/
def judged (co' : Course C' β' γ') (find' : C' → Effect V (Found F' × C')) :
    Nat → Resolution γ ⊕ C → Resolution γ' ⊕ C' → W → V → Prop
  | _, .inl r, .inl r' => t.ends r r'
  | 0, .inr _, .inr _ => fun w v => ∃ d, t.worlds d w v
  | fuel + 1, .inr c, .inr c' => t.ahead fuel c c'
  | fuel, .inl r, .inr c' => fun w v => 0 < fuel ∧
      ∃ last v', find' c' v = .returned (.nothing, last) v' ∧ t.ends r (.ok (.ok (co'.total last))) w v'
  | _, .inr _, .inl _ => fun _ _ => False

/-- What the two sides have met. -/
def met (co : Course C β γ) (co' : Course C' β' γ') (find' : C' → Effect V (Found F' × C')) (fuel : Nat) :
    Found (Resolution β ⊕ F) × C → Found (Resolution β' ⊕ F') × C' → W → V → Prop
  | (.nothing, c), (.nothing, c') => t.ends (.ok (.ok (co.total c))) (.ok (.ok (co'.total c')))
  | (.failed e, _), (.failed e', _) => t.ends (.ok (.error e)) (.ok (.error e'))
  | (.step (.inr x), c), (.step (.inr x'), c') => t.under fuel (x, c) (x', c')
  | (.step (.inl r), c), (.step (.inl r'), c') => t.judged co' find' fuel (co.judge c r) (co'.judge c' r')
  | _, _ => fun _ _ => False

/-- Where a poll may begin. -/
def begun (fuel : Nat) : State C F → State C' F' → W → V → Prop
  | .ahead c, .ahead c' => t.ahead fuel c c'
  | .under (.step x) c, .under (.step x') c' => t.under fuel (x, c) (x', c')
  | _, _ => fun _ _ => False

variable {t} in
theorem begun_cases {fuel : Nat} {s : State C F} {s' : State C' F'} {w : W} {v : V}
    (h : t.begun fuel s s' w v) :
    (∃ c c', s = .ahead c ∧ s' = .ahead c' ∧ t.ahead fuel c c' w v) ∨
    ∃ x c x' c', s = .under (.step x) c ∧ s' = .under (.step x') c' ∧ t.under fuel (x, c) (x', c') w v := by
  match s, s', h with
  | .ahead c, .ahead c', h => exact .inl ⟨c, c', rfl, rfl, h⟩
  | .under (.step x) c, .under (.step x') c', h => exact .inr ⟨x, c, x', c', rfl, rfl, h⟩

/-- Where a poll ends. -/
def polled (fuel : Nat) : Resolution γ ⊕ State C F → Resolution γ' ⊕ State C' F' → W → V → Prop
  | .inl r, .inl r' => t.ends r r'
  | .inr s, .inr s' => t.begun fuel s s'
  | _, _ => fun _ _ => False

end Tie

/-- One turn keeps both sides tied. -/
structure Simulation (t : Tie W V C C' F F' γ γ') (co : Course C β γ) (find : C → Effect W (Found F × C))
    (step : Stage W F β) (co' : Course C' β' γ') (find' : C' → Effect V (Found F' × C'))
    (step' : Stage V F' β') : Prop where
  ahead : ∀ {fuel c c' w v}, t.ahead fuel c c' w v →
    ((find c >>= meet step) w).Paired t.worlds (t.met co co' find' fuel) ((find' c' >>= meet step') v)
  under : ∀ {fuel x c x' c' w v}, t.under fuel (x, c) (x', c') w v →
    (meet step (.step x, c) w).Paired t.worlds (t.met co co' find' fuel) (meet step' (.step x', c') v)
  /-- More fuel does no harm. -/
  more : ∀ {fuel a a' w v}, t.under fuel a a' w v → t.under (fuel + 1) a a' w v

namespace Simulation

variable {t : Tie W V C C' F F' γ γ'} {co : Course C β γ} {find : C → Effect W (Found F × C)}
  {step : Stage W F β} {co' : Course C' β' γ'} {find' : C' → Effect V (Found F' × C')}
  {step' : Stage V F' β'}

/-- A poll ends with a step that waits, if it has not resolved. -/
def Left (t : Tie W V C C' F F' γ γ') (fuel : Nat) :
    Resolution γ ⊕ State C F → Resolution γ' ⊕ State C' F' → W → V → Prop
  | .inl r, .inl r' => t.ends r r'
  | .inr (.under (.step x) c), .inr (.under (.step x') c') => t.under fuel (x, c) (x', c')
  | _, _ => fun _ _ => False

theorem Left.cases {fuel : Nat} {s : Resolution γ ⊕ State C F} {s' : Resolution γ' ⊕ State C' F'} {w : W}
    {v : V} (h : Left t fuel s s' w v) :
    (∃ r r', s = .inl r ∧ s' = .inl r' ∧ t.ends r r' w v) ∨
    ∃ x c x' c', s = .inr (.under (.step x) c) ∧ s' = .inr (.under (.step x') c') ∧
      t.under fuel (x, c) (x', c') w v := by
  match s, s', h with
  | .inl r, .inl r', h => exact .inl ⟨r, r', rfl, rfl, h⟩
  | .inr (.under (.step x) c), .inr (.under (.step x') c'), h => exact .inr ⟨x, c, x', c', rfl, rfl, h⟩

theorem Left.polled {fuel : Nat} {s : Resolution γ ⊕ State C F} {s' : Resolution γ' ⊕ State C' F'} {w : W}
    {v : V} (h : Left t fuel s s' w v) : t.polled fuel s s' w v := by
  match s, s', h with
  | .inl _, .inl _, h => exact h
  | .inr (.under (.step _) _), .inr (.under (.step _) _), h => exact h

theorem Left.more (sim : Simulation t co find step co' find' step') {fuel : Nat}
    {s : Resolution γ ⊕ State C F} {s' : Resolution γ' ⊕ State C' F'} {w : W} {v : V}
    (h : Left t fuel s s' w v) : Left t (fuel + 1) s s' w v := by
  match s, s', h with
  | .inl _, .inl _, h => exact h
  | .inr (.under (.step _) _), .inr (.under (.step _) _), h => exact sim.more h

/-- Going on after two steps that have resolved, if that is known for less fuel. -/
theorem onward (sim : Simulation t co find step co' find' step') {fuel : Nat}
    (ih : ∀ less < fuel, ∀ {a a' w v}, t.met co co' find' less a a' w v →
      (co.proceed find step less a w).Paired t.worlds (Left t less) (co'.proceed find' step' less a' v))
    {c : C} {c' : C'} {r : Resolution β} {r' : Resolution β'} {w : W} {v : V}
    (h : t.judged co' find' fuel (co.judge c r) (co'.judge c' r') w v) :
    (co.onward find step fuel c r w).Paired t.worlds (Left t fuel) (co'.onward find' step' fuel c' r' v) := by
  cases hj : co.judge c r with
  | inl ρ =>
    rw [onward_of_inl _ _ _ hj]
    cases hj' : co'.judge c' r' with
    | inl ρ' =>
      rw [onward_of_inl _ _ _ hj']
      rw [hj, hj'] at h
      cases fuel <;> exact h
    | inr d' =>
      -- Only the right side has to look for a next step, and there is none.
      rw [hj, hj'] at h
      cases fuel with
      | zero => exact absurd h.1 (lt_irrefl 0)
      | succ fuel =>
        obtain ⟨-, last, v', hfind, hends⟩ := h
        rw [onward_succ _ _ _ hj', Effect.bind_of_returned _ hfind, pursue_nothing]
        exact hends
  | inr d =>
    cases hj' : co'.judge c' r' with
    | inl ρ' => rw [hj, hj'] at h; cases fuel <;> exact h.elim
    | inr d' =>
      rw [hj, hj'] at h
      cases fuel with
      | zero =>
        rw [onward_zero _ _ hj, onward_zero _ _ hj']
        exact h
      | succ fuel =>
        rw [onward_succ _ _ _ hj, onward_succ _ _ _ hj', find_pursue_eq_meet, find_pursue_eq_meet]
        refine (sim.ahead h).bind fun a a' w v ha => ?_
        -- What waits with less fuel left may also wait with more.
        have hproceed := ih fuel (Nat.lt_succ_self fuel) ha
        exact hproceed.imp fun hs => hs.more sim

theorem proceed (sim : Simulation t co find step co' find' step') (fuel : Nat)
    {a : Found (Resolution β ⊕ F) × C} {a' : Found (Resolution β' ⊕ F') × C'} {w : W} {v : V}
    (h : t.met co co' find' fuel a a' w v) :
    (co.proceed find step fuel a w).Paired t.worlds (Left t fuel) (co'.proceed find' step' fuel a' v) := by
  induction fuel using Nat.strong_induction_on generalizing a a' w v with
  | h fuel ih =>
    match a, a', h with
    | (.nothing, _), (.nothing, _), h => exact h
    | (.failed _, _), (.failed _, _), h => exact h
    | (.step (.inr _), _), (.step (.inr _), _), h => exact h
    | (.step (.inl _), _), (.step (.inl _), _), h => exact sim.onward (fun less hless => ih less hless) h

/-- One poll keeps both sides tied, and where they have not resolved a step waits. -/
theorem stage_left (sim : Simulation t co find step co' find' step') (fuel : Nat) {s : State C F}
    {s' : State C' F'} {w : W} {v : V} (h : t.begun fuel s s' w v) :
    (co.stage find step fuel s w).Paired t.worlds (Left t fuel) (co'.stage find' step' fuel s' v) := by
  obtain ⟨c, c', rfl, rfl, h⟩ | ⟨x, c, x', c', rfl, rfl, h⟩ := t.begun_cases h
  · change ((find c >>= co.pursue find step fuel) w).Paired _ _
      ((find' c' >>= co'.pursue find' step' fuel) v)
    rw [find_pursue_eq_meet, find_pursue_eq_meet]
    exact (sim.ahead h).bind fun a a' w v ha => sim.proceed fuel ha
  · change (co.pursue find step fuel (.step x, c) w).Paired _ _
      (co'.pursue find' step' fuel (.step x', c') v)
    rw [pursue_eq_meet, pursue_eq_meet]
    exact (sim.under h).bind fun a a' w v ha => sim.proceed fuel ha

/-- One poll keeps both sides tied. -/
theorem stage (sim : Simulation t co find step co' find' step') (fuel : Nat) {s : State C F}
    {s' : State C' F'} {w : W} {v : V} (h : t.begun fuel s s' w v) :
    (co.stage find step fuel s w).Paired t.worlds (t.polled fuel) (co'.stage find' step' fuel s' v) :=
  (sim.stage_left fuel h).imp fun hs => hs.polled

end Simulation

/-! ## The same steps on both sides -/

/-- The same resolution, or two steps that wait and are in `J`. -/
def Stepped (R : Nat → W → V → Prop) (J : F → F' → W → V → Prop) :
    Resolution β ⊕ F → Resolution β ⊕ F' → W → V → Prop
  | .inl r, .inl r' => Same R r r'
  | .inr x, .inr x' => J x x'
  | _, _ => fun _ _ => False

theorem stepped_refl (step : Stage W F β) (x x' : F) (w v : W) (h : Same Equal x x' w v) :
    (step x w).Paired Equal (Stepped Equal (Same Equal)) (step x' v) := by
  obtain ⟨rfl, hw⟩ := h
  refine (Effect.Paired.refl (step x) w v hw).imp fun {s s' w v} hs => ?_
  obtain ⟨rfl, hw⟩ := hs
  cases s <;> exact ⟨rfl, hw⟩

/-- The places are in `D`, and steps under way are in `J`. -/
def Tie.places (R : Nat → W → V → Prop) (D : C → C' → Prop) (J : F → F' → W → V → Prop) :
    Tie W V C C' F F' γ γ where
  worlds := R
  ahead _ c c' w v := D c c' ∧ R 0 w v
  under _ a a' w v := D a.2 a'.2 ∧ J a.1 a'.1 w v
  ends := Same R

/-- The two courses make the same of their steps. -/
structure Alongside (D : C → C' → Prop) (co : Course C β γ) (co' : Course C' β γ) : Prop where
  absorb : ∀ {c c'}, D c c' → ∀ b, Option.Rel D (co.absorb c b) (co'.absorb c' b)
  total : ∀ {c c'}, D c c' → co.total c = co'.total c'

section Places

variable {R : Nat → W → V → Prop} {D : C → C' → Prop} {J : F → F' → W → V → Prop} {co : Course C β γ}
  {co' : Course C' β γ}

/-- The same resolution of a step ends both courses with the same, or both go on. -/
theorem Alongside.judge_cases (hco : Alongside D co co') {c : C} {c' : C'} (h : D c c') (r : Resolution β) :
    (∃ r', co.judge c r = .inl r' ∧ co'.judge c' r = .inl r') ∨
    ∃ d d', co.judge c r = .inr d ∧ co'.judge c' r = .inr d' ∧ D d d' := by
  cases r with
  | error p => exact .inl ⟨.error p, rfl, rfl⟩
  | ok o =>
    cases o with
    | error e => exact .inl ⟨.ok (.error e), rfl, rfl⟩
    | ok b =>
      have habsorb := hco.absorb h b
      simp only [judge]
      cases hb : co.absorb c b with
      | none =>
        rw [hb] at habsorb
        cases hb' : co'.absorb c' b with
        | some d' => rw [hb'] at habsorb; cases habsorb
        | none => exact .inl ⟨_, rfl, by rw [hco.total h]⟩
      | some d =>
        rw [hb] at habsorb
        cases hb' : co'.absorb c' b with
        | none => rw [hb'] at habsorb; cases habsorb
        | some d' =>
          rw [hb'] at habsorb
          cases habsorb with
          | some hd => exact .inr ⟨d, d', rfl, rfl, hd⟩

theorem Alongside.judged (hco : Alongside D co co') (find' : C' → Effect V (Found F' × C')) (fuel : Nat) {c : C}
    {c' : C'} (h : D c c') (r : Resolution β) {w : W} {v : V} (hR : R 0 w v) :
    (Tie.places R D J).judged co' find' fuel (co.judge c r) (co'.judge c' r) w v := by
  obtain ⟨r', hj, hj'⟩ | ⟨d, d', hj, hj', hd⟩ := hco.judge_cases h r
  · rw [hj, hj']
    cases fuel <;> exact ⟨rfl, hR⟩
  · rw [hj, hj']
    cases fuel with
    | zero => exact ⟨0, hR⟩
    | succ fuel => exact ⟨hd, hR⟩

/-- Two sides whose steps are the same once they were polled. -/
theorem Alongside.simulation (hco : Alongside D co co') {find : C → Effect W (Found F × C)}
    {step : Stage W F β} {find' : C' → Effect V (Found F' × C')} {step' : Stage V F' β}
    (hfind : ∀ {c c'}, D c c' →
      Effect.Paired R (fun a a' w v => D a.2 a'.2 ∧ Found.Paired R (Stepped R J) a.1 a'.1 w v)
        (find c >>= meet step) (find' c' >>= meet step'))
    (hstep : ∀ x x' w v, J x x' w v → (step x w).Paired R (Stepped R J) (step' x' v)) :
    Simulation (Tie.places R D J) co find step co' find' step' := by
  have hmet : ∀ (fuel : Nat) {a a' w v}, D a.2 a'.2 → Found.Paired R (Stepped R J) a.1 a'.1 w v →
      (Tie.places R D J).met co co' find' fuel a a' w v := by
    intro fuel a a' w v hplace hfound
    obtain ⟨found, c⟩ := a
    obtain ⟨found', c'⟩ := a'
    match found, found', hfound with
    | .nothing, .nothing, hR =>
      have htotal : co.total c = co'.total c' := hco.total hplace
      exact ⟨by rw [htotal], hR⟩
    | .failed e, .failed _, ⟨rfl, hR⟩ => exact ⟨rfl, hR⟩
    | .step (.inr x), .step (.inr x'), hJ => exact ⟨hplace, hJ⟩
    | .step (.inl r), .step (.inl _), ⟨rfl, hR⟩ => exact hco.judged find' fuel hplace r hR
  refine ⟨fun {fuel c c' w v} h => ?_, fun {fuel x c x' c' w v} h => ?_, fun h => h⟩
  · obtain ⟨hplace, hR⟩ := h
    have hpair := (hfind hplace).imp (Q := (Tie.places R D J).met co co' find' fuel) fun h => hmet fuel h.1 h.2
    exact hpair w v hR
  · obtain ⟨hplace, hJ⟩ := h
    exact (hstep x x' w v hJ).bind fun s s' w v hs => hmet fuel hplace hs

/-- To meet two steps that are in `J`. -/
theorem meet_paired {step : Stage W F β} {step' : Stage V F' β}
    (hstep : ∀ x x' w v, J x x' w v → (step x w).Paired R (Stepped R J) (step' x' v))
    {m : Effect W (Found F × C)} {m' : Effect V (Found F' × C')}
    (h : Effect.Paired R (fun a a' w v => D a.2 a'.2 ∧ Found.Paired R J a.1 a'.1 w v) m m') :
    Effect.Paired R (fun a a' w v => D a.2 a'.2 ∧ Found.Paired R (Stepped R J) a.1 a'.1 w v)
      (m >>= meet step) (m' >>= meet step') := by
  refine h.bind fun a a' w v ha => ?_
  obtain ⟨found, c⟩ := a
  obtain ⟨found', c'⟩ := a'
  obtain ⟨hplace, hfound⟩ := ha
  match found, found', hfound with
  | .nothing, .nothing, hR => exact ⟨hplace, hR⟩
  | .failed e, .failed _, ⟨rfl, hR⟩ => exact ⟨hplace, rfl, hR⟩
  | .step x, .step x', hJ => exact (hstep x x' w v hJ).bind fun s s' w v hs => ⟨hplace, hs⟩

end Places

theorem Alongside.refl (co : Course C β γ) : Alongside Eq co co where
  absorb {c c'} h b := by
    obtain rfl : c = c' := h
    cases co.absorb c b with
    | none => exact .none
    | some d => exact .some rfl
  total h := congrArg co.total h

end Course

end Stepwise
