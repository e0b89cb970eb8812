import Stepwise.Proofs.Indexed

/-! # Two runs side by side, unless one of them strays

Two computations may go the same way only as long as the second one does not stray. `L v` says that it has, and it
never comes back (`Lasting`).

* `Ending.PairedUnless L R Q`: in the end the second computation has strayed, or the endings are of the same kind.
* `Effect.PairedUnless` says so of two computations. `PairedUnless.bind` is the rule for one computation after
  another: what comes after a computation that may stray must not lead it back.
* `Course.Alongside.stage_unless`: a poll of two courses that make the same of their steps, by induction on the
  fuel.
-/

namespace Stepwise
set_option autoImplicit false

variable {ι W V C C' F F' β γ : Type}

/-- Whoever has strayed does not come back. -/
def Lasting (L : V → Prop) (v v' : V) : Prop := L v → L v'

instance {L : V → Prop} : Std.Refl (Lasting L) := ⟨fun _ => id⟩

instance {L : V → Prop} : Trans (Lasting L) (Lasting L) (Lasting L) := ⟨fun h h' hL => h' (h hL)⟩

section Rules

universe u

variable {A B A' B' : Type u} {L : V → Prop} {R : Nat → W → V → Prop} {Q : A → B → W → V → Prop}
  {Q' : A' → B' → W → V → Prop}

/-- The right side has strayed, or the two endings are of the same kind. -/
def Ending.PairedUnless (L : V → Prop) (R : Nat → W → V → Prop) (Q : A → B → W → V → Prop) (e : Ending W A)
    (e' : Ending V B) : Prop := L e'.world ∨ e.Paired R Q e'

theorem Ending.Paired.unless {e : Ending W A} {e' : Ending V B} (h : e.Paired R Q e') : e.PairedUnless L R Q e' :=
  .inr h

theorem Ending.Paired.bind_unless {m : Effect W A} {m' : Effect V B} {k : A → Effect W A'} {k' : B → Effect V B'}
    {w : W} {v : V} (h : (m w).Paired R Q (m' v))
    (hk : ∀ a b w v, Q a b w v → (k a w).PairedUnless L R Q' (k' b v)) :
    ((m >>= k) w).PairedUnless L R Q' ((m' >>= k') v) := by
  cases hm : m w with
  | returned a w' =>
    rw [hm] at h
    obtain ⟨b, v', hv, hQ⟩ := h.exists_right
    rw [Effect.bind_of_returned _ hm, Effect.bind_of_returned _ hv]
    exact hk a b w' v' hQ
  | broken reason w' =>
    rw [hm] at h
    obtain ⟨v', hv, hR⟩ := h.broken_right
    rw [Effect.bind_of_broken _ hm, Effect.bind_of_broken _ hv]
    exact .inr ⟨rfl, hR⟩
  | cut w' =>
    rw [hm] at h
    rw [Effect.bind_of_cut _ hm]
    cases hv : m' v with
    | cut v' =>
      rw [hv] at h
      rw [Effect.bind_of_cut _ hv]
      exact .inr h
    | returned b v' => rw [hv] at h; exact h.elim
    | broken reason v' => rw [hv] at h; exact h.elim

theorem Ending.PairedUnless.bind {m : Effect W A} {m' : Effect V B} {k : A → Effect W A'}
    {k' : B → Effect V B'} {w : W} {v : V} (h : (m w).PairedUnless L R Q (m' v))
    (hlasting : ∀ b, Effect.Keeps (Lasting L) (k' b))
    (hk : ∀ a b w v, Q a b w v → (k a w).PairedUnless L R Q' (k' b v)) :
    ((m >>= k) w).PairedUnless L R Q' ((m' >>= k') v) := by
  obtain hlost | hpair := h
  · exact .inl (Effect.Keeps.after hlasting v hlost)
  · exact hpair.bind_unless hk

theorem Ending.PairedUnless.imp {P : A → B → W → V → Prop} {e : Ending W A} {e' : Ending V B}
    (h : e.PairedUnless L R P e') (hQ : ∀ {a b w v}, P a b w v → Q a b w v) : e.PairedUnless L R Q e' :=
  Or.imp_right (fun hpair => hpair.imp hQ) h

/-- What is made of the results does not matter. -/
theorem Ending.PairedUnless.of_bind_pure {Q : A' → B' → W → V → Prop} {f : A → A'} {g : B → B'} {m : Effect W A}
    {m' : Effect V B} {w : W} {v : V}
    (h : ((m >>= fun a => pure (f a)) w).PairedUnless L R Q ((m' >>= fun b => pure (g b)) v)) :
    (m w).PairedUnless L R (fun a b => Q (f a) (g b)) (m' v) := by
  obtain hlost | hpair := h
  · refine .inl ?_
    rw [Effect.bind_apply] at hlost
    cases hv : m' v <;> rw [hv] at hlost <;> exact hlost
  · exact hpair.of_bind_pure.unless

/-- Both sides keep what they ensure on their own. -/
theorem Ending.PairedUnless.and_ensures {P : A → Prop} {P' : B → Prop} {e : Ending W A} {e' : Ending V B}
    (h : e.PairedUnless L R Q e') (he : e.Ensures (fun _ => True) fun a _ => P a)
    (he' : e'.Ensures (fun _ => True) fun b _ => P' b) :
    e.PairedUnless L R (fun a b w v => P a ∧ P' b ∧ Q a b w v) e' :=
  Or.imp_right (fun hpair => hpair.and_ensures he he') h

/-- A breakdown of either side is a result of both. -/
theorem Ending.PairedUnless.attempt {R : ι → W → V → Prop} {Q : ι → A → B → Prop} {m : Effect W A}
    {m' : Effect V B} {w : W} {v : V} (h : (m w).PairedUnless L (AtSome R) (With R Q) (m' v)) :
    (m.attempt w).PairedUnless L (AtSome R)
      (With R fun i (r : Except Breakdown A) (r' : Except Breakdown B) =>
        (∃ reason, r = .error reason ∧ r' = .error reason) ∨ ∃ a b, r = .ok a ∧ r' = .ok b ∧ Q i a b)
      (m'.attempt v) := by
  obtain hlost | hpair := h
  · refine .inl ?_
    rw [Effect.attempt]
    cases hv : m' v <;> rw [hv] at hlost <;> exact hlost
  · exact hpair.attempt.unless

/-- From worlds in `R 0` the second computation strays, or both come to endings of the same kind. -/
def Effect.PairedUnless (L : V → Prop) (R : Nat → W → V → Prop) (Q : A → B → W → V → Prop) (m : Effect W A)
    (m' : Effect V B) : Prop :=
  ∀ w v, R 0 w v → (m w).PairedUnless L R Q (m' v)

theorem Effect.Paired.unless {m : Effect W A} {m' : Effect V B} (h : Effect.Paired R Q m m') :
    Effect.PairedUnless L R Q m m' := fun w v hR => .inr (h w v hR)

theorem Effect.PairedUnless.bind_same {m : Effect W A} {m' : Effect V A} {k : A → Effect W A'}
    {k' : A → Effect V B'} (h : Effect.PairedUnless L R (Same R) m m')
    (hlasting : ∀ a, Effect.Keeps (Lasting L) (k' a)) (hk : ∀ a, Effect.PairedUnless L R Q' (k a) (k' a)) :
    Effect.PairedUnless L R Q' (m >>= k) (m' >>= k') :=
  fun w v hR => (h w v hR).bind hlasting fun a _ w v hab => by
    obtain ⟨rfl, hR⟩ := hab
    exact hk a w v hR

end Rules

/-- Two polls with the same answer are the same stage. -/
theorem Poller.stage_answered {L : V → Prop} {R : ι → W → V → Prop} {T : ι → F → F' → Prop} {p : Poller W F β}
    {q : Poller V F' β} {x : F} {x' : F'} {w : W} {v : V}
    (h : (p x w).PairedUnless L (AtSome R) (With R fun i => Poll.Answered (T i)) (q x' v)) :
    (p.stage x w).PairedUnless L (AtSome R) (Course.Stepped (AtSome R) (With R T)) (q.stage x' v) :=
  h.bind (fun _ => Effect.Keeps.pure _) fun _ _ _ _ hr => .inr (Poll.Answered.stepped hr)

/-! ## Courses -/

namespace Course

variable {L : V → Prop} {R : Nat → W → V → Prop} {D : C → C' → Prop} {J : F → F' → W → V → Prop}
  {co : Course C β γ} {co' : Course C' β γ} {find : C → Effect W (Found F × C)} {step : Stage W F β}
  {find' : C' → Effect V (Found F' × C')} {step' : Stage V F' β} (hco : Alongside D co co')
  (hfind : ∀ {c c'}, D c c' →
    Effect.Paired R (fun a a' w v => D a.2 a'.2 ∧ Found.Paired R J a.1 a'.1 w v) (find c) (find' c'))
  (hstep : ∀ x x' w v, J x x' w v → (step x w).PairedUnless L R (Stepped R J) (step' x' v))
  (hfinds : ∀ c', Effect.Keeps (Lasting L) (find' c')) (hsteps : ∀ x', Effect.Keeps (Lasting L) (step' x'))
include hco hfind hstep hfinds hsteps

theorem Alongside.pursue_unless (fuel : Nat) {a : Found F × C} {a' : Found F' × C'} {w : W} {v : V}
    (hplace : D a.2 a'.2) (hfound : Found.Paired R J a.1 a'.1 w v) :
    (co.pursue find step fuel a w).PairedUnless L R (Simulation.Left (Tie.places R D J) 0)
      (co'.pursue find' step' fuel a' v) := by
  induction fuel using Nat.strong_induction_on generalizing a a' w v with
  | h fuel ih =>
    obtain ⟨found, c⟩ := a
    obtain ⟨found', c'⟩ := a'
    match found, found', hfound with
    | .nothing, .nothing, hR =>
      rw [pursue_nothing, pursue_nothing, hco.total hplace]
      exact .inr ⟨rfl, hR⟩
    | .failed e, .failed _, ⟨rfl, hR⟩ =>
      rw [pursue_failed, pursue_failed]
      exact .inr ⟨rfl, hR⟩
    | .step x, .step x', hJ =>
      have hlasting : ∀ c r, Effect.Keeps (Lasting L) (co'.onward find' step' fuel c r) :=
        keeps_onward_of hfinds fun less _ => keeps_pursue hfinds hsteps less
      rw [pursue_step, pursue_step]
      refine (hstep x x' w v hJ).bind (fun s => ?_) fun s s' w v hs => ?_
      · cases s with
        | inl r => exact hlasting c' r
        | inr x => exact Effect.Keeps.pure _
      match s, s', hs with
      | .inr x, .inr x', hJ => exact .inr ⟨hplace, hJ⟩
      | .inl r, .inl _, ⟨rfl, hR⟩ =>
        change (co.onward find step fuel c r w).PairedUnless L R _ (co'.onward find' step' fuel c' r v)
        obtain ⟨ρ, hj, hj'⟩ | ⟨d, d', hj, hj', hd⟩ := hco.judge_cases hplace r
        · rw [onward_of_inl _ _ _ hj, onward_of_inl _ _ _ hj']
          exact .inr ⟨rfl, hR⟩
        · cases fuel with
          | zero =>
            rw [onward_zero _ _ hj, onward_zero _ _ hj']
            exact .inr ⟨0, hR⟩
          | succ fuel =>
            rw [onward_succ _ _ _ hj, onward_succ _ _ _ hj']
            refine (hfind hd w v hR).bind_unless fun b b' w v hb => ?_
            exact ih fuel (Nat.lt_succ_self fuel) hb.1 hb.2

/-- One poll of two courses that make the same of their steps. -/
theorem Alongside.stage_unless (fuel N : Nat) {s : State C F} {s' : State C' F'} {w : W} {v : V}
    (h : (Tie.places (γ := γ) R D J).begun N s s' w v) :
    (co.stage find step fuel s w).PairedUnless L R (Simulation.Left (Tie.places R D J) 0)
      (co'.stage find' step' fuel s' v) := by
  obtain ⟨c, c', rfl, rfl, hplace, hR⟩ | ⟨x, c, x', c', rfl, rfl, hplace, hJ⟩ := Tie.begun_cases h
  · refine (hfind hplace w v hR).bind_unless fun a a' w v ha => ?_
    exact hco.pursue_unless hfind hstep hfinds hsteps fuel ha.1 ha.2
  · exact hco.pursue_unless hfind hstep hfinds hsteps fuel hplace hJ

end Course

end Stepwise
