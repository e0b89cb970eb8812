import Stepwise.Proofs.Course

/-! # Two runs side by side

Two computations that run side by side, each in its own world. `R d` relates the two worlds when the
first run has still to wait for `d` polls and the second one for none.

* `Ending.Paired R Q`: the endings are of the same kind; results and worlds are in `Q`, and where the
  runs break down there is nothing to wait for.
* `Paired.bind` is the rule for one computation after another, `Paired.imp` weakens.
* `Since R first` relates the world of a run to itself if it comes after `first`. What a computation
  keeps is what it does beside itself (`Keeps.of_paired`, `Keeps.paired`).
* `Course.carry_paired`: a course that is carried through on one side and polled on the other. If no
  step of the second side ever waits, the poll gives at once what the first side comes to.
-/

namespace Stepwise
set_option autoImplicit false

variable {W V C C' F F' β γ : Type}

section Rules

universe u

variable {A B A' B' : Type u} {R : Nat → W → V → Prop} {Q : A → B → W → V → Prop}
  {Q' : A' → B' → W → V → Prop}

/-- The two endings are of the same kind. -/
def Ending.Paired (R : Nat → W → V → Prop) (Q : A → B → W → V → Prop) : Ending W A → Ending V B → Prop
  | .returned a w, .returned b v => Q a b w v
  | .broken reason w, .broken reason' v => reason = reason' ∧ R 0 w v
  | .cut w, .cut v => ∃ d, R d w v
  | _, _ => False

/-- From worlds in `R 0` the two computations come to endings of the same kind. -/
def Effect.Paired (R : Nat → W → V → Prop) (Q : A → B → W → V → Prop) (m : Effect W A) (m' : Effect V B) :
    Prop :=
  ∀ w v, R 0 w v → (m w).Paired R Q (m' v)

/-- The results are equal and there is nothing to wait for. -/
def Same (R : Nat → W → V → Prop) : A → A → W → V → Prop := fun a b w v => a = b ∧ R 0 w v

theorem Ending.Paired.exists_right {a : A} {w : W} {e' : Ending V B}
    (h : (Ending.returned a w).Paired R Q e') : ∃ b v, e' = .returned b v ∧ Q a b w v := by
  cases e' with
  | returned b v => exact ⟨b, v, rfl, h⟩
  | _ => exact h.elim

theorem Ending.Paired.exists_left {e : Ending W A} {b : B} {v : V}
    (h : e.Paired R Q (.returned b v)) : ∃ a w, e = .returned a w ∧ Q a b w v := by
  cases e with
  | returned a w => exact ⟨a, w, rfl, h⟩
  | _ => exact h.elim

theorem Ending.Paired.broken_right {reason : Breakdown} {w : W} {e' : Ending V B}
    (h : (Ending.broken reason w : Ending W A).Paired R Q e') :
    ∃ v, e' = .broken reason v ∧ R 0 w v := by
  cases e' with
  | broken reason' v => obtain ⟨rfl, hR⟩ := h; exact ⟨v, rfl, hR⟩
  | _ => exact h.elim

theorem Ending.Paired.broken_left {e : Ending W A} {reason : Breakdown} {v : V}
    (h : e.Paired R Q (.broken reason v)) : ∃ w, e = .broken reason w ∧ R 0 w v := by
  cases e with
  | broken reason' w => obtain ⟨rfl, hR⟩ := h; exact ⟨w, rfl, hR⟩
  | _ => exact h.elim

theorem Ending.Paired.imp {P : A → B → W → V → Prop} {e : Ending W A} {e' : Ending V B} (h : e.Paired R P e')
    (hQ : ∀ {a b w v}, P a b w v → Q a b w v) : e.Paired R Q e' := by
  cases e with
  | returned a w =>
    obtain ⟨b, v, rfl, hP⟩ := h.exists_right
    exact hQ hP
  | broken reason w => cases e' <;> exact h
  | cut w => cases e' <;> exact h

theorem Ending.Paired.bind {m : Effect W A} {m' : Effect V B} {k : A → Effect W A'}
    {k' : B → Effect V B'} {w : W} {v : V} (h : (m w).Paired R Q (m' v))
    (hk : ∀ a b w v, Q a b w v → (k a w).Paired R Q' (k' b v)) :
    ((m >>= k) w).Paired R Q' ((m' >>= k') v) := by
  rw [Effect.bind_apply, Effect.bind_apply]
  cases hm : m w with
  | returned a w =>
    rw [hm] at h
    cases hm' : m' v with
    | returned b v => rw [hm'] at h; exact hk a b w v h
    | broken reason v => rw [hm'] at h; exact h.elim
    | cut v => rw [hm'] at h; exact h.elim
  | broken reason w =>
    rw [hm] at h
    cases hm' : m' v with
    | returned b v => rw [hm'] at h; exact h.elim
    | broken reason v => rw [hm'] at h; exact h
    | cut v => rw [hm'] at h; exact h.elim
  | cut w =>
    rw [hm] at h
    cases hm' : m' v with
    | returned b v => rw [hm'] at h; exact h.elim
    | broken reason v => rw [hm'] at h; exact h.elim
    | cut v => rw [hm'] at h; exact h

/-- Only the right side goes on. -/
theorem Ending.Paired.bind_right {Q' : A → B' → W → V → Prop} {m : Effect W A} {m' : Effect V B}
    {k' : B → Effect V B'} {w : W} {v : V} (h : (m w).Paired R Q (m' v))
    (hk : ∀ a b w v, Q a b w v → (Ending.returned a w).Paired R Q' (k' b v)) :
    (m w).Paired R Q' ((m' >>= k') v) := by
  have hbind : ((m >>= pure) w).Paired R Q' ((m' >>= k') v) := h.bind hk
  rw [bind_pure] at hbind
  exact hbind

namespace Effect.Paired

theorem bind {m : Effect W A} {m' : Effect V B} {k : A → Effect W A'} {k' : B → Effect V B'}
    (h : Paired R Q m m') (hk : ∀ a b w v, Q a b w v → (k a w).Paired R Q' (k' b v)) :
    Paired R Q' (m >>= k) (m' >>= k') := fun w v hR => (h w v hR).bind hk

theorem bind_same {m : Effect W A} {m' : Effect V A} {k : A → Effect W A'} {k' : A → Effect V B'}
    (h : Paired R (Same R) m m') (hk : ∀ a, Paired R Q' (k a) (k' a)) :
    Paired R Q' (m >>= k) (m' >>= k') :=
  h.bind fun a b w v hab => by
    obtain ⟨rfl, hR⟩ := hab
    exact hk a w v hR

theorem pure {a : A} {b : B} (h : ∀ w v, R 0 w v → Q a b w v) :
    Paired R Q (Pure.pure a) (Pure.pure b) := h

theorem pure_same (a : A) : Paired R (Same R) (Pure.pure a) (Pure.pure a) := fun _ _ h => ⟨rfl, h⟩

theorem cut : Paired R Q (Effect.cut : Effect W A) (Effect.cut : Effect V B) :=
  fun _ _ h => ⟨0, h⟩

theorem reads {f : W → A} {f' : V → A} (h : ∀ w v, R 0 w v → f w = f' v) :
    Paired R (Same R) (Effect.reads f) (Effect.reads f') := fun w v hR => ⟨h w v hR, hR⟩

theorem changes {f : W → W} {f' : V → V} (h : ∀ w v, R 0 w v → R 0 (f w) (f' v)) :
    Paired R (Same R) (Effect.changes f) (Effect.changes f') := fun w v hR => ⟨rfl, h w v hR⟩

theorem imp {P : A → B → W → V → Prop} {m : Effect W A} {m' : Effect V B} (h : Paired R P m m')
    (hQ : ∀ {a b w v}, P a b w v → Q a b w v) : Paired R Q m m' :=
  fun w v hR => (h w v hR).imp fun h => hQ h

end Effect.Paired

/-! ## A run beside itself -/

/-- The two worlds are one, which has come from the first one. -/
def Since (K : W → W → Prop) (first : W) : Nat → W → W → Prop := fun _ w v => w = v ∧ K first w

variable {K : W → W → Prop}

theorem Effect.Keeps.of_paired [Std.Refl K] {m : Effect W A}
    (h : ∀ first, Effect.Paired (Since K first) (fun _ _ w _ => K first w) m m) :
    Effect.Keeps K m := by
  intro w
  have hpair := h w w w ⟨rfl, Std.Refl.refl w⟩
  cases hm : m w with
  | returned a w' => rw [hm] at hpair; exact hpair
  | broken reason w' => rw [hm] at hpair; exact hpair.2.2
  | cut w' =>
    rw [hm] at hpair
    obtain ⟨d, hd⟩ := hpair
    exact hd.2

theorem Effect.Keeps.paired [Trans K K K] {m : Effect W A} (h : Effect.Keeps K m) (first : W) :
    Effect.Paired (Since K first) (Same (Since K first)) m m := by
  rintro w v ⟨rfl, hfirst⟩
  have hw := h w
  cases hm : m w with
  | returned a w' => rw [hm] at hw; exact ⟨rfl, rfl, Trans.trans hfirst hw⟩
  | broken reason w' => rw [hm] at hw; exact ⟨rfl, rfl, Trans.trans hfirst hw⟩
  | cut w' => rw [hm] at hw; exact ⟨0, rfl, Trans.trans hfirst hw⟩

end Rules

/-! ## Courses -/

/-- What the two sides find: the same, or two steps that are in `J`. -/
def Found.Paired (R : Nat → W → V → Prop) (J : F → F' → W → V → Prop) : Found F → Found F' → W → V → Prop
  | .step x, .step x', w, v => J x x' w v
  | .nothing, .nothing, w, v => R 0 w v
  | .failed e, .failed e', w, v => e = e' ∧ R 0 w v
  | _, _, _, _ => False

/-- What the two sides find, in two forms of the same place. -/
def Found.PairedAt {D : Type} (R : Nat → W → V → Prop) (J : F → F' → W → V → Prop) (left : D → C)
    (right : D → C') : Found F × C → Found F' × C' → W → V → Prop :=
  fun a b w v => Found.Paired R J a.1 b.1 w v ∧ ∃ c, a.2 = left c ∧ b.2 = right c

/-- What the two sides find, in two forms of the same place, which is in `E`. -/
def Found.PairedIn {D : Type} (E : D → Prop) (R : Nat → W → V → Prop) (J : F → F' → W → V → Prop)
    (left : D → C) (right : D → C') : Found F × C → Found F' × C' → W → V → Prop :=
  fun a b w v => Found.Paired R J a.1 b.1 w v ∧ ∃ c, E c ∧ a.2 = left c ∧ b.2 = right c

theorem Found.PairedIn.at {D : Type} {E : D → Prop} {R : Nat → W → V → Prop} {J : F → F' → W → V → Prop}
    {left : D → C} {right : D → C'} {a : Found F × C} {b : Found F' × C'} {w : W} {v : V}
    (h : Found.PairedIn E R J left right a b w v) : Found.PairedAt R J left right a b w v := by
  obtain ⟨hfound, c, -, ha, hb⟩ := h
  exact ⟨hfound, c, ha, hb⟩

/-- The second side has resolved at once to what the first one came to. -/
def AtOnce {S α : Type} (R : Nat → W → W → Prop) :
    Resolution α → Resolution α ⊕ S → W → W → Prop :=
  fun r s w v => s = .inl r ∧ R 0 w v

/-- What is done after both sides have come to the same resolution. -/
theorem Ending.Paired.around {S T α : Type} {R : Nat → W → W → Prop} {m : Effect W (Resolution α)}
    {m' : Effect W (Resolution α ⊕ S)} {close close' : Resolution α → Effect W (Resolution β)}
    (wrap : S → T) {w v : W} (h : (m w).Paired R (AtOnce R) (m' v))
    (hclose : ∀ r, Effect.Paired R (Same R) (close r) (close' r)) :
    ((m >>= close) w).Paired R (AtOnce R) ((m' >>= Stage.around wrap close') v) := by
  refine h.bind fun r s w v hs => ?_
  obtain ⟨rfl, hR⟩ := hs
  rw [← bind_pure (close r)]
  refine (hclose r w v hR).bind fun a b w v hab => ?_
  obtain ⟨rfl, hR⟩ := hab
  exact ⟨rfl, hR⟩

/-- A change of the places that the course does not see. -/
structure Course.Along {D : Type} (co₀ : Course D β γ) (co : Course C β γ) (f : D → C) : Prop where
  absorb : ∀ c b, co.absorb (f c) b = (co₀.absorb c b).map f
  total : ∀ c, co.total (f c) = co₀.total c

theorem Course.Along.judge {D : Type} {co₀ : Course D β γ} {co : Course C β γ} {f : D → C}
    (h : co₀.Along co f) (c : D) (r : Resolution β) :
    co.judge (f c) r = (co₀.judge c r).map id f := by
  cases r with
  | error p => rfl
  | ok o =>
    cases o with
    | error e => rfl
    | ok b =>
      simp only [Course.judge, h.absorb, h.total]
      cases co₀.absorb c b <;> rfl

section Carry

variable {D : Type} {R : Nat → W → W → Prop} {J : F → F → W → W → Prop} {left right : D → C}
  {co₀ : Course D β γ} {co : Course C β γ} {find find' : C → Effect W (Found F × C)}
  {through : F → Effect W (Resolution β)} {step : Stage W F β}

/-- What both sides do after the same resolution of their step. -/
theorem Course.further_paired (hleft : co₀.Along co left) (hright : co₀.Along co right)
    (hfind : ∀ c, Effect.Paired R (Found.PairedAt R J left right) (find (left c)) (find' (right c)))
    {fuel : Nat}
    (ih : ∀ fuel' < fuel, ∀ {found found' : Found F} (c : D) {w v : W}, Found.Paired R J found found' w v →
      (co.carry find through fuel' (found, left c) w).Paired R (AtOnce R)
        (co.pursue find' step fuel' (found', right c) v))
    (c : D) (r : Resolution β) {w v : W} (hR : R 0 w v) :
    (co.further find through fuel (left c) r w).Paired R (AtOnce R)
      (co.onward find' step fuel (right c) r v) := by
  have hl := hleft.judge c r
  have hr := hright.judge c r
  cases hj : co₀.judge c r with
  | inl r' =>
    rw [hj] at hl hr
    rw [further_of_inl _ _ _ hl, onward_of_inl _ _ _ hr]
    exact ⟨rfl, hR⟩
  | inr c' =>
    rw [hj] at hl hr
    cases fuel with
    | zero =>
      rw [further_zero _ _ hl, onward_zero _ _ hr]
      exact ⟨0, hR⟩
    | succ fuel =>
      rw [further_succ _ _ _ hl, onward_succ _ _ _ hr]
      refine (hfind c' w v hR).bind fun a b w v hab => ?_
      obtain ⟨found, c₁⟩ := a
      obtain ⟨found', c₂⟩ := b
      obtain ⟨hfound, c', hc₁, hc₂⟩ := hab
      cases hc₁
      cases hc₂
      exact ih fuel (Nat.lt_succ_self fuel) c' hfound

theorem Course.carry_paired (hleft : co₀.Along co left) (hright : co₀.Along co right)
    (hfind : ∀ c, Effect.Paired R (Found.PairedAt R J left right) (find (left c)) (find' (right c)))
    (hthrough : ∀ x x' w v, J x x' w v → (through x w).Paired R (AtOnce R) (step x' v)) (fuel : Nat)
    {found found' : Found F} (c : D) {w v : W} (h : Found.Paired R J found found' w v) :
    (co.carry find through fuel (found, left c) w).Paired R (AtOnce R)
      (co.pursue find' step fuel (found', right c) v) := by
  induction fuel using Nat.strong_induction_on generalizing found found' c w v with
  | h fuel ih =>
  cases found with
  | nothing =>
    cases found' with
    | nothing =>
      rw [carry_nothing, pursue_nothing, hleft.total, hright.total]
      exact ⟨rfl, h⟩
    | step x' => exact h.elim
    | failed e' => exact h.elim
  | failed e =>
    cases found' with
    | failed e' =>
      obtain ⟨rfl, hR⟩ := h
      rw [carry_failed, pursue_failed]
      exact ⟨rfl, hR⟩
    | step x' => exact h.elim
    | nothing => exact h.elim
  | step x =>
    cases found' with
    | nothing => exact h.elim
    | failed e' => exact h.elim
    | step x' =>
      rw [carry_step, pursue_step]
      refine (hthrough x x' w v h).bind fun r s w v hs => ?_
      obtain ⟨rfl, hR⟩ := hs
      -- Both sides go on with the same resolution of their step.
      change (co.further find through fuel (left c) r w).Paired R (AtOnce R)
        (co.onward find' step fuel (right c) r v)
      exact further_paired hleft hright hfind (fun fuel' hf => ih fuel' hf) c r hR

theorem Course.finish_paired_ahead (hleft : co₀.Along co left) (hright : co₀.Along co right)
    (hfind : ∀ c, Effect.Paired R (Found.PairedAt R J left right) (find (left c)) (find' (right c)))
    (hthrough : ∀ x x' w v, J x x' w v → (through x w).Paired R (AtOnce R) (step x' v)) (fuel : Nat)
    (c : D) {w v : W} (h : R 0 w v) :
    (co.finish find through fuel (.ahead (left c)) w).Paired R (AtOnce R)
      (co.stage find' step fuel (.ahead (right c)) v) := by
  refine (hfind c w v h).bind fun a b w v hab => ?_
  obtain ⟨found, c₁⟩ := a
  obtain ⟨found', c₂⟩ := b
  obtain ⟨hfound, c', hc₁, hc₂⟩ := hab
  cases hc₁
  cases hc₂
  exact carry_paired hleft hright hfind hthrough fuel c' hfound

end Carry

end Stepwise
