import Stepwise.Poll

/-! # What a computation ensures

`e.Ensures I Q` says of an ending that the world is in `I` if the computation broke down or was cut
off, and that `Q` holds of the result and the world if it returned. A statement about all endings
also covers computations that never come to an end: whatever they do, they do before they are cut
off at some fuel.

* `Ensures.bind` is the rule for one computation after another, `Ensures.mono` weakens.
* `Effect.Keeps R m`: whatever becomes of `m`, the world it leaves is related by `R` to the world it
  found. For a reflexive and transitive `R` this passes through every combination of effects.
-/

namespace Stepwise
set_option autoImplicit false

universe u

variable {W S : Type} {α β : Type u}

/-- The world is in `I`, or there is a result and it is in `Q`. -/
def Ending.Ensures (I : W → Prop) (Q : α → W → Prop) : Ending W α → Prop
  | .returned a w => Q a w
  | .broken _ w => I w
  | .cut w => I w

instance Ending.decidableEnsures (I : W → Prop) (Q : α → W → Prop) [DecidablePred I] [∀ a, DecidablePred (Q a)] :
    ∀ e : Ending W α, Decidable (e.Ensures I Q)
  | .returned a w => inferInstanceAs (Decidable (Q a w))
  | .broken _ w => inferInstanceAs (Decidable (I w))
  | .cut w => inferInstanceAs (Decidable (I w))

namespace Ending.Ensures

variable {I J : W → Prop} {Q Q' : α → W → Prop}

theorem mono {e : Ending W α} (h : e.Ensures I Q) (hI : ∀ w, I w → J w)
    (hQ : ∀ a w, Q a w → Q' a w) : e.Ensures J Q' := by
  cases e with
  | returned a w => exact hQ a w h
  | broken reason w => exact hI w h
  | cut w => exact hI w h

theorem bind {m : Effect W α} {k : α → Effect W β} {w : W} {Q : α → W → Prop}
    {R : β → W → Prop} (h : (m w).Ensures I Q) (hk : ∀ a w, Q a w → (k a w).Ensures I R) :
    ((m >>= k) w).Ensures I R := by
  rw [Effect.bind_apply]
  cases hm : m w with
  | returned a w => rw [hm] at h; exact hk a w h
  | broken reason w => rw [hm] at h; exact h
  | cut w => rw [hm] at h; exact h

/-- What is made of the result does not matter. -/
theorem of_bind_pure {m : Effect W α} {f : α → β} {w : W} {Q : β → W → Prop}
    (h : ((m >>= fun a => pure (f a)) w).Ensures I Q) : (m w).Ensures I fun a => Q (f a) := by
  rw [Effect.bind_apply] at h
  cases hm : m w <;> rw [hm] at h <;> exact h

/-- Every ending ensures nothing. -/
theorem any (e : Ending W α) : e.Ensures (fun _ => True) fun _ _ => True := by
  cases e <;> trivial

/-- Two ways to go on that agree where they are taken. -/
theorem bind_eq {m : Effect W α} {k k' : α → Effect W β} {w : W}
    (h : (m w).Ensures (fun _ => True) fun a w => k a w = k' a w) : (m >>= k) w = (m >>= k') w := by
  rw [Effect.bind_apply, Effect.bind_apply]
  cases hm : m w with
  | returned a w => rw [hm] at h; exact h
  | broken reason w => rfl
  | cut w => rfl

theorem and {e : Ending W α} (h : e.Ensures I Q) (h' : e.Ensures J Q') :
    e.Ensures I fun a w => Q a w ∧ Q' a w := by
  cases e with
  | returned a w => exact ⟨h, h'⟩
  | broken reason w => exact h
  | cut w => exact h

/-- What is ensured of the result, where nothing is asked of the world without one. -/
theorem result {e : Ending W α} (h : e.Ensures I Q) : e.Ensures (fun _ => True) Q :=
  h.mono (fun _ _ => trivial) fun _ _ h => h

theorem world {e : Ending W α} (h : e.Ensures I fun _ => I) : I e.world := by
  cases e <;> exact h

/-- The second part of the world is as it was. -/
theorem within (m : Effect W α) (w : W) (s : S) :
    (m.within S (w, s)).Ensures (fun ws => ws.2 = s) (fun _ ws => ws.2 = s) := by
  simp only [Effect.within]
  cases m w <;> rfl

/-- What is ensured in the first part of the world, and the second part is as it was. -/
theorem within_and {m : Effect W α} {w : W} (h : (m w).Ensures I Q) (s : S) :
    (m.within S (w, s)).Ensures (fun ws => I ws.1) fun a ws => ws.2 = s ∧ Q a ws.1 := by
  simp only [Effect.within]
  cases hm : m w with
  | returned a w => rw [hm] at h; exact ⟨rfl, h⟩
  | broken reason w => rw [hm] at h; exact h
  | cut w => rw [hm] at h; exact h

/-- What holds of the second part of the world goes on to hold. -/
theorem within_of {R : S → Prop} (m : Effect W α) {ws : W × S} (h : R ws.2) :
    (m.within S ws).Ensures (fun ws => R ws.2) fun _ ws => R ws.2 := by
  refine (within m ws.1 ws.2).mono ?_ ?_
  · intro ws' hws'
    rw [hws']
    exact h
  · intro _ ws' hws'
    rw [hws']
    exact h

end Ending.Ensures

/-! ## Computations that do not return -/

/-- From some world the computation breaks down or is cut off, and it leaves this one. -/
def Effect.StopsIn (m : Effect W α) (w : W) : Prop := ∃ u, (m u).Ensures (· = w) fun _ _ => False

/-- Where a computation within a larger world does not return it stops on its own, and it never changes the rest. -/
theorem Ending.Ensures.within_stops (m : Effect W α) (w : W) (s : S) :
    (m.within S (w, s)).Ensures (fun ws => m.StopsIn ws.1 ∧ ws.2 = s) fun _ ws => ws.2 = s := by
  simp only [Effect.within]
  cases hm : m w with
  | returned a v => rfl
  | broken reason v =>
    refine ⟨⟨w, ?_⟩, rfl⟩
    rw [hm]
    rfl
  | cut v =>
    refine ⟨⟨w, ?_⟩, rfl⟩
    rw [hm]
    rfl

/-! ## Worlds that only grow -/

namespace Effect

/-- The world that is left is related to the world that was found. -/
def Keeps (R : W → W → Prop) (m : Effect W α) : Prop := ∀ w, R w (m w).world

namespace Keeps

variable {R : W → W → Prop}

theorem pure [Std.Refl R] (a : α) : Keeps R (pure a : Effect W α) := fun w => Std.Refl.refl w

theorem cut [Std.Refl R] : Keeps R (cut : Effect W α) := fun w => Std.Refl.refl w

theorem reads [Std.Refl R] (f : W → α) : Keeps R (reads f) := fun w => Std.Refl.refl w

theorem bind [Trans R R R] {m : Effect W α} {k : α → Effect W β} (hm : Keeps R m)
    (hk : ∀ a, Keeps R (k a)) : Keeps R (m >>= k) := by
  intro w
  have h := hm w
  rw [bind_apply]
  cases hw : m w with
  | returned a w' =>
    rw [hw] at h
    exact Trans.trans h (hk a w')
  | broken reason w' => rw [hw] at h; exact h
  | cut w' => rw [hw] at h; exact h

theorem mono {R' : W → W → Prop} {m : Effect W α} (h : ∀ w w', R w w' → R' w w')
    (hm : Keeps R m) : Keeps R' m := fun w => h _ _ (hm w)

theorem attempt {m : Effect W α} (hm : Keeps R m) : Keeps R m.attempt := by
  intro w
  have h := hm w
  rw [Effect.attempt]
  cases hw : m w <;> rw [hw] at h <;> exact h

theorem ensures {m : Effect W α} (h : Keeps R m) (w : W) : (m w).Ensures (R w) fun _ => R w := by
  have hw := h w
  cases hm : m w <;> rw [hm] at hw <;> exact hw

/-- What is made of the result does not matter. -/
theorem of_bind_pure {m : Effect W α} {f : α → β}
    (h : Keeps R (m >>= fun a => Pure.pure (f a))) : Keeps R m := by
  intro w
  have hw := h w
  rw [bind_apply] at hw
  cases hm : m w <;> rw [hm] at hw <;> exact hw

/-- What is done afterwards keeps what was there before it. -/
theorem after [Std.Refl R] {m : Effect W α} {k : α → Effect W β} (hk : ∀ a, Keeps R (k a)) (w : W) :
    R (m w).world ((m >>= k) w).world := by
  rw [bind_apply]
  cases m w with
  | returned a w' => exact hk a w'
  | broken reason w' => exact Std.Refl.refl w'
  | cut w' => exact Std.Refl.refl w'

end Keeps

end Effect

end Stepwise
