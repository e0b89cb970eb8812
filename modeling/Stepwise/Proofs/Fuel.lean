import Stepwise.Effect

/-! # More fuel

`Below m m'`: wherever `m` comes to an end, `m'` comes to the same end. A computation with little fuel
is below the same computation with more fuel; `cut` is below everything.

* `Below.bind` passes it through one computation after another, so that a recursion on the fuel is
  followed by an induction on the smaller fuel.
* `Ends m w e`: with enough fuel the family `m` comes to the ending `e`. Two families `Agree` if they come
  to the same endings, so that one of them comes to an end exactly if the other one does.
-/

namespace Stepwise.Effect
set_option autoImplicit false

variable {W : Type} {α β : Type}

/-- Wherever the first computation comes to an end, the second one comes to the same end. -/
def Below (m m' : Effect W α) : Prop := ∀ w, (m w).isCut = false → m' w = m w

theorem isCut_of_bind {m : Effect W α} {k : α → Effect W β} {w : W} (h : ((m >>= k) w).isCut = false) :
    (m w).isCut = false := by
  cases hm : m w with
  | cut v => rw [bind_of_cut _ hm] at h; cases h
  | _ => rfl

theorem returned_of_bind {m : Effect W α} {k : α → Effect W β} {w w' : W} {c : β}
    (h : (m >>= k) w = .returned c w') : ∃ a v, m w = .returned a v ∧ k a v = .returned c w' := by
  cases hm : m w with
  | returned a v => exact ⟨a, v, rfl, by rw [← h, bind_of_returned _ hm]⟩
  | broken reason v => rw [bind_of_broken _ hm] at h; cases h
  | cut v => rw [bind_of_cut _ hm] at h; cases h

namespace Below

theorem refl (m : Effect W α) : Below m m := fun _ _ => rfl

theorem of_eq {m m' : Effect W α} (h : m = m') : Below m m' := fun _ _ => by rw [h]

theorem cut (m : Effect W α) : Below Effect.cut m := fun _ h => nomatch h

theorem of_returned {m m' : Effect W α} {a : α} {w v : W} (h : Below m m')
    (hm : m w = .returned a v) : m' w = .returned a v := by
  rw [h w (by rw [hm]; rfl), hm]

theorem of_broken {m m' : Effect W α} {reason : Breakdown} {w v : W} (h : Below m m')
    (hm : m w = .broken reason v) : m' w = .broken reason v := by
  rw [h w (by rw [hm]; rfl), hm]

theorem trans {m m' m'' : Effect W α} (h : Below m m') (h' : Below m' m'') : Below m m'' := by
  intro w hw
  have hm := h w hw
  rw [h' w (by rw [hm]; exact hw), hm]

theorem bind {m m' : Effect W α} {k k' : α → Effect W β} (hm : Below m m')
    (hk : ∀ a, Below (k a) (k' a)) : Below (m >>= k) (m' >>= k') := by
  intro w h
  rw [bind_apply] at h
  cases hw : m w with
  | returned a w' =>
    rw [bind_of_returned k hw, bind_of_returned k' (hm.of_returned hw)]
    rw [hw] at h
    exact hk a w' h
  | broken reason w' =>
    rw [bind_of_broken k hw, bind_of_broken k' (hm.of_broken hw)]
  | cut w' => rw [hw] at h; exact nomatch h

end Below

/-! ## Families of computations -/

/-- With enough fuel the computation comes to this ending. -/
def Ends (m : Nat → Effect W α) (w : W) (e : Ending W α) : Prop := e.isCut = false ∧ ∃ n, m n w = e

/-- The two computations come to the same endings. -/
def Agree (m m' : Nat → Effect W α) : Prop := ∀ w e, Ends m w e ↔ Ends m' w e

theorem Ends.of_below {m m' : Nat → Effect W α} {w : W} {e : Ending W α}
    (h : ∀ n, ∃ n', (m n).Below (m' n')) (hm : Ends m w e) : Ends m' w e := by
  obtain ⟨hcut, n, rfl⟩ := hm
  obtain ⟨n', hn⟩ := h n
  exact ⟨hcut, n', hn w hcut⟩

namespace Agree

theorem of_below {m m' : Nat → Effect W α} (h : ∀ n, ∃ n', (m n).Below (m' n'))
    (h' : ∀ n, ∃ n', (m' n).Below (m n')) : Agree m m' :=
  fun _ _ => ⟨Ends.of_below h, Ends.of_below h'⟩

theorem refl (m : Nat → Effect W α) : Agree m m := fun _ _ => Iff.rfl

theorem symm {m m' : Nat → Effect W α} (h : Agree m m') : Agree m' m := fun w e => (h w e).symm

theorem trans {m m' m'' : Nat → Effect W α} (h : Agree m m') (h' : Agree m' m'') : Agree m m'' :=
  fun w e => (h w e).trans (h' w e)

/-- What is done before, with whatever fuel, makes no difference. -/
theorem after (m : Effect W α) {k k' : α → Nat → Effect W β} (h : ∀ a, Agree (k a) (k' a)) :
    Agree (fun n => m >>= fun a => k a n) fun n => m >>= fun a => k' a n := by
  intro w e
  cases hm : m w with
  | returned a v =>
    have hk : ∀ k : α → Nat → Effect W β, Ends (fun n => m >>= fun a => k a n) w e ↔ Ends (k a) v e := by
      intro k
      simp only [Ends, bind_of_returned _ hm]
    rw [hk, hk]
    exact h a v e
  | broken reason v => simp only [Ends, bind_of_broken _ hm]
  | cut v => simp only [Ends, bind_of_cut _ hm]

end Agree

end Stepwise.Effect
