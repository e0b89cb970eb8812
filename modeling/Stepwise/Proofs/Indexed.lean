import Stepwise.Proofs.Job.Course
import Stepwise.Proofs.Simulation

/-! # Relations that are found on the way

What ties two runs may only be found while they go on. `R i` relates their worlds at the index `i`, which says
what has been found so far.

* `AtSome R`: the worlds are in `R` at some index. `With R Q`: there the results are in `Q` as well.
* `Poll.Answered T`: two polls give the same answer and, unless that is a panic, leave states that are in `T`.
-/

namespace Stepwise
set_option autoImplicit false

variable {ι W V F F' β γ : Type}

section Rules

universe u

variable {A B A' B' : Type u}

/-- The worlds are related at some index. -/
def AtSome (R : ι → W → V → Prop) : Nat → W → V → Prop := fun _ w v => ∃ i, R i w v

/-- At some index the worlds are related, and the results with them. -/
def With (R : ι → W → V → Prop) (Q : ι → A → B → Prop) : A → B → W → V → Prop :=
  fun a b w v => ∃ i, R i w v ∧ Q i a b

/-- What is known of two endings may be weakened. -/
theorem Ending.Paired.weaken {R R' : Nat → W → V → Prop} {Q Q' : A → B → W → V → Prop} {e : Ending W A}
    {e' : Ending V B} (h : e.Paired R Q e') (hR : ∀ d w v, R d w v → R' d w v)
    (hQ : ∀ a b w v, Q a b w v → Q' a b w v) : e.Paired R' Q' e' := by
  cases e with
  | returned a w =>
    obtain ⟨b, v, rfl, hab⟩ := h.exists_right
    exact hQ a b w v hab
  | broken reason w =>
    obtain ⟨v, rfl, hw⟩ := h.broken_right
    exact ⟨rfl, hR 0 w v hw⟩
  | cut w =>
    cases e' with
    | cut v =>
      obtain ⟨d, hd⟩ := h
      exact ⟨d, hR d w v hd⟩
    | returned b v => exact h.elim
    | broken reason v => exact h.elim

/-- A breakdown of either side is a result of both. -/
theorem Ending.Paired.attempt {R : ι → W → V → Prop} {Q : ι → A → B → Prop} {m : Effect W A} {m' : Effect V B}
    {w : W} {v : V} (h : (m w).Paired (AtSome R) (With R Q) (m' v)) :
    (m.attempt w).Paired (AtSome R)
      (With R fun i (r : Except Breakdown A) (r' : Except Breakdown B) =>
        (∃ reason, r = .error reason ∧ r' = .error reason) ∨ ∃ a b, r = .ok a ∧ r' = .ok b ∧ Q i a b)
      (m'.attempt v) := by
  rw [Effect.attempt, Effect.attempt]
  cases hm : m w with
  | returned a w' =>
    rw [hm] at h
    obtain ⟨b, v', hb, i, hR, hQ⟩ := h.exists_right
    rw [hb]
    exact ⟨i, hR, .inr ⟨a, b, rfl, rfl, hQ⟩⟩
  | broken reason w' =>
    rw [hm] at h
    obtain ⟨v', hv, i, hR⟩ := h.broken_right
    rw [hv]
    exact ⟨i, hR, .inl ⟨reason, rfl, rfl⟩⟩
  | cut w' =>
    rw [hm] at h
    cases hv : m' v with
    | cut v' => rw [hv] at h; exact h
    | returned b v' => rw [hv] at h; exact h.elim
    | broken reason v' => rw [hv] at h; exact h.elim

end Rules

/-! ## Answers -/

/-- The same answer, and after it two states that are in `T`. After a panic nothing is said of them. -/
def Poll.Answered (T : F → F' → Prop) (r : Poll β × F) (r' : Poll β × F') : Prop :=
  r.1 = r'.1 ∧ ((∃ cause, r.1 = .panicked cause) ∨ T r.2 r'.2)

namespace Poll.Answered

variable {T : F → F' → Prop}

theorem map {G G' : Type} {T' : G → G' → Prop} {wrap : F → G} {wrap' : F' → G'}
    (hT : ∀ x x', T x x' → T' (wrap x) (wrap' x')) (f : β → γ) {r : Poll β × F} {r' : Poll β × F'}
    (h : Poll.Answered T r r') : Poll.Answered T' (r.1.map f, wrap r.2) (r'.1.map f, wrap' r'.2) := by
  obtain ⟨hanswer, hcause | hT'⟩ := h
  · obtain ⟨cause, hcause⟩ := hcause
    exact ⟨congrArg (Poll.map f) hanswer, .inl ⟨cause, by rw [hcause]; rfl⟩⟩
  · exact ⟨congrArg (Poll.map f) hanswer, .inr (hT _ _ hT')⟩

/-- Only a panic leaves a state of which nothing is said. -/
theorem state {r : Poll β × F} {r' : Poll β × F'} (h : Poll.Answered T r r')
    (hgoes : ∀ cause, r.1 ≠ .panicked cause) : T r.2 r'.2 :=
  h.2.resolve_left fun ⟨cause, hcause⟩ => hgoes cause hcause

/-- What is kept of two such polls. -/
theorem stepped {R : ι → W → V → Prop} {T : ι → F → F' → Prop} {r : Poll β × F} {r' : Poll β × F'} {w : W}
    {v : V} (h : With R (fun i => Poll.Answered (T i)) r r' w v) :
    Course.Stepped (AtSome R) (With R T) (Poll.staged r) (Poll.staged r') w v := by
  obtain ⟨answer, x⟩ := r
  obtain ⟨answer', x'⟩ := r'
  obtain ⟨i, hR, hT⟩ := h
  cases hT.1
  cases answer with
  | ready o => exact ⟨rfl, i, hR⟩
  | panicked cause => exact ⟨rfl, i, hR⟩
  | pending => exact ⟨i, hR, hT.state (by rintro cause ⟨⟩)⟩

end Poll.Answered

end Stepwise
