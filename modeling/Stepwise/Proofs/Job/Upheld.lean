import Stepwise.Proofs.Job.Closed

/-! # What polls uphold

`Terms` say what holds in the world between the calls of a job, whatever its place is. An `Invariant` says
what holds of the place and the world together.

* `Invariant.Upheld`: the calls between two steps keep to the invariant, and so does each poll of a step.
* `Course.stage_upheld`: then one poll of the course does. By induction on the fuel, step by step.
* `Job.poll_upheld`: and so one poll of a job. It says of the job that is left where the invariant stands, also
  after a panic of a step, and that a job that resolves is closed or found nothing to run over.
-/

namespace Stepwise
set_option autoImplicit false

variable {W I α P G F C β γ : Type}

/-- What is known of a course between its calls: of its place and of the world. -/
structure Course.Invariant (W C F γ : Type) where
  /-- No step is under way. -/
  ahead : C → W → Prop
  /-- This was found and has not been passed. -/
  under : Found F → C → W → Prop
  resolved : Outcome γ → W → Prop
  /-- A call broke down or was cut off, or the fuel gave out. -/
  halted : W → Prop

namespace Course

namespace Invariant

variable (v : Invariant W C F γ)

/-- Where a poll may begin. -/
def stands : State C F → W → Prop
  | .ahead c => v.ahead c
  | .under found c => v.under found c
  | .closed _ => fun _ => False

/-- Where a poll ends. If it has not resolved, a step is under way. -/
def staged : Resolution γ ⊕ State C F → W → Prop
  | .inl (.ok o) => v.resolved o
  | .inr (.under (.step x) c) => v.under (.step x) c
  | _ => fun _ => False

/-- After a step has resolved. -/
def judged : Resolution γ ⊕ C → W → Prop
  | .inl (.ok o) => v.resolved o
  | .inl (.error _) => fun _ => False
  | .inr c => v.ahead c

/-- After the poll of the step under way: one that does not resolve stays under way. -/
def answered (co : Course C β γ) (c : C) (r : Poll β × F) : W → Prop :=
  match r.1 with
  | .ready o => v.judged (co.judge c (.ok o))
  | _ => v.under (.step r.2) c

theorem staged_cases {v : Invariant W C F γ} {s : State C F} {w : W} (h : v.staged (.inr s) w) :
    ∃ x c, s = .under (.step x) c ∧ v.under (.step x) c w := by
  cases s with
  | under found c =>
    cases found with
    | step x => exact ⟨x, c, rfl, h⟩
    | _ => exact h.elim
  | _ => exact h.elim

theorem stands_mono {v : Invariant W C F γ} {s : State C F} {w w' : W} (h : v.stands s w)
    (hahead : ∀ c, v.ahead c w → v.ahead c w') (hunder : ∀ found c, v.under found c w → v.under found c w') :
    v.stands s w' := by
  cases s with
  | ahead c => exact hahead c h
  | under found c => exact hunder found c h
  | closed cause => exact h.elim

/-- The calls of a course keep to the invariant. -/
structure Upheld (co : Course C β γ) (find : C → Effect W (Found F × C)) (poll : Poller W F β) : Prop where
  find : ∀ c w, v.ahead c w → (find c w).Ensures v.halted fun r => v.under r.1 r.2
  poll : ∀ x c w, v.under (.step x) c w → (poll x w).Ensures v.halted fun r => v.answered co c r
  nothing : ∀ c w, v.under .nothing c w → v.resolved (.ok (co.total c)) w
  failed : ∀ e c w, v.under (.failed e) c w → v.resolved (.error e) w
  halt : ∀ c w, v.ahead c w → v.halted w

end Invariant

variable {v : Invariant W C F γ} {co : Course C β γ} {find : C → Effect W (Found F × C)} {p : Poller W F β}
  (h : v.Upheld co find p)

include h

theorem pursue_upheld (fuel : Nat) (found : Found F) (c : C) (w : W) (hw : v.under found c w) :
    (co.pursue find p.hushed.stage fuel (found, c) w).Ensures v.halted v.staged := by
  induction fuel using Nat.strong_induction_on generalizing found c w with
  | h fuel ih =>
  cases found with
  | nothing => rw [pursue_nothing]; exact h.nothing c w hw
  | failed e => rw [pursue_failed]; exact h.failed e c w hw
  | step x =>
    rw [pursue_step, Poller.stage_eq, Poller.hushed, bind_assoc, bind_assoc]
    refine (h.poll x c w hw).bind fun r w hr => ?_
    obtain ⟨answer, x⟩ := r
    cases answer with
    | pending => exact hr
    | panicked cause => exact hr
    | ready o =>
      have hjudged : v.judged (co.judge c (.ok o)) w := hr
      change (co.onward find p.hushed.stage fuel c (.ok o) w).Ensures v.halted v.staged
      cases hj : co.judge c (.ok o) with
      | inl r =>
        rw [onward_of_inl find p.hushed.stage fuel hj]
        rw [hj] at hjudged
        cases r with
        | ok o => exact hjudged
        | error cause => exact hjudged
      | inr c' =>
        rw [hj] at hjudged
        cases fuel with
        | zero =>
          rw [onward_zero find p.hushed.stage hj]
          exact h.halt c' w hjudged
        | succ fuel =>
          rw [onward_succ find p.hushed.stage fuel hj]
          refine (h.find c' w hjudged).bind fun r w hr => ?_
          exact ih fuel (Nat.lt_succ_self fuel) r.1 r.2 w hr

/-- One poll of a course whose steps do not panic. -/
theorem stage_upheld (fuel : Nat) (s : State C F) (w : W) (hw : v.stands s w) :
    (co.stage find p.hushed.stage fuel s w).Ensures v.halted v.staged := by
  cases s with
  | ahead c =>
    refine (h.find c w hw).bind fun r w hr => ?_
    exact pursue_upheld h fuel r.1 r.2 w hr
  | under found c => exact pursue_upheld h fuel found c w hw
  | closed cause => exact hw.elim

end Course

namespace Job

/-- What holds after a poll. -/
def Polled (v : Course.Invariant W (Rest I α P G) F (Option Int32)) (j : Job I α P G F)
    (r : Poll (Option Int32) × Job I α P G F) (w : W) : Prop :=
  match r.1 with
  | .ready o => v.resolved o w ∧
      ((∃ cause, r.2.view = .closed cause) ∨ ∃ total, j.hollow? = some total ∧ r = (.ready (.ok total), j))
  | _ => ∃ x c, r.2.view = .under (.step x) c ∧ v.under (.step x) c w

theorem Rest.find_hushed (k : Kit W I α P G F β) (n : Nat) (rest : Rest I α P G) :
    rest.find k.hushed n = rest.find k n := by
  cases rest with
  | chain g elements => cases elements <;> rfl
  | _ => rfl

theorem poll_upheld {v : Course.Invariant W (Rest I α P G) F (Option Int32)} {k : Kit W I α P G F β} {n : Nat}
    (h : v.Upheld (course k.isTrue k.summand) (Rest.find k n) k.poll) (j : Job I α P G F) (w : W)
    (hw : v.stands j.view w) : (poll k n j w).Ensures v.halted fun r => Polled v j r := by
  obtain ⟨-, hhushed⟩ | ⟨cause, hview, -⟩ := hushed_or_closed k n j
  · have hfind : Rest.find k.hushed n = Rest.find k n := funext (Rest.find_hushed k n)
    have hview := stage_view k.hushed n (fits_extra j)
    rw [hfind, Poller.stage_eq, hhushed, Poller.hushed, bind_assoc, bind_assoc] at hview
    have hstage : ((course k.hushed.isTrue k.hushed.summand).stage (Rest.find k n) k.hushed.poll.stage
        (n + j.extra) j.view w).Ensures v.halted v.staged := Course.stage_upheld h (n + j.extra) j.view w hw
    rw [← hview] at hstage
    refine (hstage.of_bind_pure.and (poll_ready k n j w)).mono (fun _ hw => hw) fun r w hr => ?_
    obtain ⟨hstaged, hready⟩ := hr
    obtain ⟨answer, j'⟩ := r
    cases answer with
    | pending => exact Course.Invariant.staged_cases hstaged
    | panicked cause => exact Course.Invariant.staged_cases hstaged
    | ready o => exact ⟨hstaged, (hready rfl).imp_left fun hclosed => ⟨_, hclosed⟩⟩
  · rw [hview] at hw
    exact hw.elim

end Job

/-! ## Terms -/

/-- What holds between the calls wherever a job is. -/
def Terms.invariant (t : Terms W F) : Course.Invariant W C F γ where
  ahead _ := t.free
  under found _ := t.found found
  resolved o := t.resolved (.ok o)
  halted := t.halted

/-- After the poll of a step, which stays under way if it does not resolve. -/
def Terms.polled (t : Terms W F) (r : Poll β × F) : W → Prop :=
  match r.1 with
  | .ready o => t.resolved (.ok o)
  | _ => t.held r.2

theorem Kit.Meets.upheld {t : Terms W F} {k : Kit W I α P G F β} (hk : k.Meets t)
    (hpoll : ∀ x w, t.held x w → (k.poll x w).Ensures t.halted t.polled) (n : Nat) :
    t.invariant.Upheld (Job.course k.isTrue k.summand) (Job.Rest.find (I := I) (P := P) k n) k.poll where
  find c w h := Job.Rest.find_meets hk n c w h
  poll x c w h := by
    refine (hpoll x w h).mono (fun _ h => h) fun r w hr => ?_
    obtain ⟨answer, x⟩ := r
    cases answer with
    | pending => exact hr
    | panicked cause => exact hr
    | ready o =>
      cases o with
      | error e => exact hr
      | ok b =>
        -- the value decides whether there is a next step, but not what holds of the world
        have hfree : t.free w := hr
        change t.invariant.judged ((Job.course k.isTrue k.summand).judge c (.ok (.ok b))) w
        cases hj : (Job.course k.isTrue k.summand).judge c (.ok (.ok b)) with
        | inl r => rw [Course.total_of_judge hj]; exact hfree
        | inr c' => exact hfree
  nothing c w h := h
  failed e c w h := h
  halt c w h := hk.halt w h

end Stepwise
