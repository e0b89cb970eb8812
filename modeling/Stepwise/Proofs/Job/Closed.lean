import Stepwise.Proofs.Job.Terms

/-! # Jobs after a poll

The course of a job forgets its state when a poll resolves or panics. Here is what is known of it.

* `poll_of_hollow`: a job that found nothing to run over stays as it is, and every poll gives the same value.
* `poll_ready`: any other job that resolves is closed, and a closed job refuses every poll without any call
  (`poll_of_closed`). `closing` is the panic with which it refuses.
* `HushedOrClosed`: if the steps of a job that is not closed say that they wait where they panic, then so does the
  job, and nothing else changes. So a step that panics leaves its job as one that waits does.

Both statements are made of one lemma for each machine that drives a job: loops, sums, towers, applications.
-/

namespace Stepwise
set_option autoImplicit false

variable {W I α P G F C β S : Type}

/-! ## Steps that do not panic -/

/-- The answer with which a state says that it waits where it would panic. -/
def Poll.hush : Poll α → Poll α
  | .panicked _ => .pending
  | answer => answer

theorem Poll.hush_map (f : α → β) (a : Poll α) : (a.map f).hush = a.hush.map f := by
  cases a with
  | ready o => cases o <;> rfl
  | _ => rfl

def Poller.hushed (p : Poller W F α) : Poller W F α := fun x => do
  let r ← p x
  pure (r.1.hush, r.2)

theorem Poller.map_hushed (f : α → β) (p : Poller W F α) : p.hushed.map f = (p.map f).hushed := by
  funext x
  simp only [Poller.map, Poller.hushed, bind_assoc, pure_bind, Poll.hush_map]

theorem Found.poll_hushed (p : Poller W F β) : Found.poll p.hushed = (Found.poll p).hushed := by
  funext found
  cases found with
  | step x => simp only [Found.poll, Poller.hushed, bind_assoc, pure_bind, Poll.hush_map]
  | nothing => rfl
  | failed e => rfl

theorem Summation.adding_hushed (p : Poller W F Int32) :
    Summation.adding p.hushed = (Summation.adding p).hushed := by
  funext x ⟨w, sum⟩
  simp only [Summation.adding, Poller.hushed, Effect.stateful, Effect.bind_apply]
  cases p x w with
  | returned r w =>
    obtain ⟨answer, x⟩ := r
    cases answer with
    | ready o => cases o <;> rfl
    | _ => rfl
  | _ => rfl

/-! ## Loops -/

namespace While

/-- A step that panics stays under way, as one that waits does. -/
theorem direct_hushed (request : S → Effect W (F × S)) (p : Poller W F Bool) (n : Nat) (l : While S F) :
    direct ⟨request, p.hushed⟩ n l = Poller.hushed (direct ⟨request, p⟩ n) l := by
  induction n using Nat.strong_induction_on generalizing l with
  | h n ih =>
  rw [Poller.hushed, direct, direct, bind_assoc]
  refine bind_congr fun r => ?_
  obtain ⟨x, step⟩ := r
  simp only [Poller.hushed, bind_assoc, pure_bind]
  refine bind_congr fun r => ?_
  obtain ⟨answer, x⟩ := r
  cases answer with
  | pending => rfl
  | panicked cause => rfl
  | ready o =>
    cases o with
    | error e => rfl
    | ok more =>
      cases more with
      | false => rfl
      | true =>
        cases n with
        | zero => rfl
        | succ n => exact ih n (Nat.lt_succ_self n) { step, current := none }

theorem poll_hushed (request : S → Effect W (F × S)) (p : Poller W F Bool) (n : Nat) {l : While S F}
    (h : l.finished = false) :
    l.poll ⟨request, p.hushed⟩ n = Poller.hushed (poll ⟨request, p⟩ n) l := by
  obtain ⟨step, current, finished⟩ := l
  cases h
  rw [Poller.hushed, poll_eq_direct, poll_eq_direct]
  exact direct_hushed request p n { step, current }

/-- A loop that resolves has finished. -/
theorem direct_ready (b : Stepper W S F) (n : Nat) (l : While S F) (w : W) :
    (direct b n l w).Ensures (fun _ => True) fun r _ => r.1.isReady = true → r.2.finished = true := by
  induction n using Nat.strong_induction_on generalizing l w with
  | h n ih =>
  rw [direct]
  refine (Ending.Ensures.any _).bind fun r w _ => ?_
  refine (Ending.Ensures.any _).bind fun r w _ => ?_
  obtain ⟨answer, x⟩ := r
  cases answer with
  | pending => exact fun h => absurd h Bool.false_ne_true
  | panicked cause => exact fun h => absurd h Bool.false_ne_true
  | ready o =>
    cases o with
    | error e => exact fun _ => rfl
    | ok more =>
      cases more with
      | false => exact fun _ => rfl
      | true =>
        cases n with
        | zero => exact trivial
        | succ n => exact ih n (Nat.lt_succ_self n) _ w

theorem poll_ready (b : Stepper W S F) (n : Nat) (l : While S F) (w : W) :
    (l.poll b n w).Ensures (fun _ => True) fun r _ => r.1.isReady = true → r.2.finished = true := by
  obtain ⟨step, current, finished⟩ := l
  cases finished with
  | true => exact nofun
  | false =>
    rw [poll_eq_direct]
    exact direct_ready b n _ w

end While

namespace Loop

/-- The loop is not one that has resolved. -/
def Open : Loop C F → Prop
  | .empty => True
  | .running l => l.finished = false

theorem poll_hushed (find : C → Effect W (Found F × C)) (p : Poller W F β) (n : Nat) {l : Loop C F}
    (h : l.Open) : l.poll find p.hushed n = Poller.hushed (poll find p n) l := by
  cases l with
  | empty => rfl
  | running l =>
    rw [Poller.hushed, poll, poll, Found.poll_hushed, While.poll_hushed find _ n h, Poller.hushed, bind_assoc,
      bind_assoc]
    rfl

theorem poll_ready (find : C → Effect W (Found F × C)) (p : Poller W F β) (n : Nat) (l : Loop C F) (w : W) :
    (l.poll find p n w).Ensures (fun _ => True) fun r _ => r.1.isReady = true →
      (∃ l₀ l', l = .running l₀ ∧ r.2 = .running l' ∧ l'.finished = true) ∨
        l = .empty ∧ r = (.ready (.ok ()), .empty) := by
  cases l with
  | empty => exact fun _ => .inr ⟨rfl, rfl⟩
  | running l =>
    refine (l.poll_ready ⟨find, Found.poll p⟩ n w).bind fun r w hr => ?_
    exact fun hready => .inl ⟨l, r.2, rfl, rfl, hr hready⟩

end Loop

/-! ## Sums, towers and applications -/

namespace Summation

def Open : Summation (Loop C F) → Prop
  | .zero => True
  | .running _ l => l.Open
  | .finished => False

theorem poll_hushed (find : C → Effect W (Found F × C)) (p : Poller W F Int32) (n : Nat)
    {s : Summation (Loop C F)} (h : s.Open) : s.poll find p.hushed n = Poller.hushed (poll find p n) s := by
  cases s with
  | zero => rfl
  | finished => exact h.elim
  | running sum l =>
    rw [Poller.hushed, poll, poll, adding_hushed, Loop.poll_hushed _ _ n h, Poller.hushed, Effect.owning_bind,
      bind_assoc, bind_assoc]
    refine bind_congr fun r => ?_
    obtain ⟨⟨answer, l⟩, sum⟩ := r
    cases answer with
    | ready o => cases o <;> rfl
    | _ => rfl

theorem poll_ready (find : C → Effect W (Found F × C)) (p : Poller W F Int32) (n : Nat)
    (s : Summation (Loop C F)) (w : W) :
    (s.poll find p n w).Ensures (fun _ => True) fun r _ => r.1.isReady = true →
      r.2 = .finished ∨ s = .zero ∧ r = (.ready (.ok 0), .zero) := by
  cases s with
  | zero => exact fun _ => .inr ⟨rfl, rfl⟩
  | finished => exact nofun
  | running sum l =>
    refine (Ending.Ensures.any _).bind fun r w _ => ?_
    obtain ⟨⟨answer, l⟩, sum⟩ := r
    cases answer with
    | pending => exact nofun
    | panicked cause => exact nofun
    | ready o => cases o <;> exact fun _ => .inl rfl

end Summation

namespace Tower

/-- Nothing below has resolved and been taken. -/
def Open : Tower α F → Prop
  | .first below _ => below.Open
  | .spent => False
  | _ => True

theorem pollStep_hushed (p : Poller W F β) (x : F) :
    (pollStep p.hushed x : Effect W (Poll Unit × Tower α F)) =
      pollStep p x >>= fun r => pure (r.1.hush, r.2) := by
  simp only [pollStep, Poller.hushed, bind_assoc, pure_bind]
  refine bind_congr fun r => ?_
  obtain ⟨answer, x⟩ := r
  cases answer with
  | ready o => cases o <;> rfl
  | _ => rfl

variable {G : Type} {request : G → α → Effect W (F × G)}

theorem poll_hushed (p : Poller W F β) {t : Tower α F} (h : t.Open) (g : G) :
    t.poll request p.hushed g = t.poll request p g >>= fun r => pure (r.1.hush, r.2) := by
  induction t generalizing g with
  | ground => rfl
  | spent => exact h.elim
  | second x => simp only [poll, pollStep_hushed, bind_assoc, pure_bind]
  | first below x ih =>
    rw [poll, poll, ih h, bind_assoc, bind_assoc]
    refine bind_congr fun r => ?_
    obtain ⟨answer, below, g⟩ := r
    cases answer with
    | pending => rfl
    | panicked cause => rfl
    | ready o =>
      cases o with
      | error e => rfl
      | ok u => simp only [Poll.hush, pollStep_hushed, bind_assoc, pure_bind]

theorem pollStep_ready (p : Poller W F β) (x : F) (w : W) :
    (pollStep (α := α) p x w).Ensures (fun _ => True) fun r _ => r.1.isReady = true → r.2 = .spent := by
  refine (Ending.Ensures.any _).bind fun r w _ => ?_
  obtain ⟨answer, x⟩ := r
  cases answer with
  | pending => exact nofun
  | panicked cause => exact nofun
  | ready o => cases o <;> exact fun _ => rfl

theorem poll_ready (p : Poller W F β) (t : Tower α F) (g : G) (w : W) :
    (t.poll request p g w).Ensures (fun _ => True) fun r _ => r.1.isReady = true →
      r.2.1 = .spent ∨ t = .ground ∧ r = (.ready (.ok ()), .ground, g) := by
  cases t with
  | ground => exact fun _ => .inr ⟨rfl, rfl⟩
  | spent => exact nofun
  | second x => exact (pollStep_ready p x w).bind fun r w hr hready => .inl (hr hready)
  | first below x =>
    refine (Ending.Ensures.any _).bind fun r w _ => ?_
    obtain ⟨answer, below, g⟩ := r
    cases answer with
    | pending => exact nofun
    | panicked cause => exact nofun
    | ready o =>
      cases o with
      | error e => exact fun _ => .inl rfl
      | ok u =>
        refine (Ending.Ensures.any _).bind fun r w _ => ?_
        exact (pollStep_ready p r.1 w).bind fun r w hr hready => .inl (hr hready)

end Tower

namespace Application

def Open : Application F (Loop C F) → Prop
  | .spent => False
  | .several l => l.Open
  | _ => True

theorem poll_hushed (find : C → Effect W (Found F × C)) (p : Poller W F β) (n : Nat)
    {a : Application F (Loop C F)} (h : a.Open) :
    a.poll find p.hushed n = Poller.hushed (poll find p n) a := by
  cases a with
  | none => rfl
  | spent => exact h.elim
  | several l =>
    rw [Poller.hushed, poll, poll, Loop.poll_hushed find p n h, Poller.hushed, bind_assoc, bind_assoc]
    rfl
  | single x =>
    simp only [poll, Poller.hushed, bind_assoc, pure_bind]
    refine bind_congr fun r => ?_
    obtain ⟨answer, x⟩ := r
    cases answer with
    | ready o => cases o <;> rfl
    | _ => rfl

end Application

/-! ## All jobs -/

def Kit.hushed (k : Kit W I α P G F β) : Kit W I α P G F β := { k with poll := k.poll.hushed }

namespace Job

theorem poll_of_hollow (k : Kit W I α P G F β) (n : Nat) {j : Job I α P G F} {v : Option Int32}
    (h : j.hollow? = some v) : poll k n j = pure (.ready (.ok v), j) := by
  unfold hollow? at h
  split at h <;> cases h <;> rfl

theorem loop_open_or_closed (find : C → Effect W (Found F × C)) (p : Poller W F β) (n : Nat)
    (locate : C → Rest I α P G) (total : Option Int32) (l : Loop C F) :
    l.Open ∧ (∀ cause, viewLoop locate total l ≠ .closed cause) ∨
      viewLoop locate total l = .closed .loopFinished ∧
        l.poll find p n = pure (.panicked .loopFinished, l) := by
  cases l with
  | empty => exact .inl ⟨trivial, nofun⟩
  | running l =>
    obtain ⟨c, current, finished⟩ := l
    cases finished with
    | true => exact .inr ⟨rfl, rfl⟩
    | false => cases current <;> exact .inl ⟨rfl, nofun⟩

theorem sum_open_or_closed (find : C → Effect W (Found F × C)) (p : Poller W F Int32) (n : Nat)
    (locate : Int32 → C → Rest I α P G) (s : Summation (Loop C F)) :
    s.Open ∧ (∀ cause, viewSum locate s ≠ .closed cause) ∨
      ∃ cause, viewSum locate s = .closed cause ∧ s.poll find p n = pure (.panicked cause, s) := by
  cases s with
  | zero => exact .inl ⟨trivial, nofun⟩
  | finished => exact .inr ⟨_, rfl, rfl⟩
  | running sum l =>
    obtain h | ⟨hview, hpoll⟩ :=
      loop_open_or_closed (fun c => (find c).within Int32) (Summation.adding p) n (locate sum) (some sum) l
    · exact .inl h
    · refine .inr ⟨_, hview, ?_⟩
      rw [Summation.poll, hpoll]
      rfl

theorem tower_open_or_closed (request : G → α → Effect W (F × G)) (p : Poller W F β) (g : G) (t : Tower α F)
    (above : List α) :
    t.Open ∧ (∀ cause, (viewTower g t above : Course.State (Rest I α P G) F) ≠ .closed cause) ∨
      (viewTower g t above : Course.State (Rest I α P G) F) = .closed .chainFinished ∧
        t.poll request p g = pure (.panicked .chainFinished, t, g) := by
  induction t generalizing above with
  | ground => exact .inl ⟨trivial, nofun⟩
  | spent => exact .inr ⟨rfl, rfl⟩
  | second x => exact .inl ⟨trivial, nofun⟩
  | first below x ih =>
    obtain h | ⟨hview, hpoll⟩ := ih (x :: above)
    · exact .inl h
    · refine .inr ⟨hview, ?_⟩
      rw [Tower.poll, hpoll]
      rfl

/-- A computation that has not resolved says that it waits where its steps do so instead of panicking; one that is
closed refuses every poll without any call. -/
def HushedOrClosed {H γ : Type} (s : Course.State H F) (poll hushed : Poller W S γ) (x : S) : Prop :=
  (∀ cause, s ≠ .closed cause) ∧ hushed x = poll.hushed x ∨
    ∃ cause, s = .closed cause ∧ poll x = pure (.panicked cause, x)

section

variable {s : Course.State (Rest I α P G) F} {x : S} {wrap : S → Job I α P G F}
  {poll' hushed' : Poller W (Job I α P G F) (Option Int32)}

/-- It does not matter what becomes of the value. -/
theorem HushedOrClosed.unvalued {poll hushed : Poller W S Unit} (h : HushedOrClosed s poll hushed x)
    (hpoll : poll' (wrap x) = unvalued wrap (poll x)) (hhushed : hushed' (wrap x) = unvalued wrap (hushed x)) :
    HushedOrClosed s poll' hushed' (wrap x) := by
  refine h.imp ?_ ?_
  · rintro ⟨hopen, hx⟩
    refine ⟨hopen, ?_⟩
    rw [Poller.hushed, hpoll, hhushed, hx]
    simp only [Job.unvalued, Poller.hushed, bind_assoc, pure_bind, Poll.hush_map]
  · rintro ⟨cause, hclosed, hx⟩
    refine ⟨cause, hclosed, ?_⟩
    rw [hpoll, hx]
    rfl

theorem HushedOrClosed.valued {poll hushed : Poller W S Int32} (h : HushedOrClosed s poll hushed x)
    (hpoll : poll' (wrap x) = valued wrap (poll x)) (hhushed : hushed' (wrap x) = valued wrap (hushed x)) :
    HushedOrClosed s poll' hushed' (wrap x) := by
  refine h.imp ?_ ?_
  · rintro ⟨hopen, hx⟩
    refine ⟨hopen, ?_⟩
    rw [Poller.hushed, hpoll, hhushed, hx]
    simp only [Job.valued, Poller.hushed, bind_assoc, pure_bind, Poll.hush_map]
  · rintro ⟨cause, hclosed, hx⟩
    refine ⟨cause, hclosed, ?_⟩
    rw [hpoll, hx]
    rfl

end

theorem loop_hushed_or_closed (find : C → Effect W (Found F × C)) (p : Poller W F β) (n : Nat)
    (locate : C → Rest I α P G) (total : Option Int32) (l : Loop C F) :
    HushedOrClosed (viewLoop locate total l) (Loop.poll find p n) (Loop.poll find p.hushed n) l :=
  (loop_open_or_closed find p n locate total l).imp (fun h => ⟨h.2, Loop.poll_hushed find p n h.1⟩)
    fun h => ⟨_, h⟩

theorem sum_hushed_or_closed (find : C → Effect W (Found F × C)) (p : Poller W F Int32) (n : Nat)
    (locate : Int32 → C → Rest I α P G) (s : Summation (Loop C F)) :
    HushedOrClosed (viewSum locate s) (Summation.poll find p n) (Summation.poll find p.hushed n) s :=
  (sum_open_or_closed find p n locate s).imp_left fun h => ⟨h.2, Summation.poll_hushed find p n h.1⟩

theorem chain_hushed_or_closed (request : G → α → Effect W (F × G)) (p : Poller W F β) (c : Chain α G F) :
    HushedOrClosed (viewTower c.consumer c.tower [] : Course.State (Rest I α P G) F) (Chain.poll request p)
      (Chain.poll request p.hushed) c := by
  obtain ⟨g, t⟩ := c
  obtain ⟨hopen, hview⟩ | ⟨hview, hpoll⟩ := tower_open_or_closed (I := I) (P := P) request p g t []
  · refine .inl ⟨hview, ?_⟩
    simp only [Poller.hushed, Chain.poll, Tower.poll_hushed p hopen, bind_assoc, pure_bind]
  · refine .inr ⟨_, hview, ?_⟩
    rw [Chain.poll, hpoll]
    rfl

theorem apply_hushed_or_closed
    (find : Walk (Lookahead (List α) α) Unit G → Effect W (Found F × Walk (Lookahead (List α) α) Unit G))
    (p : Poller W F β) (n : Nat) (a : Application F (Loop (Walk (Lookahead (List α) α) Unit G) F)) :
    HushedOrClosed (Job.apply a : Job I α P G F).view (Application.poll find p n) (Application.poll find p.hushed n)
      a := by
  cases a with
  | none => exact .inl ⟨by rintro cause ⟨⟩, rfl⟩
  | spent => exact .inr ⟨_, rfl, rfl⟩
  | single x => exact .inl ⟨by rintro cause ⟨⟩, Application.poll_hushed (a := .single x) find p n trivial⟩
  | several l =>
    obtain ⟨hopen, hview⟩ | ⟨hview, hpoll⟩ :=
      loop_open_or_closed find p n (Rest.several (I := I) (P := P)) none l
    · exact .inl ⟨hview, Application.poll_hushed (a := .several l) find p n hopen⟩
    · refine .inr ⟨_, hview, ?_⟩
      rw [Application.poll, hpoll]
      rfl

theorem drive_hushed_or_closed (k : Kit W I α P G F β) (n : Nat) (l : While G F) :
    HushedOrClosed (viewDrive l : Course.State (Rest I α P G) F) (While.poll k.stepper n)
      (While.poll k.hushed.stepper n) l := by
  obtain ⟨g, current, finished⟩ := l
  cases finished with
  | true => exact .inr ⟨_, rfl, rfl⟩
  | false =>
    refine .inl ⟨by cases current <;> rintro cause ⟨⟩, ?_⟩
    have hpoll := While.poll_hushed (fun g => k.step g .turn) (k.poll.map k.isTrue) n
      (l := { step := g, current }) rfl
    rw [← Poller.map_hushed] at hpoll
    exact hpoll

/-- Each job is one of its machines, with a value made of what that gives. -/
theorem hushed_or_closed (k : Kit W I α P G F β) (n : Nat) (j : Job I α P G F) :
    HushedOrClosed j.view (poll k n) (poll k.hushed n) j := by
  have hsum : ∀ {H : Type} (find : H → Effect W (Found F × H)) (locate : Int32 → H → Rest I α P G)
      (s : Summation (Loop H F)), HushedOrClosed (viewSum locate s) (Summation.poll find (k.poll.map k.summand) n)
        (Summation.poll find (k.hushed.poll.map k.summand) n) s := fun find locate s => by
    rw [Kit.hushed, Poller.map_hushed]
    exact sum_hushed_or_closed find _ n locate s
  cases j with
  | iterate form l => exact (loop_hushed_or_closed _ k.poll n (.iterate form) none l).unvalued rfl rfl
  | list form l => exact (loop_hushed_or_closed _ k.poll n (.list form) none l).unvalued rfl rfl
  | range filtered l => exact (loop_hushed_or_closed _ k.poll n (.range filtered) none l).unvalued rfl rfl
  | sum s => exact (hsum _ .sum s).valued rfl rfl
  | sumList s => exact (hsum _ .sumList s).valued rfl rfl
  | sumRange s => exact (hsum _ .sumRange s).valued rfl rfl
  | chain c => exact (chain_hushed_or_closed _ k.poll c).unvalued rfl rfl
  | apply a => exact (apply_hushed_or_closed _ k.poll n a).unvalued rfl rfl
  | drive l => exact (drive_hushed_or_closed k n l).unvalued rfl rfl

/-- A closed job refuses every poll and calls nothing. -/
theorem poll_of_closed (k : Kit W I α P G F β) (n : Nat) {j : Job I α P G F} {cause : Panic}
    (h : j.view = .closed cause) : poll k n j = pure (.panicked cause, j) := by
  obtain ⟨hview, -⟩ | ⟨cause', hview, hpoll⟩ := hushed_or_closed k n j
  · exact absurd h (hview cause)
  · rw [h] at hview
    cases hview
    exact hpoll

/-! ## How a job is closed -/

/-- The panic with which a job answers once it has resolved from this place. -/
def Rest.closing : Rest I α P G → Panic
  | .chain _ _ | .last none => .chainFinished
  | .sum _ _ | .sumList _ _ | .sumRange _ _ | .last (some _) => .mapFinished
  | _ => .loopFinished

/-- The panic with which a job answers once it has resolved, or already now. -/
def closing : Course.State (Rest I α P G) F → Panic
  | .ahead c => c.closing
  | .under _ c => c.closing
  | .closed cause => cause

theorem closing_viewWhile {locate : C → Rest I α P G} (h : ∀ c, (locate c).closing = .loopFinished)
    (l : While C (Found F)) : closing (viewWhile locate l) = .loopFinished := by
  obtain ⟨c, current, finished⟩ := l
  cases finished with
  | true => rfl
  | false => cases current <;> exact h c

theorem closing_viewSum {locate : Int32 → C → Rest I α P G} (h : ∀ s c, (locate s c).closing = .mapFinished)
    {s : Summation (Loop C F)} (hopen : ∀ cause, viewSum locate s ≠ .closed cause) :
    closing (viewSum locate s) = .mapFinished := by
  cases s with
  | zero => rfl
  | finished => exact absurd rfl (hopen .mapFinished)
  | running sum l =>
    cases l with
    | empty => rfl
    | running l =>
      obtain ⟨c, current, finished⟩ := l
      cases finished with
      | true => exact absurd rfl (hopen .loopFinished)
      | false => cases current <;> exact h sum c

theorem closing_viewTower (g : G) (t : Tower α F) (above : List α) :
    closing (viewTower g t above : Course.State (Rest I α P G) F) = .chainFinished := by
  induction t generalizing above with
  | ground => rfl
  | first below x ih => exact ih (x :: above)
  | second x => rfl
  | spent => rfl

/-- A poll that resolves leaves the job closed, or the job found nothing to run over and stays as it is. -/
def Resolves (j : Job I α P G F) (r : Poll (Option Int32) × Job I α P G F) : Prop :=
  r.1.isReady = true → r.2.view = .closed (closing j.view) ∨ ∃ v, j.hollow? = some v ∧ r = (.ready (.ok v), j)

theorem loop_resolves (find : C → Effect W (Found F × C)) (p : Poller W F β) (n : Nat) (locate : C → Rest I α P G)
    (wrap : Loop C F → Job I α P G F) (hview : ∀ l, (wrap l).view = viewLoop locate none l)
    (hclosing : ∀ c, (locate c).closing = .loopFinished) (hempty : (wrap .empty).hollow? = some none)
    (l : Loop C F) (w : W) :
    (unvalued wrap (l.poll find p n) w).Ensures (fun _ => True) fun r _ => Resolves (wrap l) r := by
  refine (Loop.poll_ready find p n l w).bind fun r w hr hready => ?_
  rw [Poll.isReady_map] at hready
  obtain ⟨l₀, l', rfl, hl', hfinished⟩ | ⟨rfl, rfl⟩ := hr hready
  · left
    have hbefore : closing (wrap (.running l₀)).view = .loopFinished := by
      rw [hview]
      exact closing_viewWhile hclosing l₀
    rw [hbefore, hview, hl', viewLoop, viewWhile, hfinished]
    rfl
  · exact .inr ⟨none, hempty, rfl⟩

theorem sum_resolves (find : C → Effect W (Found F × C)) (p : Poller W F Int32) (n : Nat)
    (wrap : Summation (Loop C F) → Job I α P G F) (hfinished : (wrap .finished).view = .closed .mapFinished)
    (hzero : (wrap .zero).hollow? = some (some 0)) {s : Summation (Loop C F)}
    (hclosing : closing (wrap s).view = .mapFinished) (w : W) :
    (valued wrap (s.poll find p n) w).Ensures (fun _ => True) fun r _ => Resolves (wrap s) r := by
  refine (Summation.poll_ready find p n s w).bind fun r w hr hready => ?_
  rw [Poll.isReady_map] at hready
  obtain hspent | ⟨rfl, rfl⟩ := hr hready
  · rw [hclosing]
    exact .inl ((congrArg (fun s => (wrap s).view) hspent).trans hfinished)
  · exact .inr ⟨some 0, hzero, rfl⟩

theorem chain_resolves (request : G → α → Effect W (F × G)) (p : Poller W F β) (c : Chain α G F) (w : W) :
    (unvalued (.chain : Chain α G F → Job I α P G F) (c.poll request p) w).Ensures (fun _ => True)
      fun r _ => Resolves (.chain c) r := by
  obtain ⟨g, t⟩ := c
  rw [unvalued, Chain.poll, bind_assoc]
  refine (Tower.poll_ready p t g w).bind fun r w hr hready => ?_
  rw [Poll.isReady_map] at hready
  obtain hspent | ⟨rfl, rfl⟩ := hr hready
  · left
    change viewTower r.2.2 r.2.1 [] = .closed (closing (viewTower g t []))
    rw [hspent, closing_viewTower]
    rfl
  · exact .inr ⟨none, rfl, rfl⟩

theorem single_resolves
    (find : Walk (Lookahead (List α) α) Unit G → Effect W (Found F × Walk (Lookahead (List α) α) Unit G))
    (p : Poller W F β) (n : Nat) (x : F) (w : W) :
    (unvalued (.apply : _ → Job I α P G F) (Application.poll find p n (.single x)) w).Ensures (fun _ => True)
      fun r _ => Resolves (.apply (.single x)) r := by
  rw [unvalued, Application.poll, bind_assoc]
  refine (Ending.Ensures.any _).bind fun r w _ => ?_
  obtain ⟨answer, x⟩ := r
  cases answer with
  | pending => exact fun h => absurd h Bool.false_ne_true
  | panicked cause => exact fun h => absurd h Bool.false_ne_true
  | ready o => cases o <;> exact fun _ => .inl rfl

theorem drive_resolves (b : Stepper W G F) (n : Nat) (l : While G F) (w : W) :
    (unvalued (.drive : _ → Job I α P G F) (l.poll b n) w).Ensures (fun _ => True)
      fun r _ => Resolves (.drive l) r := by
  refine (While.poll_ready b n l w).bind fun r w hr hready => ?_
  rw [Poll.isReady_map] at hready
  left
  have hbefore : closing (viewDrive l : Course.State (Rest I α P G) F) = .loopFinished := by
    obtain ⟨g, current, finished⟩ := l
    cases finished <;> cases current <;> rfl
  change viewDrive r.2 = .closed (closing (viewDrive l))
  rw [hbefore, viewDrive, hr hready]
  rfl

/-- A job that resolves is closed, or it found nothing to run over and stays as it is. -/
theorem poll_ready (k : Kit W I α P G F β) (n : Nat) (j : Job I α P G F) (w : W) :
    (poll k n j w).Ensures (fun _ => True) fun r _ => r.1.isReady = true →
      r.2.view = .closed (closing j.view) ∨ ∃ v, j.hollow? = some v ∧ r = (.ready (.ok v), j) := by
  obtain ⟨hopen, -⟩ | ⟨cause, -, hclosed⟩ := hushed_or_closed k n j
  case inr =>
    rw [hclosed]
    exact fun h => absurd h Bool.false_ne_true
  cases j with
  | iterate form l => exact loop_resolves _ _ n (.iterate form) _ (fun _ => rfl) (fun _ => rfl) rfl l w
  | list form l => exact loop_resolves _ _ n (.list form) _ (fun _ => rfl) (fun _ => rfl) rfl l w
  | range filtered l => exact loop_resolves _ _ n (.range filtered) _ (fun _ => rfl) (fun _ => rfl) rfl l w
  | sum s => exact sum_resolves _ _ n .sum rfl rfl (closing_viewSum (fun _ _ => rfl) hopen) w
  | sumList s => exact sum_resolves _ _ n .sumList rfl rfl (closing_viewSum (fun _ _ => rfl) hopen) w
  | sumRange s => exact sum_resolves _ _ n .sumRange rfl rfl (closing_viewSum (fun _ _ => rfl) hopen) w
  | chain c => exact chain_resolves _ k.poll c w
  | apply a =>
    cases a with
    | none => exact fun _ => .inr ⟨none, rfl, rfl⟩
    | spent => exact fun h => absurd h Bool.false_ne_true
    | single x => exact single_resolves _ k.poll n x w
    | several l =>
      have hseveral := loop_resolves (Walk.next (k.plainScan (Lookahead.next Next.ofList)) n) k.poll n .several
        (fun l => (.apply (.several l) : Job I α P G F)) (fun _ => rfl) (fun _ => rfl) rfl l w
      rw [unvalued] at hseveral
      rw [poll, Application.poll, unvalued, bind_assoc]
      exact hseveral
  | drive l => exact drive_resolves k.stepper n l w

end Job

end Stepwise
