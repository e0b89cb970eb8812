import Stepwise.Proofs.Job.Range
import Stepwise.Proofs.Job.Sum

/-! # Loops over lists without fuel

A loop over a list needs no more fuel than there are elements. A `Sweep` is such a loop without any: the elements
that are left, what the steps have come to so far, and the step under way.

* `Tally` says how the values of the steps are added up: not at all for a loop, in 32 bits for a sum.
* `Sweep.run` goes on from one element to the next until a step waits. It is a recursion on the list.
* `Job.Sweeps`: what a turn of a job does that runs over a list. `pursue_sweep` carries it through a poll, by
  induction on the elements that are left.
* `answers_list` and `answers_sumList`: with enough fuel nobody can tell a loop or a sum over a list from its
  sweep.
-/

namespace Stepwise
set_option autoImplicit false

variable {W I α P F A β γ δ : Type}

/-! ## Tallies -/

/-- How the values of steps are added up, and what is made of the sum in the end. -/
structure Tally (β A γ : Type) where
  zero : A
  add : A → A → A
  gain : β → A
  close : A → γ
  add_zero : ∀ a, add a zero = a
  add_assoc : ∀ a b c, add (add a b) c = add a (add b c)

namespace Tally

/-- A loop makes nothing of the values. -/
def none : Tally β Unit (Option Int32) where
  zero := ()
  add _ _ := ()
  gain _ := ()
  close _ := .none
  add_zero _ := rfl
  add_assoc _ _ _ := rfl

def sum (summand : β → Int32) : Tally β Int32 (Option Int32) where
  zero := 0
  add := (· + ·)
  gain := summand
  close := some
  add_zero := Int32.add_zero
  add_assoc := Int32.add_assoc

/-- The same sums of other values. -/
def gaining (T : Tally β A γ) (gain : δ → A) : Tally δ A γ := { T with gain }

end Tally

/-! ## Sweeps -/

/-- A loop over a list: the elements that are left, and what its steps have come to. -/
inductive Sweep (α F A : Type)
  | ahead (rest : List α) (sum : A)
  | under (step : F) (rest : List α) (sum : A)

namespace Sweep

section

variable (T : Tally β A γ) (request : α → Effect W F) (step : Stage W F β)

/-- What follows from the poll of a step. -/
def after (next : A → Effect W (Resolution γ ⊕ Sweep α F A)) (rest : List α) (sum : A) :
    Resolution β ⊕ F → Effect W (Resolution γ ⊕ Sweep α F A)
  | .inr x => pure (.inr (.under x rest sum))
  | .inl (.ok (.ok b)) => next (T.add sum (T.gain b))
  | .inl (.ok (.error e)) => pure (.inl (.ok (.error e)))
  | .inl (.error cause) => pure (.inl (.error cause))

/-- Request the steps for the elements one after the other, until one of them waits. -/
def run : List α → A → Effect W (Resolution γ ⊕ Sweep α F A)
  | [], sum => pure (.inl (.ok (.ok (T.close sum))))
  | x :: rest, sum => do
    let y ← request x
    let r ← step y
    after T (run rest) rest sum r

def stage : Stage W (Sweep α F A) γ
  | .ahead rest sum => run T request step rest sum
  | .under x rest sum => step x >>= after T (run T request step rest) rest sum

def poll : Poller W (Sweep α F A) γ := fun z => do
  match ← stage T request step z with
  | .inl r => pure (r.answer, z)
  | .inr z => pure (.pending, z)

end

theorem stage_poll (T : Tally β A γ) (request : α → Effect W F) (step : Stage W F β) (z : Sweep α F A) :
    (poll T request step).stage z = stage T request step z := by
  rw [Poller.stage, poll, bind_assoc]
  conv_rhs => rw [← bind_pure (stage T request step z)]
  refine bind_congr fun s => ?_
  cases s with
  | inl answer => cases answer <;> rfl
  | inr z => rfl

end Sweep

section Walks

variable {J Q G : Type} {b : Scan W J α Q G F} {c : Walk J Q G} {source : J}

/-- A walk whose source gives its end without a call. -/
theorem Walk.next_of_end (hnext : b.next c.source = pure (none, source)) (n : Nat) :
    Walk.next b (n + 1) c = pure (.nothing, { c with source }) := by
  rw [Walk.next, hnext, pure_bind]

/-- A walk whose source gives the next element without a call, and that accepts it. -/
theorem Walk.next_of_element {x : α} (hnext : b.next c.source = pure (some x, source))
    (haccept : ∀ q x i, b.test q x i = pure (.ok true, q)) (n : Nat) :
    Walk.next b (n + 1) c = b.step c.consumer x c.index >>= fun r =>
      pure (.step r.1, { c with source, consumer := r.2, index := c.index + 1 }) := by
  rw [Walk.next, hnext, pure_bind]
  simp only [haccept, pure_bind]

end Walks

namespace Job

/-! ## Jobs over lists -/

/-- The step for an element, which has no private state. -/
def requesting (k : Kit W I α P Unit F β) (x : α) : Effect W F := do
  let r ← k.step () (.element x)
  pure r.1

/-- `At xs sum rest`: a job has these elements left, and its steps have come to this. It asks for one element after
the other and adds up the values. -/
structure Sweeps (k : Kit W I α P Unit F β) (n : Nat) (T : Tally β A (Option Int32))
    (At : List α → A → Rest I α P Unit → Prop) : Prop where
  nothing : ∀ {sum rest}, At [] sum rest → ∃ last, rest.find k n = pure (.nothing, last) ∧
    (course k.isTrue k.summand).total last = T.close sum
  element : ∀ {x xs sum rest}, At (x :: xs) sum rest → ∃ later,
    rest.find k n = (requesting k x >>= fun y => pure (.step y, later)) ∧ At xs sum later
  absorb : ∀ {xs sum rest}, At xs sum rest → ∀ b, ∃ later,
    (course k.isTrue k.summand).absorb rest b = some later ∧ At xs (T.add sum (T.gain b)) later

/-- The same place in a job and in a sweep, if the fuel `n` is enough for the elements that are left. -/
inductive Swept (n : Nat) (T : Tally β A (Option Int32)) (At : List α → A → Rest I α P Unit → Prop) :
    Course.State (Rest I α P Unit) F → Sweep α F A → Prop
  | last (sum : A) : Swept n T At (.ahead (.last (T.close sum))) (.ahead [] sum)
  | ahead {xs : List α} {sum : A} {rest : Rest I α P Unit} (h : At xs sum rest) (hn : xs.length < n) :
      Swept n T At (.ahead rest) (.ahead xs sum)
  | under {x : F} {xs : List α} {sum : A} {rest : Rest I α P Unit} (h : At xs sum rest) (hn : xs.length < n) :
      Swept n T At (.under (.step x) rest) (.under x xs sum)

section Sweeps

variable {k : Kit W I α P Unit F β} {n : Nat} {T : Tally β A (Option Int32)}
  {At : List α → A → Rest I α P Unit → Prop}

/-- After a step that has resolved to a value, the job and the sweep go on alike if they do so from there. -/
theorem turn_sweep (h : Sweeps k n T At) {xs : List α} {fuel : Nat} (hxs : xs.length < n) {sum : A}
    {rest : Rest I α P Unit} (hat : At xs sum rest)
    (hgo : ∀ {sum later}, At xs sum later → Effect.Paired Equal (Poller.Agreed (Swept n T At))
      (Rest.find k n later >>= (course k.isTrue k.summand).pursue (Rest.find k n) k.poll.stage fuel)
      (Sweep.run T (requesting k) k.poll.stage xs sum)) (x : F) :
    Effect.Paired Equal (Poller.Agreed (Swept n T At))
      ((course k.isTrue k.summand).pursue (Rest.find k n) k.poll.stage (fuel + 1) (.step x, rest))
      (k.poll.stage x >>= Sweep.after T (Sweep.run T (requesting k) k.poll.stage xs) xs sum) := by
  rw [Course.pursue_step]
  refine (Effect.Paired.refl (k.poll.stage x)).bind fun s s' w v hs => ?_
  obtain ⟨rfl, hw⟩ := hs
  match s with
  | .inr y => exact ⟨.inr (.under hat hxs), hw⟩
  | .inl (.error cause) => exact ⟨.inl rfl, hw⟩
  | .inl (.ok (.error e)) => exact ⟨.inl rfl, hw⟩
  | .inl (.ok (.ok b)) =>
    obtain ⟨later, habsorb, hlater⟩ := h.absorb hat b
    have hjudge : (course k.isTrue k.summand).judge rest (.ok (.ok b)) = .inr later := by
      simp only [Course.judge, habsorb]
    have honward := Course.onward_succ (Rest.find k n) k.poll.stage fuel hjudge
    change ((course k.isTrue k.summand).onward (Rest.find k n) k.poll.stage (fuel + 1) rest (.ok (.ok b)) w).Paired
      _ _ _
    rw [honward]
    exact hgo hlater w v hw

/-- From one element to the next. -/
theorem go_sweep (h : Sweeps k n T At) {xs : List α} {fuel : Nat} (hfuel : xs.length ≤ fuel) (hn : xs.length < n)
    {sum : A} {rest : Rest I α P Unit} (hat : At xs sum rest) :
    Effect.Paired Equal (Poller.Agreed (Swept n T At))
      (Rest.find k n rest >>= (course k.isTrue k.summand).pursue (Rest.find k n) k.poll.stage fuel)
      (Sweep.run T (requesting k) k.poll.stage xs sum) := by
  induction xs generalizing fuel sum rest with
  | nil =>
    obtain ⟨last, hfind, htotal⟩ := h.nothing hat
    rw [hfind, pure_bind, Course.pursue_nothing, htotal]
    exact Effect.Paired.pure fun w v hw => ⟨.inl rfl, hw⟩
  | cons x xs ih =>
    rw [List.length_cons] at hfuel hn
    obtain ⟨fuel, rfl⟩ : ∃ m, fuel = m + 1 := ⟨fuel - 1, by omega⟩
    have hless : xs.length < n := by omega
    obtain ⟨later, hfind, hlater⟩ := h.element hat
    rw [hfind, bind_assoc, Sweep.run]
    refine (Effect.Paired.refl (requesting k x)).bind fun y y' w v hy => ?_
    obtain ⟨rfl, hw⟩ := hy
    exact turn_sweep h hless hlater (fun hat => ih (by omega) hless hat) y w v hw

/-- One poll of the job and of the sweep. -/
theorem stage_sweep (h : Sweeps k n T At) {s : Course.State (Rest I α P Unit) F} {z : Sweep α F A}
    (hs : Swept n T At s z) :
    Effect.Paired Equal (Poller.Agreed (Swept n T At))
      ((course k.isTrue k.summand).stage (Rest.find k n) k.poll.stage n s)
      (Sweep.stage T (requesting k) k.poll.stage z) := by
  cases hs with
  | last sum =>
    rw [Course.stage, Rest.find, pure_bind, Course.pursue_nothing]
    intro w v hw
    exact ⟨.inl rfl, hw⟩
  | ahead hat hn => exact go_sweep h hn.le hn hat
  | under hat hn =>
    obtain ⟨fuel, rfl⟩ : ∃ m, n = m + 1 := ⟨n - 1, by omega⟩
    exact turn_sweep h hn hat (fun hat => go_sweep h (by omega) hn hat) _

/-- A job over a list with enough fuel and its sweep. -/
theorem alike_sweep (h : Sweeps k n T At) {j : Job I α P Unit F} (hfit : j.Fits 0) {z : Sweep α F A}
    (hs : Swept n T At j.view z) :
    Poller.Alike (poll k n) (Sweep.poll T (requesting k) k.poll.stage) j z := by
  refine ⟨fun j z => j.Fits 0 ∧ Swept n T At j.view z, ?_, hfit, hs⟩
  rintro j z ⟨hfit, hs⟩ w v hw
  have hstage := stage_sweep h hs w v hw
  have hview : (Poller.stage (poll k n) j >>= fun s => pure (s.map id view)) =
      (course k.isTrue k.summand).stage (Rest.find k n) k.poll.stage n j.view := stage_view k n hfit
  rw [← hview, ← bind_pure (Sweep.stage T (requesting k) k.poll.stage z)] at hstage
  rw [Sweep.stage_poll]
  refine (hstage.of_bind_pure.and_ensures (fits_stage k n hfit w) (Ending.Ensures.any _)).imp ?_
  rintro s s' w v ⟨hleft, -, hs, hw⟩
  refine ⟨?_, hw⟩
  cases s with
  | inl r => cases hs with | inl hr => exact .inl hr
  | inr j => cases hs with | inr hs => exact .inr ⟨hleft j rfl, hs⟩

end Sweeps

/-! ## Loops and sums over lists -/

theorem next_twice_gives {a : Lookahead (Lookahead (List α) α) α} {b : Lookahead (List α) α} {xs : List α}
    (ha : a = b.twice) (h : b.Gives xs) :
    (Lookahead.next (Lookahead.next Next.ofList) a : Effect W _) =
      pure (xs.head?, Lookahead.twice { source := xs.tail }) := by
  rw [ha, Lookahead.next_twice, Lookahead.next_gives h, pure_bind]

/-- A loop over a list has these elements left. -/
def AtList (xs : List α) (_ : Unit) (rest : Rest I α P Unit) : Prop :=
  ∃ c, rest = .list .each c ∧ c.source.Gives xs

/-- A sum over a list has these elements left, and has come to `sum`. -/
def AtSum (xs : List α) (sum : Int32) (rest : Rest I α P Unit) : Prop :=
  ∃ c a, rest = .sumList sum c ∧ c.source = Lookahead.twice a ∧ a.Gives xs

theorem sweeps_list (k : Kit W I α P Unit F β) (n : Nat) : Sweeps k (n + 1) .none AtList where
  nothing := by
    rintro sum _ ⟨c, rfl, hgives⟩
    refine ⟨.list .each { c with source := { source := [] } }, ?_, rfl⟩
    rw [Rest.find, located, Walk.next_of_end (Lookahead.next_gives hgives), pure_bind]
    rfl
  element := by
    rintro x xs sum _ ⟨c, rfl, hgives⟩
    refine ⟨.list .each { c with source := { source := xs }, index := c.index + 1 }, ?_, _, rfl, .inl rfl⟩
    rw [Rest.find, located, Walk.next_of_element (Lookahead.next_gives hgives) fun _ _ _ => rfl, requesting,
      bind_assoc, bind_assoc]
    rfl
  absorb := by
    rintro xs sum _ ⟨c, rfl, hgives⟩ b
    exact ⟨_, rfl, c, rfl, hgives⟩

theorem sweeps_sumList (k : Kit W I α P Unit F β) (n : Nat) : Sweeps k (n + 1) (.sum k.summand) AtSum where
  nothing := by
    rintro sum _ ⟨c, a, rfl, hc, hgives⟩
    refine ⟨.sumList sum { c with source := Lookahead.twice { source := [] } }, ?_, rfl⟩
    rw [Rest.find, located, Walk.next_of_end (next_twice_gives hc hgives), pure_bind]
    rfl
  element := by
    rintro x xs sum _ ⟨c, a, rfl, hc, hgives⟩
    refine ⟨.sumList sum { c with source := Lookahead.twice { source := xs }, index := c.index + 1 }, ?_, _, _, rfl,
      rfl, .inl rfl⟩
    rw [Rest.find, located, Walk.next_of_element (next_twice_gives hc hgives) fun _ _ _ => rfl, requesting,
      bind_assoc, bind_assoc]
    rfl
  absorb := by
    rintro xs sum _ ⟨c, a, rfl, hc, hgives⟩ b
    exact ⟨_, rfl, c, a, rfl, hc, hgives⟩

/-- A loop over a list is made without any call. -/
theorem start_list (k : Kit W I α P Unit F β) (n : Nat) (xs : List α) (filter : P) :
    start k.next k.step n (.list .each xs) filter () =
      pure (.list .each (.looked xs.head? xs.tail filter ())) := by
  rw [start, Loop.ofSource_eq]
  cases xs <;> rfl

theorem start_sumList (k : Kit W I α P Unit F β) (n : Nat) (xs : List α) (filter : P) :
    start k.next k.step n (.sumList xs) filter () = pure (.sumList (.looked xs.head? xs.tail ())) := by
  rw [start, Summation.ofSource_eq]
  cases xs <;> rfl

theorem list_alike (k : Kit W I α P Unit F β) {n : Nat} {xs : List α} (hn : xs.length < n) (filter : P) :
    Poller.Alike (poll k n) (Sweep.poll .none (requesting k) k.poll.stage)
      (.list .each (.looked xs.head? xs.tail filter ())) (.ahead xs ()) := by
  obtain ⟨n, rfl⟩ : ∃ m, n = m + 1 := ⟨n - 1, by omega⟩
  refine alike_sweep (sweeps_list k n) (show Job.Fits 0 (.list .each _) from rfl) ?_
  cases xs with
  | nil => exact .last ()
  | cons x xs => exact .ahead ⟨_, rfl, .inr ⟨x, xs, rfl, rfl⟩⟩ hn

theorem sumList_alike (k : Kit W I α P Unit F β) {n : Nat} {xs : List α} (hn : xs.length < n) :
    Poller.Alike (poll k n) (Sweep.poll (.sum k.summand) (requesting k) k.poll.stage)
      (.sumList (.looked xs.head? xs.tail ())) (.ahead xs 0) := by
  obtain ⟨n, rfl⟩ : ∃ m, n = m + 1 := ⟨n - 1, by omega⟩
  refine alike_sweep (sweeps_sumList k n) (show Job.Fits 0 (.sumList _) from rfl) ?_
  cases xs with
  | nil => exact .last 0
  | cons x xs => exact .ahead ⟨_, _, rfl, rfl, .inr ⟨x, xs, rfl, rfl⟩⟩ hn

/-- A loop over a list answers what its sweep answers. -/
theorem answers_list (k : Kit W I α P Unit F β) {n : Nat} {xs : List α} (hn : xs.length < n) (filter : P)
    (gaps : List (Effect W Unit)) : answers k n (.list .each xs) filter () gaps =
      (Sweep.poll .none (requesting k) k.poll.stage).asked gaps (.ahead xs ()) := by
  rw [answers, start_list, pure_bind]
  exact (list_alike k hn filter).asked_eq gaps

theorem answers_sumList (k : Kit W I α P Unit F β) {n : Nat} {xs : List α} (hn : xs.length < n) (filter : P)
    (gaps : List (Effect W Unit)) : answers k n (.sumList xs) filter () gaps =
      (Sweep.poll (.sum k.summand) (requesting k) k.poll.stage).asked gaps (.ahead xs 0) := by
  rw [answers, start_sumList, pure_bind]
  exact (sumList_alike k hn).asked_eq gaps

end Job

end Stepwise
