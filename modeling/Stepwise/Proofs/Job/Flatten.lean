import Stepwise.Proofs.Job.Sweep

/-! # Nested loops flatten

A loop over lists whose step loops over the elements of its list is the loop over all elements. To finish an inner
loop and to make the next one costs no poll, and sums of sums wrap around as one sum does.

* `Sweep.stage_beyond`: to sweep some elements and then some more is to sweep both, with what came before added
  on the left. It is an induction on the elements, and the sum is associated anew at each of them.
* `Nested`: a sweep over lists and the sweep over their concatenation. The inner loop under way may be anything
  that nobody can tell from its sweep.
* `nested_eq_flat`: so the nested loops and the flat one make the same calls and give the same answers.
-/

namespace Stepwise
set_option autoImplicit false

variable {W I J α P F A β γ : Type}

namespace Sweep

/-! ## One sweep after another -/

section

variable (T : Tally β A γ) (gain : γ → A) (request : α → Effect W F) (step : Stage W F β)

/-- The same place after steps that have come to `sum`, with more elements to come. -/
def beyond (sum : A) (later : List α) : Sweep α F A → Sweep α F A
  | .ahead rest own => .ahead (rest ++ later) (T.add sum own)
  | .under x rest own => .under x (rest ++ later) (T.add sum own)

/-- Go on with more elements when a sweep has ended. -/
def join (sum : A) (later : List α) :
    Resolution γ ⊕ Sweep α F A → Effect W (Resolution γ ⊕ Sweep α F A)
  | .inr z => pure (.inr (z.beyond T sum later))
  | .inl (.ok (.ok value)) => run T request step later (T.add sum (gain value))
  | .inl (.ok (.error e)) => pure (.inl (.ok (.error e)))
  | .inl (.error cause) => pure (.inl (.error cause))

variable {T gain} (hclose : ∀ a, gain (T.close a) = a)

theorem after_append {rest later : List α} {sum : A}
    (hnext : ∀ own, run T request step (rest ++ later) (T.add sum own) =
      run T request step rest own >>= join T gain request step sum later) (own : A) (s : Resolution β ⊕ F) :
    after T (run T request step (rest ++ later)) (rest ++ later) (T.add sum own) s =
      after T (run T request step rest) rest own s >>= join T gain request step sum later := by
  match s with
  | .inr y => rfl
  | .inl (.error cause) => rfl
  | .inl (.ok (.error e)) => rfl
  | .inl (.ok (.ok b)) =>
    have hassoc := T.add_assoc sum own (T.gain b)
    rw [after, after, hassoc]
    exact hnext (T.add own (T.gain b))

include hclose

theorem run_append (rest later : List α) (sum own : A) :
    run T request step (rest ++ later) (T.add sum own) =
      run T request step rest own >>= join T gain request step sum later := by
  induction rest generalizing own with
  | nil => rw [List.nil_append, run, pure_bind, join, hclose]
  | cons x rest ih =>
    rw [List.cons_append, run, run, bind_assoc]
    refine bind_congr fun y => ?_
    rw [bind_assoc]
    exact bind_congr fun s => after_append request step ih own s

/-- A poll goes on with the later elements as soon as it comes to the end of the earlier ones. -/
theorem stage_beyond (sum : A) (later : List α) (z : Sweep α F A) :
    stage T request step (z.beyond T sum later) =
      stage T request step z >>= join T gain request step sum later := by
  cases z with
  | ahead rest own => exact run_append request step hclose rest later sum own
  | under x rest own =>
    rw [beyond, stage, stage, bind_assoc]
    have hnext := run_append request step hclose rest later sum
    exact bind_congr fun s => after_append request step hnext own s

end

/-! ## Sweeps of loops -/

section

variable (T : Tally β A γ) (gain : γ → A) (request : α → Effect W F) (step : Stage W F β)
  (make : List α → Effect W J) (p : Poller W J γ)

/-- An inner loop is made without a call, and nobody can tell it from its sweep. -/
def Inner (xs : List α) : Prop :=
  ∃ j, make xs = pure j ∧ p.Alike (poll T request step) j (.ahead xs T.zero)

/-- The same place in a sweep over lists and in the sweep over all their elements. -/
inductive Nested : Sweep (List α) J A → Sweep α F A → Prop
  | ahead {xss : List (List α)} (h : ∀ xs ∈ xss, Inner T request step make p xs) (sum : A) :
      Nested (.ahead xss sum) (.ahead xss.flatten sum)
  | under {j : J} {z : Sweep α F A} (hj : p.Alike (poll T request step) j z) {xss : List (List α)}
      (h : ∀ xs ∈ xss, Inner T request step make p xs) (sum : A) :
      Nested (.under j xss sum) (z.beyond T sum xss.flatten)

variable {T gain request step make p} (hclose : ∀ a, gain (T.close a) = a)

/-- The inner loop under way is polled, and the lists after it follow. -/
theorem under_nested {xss : List (List α)} (h : ∀ xs ∈ xss, Inner T request step make p xs)
    (hrun : ∀ sum, Effect.Paired Equal (Poller.Agreed (Nested T request step make p))
      (run (T.gaining gain) make p.stage xss sum) (run T request step xss.flatten sum))
    {j : J} {z : Sweep α F A} (hj : p.Alike (poll T request step) j z) (sum : A) :
    Effect.Paired Equal (Poller.Agreed (Nested T request step make p))
      (p.stage j >>= after (T.gaining gain) (run (T.gaining gain) make p.stage xss) xss sum)
      (stage T request step z >>= join T gain request step sum xss.flatten) := by
  rw [← stage_poll T request step z]
  refine hj.poll.bind fun s s' w v hs => ?_
  obtain ⟨hs, hw⟩ := hs
  cases hs with
  | inr hj => exact ⟨.inr (.under hj h sum), hw⟩
  | @inl r _ hr =>
    subst hr
    match r with
    | .error cause => exact ⟨.inl rfl, hw⟩
    | .ok (.error e) => exact ⟨.inl rfl, hw⟩
    | .ok (.ok value) => exact hrun (T.add sum (gain value)) w v hw

include hclose

theorem run_nested {xss : List (List α)} (h : ∀ xs ∈ xss, Inner T request step make p xs) (sum : A) :
    Effect.Paired Equal (Poller.Agreed (Nested T request step make p))
      (run (T.gaining gain) make p.stage xss sum) (run T request step xss.flatten sum) := by
  induction xss generalizing sum with
  | nil => exact Effect.Paired.pure fun w v hw => ⟨.inl rfl, hw⟩
  | cons xs xss ih =>
    have hlater : ∀ xs ∈ xss, Inner T request step make p xs := fun ys hys => h ys (List.mem_cons_of_mem xs hys)
    obtain ⟨j, hmake, hj⟩ := h xs List.mem_cons_self
    have hflat : run T request step (xs ++ xss.flatten) sum =
        stage T request step (.ahead xs T.zero) >>= join T gain request step sum xss.flatten := by
      conv_lhs => rw [← T.add_zero sum]
      exact run_append request step hclose xs xss.flatten sum T.zero
    rw [run, hmake, pure_bind, List.flatten_cons, hflat]
    exact under_nested hlater (ih hlater) hj sum

variable (gain) in
/-- Nobody can tell a sweep over lists from the sweep over all their elements. -/
theorem nested_alike {xss : List (List α)} (h : ∀ xs ∈ xss, Inner T request step make p xs) (sum : A) :
    Poller.Alike (poll (T.gaining gain) make p.stage) (poll T request step) (.ahead xss sum)
      (.ahead xss.flatten sum) := by
  refine ⟨Nested T request step make p, ?_, .ahead h sum⟩
  intro x y hxy
  rw [stage_poll, stage_poll]
  cases hxy with
  | ahead h sum => exact run_nested hclose h sum
  | under hj h sum =>
    rw [stage_beyond request step hclose]
    exact under_nested h (run_nested hclose h) hj sum

end

end Sweep

/-! ## The whole statement -/

/-- The list that a step of a loop over lists is called with. -/
def Call.elements : Call (List α) → List α
  | .element xs | .indexed xs _ => xs
  | _ => []

/-- A loop over lists. Its step makes a job over its list, whose own steps are those of `k`. All these jobs share
their steps, so what a step keeps from one call to the next is in the world. -/
def Kit.nested (k : Kit W I α P Unit F β) (n : Nat) (plan : List α → Plan I α) (filter : P) :
    Kit W (List (List α)) (List α) Unit Unit (Job I α P Unit F) (Option Int32) where
  next := Next.ofList
  test p _ := pure (.ok true, p)
  step g call := do
    let j ← Job.start k.next k.step n (plan call.elements) filter ()
    pure (j, g)
  poll := Job.poll k n
  isTrue _ := true
  summand total := total.getD 0

namespace Job

theorem requesting_nested (k : Kit W I α P Unit F β) (n : Nat) (plan : List α → Plan I α) (filter : P)
    (xs : List α) : requesting (k.nested n plan filter) xs = start k.next k.step n (plan xs) filter () := by
  rw [requesting, Kit.nested, bind_assoc]
  exact bind_pure (start k.next k.step n (plan xs) filter ())

theorem length_of_mem_lt {n : Nat} {xss : List (List α)} (h : xss.flatten.length < n) {xs : List α}
    (hxs : xs ∈ xss) : xs.length < n :=
  (List.sublist_flatten_of_mem hxs).length_le.trans_lt h

/-- A loop over lists whose step is a loop over the elements of its list, and a sum over lists whose step is the sum
over its list, make the same calls as the loop and the sum over all elements, and give the same answers, whatever
the steps do and whatever else happens between two polls. -/
theorem nested_eq_flat (k : Kit W I α P Unit F β) {n : Nat} {xss : List (List α)} (houter : xss.length < n)
    (hinner : xss.flatten.length < n) (filter : P) (gaps : List (Effect W Unit)) :
    answers (k.nested n (.list .each) filter) n (.list .each xss) () () gaps =
      answers k n (.list .each xss.flatten) filter () gaps ∧
    answers (k.nested n .sumList filter) n (.sumList xss) () () gaps =
      answers k n (.sumList xss.flatten) filter () gaps := by
  constructor
  · have hmake : ∀ xs ∈ xss, Sweep.Inner .none (requesting k) k.poll.stage
        (requesting (k.nested n (.list .each) filter)) (poll k n) xs := fun xs hxs =>
      ⟨_, (requesting_nested k n (.list .each) filter xs).trans (start_list k n xs filter),
        list_alike k (length_of_mem_lt hinner hxs) filter⟩
    rw [answers_list _ houter, answers_list k hinner]
    exact (Sweep.nested_alike (fun _ => ()) (fun _ => rfl) hmake ()).asked_eq gaps
  · have hmake : ∀ xs ∈ xss, Sweep.Inner (.sum k.summand) (requesting k) k.poll.stage
        (requesting (k.nested n .sumList filter)) (poll k n) xs := fun xs hxs =>
      ⟨_, (requesting_nested k n .sumList filter xs).trans (start_sumList k n xs filter),
        sumList_alike k (length_of_mem_lt hinner hxs)⟩
    rw [answers_sumList _ houter, answers_sumList k hinner]
    exact (Sweep.nested_alike (fun total => total.getD 0) (fun _ => rfl) hmake 0).asked_eq gaps

/-- Steps over integers that wait once each, in a world that records their calls. -/
def recordingIntegers : Kit (List (Call Int32)) Unit Int32 Unit Unit Bool Unit := Kit.recording

theorem three_eq_flat :
    [[5], [], [7, (9 : Int32)]].length < 4 ∧ [[5], [], [7, (9 : Int32)]].flatten.length < 4 ∧
      answers (recordingIntegers.nested 4 (.list .each) ()) 4 (.list .each [[5], [], [7, 9]]) () ()
        [pure (), pure (), pure (), pure ()] [] =
          .returned [.pending, .pending, .pending, .ready (.ok none)] [.element 5, .element 7, .element 9] := by
  have houter : [[5], [], [7, (9 : Int32)]].length < 4 := by decide
  have hinner : [[5], [], [7, (9 : Int32)]].flatten.length < 4 := by decide
  have hflat := (nested_eq_flat recordingIntegers houter hinner () [pure (), pure (), pure (), pure ()]).1
  have hsweep := answers_list recordingIntegers hinner () [pure (), pure (), pure (), pure ()]
  exact ⟨houter, hinner, (congrFun (hflat.trans hsweep) []).trans rfl⟩

end Job

end Stepwise
