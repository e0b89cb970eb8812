import Stepwise.Proofs.Ensures
import Stepwise.Proofs.Job.Course

/-! # Jobs that find their steps

A job finds its next step, or that there is none, if its calls return and its source comes to an end. For a
source this means that some size of it gets smaller with every element; a list has its length, and a range has
its own bound.

* `Ending.Returns`: the computation comes to a result. `Shrinks size next` says so of a source, and
  `Lookahead.shrinks` passes it to a source whose next answer is kept back.
* `Job.Rest.size`: how many elements are left in what a job runs over, at most. `Rest.find_returns` needs
  more fuel than that, and `start_returns` as well.
* `Course.State.At S`: the place of a job under way is one of `S`, here one of a size below the fuel.
-/

namespace Stepwise
set_option autoImplicit false

variable {W I J α P S G F C β γ : Type}

/-- The computation comes to a result of which this holds. -/
def Ending.Returns {A : Type} (Q : A → W → Prop) (e : Ending W A) : Prop := e.Ensures (fun _ => False) Q

theorem Ending.Returns.result {A : Type} {Q : A → W → Prop} {e : Ending W A} (h : e.Returns Q) :
    ∃ a w, e = .returned a w ∧ Q a w := by
  cases e with
  | returned a w => exact ⟨a, w, rfl, h⟩
  | broken reason w => exact h.elim
  | cut w => exact h.elim

theorem Ending.Returns.mono {A : Type} {Q Q' : A → W → Prop} {e : Ending W A} (h : e.Returns Q)
    (hQ : ∀ a w, Q a w → Q' a w) : e.Returns Q' := Ending.Ensures.mono h (fun _ h => h) hQ

theorem Ending.Returns.bind {A B : Type} {m : Effect W A} {k : A → Effect W B} {w : W} {Q : A → W → Prop}
    {Q' : B → W → Prop} (h : (m w).Returns Q) (hk : ∀ a w, Q a w → (k a w).Returns Q') :
    ((m >>= k) w).Returns Q' := Ending.Ensures.bind h hk

/-- What is ensured holds of the result. -/
theorem Ending.Returns.and {A : Type} {I : W → Prop} {Q Q' : A → W → Prop} {e : Ending W A} (h : e.Returns Q)
    (h' : e.Ensures I Q') : e.Returns fun a w => Q a w ∧ Q' a w := by
  obtain ⟨a, w, rfl, hQ⟩ := h.result
  exact ⟨hQ, h'⟩

/-! ## Sources -/

/-- The source returns, and with every element it gets smaller. `R` is what it keeps of the world. -/
def Shrinks (R : W → Prop) (size : I → Nat) (next : Next W I α) : Prop :=
  ∀ source w, R w → (next source w).Returns fun r w => R w ∧ (r.1.isSome → size r.2 < size source)

/-- The calls return and keep `R`. -/
structure Kit.Sized (R : W → Prop) (size : I → Nat) (k : Kit W I α P G F β) : Prop where
  next : Shrinks R size k.next
  test : ∀ p call w, R w → (k.test p call w).Returns fun _ => R
  step : ∀ g call w, R w → (k.step g call w).Returns fun _ => R

/-- An element that is kept back counts as well. -/
def Lookahead.size (size : I → Nat) (a : Lookahead I α) : Nat :=
  match a.seen with
  | some (some _) => size a.source + 1
  | _ => size a.source

section Sources

variable {R : W → Prop} {size : I → Nat}

theorem Next.shrinks_ofList : Shrinks (α := α) R List.length Next.ofList := by
  intro elements w h
  cases elements with
  | nil => exact ⟨h, nofun⟩
  | cons x rest => exact ⟨h, fun _ => Nat.lt_succ_self _⟩

theorem Lookahead.shrinks {next : Next W I α} (hnext : Shrinks R size next) :
    Shrinks R (Lookahead.size size) (Lookahead.next next) := by
  intro a w h
  obtain ⟨source, seen⟩ := a
  cases seen with
  | some x =>
    refine ⟨h, fun hx => ?_⟩
    cases x with
    | none => cases hx
    | some x => exact Nat.lt_succ_self _
  | none => exact (hnext source w h).bind fun r w hr => hr

theorem Lookahead.peek_returns {next : Next W I α} (hnext : Shrinks R size next) (source : I) (w : W)
    (h : R w) : (Lookahead.peek next { source } w).Returns fun r w =>
      R w ∧ (r.1.isSome → Lookahead.size size r.2 ≤ size source) := by
  refine (hnext source w h).bind fun r w hr => ?_
  refine ⟨hr.1, fun hsome => ?_⟩
  obtain ⟨entry, source'⟩ := r
  cases entry with
  | none => cases hsome
  | some x => exact hr.2 rfl

theorem Walk.next_returns {b : Scan W I α P G F} (hnext : Shrinks R size b.next)
    (htest : ∀ p x i w, R w → (b.test p x i w).Returns fun _ => R)
    (hstep : ∀ g x i w, R w → (b.step g x i w).Returns fun _ => R) (n : Nat) (c : Walk I P G) (w : W)
    (hn : size c.source < n) (h : R w) :
    (Walk.next b n c w).Returns fun r w => R w ∧ ∀ x, r.1 = .step x → size r.2.source < n := by
  induction n generalizing c w with
  | zero => cases hn
  | succ n ih =>
    refine (hnext c.source w h).bind fun r w hr => ?_
    obtain ⟨entry, source⟩ := r
    cases entry with
    | none => exact ⟨hr.1, fun x hx => nomatch hx⟩
    | some x =>
      have hlt : size source < size c.source := hr.2 rfl
      refine (htest c.filter x c.index w hr.1).bind fun r w hr => ?_
      obtain ⟨verdict, filter⟩ := r
      cases verdict with
      | error e => exact ⟨hr, fun x hx => nomatch hx⟩
      | ok accepted =>
        cases accepted with
        | true =>
          refine (hstep c.consumer x c.index w hr).bind fun r w hr => ?_
          exact ⟨hr, fun _ _ => hlt.trans hn⟩
        | false =>
          refine (ih { c with source, filter, index := c.index + 1 } w ?_ hr).mono fun r w hr => ?_
          · change size source < n
            omega
          · exact ⟨hr.1, fun x hx => (hr.2 x hx).trans (Nat.lt_succ_self n)⟩

theorem RangeWalk.next_returns {b : RangeScan W P G F}
    (htest : ∀ p i w, R w → (b.test p i w).Returns fun _ => R)
    (hstep : ∀ g i w, R w → (b.step g i w).Returns fun _ => R) (c : RangeWalk P G) (w : W) (h : R w) :
    (RangeWalk.next b c w).Returns fun _ => R := by
  rw [RangeWalk.next]
  induction c.remaining generalizing c w with
  | zero => exact h
  | succ left ih =>
    refine (htest c.filter c.current w h).bind fun r w hr => ?_
    obtain ⟨verdict, filter⟩ := r
    cases verdict with
    | error e => exact hr
    | ok accepted =>
      cases accepted with
      | true => exact (hstep c.consumer c.current w hr).bind fun r w hr => hr
      | false => exact ih _ w hr

end Sources

/-! ## Jobs -/

/-- The place of a course under way is one of these. -/
def Course.State.At (places : C → Prop) : Course.State C F → Prop
  | .ahead c => places c
  | .under (.step _) c => places c
  | _ => True

namespace Job

/-- How many elements are left at most. A range and a chain need no fuel for theirs. -/
def Rest.size (size : I → Nat) : Rest I α P G → Nat
  | .iterate _ c => Lookahead.size size c.source
  | .list _ c => Lookahead.size List.length c.source
  | .sum _ c => Lookahead.size (Lookahead.size size) c.source
  | .sumList _ c => Lookahead.size (Lookahead.size List.length) c.source
  | .several c => Lookahead.size List.length c.source
  | _ => 0

/-- There are fewer than `n` elements left. -/
def Rest.Fewer (size : I → Nat) (n : Nat) (rest : Rest I α P G) : Prop := rest.size size < n

/-- How many elements a job may have to run over. -/
def planSize (size : I → Nat) : Plan I α → Nat
  | .iterate _ source => size source
  | .list _ elements => elements.length
  | .chain source => size source
  | .sum source => size source
  | .sumList elements => elements.length
  | .apply elements => elements.length
  | _ => 0

variable {R : W → Prop} {size : I → Nat} {k : Kit W I α P G F β}

theorem size_absorb {isTrue : β → Bool} {summand : β → Int32} {rest rest' : Rest I α P G} {b : β}
    (h : (course isTrue summand).absorb rest b = some rest') : rest'.size size = rest.size size := by
  cases rest with
  | chain g elements =>
    cases elements with
    | nil => cases h
    | cons x elements => cases h; rfl
  | drive g =>
    change (if isTrue b then _ else _) = _ at h
    split at h
    · cases h; rfl
    · cases h
  | last total => cases h
  | _ => cases h; rfl

theorem located_returns {sizes : C → Nat} {locate : C → Rest I α P G} {m : Effect W (Found F × C)}
    {n : Nat} {w : W} (hlocate : ∀ c, (locate c).size size = sizes c)
    (h : (m w).Returns fun r w => R w ∧ ∀ x, r.1 = .step x → sizes r.2 < n) :
    (located locate m w).Returns fun r w => R w ∧ ∀ x, r.1 = .step x → r.2.size size < n := by
  refine h.bind fun r w hr => ⟨hr.1, fun x hx => ?_⟩
  change (locate r.2).size size < n
  rw [hlocate]
  exact hr.2 x hx

theorem scan_returns (hk : k.Sized R size) (form : Form) (next : Next W J α) (p : P) (x : α) (i : Nat)
    (w : W) (h : R w) : ((k.scan form next).test p x i w).Returns fun _ => R := by
  simp only [Kit.scan]
  cases form.test with
  | none => exact h
  | some arguments => exact hk.test p _ w h

theorem Rest.find_returns (hk : k.Sized R size) (n : Nat) (rest : Rest I α P G) (w : W)
    (hn : rest.size size < n) (h : R w) :
    (rest.find k n w).Returns fun r w => R w ∧ ∀ x, r.1 = .step x → r.2.size size < n := by
  have hpos : 0 < n := by omega
  cases rest with
  | iterate form c =>
    exact located_returns (fun _ => rfl) (Walk.next_returns (Lookahead.shrinks hk.next)
      (scan_returns hk form _) (fun g _ _ => hk.step g _) n c w hn h)
  | list form c =>
    exact located_returns (fun _ => rfl) (Walk.next_returns (Lookahead.shrinks Next.shrinks_ofList)
      (scan_returns hk form _) (fun g _ _ => hk.step g _) n c w hn h)
  | range filtered c =>
    have hfind := RangeWalk.next_returns (b := k.rangeScan filtered) (fun p i w h => ?_)
      (fun g _ => hk.step g _) c w h
    · exact located_returns (fun _ => rfl) (hfind.mono fun r w hr => ⟨hr, fun _ _ => hpos⟩)
    · cases filtered with
      | true => exact hk.test p _ w h
      | false => exact h
  | chain g elements =>
    cases elements with
    | nil => exact ⟨h, fun x hx => nomatch hx⟩
    | cons x elements => exact (hk.step g _ w h).bind fun r w hr => ⟨hr, fun _ _ => hpos⟩
  | sum s c =>
    have hfind := Walk.next_returns (b := k.plainScan _) (Lookahead.shrinks (Lookahead.shrinks hk.next))
      (fun _ _ _ _ h => h) (fun g _ _ => hk.step g _) n c w hn h
    exact located_returns (fun _ => rfl) hfind
  | sumList s c =>
    have hfind := Walk.next_returns (b := k.plainScan _)
      (Lookahead.shrinks (Lookahead.shrinks Next.shrinks_ofList)) (fun _ _ _ _ h => h)
      (fun g _ _ => hk.step g _) n c w hn h
    exact located_returns (fun _ => rfl) hfind
  | sumRange s c =>
    have hfind := RangeWalk.next_returns (b := k.plainRangeScan) (fun _ _ _ h => h)
      (fun g _ => hk.step g _) c w h
    exact located_returns (fun _ => rfl) (hfind.mono fun r w hr => ⟨hr, fun _ _ => hpos⟩)
  | several c =>
    have hfind := Walk.next_returns (b := k.plainScan _) (Lookahead.shrinks Next.shrinks_ofList)
      (fun _ _ _ _ h => h) (fun g _ _ => hk.step g _) n c w hn h
    exact located_returns (fun _ => rfl) hfind
  | drive g => exact (hk.step g _ w h).bind fun r w hr => ⟨hr, fun _ _ => hpos⟩
  | last total => exact ⟨h, fun x hx => nomatch hx⟩

/-! ## Making a job -/

theorem ofSource_returns {Z : I → Nat} {next : Next W J α} {sizes : J → Nat}
    (hnext : Shrinks R sizes next) (source : J) (filter : P) (consumer : G)
    (locate : Walk (Lookahead J α) P G → Rest I α S G)
    (hlocate : ∀ c, (locate c).size Z = Lookahead.size sizes c.source) (total : Option Int32)
    {n : Nat} (hn : sizes source < n) (w : W) (h : R w) :
    ((Loop.ofSource next source filter consumer : Effect W (Loop _ F)) w).Returns fun l w =>
      R w ∧ (viewLoop locate total l).At (Rest.Fewer Z n) := by
  refine (Lookahead.peek_returns hnext source w h).bind fun r w hr => ?_
  obtain ⟨first, a⟩ := r
  cases first with
  | none => exact ⟨hr.1, Nat.zero_lt_of_lt hn⟩
  | some x =>
    refine ⟨hr.1, ?_⟩
    change (locate { source := a, filter, consumer }).size Z < n
    rw [hlocate]
    exact (hr.2 rfl).trans_lt hn

theorem sumOfSource_returns {Z : I → Nat} {next : Next W J α} {sizes : J → Nat}
    (hnext : Shrinks R sizes next) (source : J) (consumer : G)
    (locate : Int32 → Walk (Lookahead (Lookahead J α) α) Unit G → Rest I α S G)
    (hlocate : ∀ sum c, (locate sum c).size Z = Lookahead.size (Lookahead.size sizes) c.source) {n : Nat}
    (hn : sizes source < n) (w : W) (h : R w) :
    ((Summation.ofSource next source consumer : Effect W (Summation (Loop _ F))) w).Returns fun s w =>
      R w ∧ (viewSum locate s).At (Rest.Fewer Z n) := by
  refine (Lookahead.peek_returns hnext source w h).bind fun r w hr => ?_
  obtain ⟨first, a⟩ := r
  cases first with
  | none => exact ⟨hr.1, Nat.zero_lt_of_lt hn⟩
  | some x =>
    have hlt : Lookahead.size sizes a < n := (hr.2 rfl).trans_lt hn
    have hloop := ofSource_returns (F := F) (Lookahead.shrinks hnext) a () consumer (locate 0) (hlocate 0)
      (some 0) hlt w hr.1
    exact hloop.bind fun l w hl => hl

theorem pull_returns {next : Next W I α} (hnext : Shrinks R size next) (n : Nat) (source : I)
    (tower : Tower α F) (hn : size source < n)
    (hbare : ∀ g above, ∃ elements,
      (viewTower g tower above : Course.State (Rest I α P G) F) = .ahead (.chain g elements))
    (consumer : G) (w : W) (h : R w) : (Chain.pull next n source tower w).Returns fun tower w => R w ∧
      ∃ elements, (viewTower consumer tower [] : Course.State (Rest I α P G) F) =
        .ahead (.chain consumer elements) := by
  induction n generalizing source tower w with
  | zero => cases hn
  | succ n ih =>
    refine (hnext source w h).bind fun r w hr => ?_
    obtain ⟨entry, source'⟩ := r
    cases entry with
    | none => exact ⟨hr.1, hbare consumer []⟩
    | some x =>
      have hlt : size source' < size source := hr.2 rfl
      exact ih source' (.first tower x) (by omega) (fun g above => hbare g (x :: above)) w hr.1

theorem start_returns (hk : k.Sized R size) (n : Nat) (plan : Plan I α) (filter : P) (consumer : G) (w : W)
    (hn : planSize size plan < n) (h : R w) :
    (start k.next k.step n plan filter consumer w).Returns fun j w =>
      R w ∧ (j.view : Course.State (Rest I α P G) F).At (Rest.Fewer size n) := by
  have hpos : 0 < n := by omega
  cases plan with
  | iterate form source =>
    have hloop := ofSource_returns (F := F) hk.next source filter consumer (Rest.iterate form) (fun _ => rfl) none
      hn w h
    exact hloop.bind fun l w hl => hl
  | list form elements =>
    have hloop := ofSource_returns (F := F) (Z := size) Next.shrinks_ofList elements filter consumer
      (Rest.list form) (fun _ => rfl) none hn w h
    exact hloop.bind fun l w hl => hl
  | range filtered start stop =>
    refine ⟨h, ?_⟩
    change (viewLoop _ none (Loop.ofRange start stop filter consumer)).At _
    rw [Loop.ofRange]
    split <;> exact hpos
  | chain source =>
    have hpull := pull_returns (F := F) (P := P) hk.next n source .ground hn (fun g above => ⟨above, rfl⟩) consumer
      w h
    refine Ending.Returns.bind (Q := fun c w => R w ∧
      (view (.chain c) : Course.State (Rest I α P G) F).At (Rest.Fewer size n)) ?_
      fun c w hc => hc
    refine hpull.bind fun tower w htower => ?_
    obtain ⟨hR, elements, hview⟩ := htower
    refine ⟨hR, ?_⟩
    change (viewTower consumer tower []).At _
    rw [hview]
    exact hpos
  | sum source =>
    have hsum := sumOfSource_returns (F := F) (S := P) hk.next source consumer Rest.sum (fun _ _ => rfl) hn w h
    exact hsum.bind fun s w hs => hs
  | sumList elements =>
    have hsum := sumOfSource_returns (F := F) (Z := size) (S := P) Next.shrinks_ofList elements consumer
      Rest.sumList (fun _ _ => rfl) hn w h
    exact hsum.bind fun s w hs => hs
  | sumRange start stop =>
    refine ⟨h, ?_⟩
    change (viewSum _ (Summation.ofRange start stop consumer)).At _
    rw [Summation.ofRange, Loop.ofRange]
    split <;> exact hpos
  | apply elements =>
    refine Ending.Returns.bind (Q := fun a w => R w ∧
      (view (.apply a) : Course.State (Rest I α P G) F).At (Rest.Fewer size n)) ?_ fun a w ha => ha
    cases elements with
    | nil => exact ⟨h, hpos⟩
    | cons x rest =>
      cases rest with
      | nil => exact (hk.step consumer _ w h).bind fun r w hr => ⟨hr, hpos⟩
      | cons y rest =>
        have hloop := ofSource_returns (F := F) (Z := size) (S := P) Next.shrinks_ofList (x :: y :: rest) ()
          consumer Rest.several (fun _ => rfl) none hn w h
        exact hloop.bind fun l w hl => hl
  | drive => exact ⟨h, hpos⟩

end Job

end Stepwise
