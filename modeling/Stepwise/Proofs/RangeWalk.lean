import Mathlib.Data.List.Basic
import Stepwise.Proofs.Ensures
import Stepwise.Walk

/-! # Walks over integers

A walk over a range compares its place with the end of the range and goes on by one before it asks the filter.

* `integers start stop` lists the integers of a range as unbounded arithmetic has them.
* `RangeWalk.next_of_lt` and `RangeWalk.next_of_not_lt` are the loop itself: one turn, and the end.
* `RangeWalk.Within`: the place lies between the two ends of the range. Every turn keeps it there
  (`RangeWalk.next_within`).
* `RangeWalk.checked` is the same walk, which breaks down when the addition overflows or leaves the range.
  From within the range it never does (`RangeWalk.next_eq_checked`).
-/

namespace Stepwise
set_option autoImplicit false

variable {W P G F : Type}

/-! ## The integers of a range -/

/-- The integers from `start` up to `stop`, without it. -/
def integers (start stop : Int32) : List Int32 :=
  (List.range (stop.toInt - start.toInt).toNat).map fun j : Nat => Int32.ofInt (start.toInt + j)

/-- Below another integer there is room for the next one. -/
theorem toInt_succ_of_lt {i stop : Int32} (h : i < stop) : (i + 1).toInt = i.toInt + 1 := by
  have hlt : i.toInt < stop.toInt := Int32.lt_iff_toInt_lt.mp h
  have hupper := Int32.toInt_lt stop
  have hlower := Int32.le_toInt i
  have hone : (1 : Int32).toInt = 1 := rfl
  rw [Int32.toInt_add, hone, Int.bmod_eq_of_le] <;> omega

theorem ofInt_toInt_succ (i : Int32) (j : Nat) :
    Int32.ofInt (i.toInt + (j + 1 : Nat)) = Int32.ofInt ((i + 1).toInt + j) := by
  have hone : Int32.ofInt 1 = 1 := rfl
  rw [Int32.ofInt_add (i + 1).toInt, Int32.ofInt_toInt, Int32.ofInt_add, Int32.ofInt_toInt, Int.natCast_succ,
    Int32.ofInt_add, hone, Int32.add_comm (Int32.ofInt j) 1, Int32.add_assoc]

theorem length_integers (start stop : Int32) :
    (integers start stop).length = (stop.toInt - start.toInt).toNat := by
  simp [integers]

theorem toInt_getElem_integers {start stop : Int32} {j : Nat} (h : j < (integers start stop).length) :
    ((integers start stop)[j]).toInt = start.toInt + j := by
  rw [length_integers] at h
  have hupper := Int32.toInt_lt stop
  have hlower := Int32.le_toInt start
  simp only [integers, List.getElem_map, List.getElem_range]
  exact Int32.toInt_ofInt_of_le (by omega) (by omega)

theorem integers_of_not_lt {start stop : Int32} (h : ¬ start < stop) : integers start stop = [] := by
  rw [Int32.lt_iff_toInt_lt] at h
  rw [← List.length_eq_zero_iff, length_integers]
  omega

theorem integers_of_lt {start stop : Int32} (h : start < stop) :
    integers start stop = start :: integers (start + 1) stop := by
  have hsucc := toInt_succ_of_lt h
  rw [Int32.lt_iff_toInt_lt] at h
  have hcount : (stop.toInt - start.toInt).toNat = (stop.toInt - (start + 1).toInt).toNat + 1 := by omega
  have hfirst : Int32.ofInt (start.toInt + (0 : Nat)) = start := by
    rw [Int.natCast_zero, Int.add_zero, Int32.ofInt_toInt]
  rw [integers, integers, hcount, List.range_succ_eq_map, List.map_cons, hfirst, List.map_map]
  congr 1
  exact List.map_congr_left fun j _ => ofInt_toInt_succ start j

namespace RangeWalk

/-! ## One turn -/

theorem remaining_eq_length (p : RangeWalk P G) : p.remaining = (integers p.current p.stop).length :=
  (length_integers p.current p.stop).symm

theorem remaining_of_lt {p : RangeWalk P G} (h : p.current < p.stop) (filter : P) (consumer : G) :
    p.remaining =
      RangeWalk.remaining { current := p.current + 1, stop := p.stop, filter, consumer : RangeWalk P G } + 1 := by
  rw [remaining_eq_length, remaining_eq_length, integers_of_lt h]
  rfl

/-- A walk is at its end, or it takes a turn with some verdict of the filter. -/
theorem turns {motive : RangeWalk P G → Prop} (done : ∀ p, ¬ p.current < p.stop → motive p)
    (turn : ∀ p : RangeWalk P G, p.current < p.stop →
      (∀ filter, motive { p with current := p.current + 1, filter }) → motive p) (p : RangeWalk P G) :
    motive p := by
  induction hcount : p.remaining generalizing p with
  | zero => exact done p ((p.remaining_eq_zero_iff).mp hcount)
  | succ n ih =>
    have hlt : p.current < p.stop := by
      by_contra hlt
      rw [(p.remaining_eq_zero_iff).mpr hlt] at hcount
      cases hcount
    refine turn p hlt fun filter => ih _ ?_
    have hremaining := remaining_of_lt hlt filter p.consumer
    change RangeWalk.remaining { p with current := p.current + 1, filter } = n
    omega

/-- What a turn does with the verdict on an integer. -/
def judge (b : RangeScan W P G F) (i : Int32) (p : RangeWalk P G) :
    Outcome Bool → Effect W (Found F × RangeWalk P G)
  | .ok true => do
    let (step, consumer) ← b.step p.consumer i
    pure (.step step, { p with consumer })
  | .ok false => p.next b
  | .error e => pure (.failed e, p)

theorem next_of_not_lt (b : RangeScan W P G F) {p : RangeWalk P G} (h : ¬ p.current < p.stop) :
    p.next b = pure (.nothing, p) := by
  rw [next, (p.remaining_eq_zero_iff).mpr h]
  rfl

theorem next_of_lt (b : RangeScan W P G F) {p : RangeWalk P G} (h : p.current < p.stop) :
    p.next b = b.test p.filter p.current >>= fun r =>
      judge b p.current { p with current := p.current + 1, filter := r.2 } r.1 := by
  have hremaining := fun filter => remaining_of_lt h filter p.consumer
  rw [next, hremaining p.filter, scan]
  refine bind_congr fun r => ?_
  obtain ⟨verdict, filter⟩ := r
  cases verdict with
  | error e => rfl
  | ok accepted => cases accepted <;> rfl

/-! ## Within the range -/

/-- The place lies between the two ends of the range. -/
def Within (start stop : Int32) (p : RangeWalk P G) : Prop :=
  start ≤ p.current ∧ p.current ≤ p.stop ∧ p.stop = stop

theorem Within.succ {start stop : Int32} {p : RangeWalk P G} (h : p.Within start stop) (hlt : p.current < p.stop)
    (filter : P) (consumer : G) :
    RangeWalk.Within start stop { current := p.current + 1, stop := p.stop, filter, consumer } := by
  obtain ⟨hstart, -, hstop⟩ := h
  have hsucc := toInt_succ_of_lt hlt
  rw [Int32.lt_iff_toInt_lt] at hlt
  rw [Int32.le_iff_toInt_le] at hstart
  refine ⟨?_, ?_, hstop⟩
  · rw [Int32.le_iff_toInt_le]
    change start.toInt ≤ (p.current + 1).toInt
    omega
  · rw [Int32.le_iff_toInt_le]
    change (p.current + 1).toInt ≤ p.stop.toInt
    omega

theorem next_within (b : RangeScan W P G F) {start stop : Int32} {p : RangeWalk P G} (h : p.Within start stop)
    (w : W) : (p.next b w).Ensures (fun _ => True) fun r _ => r.2.Within start stop := by
  induction p using turns generalizing w with
  | done p hlt =>
    rw [next_of_not_lt b hlt]
    exact h
  | turn p hlt ih =>
    rw [next_of_lt b hlt]
    refine (Ending.Ensures.any _).bind fun r w _ => ?_
    obtain ⟨verdict, filter⟩ := r
    have hsucc := h.succ hlt filter p.consumer
    cases verdict with
    | error e => exact hsucc
    | ok accepted =>
      cases accepted with
      | false => exact ih filter hsucc w
      | true => exact (Ending.Ensures.any _).bind fun s w _ => hsucc

/-! ## With checked additions -/

/-- The walk that breaks down when `current + 1` overflows or is not in the range that began with `start`. -/
def checked (b : RangeScan W P G F) (start : Int32) (p : RangeWalk P G) : Effect W (Found F × RangeWalk P G) :=
  if _h : p.current < p.stop then
    if p.current = Int32.maxValue ∨ ¬ (start ≤ p.current + 1 ∧ p.current + 1 ≤ p.stop) then
      Effect.breakDown .overflow
    else do
      let i := p.current
      let (verdict, filter) ← b.test p.filter i
      match verdict with
      | .ok true => do
        let (step, consumer) ← b.step p.consumer i
        pure (.step step, { p with current := i + 1, filter, consumer })
      | .ok false => checked b start { p with current := i + 1, filter }
      | .error e => pure (.failed e, { p with current := i + 1, filter })
  else pure (.nothing, p)
termination_by p.remaining
decreasing_by
  rw [remaining_of_lt _h filter p.consumer]
  exact Nat.lt_succ_self _

theorem next_eq_checked (b : RangeScan W P G F) {start stop : Int32} {p : RangeWalk P G}
    (h : p.Within start stop) : p.next b = p.checked b start := by
  induction p using turns with
  | done p hlt => rw [next_of_not_lt b hlt, checked, dif_neg hlt]
  | turn p hlt ih =>
    have hsucc := h.succ hlt p.filter p.consumer
    have hmax : p.current ≠ Int32.maxValue := by
      intro hmax
      have hupper := Int32.toInt_lt p.stop
      rw [Int32.lt_iff_toInt_lt, hmax, Int32.toInt_maxValue] at hlt
      omega
    have hguard : ¬ (p.current = Int32.maxValue ∨ ¬ (start ≤ p.current + 1 ∧ p.current + 1 ≤ p.stop)) := by
      rintro (heq | hbounds)
      · exact hmax heq
      · exact hbounds ⟨hsucc.1, hsucc.2.1⟩
    rw [next_of_lt b hlt, checked, dif_pos hlt, if_neg hguard]
    refine bind_congr fun r => ?_
    obtain ⟨verdict, filter⟩ := r
    cases verdict with
    | error e => rfl
    | ok accepted =>
      cases accepted with
      | true => rfl
      | false => exact ih filter (h.succ hlt filter p.consumer)

end RangeWalk

end Stepwise
