import Stepwise.Proofs.Job.Course
import Stepwise.Proofs.RangeWalk

/-! # Finding steps in a part of the world

A walk that calls only what leaves the second part of the world alone leaves it alone itself. Source, filter and
step are called in the same order, so `Rest.find_within` is one case for every way to find a step, and an
induction only over what a filter rejects.
-/

namespace Stepwise
set_option autoImplicit false

variable {W S I α P G F β : Type}

theorem Lookahead.next_within {next : Next W I α} {next' : Next (W × S) I α}
    (h : ∀ i, next' i = (next i).within S) (a : Lookahead I α) :
    Lookahead.next next' a = (Lookahead.next next a).within S := by
  obtain ⟨source, seen⟩ := a
  cases seen with
  | some x => rfl
  | none =>
    simp only [Lookahead.next, h, Effect.within_bind]
    rfl

theorem Next.ofList_within (xs : List α) :
    (Next.ofList xs : Effect (W × S) _) = (Next.ofList xs : Effect W _).within S := by
  cases xs <;> rfl

theorem Walk.next_beside {b : Scan W I α P G F} {b' : Scan (W × S) I α P G F}
    (hnext : ∀ i, b'.next i = (b.next i).within S) (htest : ∀ p x i, b'.test p x i = (b.test p x i).within S)
    (hstep : ∀ g x i, b'.step g x i = (b.step g x i).within S) (n : Nat) (p : Walk I P G) :
    Walk.next b' n p = (Walk.next b n p).within S := by
  induction n generalizing p with
  | zero => rfl
  | succ n ih =>
    rw [Walk.next, Walk.next, hnext, Effect.within_bind]
    refine bind_congr fun r => ?_
    obtain ⟨entry, source⟩ := r
    cases entry with
    | none => rfl
    | some x =>
      simp only [htest, Effect.within_bind]
      refine bind_congr fun r => ?_
      obtain ⟨verdict, filter⟩ := r
      cases verdict with
      | error e => rfl
      | ok accepted =>
        cases accepted with
        | false => exact ih _
        | true =>
          simp only [hstep, Effect.within_bind]
          rfl

theorem RangeWalk.next_beside {b : RangeScan W P G F} {b' : RangeScan (W × S) P G F}
    (htest : ∀ p i, b'.test p i = (b.test p i).within S) (hstep : ∀ g i, b'.step g i = (b.step g i).within S)
    (p : RangeWalk P G) : p.next b' = (p.next b).within S := by
  induction p using RangeWalk.turns with
  | done p hlt =>
    rw [next_of_not_lt b' hlt, next_of_not_lt b hlt]
    rfl
  | turn p hlt ih =>
    rw [next_of_lt b' hlt, next_of_lt b hlt, htest, Effect.within_bind]
    refine bind_congr fun r => ?_
    obtain ⟨verdict, filter⟩ := r
    cases verdict with
    | error e => rfl
    | ok accepted =>
      cases accepted with
      | false => exact ih filter
      | true =>
        simp only [judge, hstep, Effect.within_bind]
        rfl

namespace Job

theorem located_within {C T : Type} {locate : C → T} {m : Effect W (Found F × C)}
    {m' : Effect (W × S) (Found F × C)} (h : m' = m.within S) :
    located locate m' = (located locate m).within S := by
  rw [located, located, h, Effect.within_bind]
  rfl

theorem test_scan_within {k : Kit W I α P G F β} {k' : Kit (W × S) I α P G F β}
    (htest : ∀ p call, k'.test p call = (k.test p call).within S) (form : Form) {J : Type} (next : Next W J α)
    (next' : Next (W × S) J α) (p : P) (x : α) (i : Nat) :
    (k'.scan form next').test p x i = ((k.scan form next).test p x i).within S := by
  simp only [Kit.scan]
  cases form.test with
  | none => rfl
  | some arguments => exact htest p _

/-- To request the next step, if a kit makes the same calls and leaves the second part of the world alone. -/
theorem Rest.find_within {k : Kit W I α P G F β} {k' : Kit (W × S) I α P G F β}
    (hnext : ∀ source, k'.next source = (k.next source).within S)
    (htest : ∀ p call, k'.test p call = (k.test p call).within S)
    (hstep : ∀ g call, k'.step g call = (k.step g call).within S) (n : Nat) (rest : Rest I α P G) :
    rest.find k' n = (rest.find k n).within S := by
  have hlook := Lookahead.next_within hnext
  have hlist := Lookahead.next_within (Next.ofList_within (S := S) (W := W) (α := α))
  cases rest with
  | iterate form c =>
    exact located_within (Walk.next_beside hlook (test_scan_within htest form _ _)
      (fun g x i => hstep g _) n c)
  | list form c =>
    exact located_within (Walk.next_beside hlist (test_scan_within htest form _ _)
      (fun g x i => hstep g _) n c)
  | range filtered c =>
    refine located_within (RangeWalk.next_beside (fun p i => ?_) (fun g i => hstep g _) c)
    cases filtered with
    | false => rfl
    | true => exact htest p _
  | chain g elements =>
    cases elements with
    | nil => rfl
    | cons x elements =>
      rw [Rest.find, Rest.find, hstep, Effect.within_bind]
      rfl
  | sum s c =>
    exact located_within (Walk.next_beside (Lookahead.next_within hlook) (fun _ _ _ => rfl)
      (fun g x i => hstep g _) n c)
  | sumList s c =>
    exact located_within (Walk.next_beside (Lookahead.next_within hlist) (fun _ _ _ => rfl)
      (fun g x i => hstep g _) n c)
  | sumRange s c => exact located_within (RangeWalk.next_beside (fun _ _ => rfl) (fun g i => hstep g _) c)
  | several c =>
    exact located_within (Walk.next_beside hlist (fun _ _ _ => rfl)
      (fun g x i => hstep g _) n c)
  | drive g =>
    rw [Rest.find, Rest.find, hstep, Effect.within_bind]
    rfl
  | last total => rfl

end Job

end Stepwise
