import Stepwise.Proofs.Trampoline.Stepping

/-! # Sequencing

`continueWith` and `map` build different trees on a value, on work and on a continuation that already waits. What is
built is the same to a run.

* `ConcurAt m m' w`: from the world `w` the two families come to the same at every fuel, but for some units that
  one of them uses on its own. So they do the same in the same order, also where they never come to an end.
* `concurAt_waiting`: two lists of continuations that do the same with every value do so behind every computation.
* `concurAt_continueWith`: what `continueWith` builds runs as the computation with the continuation waiting.
* `sequencing`: a value in front and a continuation that only gives its value make no difference, continuations
  may be bracketed in any way, `map` is a continuation, and building runs no more than the function of a `map` on
  a value.
-/

namespace Stepwise
set_option autoImplicit false

/-! ## The same but for some turns -/

namespace Effect

variable {W : Type} {α β : Type}

/-- From this world the two come to the same at every fuel, but for units that only one of them uses. -/
def ConcurAt (m m' : Nat → Effect W α) (w : W) : Prop := ∃ d d', ∀ n, m (d + n) w = m' (d' + n) w

namespace ConcurAt

variable {m m' m'' : Nat → Effect W α} {w : W}

theorem symm (h : ConcurAt m m' w) : ConcurAt m' m w := by
  obtain ⟨d, d', h⟩ := h
  exact ⟨d', d, fun n => (h n).symm⟩

theorem trans (h : ConcurAt m m' w) (h' : ConcurAt m' m'' w) : ConcurAt m m'' w := by
  obtain ⟨d, d', h⟩ := h
  obtain ⟨e, e', h'⟩ := h'
  refine ⟨d + e, e' + d', fun n => ?_⟩
  have hmiddle : d' + (e + n) = e + (d' + n) := by omega
  rw [Nat.add_assoc, h, hmiddle, h', Nat.add_assoc]

/-- One of them uses some units first. -/
theorem turns (d : Nat) (h : ∀ n, m (d + n) w = m' n w) : ConcurAt m m' w :=
  ⟨d, 0, fun n => by rw [h, Nat.zero_add]⟩

/-- Each of them uses one unit first, for the same. -/
theorem of_succ (h : ∀ n, m (n + 1) w = m' (n + 1) w) : ConcurAt m m' w := by
  refine ⟨1, 1, fun n => ?_⟩
  rw [Nat.add_comm]
  exact h n

theorem after (m : Effect W α) {k k' : α → Nat → Effect W β} {w : W}
    (h : ∀ a v, ConcurAt (k a) (k' a) v) :
    ConcurAt (fun n => m >>= fun a => k a n) (fun n => m >>= fun a => k' a n) w := by
  cases hm : m w with
  | returned a v =>
    obtain ⟨d, d', hk⟩ := h a v
    exact ⟨d, d', fun n => by simp only [bind_of_returned _ hm, hk]⟩
  | broken reason v => exact ⟨0, 0, fun n => by simp only [bind_of_broken _ hm]⟩
  | cut v => exact ⟨0, 0, fun n => by simp only [bind_of_cut _ hm]⟩

end ConcurAt

end Effect

namespace Trampoline

open Effect (ConcurAt)

section Sequencing

variable {τ κ σ α : Type} (b : Meaning τ κ σ α)

/-- It makes no difference which of the two computations is built and run at once. -/
def SameRun (x y : Effect σ (Trampoline τ κ σ α)) : Prop :=
  ∀ s, ConcurAt (fun n => x >>= run b n) (fun n => y >>= run b n) s

/-! ## Continuations that wait -/

/-- While a computation has not come to its value, it makes no difference what waits for the value. -/
theorem runWith_append_of_isCut {n : Nat} {before : List (Cont κ σ α)} {t : Trampoline τ κ σ α} {s : σ}
    (h : (runWith b n before t s).isCut = true) (after : List (Cont κ σ α)) :
    runWith b n (before ++ after) t s = runWith b n before t s := by
  induction n generalizing before t s with
  | zero =>
    cases t with
    | done v =>
      cases before with
      | nil => cases h
      | cons next before => rfl
    | more work => rfl
    | andThen first next => rfl
  | succ n ih =>
    cases t with
    | done v =>
      cases before with
      | nil => cases h
      | cons next before =>
        rw [runWith_done_cons, Effect.bind_apply] at h
        rw [List.cons_append, runWith_done_cons, runWith_done_cons, Effect.bind_apply, Effect.bind_apply]
        cases hr : b.resume next v s with
        | returned t s => rw [hr] at h; exact ih h
        | broken reason s => rfl
        | cut s => rfl
    | more work =>
      rw [runWith_more, Effect.bind_apply] at h
      rw [runWith_more, runWith_more, Effect.bind_apply, Effect.bind_apply]
      cases hr : b.force work s with
      | returned t s => rw [hr] at h; exact ih h
      | broken reason s => rfl
      | cut s => rfl
    | andThen first next =>
      rw [runWith_andThen] at h
      rw [runWith_andThen, runWith_andThen, ← List.cons_append]
      exact ih h

/-- Two lists of continuations that do the same with every value do the same behind a computation. -/
theorem concurAt_waiting {waiting waiting' : List (Cont κ σ α)}
    (h : ∀ v s, ConcurAt (fun n => runWith b n waiting (.done v))
      (fun n => runWith b n waiting' (.done v)) s) (t : Trampoline τ κ σ α) (s : σ) :
    ConcurAt (fun n => runWith b n waiting t) (fun n => runWith b n waiting' t) s := by
  by_cases hends : ∃ n, (eval b n t s).isCut = false
  · obtain ⟨n, hn⟩ := hends
    obtain ⟨turns, hturns⟩ := runWith_reaches_eval b n t s hn
    -- both come to the value in the same turns
    have hvalue : ∀ waiting, ConcurAt (fun n => runWith b n waiting t)
        (fun fuel => eval b n t >>= fun v => runWith b fuel waiting (.done v)) s := by
      intro waiting
      refine ConcurAt.turns turns fun fuel => ?_
      rw [Nat.add_comm]
      exact hturns fuel waiting
    have hsame := ConcurAt.after (w := s) (eval b n t) h
    exact (hvalue waiting).trans (hsame.trans (hvalue waiting').symm)
  · -- there is never a value
    have hcut : ∀ n, (runWith b n [] t s).isCut = true := by
      intro n
      cases hn : (runWith b n [] t s).isCut with
      | true => rfl
      | false =>
        obtain ⟨-, n', hn'⟩ := (run_agrees_eval b t s _).1 ⟨hn, n, rfl⟩
        have heval : (eval b n' t s).isCut = false := (congrArg Ending.isCut hn').trans hn
        exact absurd ⟨n', heval⟩ hends
    refine ⟨0, 0, fun n => ?_⟩
    have hwaiting := runWith_append_of_isCut b (hcut (0 + n))
    exact (hwaiting waiting).trans (hwaiting waiting').symm

theorem concurAt_done (next : Cont κ σ α) (waiting : List (Cont κ σ α)) (v : α) (s : σ) :
    ConcurAt (fun n => runWith b n (next :: waiting) (.done v))
      (fun n => b.resume next v >>= runWith b n waiting) s := by
  refine ConcurAt.turns 1 fun n => ?_
  rw [Nat.add_comm, runWith_done_cons]

theorem concurAt_andThen (t : Trampoline τ κ σ α) (next : Cont κ σ α) (waiting : List (Cont κ σ α)) (s : σ) :
    ConcurAt (fun n => runWith b n waiting (t.andThen next))
      (fun n => runWith b n (next :: waiting) t) s := by
  refine ConcurAt.turns 1 fun n => ?_
  rw [Nat.add_comm, runWith_andThen]

/-- What `continueWith` builds runs as the computation, for which the continuation waits. -/
theorem concurAt_continueWith (t : Trampoline τ κ σ α) (next : Cont κ σ α) (waiting : List (Cont κ σ α))
    (s : σ) :
    ConcurAt (fun n => runWith b n waiting (t.continueWith next))
      (fun n => runWith b n (next :: waiting) t) s := by
  cases t with
  | done v =>
    refine ConcurAt.trans (ConcurAt.turns 1 fun n => ?_) (concurAt_done b next waiting v s).symm
    rw [Nat.add_comm]
    rfl
  | more work => exact concurAt_andThen b _ next waiting s
  | andThen first inner => exact concurAt_andThen b _ next waiting s

/-! ## The laws -/

theorem sameRun_done (v : α) (next : Cont κ σ α) :
    SameRun b (pure ((done v).continueWith next)) (b.resume next v) := by
  intro s
  simp only [pure_bind]
  exact (concurAt_continueWith b (.done v) next [] s).trans (concurAt_done b next [] v s)

theorem sameRun_andThen (t : Trampoline τ κ σ α) (next : Cont κ σ α) :
    SameRun b (pure (t.continueWith next)) (pure (t.andThen next)) := by
  intro s
  simp only [pure_bind]
  exact (concurAt_continueWith b t next [] s).trans (concurAt_andThen b t next [] s).symm

/-- A continuation that only gives its value. -/
theorem sameRun_value (t : Trampoline τ κ σ α) {next : Cont κ σ α}
    (h : ∀ v, b.resume next v = pure (.done v)) : SameRun b (pure (t.continueWith next)) (pure t) := by
  intro s
  simp only [pure_bind]
  refine (concurAt_continueWith b t next [] s).trans (concurAt_waiting b (fun v s => ?_) t s)
  have hnext := concurAt_done b next [] v s
  simp only [h, pure_bind] at hnext
  exact hnext

theorem sameRun_assoc (t : Trampoline τ κ σ α) {first second both : Cont κ σ α}
    (h : ∀ v, b.resume both v = b.resume first v >>= fun u => pure (u.continueWith second)) :
    SameRun b (pure ((t.continueWith first).continueWith second)) (pure (t.continueWith both)) := by
  intro s
  simp only [pure_bind]
  -- on both sides all that is built waits for the value of `t`
  have hleft := (concurAt_continueWith b (t.continueWith first) second [] s).trans
    (concurAt_continueWith b t first [second] s)
  have hright := concurAt_continueWith b t both [] s
  refine hleft.trans (ConcurAt.trans (concurAt_waiting b (fun v s => ?_) t s) hright.symm)
  have hfirst := concurAt_done b first [second] v s
  have hboth := concurAt_done b both [] v s
  simp only [h, bind_assoc, pure_bind] at hboth
  have hsecond := ConcurAt.after (w := s) (b.resume first v) fun u s =>
    concurAt_continueWith b u second [] s
  exact hfirst.trans (hsecond.symm.trans hboth.symm)

/-- On work and on a continuation `map` is a continuation, and on a value it runs what the continuation would
run. -/
theorem concurAt_map (t : Trampoline τ κ σ α) (f : α → Effect σ α) (waiting : List (Cont κ σ α)) (s : σ) :
    ConcurAt (fun n => t.map f >>= runWith b n waiting)
      (fun n => runWith b n (.mapping f :: waiting) t) s := by
  cases t with
  | done v => exact (concurAt_done b (.mapping f) waiting v s).symm
  | more work => exact concurAt_continueWith b (.more work) (.mapping f) waiting s
  | andThen first next => exact concurAt_continueWith b (first.andThen next) (.mapping f) waiting s

theorem sameRun_map (t : Trampoline τ κ σ α) (f : α → Effect σ α) {next : Cont κ σ α}
    (h : ∀ v, b.resume next v = f v >>= fun u => pure (.done u)) :
    SameRun b (t.map f) (pure (t.continueWith next)) := by
  intro s
  simp only [pure_bind]
  refine (concurAt_map b t f [] s).trans (ConcurAt.trans ?_ (concurAt_continueWith b t next [] s).symm)
  refine concurAt_waiting b (fun v s => ConcurAt.of_succ fun n => ?_) t s
  rw [runWith_done_cons, runWith_done_cons, h]
  rfl

theorem sameRun_map_map (t : Trampoline τ κ σ α) (f g : α → Effect σ α) :
    SameRun b (t.map f >>= fun u => u.map g) (t.map fun v => f v >>= g) := by
  intro s
  simp only [bind_assoc]
  have hg := ConcurAt.after (w := s) (t.map f) fun u s => concurAt_map b u g [] s
  have hf := concurAt_map b t f [.mapping g] s
  have hboth := concurAt_map b t (fun v => f v >>= g) [] s
  refine hg.trans (hf.trans (ConcurAt.trans (concurAt_waiting b (fun v s => ?_) t s) hboth.symm))
  have hfirst := concurAt_done b (.mapping f) [.mapping g] v s
  have hwhole := concurAt_done b (.mapping fun v => f v >>= g) [] v s
  simp only [Meaning.resume, bind_assoc, pure_bind] at hfirst hwhole
  have hsecond := ConcurAt.after (w := s) (f v) fun u s => concurAt_done b (.mapping g) [] u s
  simp only [Meaning.resume, bind_assoc, pure_bind] at hsecond
  exact hfirst.trans (hsecond.trans hwhole.symm)

/-! ## Steps -/

/-- The first step leads to the same, so the number of steps to a value is the same. -/
theorem stepUpTo_continueWith (t : Trampoline τ κ σ α) (next : Cont κ σ α) (limit made : Nat) (v : α)
    (s s' : σ) :
    stepUpTo b limit (t.continueWith next) s = .returned (made, .done v) s' ↔
      stepUpTo b limit (t.andThen next) s = .returned (made, .done v) s' := by
  cases t with
  | done u =>
    cases limit with
    | zero =>
      constructor
      · intro h
        cases h
      · intro h
        cases h
    | succ limit => rfl
  | more work => rfl
  | andThen first inner => rfl

/-! ## Building -/

/-- All closures are still to run, those of the continuation last. -/
theorem numbers_continueWith {t : Trampoline τ κ σ α} {next : Cont κ σ α} {ids ids' : List Nat}
    {t' : Tracked τ κ σ α} {next' : Cont (Nat × κ) (σ × Journal) α} (ht : t.Numbers ids t')
    (hnext : next.Numbers ids' next') :
    (t.continueWith next).Numbers (ids ++ ids') (t'.continueWith next') := by
  cases ht with
  | done v => exact .more (.feed v hnext)
  | more hwork => exact .andThen (.more hwork) hnext
  | andThen hfirst hinner => exact .andThen (.andThen hfirst hinner) hnext

/-- The function of a `map` runs at once, and it alone, or all closures are still to run and it comes last. -/
def MapsOnce (t : Trampoline τ κ σ α) (ids : List Nat) (t' : Tracked τ κ σ α) (f : α → Effect σ α)
    (id : Nat) (s : σ) (j : Journal) : Prop :=
  (t.isDone = true ∧
    Beside (· = j.call id) (fun u u' j' => j' = j.call id ∧ u.isDone = true ∧ u.Numbers [] u')
      (t.map f s) (t'.map (notedMap id f) (s, j))) ∨
  (t.isDone = false ∧ ∃ u u', u.Numbers (ids ++ [id]) u' ∧ t.map f s = .returned u s ∧
      t'.map (notedMap id f) (s, j) = .returned u' (s, j))

theorem mapsOnce {t : Trampoline τ κ σ α} {ids : List Nat} {t' : Tracked τ κ σ α} (h : t.Numbers ids t')
    (f : α → Effect σ α) (id : Nat) (s : σ) (j : Journal) : MapsOnce t ids t' f id s j := by
  have hf : (Cont.mapping f : Cont κ σ α).Numbers [id] (.mapping (notedMap id f)) := .mapping id f
  cases h with
  | done v =>
    refine Or.inl ⟨rfl, ?_⟩
    have hwithin := Beside.within (f v) s (j.call id)
    refine hwithin.bind (k := fun v => pure (done v)) (fun _ h => h) ?_
    rintro _ v s _ ⟨rfl, rfl⟩
    exact ⟨rfl, rfl, rfl, .done v⟩
  | more hwork => exact Or.inr ⟨rfl, _, _, .andThen (.more hwork) hf, rfl, rfl⟩
  | andThen hfirst hinner => exact Or.inr ⟨rfl, _, _, .andThen (.andThen hfirst hinner) hf, rfl, rfl⟩

/-- The laws of sequencing. -/
structure Sequencing : Prop where
  /-- A value in front is given to the continuation. -/
  value_first : ∀ v next, SameRun b (pure ((done v).continueWith next)) (b.resume next v)
  /-- A continuation that only gives its value may be left out. -/
  value_last : ∀ (t : Trampoline τ κ σ α) next, (∀ v, b.resume next v = pure (.done v)) →
    SameRun b (pure (t.continueWith next)) (pure t)
  /-- The second continuation may go behind what the first one gives. -/
  bracketed : ∀ (t : Trampoline τ κ σ α) first second both,
    (∀ v, b.resume both v = b.resume first v >>= fun u => pure (u.continueWith second)) →
    SameRun b (pure ((t.continueWith first).continueWith second)) (pure (t.continueWith both))
  /-- A function is a continuation that gives the value of the function. -/
  mapped : ∀ (t : Trampoline τ κ σ α) f next,
    (∀ v, b.resume next v = f v >>= fun u => pure (.done u)) →
    SameRun b (t.map f) (pure (t.continueWith next))
  /-- Two functions are one after the other. -/
  mapped_twice : ∀ (t : Trampoline τ κ σ α) (f g : α → Effect σ α),
    SameRun b (t.map f >>= fun u => u.map g) (t.map fun v => f v >>= g)
  /-- The tree that puts a continuation behind a computation does so. -/
  node : ∀ (t : Trampoline τ κ σ α) next, SameRun b (pure (t.continueWith next)) (pure (t.andThen next))
  /-- It takes as many steps. -/
  node_steps : ∀ (t : Trampoline τ κ σ α) next limit made v s s',
    stepUpTo b limit (t.continueWith next) s = .returned (made, .done v) s' ↔
      stepUpTo b limit (t.andThen next) s = .returned (made, .done v) s'
  /-- To build a continuation runs nothing. -/
  built : ∀ (t : Trampoline τ κ σ α) next ids ids' t' next', t.Numbers ids t' → next.Numbers ids' next' →
    (t.continueWith next).Numbers (ids ++ ids') (t'.continueWith next')
  /-- To build a `map` runs its function once if there is a value, and nothing otherwise. -/
  built_map : ∀ (t : Trampoline τ κ σ α) ids t' f id s j, t.Numbers ids t' → MapsOnce t ids t' f id s j

theorem sequencing : Sequencing b where
  value_first := sameRun_done b
  value_last t _ h := sameRun_value b t h
  bracketed t _ _ _ h := sameRun_assoc b t h
  mapped t f _ h := sameRun_map b t f h
  mapped_twice := sameRun_map_map b
  node := sameRun_andThen b
  node_steps := stepUpTo_continueWith b
  built _ _ _ _ _ _ ht hnext := numbers_continueWith ht hnext
  built_map _ _ _ f id s j h := mapsOnce h f id s j

end Sequencing

/-- A continuation that always hands over can be put together with the next one in the tree itself. -/
theorem counting_bracketed :
    SameRun counting (pure ((nestedToTheLeft.continueWith (.call ())).continueWith (.mapping pure)))
      (pure (nestedToTheLeft.continueWith (.compose (.call ()) (.mapping pure)))) :=
  (sequencing counting).bracketed nestedToTheLeft (.call ()) (.mapping pure) (.compose (.call ()) (.mapping pure))
    fun _ => rfl

end Trampoline

end Stepwise
