import Mathlib.Order.Filter.AtTopBot.Basic
import Stepwise.Poll
import Stepwise.Proofs.Ensures
import Stepwise.Proofs.Fuel

/-! # Polling until a computation resolves

A computation that waits is polled again later, when the rest of the world may have changed. Awaiting
it is to poll it until it resolves, with a `gap` between two polls.

* `Stage` is a poll of which only that is kept which matters: what the computation resolved to, or
  the state that waits. `Poller.stage` forgets the rest.
* `Stage.await` polls at most so many times again. The first poll may be made by another stage than the
  later ones: a poll that starts a computation has less fuel left than the polls after it.
* `Ending.Tracks`: what becomes of awaiting is what a family of computations with more and more fuel
  comes to in the end. As long as the computation waits, the family has at least come as far.
* `Attains`: with enough fuel and enough polls, awaiting comes to this ending.
* `Stage.finish` awaits without an end; `tracks_finish` and `attains_finish`.
* `Stage.await_around`: a computation around another one, with something to do before each poll.
* `Tracks.after` and `Tracks.bind`: what comes before and what comes after the awaited computation.
-/

namespace Stepwise
set_option autoImplicit false

open Filter

variable {W F G α β γ : Type}

/-- What a computation resolves to, or the misuse that stopped it. -/
abbrev Resolution (α : Type) := Except Panic (Outcome α)

/-- What an answer decides, if it is not to wait. -/
def Poll.resolution? : Poll α → Option (Resolution α)
  | .pending => none
  | .ready o => some (.ok o)
  | .panicked c => some (.error c)

/-- A poll, of which the resolution or the state that waits is kept. -/
abbrev Stage (W F α : Type) := F → Effect W (Resolution α ⊕ F)

def Poller.stage (poll : Poller W F α) : Stage W F α := fun x => do
  let (answer, x) ← poll x
  pure (match answer.resolution? with
    | some r => .inl r
    | none => .inr x)

/-- What awaiting comes to. -/
inductive Awaited (F α : Type)
  | waiting (x : F)
  | resolved (r : Resolution α) (left : Nat)

def Ending.map (f : α → β) : Ending W α → Ending W β
  | .returned a w => .returned (f a) w
  | .broken reason w => .broken reason w
  | .cut w => .cut w

@[simp] theorem Ending.world_map (f : α → β) (e : Ending W α) : (e.map f).world = e.world := by
  cases e <;> rfl

namespace Stage

/-- Go on after a poll, with at most so many polls. -/
def awaitRest (later : Stage W F α) (gap : W → W) : Nat → Resolution α ⊕ F →
    Effect W (Awaited F α)
  | m, .inl r => pure (.resolved r m)
  | 0, .inr x => pure (.waiting x)
  | m + 1, .inr x => do
    Effect.changes gap
    let s ← later x
    awaitRest later gap m s

/-- Poll once, and then at most so many times again. -/
def await (first later : Stage W F α) (gap : W → W) (m : Nat) (x : F) : Effect W (Awaited F α) := do
  let s ← first x
  later.awaitRest gap m s

/-- Poll until it resolves, as long as there is fuel for it. -/
def finish (p : Stage W F α) (gap : W → W) (fuel : Nat) (x : F) : Effect W (Resolution α) := do
  match ← p.await p gap fuel x with
  | .resolved r _ => pure r
  | .waiting _ => Effect.cut

@[simp] theorem awaitRest_inl (later : Stage W F α) (gap : W → W) (m : Nat) (r : Resolution α) :
    later.awaitRest gap m (.inl r) = pure (.resolved r m) := by
  cases m <;> rfl

theorem pure_inl_awaitRest (later : Stage W F α) (gap : W → W) (m : Nat) (r : Resolution α)
    (w : W) : ((pure (.inl r) : Effect W (Resolution α ⊕ F)) >>= later.awaitRest gap m) w =
      .returned (.resolved r m) w := by
  rw [LawfulMonad.pure_bind, awaitRest_inl]
  rfl

theorem awaitRest_succ (later : Stage W F α) (gap : W → W) (m : Nat) (x : F) (w : W) :
    later.awaitRest gap (m + 1) (.inr x) w = later.await later gap m x (gap w) := rfl

theorem await_of_inl {first : Stage W F α} (later : Stage W F α) (gap : W → W) (m : Nat) {x : F}
    {w w' : W} {r : Resolution α} (h : first x w = .returned (.inl r) w') :
    first.await later gap m x w = .returned (.resolved r m) w' := by
  rw [await, Effect.bind_of_returned _ h, awaitRest_inl]
  rfl

theorem finish_of_inl {p : Stage W F α} (gap : W → W) (m : Nat) {x : F} {w w' : W} {r : Resolution α}
    (h : p x w = .returned (.inl r) w') : p.finish gap m x w = .returned r w' :=
  Effect.bind_of_returned _ (await_of_inl p gap m h)

theorem await_of_inr {first : Stage W F α} (later : Stage W F α) (gap : W → W) (m : Nat) {x x' : F}
    {w w' : W} (h : first x w = .returned (.inr x') w') :
    first.await later gap m x w = later.awaitRest gap m (.inr x') w' := by
  rw [await, Effect.bind_of_returned _ h]

/-! ## The number of polls -/

/-- What has resolved after some polls resolves after exactly as many of them again. -/
theorem awaitRest_resolved {later : Stage W F α} {gap : W → W} {m left : Nat}
    {s : Resolution α ⊕ F} {w w' : W} {r : Resolution α}
    (h : later.awaitRest gap m s w = .returned (.resolved r left) w') :
    ∃ used, m = used + left ∧
      ∀ m', later.awaitRest gap (used + m') s w = .returned (.resolved r m') w' := by
  induction m generalizing s w with
  | zero =>
    cases s with
    | inl r' => cases h; exact ⟨0, by omega, fun m' => by rw [Nat.zero_add, awaitRest_inl]; rfl⟩
    | inr x => cases h
  | succ m ih =>
    cases s with
    | inl r' => cases h; exact ⟨0, by omega, fun m' => by rw [Nat.zero_add, awaitRest_inl]; rfl⟩
    | inr x =>
      rw [awaitRest_succ, await, Effect.bind_apply] at h
      cases hx : later x (gap w) with
      | broken reason v => rw [hx] at h; cases h
      | cut v => rw [hx] at h; cases h
      | returned s v =>
        rw [hx] at h
        obtain ⟨used, hused, hall⟩ := ih h
        refine ⟨used + 1, by omega, fun m' => ?_⟩
        have hm : used + 1 + m' = used + m' + 1 := by omega
        rw [hm, awaitRest_succ, await, Effect.bind_of_returned _ hx]
        exact hall m'

/-- What waits does not resolve without a poll. -/
theorem awaitRest_lt {later : Stage W F α} {gap : W → W} {m left : Nat} {x : F} {w w' : W}
    {r : Resolution α}
    (h : later.awaitRest gap m (.inr x) w = .returned (.resolved r left) w') : left < m := by
  obtain ⟨used, hm, hall⟩ := awaitRest_resolved h
  cases used with
  | zero => cases hall 0
  | succ used => omega

theorem awaitRest_broken {later : Stage W F α} {gap : W → W} {m : Nat} {s : Resolution α ⊕ F}
    {w w' : W} {reason : Breakdown} (h : later.awaitRest gap m s w = .broken reason w') (m' : Nat) :
    later.awaitRest gap (m + m') s w = .broken reason w' := by
  induction m generalizing s w with
  | zero =>
    cases s with
    | inl r' => cases h
    | inr x => cases h
  | succ m ih =>
    cases s with
    | inl r' => cases h
    | inr x =>
      have hm : m + 1 + m' = m + m' + 1 := by omega
      rw [awaitRest_succ, await, Effect.bind_apply] at h
      rw [hm, awaitRest_succ, await, Effect.bind_apply]
      cases hx : later x (gap w) with
      | broken reason v => rw [hx] at h; exact h
      | cut v => rw [hx] at h; cases h
      | returned s v => rw [hx] at h; exact ih h

/-- What still waits after some polls goes on from there when it is polled more often. -/
theorem awaitRest_waiting {later : Stage W F α} {gap : W → W} {m : Nat} {s : Resolution α ⊕ F}
    {w w' : W} {x : F} (h : later.awaitRest gap m s w = .returned (.waiting x) w') (m' : Nat) :
    later.awaitRest gap (m + m') s w = later.awaitRest gap m' (.inr x) w' := by
  induction m generalizing s w with
  | zero =>
    cases s with
    | inl r' => cases h
    | inr x => cases h; rw [Nat.zero_add]
  | succ m ih =>
    cases s with
    | inl r' => cases h
    | inr y =>
      have hm : m + 1 + m' = m + m' + 1 := by omega
      rw [awaitRest_succ, await, Effect.bind_apply] at h
      rw [hm, awaitRest_succ, await, Effect.bind_apply]
      cases hx : later y (gap w) with
      | broken reason v => rw [hx] at h; cases h
      | cut v => rw [hx] at h; cases h
      | returned s v => rw [hx] at h; exact ih h

theorem await_broken {p : Stage W F α} {gap : W → W} {m : Nat} {x : F} {w w' : W}
    {reason : Breakdown} (h : p.await p gap m x w = .broken reason w') (m' : Nat) :
    p.await p gap (m + m') x w = .broken reason w' := by
  rw [await, Effect.bind_apply] at h ⊢
  cases hx : p x w with
  | broken reason v => rw [hx] at h; exact h
  | cut v => rw [hx] at h; cases h
  | returned s v => rw [hx] at h; exact awaitRest_broken h m'

theorem await_waiting {p : Stage W F α} {gap : W → W} {m : Nat} {x y : F} {w w' : W}
    (h : p.await p gap m x w = .returned (.waiting y) w') (m' : Nat) :
    p.await p gap (m + m') x w = p.awaitRest gap m' (.inr y) w' := by
  rw [await, Effect.bind_apply] at h ⊢
  cases hx : p x w with
  | broken reason v => rw [hx] at h; cases h
  | cut v => rw [hx] at h; cases h
  | returned s v => rw [hx] at h; exact awaitRest_waiting h m'

theorem await_resolved {p : Stage W F α} {gap : W → W} {m left : Nat} {x : F} {w w' : W}
    {r : Resolution α} (h : p.await p gap m x w = .returned (.resolved r left) w') :
    ∃ used, m = used + left ∧
      ∀ m', p.await p gap (used + m') x w = .returned (.resolved r m') w' := by
  rw [await, Effect.bind_apply] at h
  cases hx : p x w with
  | broken reason v => rw [hx] at h; cases h
  | cut v => rw [hx] at h; cases h
  | returned s v =>
    rw [hx] at h
    obtain ⟨used, hused, hall⟩ := awaitRest_resolved h
    exact ⟨used, hused, fun m' => by rw [await, Effect.bind_of_returned _ hx, hall]⟩

end Stage

/-! ## Computations around others -/

/-- A poll of a computation around another one, after the poll of the inner one: `close` is done when
that has resolved. -/
def Stage.around (wrap : F → G) (close : Resolution α → Effect W (Resolution β)) :
    Resolution α ⊕ F → Effect W (Resolution β ⊕ G)
  | .inl r => do
    let r ← close r
    pure (.inl r)
  | .inr x => pure (.inr (wrap x))

def Awaited.around (wrap : F → G) (close : Resolution α → Effect W (Resolution β)) :
    Awaited F α → Effect W (Awaited G β)
  | .resolved r m => do
    let r ← close r
    pure (.resolved r m)
  | .waiting x => pure (.waiting (wrap x))

section Around

variable {first later : Stage W F α} {first' later' : Stage W G β} {wrap : F → G}
  {close : Resolution α → Effect W (Resolution β)} {opening gap : W → W}

theorem Stage.awaitRest_around
    (hlater : ∀ x w, later' (wrap x) w = (later x >>= Stage.around wrap close) (opening w))
    (m : Nat) (s : Resolution α ⊕ F) :
    (Stage.around wrap close s >>= later'.awaitRest gap m) =
      later.awaitRest (fun w => opening (gap w)) m s >>= Awaited.around wrap close := by
  induction m generalizing s with
  | zero =>
    cases s with
    | inl r => simp only [Stage.around, Stage.awaitRest_inl, bind_assoc]; rfl
    | inr x => rfl
  | succ m ih =>
    cases s with
    | inl r => simp only [Stage.around, Stage.awaitRest_inl, bind_assoc]; rfl
    | inr x =>
      funext w
      calc (Stage.around wrap close (.inr x) >>= later'.awaitRest gap (m + 1)) w
          = (later' (wrap x) >>= later'.awaitRest gap m) (gap w) := rfl
        _ = (later x >>= Stage.around wrap close >>= later'.awaitRest gap m)
              (opening (gap w)) := Effect.bind_of_eq _ (hlater x (gap w))
        _ = (later x >>= fun s => later.awaitRest (fun w => opening (gap w)) m s >>=
              Awaited.around wrap close) (opening (gap w)) := by simp only [bind_assoc, ih]
        _ = (later.awaitRest (fun w => opening (gap w)) (m + 1) (.inr x) >>=
              Awaited.around wrap close) w := by rw [← bind_assoc]; rfl

/-- To await a computation around another one is to await the inner one. -/
theorem Stage.await_around
    (hfirst : ∀ x w, first' (wrap x) w = (first x >>= Stage.around wrap close) (opening w))
    (hlater : ∀ x w, later' (wrap x) w = (later x >>= Stage.around wrap close) (opening w))
    (m : Nat) (x : F) (w : W) :
    first'.await later' gap m (wrap x) w =
      (first.await later (fun w => opening (gap w)) m x >>= Awaited.around wrap close)
        (opening w) := by
  calc (first' (wrap x) >>= later'.awaitRest gap m) w
      = (first x >>= Stage.around wrap close >>= later'.awaitRest gap m) (opening w) :=
        Effect.bind_of_eq _ (hfirst x w)
    _ = (first x >>= fun s => later.awaitRest (fun w => opening (gap w)) m s >>=
          Awaited.around wrap close) (opening w) := by
        simp only [bind_assoc, Stage.awaitRest_around hlater]
    _ = (first.await later (fun w => opening (gap w)) m x >>= Awaited.around wrap close)
          (opening w) := by rw [← bind_assoc]; rfl

end Around

/-! ## The same computation in another form -/

/-- The same result with the waiting state in another form. -/
def Awaited.view (view : F → G) : Awaited F α → Awaited G α
  | .waiting x => .waiting (view x)
  | .resolved r m => .resolved r m

section View

variable {first later : Stage W F α} {first' later' : Stage W G α} {view : F → G}
  {valid : F → Prop} {gap : W → W}

theorem Stage.awaitRest_view
    (hlater : ∀ x, valid x → (later x >>= fun s => pure (s.map id view)) = later' (view x))
    (hvalid : ∀ x w x' w', valid x → later x w = .returned (.inr x') w' → valid x') (m : Nat)
    (s : Resolution α ⊕ F) (hs : ∀ x, s = .inr x → valid x) (w : W) :
    ((later.awaitRest gap m s w).map (Awaited.view view)) =
      later'.awaitRest gap m (s.map id view) w := by
  induction m generalizing s w with
  | zero => cases s <;> rfl
  | succ m ih =>
    cases s with
    | inl r => rfl
    | inr x =>
      have hx := hs x rfl
      change ((later x >>= later.awaitRest gap m) (gap w)).map _ =
        (later' (view x) >>= later'.awaitRest gap m) (gap w)
      rw [← hlater x hx, bind_assoc]
      cases hr : later x (gap w) with
      | broken reason v => rw [Effect.bind_of_broken _ hr, Effect.bind_of_broken _ hr]; rfl
      | cut v => rw [Effect.bind_of_cut _ hr, Effect.bind_of_cut _ hr]; rfl
      | returned s v =>
        rw [Effect.bind_of_returned _ hr, Effect.bind_of_returned _ hr]
        exact ih s (fun y hy => hvalid x (gap w) y v hx (by rw [hr, hy])) v

/-- Awaiting does not depend on the form of the states, as long as they are valid. -/
theorem Stage.await_view (valid : F → Prop)
    (hfirst : ∀ x, valid x → (first x >>= fun s => pure (s.map id view)) = first' (view x))
    (hvalid₀ : ∀ x w x' w', valid x → first x w = .returned (.inr x') w' → valid x')
    (hlater : ∀ x, valid x → (later x >>= fun s => pure (s.map id view)) = later' (view x))
    (hvalid : ∀ x w x' w', valid x → later x w = .returned (.inr x') w' → valid x') (m : Nat)
    {x : F} (hx : valid x) (w : W) :
    (first.await later gap m x w).map (Awaited.view view) =
      first'.await later' gap m (view x) w := by
  change ((first x >>= later.awaitRest gap m) w).map _ =
    (first' (view x) >>= later'.awaitRest gap m) w
  rw [← hfirst x hx, bind_assoc]
  cases hr : first x w with
  | broken reason v => rw [Effect.bind_of_broken _ hr, Effect.bind_of_broken _ hr]; rfl
  | cut v => rw [Effect.bind_of_cut _ hr, Effect.bind_of_cut _ hr]; rfl
  | returned s v =>
    rw [Effect.bind_of_returned _ hr, Effect.bind_of_returned _ hr]
    exact Stage.awaitRest_view hlater hvalid m s
      (fun y hy => hvalid₀ x w y v hx (by rw [hr, hy])) v

end View

theorem Ending.map_view_eq (view : F → G) {e : Ending W (Awaited F α)}
    {e' : Ending W (Resolution α)} {m : Nat} (h : e.map (Awaited.view view) = e'.map (.resolved · m)) :
    e = e'.map (.resolved · m) := by
  cases e with
  | returned a w =>
    cases e' with
    | returned r v =>
      cases a with
      | waiting x => cases h
      | resolved r' m' => cases h; rfl
    | _ => cases h
  | broken reason w => cases e' <;> cases h; rfl
  | cut w => cases e' <;> cases h; rfl

/-! ## In the end -/

/-- What has become of the awaited computation is what the family comes to in the end; while it waits,
the worlds of the family have come at least as far. -/
def Ending.Tracks (R : W → W → Prop) : Ending W (Awaited F α) → (Nat → Ending W (Resolution α)) →
    Prop
  | .returned (.resolved r _) w, f => ∀ᶠ N in atTop, f N = .returned r w
  | .returned (.waiting _) w, f => ∀ᶠ N in atTop, R w (f N).world
  | .broken reason w, f => ∀ᶠ N in atTop, f N = .broken reason w
  | .cut _, _ => True

/-- With enough fuel and enough polls, awaiting the computation comes to this ending. -/
def Attains (p : Nat → Stage W F α) (gap : W → W) (x : F) (w : W) (e : Ending W (Resolution α)) :
    Prop :=
  e.isCut = false → ∃ k used, ∀ n₀, k ≤ n₀ → ∀ n, k ≤ n → ∀ m,
    (p n₀).await (p n) gap (used + m) x w = e.map (.resolved · m)

theorem eventually_of_succ {P : Nat → Prop} (h : ∀ᶠ N in atTop, P (N + 1)) : ∀ᶠ N in atTop, P N := by
  obtain ⟨k, hk⟩ := eventually_atTop.1 h
  refine eventually_atTop.2 ⟨k + 1, fun N hN => ?_⟩
  obtain ⟨N, rfl⟩ : ∃ N', N = N' + 1 := ⟨N - 1, by omega⟩
  exact hk N (by omega)

theorem eventually_succ {P : Nat → Prop} (h : ∀ᶠ N in atTop, P N) : ∀ᶠ N in atTop, P (N + 1) := by
  obtain ⟨k, hk⟩ := eventually_atTop.1 h
  exact eventually_atTop.2 ⟨k, fun N hN => hk (N + 1) (by omega)⟩

namespace Ending.Tracks

variable {R : W → W → Prop} {f g : Nat → Ending W (Resolution α)}

theorem congr {e : Ending W (Awaited F α)} (h : e.Tracks R f) (hfg : ∀ᶠ N in atTop, g N = f N) :
    e.Tracks R g := by
  cases e with
  | returned a w =>
    cases a with
    | resolved r left =>
      filter_upwards [show ∀ᶠ N in atTop, f N = .returned r w from h, hfg] with N hN hg
      rw [hg, hN]
    | waiting x =>
      filter_upwards [show ∀ᶠ N in atTop, R w (f N).world from h, hfg] with N hN hg
      rw [hg]
      exact hN
  | broken reason w =>
    filter_upwards [show ∀ᶠ N in atTop, f N = .broken reason w from h, hfg] with N hN hg
    rw [hg, hN]
  | cut w => trivial

theorem of_view (view : F → G) {e : Ending W (Awaited F α)}
    (h : (e.map (Awaited.view view)).Tracks R f) : e.Tracks R f := by
  cases e with
  | returned a w => cases a <;> exact h
  | broken reason w => exact h
  | cut w => trivial

/-- A finite delay of the family does not matter. -/
theorem of_succ {e : Ending W (Awaited F α)} (h : e.Tracks R fun N => f (N + 1)) :
    e.Tracks R f := by
  cases e with
  | returned a w =>
    cases a with
    | resolved r left => exact eventually_of_succ h
    | waiting x => exact eventually_of_succ h
  | broken reason w => exact eventually_of_succ h
  | cut w => trivial

theorem succ {e : Ending W (Awaited F α)} (h : e.Tracks R f) : e.Tracks R fun N => f (N + 1) := by
  cases e with
  | returned a w =>
    cases a with
    | resolved r left => exact eventually_succ h
    | waiting x => exact eventually_succ h
  | broken reason w => exact eventually_succ h
  | cut w => trivial

/-- What comes first, in the family with more fuel, makes no difference. -/
theorem after {A : Type} {m : Effect W A} {ms : Nat → Effect W A} {k : A → Effect W (Awaited F α)}
    {ks : Nat → A → Effect W (Resolution α)} {w : W} (hm : ∀ᶠ N in atTop, m.Below (ms N))
    (hk : ∀ a v, (k a v).Tracks R fun N => ks N a v) :
    ((m >>= k) w).Tracks R fun N => (ms N >>= ks N) w := by
  cases h : m w with
  | cut v => rw [Effect.bind_of_cut _ h]; trivial
  | broken reason v =>
    rw [Effect.bind_of_broken _ h]
    filter_upwards [hm] with N hN
    exact Effect.bind_of_broken _ (hN.of_broken h)
  | returned a v =>
    rw [Effect.bind_of_returned _ h]
    refine (hk a v).congr ?_
    filter_upwards [hm] with N hN
    exact Effect.bind_of_returned _ (hN.of_returned h)

/-- What follows when the awaited computation has resolved follows in the family. -/
theorem bind {m : Effect W (Awaited F α)} {q : Nat → Effect W (Resolution α)} {w : W}
    {k : Awaited F α → Effect W (Awaited G β)} {close : Nat → Resolution α → Effect W (Resolution β)}
    [Std.Refl R] [Trans R R R] (wrap : F → G) (hwaiting : ∀ x, k (.waiting x) = pure (.waiting (wrap x)))
    (hclose : ∀ N r, Effect.Keeps R (close N r)) (h : (m w).Tracks R fun N => q N w)
    (hresolved : ∀ r left v, m w = .returned (.resolved r left) v →
      (k (.resolved r left) v).Tracks R fun N => close N r v) :
    ((m >>= k) w).Tracks R fun N => (q N >>= close N) w := by
  cases hm : m w with
  | cut v => rw [Effect.bind_of_cut _ hm]; trivial
  | broken reason v =>
    rw [hm] at h
    rw [Effect.bind_of_broken _ hm]
    filter_upwards [show ∀ᶠ N in atTop, q N w = .broken reason v from h] with N hN
    exact Effect.bind_of_broken _ hN
  | returned a v =>
    rw [hm] at h
    rw [Effect.bind_of_returned _ hm]
    cases a with
    | waiting x =>
      rw [hwaiting]
      refine (show ∀ᶠ N in atTop, R v (q N w).world from h).mono fun N hN => ?_
      exact Trans.trans hN (Effect.Keeps.after (hclose N) w)
    | resolved r left =>
      refine (hresolved r left v hm).congr ?_
      filter_upwards [show ∀ᶠ N in atTop, q N w = .returned r v from h] with N hN
      exact Effect.bind_of_returned _ hN

theorem around {m : Effect W (Awaited F α)} {q : Nat → Effect W (Resolution α)} {w : W}
    {close : Resolution α → Effect W (Resolution β)} [Std.Refl R] [Trans R R R] (wrap : F → G)
    (hclose : ∀ r, Effect.Keeps R (close r)) (h : (m w).Tracks R fun N => q N w) :
    ((m >>= Awaited.around wrap close) w).Tracks R fun N => (q N >>= close) w := by
  refine bind wrap (fun _ => rfl) (fun _ => hclose) h fun r left v _ => ?_
  change ((close r >>= fun r => pure (.resolved r left)) v).Tracks R fun _ => close r v
  rw [Effect.bind_apply]
  cases close r v with
  | returned r v => exact .of_forall fun _ => rfl
  | broken reason v => exact .of_forall fun _ => rfl
  | cut v => trivial

end Ending.Tracks

/-- What awaiting the inner computation tracks, the computation around it tracks. -/
theorem Stage.tracks_around {R : W → W → Prop} [Std.Refl R] [Trans R R R]
    {first later : Stage W F α} {first' later' : Stage W G β} {wrap : F → G}
    {close : Resolution α → Effect W (Resolution β)} (opening : W → W) {gap : W → W}
    {q : Nat → Effect W (Resolution α)}
    (hfirst : ∀ x w, first' (wrap x) w = (first x >>= Stage.around wrap close) (opening w))
    (hlater : ∀ x w, later' (wrap x) w = (later x >>= Stage.around wrap close) (opening w))
    (hclose : ∀ r, Effect.Keeps R (close r)) {m : Nat} {x : F} {w : W}
    (h : (first.await later (fun w => opening (gap w)) m x (opening w)).Tracks R
      fun N => q N (opening w)) :
    (first'.await later' gap m (wrap x) w).Tracks R fun N => (q N >>= close) (opening w) := by
  rw [Stage.await_around hfirst hlater]
  exact h.around wrap hclose

theorem Attains.of_succ {p : Nat → Stage W F α} {gap : W → W} {x : F} {w : W}
    {e : Ending W (Resolution α)} (h : Attains (fun n => p (n + 1)) gap x w e) :
    Attains p gap x w e := by
  intro hcut
  obtain ⟨k, used, hall⟩ := h hcut
  refine ⟨k + 1, used, fun n₀ hn₀ n hn m => ?_⟩
  obtain ⟨n₀, rfl⟩ : ∃ n', n₀ = n' + 1 := ⟨n₀ - 1, by omega⟩
  obtain ⟨n, rfl⟩ : ∃ n', n = n' + 1 := ⟨n - 1, by omega⟩
  exact hall n₀ (by omega) n (by omega) m

theorem Attains.around {p : Nat → Stage W F α} {p' : Nat → Stage W G β} (wrap : F → G)
    (close : Resolution α → Effect W (Resolution β)) (opening gap : W → W) {x : F} {w : W}
    {q : Effect W (Resolution α)}
    (hp : ∀ n x w, p' n (wrap x) w = (p n x >>= Stage.around wrap close) (opening w))
    (h : Attains p (fun w => opening (gap w)) x (opening w) (q (opening w))) :
    Attains p' gap (wrap x) w ((q >>= close) (opening w)) := by
  intro hcut
  cases hq : q (opening w) with
  | cut v => rw [Effect.bind_of_cut _ hq] at hcut; cases hcut
  | broken reason v =>
    rw [hq] at h
    obtain ⟨k, used, hall⟩ := h rfl
    refine ⟨k, used, fun n₀ hn₀ n hn m => ?_⟩
    rw [Stage.await_around (hp n₀) (hp n), Effect.bind_of_broken _ (hall n₀ hn₀ n hn m),
      Effect.bind_of_broken _ hq]
    rfl
  | returned r v =>
    rw [hq] at h
    obtain ⟨k, used, hall⟩ := h rfl
    refine ⟨k, used, fun n₀ hn₀ n hn m => ?_⟩
    rw [Stage.await_around (hp n₀) (hp n), Effect.bind_of_returned _ (hall n₀ hn₀ n hn m),
      Effect.bind_of_returned _ hq]
    have hclosed : (Awaited.around wrap close (.resolved r m)) v =
      (close r >>= fun r => pure (.resolved r m)) v := rfl
    rw [Effect.bind_of_returned _ hq] at hcut
    rw [hclosed, Effect.bind_apply]
    cases hr : close r v with
    | returned r v => rfl
    | broken reason v => rfl
    | cut v => rw [hr] at hcut; cases hcut

section Finish

variable {p : Stage W F α} {gap : W → W} {R : W → W → Prop}

theorem Stage.keeps_awaitRest [Std.Refl R] [Trans R R R] (hp : ∀ x, Effect.Keeps R (p x))
    (hgap : ∀ w, R w (gap w)) (m : Nat) (s : Resolution α ⊕ F) :
    Effect.Keeps R (p.awaitRest gap m s) := by
  induction m generalizing s with
  | zero =>
    cases s with
    | inl r => rw [Stage.awaitRest_inl]; exact Effect.Keeps.pure _
    | inr x => exact Effect.Keeps.pure _
  | succ m ih =>
    cases s with
    | inl r => rw [Stage.awaitRest_inl]; exact Effect.Keeps.pure _
    | inr x => exact Effect.Keeps.bind hgap fun _ => (hp x).bind ih

theorem Stage.keeps_finish [Std.Refl R] [Trans R R R] (hp : ∀ x, Effect.Keeps R (p x))
    (hgap : ∀ w, R w (gap w)) (fuel : Nat) (x : F) : Effect.Keeps R (p.finish gap fuel x) := by
  refine ((hp x).bind (Stage.keeps_awaitRest hp hgap fuel)).bind fun a => ?_
  cases a with
  | resolved r left => exact Effect.Keeps.pure r
  | waiting x => exact Effect.Keeps.cut

theorem Stage.finish_below {n n' : Nat} (hn : n ≤ n') (x : F) :
    (p.finish gap n x).Below (p.finish gap n' x) := by
  intro w hcut
  cases h : p.await p gap n x w with
  | cut v => rw [Stage.finish, Effect.bind_of_cut _ h] at hcut; exact nomatch hcut
  | broken reason v =>
    obtain ⟨d, rfl⟩ := Nat.exists_eq_add_of_le hn
    rw [Stage.finish, Stage.finish, Effect.bind_of_broken _ h,
      Effect.bind_of_broken _ (Stage.await_broken h d)]
  | returned a v =>
    cases a with
    | waiting y => rw [Stage.finish, Effect.bind_of_returned _ h] at hcut; exact nomatch hcut
    | resolved r left =>
      obtain ⟨used, hused, hall⟩ := Stage.await_resolved h
      obtain ⟨d, rfl⟩ : ∃ d, n' = used + d := ⟨n' - used, by omega⟩
      rw [Stage.finish, Stage.finish, Effect.bind_of_returned _ h,
        Effect.bind_of_returned _ (hall d)]

/-- Whatever becomes of awaiting, to go on until the end comes to the same. -/
theorem Stage.tracks_finish [Std.Refl R] [Trans R R R] (hp : ∀ x, Effect.Keeps R (p x))
    (hgap : ∀ w, R w (gap w)) (m : Nat) (x : F) (w : W) :
    (p.await p gap m x w).Tracks R fun N => p.finish gap N x w := by
  cases h : p.await p gap m x w with
  | cut v => trivial
  | broken reason v =>
    refine eventually_atTop.2 ⟨m, fun N hN => ?_⟩
    obtain ⟨d, rfl⟩ := Nat.exists_eq_add_of_le hN
    exact Effect.bind_of_broken _ (Stage.await_broken h d)
  | returned a v =>
    cases a with
    | resolved r left =>
      obtain ⟨used, hm, hall⟩ := Stage.await_resolved h
      refine eventually_atTop.2 ⟨used, fun N hN => ?_⟩
      obtain ⟨d, rfl⟩ := Nat.exists_eq_add_of_le hN
      exact Effect.bind_of_returned _ (hall d)
    | waiting y =>
      refine eventually_atTop.2 ⟨m, fun N hN => ?_⟩
      obtain ⟨d, rfl⟩ := Nat.exists_eq_add_of_le hN
      have hend : p.finish gap (m + d) x w = _ := Effect.bind_of_eq _ (Stage.await_waiting h d)
      change R v (p.finish gap (m + d) x w).world
      rw [hend]
      refine (Stage.keeps_awaitRest hp hgap d (.inr y)).bind (fun a => ?_) v
      cases a with
      | resolved r left => exact Effect.Keeps.pure r
      | waiting x => exact Effect.Keeps.cut

theorem Stage.attains_finish (fuel : Nat) (x : F) (w : W) :
    Attains (fun _ => p) gap x w (p.finish gap fuel x w) := by
  intro hcut
  cases h : p.await p gap fuel x w with
  | cut v => rw [Stage.finish, Effect.bind_of_cut _ h] at hcut; cases hcut
  | broken reason v =>
    rw [Stage.finish, Effect.bind_of_broken _ h]
    exact ⟨0, fuel, fun _ _ _ _ m => Stage.await_broken h m⟩
  | returned a v =>
    cases a with
    | waiting y => rw [Stage.finish, Effect.bind_of_returned _ h] at hcut; cases hcut
    | resolved r left =>
      rw [Stage.finish, Effect.bind_of_returned _ h]
      obtain ⟨used, -, hall⟩ := Stage.await_resolved h
      exact ⟨0, used, fun _ _ _ _ m => hall m⟩

end Finish

end Stepwise
