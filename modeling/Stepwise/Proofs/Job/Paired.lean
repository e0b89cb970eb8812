import Stepwise.Proofs.Paired
import Stepwise.Proofs.Job.Course

/-! # Jobs side by side

The same job on two sides that differ only in what their steps do; the two sides may have different worlds
and different steps. The private state of a step on either side is made from the same thing `κ`, by `left`
and by `right`.

* `Kit.Paired`: source and filter do the same on both sides, and a call of the step gives two steps in
  `J`. `Kit.PairedOn` asks this only of filters in `K`.
* `Job.start_paired`: then both sides make the same job (`Job.Started`). It has at most one step, which
  was requested when the job was made. `Job.start_fresh` also says that it has its filter in `K`, and that both
  sides have found something to run over or neither has.
* `Job.finish_paired`: if carrying a step through on the left comes to what one poll on the right gives,
  so it is with the jobs.
-/

namespace Stepwise
set_option autoImplicit false

variable {W V I α P G κ F F' β : Type}

/-! ## Places with another consumer -/

def Walk.mapConsumer (f : κ → G) (p : Walk I P κ) : Walk I P G where
  source := p.source
  filter := p.filter
  consumer := f p.consumer
  index := p.index

def RangeWalk.mapConsumer (f : κ → G) (p : RangeWalk P κ) : RangeWalk P G where
  current := p.current
  stop := p.stop
  filter := p.filter
  consumer := f p.consumer

def Job.Rest.mapConsumer (f : κ → G) : Job.Rest I α P κ → Job.Rest I α P G
  | .iterate form c => .iterate form (c.mapConsumer f)
  | .list form c => .list form (c.mapConsumer f)
  | .range filtered c => .range filtered (c.mapConsumer f)
  | .chain g elements => .chain (f g) elements
  | .sum s c => .sum s (c.mapConsumer f)
  | .sumList s c => .sumList s (c.mapConsumer f)
  | .sumRange s c => .sumRange s (c.mapConsumer f)
  | .several c => .several (c.mapConsumer f)
  | .drive g => .drive (f g)
  | .last total => .last total

theorem Job.Rest.mapConsumer_id (rest : Job.Rest I α P G) : rest.mapConsumer id = rest := by
  cases rest <;> rfl

/-- The filter of the loop, if it has one, is in `K`. -/
def Job.Rest.Filters (K : P → Prop) : Job.Rest I α P κ → Prop
  | .iterate _ c => K c.filter
  | .list _ c => K c.filter
  | .range _ c => K c.filter
  | _ => True

theorem Job.Rest.filters_all (rest : Job.Rest I α P κ) : rest.Filters fun _ => True := by
  cases rest <;> trivial

theorem Job.course_along (isTrue : β → Bool) (summand : β → Int32) (f : κ → G) :
    (course isTrue summand : Course (Rest I α P κ) β _).Along
      (course isTrue summand : Course (Rest I α P G) β _) (Rest.mapConsumer f) where
  absorb c b := by
    cases c with
    | chain g elements => cases elements <;> rfl
    | drive g =>
      change (if isTrue b then _ else _) = Option.map _ (if isTrue b then _ else _)
      cases isTrue b <;> rfl
    | _ => rfl
  total c := by cases c <;> rfl

/-! ## Finding steps -/

/-- Two steps that were requested, with what is left of the consumers. -/
def Requested (J : F → F' → W → V → Prop) (left right : κ → G) : F × G → F' × G → W → V → Prop :=
  fun a b w v => J a.1 b.1 w v ∧ ∃ c, a.2 = left c ∧ b.2 = right c

/-- The two kits differ only in what their steps do. -/
structure Kit.Paired (R : Nat → W → V → Prop) (J : F → F' → W → V → Prop) (left right : κ → G)
    (k : Kit W I α P G F β) (k' : Kit V I α P G F' β) : Prop where
  next : ∀ source, Effect.Paired R (Same R) (k.next source) (k'.next source)
  test : ∀ p call, Effect.Paired R (Same R) (k.test p call) (k'.test p call)
  step : ∀ c call, Effect.Paired R (Requested J left right) (k.step (left c) call)
    (k'.step (right c) call)
  isTrue : k.isTrue = k'.isTrue
  summand : k.summand = k'.summand

/-- The same verdict on both sides, and the same filter after it, which is in `K`. -/
def Judged (K : P → Prop) (R : Nat → W → V → Prop) : Outcome Bool × P → Outcome Bool × P → W → V → Prop :=
  fun a b w v => a = b ∧ K a.2 ∧ R 0 w v

/-- The two kits differ only in what their steps do, as long as their filters are in `K`. -/
structure Kit.PairedOn (K : P → Prop) (R : Nat → W → V → Prop) (J : F → F' → W → V → Prop)
    (left right : κ → G) (k : Kit W I α P G F β) (k' : Kit V I α P G F' β) : Prop where
  next : ∀ source, Effect.Paired R (Same R) (k.next source) (k'.next source)
  test : ∀ p, K p → ∀ call, Effect.Paired R (Judged K R) (k.test p call) (k'.test p call)
  step : ∀ c call, Effect.Paired R (Requested J left right) (k.step (left c) call)
    (k'.step (right c) call)
  isTrue : k.isTrue = k'.isTrue
  summand : k.summand = k'.summand

theorem Kit.Paired.on {R : Nat → W → V → Prop} {J : F → F' → W → V → Prop} {left right : κ → G}
    {k : Kit W I α P G F β} {k' : Kit V I α P G F' β} (hk : k.Paired R J left right k') :
    k.PairedOn (fun _ => True) R J left right k' where
  next := hk.next
  test p _ call := (hk.test p call).imp fun h => ⟨h.1, trivial, h.2⟩
  step := hk.step
  isTrue := hk.isTrue
  summand := hk.summand

section Finding

variable {K : P → Prop} {R : Nat → W → V → Prop} {J : F → F' → W → V → Prop} {left right : κ → G}

theorem Walk.next_paired {b : Scan W I α P G F} {b' : Scan V I α P G F'}
    (hnext : ∀ source, Effect.Paired R (Same R) (b.next source) (b'.next source))
    (htest : ∀ p, K p → ∀ x i, Effect.Paired R (Judged K R) (b.test p x i) (b'.test p x i))
    (hstep : ∀ c x i, Effect.Paired R (Requested J left right) (b.step (left c) x i)
      (b'.step (right c) x i)) (n : Nat) {p : Walk I P κ} (hp : K p.filter) :
    Effect.Paired R
      (Found.PairedIn (fun c => K c.filter) R J (Walk.mapConsumer left) (Walk.mapConsumer right))
      (Walk.next b n (p.mapConsumer left)) (Walk.next b' n (p.mapConsumer right)) := by
  induction n generalizing p with
  | zero => exact Effect.Paired.cut
  | succ n ih =>
    refine (hnext p.source).bind_same fun r => ?_
    obtain ⟨entry, source⟩ := r
    cases entry with
    | none => exact Effect.Paired.pure fun w v h => ⟨h, { p with source }, hp, rfl, rfl⟩
    | some x =>
      refine (htest p.filter hp x p.index).bind fun a b w v hab => ?_
      obtain ⟨verdict, filter⟩ := a
      obtain ⟨rfl, hfilter, hR⟩ := hab
      cases verdict with
      | error e => exact ⟨⟨rfl, hR⟩, { p with source, filter, index := p.index + 1 }, hfilter, rfl, rfl⟩
      | ok accepted =>
        cases accepted with
        | false => exact ih (p := { p with source, filter, index := p.index + 1 }) hfilter w v hR
        | true =>
          refine (hstep p.consumer x p.index w v hR).bind fun a b w v h => ?_
          obtain ⟨y, g⟩ := a
          obtain ⟨y', g'⟩ := b
          obtain ⟨hJ, c, hg, hg'⟩ := h
          cases hg
          cases hg'
          exact ⟨hJ, { source, filter, index := p.index + 1, consumer := c }, hfilter, rfl, rfl⟩

theorem RangeWalk.next_paired {b : RangeScan W P G F} {b' : RangeScan V P G F'}
    (htest : ∀ p, K p → ∀ i, Effect.Paired R (Judged K R) (b.test p i) (b'.test p i))
    (hstep : ∀ c i, Effect.Paired R (Requested J left right) (b.step (left c) i)
      (b'.step (right c) i)) {p : RangeWalk P κ} (hp : K p.filter) :
    Effect.Paired R
      (Found.PairedIn (fun c => K c.filter) R J (RangeWalk.mapConsumer left) (RangeWalk.mapConsumer right))
      ((p.mapConsumer left).next b) ((p.mapConsumer right).next b') := by
  change Effect.Paired R _ ((p.mapConsumer left).scan b p.remaining)
    ((p.mapConsumer right).scan b' p.remaining)
  induction p.remaining generalizing p with
  | zero => exact Effect.Paired.pure fun w v h => ⟨h, p, hp, rfl, rfl⟩
  | succ n ih =>
    refine (htest p.filter hp p.current).bind fun a b w v hab => ?_
    obtain ⟨verdict, filter⟩ := a
    obtain ⟨rfl, hfilter, hR⟩ := hab
    cases verdict with
    | error e => exact ⟨⟨rfl, hR⟩, { p with current := p.current + 1, filter }, hfilter, rfl, rfl⟩
    | ok accepted =>
      cases accepted with
      | false => exact ih (p := { p with current := p.current + 1, filter }) hfilter w v hR
      | true =>
        refine (hstep p.consumer p.current w v hR).bind fun a b w v h => ?_
        obtain ⟨y, g⟩ := a
        obtain ⟨y', g'⟩ := b
        obtain ⟨hJ, c, hg, hg'⟩ := h
        cases hg
        cases hg'
        exact ⟨hJ, { p with current := p.current + 1, filter, consumer := c }, hfilter, rfl, rfl⟩

theorem Next.ofList_paired (elements : List α) :
    Effect.Paired R (Same R) (Next.ofList elements : Effect W _) (Next.ofList elements : Effect V _) := by
  cases elements with
  | nil => exact Effect.Paired.pure_same _
  | cons x rest => exact Effect.Paired.pure_same _

theorem Lookahead.next_paired {next : Next W I α} {next' : Next V I α}
    (h : ∀ source, Effect.Paired R (Same R) (next source) (next' source)) (a : Lookahead I α) :
    Effect.Paired R (Same R) (Lookahead.next next a) (Lookahead.next next' a) := by
  rw [Lookahead.next, Lookahead.next]
  cases a.seen with
  | some x => exact Effect.Paired.pure_same _
  | none => exact (h a.source).bind_same fun r => Effect.Paired.pure_same _

theorem Lookahead.peek_paired {next : Next W I α} {next' : Next V I α}
    (h : ∀ source, Effect.Paired R (Same R) (next source) (next' source)) (a : Lookahead I α) :
    Effect.Paired R (Same R) (Lookahead.peek next a) (Lookahead.peek next' a) := by
  rw [Lookahead.peek, Lookahead.peek]
  cases a.seen with
  | some x => exact Effect.Paired.pure_same _
  | none => exact (h a.source).bind_same fun r => Effect.Paired.pure_same _

/-- Two walks at sources in `X`, with the same consumer and at the same element. -/
def Walk.Level {I' P' : Type} (X : I → I' → Prop) (c : Walk I P G) (c' : Walk I' P' G) : Prop :=
  X c.source c'.source ∧ c.consumer = c'.consumer ∧ c.index = c'.index

/-- Two walks that accept every element. Their filters do not matter. -/
theorem Walk.next_accepting_paired {I' P' : Type} {X : I → I' → Prop} {b : Scan W I α P G F}
    {b' : Scan V I' α P' G F'} (haccept : ∀ p x i, b.test p x i = pure (.ok true, p))
    (haccept' : ∀ p x i, b'.test p x i = pure (.ok true, p))
    (hnext : ∀ source source', X source source' →
      Effect.Paired R (fun r r' w v => r.1 = r'.1 ∧ X r.2 r'.2 ∧ R 0 w v) (b.next source) (b'.next source'))
    (hstep : ∀ g x i, Effect.Paired R (Requested J id id) (b.step g x i) (b'.step g x i)) (n : Nat)
    {c : Walk I P G} {c' : Walk I' P' G} (h : c.Level X c') :
    Effect.Paired R (fun a a' w v => Found.Paired R J a.1 a'.1 w v ∧ a.2.Level X a'.2) (Walk.next b n c)
      (Walk.next b' n c') := by
  obtain ⟨hsource, hconsumer, hindex⟩ := h
  cases n with
  | zero => exact Effect.Paired.cut
  | succ n =>
    refine (hnext c.source c'.source hsource).bind fun r r' w v hr => ?_
    obtain ⟨entry, source⟩ := r
    obtain ⟨entry', source'⟩ := r'
    obtain ⟨rfl, hX, hR⟩ := hr
    cases entry with
    | none => exact ⟨hR, hX, hconsumer, hindex⟩
    | some x =>
      simp only [haccept, haccept', pure_bind, ← hconsumer, ← hindex]
      refine (hstep c.consumer x c.index w v hR).bind fun a a' w v ha => ?_
      obtain ⟨hJ, g, hg, hg'⟩ := ha
      exact ⟨hJ, hX, hg.trans hg'.symm, rfl⟩

theorem Job.located_paired {C D : Type} {E : D → Prop} {l r : D → C} (locate : C → Rest I α P G)
    (locate₀ : D → Rest I α P κ) (hl : ∀ c, locate (l c) = (locate₀ c).mapConsumer left)
    (hr : ∀ c, locate (r c) = (locate₀ c).mapConsumer right) (hE : ∀ c, E c → (locate₀ c).Filters K)
    {m : Effect W (Found F × C)} {m' : Effect V (Found F' × C)}
    (h : Effect.Paired R (Found.PairedIn E R J l r) m m') :
    Effect.Paired R (Found.PairedIn (Rest.Filters K) R J (Rest.mapConsumer left) (Rest.mapConsumer right))
      (located locate m) (located locate m') := by
  refine h.bind fun a b w v hab => ?_
  obtain ⟨found, c₁⟩ := a
  obtain ⟨found', c₂⟩ := b
  obtain ⟨hfound, c, hc, hc₁, hc₂⟩ := hab
  cases hc₁
  cases hc₂
  exact ⟨hfound, locate₀ c, hE c hc, hl c, hr c⟩

variable {k : Kit W I α P G F β} {k' : Kit V I α P G F' β}

theorem Kit.PairedOn.test_scan {S : Type} (hk : k.PairedOn K R J left right k') (form : Form)
    (next : Next W S α) (next' : Next V S α) (p : P) (hp : K p) (x : α) (i : Nat) :
    Effect.Paired R (Judged K R) ((k.scan form next).test p x i) ((k'.scan form next').test p x i) := by
  simp only [Kit.scan]
  cases form.test with
  | none => exact Effect.Paired.pure fun w v h => ⟨rfl, hp, h⟩
  | some arguments => exact hk.test p hp _

theorem Kit.PairedOn.test_rangeScan (hk : k.PairedOn K R J left right k') (filtered : Bool) (p : P)
    (hp : K p) (i : Int32) :
    Effect.Paired R (Judged K R) ((k.rangeScan filtered).test p i) ((k'.rangeScan filtered).test p i) := by
  simp only [Kit.rangeScan]
  cases filtered with
  | true => exact hk.test p hp _
  | false => exact Effect.Paired.pure fun w v h => ⟨rfl, hp, h⟩

theorem Kit.PairedOn.request (hk : k.PairedOn K R J left right k') (c : κ) (call : Call α)
    (locate : G → Job.Rest I α P G) (locate₀ : κ → Job.Rest I α P κ)
    (hl : ∀ c, locate (left c) = (locate₀ c).mapConsumer left)
    (hr : ∀ c, locate (right c) = (locate₀ c).mapConsumer right) (hK : ∀ c, (locate₀ c).Filters K) :
    Effect.Paired R
      (Found.PairedIn (Job.Rest.Filters K) R J (Job.Rest.mapConsumer left) (Job.Rest.mapConsumer right))
      (k.step (left c) call >>= fun a => pure (.step a.1, locate a.2))
      (k'.step (right c) call >>= fun b => pure (.step b.1, locate b.2)) := by
  refine (hk.step c call).bind fun a b w v hab => ?_
  obtain ⟨x, g⟩ := a
  obtain ⟨x', g'⟩ := b
  obtain ⟨hJ, c, hg, hg'⟩ := hab
  cases hg
  cases hg'
  exact ⟨hJ, locate₀ c, hK c, hl c, hr c⟩

theorem Job.Rest.find_pairedOn (hk : k.PairedOn K R J left right k') (n : Nat) {rest : Rest I α P κ}
    (hrest : rest.Filters K) :
    Effect.Paired R (Found.PairedIn (Filters K) R J (mapConsumer left) (mapConsumer right))
      ((rest.mapConsumer left).find k n) ((rest.mapConsumer right).find k' n) := by
  have hlist : ∀ a, Effect.Paired R (Same R) (Lookahead.next (W := W) (α := α) Next.ofList a)
      (Lookahead.next Next.ofList a) := Lookahead.next_paired Next.ofList_paired
  have hnext := Lookahead.next_paired hk.next
  have hplain : ∀ u : Unit, True → Effect.Paired R (Judged (fun _ => True) R)
      (pure (.ok true, u) : Effect W (Outcome Bool × Unit))
        (pure (.ok true, u) : Effect V (Outcome Bool × Unit)) :=
    fun u _ => Effect.Paired.pure fun w v h => ⟨rfl, trivial, h⟩
  cases rest with
  | iterate form c =>
    refine located_paired (.iterate form) (.iterate form) (fun _ => rfl) (fun _ => rfl) (fun _ h => h) ?_
    exact Walk.next_paired hnext (hk.test_scan form _ _) (fun _ _ _ => hk.step _ _) n hrest
  | list form c =>
    refine located_paired (.list form) (.list form) (fun _ => rfl) (fun _ => rfl) (fun _ h => h) ?_
    exact Walk.next_paired hlist (hk.test_scan form _ _) (fun _ _ _ => hk.step _ _) n hrest
  | range filtered c =>
    refine located_paired (.range filtered) (.range filtered) (fun _ => rfl) (fun _ => rfl) (fun _ h => h) ?_
    exact RangeWalk.next_paired (hk.test_rangeScan filtered) (fun _ _ => hk.step _ _) hrest
  | chain g elements =>
    cases elements with
    | nil => exact Effect.Paired.pure fun w v h => ⟨h, .chain g [], trivial, rfl, rfl⟩
    | cons x elements =>
      exact hk.request g _ (.chain · elements) (.chain · elements) (fun _ => rfl) (fun _ => rfl)
        fun _ => trivial
  | sum s c =>
    refine located_paired (E := fun _ => True) (.sum s) (.sum s) (fun _ => rfl) (fun _ => rfl)
      (fun _ _ => trivial) ?_
    exact Walk.next_paired (Lookahead.next_paired hnext) (fun u hu _ _ => hplain u hu)
      (fun _ _ _ => hk.step _ _) n trivial
  | sumList s c =>
    refine located_paired (E := fun _ => True) (.sumList s) (.sumList s) (fun _ => rfl) (fun _ => rfl)
      (fun _ _ => trivial) ?_
    exact Walk.next_paired (Lookahead.next_paired hlist) (fun u hu _ _ => hplain u hu)
      (fun _ _ _ => hk.step _ _) n trivial
  | sumRange s c =>
    refine located_paired (E := fun _ => True) (.sumRange s) (.sumRange s) (fun _ => rfl) (fun _ => rfl)
      (fun _ _ => trivial) ?_
    exact RangeWalk.next_paired (fun u hu _ => hplain u hu) (fun _ _ => hk.step _ _) trivial
  | several c =>
    refine located_paired (E := fun _ => True) .several .several (fun _ => rfl) (fun _ => rfl)
      (fun _ _ => trivial) ?_
    exact Walk.next_paired hlist (fun u hu _ _ => hplain u hu) (fun _ _ _ => hk.step _ _) n trivial
  | drive g => exact hk.request g _ .drive .drive (fun _ => rfl) (fun _ => rfl) fun _ => trivial
  | last total => exact Effect.Paired.pure fun w v h => ⟨h, .last total, trivial, rfl, rfl⟩

theorem Job.Rest.find_paired (hk : k.Paired R J left right k') (n : Nat) (rest : Rest I α P κ) :
    Effect.Paired R (Found.PairedAt R J (mapConsumer left) (mapConsumer right))
      ((rest.mapConsumer left).find k n) ((rest.mapConsumer right).find k' n) :=
  (find_pairedOn hk.on n rest.filters_all).imp fun h => h.at

end Finding

/-! ## Making jobs -/

/-- The same job on both sides, just made: it has no step under way, or one on either side. -/
def Job.Started (R : Nat → W → V → Prop) (J : F → F' → W → V → Prop) (left right : κ → G)
    (j : Job I α P G F) (j' : Job I α P G F') (w : W) (v : V) : Prop :=
  j.extra = j'.extra ∧
    ((∃ rest : Rest I α P κ, j.view = .ahead (rest.mapConsumer left) ∧
      j'.view = .ahead (rest.mapConsumer right) ∧ R 0 w v) ∨
    ∃ (rest : Rest I α P κ) (x : F) (x' : F'), j.view = .under (.step x) (rest.mapConsumer left) ∧
      j'.view = .under (.step x') (rest.mapConsumer right) ∧ J x x' w v)

/-- The same job on both sides, just made with a filter in `K`. Both have found something to run over, or
neither has. -/
def Job.Fresh (K : P → Prop) (R : Nat → W → V → Prop) (J : F → F' → W → V → Prop) (left right : κ → G)
    (j : Job I α P G F) (j' : Job I α P G F') (w : W) (v : V) : Prop :=
  j.extra = j'.extra ∧ j.isDriven = j'.isDriven ∧ j.hollow? = j'.hollow? ∧
    ((∃ rest : Rest I α P κ, rest.Filters K ∧ j.view = .ahead (rest.mapConsumer left) ∧
      j'.view = .ahead (rest.mapConsumer right) ∧ R 0 w v) ∨
    ∃ (rest : Rest I α P κ) (x : F) (x' : F'), rest.Filters K ∧
      j.view = .under (.step x) (rest.mapConsumer left) ∧
      j'.view = .under (.step x') (rest.mapConsumer right) ∧ J x x' w v)

theorem Job.Fresh.started {K : P → Prop} {R : Nat → W → V → Prop} {J : F → F' → W → V → Prop}
    {left right : κ → G} {j : Job I α P G F} {j' : Job I α P G F'} {w : W} {v : V}
    (h : Job.Fresh K R J left right j j' w v) : Job.Started R J left right j j' w v := by
  obtain ⟨hextra, -, -, ⟨rest, -, h⟩ | ⟨rest, x, x', -, h⟩⟩ := h
  · exact ⟨hextra, .inl ⟨rest, h⟩⟩
  · exact ⟨hextra, .inr ⟨rest, x, x', h⟩⟩

/-- The same loop on both sides, just made, in a place in `E`. -/
def Loop.Fresh {C D : Type} (E : D → Prop) (l r : D → C) (a : Loop C F) (b : Loop C F') : Prop :=
  (a = .empty ∧ b = .empty) ∨ ∃ c, E c ∧ a = .running { step := l c } ∧ b = .running { step := r c }

def Summation.Fresh {C D : Type} (l r : D → C) (a : Summation (Loop C F))
    (b : Summation (Loop C F')) : Prop :=
  (a = .zero ∧ b = .zero) ∨ ∃ x y, a = .running 0 x ∧ b = .running 0 y ∧ Loop.Fresh (fun _ => True) l r x y

section Making

variable {K : P → Prop} {R : Nat → W → V → Prop} {J : F → F' → W → V → Prop} {left right : κ → G}

theorem Loop.Fresh.view {C D : Type} {E : D → Prop} {l r : D → C} {a : Loop C F} {b : Loop C F'}
    (h : Loop.Fresh E l r a b) (locate : C → Job.Rest I α P G) (locate₀ : D → Job.Rest I α P κ)
    (hl : ∀ c, locate (l c) = (locate₀ c).mapConsumer left)
    (hr : ∀ c, locate (r c) = (locate₀ c).mapConsumer right) (hE : ∀ c, E c → (locate₀ c).Filters K)
    (total : Option Int32) :
    ∃ rest : Job.Rest I α P κ, rest.Filters K ∧ Job.viewLoop locate total a = .ahead (rest.mapConsumer left) ∧
      Job.viewLoop locate total b = .ahead (rest.mapConsumer right) := by
  obtain ⟨rfl, rfl⟩ | ⟨c, hc, rfl, rfl⟩ := h
  · exact ⟨.last total, trivial, rfl, rfl⟩
  · refine ⟨locate₀ c, hE c hc, ?_, ?_⟩
    · rw [← hl]
      rfl
    · rw [← hr]
      rfl

theorem Summation.Fresh.view {C D : Type} {l r : D → C} {a : Summation (Loop C F)}
    {b : Summation (Loop C F')} (h : Summation.Fresh l r a b) (locate : Int32 → C → Job.Rest I α P G)
    (locate₀ : Int32 → D → Job.Rest I α P κ)
    (hl : ∀ s c, locate s (l c) = (locate₀ s c).mapConsumer left)
    (hr : ∀ s c, locate s (r c) = (locate₀ s c).mapConsumer right)
    (hK : ∀ s c, (locate₀ s c).Filters K) :
    ∃ rest : Job.Rest I α P κ, rest.Filters K ∧ Job.viewSum locate a = .ahead (rest.mapConsumer left) ∧
      Job.viewSum locate b = .ahead (rest.mapConsumer right) := by
  obtain ⟨rfl, rfl⟩ | ⟨x, y, rfl, rfl, hxy⟩ := h
  · exact ⟨.last (some 0), trivial, rfl, rfl⟩
  · exact hxy.view (locate 0) (locate₀ 0) (hl 0) (hr 0) (fun c _ => hK 0 c) (some 0)

theorem Loop.ofSource_paired {next : Next W I α} {next' : Next V I α}
    (h : ∀ source, Effect.Paired R (Same R) (next source) (next' source)) (source : I) {filter : P}
    (hfilter : K filter) (c : κ) :
    Effect.Paired R
      (fun (a : Loop _ F) (b : Loop _ F') w v =>
        Loop.Fresh (fun c => K c.filter) (Walk.mapConsumer left) (Walk.mapConsumer right) a b ∧ R 0 w v)
      (Loop.ofSource next source filter (left c)) (Loop.ofSource next' source filter (right c)) := by
  refine (Lookahead.peek_paired h { source }).bind_same fun r => ?_
  obtain ⟨first, source⟩ := r
  cases first with
  | none => exact Effect.Paired.pure fun w v hR => ⟨.inl ⟨rfl, rfl⟩, hR⟩
  | some x =>
    exact Effect.Paired.pure fun w v hR =>
      ⟨.inr ⟨{ source, filter, consumer := c }, hfilter, rfl, rfl⟩, hR⟩

theorem Loop.ofRange_fresh (start stop : Int32) {filter : P} (hfilter : K filter) (c : κ) :
    Loop.Fresh (fun c => K c.filter) (RangeWalk.mapConsumer left) (RangeWalk.mapConsumer right)
      (Loop.ofRange start stop filter (left c) : Loop (RangeWalk P G) F)
      (Loop.ofRange start stop filter (right c) : Loop (RangeWalk P G) F') := by
  unfold Loop.ofRange
  by_cases h : stop ≤ start
  · rw [if_pos h, if_pos h]
    exact .inl ⟨rfl, rfl⟩
  · rw [if_neg h, if_neg h]
    exact .inr ⟨{ current := start, stop, filter, consumer := c }, hfilter, rfl, rfl⟩

theorem Summation.ofSource_paired {next : Next W I α} {next' : Next V I α}
    (h : ∀ source, Effect.Paired R (Same R) (next source) (next' source)) (source : I) (c : κ) :
    Effect.Paired R
      (fun (a : Summation (Loop _ F)) (b : Summation (Loop _ F')) w v =>
        Summation.Fresh (Walk.mapConsumer left) (Walk.mapConsumer right) a b ∧ R 0 w v)
      (Summation.ofSource next source (left c)) (Summation.ofSource next' source (right c)) := by
  refine (Lookahead.peek_paired h { source }).bind_same fun r => ?_
  obtain ⟨first, source⟩ := r
  cases first with
  | none => exact Effect.Paired.pure fun w v hR => ⟨.inl ⟨rfl, rfl⟩, hR⟩
  | some x =>
    refine (Loop.ofSource_paired (K := fun _ => True) (Lookahead.next_paired h) source trivial c).bind
      fun a b w v hab => ?_
    exact ⟨.inr ⟨a, b, rfl, rfl, hab.1⟩, hab.2⟩

theorem Summation.ofRange_fresh (start stop : Int32) (c : κ) :
    Summation.Fresh (RangeWalk.mapConsumer left) (RangeWalk.mapConsumer right)
      (Summation.ofRange start stop (left c) : Summation (Loop (RangeWalk Unit G) F))
      (Summation.ofRange start stop (right c) : Summation (Loop (RangeWalk Unit G) F')) := by
  unfold Summation.ofRange
  by_cases h : stop ≤ start
  · rw [if_pos h, if_pos h]
    exact .inl ⟨rfl, rfl⟩
  · rw [if_neg h, if_neg h]
    exact .inr ⟨_, _, rfl, rfl, Loop.ofRange_fresh (K := fun _ => True) start stop trivial c⟩

/-- No step of the two towers has been requested, and they wait for the same elements. -/
def Tower.Untouched (t : Tower α F) (t' : Tower α F') : Prop :=
  Job.links t = Job.links t' ∧
    (∀ (I P G : Type) (g g' : G), (Job.chain ⟨g, t⟩ : Job I α P G F).hollow? =
      (Job.chain ⟨g', t'⟩ : Job I α P G F').hollow?) ∧
    ∀ above, ∃ elements, ∀ (I P G : Type) (g g' : G),
      Job.viewTower g t above = (.ahead (.chain g elements) : Course.State (Job.Rest I α P G) F) ∧
      Job.viewTower g' t' above = (.ahead (.chain g' elements) : Course.State (Job.Rest I α P G) F')

theorem Tower.Untouched.first {t : Tower α F} {t' : Tower α F'} (h : t.Untouched t') (x : α) :
    (Tower.first t x).Untouched (Tower.first t' x) :=
  ⟨congrArg (· + 1) h.1, fun _ _ _ _ _ => rfl, fun above => h.2.2 (x :: above)⟩

theorem Chain.pull_paired {next : Next W I α} {next' : Next V I α}
    (h : ∀ source, Effect.Paired R (Same R) (next source) (next' source)) (n : Nat) (source : I)
    {t : Tower α F} {t' : Tower α F'} (ht : t.Untouched t') :
    Effect.Paired R (fun t t' w v => Tower.Untouched t t' ∧ R 0 w v) (Chain.pull next n source t)
      (Chain.pull next' n source t') := by
  induction n generalizing source t t' with
  | zero => exact Effect.Paired.cut
  | succ n ih =>
    refine (h source).bind_same fun r => ?_
    obtain ⟨entry, source⟩ := r
    cases entry with
    | none => exact Effect.Paired.pure fun w v hR => ⟨ht, hR⟩
    | some x => exact ih source (ht.first x)

theorem Job.start_fresh {next : Next W I α} {next' : Next V I α} {step : G → Call α → Effect W (F × G)}
    {step' : G → Call α → Effect V (F' × G)}
    (hnext : ∀ source, Effect.Paired R (Same R) (next source) (next' source))
    (hstep : ∀ c call, Effect.Paired R (Requested J left right) (step (left c) call)
      (step' (right c) call)) (n : Nat) (plan : Plan I α) {filter : P} (hfilter : K filter) (c : κ) :
    Effect.Paired R (Job.Fresh K R J left right) (Job.start next step n plan filter (left c))
      (Job.start next' step' n plan filter (right c)) := by
  have hlist : ∀ elements : List α, Effect.Paired R (Same R) (Next.ofList elements : Effect W _)
      (Next.ofList elements) := Next.ofList_paired
  cases plan with
  | iterate form source =>
    refine (Loop.ofSource_paired hnext source hfilter c).bind fun a b w v hab => ?_
    have hhollow : (Job.iterate form a : Job I α P G F).hollow? = (Job.iterate form b : Job I α P G F').hollow? := by
      obtain ⟨rfl, rfl⟩ | ⟨c, -, rfl, rfl⟩ := hab.1 <;> rfl
    obtain ⟨rest, hrest, ha, hb⟩ := hab.1.view (.iterate form) (.iterate form) (fun _ => rfl) (fun _ => rfl)
      (fun _ h => h) none
    exact ⟨rfl, rfl, hhollow, .inl ⟨rest, hrest, ha, hb, hab.2⟩⟩
  | list form elements =>
    refine (Loop.ofSource_paired hlist elements hfilter c).bind fun a b w v hab => ?_
    have hhollow : (Job.list form a : Job I α P G F).hollow? = (Job.list form b : Job I α P G F').hollow? := by
      obtain ⟨rfl, rfl⟩ | ⟨c, -, rfl, rfl⟩ := hab.1 <;> rfl
    obtain ⟨rest, hrest, ha, hb⟩ := hab.1.view (.list form) (.list form) (fun _ => rfl) (fun _ => rfl)
      (fun _ h => h) none
    exact ⟨rfl, rfl, hhollow, .inl ⟨rest, hrest, ha, hb, hab.2⟩⟩
  | range filtered start stop =>
    refine Effect.Paired.pure fun w v hR => ?_
    have hfresh : Loop.Fresh (fun c => K c.filter) (RangeWalk.mapConsumer left) (RangeWalk.mapConsumer right)
        (Loop.ofRange start stop filter (left c) : Loop _ F)
        (Loop.ofRange start stop filter (right c) : Loop _ F') := Loop.ofRange_fresh start stop hfilter c
    obtain ⟨rest, hrest, ha, hb⟩ := hfresh.view (.range filtered) (.range filtered) (fun _ => rfl)
      (fun _ => rfl) (fun _ h => h) none
    refine ⟨rfl, rfl, ?_, .inl ⟨rest, hrest, ha, hb, hR⟩⟩
    obtain ⟨ha, hb⟩ | ⟨c, -, ha, hb⟩ := hfresh <;> rw [ha, hb] <;> rfl
  | chain source =>
    refine Effect.Paired.bind ?_ fun a b w v (hab : Job.Fresh K R J left right (.chain a) (.chain b) w v) =>
      hab
    have hground : Tower.Untouched (.ground : Tower α F) (.ground : Tower α F') :=
      ⟨rfl, fun _ _ _ _ _ => rfl, fun above => ⟨above, fun _ _ _ _ _ => ⟨rfl, rfl⟩⟩⟩
    refine (Chain.pull_paired hnext n source hground).bind fun t t' w v ht => ?_
    obtain ⟨⟨hlinks, hhollow, hview⟩, hR⟩ := ht
    obtain ⟨elements, helements⟩ := hview []
    obtain ⟨hleft, hright⟩ := helements I P G (left c) (right c)
    exact ⟨hlinks, rfl, hhollow I P G _ _, .inl ⟨.chain c elements, trivial, hleft, hright, hR⟩⟩
  | sum source =>
    refine (Summation.ofSource_paired hnext source c).bind fun a b w v hab => ?_
    have hhollow : (Job.sum a : Job I α P G F).hollow? = (Job.sum b : Job I α P G F').hollow? := by
      obtain ⟨rfl, rfl⟩ | ⟨x, y, rfl, rfl, -⟩ := hab.1 <;> rfl
    obtain ⟨rest, hrest, ha, hb⟩ := hab.1.view .sum .sum (fun _ _ => rfl) (fun _ _ => rfl) fun _ _ => trivial
    exact ⟨rfl, rfl, hhollow, .inl ⟨rest, hrest, ha, hb, hab.2⟩⟩
  | sumList elements =>
    refine (Summation.ofSource_paired hlist elements c).bind fun a b w v hab => ?_
    have hhollow : (Job.sumList a : Job I α P G F).hollow? = (Job.sumList b : Job I α P G F').hollow? := by
      obtain ⟨rfl, rfl⟩ | ⟨x, y, rfl, rfl, -⟩ := hab.1 <;> rfl
    obtain ⟨rest, hrest, ha, hb⟩ := hab.1.view .sumList .sumList (fun _ _ => rfl) (fun _ _ => rfl)
      fun _ _ => trivial
    exact ⟨rfl, rfl, hhollow, .inl ⟨rest, hrest, ha, hb, hab.2⟩⟩
  | sumRange start stop =>
    refine Effect.Paired.pure fun w v hR => ?_
    have hfresh : Summation.Fresh (RangeWalk.mapConsumer left) (RangeWalk.mapConsumer right)
        (Summation.ofRange start stop (left c) : Summation (Loop _ F))
        (Summation.ofRange start stop (right c) : Summation (Loop _ F')) :=
      Summation.ofRange_fresh start stop c
    obtain ⟨rest, hrest, ha, hb⟩ := hfresh.view .sumRange .sumRange (fun _ _ => rfl) (fun _ _ => rfl)
      fun _ _ => trivial
    refine ⟨rfl, rfl, ?_, .inl ⟨rest, hrest, ha, hb, hR⟩⟩
    obtain ⟨ha, hb⟩ | ⟨x, y, ha, hb, -⟩ := hfresh <;> rw [ha, hb] <;> rfl
  | apply elements =>
    refine Effect.Paired.bind ?_ fun a b w v (hab : Job.Fresh K R J left right (.apply a) (.apply b) w v) =>
      hab
    match elements with
    | [] => exact Effect.Paired.pure fun w v hR => ⟨rfl, rfl, rfl, .inl ⟨.last none, trivial, rfl, rfl, hR⟩⟩
    | [x] =>
      refine (hstep c (.element x)).bind fun a b w v hab => ?_
      exact ⟨rfl, rfl, rfl, .inr ⟨.last none, a.1, b.1, trivial, rfl, rfl, hab.1⟩⟩
    | x :: y :: elements =>
      refine (Loop.ofSource_paired (K := fun _ => True) hlist (x :: y :: elements) trivial c).bind
        fun a b w v hab => ?_
      obtain ⟨rest, hrest, ha, hb⟩ := hab.1.view .several .several (fun _ => rfl) (fun _ => rfl)
        (fun _ _ => trivial) none
      refine ⟨rfl, rfl, ?_, .inl ⟨rest, hrest, ha, hb, hab.2⟩⟩
      obtain ⟨rfl, rfl⟩ | ⟨c, -, rfl, rfl⟩ := hab.1 <;> rfl
  | drive =>
    exact Effect.Paired.pure fun w v hR => ⟨rfl, rfl, rfl, .inl ⟨.drive c, trivial, rfl, rfl, hR⟩⟩

theorem Job.start_paired {next : Next W I α} {next' : Next V I α} {step : G → Call α → Effect W (F × G)}
    {step' : G → Call α → Effect V (F' × G)}
    (hnext : ∀ source, Effect.Paired R (Same R) (next source) (next' source))
    (hstep : ∀ c call, Effect.Paired R (Requested J left right) (step (left c) call)
      (step' (right c) call)) (n : Nat) (plan : Plan I α) (filter : P) (c : κ) :
    Effect.Paired R (Job.Started R J left right) (Job.start next step n plan filter (left c))
      (Job.start next' step' n plan filter (right c)) :=
  (start_fresh (K := fun _ => True) hnext hstep n plan trivial c).imp Fresh.started

end Making

/-! ## Carrying a job through on one side -/

/-- To resolve at once does not depend on the form of the states. -/
theorem Ending.Paired.of_view {S T : Type} (view : S → T) {R : Nat → W → W → Prop}
    {e : Ending W (Resolution β)} {m : Effect W (Resolution β ⊕ S)} {v : W}
    (h : e.Paired R (AtOnce R) ((m >>= fun s => pure (s.map id view)) v)) :
    e.Paired R (AtOnce R) (m v) := by
  cases hm : m v with
  | broken reason v =>
    rw [Effect.bind_of_broken _ hm] at h
    cases e <;> exact h
  | cut v =>
    rw [Effect.bind_of_cut _ hm] at h
    cases e <;> exact h
  | returned s v =>
    rw [Effect.bind_of_returned _ hm] at h
    cases e with
    | broken reason w => exact h.elim
    | cut w => exact h.elim
    | returned r w =>
      obtain ⟨hs, hR⟩ := h
      cases s with
      | inl r' => cases hs; exact ⟨rfl, hR⟩
      | inr x => cases hs

/-- Carrying the job through on the left comes to what one poll of it on the right gives. -/
theorem Job.finish_paired {R : Nat → W → W → Prop} {J : F → F → W → W → Prop} {left right : κ → G}
    {k k' : Kit W I α P G F β} {through : F → Effect W (Resolution β)}
    (hk : k.Paired R J left right k')
    (hthrough : ∀ x x' w v, J x x' w v → (through x w).Paired R (AtOnce R) (k'.poll.stage x' v))
    (n : Nat) {j j' : Job I α P G F} {w v : W} (h : Job.Started R J left right j j' w v) :
    (finish k through n j w).Paired R (AtOnce R) (Poller.stage (poll k' n) j' v) := by
  have hl := course_along (I := I) (α := α) (P := P) k.isTrue k.summand left
  have hr := course_along (I := I) (α := α) (P := P) k.isTrue k.summand right
  refine Ending.Paired.of_view Job.view ?_
  rw [stage_view k' n (fits_extra j'), ← hk.isTrue, ← hk.summand, finish, h.1]
  obtain ⟨rest, hj, hj', hR⟩ | ⟨rest, x, x', hj, hj', hJ⟩ := h.2
  · rw [hj, hj']
    exact Course.finish_paired_ahead hl hr (Rest.find_paired hk n) hthrough _ rest hR
  · rw [hj, hj']
    exact Course.carry_paired hl hr (Rest.find_paired hk n) hthrough _ rest hJ

end Stepwise
