/-
One stream of draws for all weights. The weights of a workspace are filled in
the order of their requests from one generator, so a weight may notice any
request before its own. It notices those alone that take draws: a request
for zeros or ones, or for a random weight without elements, leaves the
generator where it was (`Initializer.spend_idle`), and a scratch buffer does
not come near it. So the state in which a weight finds the generator is that
after the drawn weights before it, in their order
(`getElem?_allocateWeights`).

Requests of the idle kinds can therefore be put in anywhere. Two blueprints
are followed through the same requests, one of them with others put in
between; all that is kept of the two is that the same weights were drawn so
far (`weights_of_own`).
-/
import MixtureAttention.Proofs.Layer.Allocation
import MixtureAttention.Proofs.Layer.BatchHistory

namespace MixtureAttention

variable {α : Type}

-- ========================================== what a request takes of a stream

namespace Initializer

variable {i : Initializer} {d : Dims} {g : Generator} {s : g.State}

/-- Filling a buffer takes no draw: the scheme draws nothing, or there are no
elements. -/
def Idle (i : Initializer) (d : Dims) : Prop :=
  i.DrawsNothing ∨ d.toShape.size = 0

instance (i : Initializer) (d : Dims) : Decidable (i.Idle d) :=
  inferInstanceAs (Decidable ((i = .zeros ∨ i = .ones) ∨ d.toShape.size = 0))

/-- The state that filling a buffer leaves the generator in. -/
def spend (i : Initializer) (g : Generator) (d : Dims) (s : g.State) :
    g.State :=
  match i.limit? d with
  | none => s
  | some limit => (g.draws limit d.toShape.size s).2

theorem fill_state [Scalar α] : (i.fill (α := α) g d s).2 = i.spend g d s := by
  unfold fill spend
  cases i.limit? d <;> rfl

theorem spend_idle (h : i.Idle d) : i.spend g d s = s := by
  rcases h with (rfl | rfl) | hempty
  · rfl
  · rfl
  · unfold spend
    rw [hempty]
    cases i.limit? d <;> rfl

end Initializer

/-- The state of the generator after weights were filled. -/
def Generator.after (g : Generator) (xs : List (Initializer × Dims))
    (s : g.State) : g.State :=
  xs.foldl (fun s x => x.1.spend g x.2 s) s

namespace WeightDecl

variable {d : WeightDecl} {ds es : List WeightDecl} {g : Generator}
  {s : g.State}

/-- The scheme and the extents, all that a weight is filled by. -/
def filling (d : WeightDecl) : Initializer × Dims := (d.initializer, d.dims)

/-- What the weights that are drawn are filled by, in the order of their
requests. -/
def drawn (ds : List WeightDecl) : List (Initializer × Dims) :=
  (ds.map filling).filter fun x => ¬ x.1.Idle x.2

theorem drawn_append : drawn (ds ++ es) = drawn ds ++ drawn es := by
  simp [drawn]

theorem drawn_idle (h : d.initializer.Idle d.dims) : drawn [d] = [] := by
  simp [drawn, filling, h]

/-- Only the weights that are drawn move the generator. -/
theorem after_drawn_cons :
    g.after (drawn (d :: ds)) s
      = g.after (drawn ds) (d.initializer.spend g d.dims s) := by
  rw [← List.singleton_append, drawn_append]
  by_cases h : d.initializer.Idle d.dims
  · rw [drawn_idle h, Initializer.spend_idle h, List.nil_append]
  · have hdrawn : drawn [d] = [d.filling] := by simp [drawn, filling, h]
    rw [hdrawn]
    rfl

end WeightDecl

open WeightDecl (drawn)

/-- A weight is filled from the state that the drawn weights before it leave
the generator in. -/
theorem getElem?_allocateWeights [Scalar α] (g : Generator) :
    ∀ (ds : List WeightDecl) (i : Nat) (s : g.State),
      (allocateWeights (α := α) g ds s)[i]?.map (·.value)
        = ds[i]?.map fun d =>
            (d.initializer.fill g d.dims (g.after (drawn (ds.take i)) s)).1
  | [], _, _ => rfl
  | _ :: _, 0, _ => rfl
  | d :: ds, i + 1, s => by
      simp only [List.take_succ_cons, WeightDecl.after_drawn_cons,
        ← Initializer.fill_state (α := α)]
      exact getElem?_allocateWeights g ds i
        (d.initializer.fill (α := α) g d.dims s).2

namespace Blueprint

variable [Scalar α] {b b' : Blueprint} {d d' : WeightDecl}
  {h h' : WeightHandle} {g : Generator} {seed : UInt64}

/-- The value of a weight is there, and it is read off the seed, what the
weight is filled by, and what is drawn before it. -/
theorem build_weight (hd : b.weights[h.index]? = some d) (g : Generator)
    (seed : UInt64) :
    (b.build (α := α) g seed).weight h
      = .ok (d.initializer.fill g d.dims
          (g.after (drawn (b.weights.take h.index)) (g.start seed))).1 := by
  have hvalue := getElem?_allocateWeights (α := α) g b.weights h.index
    (g.start seed)
  rw [hd, Option.map_some, Option.map_eq_some_iff] at hvalue
  obtain ⟨e, he, hvalue⟩ := hvalue
  exact Workspace.lookup_bind_eq_ok.2 ⟨e, he, congrArg Except.ok hvalue⟩

/-- Two weights that are filled alike, after the same draws. -/
theorem build_weight_congr (hd : b.weights[h.index]? = some d)
    (hd' : b'.weights[h'.index]? = some d') (hsame : d.filling = d'.filling)
    (hdrawn : drawn (b.weights.take h.index)
      = drawn (b'.weights.take h'.index)) :
    ∃ t : Tensor α, (b.build g seed).weight h = .ok t
      ∧ (b'.build g seed).weight h' = .ok t := by
  obtain ⟨hscheme, hdims⟩ := Prod.mk.inj hsame
  refine ⟨_, build_weight hd g seed, ?_⟩
  rw [build_weight hd' g seed, ← hdrawn, ← hscheme, ← hdims]

/-- Blueprints whose weights are filled alike, all of them. -/
theorem build_weights_congr (hsame : b.weights.map WeightDecl.filling
      = b'.weights.map WeightDecl.filling) (g : Generator) (seed : UInt64)
    (h : WeightHandle) :
    (b.build (α := α) g seed).weight h = (b'.build g seed).weight h := by
  have hvalue : ∀ c : Blueprint,
      (c.build (α := α) g seed).weights[h.index]?.map (·.value)
        = (c.weights.map WeightDecl.filling)[h.index]?.map fun x =>
            (x.1.fill g x.2 (g.after
              (((c.weights.map WeightDecl.filling).take h.index).filter
                fun x => ¬ x.1.Idle x.2) (g.start seed))).1 := by
    intro c
    rw [List.getElem?_map, Option.map_map, ← List.map_take]
    exact getElem?_allocateWeights g c.weights h.index (g.start seed)
  refine Workspace.lookup_bind_congr ?_ .ok
  rw [hvalue b, hvalue b', hsame]

end Blueprint

-- ================================================ requests that are put in

namespace Blueprint

/-- The request takes no draw: it is for zeros or ones, for a weight without
elements, or for no weight at all. -/
def Request.DrawsNothing : Request → Prop
  | .weight dims initializer _ _ _ _ => initializer.Idle dims
  | .scratch _ _ _ _ => True
  | .outputs _ => True

/-- A request of one's own, or one of those that draw nothing, put in
between. -/
inductive Step
  | own (r : Request)
  | inserted (r : Request) (h : r.DrawsNothing)

def Step.request : Step → Request
  | own r => r
  | inserted r _ => r

/-- The requests of one's own. -/
def ownRequests : List Step → List Request
  | [] => []
  | .own r :: steps => r :: ownRequests steps
  | .inserted _ _ :: steps => ownRequests steps

/-- The handles of weights that the requests of one's own are answered with,
where the others are made as well. -/
def ownWeights : List Step → Blueprint → List WeightHandle
  | [], _ => []
  | .own r :: steps, b =>
      (b.request r).1.weights ++ ownWeights steps (b.request r).2
  | .inserted r _ :: steps, b => ownWeights steps (b.request r).2

variable [Scalar α] {b b' : Blueprint} {g : Generator} {seed : UInt64}

/-- The earlier weights stand first, whatever is requested after them. -/
theorem take_requestAll (later : List Request) (b : Blueprint) :
    (b.requestAll later).2.weights.take b.weights.length = b.weights := by
  obtain ⟨weights, scratch, hextends⟩ := requestAll_extends later b
  rw [hextends]
  exact List.take_left

/-- A request that draws nothing adds nothing to the draws. -/
theorem drawn_inserted {r : Request} (hr : r.DrawsNothing) :
    drawn (b.request r).2.weights = drawn b.weights := by
  cases r with
  | weight dims initializer regularizer constant name trainable =>
      let d : WeightDecl :=
        ⟨b.qualify name, dims, initializer, regularizer, constant, trainable⟩
      show drawn (b.weights ++ [d]) = drawn b.weights
      rw [WeightDecl.drawn_append, WeightDecl.drawn_idle (d := d) hr,
        List.append_nil]
  | scratch dims name hasGrad lifespan => rfl
  | outputs dims => rfl

/-- A request adds to two blueprints what is filled alike. -/
theorem drawn_own (r : Request) (h : drawn b.weights = drawn b'.weights) :
    drawn (b.request r).2.weights = drawn (b'.request r).2.weights := by
  cases r with
  | weight dims initializer regularizer constant name trainable =>
      show drawn (b.weights ++ [_]) = drawn (b'.weights ++ [_])
      rw [WeightDecl.drawn_append, WeightDecl.drawn_append, h]
      rfl
  | scratch dims name hasGrad lifespan => exact h
  | outputs dims => exact h

/-- The weights of one's own, without and with the other requests, from
blueprints with the same draws so far. -/
theorem weights_of_own :
    ∀ (steps : List Step) (b b' : Blueprint),
      drawn b.weights = drawn b'.weights →
        List.Forall₂
          (fun h h' => ∃ t : Tensor α,
            ((b.requestAll (ownRequests steps)).2.build g seed).weight h
                = .ok t
              ∧ ((b'.requestAll (steps.map Step.request)).2.build g
                  seed).weight h' = .ok t)
          (b.requestAll (ownRequests steps)).1.weights (ownWeights steps b')
  | [], _, _, _ => .nil
  | .inserted r hr :: steps, b, b', h =>
      weights_of_own steps b (b'.request r).2 (h.trans (drawn_inserted hr).symm)
  | .own r :: steps, b, b', h => by
      have hrest := weights_of_own steps (b.request r).2 (b'.request r).2
        (drawn_own r h)
      cases r with
      | scratch dims name hasGrad lifespan => exact hrest
      | outputs dims => exact hrest
      | weight dims initializer regularizer constant name trainable =>
          let r : Request :=
            .weight dims initializer regularizer constant name trainable
          have hlast : ∀ c : Blueprint,
              (c.request r).2.weights[c.weights.length]?
                = some ⟨c.qualify name, dims, initializer, regularizer,
                    constant, trainable⟩ := by
            intro c
            simp [r, request, requestWeight]
          refine .cons (build_weight_congr
            (weight_kept (hlast b) (ownRequests steps))
            (weight_kept (hlast b') (steps.map Step.request)) rfl ?_) hrest
          have htake := take_requestAll (r :: ownRequests steps) b
          have htake' := take_requestAll (r :: steps.map Step.request) b'
          exact (congrArg drawn htake).trans
            (h.trans (congrArg drawn htake').symm)

/-- Requests that draw nothing do not disturb the ones that do. Whatever is
requested of a blueprint, and wherever requests for zeros, for ones, for
weights without elements or for scratch buffers are put in between, every
weight that was there before has the same values under its new handle. For
every generator and seed, two weights have the same values if they are filled
alike and the weights that are drawn before them are filled alike in the same
order, whatever else the two blueprints hold; and all weights have, if all
are filled alike, as those of one blueprint that is built twice. -/
theorem draws_undisturbed (g : Generator) (seed : UInt64) :
    (∀ (steps : List Step) (b : Blueprint),
      List.Forall₂
        (fun h h' => ∃ t : Tensor α,
          ((b.requestAll (ownRequests steps)).2.build g seed).weight h = .ok t
            ∧ ((b.requestAll (steps.map Step.request)).2.build g
                seed).weight h' = .ok t)
        (b.requestAll (ownRequests steps)).1.weights (ownWeights steps b))
      ∧ (∀ (b b' : Blueprint) (h h' : WeightHandle) (d d' : WeightDecl),
          b.weights[h.index]? = some d → b'.weights[h'.index]? = some d' →
          d.filling = d'.filling →
          drawn (b.weights.take h.index)
            = drawn (b'.weights.take h'.index) →
          ∃ t : Tensor α, (b.build g seed).weight h = .ok t
            ∧ (b'.build g seed).weight h' = .ok t)
      ∧ ∀ b b' : Blueprint,
          b.weights.map WeightDecl.filling
            = b'.weights.map WeightDecl.filling →
          ∀ h, (b.build (α := α) g seed).weight h
            = (b'.build g seed).weight h :=
  ⟨fun steps b => weights_of_own steps b b rfl,
    fun _ _ _ _ _ _ => build_weight_congr,
    fun _ _ hsame h => build_weights_congr hsame g seed h⟩

/-- Between two random weights, ones, a scratch buffer and a random weight
without elements are put in: the second has another number and the same
values. -/
theorem draws_undisturbed_three_between :
    let own₁ : Request := .weight ⟨1, 1, 3, 2⟩ .xavierUniform .none 1 "w" true
    let own₂ : Request := .weight ⟨1, 1, 2, 2⟩ .heUniform .l2 0.5 "v" true
    let steps : List Step :=
      [.own own₁,
        .inserted (.weight ⟨1, 1, 1, 3⟩ .ones .none 1 "b" true)
          (.inl (.inr rfl)),
        .inserted (.scratch ⟨4, 1, 1, 2⟩ "h" false .iteration) trivial,
        .inserted (.weight ⟨1, 1, 0, 2⟩ .lecunUniform .none 1 "e" true)
          (.inr rfl),
        .own own₂]
    let plain := (Blueprint.new "net" []).requestAll (ownRequests steps)
    let padded := (Blueprint.new "net" []).requestAll
      (steps.map Step.request)
    plain.1.weights = [⟨0⟩, ⟨1⟩]
      ∧ ownWeights steps (Blueprint.new "net" []) = [⟨0⟩, ⟨3⟩]
      ∧ ∃ t : Tensor Float,
          (plain.2.build .splitMix 7).weight ⟨1⟩ = .ok t
            ∧ (padded.2.build .splitMix 7).weight ⟨3⟩ = .ok t := by
  intro own₁ own₂ steps plain padded
  obtain ⟨-, hfilled, -⟩ := draws_undisturbed (α := Float) .splitMix 7
  exact ⟨rfl, rfl, hfilled plain.2 padded.2 ⟨1⟩ ⟨3⟩ _ _ rfl rfl rfl
    (by decide)⟩

end Blueprint
end MixtureAttention
