/-
Calls for the gradients of the weights in a debug build. Both weights are
shared by the whole batch, so both adjoints may run through its rows and
count them by their elements. The first goes through the hidden rows, which
are as wide as a setup makes them and never empty. The second goes through
the queries, and a setup asks nothing of their width.

A debug build is compared with a release build step by step (`Follows`). The
two part only where the rows of one of the adjoints are counted wrong
(`weightDerivatives_follow`): the layer's own buffers leave several empty
queries for that, and there the debug build does stop
(`weightDerivatives_debug_of_empty`). A session carries the shapes that this
needs along (`Session.Shaped`), whatever was called before.

What is computed is said of calls that the machine has room for
(`Session.HasRoom`). There the two counts are words, and what a debug build
asserts of them is what is asserted of the numbers.
-/
import MixtureAttention.Proofs.Layer.Attunement
import MixtureAttention.Proofs.Layer.Overruns
import MixtureAttention.Proofs.Machine.Operations
import MixtureAttention.Proofs.Tensor.Assertions

namespace MixtureAttention

open Tensor Workspace Procedure
open Given (HasShape)

variable {α β γ : Type}

-- ============================================================= two builds

/-- A debug build computes what the release build does, or an assertion fails
in it on two counts that have the property. -/
def Follows (P : Nat → Nat → Prop) (debug release : Except LayerError β) :
    Prop :=
  debug = release ∨ ∃ filled stated, P filled stated
    ∧ debug = .error (.tensor (.asserted filled stated))

namespace Follows

variable {P : Nat → Nat → Prop} {r : Except LayerError β}

/-- What asserts nothing is the same in both. -/
theorem same (r : Except LayerError β) : Follows P r r := .inl rfl

/-- A step of both is followed by the next of both. -/
theorem bind {a : Except LayerError β} {f g : β → Except LayerError γ}
    (ha : Follows P a r) (hf : ∀ x, r = .ok x → Follows P (f x) (g x)) :
    Follows P (a >>= f) (r >>= g) := by
  rcases ha with rfl | ⟨filled, stated, hP, rfl⟩
  · cases a with
    | error e => exact .inl rfl
    | ok x => exact hf x rfl
  · exact .inr ⟨filled, stated, hP, rfl⟩

/-- An adjoint with respect to a right factor stops only at rows that are run
through and counted wrong. -/
theorem adjoint [Zero α] [Add α] [Mul α] {t u : Tensor α} {shape : Shape}
    (h : Flattens t u shape → t.shape.filledRows ≠ t.shape.statedRows →
      P t.shape.filledRows t.shape.statedRows) :
    Follows P (liftM (t.matmulGradRight .debug u shape))
      (liftM (t.matmulGradRight .release u shape)) := by
  rcases matmulGradRight_debug_cases t u shape with
    hsame | ⟨hflattens, hrows, hstop⟩
  · rw [hsame]
    exact .same _
  · rw [hstop]
    exact .inr ⟨_, _, h hflattens hrows, rfl⟩

end Follows

-- =========================================================== derivatives

variable [Scalar α] {p : SetupPlan} {s : Slots} {w : Workspace α} {n m : Nat}

/-- Hidden rows or queries that are empty, though there are some. -/
def EmptyRows (s : Slots) (n : Nat) (w : Workspace α) : Prop :=
  ∃ t, (w.scratchValue s.hidden = .ok t ∨ w.input s.query = .ok t)
    ∧ t.shape.width = 0 ∧ t.shape.statedRows = n ∧ n ≠ 0

omit [Scalar α] in
/-- It is said of inputs and of what scratch buffers hold. -/
theorem EmptyRows.congr (h : EmptyRows s n w) {w' : Workspace α}
    (hscratch : ∀ i, w'.scratchValue i = w.scratchValue i)
    (hinputs : w'.inputs = w.inputs) : EmptyRows s n w' := by
  unfold EmptyRows
  rw [hscratch, input_congr hinputs]
  exact h

/-- There are several queries, and they are empty. -/
structure EmptyQueries (s : Slots) (n : Nat) (w : Workspace α) : Prop where
  several : 1 < n
  query : HasShape (w.input s.query) [n, 1, 1, 0]

omit [Scalar α] in
/-- It is said of the inputs alone. -/
theorem EmptyQueries.congr (h : EmptyQueries s n w) {w' : Workspace α}
    (hsame : w'.inputs = w.inputs) : EmptyQueries s n w' := by
  refine ⟨h.several, ?_⟩
  rw [input_congr hsame]
  exact h.query

omit [Scalar α] in
/-- Rows that are not empty are counted right. -/
theorem rows_counted {t : Tensor α} {b k : Nat}
    (ht : t.shape = [b, 1, 1, k]) (hk : 0 < k) :
    t.shape.filledRows = t.shape.statedRows := by
  rw [ht]
  show Shape.filledRows ([b, 1] ++ [1, k])
    = Shape.statedRows ([b, 1] ++ [1, k])
  rw [Shape.filledRows_append hk, Shape.statedRows_append]

/-- If it is computed, the derivative with respect to the hidden projection
has its shape, whatever shape the weights have. -/
theorem ensures_hiddenDerivative (hlaid : Laid p s w) :
    Ensures (fun v => v.shape = [p.batch, 1, 1, p.unit])
      (hiddenDerivative s w) := by
  unfold hiddenDerivative
  refine .skip fun _ => .skip fun _ => .skip fun _ => ?_
  refine .bind (Returns.ensures hlaid.hidden) fun hidden hhidden => ?_
  intro v hv
  exact ((ensures_backward _).lift v hv).trans hhidden

omit [Scalar α] in
/-- Where queries of any four extents are run through and counted wrong,
there are as many as there are hidden rows, more than one, and they are
empty. -/
theorem empty_of_flattens {query dsum : Tensor α} {shape : Shape} {b : Nat}
    (hquery : query.FourAxes) (hdsum : dsum.shape = [b, 1, 1, m])
    (hshape : shape.length = 4) (h : Flattens query dsum shape)
    (hrows : query.shape.filledRows ≠ query.shape.statedRows) :
    1 < b ∧ query.shape = [b, 1, 1, 0] ∧ shape = [1, 1, 0, m] := by
  obtain ⟨lead, r, k, hs, hlead⟩ := Shape.exists_append_two (r := 2) hquery
  obtain ⟨lead', k', m', rfl, hlead'⟩ :=
    Shape.exists_append_two (r := 2) hshape
  have hbefore := h.rows
  rw [hs, hdsum, Shape.dropLast_append_two] at hbefore
  have hextents := h.cols
  rw [hs, hdsum, Shape.lastTwo_append, Shape.width_append] at hextents
  have hone := h.ones
  have hdiffer := h.lead
  rw [Shape.lead_append] at hone hdiffer
  rw [hs, Shape.lead_append] at hdiffer
  match lead, hlead, lead', hlead' with
  | [x, y], _, [x', y'], _ =>
      obtain ⟨rfl, rfl, rfl⟩ : b = x ∧ 1 = y ∧ 1 = r := by
        simpa using hbefore
      obtain ⟨rfl, rfl⟩ : k' = k ∧ m' = m := by
        simpa [Shape.width] using hextents
      obtain ⟨rfl, rfl⟩ : x' = 1 ∧ y' = 1 := by simpa using hone
      obtain ⟨hwidth, -, hsome⟩ :=
        Shape.empty_of_miscounted (r := 2) hquery hrows
      rw [hs, Shape.width_append] at hwidth
      rw [hs, Shape.statedRows_append] at hsome
      subst hwidth
      have hnone : b ≠ 0 := by
        rintro rfl
        exact hsome (by simp)
      have hone : b ≠ 1 := by
        rintro rfl
        exact hdiffer rfl
      exact ⟨by omega, hs, rfl⟩

/-- The derivatives step by step. A debug build stops in the first adjoint,
at the hidden rows, or in the second, at the queries, once the first was
computed. -/
theorem weightDerivatives_follow {P : Nat → Nat → Prop}
    (hfirst : ∀ hidden dpacked weight, w.scratchValue s.hidden = .ok hidden →
      Flattens hidden dpacked weight →
      hidden.shape.filledRows ≠ hidden.shape.statedRows →
        P hidden.shape.filledRows hidden.shape.statedRows)
    (hsecond : ∀ query dsum weight packedWeight,
      w.input s.query = .ok query → hiddenDerivative s w = .ok dsum →
      w.weight s.hiddenWeight = .ok weight →
      Flattens query dsum weight.shape →
      query.shape.filledRows ≠ query.shape.statedRows →
      (∀ hiddenWeight hiddenBias,
        query.matmulGradRight .release dsum weight.shape
          = .ok hiddenWeight →
        dsum.sumAxes [0, 1, 2] = .ok hiddenBias →
          weightDerivatives .release s w
            = .ok ⟨hiddenWeight, hiddenBias, packedWeight⟩) →
        P query.shape.filledRows query.shape.statedRows) :
    Follows P (weightDerivatives .debug s w)
      (weightDerivatives .release s w) := by
  unfold weightDerivatives
  refine (Follows.same _).bind fun hidden hhidden => ?_
  refine (Follows.same _).bind fun dpacked hdpacked => ?_
  refine (Follows.same _).bind fun packed hpacked => ?_
  refine (Follows.adjoint (hfirst hidden dpacked packed.shape
    hhidden)).bind fun packedWeight hpackedWeight => ?_
  refine (Follows.same _).bind fun dsum hdsum => ?_
  refine (Follows.same _).bind fun query hquery => ?_
  refine (Follows.same _).bind fun weight hweight => ?_
  refine (Follows.adjoint fun hflattens hrows => ?_).bind
    fun hiddenWeight _ => ?_
  · refine hsecond query dsum weight packedWeight hquery hdsum hweight
      hflattens hrows fun hiddenWeight hiddenBias hv hbias => ?_
    unfold weightDerivatives
    rw [hhidden, hdpacked, hpacked, hdsum, hquery, hweight]
    simp only [ok_bind]
    rw [hpackedWeight, ok_bind, hv, hbias]
    rfl
  · exact (Follows.same _).bind fun _ _ => .inl rfl

/-- Hidden rows that are not empty are counted right. Then a debug build
stops for several empty queries alone, where a release build computes
everything. -/
theorem weightDerivatives_follow_laid (hlaid : Laid p s w)
    (hunit : 0 < p.unit) (hfour : w.FourAxes) :
    Follows (fun filled stated => filled = 0 ∧ stated = p.batch
        ∧ EmptyQueries s p.batch w
        ∧ HasShape (w.weight s.hiddenWeight) [1, 1, 0, p.unit]
        ∧ ∃ d, weightDerivatives .release s w = .ok d)
      (weightDerivatives .debug s w) (weightDerivatives .release s w) := by
  refine weightDerivatives_follow ?_ ?_
  · intro hidden _ _ hhidden _ hrows
    have hshape := Returns.ensures hlaid.hidden hidden hhidden
    exact absurd (rows_counted hshape hunit) hrows
  · intro query dsum weight packedWeight hquery hdsum hweight hflattens hrows
      hcomputed
    have hsum := ensures_hiddenDerivative hlaid dsum hdsum
    obtain ⟨hbatch, hempty, hshape⟩ := empty_of_flattens
      ((hfour.input _).ensures query hquery) hsum
      ((hfour.weight _).ensures weight hweight) hflattens hrows
    have hlead : query.shape = [p.batch, 1] ++ [1, 0] := hempty
    have hrank : [1, 1].length = [p.batch, 1].length := rfl
    have hones : ∀ d ∈ [1, 1], d = 1 := by simp
    obtain ⟨hiddenWeight, hhiddenWeight, -⟩ :=
      matmulGradRight_of_flattens hlead hsum hrank hones
    obtain ⟨hiddenBias, hbias, -⟩ := shape_sumToRow hsum
    rw [hshape] at hcomputed
    rw [hlead, Shape.filledRows_append_zero, Shape.statedRows_append]
    exact ⟨rfl, by simp, ⟨hbatch, query, hquery, hempty⟩,
      ⟨weight, hweight, hshape⟩, _, hcomputed _ _ hhiddenWeight hbias⟩

/-- Where nothing is known but the number of axes, a debug build stops for
empty hidden rows or for empty queries. -/
theorem weightDerivatives_follow_fourAxes (hfour : w.FourAxes) :
    Follows (fun filled stated => filled = 0 ∧ EmptyRows s stated w)
      (weightDerivatives .debug s w) (weightDerivatives .release s w) := by
  refine weightDerivatives_follow ?_ ?_
  · intro hidden _ _ hhidden _ hrows
    obtain ⟨hwidth, hfilled, hstated⟩ := Shape.empty_of_miscounted (r := 2)
      ((hfour.scratchValue _).ensures hidden hhidden) hrows
    exact ⟨hfilled, hidden, .inl hhidden, hwidth, rfl, hstated⟩
  · intro query _ _ _ hquery _ _ _ hrows _
    obtain ⟨hwidth, hfilled, hstated⟩ := Shape.empty_of_miscounted (r := 2)
      ((hfour.input _).ensures query hquery) hrows
    exact ⟨hfilled, query, .inr hquery, hwidth, rfl, hstated⟩

/-- Several empty rows are counted as none. -/
theorem gradRight_of_empty {query dsum : Tensor α} (hn : 1 < n)
    (hquery : query.shape = [n, 1, 1, 0]) (hdsum : dsum.shape = [n, 1, 1, m]) :
    query.matmulGradRight .debug dsum [1, 1, 0, m]
      = .error (.asserted 0 n) := by
  have hlead : query.shape = [n, 1] ++ [1, 0] := hquery
  have hdlead : dsum.shape = [n, 1] ++ [1, m] := hdsum
  have hother : [1, 1] ≠ [n, 1] := by
    simp only [ne_eq, List.cons.injEq, and_true]
    omega
  have hcount : Shape.size [n, 1] * 1 = n := by simp
  have hsome : Shape.size [n, 1] * 1 ≠ 0 := by omega
  obtain ⟨-, -, -, hrun⟩ := flattened_rows hlead hdlead hother (by simp)
  rw [if_pos ⟨rfl, hsome⟩, hcount] at hrun
  exact hrun

/-- Several empty queries, where a release build computes everything: a debug
build stops at the second adjoint. -/
theorem weightDerivatives_debug_of_empty (hlaid : Laid p s w)
    (hunit : 0 < p.unit) (hempty : EmptyQueries s n w) {k : Nat}
    (hshape : HasShape (w.weight s.hiddenWeight) [1, 1, k, m])
    {d : WeightDerivatives α} (hd : weightDerivatives .release s w = .ok d) :
    weightDerivatives .debug s w = .error (.tensor (.asserted 0 n)) := by
  obtain ⟨hidden, hhidden, hd⟩ := exists_of_bind hd
  obtain ⟨dpacked, hdpacked, hd⟩ := exists_of_bind hd
  obtain ⟨_, hpacked, hd⟩ := exists_of_bind hd
  obtain ⟨_, hfirst, hd⟩ := exists_of_bind hd
  obtain ⟨dsum, hdsum, hd⟩ := exists_of_bind hd
  obtain ⟨query, hquery, hd⟩ := exists_of_bind hd
  obtain ⟨weight, hweight, hd⟩ := exists_of_bind hd
  obtain ⟨_, hsecond, -⟩ := exists_of_bind hd
  have hrows := Returns.ensures hlaid.hidden hidden hhidden
  have hlead : query.shape = [n, 1] ++ [1, 0] :=
    Returns.ensures hempty.query query hquery
  have hweightShape := Returns.ensures hshape weight hweight
  rw [hweightShape] at hsecond
  -- what the second adjoint was computed from fits the queries
  obtain ⟨rfl, hsum⟩ : k = 0 ∧ dsum.shape = [n, 1] ++ [1, m] := by
    have hrank : [1, 1].length = [n, 1].length := rfl
    have hdecided : Decided (k = 0 ∧ dsum.shape = [n, 1] ++ [1, m]
        ∧ Shape.Serves [1, 1] [n, 1]) ([1, 1] ++ [k, m])
        (query.matmulGradRight .release dsum ([1, 1] ++ [k, m])) :=
      decided_matmulGradRight hlead hrank dsum
    obtain ⟨hk, hsum, -⟩ := (hdecided.of_ok (of_lift_ok hsecond)).1
    exact ⟨hk, hsum⟩
  unfold weightDerivatives
  rw [hhidden, hdpacked, hpacked, hdsum, hquery, hweight]
  simp only [ok_bind]
  rw [matmulGradRight_debug_of_rows fun _ => rows_counted hrows hunit,
    hfirst, ok_bind, hweightShape,
    gradRight_of_empty hempty.several hlead hsum]
  rfl

-- ================================================================== calls

/-- An assertion of a debug build fails in the call, because `n` rows are
counted as none. -/
def Session.FailsAssertion (n : Nat) (st : Session α) : Prop :=
  ∃ st', Layer.weightGradients .debug st
    = .error (.tensor (.asserted 0 n)) st'

section

variable {st st₁ st' : Session α}

/-- Once the packed derivative is there, a call that fails in the derivatives
with respect to the weights stores nothing. -/
theorem Layer.weightGradients_of_error {build : Build} {e : LayerError}
    (hs : st.layer.slots = some s)
    (hrun : ensureDifferentiated st = .ok () st₁)
    (hd : weightDerivatives build s st₁.workspace = .error e) :
    weightGradients build st = .error e st₁ := by
  have hslots : Procedure.read (fun st => st.layer.slots?) st = .ok s st :=
    read_of_ok (slots?_of_some hs)
  unfold weightGradients
  rw [bind_of_ok hslots, bind_of_ok hrun]
  exact bind_of_error (read_of_error hd)

/-- Calls whose derivatives are the same in both builds are the same. -/
theorem Layer.weightGradients_of_same (hs : st.layer.slots = some s)
    (hsame : ∀ st₁, ensureDifferentiated st = .ok () st₁ →
      weightDerivatives .debug s st₁.workspace
        = weightDerivatives .release s st₁.workspace) :
    weightGradients .debug st = weightGradients .release st := by
  have hslots : Procedure.read (fun st => st.layer.slots?) st = .ok s st :=
    read_of_ok (slots?_of_some hs)
  unfold weightGradients
  rw [bind_of_ok hslots, bind_of_ok hslots]
  rcases ensureDifferentiated_error_or_ok st with ⟨e, herror⟩ | ⟨st₁, hrun⟩
  · rw [bind_of_error herror, bind_of_error herror]
  · rw [bind_of_ok hrun, bind_of_ok hrun]
    have hread := hsame st₁ hrun
    cases hd : weightDerivatives .release s st₁.workspace with
    | error e =>
        rw [bind_of_error (read_of_error (hread.trans hd)),
          bind_of_error (read_of_error hd)]
    | ok d =>
        rw [bind_of_ok (read_of_ok (hread.trans hd)),
          bind_of_ok (read_of_ok hd)]

/-- What is known of the derivatives is known of the call. -/
theorem Layer.weightGradients_follow (hs : st.layer.slots = some s)
    {P : Session α → Nat → Nat → Prop}
    (h : ∀ st₁, ensureDifferentiated st = .ok () st₁ →
      Follows (P st₁) (weightDerivatives .debug s st₁.workspace)
        (weightDerivatives .release s st₁.workspace)) :
    weightGradients .debug st = weightGradients .release st
      ∨ ∃ st₁ filled stated, ensureDifferentiated st = .ok () st₁
        ∧ P st₁ filled stated
        ∧ weightGradients .debug st
          = .error (.tensor (.asserted filled stated)) st₁ := by
  by_cases hsame : ∀ st₁, ensureDifferentiated st = .ok () st₁ →
      weightDerivatives .debug s st₁.workspace
        = weightDerivatives .release s st₁.workspace
  · exact .inl (weightGradients_of_same hs hsame)
  · push Not at hsame
    obtain ⟨st₁, hrun, hne⟩ := hsame
    obtain ⟨filled, stated, hP, hstop⟩ := (h st₁ hrun).resolve_left hne
    exact .inr ⟨st₁, filled, stated, hrun, hP,
      weightGradients_of_error hs hrun hstop⟩

/-- Where nothing is known but the number of axes, a call stops for empty
hidden rows or for empty queries. -/
theorem Layer.same_or_emptyRows (hs : st.layer.slots = some s)
    (hfour : st.workspace.FourAxes) :
    weightGradients .debug st = weightGradients .release st
      ∨ ∃ n, EmptyRows s n st.workspace ∧ st.FailsAssertion n := by
  rcases weightGradients_follow hs fun st₁ hrun =>
      weightDerivatives_follow_fourAxes (hfour.ensureDifferentiated hrun) with
    hsame | ⟨st₁, _, n, hrun, ⟨rfl, hempty⟩, hstop⟩
  · exact .inl hsame
  · obtain ⟨hinputs, -⟩ := rest_ensureDifferentiated hrun
    have hscratch : ∀ i, st.workspace.scratchValue i
        = st₁.workspace.scratchValue i := by
      intro i
      rcases ensureDifferentiated_ok hrun with
        ⟨_, -, rfl⟩ | ⟨s', d, -, -, rfl⟩
      · rfl
      · exact (scratchValue_putScratchGrad s'.packed i d.packed _).symm
    exact .inr ⟨n, hempty.congr hscratch hinputs.symm, st₁, hstop⟩

/-- Neither build looks for an element that is not there. -/
theorem Layer.weightGradients_ne_overrun (hs : st.layer.slots = some s)
    (hfour : st.workspace.FourAxes) (build : Build) :
    weightGradients build st ≠ .error (.tensor .overrun) st' := by
  have hrelease : weightGradients .release st
      ≠ .error (.tensor .overrun) st' := fun hrun =>
    weightGradients_refusal hs hfour hrun
  cases build with
  | release => exact hrelease
  | debug =>
      rcases same_or_emptyRows hs hfour with hsame | ⟨_, -, st₁, hstop⟩
      · rwa [hsame]
      · rw [hstop]
        exact nofun

/-- A call that is answered has computed everything. -/
theorem Layer.derivatives_of_answered (hs : st.layer.slots = some s)
    (hok : weightGradients .release st = .ok () st') :
    ∃ st₁ d, ensureDifferentiated st = .ok () st₁
      ∧ weightDerivatives .release s st₁.workspace = .ok d := by
  rw [weightGradients_eq hs] at hok
  rcases ensureDifferentiated_error_or_ok st with ⟨e, herror⟩ | ⟨st₁, hrun⟩
  · rw [herror] at hok
    cases hok
  · rw [hrun] at hok
    cases hd : weightDerivatives .release s st₁.workspace with
    | ok d => exact ⟨st₁, d, hrun, hd⟩
    | error e =>
        have hstore : storeWeightGradients s st₁ = .error e st₁ :=
          bind_of_error (read_of_error hd)
        cases hstore.symm.trans hok

end

-- =============================================================== sessions

/-- The shapes that a call for the gradients of the weights relies on,
whatever it answers: scratch buffers that fit the layer, hidden rows that are
not empty, and weights of any four extents. -/
structure Session.Shaped (p : SetupPlan) (s : Slots) (st : Session α) :
    Prop where
  slots : st.layer.slots = some s
  unit : 0 < p.unit
  wired : Wired p s st.workspace
  sound : st.workspace.Sound
  weights : ∀ e ∈ st.workspace.weights, e.value.FourAxes

namespace Session.Shaped

variable {st st₁ : Session α}

omit [Scalar α] in
theorem fourAxes (h : Shaped p s st) : st.workspace.FourAxes :=
  h.sound.fourAxes h.weights

/-- The packed derivative is stored in its place, and every shape is kept. -/
theorem ensureDifferentiated (h : Shaped p s st)
    (hrun : Layer.ensureDifferentiated st = .ok () st₁) :
    Shaped p s st₁ := by
  have hconforms := Layer.keeps_ensureDifferentiated
    (P := Conforms st.workspace.declared) keeps_setScratchGrad st h.sound
  rw [final_of_ok hrun] at hconforms
  have hslots : st₁.layer.slots = some s := by
    rcases Layer.ensureDifferentiated_ok hrun with
      ⟨_, -, rfl⟩ | ⟨_, _, -, -, rfl⟩
    · exact h.slots
    · exact h.slots
  obtain ⟨-, -, hweights, -⟩ := Layer.rest_ensureDifferentiated hrun
  refine ⟨hslots, h.unit, ?_, hconforms.sound, ?_⟩
  · exact h.wired.of_declared h.sound hconforms.sound hconforms.declared
  · rw [hweights]
    exact h.weights

/-- A call is the same in both builds, or the debug build stops: once the
packed derivative is there, there are several empty queries, and the release
build computes the derivatives with respect to the weights. -/
theorem same_or_stops (h : Shaped p s st) :
    Layer.weightGradients .debug st = Layer.weightGradients .release st
      ∨ ∃ st₁ d, Layer.ensureDifferentiated st = .ok () st₁
        ∧ EmptyQueries s p.batch st₁.workspace
        ∧ HasShape (st₁.workspace.weight s.hiddenWeight) [1, 1, 0, p.unit]
        ∧ weightDerivatives .release s st₁.workspace = .ok d
        ∧ Layer.weightGradients .debug st
            = .error (.tensor (.asserted 0 p.batch)) st₁ := by
  rcases Layer.weightGradients_follow h.slots fun st₁ hrun =>
      have h₁ := h.ensureDifferentiated hrun
      weightDerivatives_follow_laid (h₁.wired.laid h₁.sound) h.unit
        h₁.fourAxes with
    hsame | ⟨st₁, _, _, hrun, ⟨rfl, rfl, hempty, hshape, d, hd⟩, hstop⟩
  · exact .inl hsame
  · exact .inr ⟨st₁, d, hrun, hempty, hshape, hd, hstop⟩

/-- With weights of the extents that they were requested with, derivatives
that are computed for empty queries are stored. -/
theorem stored_of_empty (h : Shaped p s st)
    (hsized : st.workspace.WeightsSized)
    (hempty : EmptyQueries s n st.workspace)
    (hshape : HasShape (st.workspace.weight s.hiddenWeight) [1, 1, 0, p.unit])
    {d : WeightDerivatives α}
    (hd : weightDerivatives .release s st.workspace = .ok d) :
    ∃ st', Layer.storeWeightGradients s st = .ok () st' := by
  obtain ⟨hhidden, -, hpacked⟩ := h.wired.each_weight_shape hsized
  have hwidth : p.queryWidth = 0 := by
    obtain ⟨weight, hweight, hextents⟩ := hhidden
    have hsame := hextents.symm.trans (Returns.ensures hshape weight hweight)
    simpa using hsame
  have hquery := hempty.query
  rw [← hwidth] at hquery
  obtain ⟨hdhidden, hdbias, hdpacked⟩ := ensures_weightDerivatives
    (h.wired.laid h.sound) hquery hpacked hhidden d hd
  exact h.wired.weightGradients_stored hd hdhidden hdbias hdpacked

/-- With such weights a debug build stops exactly if there are several empty
queries and a release build answers. -/
theorem fails_iff (h : Shaped p s st) (hsized : st.workspace.WeightsSized) :
    st.FailsAssertion n
      ↔ EmptyQueries s n st.workspace
        ∧ ∃ st', Layer.weightGradients .release st = .ok () st' := by
  have hsized₁ : ∀ {st₁}, Layer.ensureDifferentiated st = .ok () st₁ →
      st₁.workspace.WeightsSized := by
    intro st₁ hrun
    obtain ⟨-, -, hweights, -⟩ := Layer.rest_ensureDifferentiated hrun
    exact hsized.congr hweights
  constructor
  · rintro ⟨st', hfails⟩
    rcases h.same_or_stops with
      hsame | ⟨st₁, d, hrun, hempty, hshape, hd, hstop⟩
    · rw [hsame] at hfails
      exact (weightGradients_refusal h.slots h.fourAxes hfails).elim
    · cases hstop.symm.trans hfails
      obtain ⟨hinputs, -⟩ := Layer.rest_ensureDifferentiated hrun
      refine ⟨hempty.congr hinputs.symm, ?_⟩
      rw [Layer.weightGradients_eq h.slots, hrun]
      exact (h.ensureDifferentiated hrun).stored_of_empty (hsized₁ hrun)
        hempty hshape hd
  · rintro ⟨hempty, st', hok⟩
    obtain ⟨st₁, d, hrun, hd⟩ := Layer.derivatives_of_answered h.slots hok
    have h₁ := h.ensureDifferentiated hrun
    obtain ⟨hinputs, -⟩ := Layer.rest_ensureDifferentiated hrun
    obtain ⟨hhidden, -, -⟩ := h₁.wired.each_weight_shape (hsized₁ hrun)
    exact ⟨st₁, Layer.weightGradients_of_error h.slots hrun
      (weightDerivatives_debug_of_empty (h₁.wired.laid h₁.sound) h.unit
        (hempty.congr hinputs) hhidden hd)⟩

end Session.Shaped

section

variable {st : Session α}

/-- In every session of a layer's own the shapes are there, and the weights
have the extents that they were requested with. -/
theorem Session.Native.shaped (h : st.Native s) :
    st.workspace.WeightsSized ∧ ∃ p, st.Shaped p s := by
  obtain ⟨hlayer, l, dims, p, n, hplan, hw⟩ := h.attuned
  obtain ⟨-, -, -, -, -, hunit, -⟩ := Setup.plan_cases hplan
  exact ⟨hw.weights, { p with batch := n }, hlayer.slots, hunit, hw.wired,
    hw.sound, hw.weights.fourAxes⟩

end

-- =================================================================== room

omit [Scalar α] in
/-- Whatever a call can look at has four axes. -/
theorem Workspace.FourAxes.tensors {w : Workspace α} (h : w.FourAxes) :
    ∀ t ∈ w.tensors, t.FourAxes := by
  simp only [Workspace.tensors, List.mem_append, List.mem_map,
    List.mem_filterMap]
  rintro t ((((ht | ht) | ⟨e, he, rfl⟩) | ⟨e, he, rfl⟩) | ⟨e, he, ht⟩)
  · exact h.inputs t ht
  · exact h.incoming t ht
  · exact h.weights e he
  · exact h.scratch e he
  · exact h.scratchGrad e he t ht

/-- The machine can hold whatever a call for gradients computes. -/
def Session.HasRoom (st : Session α) : Prop :=
  st.workspace.HasRoom (st.layer.settings.mixtures.getD 0)

omit [Scalar α] in
/-- On every tensor that a call can look at, what is asserted of its rows is
asserted of numbers that are words. -/
theorem Session.HasRoom.assertRows {st : Session α} (h : st.HasRoom)
    (hfour : st.workspace.FourAxes) {t : Tensor α}
    (ht : t ∈ st.workspace.tensors) :
    (Stored.of t).assertRows = Machine.answer
      (Build.debug.assertEq t.shape.filledRows t.shape.statedRows) := by
  have haxes := hfour.tensors t ht
  obtain ⟨lead, m, k, hshape, -⟩ := Shape.exists_append_two (r := 2) haxes
  exact Stored.assertRows_of hshape (Workspace.HasRoom.addressable h ht haxes)

omit [Scalar α] in
/-- Several empty queries are counted as none, in words as well. -/
theorem EmptyQueries.assertRows {st : Session α}
    (h : EmptyQueries s n st.workspace) (hroom : st.HasRoom)
    (hfour : st.workspace.FourAxes) {query : Tensor α}
    (hquery : st.workspace.input s.query = .ok query) :
    (Stored.of query).assertRows = Machine.refuse (.asserted 0 n) := by
  have hmem : query ∈ st.workspace.tensors := by
    have hinput := List.mem_of_getElem? (lookup_eq_ok.1 hquery)
    simp [Workspace.tensors, hinput]
  have hshape : query.shape = [n, 1] ++ [1, 0] :=
    Returns.ensures h.query query hquery
  have hcounted : (0 : Nat) ≠ Shape.size [n, 1] * 1 := by
    have := h.several
    simp
    omega
  rw [hroom.assertRows hfour hmem, hshape, Shape.filledRows_append_zero,
    Shape.statedRows_append, Build.assertEq, if_neg hcounted]
  simp [Machine.answer, Machine.refuse, Except.mapError]

/-- Where rows are counted by their elements. If a single right factor served
a batch, of any rank and of any extents that the machine can address, a
release build always computes its adjoint, step by step on stored tensors;
the count is right, and the buffers hold so many rows, unless the rows are
empty and there are some, and exactly there a debug build stops at its
assertion, in which both counts are words. A layer runs into this. Whatever
was called before, on the layer, on the workspace or on others, a call for
the gradients of the weights that has room fails the assertion exactly if
there are several empty queries, which are counted as none, and a release
build answers it; any other call is the same in both builds. On any workspace
at all whose tensors have four axes, replaced as they may be, the assertion
fails for empty rows alone, and no call in either build looks for an element
that is not there. -/
theorem row_count_fails_iff_empty :
    (∀ (t u : Tensor α) (lead lead' : Shape) (m k n : Nat),
      t.shape = lead ++ [m, k] → u.shape = lead ++ [m, n] →
      lead'.length = lead.length → lead' ≠ lead → (∀ d ∈ lead', d = 1) →
      t.shape.Addressable → u.shape.Addressable →
      Shape.Addressable (lead' ++ [k, n]) →
        (∃ v, t.matmulGradRight .release u (lead' ++ [k, n]) = .ok v
            ∧ v.shape = lead' ++ [k, n]
            ∧ (Stored.of t).matmulGradRight (.of u) (lead' ++ [k, n])
              = .ok (.of v))
          ∧ (Stored.of t).assertRows = Machine.answer
              (Build.debug.assertEq t.shape.filledRows (lead.size * m))
          ∧ t.data.size = t.shape.filledRows * k
          ∧ (t.shape.filledRows = lead.size * m
              ↔ (k = 0 → lead.size * m = 0))
          ∧ (u.data.size = t.shape.filledRows * n
              ↔ (k = 0 → lead.size * m * n = 0))
          ∧ t.matmulGradRight .debug u (lead' ++ [k, n])
              = if k = 0 ∧ lead.size * m ≠ 0 then
                  .error (.asserted 0 (lead.size * m))
                else t.matmulGradRight .release u (lead' ++ [k, n]))
      ∧ (∀ (s : Slots) (st : Session α), st.Native s → st.HasRoom →
        (∀ n, st.FailsAssertion n ↔ EmptyQueries s n st.workspace
            ∧ ∃ st', Layer.weightGradients .release st = .ok () st')
          ∧ (∀ n query, EmptyQueries s n st.workspace →
            st.workspace.input s.query = .ok query →
              (Stored.of query).assertRows = Machine.refuse (.asserted 0 n))
          ∧ ((∀ n, ¬ st.FailsAssertion n) →
            Layer.weightGradients .debug st
              = Layer.weightGradients .release st))
      ∧ ∀ (s : Slots) (st : Session α), st.layer.slots = some s →
        st.workspace.FourAxes → st.HasRoom →
          (∀ t ∈ st.workspace.tensors, (Stored.of t).assertRows
              = Machine.answer
                (Build.debug.assertEq t.shape.filledRows t.shape.statedRows))
            ∧ (Layer.weightGradients .debug st
                = Layer.weightGradients .release st
              ∨ ∃ n, EmptyRows s n st.workspace ∧ st.FailsAssertion n)
            ∧ ∀ build st', Layer.weightGradients build st
              ≠ .error (.tensor .overrun) st' := by
  refine ⟨?_, ?_, ?_⟩
  · intro t u lead lead' m k n ht hu hrank hlead hones htfits hufits hfits
    obtain ⟨v, hv, hshape⟩ := matmulGradRight_of_flattens ht hu hrank hones
    have hrun := (Stored.mirrors_matmulGradRight ht hrank htfits hufits
      fun _ => hfits).of_ok hv
    have hrows := Stored.assertRows_of ht htfits
    rw [ht, Shape.statedRows_append, ← ht] at hrows
    exact ⟨⟨v, hv, hshape, hrun⟩, hrows, flattened_rows ht hu hlead hones⟩
  · intro s st hnative hroom
    obtain ⟨hsized, p, hshaped⟩ := hnative.shaped
    refine ⟨fun n => hshaped.fails_iff hsized, fun n query hempty hquery =>
      hempty.assertRows hroom hshaped.fourAxes hquery, fun hnever => ?_⟩
    rcases hshaped.same_or_stops with hsame | ⟨st₁, -, -, -, -, -, hstop⟩
    · exact hsame
    · exact absurd ⟨st₁, hstop⟩ (hnever p.batch)
  · intro s st hslots hfour hroom
    exact ⟨fun t ht => hroom.assertRows hfour ht,
      Layer.same_or_emptyRows hslots hfour,
      fun build _ => Layer.weightGradients_ne_overrun hslots hfour build⟩

-- ========================================================== empty queries

/-- A new layer with nothing but zeros, after a forward pass. -/
theorem Session.blank_forwarded (p : SetupPlan) (hunit : 0 < p.unit)
    (hmixtures : 0 < p.mixtures) :
    ∃ st : Session α, Layer.forward (blank p) = .ok () st
      ∧ st.Native (.startingAt 0 0)
      ∧ HasShape (st.workspace.input ⟨0⟩) [p.batch, 1, 1, p.queryWidth]
      ∧ ∃ st', Layer.weightGradients .release st = .ok () st' := by
  have hincoming : (blank p : Session α).workspace.incomingAt 0
      = .ok (cube p.batch 1 p.valueWidth fun _ _ _ => 0) :=
    congrArg Except.ok zeros_cube
  obtain ⟨st, hforward, hmemo, -, hprimed⟩ := Layer.forward_primes rfl rfl
    (blank_wired p hunit hmixtures) (blank_held p) hincoming
  have hnative : (final Layer.forward (blank p : Session α)).Native
      (.startingAt 0 0) :=
    .call (.built (blank_finalize p hunit hmixtures) rfl [] rfl
      Generator.splitMix 0) .forward
  rw [final_of_ok hforward] at hnative
  exact ⟨st, hforward, hnative, ⟨_, hprimed.filled.held.query, rfl⟩, _,
    Layer.weightGradients_succeeds hprimed hmemo⟩

omit [Scalar α] in
/-- Inputs and derivatives that arrive aside, what a call can look at has
extents that were declared or requested. -/
theorem Workspace.Conforms.tensors {b : Blueprint} {w : Workspace α}
    (h : w.Conforms b) (hsized : w.WeightsSized) {t : Tensor α}
    (ht : t ∈ w.tensors) :
    t ∈ w.inputs ∨ t ∈ w.incoming ∨ ∃ d ∈ b.dims, t.shape = d.toShape := by
  have hweights : ∀ e ∈ w.weights, e.decl.dims ∈ b.dims := by
    intro e he
    have hdecl : e.decl ∈ b.weights := h.declared ▸ List.mem_map_of_mem he
    simp only [Blueprint.dims, List.mem_append]
    exact .inl (.inr (List.mem_map_of_mem hdecl))
  have hscratch : ∀ e ∈ w.scratch, e.decl.dims ∈ b.dims := by
    intro e he
    have hdecl : e.decl ∈ b.scratch := h.declared ▸ List.mem_map_of_mem he
    simp only [Blueprint.dims, List.mem_append]
    exact .inr (List.mem_map_of_mem hdecl)
  simp only [Workspace.tensors, List.mem_append, List.mem_map,
    List.mem_filterMap] at ht
  rcases ht with (((ht | ht) | ⟨e, he, rfl⟩) | ⟨e, he, rfl⟩) | ⟨e, he, hgrad⟩
  · exact .inl ht
  · exact .inr (.inl ht)
  · exact .inr (.inr ⟨_, hweights e he, hsized e he⟩)
  · exact .inr (.inr ⟨_, hscratch e he, (h.scratch e he).value⟩)
  · exact .inr (.inr ⟨_, hscratch e he, (h.scratch e he).grad hgrad⟩)

/-- After a forward pass on nothing but zeros everything has extents of the
plan. -/
theorem Session.blank_tensors {p : SetupPlan} {st : Session α}
    (hforward : Layer.forward (blank p) = .ok () st)
    (hsized : st.workspace.WeightsSized) :
    ∀ t ∈ st.workspace.tensors, ∃ d ∈ p.dims, t.shape = d.toShape := by
  have hconforms := Layer.keeps_forward
    (P := Conforms (Setup.finalized p (blankSettings p) (blankBlueprint p)))
    keeps_setScratch keeps_setOutput (blank p : Session α)
    (conforms_build _ _ _)
  rw [final_of_ok hforward] at hconforms
  obtain ⟨v, -, -, -, rfl⟩ :=
    (Layer.forward_ok_iff (s := .startingAt 0 0) rfl rfl).1 hforward
  intro t ht
  rcases hconforms.tensors hsized ht with hin | hin | hdims
  · rw [withWorkspace, ForwardValues.put_eq] at hin
    obtain ⟨d, hd, rfl⟩ := List.mem_map.1
      (hin : t ∈ p.inputDims.map fun d => .zeros d.toShape)
    have hplanned : d ∈ p.inputDims := hd
    exact ⟨d, by simp [SetupPlan.dims, hplanned], rfl⟩
  · rw [withWorkspace, ForwardValues.put_eq] at hin
    obtain ⟨d, hd, rfl⟩ := List.mem_map.1
      (hin : t ∈ [p.outputDims].map fun d => .zeros d.toShape)
    have hplanned : d = p.outputDims := List.mem_singleton.1 hd
    exact ⟨d, by simp [SetupPlan.dims, hplanned], rfl⟩
  · exact hdims

/-- Where the queries have one element, in binary64, no assertion fails, and
nothing is looked for in vain. -/
theorem row_count_fails_iff_empty_one_element :
    (∃ v, (Stored.of (.ones [2, 1, 1, 1] : Tensor Float)).matmulGradRight
          (.of (.ones [2, 1, 1, 3])) [1, 1, 1, 3] = .ok (.of v)
        ∧ v.shape = [1, 1, 1, 3])
      ∧ ∃ st : Session Float,
        Layer.forward (.blank ⟨2, 1, 1, 1, 1, 1⟩) = .ok () st
          ∧ st.Native (.startingAt 0 0) ∧ st.workspace.FourAxes ∧ st.HasRoom
          ∧ (∀ n, ¬ st.FailsAssertion n)
          ∧ Layer.weightGradients .debug st
              = Layer.weightGradients .release st
          ∧ ∀ build st', Layer.weightGradients build st
              ≠ .error (.tensor .overrun) st' := by
  obtain ⟨hadjoint, hown, hany⟩ := row_count_fails_iff_empty (α := Float)
  constructor
  · obtain ⟨⟨v, -, hshape, hrun⟩, -⟩ := hadjoint (.ones [2, 1, 1, 1])
      (.ones [2, 1, 1, 3]) [2, 1] [1, 1] 1 1 3 rfl rfl rfl (by decide)
      (by decide) (by decide) (by decide) (by decide)
    exact ⟨v, hrun, hshape⟩
  obtain ⟨st, hforward, hnative, hquery, -⟩ := Session.blank_forwarded
    (α := Float) ⟨2, 1, 1, 1, 1, 1⟩ (by decide) (by decide)
  obtain ⟨hsized, p, hshaped⟩ := hnative.shaped
  have hroom : st.HasRoom := by
    have hsettings : st.layer.settings.mixtures = some 1 := by
      obtain ⟨_, -, -, -, rfl⟩ :=
        (Layer.forward_ok_iff (s := .startingAt 0 0) rfl rfl).1 hforward
      rfl
    rw [Session.HasRoom, hsettings]
    refine Workspace.hasRoom_of_le (n := 3) ?_ (by decide) (by decide)
      (by decide)
    intro t ht d hd
    obtain ⟨dims, hdims, hshape⟩ :=
      Session.blank_tensors hforward hsized t ht
    rw [hshape] at hd
    exact (by decide : ∀ dims ∈ SetupPlan.dims ⟨2, 1, 1, 1, 1, 1⟩,
      ∀ d ∈ dims.toShape, d ≤ 3) dims hdims d hd
  obtain ⟨hfails, -, hplain⟩ := hown _ st hnative hroom
  have hnever : ∀ n, ¬ st.FailsAssertion n := by
    intro n hn
    obtain ⟨hempty, -⟩ := (hfails n).1 hn
    obtain ⟨query, hstored, hshape⟩ := hquery
    have hsame := hshape.symm.trans
      (Returns.ensures hempty.query query hstored)
    simp at hsame
  exact ⟨st, hforward, hnative, hshaped.fourAxes, hroom, hnever,
    hplain hnever, (hany _ st hshaped.slots hshaped.fourAxes hroom).2.2⟩

/-- Two empty queries, in binary64. They have two rows, of which none is
counted. A layer is set up on them, its forward pass succeeds, and in a
release build so does the call for the gradients of the weights; a debug
build stops. -/
theorem two_empty_queries_stop :
    (∃ t u : Tensor Float, t.shape = [2, 1, 1, 0] ∧ u.shape = [2, 1, 1, 3]
        ∧ t.shape.filledRows ≠ Shape.size [2, 1] * 1
        ∧ u.data.size ≠ t.shape.filledRows * 3
        ∧ t.matmulGradRight .debug u [1, 1, 0, 3]
            = .error (.asserted 0 2))
      ∧ ∃ st : Session Float,
        Layer.forward (.blank ⟨2, 0, 1, 1, 1, 1⟩) = .ok () st
          ∧ (∃ st', Layer.weightGradients .release st = .ok () st')
          ∧ ∃ st', Layer.weightGradients .debug st
              = .error (.tensor (.asserted 0 2)) st' := by
  constructor
  · refine ⟨.zeros [2, 1, 1, 0], .zeros [2, 1, 1, 3], rfl, rfl, by decide,
      ?_, gradRight_of_empty (by decide) rfl rfl⟩
    rw [Tensor.size_eq]
    decide
  · obtain ⟨st, hforward, hnative, hquery, hanswered⟩ :=
      Session.blank_forwarded (α := Float) ⟨2, 0, 1, 1, 1, 1⟩ (by decide)
        (by decide)
    obtain ⟨hsized, p, hshaped⟩ := hnative.shaped
    exact ⟨st, hforward, hanswered,
      (hshaped.fails_iff hsized).2 ⟨⟨by decide, hquery⟩, hanswered⟩⟩

end MixtureAttention
