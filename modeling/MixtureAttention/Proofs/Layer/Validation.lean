/-
What a setup lets through, against what a layer can run. A setup checks all
extents of the state but only the batch extent of the query and the values
(`Layer.Admits`), so it lets queries with several channels or rows through,
and values with several channels. None of these can be run. The hidden
projection keeps the channels and the rows of the query and is stored where
one of each is expected, and the scores meet the values channel by channel.

So the inputs that can be run are exactly those of a `SetupPlan`
(`runs_iff_documented`), as long as the machine can count through what is
requested for them (`Setup.Fits`). The others fail in every forward pass, whatever is
called in between: no stored input changes an extent beyond the batch, and
no weight, of whatever extents, takes a channel or a row away
(`Running.units_of_forward`).
-/
import MixtureAttention.Proofs.Layer.Readiness

namespace MixtureAttention

open Workspace

variable {α : Type}

-- ================================================= shapes of what succeeds

/-- Two axes share extent one only if both have it. -/
theorem joinAxis_eq_one {a b : Nat} (h : Shape.joinAxis a b = some 1) :
    a = 1 ∧ b = 1 := by
  obtain ⟨ha, hb⟩ := Tensor.joinAxis_cases h
  exact ⟨ha.elim id id, hb.elim id id⟩

/-- Shapes are joined axis by axis. -/
theorem cons_of_join {a d : Nat} {as ds s : Shape}
    (h : Shape.join (a :: as) s = some (d :: ds)) :
    ∃ b bs, s = b :: bs ∧ Shape.joinAxis a b = some d
      ∧ Shape.join as bs = some ds := by
  cases s with
  | nil => cases h
  | cons b bs =>
      obtain ⟨d', hd, h⟩ := Option.bind_eq_some_iff.1 h
      obtain ⟨ds', hds, h⟩ := Option.bind_eq_some_iff.1 h
      cases h
      exact ⟨b, bs, rfl, hd, hds⟩

/-- The first of two shapes that share a single row for each batch entry
has a single row for each batch entry. -/
theorem units_of_join {b c h w n u : Nat} {s : Shape}
    (hjoin : Shape.join [b, c, h, w] s = some [n, 1, 1, u]) :
    c = 1 ∧ h = 1 := by
  obtain ⟨_, _, -, -, hjoin⟩ := cons_of_join hjoin
  obtain ⟨_, _, -, hc, hjoin⟩ := cons_of_join hjoin
  obtain ⟨_, _, -, hh, -⟩ := cons_of_join hjoin
  exact ⟨(joinAxis_eq_one hc).1, (joinAxis_eq_one hh).1⟩

/-- The leading axes of a shape with four axes are the first two. -/
theorem lead_of_four {b c h w m n : Nat} {lead : Shape}
    (heq : [b, c, h, w] = lead ++ [m, n]) :
    lead = [b, c] ∧ m = h ∧ n = w := by
  have hsplit : [b, c] ++ [h, w] = lead ++ [m, n] := heq
  obtain ⟨hlead, hrest⟩ := List.append_inj' hsplit rfl
  cases hrest
  exact ⟨hlead.symm, rfl, rfl⟩

namespace Tensor

variable {s t u : Tensor α}

/-- What two tensors combine to has the shape that they share. -/
theorem join_of_combine [Zero α] {op : α → α → α}
    (h : s.combine op t = .ok u) :
    Shape.join s.shape t.shape = some u.shape := by
  obtain ⟨⟨data, shape⟩, hflat, hdata⟩ := exists_of_bind h
  have hshape : u.shape = shape := ensures_ofArray _ hdata
  obtain ⟨joined, hjoined, hrest⟩ := exists_of_bind (of_liftFlat_ok hflat)
  have hsame : joined = shape := by
    split at hrest
    · cases hrest
      rfl
    · obtain ⟨_, -, hrest⟩ := exists_of_bind hrest
      cases hrest
      rfl
  unfold Flat.joinShapes at hjoined
  split at hjoined
  · cases hjoined
  · split at hjoined
    · next hjoin =>
        cases hjoined
        rw [hjoin, hshape, hsame]
    · cases hjoined

end Tensor

-- ============================================= what a forward pass combines

section

variable [Scalar α] {s : Slots} {w : Workspace α}

/-- The first and the last product of a forward pass, and what the stored
hidden projection was added up from. -/
theorem forwardValues_products {k : Nat} :
    Ensures (fun v : ForwardValues α =>
        ∃ query value weight bias projected : Tensor α,
          w.input s.query = .ok query ∧ w.input s.value = .ok value
          ∧ query.matmul weight = .ok projected
          ∧ w.weight s.hiddenBias = .ok bias
          ∧ projected.add bias = .ok v.hiddenSum
          ∧ v.scores.shape = [query.extent 0, 1, 1, value.extent 2]
          ∧ v.scores.matmul value = .ok v.output)
      (forwardValues s k w) := by
  unfold forwardValues
  refine .bind (.self _) fun query hquery => ?_
  refine .bind (.self _) fun value hvalue => ?_
  refine .skip fun state => .skip fun _ => .skip fun _ => ?_
  refine .skip fun weight => ?_
  refine .bind (Ensures.self _).lift fun projected hprojected => ?_
  refine .bind (.self _) fun bias hbias => ?_
  refine .bind (Ensures.self _).lift fun hiddenSum hsum => ?_
  refine .skip fun packedWeight => .skip fun logits => .skip fun mix => ?_
  refine .skip fun centres => .skip fun upperEdge => .skip fun lowerEdge => ?_
  refine .skip fun mass => .skip fun weighted => .skip fun summed => ?_
  refine .bind ensures_reshape.lift fun scores hscores => ?_
  refine .bind (Ensures.self _).lift fun output houtput => ?_
  rintro v ⟨⟩
  exact ⟨query, value, weight, bias, projected, hquery, hvalue, hprojected,
    hbias, hsum, hscores, houtput⟩

variable {p : SetupPlan} {query value : Dims} {dims : List Dims}
  {st st' : Session α} {k : Nat} {v : ForwardValues α}

/-- The hidden projection is stored with one row for each batch entry, and
what it was added up from keeps the axes of the query. -/
theorem Running.join_of_values
    (h : Running p s (query :: value :: dims) st)
    (hv : forwardValues s k st.workspace = .ok v)
    (hfit : st.workspace.fitsScratch s.hiddenSum v.hiddenSum = .ok ()) :
    ∃ tquery bias r, st.workspace.input s.query = .ok tquery
      ∧ st.workspace.weight s.hiddenBias = .ok bias
      ∧ Shape.join [tquery.extent 0, query.channel, query.height, r]
          bias.shape = some [p.batch, 1, 1, p.unit] := by
  obtain ⟨tquery, -, weight, bias, projected, hquery, -, hprojected, hbias,
    hsum, -⟩ := forwardValues_products v hv
  have hmem : (s.hiddenSum, p.hiddenDims) ∈ s.scratch.zip p.scratchDims := by
    simp [Slots.scratch, SetupPlan.scratchDims]
  have hstored : v.hiddenSum.shape = [p.batch, 1, 1, p.unit] :=
    h.wired.shape_of_fits hmem hfit
  have htquery : tquery.shape
      = [tquery.extent 0, query.channel, query.height, query.width] := by
    obtain ⟨i, j, rfl⟩ := h.wired.slots
    obtain ⟨t, -, ht, hshape⟩ := h.input (i := ⟨0⟩) (d := query) rfl
    cases hquery.symm.trans ht
    exact hshape
  obtain ⟨lead, lead', m, n, r, hleft, -, -, hproduct⟩ :=
    Tensor.matmul_ok hprojected
  obtain ⟨rfl, rfl, -⟩ := lead_of_four (htquery.symm.trans hleft)
  have hjoin := Tensor.join_of_combine hsum
  rw [hproduct, hstored] at hjoin
  exact ⟨tquery, bias, r, hquery, hbias, hjoin⟩

/-- So the query has one row and one channel, and so do the values, which
meet the scores channel by channel. -/
theorem Running.units_of_values
    (h : Running p s (query :: value :: dims) st)
    (hv : forwardValues s k st.workspace = .ok v)
    (hfit : st.workspace.fitsScratch s.hiddenSum v.hiddenSum = .ok ()) :
    query.channel = 1 ∧ query.height = 1 ∧ value.channel = 1 := by
  obtain ⟨_, _, _, -, -, hjoin⟩ := h.join_of_values hv hfit
  obtain ⟨_, tvalue, _, _, _, -, hvalue, -, -, -, hscores, houtput⟩ :=
    forwardValues_products v hv
  obtain ⟨hchannel, hheight⟩ := units_of_join hjoin
  refine ⟨hchannel, hheight, ?_⟩
  obtain ⟨i, j, rfl⟩ := h.wired.slots
  obtain ⟨t, -, ht, htvalue⟩ := h.input (i := ⟨1⟩) (d := value) rfl
  cases hvalue.symm.trans ht
  obtain ⟨lead, lead', m, n, r, hleft, hright, hserves, -⟩ :=
    Tensor.matmul_ok houtput
  obtain ⟨rfl, -, -⟩ := lead_of_four (hscores.symm.trans hleft)
  obtain ⟨rfl, -, -⟩ := lead_of_four (htvalue.symm.trans hright)
  rcases hserves with hsame | ⟨-, hones⟩
  · exact (List.cons.inj (List.cons.inj hsame).2).1
  · exact hones _ (by simp)

/-- A forward pass succeeds only if the query has one row and both it and the
values have one channel. -/
theorem Running.units_of_forward
    (h : Running p s (query :: value :: dims) st)
    (hrun : Layer.forward st = .ok () st') :
    query.channel = 1 ∧ query.height = 1 ∧ value.channel = 1 := by
  obtain ⟨v, hv, hfits, -, -⟩ :=
    (Layer.forward_ok_iff h.slots h.mixtures).1 hrun
  exact h.units_of_values hv
    (hfits (s.hiddenSum, v.hiddenSum) (by simp [ForwardValues.scratchStores]))

end

-- ================================================================= setups

/-- The settings and the declared inputs that a setup lets through. -/
def Layer.Admits (l : Layer α) (inputs : List Dims) : Prop :=
  ∃ query value state unit k, inputs = [query, value, state]
    ∧ l.settings.unit = some unit ∧ 0 < unit
    ∧ l.settings.mixtures = some k ∧ 0 < k
    ∧ value.batch = query.batch ∧ state = ⟨query.batch, 1, 1, k⟩

/-- The settings and the declared inputs of a plan. -/
def Layer.Documents (l : Layer α) (inputs : List Dims) : Prop :=
  ∃ p : SetupPlan, inputs = p.inputDims
    ∧ l.settings.unit = some p.unit ∧ 0 < p.unit
    ∧ l.settings.mixtures = some p.mixtures ∧ 0 < p.mixtures

variable {l : Layer α} {b : Blueprint} {setup : Setup α}

theorem Layer.Admits.plan {inputs : List Dims} (h : l.Admits inputs) :
    ∃ p, SetupPlan.of l inputs = .ok p := by
  obtain ⟨query, value, state, unit, k, rfl, hunit, hpos, hk, hkpos, hvalue,
    rfl⟩ := h
  have hunit? : l.unit? = .ok unit := by rw [Layer.unit?, hunit]
  have hu : checkPositive .unit unit = .ok () :=
    if_neg (Nat.ne_of_gt hpos)
  have hmixtures : checkPositive .mixtures k = .ok () :=
    if_neg (Nat.ne_of_gt hkpos)
  have hbatch : checkBatch query.batch value.toShape = .ok () := by
    refine if_pos ?_
    rw [← hvalue]
    rfl
  have hstate : checkBatch query.batch
      (Dims.toShape ⟨query.batch, 1, 1, k⟩) = .ok () := if_pos rfl
  unfold SetupPlan.of
  dsimp only
  rw [hunit?, ok_bind, Layer.mixtures?_of_some hk, ok_bind, hu, ok_bind,
    hmixtures, ok_bind, hbatch, ok_bind, hstate, ok_bind]
  exact ⟨_, if_neg fun hne => hne rfl⟩

/-- What a setup lets through, exactly. -/
theorem finalize_ok_iff :
    (∃ setup, Setup.finalize ⟨l, b⟩ = .ok () setup) ↔ l.Admits b.inputs := by
  constructor
  · rintro ⟨setup, hfinal⟩
    obtain ⟨p, hplan, -⟩ := Setup.finalize_cases hfinal
    obtain ⟨query, value, state, hinputs, hunit, hpos, hk, hkpos, hquery, -,
      hvalue, -, -, hstate⟩ := Setup.plan_cases hplan
    refine ⟨query, value, state, p.unit, p.mixtures, hinputs, hunit, hpos,
      hk, hkpos, hvalue.trans hquery.symm, ?_⟩
    rw [hquery, hstate]
  · intro hadmits
    obtain ⟨p, hplan⟩ := hadmits.plan
    exact ⟨_, Setup.finalize_of_plan hplan⟩

theorem Layer.Documents.admits {inputs : List Dims}
    (h : l.Documents inputs) : l.Admits inputs := by
  obtain ⟨p, rfl, hunit, hpos, hk, hkpos⟩ := h
  exact ⟨_, _, _, p.unit, p.mixtures, rfl, hunit, hpos, hk, hkpos, rfl, rfl⟩

/-- What is let through with single channels and a single row of the query
are the inputs of a plan. -/
theorem Layer.Admits.documents {query value : Dims} {dims : List Dims}
    (h : l.Admits (query :: value :: dims))
    (hunits : query.channel = 1 ∧ query.height = 1 ∧ value.channel = 1) :
    l.Documents (query :: value :: dims) := by
  obtain ⟨query', value', state, unit, k, hinputs, hunit, hpos, hk, hkpos,
    hvalue, rfl⟩ := h
  cases hinputs
  obtain ⟨batch, channel, height, width⟩ := query
  obtain ⟨batch', channel', height', width'⟩ := value
  obtain ⟨rfl, rfl, rfl⟩ := hunits
  obtain rfl : batch' = batch := hvalue
  exact ⟨⟨batch', width, height', width', unit, k⟩, rfl, hunit, hpos, hk,
    hkpos⟩

-- ==================================================== setups and their runs

variable [Scalar α]

/-- A forward pass after any calls succeeds only if the inputs are those of
a plan. -/
theorem documents_of_forward (hfinal : Setup.finalize ⟨l, b⟩ = .ok () setup)
    (g : Generator) (seed : UInt64) (as : List (Action α))
    (hrun : ∃ st', Layer.forward ((Session.start setup g seed).after as)
      = .ok () st') : l.Documents b.inputs := by
  obtain ⟨st', hrun⟩ := hrun
  obtain ⟨p, s, -, hstart, -⟩ := running_start hfinal g seed
  have hadmits := finalize_ok_iff.1 ⟨setup, hfinal⟩
  obtain ⟨query, value, state, _, _, hinputs, -⟩ := id hadmits
  rw [hinputs] at hadmits hstart ⊢
  exact hadmits.documents ((hstart.after as).units_of_forward hrun)

/-- The inputs of a plan can be run at once. -/
theorem Layer.Documents.forward (hdoc : l.Documents b.inputs)
    (hfinal : Setup.finalize ⟨l, b⟩ = .ok () setup) (g : Generator)
    (seed : UInt64) :
    ∃ st', Layer.forward (Session.start setup g seed) = .ok () st' := by
  obtain ⟨p, hinputs, hunit, -⟩ := hdoc
  obtain ⟨p', s, hplan, hstart, hsized⟩ := running_start hfinal g seed
  rw [hinputs] at hplan hstart
  obtain rfl := SetupPlan.eq_of_inputDims hplan hunit
  refine (hstart.forward_ok_iff hsized).2 ?_
  have hbuilt : (Session.start setup g seed).workspace.inputs
      = p.inputDims.map fun d => .zeros d.toShape := by
    obtain ⟨_, -, rfl⟩ := Setup.finalize_cases hfinal
    show b.inputs.map _ = _
    rw [hinputs]
  rw [hbuilt]
  simp only [SetupPlan.inputDims, List.map_cons, List.map_nil,
    List.forall_mem_cons]
  exact ⟨rfl, rfl, rfl, List.forall_mem_nil _⟩

/-- What a setup lets through, and what of it can be run, on a machine that
has room for what is requested. A layer is set up on exactly the settings and
inputs that `Layer.Admits` says. It is set up, everything that was requested
is allocated and the layer passes forward on it exactly if they are those of
a plan. Whatever else is let through fails in every forward pass, after any
calls. -/
theorem runs_iff_documented (l : Layer α) (b : Blueprint)
    (hfits : Setup.Fits l b) (g : Generator) (seed : UInt64) :
    ((∃ setup, Setup.finalize ⟨l, b⟩ = .ok () setup) ↔ l.Admits b.inputs)
      ∧ ((∃ setup st', Setup.finalize ⟨l, b⟩ = .ok () setup
            ∧ Machine.Allocates α setup.blueprint.dims
            ∧ Layer.forward (Session.start setup g seed) = .ok () st')
          ↔ l.Documents b.inputs)
      ∧ ∀ setup, Setup.finalize ⟨l, b⟩ = .ok () setup →
          ¬ l.Documents b.inputs → ∀ (as : List (Action α)) (st' : Session α),
            Layer.forward ((Session.start setup g seed).after as)
              ≠ .ok () st' := by
  refine ⟨finalize_ok_iff, ⟨?_, ?_⟩, ?_⟩
  · rintro ⟨setup, st', hfinal, -, hrun⟩
    exact documents_of_forward hfinal g seed [] ⟨st', hrun⟩
  · intro hdoc
    obtain ⟨setup, hfinal⟩ := finalize_ok_iff.2 hdoc.admits
    obtain ⟨st', hrun⟩ := hdoc.forward hfinal g seed
    exact ⟨setup, st', hfinal,
      Machine.HasRoom.allocates (hfits.addressable hfinal), hrun⟩
  · intro setup hfinal hdoc as st' hrun
    exact hdoc (documents_of_forward hfinal g seed as ⟨st', hrun⟩)

/-- A batch of two with three positions is let through and runs. -/
theorem runs_iff_documented_three_positions :
    let p : SetupPlan := ⟨2, 3, 3, 1, 2, 2⟩
    let l : Layer Float := { settings := Session.blankSettings p }
    Setup.Fits l (Session.blankBlueprint p)
      ∧ ∃ setup st', Setup.finalize ⟨l, Session.blankBlueprint p⟩
            = .ok () setup
          ∧ Layer.forward (Session.start setup .splitMix 7) = .ok () st' := by
  intro p l
  have hfits : Setup.Fits l (Session.blankBlueprint p) := by
    intro p' hplan
    rw [Session.blank_plan p (by decide) (by decide)] at hplan
    cases hplan
    decide
  have hdoc : l.Documents (Session.blankBlueprint p).inputs :=
    ⟨p, rfl, rfl, by decide, rfl, by decide⟩
  obtain ⟨-, hruns, -⟩ := runs_iff_documented l (Session.blankBlueprint p)
    hfits .splitMix 7
  obtain ⟨setup, st', hfinal, -, hforward⟩ := hruns.2 hdoc
  exact ⟨hfits, setup, st', hfinal, hforward⟩

/-- A query with two channels is let through, and no forward pass runs. -/
theorem two_channels_let_through :
    let l : Layer Float := { settings := { unit := some 1, mixtures := some 1 } }
    let b := Blueprint.new "attn" [⟨1, 2, 1, 1⟩, ⟨1, 1, 1, 1⟩, ⟨1, 1, 1, 1⟩]
    ∃ setup, Setup.finalize ⟨l, b⟩ = .ok () setup
      ∧ ∀ (g : Generator) (seed : UInt64) (st' : Session Float),
          Layer.forward (Session.start setup g seed) ≠ .ok () st' := by
  intro l b
  have hadmits : l.Admits b.inputs :=
    ⟨_, _, _, 1, 1, rfl, rfl, Nat.one_pos, rfl, Nat.one_pos, rfl, rfl⟩
  obtain ⟨setup, hfinal⟩ := finalize_ok_iff.2 hadmits
  refine ⟨setup, hfinal, fun g seed st' hrun => ?_⟩
  obtain ⟨p, s, -, hstart, -⟩ := running_start hfinal g seed
  exact absurd (hstart.units_of_forward hrun).1 (by decide)

end MixtureAttention
