import Mathlib.Algebra.BigOperators.Fin
import Feedforward.Proofs.Graph.Rearrangement
import Feedforward.Proofs.Network.Columns
import Feedforward.Proofs.Network.Keyed
import Feedforward.Proofs.Network.Success

/-!
# Columns that move along with their edges

Where the groups of a graph read from their inputs in another order, the columns of the weights
stand in another order, too. If they have been moved along with the edges (`MovesColumns`), all
groups compute the same over exact arithmetic,

    Computes g data v y  ↔  Computes g' data' (handle v) y,

since a sum over edges does not depend on their order (`weightedSum_eq`). So the networks answer
the same vectors, handed in by group, with the same array, or both refuse them
(`MovesColumns.run_iff`). The order of the layers plays no part in this.
-/

namespace Feedforward

/-! ## The other graph -/

namespace Graph.Rearrangement

variable {A : Type} {g g' : Graph A} {output v : Handle} (e : g.Rearrangement g' output)
include e

/-- A group that reads the same amount in another order needs the same room. -/
theorem hasRoom [Arithmetic A] {alloc : Allocation A} (hv : g.Reaches output v)
    (hroom : g.HasRoom alloc v) : g'.HasRoom alloc (e.handle v) := by
  rw [HasRoom, e.cardinality v hv, e.inputSize_eq hv, Ne, e.inputs_eq_nil_iff hv]
  exact hroom

/-- The other graph is compiled wherever this one is. -/
theorem exists_compile [Arithmetic A] {alloc : Allocation A} {zeros : Nat → A}
    {gen gen' : Generator} {net : Network A} (hlaw : alloc.Lawful zeros)
    (hcompile : g.compile alloc output gen = (.ok net, gen')) :
    ∃ net' gen'', g'.compile alloc (e.handle output) gen = (.ok net', gen'') := by
  obtain ⟨hacyclic, hroom⟩ := (exists_compile_iff hlaw).mp ⟨net, gen', hcompile⟩
  refine (exists_compile_iff hlaw).mpr ⟨e.acyclicFrom hacyclic, fun x hx => ?_⟩
  obtain ⟨v, hv, rfl⟩ := e.reaches_iff.mp hx
  exact e.hasRoom hv (hroom v hv)

/-- The activation of a group is carried along with it. -/
theorem activate_eq_ok_iff (hv : g.Reaches output v) {a b : A} :
    g'.activate (e.handle v) a = .ok b ↔ g.activate v a = .ok b := by
  have hactivation := e.activation v hv
  rw [Graph.activate_eq_ok_iff, Graph.activate_eq_ok_iff]
  cases ht : g.group? v with
  | none =>
      rw [ht, Option.map_none, Option.map_eq_none_iff] at hactivation
      simp [hactivation]
  | some t =>
      rw [ht, Option.map_some] at hactivation
      obtain ⟨t', ht', hsame⟩ := Option.map_eq_some_iff.mp hactivation
      simp [ht', hsame]

end Graph.Rearrangement

namespace Network

variable {A V : Type} {g g' : Graph A} {output : Handle} {net net' : Network A}

/-! ## Vectors by group -/

theorem lookup_map_handle {f : Handle → Handle} (hf : Function.Injective f)
    (entries : List (Handle × V)) (h : Handle) :
    (entries.map (Prod.map f id)).lookup (f h) = entries.lookup h := by
  induction entries with
  | nil => rfl
  | cons entry rest ih =>
      obtain ⟨k, v⟩ := entry
      rw [List.map_cons, Prod.map_apply, lookup_cons_eq_ite, lookup_cons_eq_ite, ih]
      exact if_congr hf.eq_iff rfl rfl

/-- The sources are the same. -/
theorem mem_sourceGroups_iff_of_rearrangement (e : g.Rearrangement g' output)
    (hnet : net.Follows g output) (hnet' : net'.Follows g' (e.handle output)) {x : Handle} :
    x ∈ net'.sourceGroups g' ↔ ∃ h ∈ net.sourceGroups g, e.handle h = x := by
  simp only [sourceGroups, List.mem_filter, Graph.isSource_iff]
  rw [Graph.mem_order_iff hnet', e.reaches_iff]
  constructor
  · rintro ⟨⟨h, hh, rfl⟩, hnil⟩
    exact ⟨h, ⟨(Graph.mem_order_iff hnet).mpr hh, (e.inputs_eq_nil_iff hh).mp hnil⟩, rfl⟩
  · rintro ⟨h, ⟨hmem, hnil⟩, rfl⟩
    have hh := (Graph.mem_order_iff hnet).mp hmem
    exact ⟨⟨h, hh, rfl⟩, (e.inputs_eq_nil_iff hh).mpr hnil⟩

/-- The same entries are accepted. -/
theorem exists_accept_iff_of_rearrangement (e : g.Rearrangement g' output)
    (hnet : net.Follows g output) (hnet' : net'.Follows g' (e.handle output))
    (entries : List (Handle × V)) :
    (∃ given, net.accept g (.keyed entries) = .ok given) ↔
      ∃ given, net'.accept g' (.keyed (entries.map (Prod.map e.handle id))) = .ok given := by
  have hkeys : ∀ x, x ∈ (entries.map (Prod.map e.handle id)).map (·.1) ↔
      ∃ h ∈ entries.map (·.1), e.handle h = x := by
    intro x
    rw [← List.mem_map, List.map_map, List.map_map]
    rfl
  rw [hnet.exists_accept_keyed_iff, hnet'.exists_accept_keyed_iff]
  simp only [hkeys, mem_sourceGroups_iff_of_rearrangement e hnet hnet']
  constructor
  · intro hsame x
    exact exists_congr fun h => and_congr_left fun _ => hsame h
  · intro hsame h
    simpa only [e.injective.eq_iff, exists_eq_right] using hsame (e.handle h)

end Network

/-! ## Values -/

section Exact

variable {α V : Type} [Semiring α] {g g' : Graph (Tensor α)} {output v : Handle}

namespace Graph.Rearrangement

/-- A sum over the edges does not depend on their order. -/
theorem weightedSum_eq (e : g.Rearrangement g' output) (hv : g.Reaches output v)
    {weight weight' : Nat → α} {component component' : Handle → Nat → α}
    (hweight : ∀ j : Fin (g.inputs v).length,
      ∀ c < g.cardinality ((g.inputs v).get (e.edge v j)),
        weight' (g'.offset (e.handle v) j + c) = weight (g.offset v (e.edge v j) + c))
    (hcomponent : ∀ u ∈ g.inputs v, component' (e.handle u) = component u) :
    g'.weightedSum (e.handle v) weight' component' = g.weightedSum v weight component := by
  rw [weightedSum, weightedSum]
  refine Fintype.sum_equiv ((finCongr (e.length_inputs hv)).trans (e.edge v)) _ _ fun j => ?_
  rw [e.get_inputs hv j, Equiv.trans_apply, finCongr_apply]
  have hmem : (g.inputs v).get (e.edge v (j.cast (e.length_inputs hv))) ∈ g.inputs v :=
    List.get_mem _ _
  rw [e.cardinality _ (hv.tail hmem), hcomponent _ hmem]
  refine Finset.sum_congr rfl fun c hc => ?_
  rw [← hweight _ c (Finset.mem_range.mp hc)]
  rfl

variable [Readable V (Tensor α)] {data data' : RunData V (Tensor α)}

/-- What the values depend on is the same on both sides: the vectors, by group, and the weights,
with each block of columns where its edge has been moved to. -/
structure CarriesData (e : g.Rearrangement g' output) (data data' : RunData V (Tensor α)) :
    Prop where
  like : data'.like = data.like
  vector : ∀ h, data'.vector (e.handle h) = data.vector h
  weights : ∀ v, g.Reaches output v → g.inputs v ≠ [] → ∃ w w' : Tensor α,
    data.weights v = some w ∧ w.shape = [g.cardinality v, g.inputSize v] ∧
    data'.weights (e.handle v) = some w' ∧ w'.shape = [g.cardinality v, g.inputSize v] ∧
    ∀ r < g.cardinality v, ∀ j : Fin (g.inputs v).length,
      ∀ c < g.cardinality ((g.inputs v).get (e.edge v j)),
        w'.entry r (g'.offset (e.handle v) j + c) = w.entry r (g.offset v (e.edge v j) + c)

namespace CarriesData

variable {e : g.Rearrangement g' output} (h : e.CarriesData data data')
include h

omit [Readable V (Tensor α)] in
/-- The weights of a group times its joined inputs, on both sides. -/
theorem exists_product (hv : g.Reaches output v) (hne : g.inputs v ≠ [])
    {values values' : Handle → Tensor α}
    (hvalues : ∀ u ∈ g.inputs v, (values u).shape = [g.cardinality u])
    (hsame : ∀ u ∈ g.inputs v, values' (e.handle u) = values u) :
    ∃ w w' x x' z, data.weights v = some w ∧ data'.weights (e.handle v) = some w' ∧
      Arithmetic.join ((g.inputs v).map values) = .ok x ∧
      Arithmetic.join ((g'.inputs (e.handle v)).map values') = .ok x' ∧
      Arithmetic.product w x = .ok z ∧ Arithmetic.product w' x' = .ok z := by
  obtain ⟨w, w', hw, hshape, hw', hshape', hentries⟩ := h.weights v hv hne
  have hvalues' : ∀ x ∈ g'.inputs (e.handle v), (values' x).shape = [g'.cardinality x] := by
    intro x hx
    obtain ⟨u, hu, rfl⟩ := (e.mem_inputs_iff hv).mp hx
    rw [hsame u hu, hvalues u hu, e.cardinality u (hv.tail hu)]
  rw [← e.inputSize_eq hv, ← e.cardinality v hv] at hshape'
  -- both sides are weighted sums
  obtain ⟨x, z, hx, -, hz, hrows, hsum⟩ := exists_weightedSum hne hvalues hshape
  obtain ⟨x', z', hx', -, hz', hrows', hsum'⟩ :=
    exists_weightedSum (mt (e.inputs_eq_nil_iff hv).mp hne) hvalues' hshape'
  rw [e.cardinality v hv] at hrows' hsum'
  -- and these sums have the same summands, in another order
  have hequal : z' = z := by
    refine Tensor.ext_component hrows' hrows fun r hr => ?_
    rw [hsum' r hr, hsum r hr]
    refine e.weightedSum_eq hv (hentries r hr) fun u hu => ?_
    rw [hsame u hu]
  rw [hequal] at hz'
  exact ⟨w, w', x, x', z, hw, hw', hx, hx', hz, hz'⟩

/-- A group whose inputs have the same values on both sides computes the same on both. -/
theorem computes_iff (hv : g.Reaches output v)
    (hinputs : ∀ u ∈ g.inputs v, ∃ s : Tensor α, s.shape = [g.cardinality u] ∧
      g.Denotes data u s ∧ g'.Denotes data' (e.handle u) s) {y : Tensor α} :
    g.Computes data v y ↔ g'.Computes data' (e.handle v) y := by
  have hnil' := e.inputs_eq_nil_iff hv
  -- a source reads its vector, and any other group what its inputs denote
  by_cases hnil : g.inputs v = []
  · rw [computes_iff_of_nil hnil, computes_iff_of_nil (hnil'.mpr hnil), h.vector, h.like]
    simp only [e.activate_eq_ok_iff hv]
  -- from the values of the inputs on both sides to those of the group
  · have : Nonempty (Tensor α) := ⟨data.like⟩
    choose! values hshape hdenotes hdenotes' using hinputs
    -- the same values, by the handles of the other side
    have hsame : ∀ u, (values ∘ Function.invFun e.handle) (e.handle u) = values u := fun u =>
      congrArg values (Function.leftInverse_invFun e.injective u)
    have hvalues' : ∀ x ∈ g'.inputs (e.handle v),
        g'.Denotes data' x ((values ∘ Function.invFun e.handle) x) := by
      intro x hx
      obtain ⟨u, hu, rfl⟩ := (e.mem_inputs_iff hv).mp hx
      rw [hsame]
      exact hdenotes' u hu
    obtain ⟨w, w', x, x', z, hw, hw', hx, hx', hz, hz'⟩ :=
      h.exists_product hv hnil hshape fun u _ => hsame u
    rw [computes_iff_of_values hnil hdenotes hx hw hz,
      computes_iff_of_values (mt hnil'.mp hnil) hvalues' hx' hw' hz', e.activate_eq_ok_iff hv]

/-- If every group computes a vector of its size on one side or the other, then each computes the
same one on both. -/
theorem exists_computes (hacyclic : g.AcyclicFrom output)
    (hsome : ∀ v, g.Reaches output v → ∃ y : Tensor α, y.shape = [g.cardinality v] ∧
      (g.Computes data v y ∨ g'.Computes data' (e.handle v) y)) :
    ∀ v, g.Reaches output v → ∃ y : Tensor α, y.shape = [g.cardinality v] ∧
      g.Computes data v y ∧ g'.Computes data' (e.handle v) y := by
  refine hacyclic.induction fun v hv ih => ?_
  obtain ⟨y, hshape, hy⟩ := hsome v hv
  have hiff : g.Computes data v y ↔ g'.Computes data' (e.handle v) y := by
    refine h.computes_iff hv fun u hu => ?_
    obtain ⟨s, hs, hcomputes, hcomputes'⟩ := ih u hu
    exact ⟨s, hs, hcomputes.denotes, hcomputes'.denotes⟩
  exact ⟨y, hshape, hy.elim id hiff.mpr, hy.elim hiff.mp id⟩

/-- Every group computes a vector of its size on both sides or on neither, and then the output has
the same value on both. -/
theorem fits_iff (hacyclic : g.AcyclicFrom output) {out : Tensor α} :
    ((∀ v, g.Reaches output v → ∃ y : Tensor α, g.Computes data v y ∧
        y.shape = [g.cardinality v]) ∧ g.Denotes data output out) ↔
      (∀ x, g'.Reaches (e.handle output) x → ∃ y : Tensor α, g'.Computes data' x y ∧
        y.shape = [g'.cardinality x]) ∧ g'.Denotes data' (e.handle output) out := by
  constructor
  · rintro ⟨hcomputes, hout⟩  -- from left to right
    have hboth := h.exists_computes hacyclic fun v hv =>
      (hcomputes v hv).imp fun y hy => ⟨hy.2, .inl hy.1⟩
    constructor
    · intro x hx
      obtain ⟨v, hv, rfl⟩ := e.reaches_iff.mp hx
      obtain ⟨y, hshape, -, hy⟩ := hboth v hv
      exact ⟨y, hy, hshape.trans (by rw [e.cardinality v hv])⟩
    · obtain ⟨y, -, hy, hy'⟩ := hboth output (.refl output)
      rw [hout.unique hy.denotes]
      exact hy'.denotes
  · rintro ⟨hcomputes, hout⟩  -- from right to left
    have hboth := h.exists_computes hacyclic fun v hv => by
      obtain ⟨y, hy, hshape⟩ := hcomputes _ (e.reaches_iff.mpr ⟨v, hv, rfl⟩)
      exact ⟨y, hshape.trans (by rw [e.cardinality v hv]), .inr hy⟩
    constructor
    · intro v hv
      obtain ⟨y, hshape, hy, -⟩ := hboth v hv
      exact ⟨y, hy, hshape⟩
    · obtain ⟨y, -, hy, hy'⟩ := hboth output (.refl output)
      rw [hout.unique hy'.denotes]
      exact hy.denotes

end CarriesData

/-! ## Runs -/

/-- Each block of columns of a group stands where its edge has been moved to. -/
def MovesColumns (e : g.Rearrangement g' output) (net net' : Network (Tensor α)) : Prop :=
  ∀ v, g.Reaches output v → ∀ r < g.cardinality v, ∀ j : Fin (g.inputs v).length,
    ∀ c < g.cardinality ((g.inputs v).get (e.edge v j)),
      net'.weight (e.handle v) r (g'.offset (e.handle v) j + c) =
        net.weight v r (g.offset v (e.edge v j) + c)

variable {e : g.Rearrangement g' output} {net net' : Network (Tensor α)}

omit [Readable V (Tensor α)] in
theorem MovesColumns.carriesData (hmoves : e.MovesColumns net net') (hnet : net.Shaped g output)
    (hnet' : net'.Shaped g' (e.handle output)) (like : Tensor α) (entries : List (Handle × V)) :
    e.CarriesData (net.runData g (.keyed entries) like)
      (net'.runData g' (.keyed (entries.map (Prod.map e.handle id))) like) where
  like := rfl
  vector h := by
    show (entries.map (Prod.map e.handle id)).reverse.lookup (e.handle h) =
      entries.reverse.lookup h
    rw [← List.map_reverse, Network.lookup_map_handle e.injective]
  weights v hv hne := by
    have hne' := mt (e.inputs_eq_nil_iff hv).mp hne
    obtain ⟨w, hw, hshape⟩ := hnet.exists_weights hv hne
    obtain ⟨w', hw', hshape'⟩ := hnet'.exists_weights (e.reaches_iff.mpr ⟨v, hv, rfl⟩) hne'
    rw [e.cardinality v hv, e.inputSize_eq hv] at hshape'
    refine ⟨w, w', hw, hshape, hw', hshape', fun r hr j c hc => ?_⟩
    have hmoved := hmoves v hv r hr j c hc
    rwa [Network.weight, Network.weight, hw, hw', Option.elim_some, Option.elim_some] at hmoved

/-- Networks whose columns are moved along with the edges give the same answers to the same vectors,
by group. -/
theorem MovesColumns.run_iff {like : Tensor α} (hmoves : e.MovesColumns net net')
    (hnet : net.Shaped g output) (hnet' : net'.Shaped g' (e.handle output))
    (hfit : net.SignalsFit V g like) (hfit' : net'.SignalsFit V g' like)
    (entries : List (Handle × V)) (out : Tensor α) :
    (∃ net₁, net.run g (.keyed entries) = (.ok out, net₁)) ↔
      ∃ net₁, net'.run g' (.keyed (entries.map (Prod.map e.handle id))) = (.ok out, net₁) := by
  rw [Network.exists_run_iff hnet hfit, Network.exists_run_iff hnet' hfit',
    Network.exists_accept_iff_of_rearrangement e hnet.follows hnet'.follows]
  exact and_congr_right fun _ => (hmoves.carriesData hnet hnet' like entries).fits_iff
    (acyclicFrom_of_order hnet.follows)

end Graph.Rearrangement

end Exact

/-! ## The main result -/

open Feedforward.Network Feedforward.Graph

/-- Which column belongs to which input. Whatever the signals of a compiled network hold, a layer
reads the components of each of its inputs behind those of the inputs in front of it. Over exact
arithmetic, what a layer hands to its activation when a run comes to it is the sum over its edges
and the neurons behind them. Where another graph has the edges of the groups in other orders, it is
compiled as well. Its layers may stand in another order, but if the columns have been moved along
with the edges it gives the same answers to the same vectors, by group. The edges of a single group
may be permuted in any way. -/
theorem columns_follow_edges :
    (∀ {g : Graph Numeric} {output : Handle} {alloc : Allocation Numeric} {gen gen' : Generator}
        {compiled net : Network Numeric} {kind : ElementKind},
      g.compile alloc output gen = (.ok compiled, gen') → net.groups = compiled.groups →
      (∀ layer ∈ net.layers, ∃ s, layer.signal = some s ∧
        s.shape = [g.cardinality layer.group] ∧ s.kind = kind) →
      ∀ (k : Nat) (layer : Layer Numeric), net.layers[k]? = some layer →
        g.inputs layer.group ≠ [] →
        ∃ x, net.gather g layer = .ok x ∧ x.shape = [g.inputSize layer.group] ∧
          ∀ (j : Nat) (u : Handle), (g.inputs layer.group)[j]? = some u →
            ∃ s, net.bufferOf .signal u = some s ∧ s.shape = [g.cardinality u] ∧
              ∀ c < g.cardinality u,
                x.elements[g.offset layer.group j + c]? = s.elements[c]?) ∧
    ∀ {α V : Type} [Semiring α] [Readable V (Tensor α)] {g : Graph (Tensor α)} {output : Handle}
        {alloc : Allocation (Tensor α)} {gen gen' : Generator} {compiled net : Network (Tensor α)}
        {like : Tensor α},
      g.compile alloc output gen = (.ok compiled, gen') → net.groups = compiled.groups →
      (∀ layer ∈ net.layers, g.WeightsFit layer.group layer.weights) → net.SignalsFit V g like →
      (∀ (given : List (Nat × V)) (k : Nat) (now : Network (Tensor α)) (layer : Layer (Tensor α)),
        steps g given (List.range k) net = (.ok (), now) → now.layers[k]? = some layer →
        g.inputs layer.group ≠ [] →
        ∃ z, now.layerValue g given k layer = g.activate layer.group z ∧
          z.shape = [g.cardinality layer.group] ∧
          ∀ r < g.cardinality layer.group, z.component r =
            g.weightedSum layer.group (net.weight layer.group r) now.component) ∧
      (∀ {g' : Graph (Tensor α)} (e : g.Rearrangement g' output),
        (∀ zeros, alloc.Lawful zeros → ∃ compiled' gen'',
          g'.compile alloc (e.handle output) gen = (.ok compiled', gen'')) ∧
        ∀ {alloc' : Allocation (Tensor α)} {gen₁ gen₂ : Generator}
            {compiled' net' : Network (Tensor α)},
          g'.compile alloc' (e.handle output) gen₁ = (.ok compiled', gen₂) →
          net'.groups = compiled'.groups →
          (∀ layer ∈ net'.layers, g'.WeightsFit layer.group layer.weights) →
          net'.SignalsFit V g' like → e.MovesColumns net net' →
          ∀ (entries : List (Handle × V)) (out : Tensor α),
            (∃ after, net.run g (.keyed entries) = (.ok out, after)) ↔
              ∃ after,
                net'.run g' (.keyed (entries.map (Prod.map e.handle id))) = (.ok out, after)) ∧
      ∀ (v : Handle) (σ : Equiv.Perm (Fin (g.inputs v).length)),
        ∃ e : g.Rearrangement (g.permute v σ) output,
          e.handle = id ∧ e.edge = Function.update (fun _ => .refl _) v σ := by
  constructor  -- the columns of any layer
  · intro g output alloc gen gen' compiled net kind hcompile hgroups hsignal k layer hlayer hne
    have hnet : net.Follows g output := by
      rw [Follows, hgroups]
      exact follows_of_compile hcompile
    exact hnet.exists_gather_elements hsignal hlayer hne
  -- the sums, over a semiring
  · intro α V _ _ g output alloc gen gen' compiled net like hcompile hgroups hweights hfit
    have hnet : net.Shaped g output := shaped_of_compile hcompile hgroups hweights hfit
    refine ⟨?_, ?_, fun v σ => ⟨.permute g output v σ, rfl, rfl⟩⟩
    · intro given k now layer hsteps hlayer hne
      rw [← weight_eq_of_mute_eq (mute_of_steps hsteps)]
      rw [List.range_eq_range'] at hsteps
      exact (hnet.steps hsteps).exists_weightedSum hlayer hne given
    -- an edge that is moved takes its columns with it
    · intro g' e
      refine ⟨fun zeros hlaw => e.exists_compile hlaw hcompile, ?_⟩
      intro alloc' gen₁ gen₂ compiled' net' hcompile' hgroups' hweights' hfit' hmoves
      have hnet' : net'.Shaped g' (e.handle output) :=
        shaped_of_compile hcompile' hgroups' hweights' hfit'
      exact hmoves.run_iff hnet hnet' hfit hfit'

/-- New networks with draws in the place of weights. -/
def exactAllocation : Allocation (Tensor ℤ) where
  room _ _ := .ok ()
  weights rows columns ks :=
    orFault .shapeMisfit (Tensor.ofData? [rows, columns] (ks.map Int.ofNat))
  zeros n := .ok (.fill [n] 0)

theorem lawful_exactAllocation : exactAllocation.Lawful fun n => Tensor.fill [n] 0 where
  eq_zeros h := (Except.ok.inj h).symm
  shape_zeros _ := rfl
  exists_weights := by
    intro rows columns draws hlength
    have hfits : (draws.map Int.ofNat).length = volume [rows, columns] := by
      rw [List.length_map, hlength, volume, volume, volume, Nat.mul_one]
    exact ⟨⟨_, _, hfits⟩, congrArg (orFault _) (dif_pos hfits), rfl⟩

def exactIdentity : Activation (Tensor ℤ) := ⟨"identity", .ok, .ok⟩

/-- An output that reads twice from a source and once from a layer. -/
def twiceRead : Graph (Tensor ℤ) :=
  ⟨#[some ⟨1, exactIdentity, [], none⟩, some ⟨1, exactIdentity, [0], none⟩,
    some ⟨2, exactIdentity, [], none⟩, some ⟨1, exactIdentity, [2, 2, 1], none⟩]⟩

/-- The graph with the edges of the output from the last to the first. -/
def twiceReadReversed : Graph (Tensor ℤ) :=
  twiceRead.permute 3 (Equiv.swap 0 2 : Equiv.Perm (Fin 3))

/-- The layer of a group. The output has five columns: two for each time that it reads from the
source, and one for the layer. -/
def twiceReadLayer (weights : Tensor ℤ) : Handle → Layer (Tensor ℤ)
  | 0 => ⟨0, none, some (.fill [1] 0), none⟩
  | 1 => ⟨1, some ⟨[1, 1], [10], rfl⟩, some (.fill [1] 0), none⟩
  | 2 => ⟨2, none, some (.fill [2] 0), none⟩
  | _ => ⟨3, some weights, some (.fill [1] 0), none⟩

def twiceReadNetwork : Network (Tensor ℤ) :=
  .ofLayers ([0, 1, 2, 3].map (twiceReadLayer ⟨[1, 5], [1, 2, 3, 4, 5], rfl⟩))

/-- The network for the reversed edges, with the columns moved along. -/
def twiceReadReversedNetwork : Network (Tensor ℤ) :=
  .ofLayers ([2, 0, 1, 3].map (twiceReadLayer ⟨[1, 5], [5, 3, 4, 1, 2], rfl⟩))

theorem order_twiceRead : twiceRead.order 3 = .ok twiceReadNetwork.groups := by cbv

theorem order_twiceReadReversed :
    twiceReadReversed.order 3 = .ok twiceReadReversedNetwork.groups := by
  have hgraph : twiceReadReversed =
      ⟨#[some ⟨1, exactIdentity, [], none⟩, some ⟨1, exactIdentity, [0], none⟩,
        some ⟨2, exactIdentity, [], none⟩, some ⟨1, exactIdentity, [1, 2, 2], none⟩]⟩ := rfl
  rw [hgraph]
  cbv

theorem exists_compile_twiceRead (gen : Generator) :
    ∃ compiled gen', twiceRead.compile exactAllocation 3 gen = (.ok compiled, gen') :=
  (exists_compile_iff lawful_exactAllocation).mpr
    ⟨acyclicFrom_of_order order_twiceRead, fun _ _ => ⟨⟨_, rfl⟩, fun _ => rfl⟩⟩

/-- Both graphs ask for layers of these shapes. -/
theorem fits_twiceReadLayers {g : Graph (Tensor ℤ)} (hg : g = twiceRead ∨ g = twiceReadReversed)
    (weights : Tensor ℤ) (hshape : weights.shape = [1, 5]) (hs : List Handle) :
    (∀ layer ∈ (Network.ofLayers (hs.map (twiceReadLayer weights))).layers,
      g.WeightsFit layer.group layer.weights) ∧
    (Network.ofLayers (hs.map (twiceReadLayer weights))).SignalsFit (Tensor ℤ) g (.vector []) := by
  have hlayers : ∀ h, g.WeightsFit (twiceReadLayer weights h).group
      (twiceReadLayer weights h).weights ∧ ∃ s, (twiceReadLayer weights h).signal = some s ∧
        s.shape = [g.cardinality (twiceReadLayer weights h).group] ∧
        Alike (Tensor ℤ) s (.vector []) := by
    intro h
    rcases hg with rfl | rfl
    -- the two graphs have the same groups, with inputs in another order
    all_goals match h with
      | 0 | 1 | 2 | _ + 3 =>
          refine ⟨⟨?_, fun w hw => ?_⟩, _, rfl, rfl, fun _ => rfl, fun _ => rfl⟩
          · first
              | exact iff_of_true rfl rfl
              | exact iff_of_false (Option.some_ne_none _) (List.cons_ne_nil _ _)
          · cases hw <;> first | rfl | exact hshape
  constructor
  all_goals
    intro layer hlayer
    obtain ⟨h, -, rfl⟩ := List.mem_map.mp (List.mem_toArray.mp hlayer)
  · exact (hlayers h).1
  · exact (hlayers h).2

def swapEdges : twiceRead.Rearrangement twiceReadReversed 3 :=
  .permute twiceRead 3 3 (Equiv.swap 0 2 : Equiv.Perm (Fin 3))

theorem movesColumns_twiceRead :
    swapEdges.MovesColumns twiceReadNetwork twiceReadReversedNetwork := by
  intro v hv
  rw [← mem_order_iff order_twiceRead] at hv
  have hv : v = 0 ∨ v = 1 ∨ v = 2 ∨ v = 3 := by
    simpa [twiceReadNetwork, Network.groups, Network.ofLayers, twiceReadLayer] using hv
  rcases hv with rfl | rfl | rfl | rfl
  · rintro r hr ⟨j, hj⟩
    exact absurd hj (Nat.not_lt_zero j)
  · decide
  · rintro r hr ⟨j, hj⟩
    exact absurd hj (Nat.not_lt_zero j)
  · decide

/-- Vectors for the two sources, by group and by position. -/
def twiceReadEntries : List (Handle × Tensor ℤ) := [(2, .vector [7, 8]), (0, .vector [6])]

/-- The reversed network answers like the other one, although its layers stand in another order. -/
theorem run_twiceReadReversed :
    (∃ x s, lateSourceNetwork.gather lateSource
        ⟨3, some (.float64 (.fill [1, 3] 1)), some (.float64 (.fill [1] 9)), none⟩ = .ok x ∧
      lateSourceNetwork.bufferOf .signal 1 = some s ∧ x.elements[2]? = s.elements[0]?) ∧
    ∃ compiled gen compiled' gen',
      twiceRead.compile exactAllocation 3 (.ofSeed [0]) = (.ok compiled, gen) ∧
      twiceReadReversed.compile exactAllocation 3 (.ofSeed [0]) = (.ok compiled', gen') ∧
      compiled.groups = [0, 1, 2, 3] ∧ compiled'.groups = [2, 0, 1, 3] ∧
      (∃ now layer, ∃ z : Tensor ℤ,
        steps twiceRead twiceReadEntries (List.range 3) twiceReadNetwork = (.ok (), now) ∧
        now.layers[3]? = some layer ∧
        now.layerValue twiceRead twiceReadEntries 3 layer = twiceRead.activate 3 z ∧
        z.component 0 = twiceRead.weightedSum 3 (twiceReadNetwork.weight 3 0) now.component) ∧
      ∃ after, twiceReadReversedNetwork.run twiceReadReversed (.keyed twiceReadEntries) =
        (.ok (.vector [376]), after) := by
  obtain ⟨hgather, hexact⟩ := columns_follow_edges
  obtain ⟨compiled₀, gen₀, hcompile₀, hgroups₀⟩ := exists_compile_lateSource
  obtain ⟨compiled, gen, hcompile⟩ := exists_compile_twiceRead (.ofSeed [0])
  have hgroups : twiceReadNetwork.groups = compiled.groups :=
    Except.ok.inj (order_twiceRead.symm.trans (follows_of_compile hcompile))
  obtain ⟨hweights, hfit⟩ :=
    fits_twiceReadLayers (.inl rfl) ⟨[1, 5], [1, 2, 3, 4, 5], rfl⟩ rfl [0, 1, 2, 3]
  obtain ⟨hsum, hmove, -⟩ := hexact hcompile hgroups hweights hfit
  obtain ⟨hcompiles, hruns⟩ := hmove swapEdges
  obtain ⟨compiled', gen', hcompile'⟩ := hcompiles _ lawful_exactAllocation
  have hgroups' : twiceReadReversedNetwork.groups = compiled'.groups :=
    Except.ok.inj (order_twiceReadReversed.symm.trans (follows_of_compile hcompile'))
  refine ⟨?_, compiled, gen, compiled', gen', hcompile, hcompile', hgroups.symm, hgroups'.symm,
    ?_, ?_⟩
  -- the columns of one layer
  · have hsignals : ∀ layer ∈ lateSourceNetwork.layers, ∃ s, layer.signal = some s ∧
        s.shape = [lateSource.cardinality layer.group] ∧ s.kind = .float64 := by
      intro layer hlayer
      simp only [lateSourceNetwork, Network.ofLayers, List.mem_toArray, List.mem_cons,
        List.not_mem_nil, or_false] at hlayer
      rcases hlayer with rfl | rfl | rfl | rfl
      all_goals exact ⟨_, rfl, rfl, rfl⟩
    obtain ⟨x, hx, -, hcolumns⟩ := hgather hcompile₀ hgroups₀ hsignals 3 _ rfl (by decide)
    obtain ⟨s, hs, -, hsame⟩ := hcolumns 1 1 rfl
    exact ⟨x, s, hx, hs, hsame 0 (by decide)⟩
  · have hcome : ∃ now layer,  -- the sum of another
        steps twiceRead twiceReadEntries (List.range 3) twiceReadNetwork = (.ok (), now) ∧
        now.layers[3]? = some layer ∧ layer.group = 3 := ⟨_, _, rfl, rfl, rfl⟩
    obtain ⟨now, layer, hsteps, hlayer, hgroup⟩ := hcome
    obtain ⟨z, hvalue, -, hz⟩ := hsum _ _ _ _ hsteps hlayer (by rw [hgroup]; decide)
    rw [hgroup] at hz hvalue
    exact ⟨now, layer, z, hsteps, hlayer, hvalue, hz 0 (by decide)⟩
  · obtain ⟨hweights', hfit'⟩ :=  -- the same output with the edges swapped
      fits_twiceReadLayers (.inr rfl) ⟨[1, 5], [5, 3, 4, 1, 2], rfl⟩ rfl [2, 0, 1, 3]
    exact (hruns hcompile' hgroups' hweights' hfit' movesColumns_twiceRead twiceReadEntries _).mp
      ⟨_, rfl⟩

end Feedforward
