import Feedforward.Proofs.Network.Failure

/-!
# Runs that answer

Whether a run answers, and with what, can be said without any order of the layers. It does so just
if its vectors are accepted and every group that the output reaches computes a vector of the size of
its buffer; the answer is then what the output denotes (`exists_run_iff`). Where a run stands, the
layer there computes what its group computes,

    Computes g data h y  →  layerValue = ok y,

which is the other half of what a run passes.
-/

namespace Feedforward

variable {A V : Type} [Arithmetic A] [Readable V A]

namespace Graph

variable {g : Graph A} {data : RunData V A} {h : Handle} {a b y : A}

omit [Arithmetic A] in
theorem activate_eq_ok_iff :
    g.activate h a = .ok b ↔ ∃ t, g.group? h = some t ∧ t.activation.evaluate a = .ok b := by
  rw [activate]
  cases g.group? h with
  | none => simp
  | some t => simp [ofArray_eq_ok_iff]

/-- A source computes the activation of the vector given for it. -/
theorem computes_iff_of_nil (hnil : g.inputs h = []) :
    g.Computes data h y ↔ ∃ v x, data.vector h = some v ∧ Readable.read data.like v = .ok x ∧
      g.activate h x = .ok y := by
  constructor
  · intro hy
    cases hy with
    | source ht _ hv hx heval => exact ⟨_, _, hv, hx, activate_eq_ok_iff.mpr ⟨_, ht, heval⟩⟩
    | layer values ht hne => exact absurd ((inputs_of_group? ht).symm.trans hnil) hne
  · rintro ⟨v, x, hv, hx, hy⟩
    obtain ⟨t, ht, heval⟩ := activate_eq_ok_iff.mp hy
    exact .source ht ((inputs_of_group? ht).symm.trans hnil) hv hx heval

/-- Any other group computes the activation of its weights times its joined inputs. -/
theorem computes_iff_of_values {values : Handle → A} {x w z : A} (hne : g.inputs h ≠ [])
    (hvalues : ∀ u ∈ g.inputs h, g.Denotes data u (values u))
    (hx : Arithmetic.join ((g.inputs h).map values) = .ok x) (hw : data.weights h = some w)
    (hz : Arithmetic.product w x = .ok z) : g.Computes data h y ↔ g.activate h z = .ok y := by
  constructor
  · intro hy
    cases hy with
    | source ht hnil => exact absurd ((inputs_of_group? ht).trans hnil) hne
    | layer values' ht _ hvalues' hx' hw' hz' heval =>
        rw [← inputs_of_group? ht] at hvalues' hx'
        rw [List.map_congr_left fun u hu => (hvalues u hu).unique (hvalues' u hu)] at hx
        cases hx.symm.trans hx'
        cases hw.symm.trans hw'
        cases hz.symm.trans hz'
        exact activate_eq_ok_iff.mpr ⟨_, ht, heval⟩
  · intro hy
    obtain ⟨t, ht, heval⟩ := activate_eq_ok_iff.mp hy
    rw [inputs_of_group? ht] at hne hvalues hx
    exact .layer values ht hne hvalues hx hw hz heval

end Graph

namespace Network

variable [LawfulArithmetic A] {g : Graph A} {start net net' : Network A} {output : Handle}
  {k : Nat} {like : A} {given : List (Nat × V)} {feed : Feed V} {layer : Layer A}

/-- The layer at which a run stands computes what its group does. -/
theorem Passed.layerValue_of_computes (hpassed : Passed g (start.runData g feed like) start net k)
    (hstart : start.Shaped g output) (hfit : start.SignalsFit V g like)
    (haccept : start.accept g feed = .ok given) (hlayer : net.layers[k]? = some layer) {y : A}
    (hy : g.Computes (start.runData g feed like) layer.group y) :
    net.layerValue g given k layer = .ok y := by
  have hsame := hpassed.toRan.getElem?_start hlayer
  by_cases hnil : g.inputs layer.group = []
  -- case: a source reads its vector
  · obtain ⟨s, hs, -, halike⟩ := hfit layer (Array.mem_of_getElem? hsame)
    obtain ⟨v, x, hv, hx, heval⟩ := (Graph.computes_iff_of_nil hnil).mp hy
    have hvector : given.lookup k = some v :=
      (hstart.follows.lookup_of_accept haccept (getElem?_groups_of_layer hsame)).trans hv
    have hread : Readable.read s v = .ok x := (halike.read v).trans hx
    rw [layerValue_of_source hnil hs, hvector]
    dsimp only
    rw [hread]
    exact heval
  · have hnet := hpassed.shaped hstart
    -- the signals of the inputs are their values
    obtain ⟨values, hvalues⟩ := hnet.follows.exists_values
      (P := fun u s => Arithmetic.shape s = [g.cardinality u]) hnet.signal hlayer
    have hdenotes : ∀ u ∈ g.inputs layer.group,
        g.Denotes (start.runData g feed like) u (values u) := by
      intro u hu
      obtain ⟨b, hb, hdenotes⟩ := hpassed.toRan.denotes_of_mem_inputs hstart.follows hlayer hu
      rwa [Option.some.inj ((hvalues u hu).1.symm.trans hb)]
    obtain ⟨x, hgather, hshape⟩ := hnet.exists_gather hlayer
    have hjoin := hgather
    rw [hnet.follows.gather_eq_join hlayer hnil fun u hu => (hvalues u hu).1,
      ofArray_eq_ok_iff] at hjoin
    obtain ⟨hnone, hweights⟩ := hstart.weights layer (Array.mem_of_getElem? hsame)
    obtain ⟨w, hw⟩ := Option.ne_none_iff_exists'.mp (mt hnone.mp hnil)
    obtain ⟨z, hz, -⟩ := LawfulArithmetic.exists_product (hweights w hw) hshape
    rw [layerValue_of_product hnil hgather hshape hw (hweights w hw) hz]
    refine (Graph.computes_iff_of_values hnil hdenotes hjoin ?_ hz).mp hy
    exact (hstart.follows.bufferOf_eq hsame .weights).trans hw

/-- A layer whose group computes a vector of the right size stores it. -/
theorem Passed.exists_newSignal (hpassed : Passed g (start.runData g feed like) start net k)
    (hstart : start.Shaped g output) (hfit : start.SignalsFit V g like)
    (haccept : start.accept g feed = .ok given) (hlayer : net.layers[k]? = some layer) {y : A}
    (hy : g.Computes (start.runData g feed like) layer.group y)
    (hshape : Arithmetic.shape y = [g.cardinality layer.group]) :
    ∃ a, net.newSignal g given k = .ok a := by
  obtain ⟨s, hs, hsize, -⟩ :=
    hfit layer (Array.mem_of_getElem? (hpassed.toRan.getElem?_start hlayer))
  refine ⟨Arithmetic.convert s y, ?_⟩
  simp [newSignal, hlayer, hpassed.layerValue_of_computes hstart hfit haccept hlayer hy, hs,
    fitSignal_eq hsize, hshape]

/-- A run answers just if its vectors are accepted and every group computes a vector of the size of
its buffer. The answer is the value of the output. -/
theorem exists_run_iff (hnet : net.Shaped g output) (hfit : net.SignalsFit V g like) {out : A} :
    (∃ net', net.run g feed = (.ok out, net')) ↔
      (∃ given, net.accept g feed = .ok given) ∧
      (∀ h, g.Reaches output h → ∃ y, g.Computes (net.runData g feed like) h y ∧
        Arithmetic.shape y = [g.cardinality h]) ∧
      g.Denotes (net.runData g feed like) output out := by
  constructor
  · rintro ⟨net', hrun⟩  -- an answer went through every layer
    obtain ⟨given, haccept, hsteps, -⟩ := run_eq_ok_iff.mp hrun
    obtain ⟨-, hout, -⟩ := hnet.follows.denotes_of_run hfit hrun
    refine ⟨⟨given, haccept⟩, fun h hreach => ?_, hout⟩
    obtain ⟨k, hpassed, ⟨-, rfl⟩ | ⟨e, he, -⟩⟩ := Passed.of_steps hnet.follows haccept hfit hsteps
    · exact hpassed.exists_computes hnet.follows hreach
    · cases he
  · rintro ⟨⟨given, haccept⟩, hcomputes, hout⟩  -- a run that does not fail answers
    cases hsteps : steps g given (List.range' 0 net.size) net with
    | mk r net' =>
        obtain ⟨k, hpassed, ⟨rfl, rfl⟩ | ⟨e, -, hk, hnew⟩⟩ :=
          Passed.of_steps hnet.follows haccept hfit hsteps
        · obtain ⟨out', hrun⟩ := exists_run_of_passed hnet.follows haccept hpassed hsteps
          obtain ⟨-, hout', -⟩ := hnet.follows.denotes_of_run hfit hrun
          exact ⟨net', by rw [hrun, hout'.unique hout]⟩
        · -- the group of a layer that fails would compute something that fits
          have hsame := Array.getElem?_eq_getElem hk
          have hreach := (Graph.mem_order_iff hnet.follows).mp
            (List.mem_of_getElem? (getElem?_groups_of_layer hsame))
          obtain ⟨y, hy, hshape⟩ := hcomputes _ hreach
          obtain ⟨a, ha⟩ := hpassed.exists_newSignal hnet hfit haccept
            ((hpassed.rest k (Nat.le_refl k)).trans hsame) hy hshape
          cases hnew.symm.trans ha

end Network

end Feedforward
