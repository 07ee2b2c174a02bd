import Feedforward.Network.Learn
import Feedforward.Proofs.Network.Description
import Feedforward.Proofs.Network.Layout
import Feedforward.Proofs.Network.Shape

/-!
# What a session leaves as it was

In a session a network runs, learns by the perceptron rule and has its errors overwritten, in any
order and as often as one likes. Each of these may be refused, and a run that is refused may have
come half the way. Still the shapes of all buffers stay what they are after compiling (`Intact`),

    Intact net  →  Intact (net.act g action),

and so does all that depends on nothing but groups and shapes, such as the layout. Of the checks that
compare two sizes, those of the inputs of a layer never fail.
-/

namespace Feedforward

variable {A V I : Type}

/-- What a caller does to a network. -/
inductive Action (V A I : Type) where
  | run (feed : Feed V)
  /-- Applies the perceptron rule to the layer at a position. -/
  | learn (i : Int) (info : I)
  /-- Writes the error of the layer at a position. -/
  | writeError (i : Nat) (values : A)

namespace Network

variable [Arithmetic A]

/-- Overwrites the error of the layer at a position. What has another shape is not written. -/
def writeError (net : Network A) (i : Nat) (values : A) : Network A :=
  match net.bufferAt .error i with
  | none => net
  | some error =>
    if Arithmetic.shape values = Arithmetic.shape error then
      net.setBuffer i .error (some (Arithmetic.convert error values))
    else net

variable [Readable V A]

/-- The network after an action, whether or not the action is refused. -/
def act (g : Graph A) (net : Network A) : Action V A I → Network A
  | .run feed => (net.run g feed).2
  | .learn i info => match net.update g i (perceptron (R := Unit)) info with
    | .error _ => net
    | .ok (_, next) => next
  | .writeError i values => net.writeError i values

def actAll (g : Graph A) (net : Network A) (actions : List (Action V A I)) : Network A :=
  actions.foldl (act g) net

end Network

/-- The buffers of a layer have the shapes that the graph asks for. -/
structure Layer.Fits [Arithmetic A] (layer : Layer A) (g : Graph A) : Prop where
  weights : g.WeightsFit layer.group layer.weights
  signal : ∃ s, layer.signal = some s ∧ Arithmetic.shape s = [g.cardinality layer.group]
  error : ∃ e, layer.error = some e ∧ Arithmetic.shape e = [g.cardinality layer.group]

namespace Network

variable [Arithmetic A] {g : Graph A} {net net' other : Network A} {output : Handle} {i k : Nat}
  {layer : Layer A}

/-- All buffers have the shapes that the graph asks for. -/
structure Intact (net : Network A) (g : Graph A) (output : Handle) : Prop where
  follows : net.Follows g output
  fits : ∀ layer ∈ net.layers, layer.Fits g

theorem LaidOut.intact {alloc : Allocation A} {zeros : Nat → A} (hlaw : alloc.Lawful zeros)
    (hnet : net.LaidOut g zeros output) : net.Intact g output where
  follows := hnet.follows
  fits := fun layer hlayer => {
    weights := hnet.weights layer hlayer
    signal := ⟨_, hnet.signal layer hlayer, hlaw.shape_zeros _⟩
    error := ⟨_, hnet.error layer hlayer, hlaw.shape_zeros _⟩ }

theorem Intact.shaped (hnet : net.Intact g output) : net.Shaped g output where
  follows := hnet.follows
  weights := fun layer hlayer => (hnet.fits layer hlayer).weights
  signal := fun layer hlayer => (hnet.fits layer hlayer).signal

/-- Writing a buffer that fits keeps a network intact. -/
theorem Intact.setBuffer (hnet : net.Intact g output) {b : Buffer} {content : Option A}
    (hnew : ∀ layer, net.layers[i]? = some layer → layer.Fits g →
      (layer.setBuffer b content).Fits g) : (net.setBuffer i b content).Intact g output where
  follows := by
    rw [Follows, groups_setBuffer]
    exact hnet.follows
  fits := by
    apply forall_mem_setBuffer hnet.fits
    intro layer hlayer
    exact hnew layer hlayer (hnet.fits layer (Array.mem_of_getElem? hlayer))

/-! ## Runs -/

variable [Readable V A] {given : List (Nat × V)} {feed : Feed V}

/-- A value that fits can be stored. -/
theorem Intact.setSignal_of_newSignal [LawfulArithmetic A] (hnet : net.Intact g output) {a : A}
    (hnew : net.newSignal g given i = .ok a) :
    (net.setBuffer i .signal (some a)).Intact g output := by
  apply hnet.setBuffer
  intro layer hlayer hfits
  obtain ⟨s, hs, hshape⟩ := hfits.signal
  obtain ⟨y, -, hy, rfl⟩ := exists_layerValue_of_newSignal hlayer hs hshape hnew
  exact { hfits with signal := ⟨_, rfl, (LawfulArithmetic.shape_convert s y).trans hy⟩ }

/-- What one stored signal keeps, a run keeps, refused or not. -/
theorem run_induction {P : Network A → Prop}
    (hstep : ∀ net i given a, P net → net.newSignal (V := V) g given i = .ok a →
      P (net.setBuffer i .signal (some a)))
    (hnet : P net) (feed : Feed V) : P (net.run g feed).2 := by
  cases haccept : net.accept g feed with
  | error e =>
      rw [run_eq_of_accept_error haccept]
      exact hnet
  | ok given =>
      cases hsteps : steps g given (List.range' 0 net.size) net with
      | mk r net' =>
          rw [run_eq_of_steps haccept hsteps]
          obtain ⟨-, hnet', -⟩ := steps_induction (P := fun _ net => P net)
            (fun i net a hnet hnew => hstep net i given a hnet hnew) hnet hsteps
          exact hnet'

/-- A run keeps the shapes of all buffers, whatever its outcome. -/
theorem Intact.run [LawfulArithmetic A] (hnet : net.Intact g output) (feed : Feed V) :
    (net.run g feed).2.Intact g output := by
  apply run_induction (P := fun net => net.Intact g output)
  · intro net i given a hnet hnew
    exact hnet.setSignal_of_newSignal hnew
  · exact hnet

/-! ## Learning -/

omit [Readable V A]

omit [Arithmetic A] in
/-- A position, also one that counts from the end, finds a layer or is refused. -/
theorem resolve_cases (net : Network A) (j : Int) :
    net.resolve j = .error (.noLayer j) ∨
      ∃ i layer, net.layers[i]? = some layer ∧ net.resolve j = .ok (i, layer) := by
  rw [resolve]
  generalize (if j < 0 then j + (net.size : Int) else j) = n
  cases hlayer : net.layers[n.toNat]? with
  | none => exact .inl rfl
  | some layer =>
      by_cases hn : n < 0
      · exact .inl (if_pos hn)
      · exact .inr ⟨_, layer, hlayer, if_neg hn⟩

omit [Arithmetic A] in
theorem getElem?_of_resolve {j : Int} (hj : net.resolve j = .ok (i, layer)) :
    net.layers[i]? = some layer := by
  obtain he | ⟨_, _, hlayer, hok⟩ := net.resolve_cases j
  · cases hj.symm.trans he
  · cases hj.symm.trans hok
    exact hlayer

/-- An update that answers has given the layer the weights that the rule answers with. -/
theorem update_eq_ok {R : Type} {learner : Learner A I R} {j : Int} {info : I} {answer : R}
    (hupdate : net.update g j learner info = .ok (answer, net')) :
    ∃ i layer w x w', net.layers[i]? = some layer ∧ layer.weights = some w ∧
      learner w x layer.error info = .ok (w', answer) ∧
      net' = net.setBuffer i .weights (some w') := by
  obtain ⟨⟨i, layer⟩, hj, hupdate⟩ := bind_eq_ok_iff.mp hupdate
  dsimp only at hupdate
  split at hupdate
  · cases hupdate
  · next w hw =>
      obtain ⟨x, -, hupdate⟩ := bind_eq_ok_iff.mp hupdate
      obtain ⟨⟨w', a⟩, hlearner, hupdate⟩ := bind_eq_ok_iff.mp hupdate
      cases hupdate
      exact ⟨i, layer, w, x, w', getElem?_of_resolve hj, hw, hlearner, rfl⟩

/-- The perceptron rule answers with the weights, increased. -/
theorem exists_increase_of_perceptron {R : Type} {w x w' : A} {error : Option A} {info : I}
    {answer : Option R} (hrule : perceptron w x error info = .ok (w', answer)) :
    ∃ step, Arithmetic.increase w step = .ok w' := by
  obtain ⟨_, -, hrule⟩ := bind_eq_ok_iff.mp hrule
  obtain ⟨_, -, hrule⟩ := bind_eq_ok_iff.mp hrule
  split at hrule
  · cases hrule
  · obtain ⟨_, -, hrule⟩ := bind_eq_ok_iff.mp hrule
    obtain ⟨_, -, hrule⟩ := bind_eq_ok_iff.mp hrule
    split at hrule
    · cases hrule
    · obtain ⟨_, -, hrule⟩ := bind_eq_ok_iff.mp hrule
      obtain ⟨step, -, hrule⟩ := bind_eq_ok_iff.mp hrule
      obtain ⟨sum, hsum, hrule⟩ := bind_eq_ok_iff.mp hrule
      cases hrule
      exact ⟨step, ofArray_eq_ok_iff.mp hsum⟩

/-- The perceptron rule keeps the shape of the weights. -/
theorem shape_of_perceptron [LawfulArithmetic A] {R : Type} {w x w' : A} {error : Option A}
    {info : I} {answer : Option R} (hrule : perceptron w x error info = .ok (w', answer)) :
    Arithmetic.shape w' = Arithmetic.shape w := by
  obtain ⟨step, hincrease⟩ := exists_increase_of_perceptron hrule
  exact LawfulArithmetic.shape_increase hincrease

/-- An update keeps the shapes of all buffers. -/
theorem Intact.learn [LawfulArithmetic A] {R : Type} (hnet : net.Intact g output) {j : Int}
    {info : I} {answer : Option R} (hupdate : net.update g j perceptron info = .ok (answer, net')) :
    net'.Intact g output := by
  obtain ⟨i, layer, w, x, w', hlayer, hw, hrule, rfl⟩ := update_eq_ok hupdate
  apply hnet.setBuffer
  intro l hl hfits
  obtain rfl : layer = l := Option.some.inj (hlayer.symm.trans hl)
  obtain ⟨hnone, hshape⟩ := hfits.weights
  refine { hfits with weights := ⟨?_, ?_⟩ }
  · -- the layer had weights, so it is no source
    have hsource : g.inputs layer.group ≠ [] := fun hnil => by
      rw [hnone.mpr hnil] at hw
      cases hw
    exact ⟨fun h => absurd h (Option.some_ne_none w'), fun h => absurd h hsource⟩
  · intro v hv
    obtain rfl := Option.some.inj hv
    rw [shape_of_perceptron hrule]
    exact hshape w hw

/-- Writing an error keeps the shapes of all buffers, also when the values do not fit. -/
theorem Intact.writeError [LawfulArithmetic A] (hnet : net.Intact g output) (i : Nat) (values : A) :
    (net.writeError i values).Intact g output := by
  rw [Network.writeError]
  split
  · exact hnet
  · next error herror =>
      split
      · next hshape =>
          apply hnet.setBuffer
          intro layer hlayer hfits
          obtain ⟨e, he, hsize⟩ := hfits.error
          rw [bufferAt, hlayer] at herror
          obtain rfl : e = error := Option.some.inj (he.symm.trans herror)
          refine { hfits with error := ⟨_, rfl, ?_⟩ }
          exact (LawfulArithmetic.shape_convert e values).trans (hshape.trans hsize)
      · exact hnet

/-! ## Sessions -/

variable [Readable V A] [LawfulArithmetic A]

/-- No action changes a shape, refused or not. -/
theorem Intact.act (hnet : net.Intact g output) (action : Action V A I) :
    (net.act g action).Intact g output := by
  cases action with
  | run feed => exact hnet.run feed
  | learn i info =>
      rw [Network.act]
      split
      · exact hnet
      · next hupdate => exact hnet.learn hupdate
  | writeError i values => exact hnet.writeError i values

/-- No sequence of actions changes the shape of a buffer. -/
theorem Intact.actAll (hnet : net.Intact g output) (actions : List (Action V A I)) :
    (net.actAll g actions).Intact g output := by
  induction actions generalizing net with
  | nil => exact hnet
  | cons action rest ih => exact ih (hnet.act action)

end Network

/-! ## What the layout depends on -/

/-- The entry of a group at a position in a layout, with the positions that it reads from. -/
def Graph.entry (g : Graph A) (i : Nat) (h : Handle) (inputs : List Nat) :
    Except NetworkError LayerLayout :=
  match g.group? h with
  | none => .error (.notMember h)
  | some t => .ok {
      index := i, name := t.name, cardinality := t.cardinality, activation := t.activation.name,
      inputs, weightShape :=
        if g.inputs h = [] then none else some [g.cardinality h, g.inputSize h] }

namespace Network

variable [Arithmetic A] {g : Graph A} {net other : Network A} {output : Handle} {layer : Layer A}

/-- The entry of a layer whose weights fit says nothing that the graph does not say. -/
theorem layerLayout_eq_entry (hfit : g.WeightsFit layer.group layer.weights) (i : Nat) :
    net.layerLayout g i layer = net.inputPositions g layer.group >>= g.entry i layer.group := by
  rw [layerLayout, hfit.map_shape]
  rfl

/-- Where weights have the right shapes, the entries of the layout are those of the groups. -/
theorem Shaped.layout_eq_entries (hnet : net.Shaped g output) :
    net.layout g =
      (net.groups.zipIdx.mapM fun p => net.inputPositions g p.1 >>= g.entry p.2 p.1) >>=
      fun entries => .ok ⟨entries, net.parameterCount⟩ := by
  -- layer by layer, since every layer has its weights checked on its own
  have hlayers : net.layers.toList.zipIdx.mapM (fun p => net.layerLayout g p.2 p.1) =
      net.groups.zipIdx.mapM fun p => net.inputPositions g p.1 >>= g.entry p.2 p.1 := by
    rw [groups, List.zipIdx_map, List.mapM_map]
    apply mapM_congr
    intro p hp
    have hmem := Array.mem_toList_iff.mp (List.fst_mem_of_mem_zipIdx hp)
    exact layerLayout_eq_entry (hnet.weights p.1 hmem) p.2
  rw [← hlayers]
  rfl

/-- So the layout depends on the groups only. -/
theorem Shaped.layout_eq (hnet : net.Shaped g output) (hother : other.Shaped g output) :
    net.layout g = other.layout g := by
  have hgroups : net.groups = other.groups :=
    Except.ok.inj (hnet.follows.symm.trans hother.follows)
  simp only [hnet.layout_eq_entries, hother.layout_eq_entries, parameterCount_eq hnet.weights,
    parameterCount_eq hother.weights, inputPositions_congr hgroups, hgroups]

end Network

/-! ## Sizes that never disagree -/

/-- The place of an error at which two sizes disagree. -/
def NetworkError.place? : NetworkError → Option Place
  | .mismatch place _ _ => some place
  | _ => none

theorem place?_of_ofArray {α : Type} {x : Except ArrayFault α} {e : NetworkError}
    (h : ofArray x = .error e) : e.place? = none := by
  cases x with
  | ok a => cases h
  | error fault => cases h; rfl

theorem place?_of_present {x : Option A} {e : NetworkError} (h : present x = .error e) :
    e.place? = none := by
  cases x with
  | some a => cases h
  | none => cases h; rfl

theorem Graph.place?_of_activate [Arithmetic A] {g : Graph A} {h : Handle} {a : A}
    {e : NetworkError} (he : g.activate h a = .error e) : e.place? = none := by
  rw [activate] at he
  split at he
  · cases he; rfl
  · exact place?_of_ofArray he

namespace Network

variable {g : Graph A} {net : Network A} {output : Handle} {i : Nat} {layer : Layer A}
  {given : List (Nat × V)} {feed : Feed V} {e : NetworkError}

/-- Vectors for unknown groups are refused without a place. -/
theorem place?_of_locate {entries : List (Handle × V)} (start : List (Nat × V))
    (he : entries.foldlM (fun given (h, v) => return give given (← net.index h) v) start =
      .error e) : e.place? = none := by
  induction entries generalizing start with
  | nil => cases he
  | cons entry rest ih =>
      obtain ⟨h, v⟩ := entry
      rw [List.foldlM_cons, bind_eq_error_iff] at he
      obtain he | ⟨next, -, he⟩ := he
      · obtain he | ⟨_, -, he⟩ := bind_eq_error_iff.mp he
        · rw [index] at he
          split at he
          · cases he
          · cases he; rfl
        · cases he
      · exact ih next he

/-- Of the vectors that are handed in, only their number is compared with anything. -/
theorem place?_of_accept (he : net.accept g feed = .error e) :
    e.place? = none ∨ e.place? = some .networkInputs := by
  cases feed with
  | aligned values =>
      rw [accept] at he
      split at he
      · cases he
      · cases he; exact .inr rfl
  | keyed entries =>
      left
      obtain he | ⟨located, -, he⟩ := bind_eq_error_iff.mp he
      · exact place?_of_locate [] he
      -- what is wrong with the keys is reported with groups rather than a place
      · dsimp only at he
        split at he
        · cases he; rfl
        · split at he
          · cases he; rfl
          · cases he

theorem place?_of_resolve {j : Int} (he : net.resolve j = .error e) : e.place? = none := by
  obtain hj | ⟨_, _, -, hj⟩ := net.resolve_cases j
  · cases he.symm.trans hj
    rfl
  · cases he.symm.trans hj

variable [Arithmetic A] [LawfulArithmetic A] [Readable V A]

/-- Where shapes are right, a layer compares no sizes that disagree before it stores its value. -/
theorem Shaped.place?_of_newSignal (hnet : net.Shaped g output) (hi : i < net.size)
    (he : net.newSignal g given i = .error e) :
    e.place? = none ∨ e.place? = some (.signal i) := by
  have hlayer := Array.getElem?_eq_getElem hi
  obtain ⟨s, hs, hshape⟩ := hnet.signal _ (Array.mem_of_getElem? hlayer)
  rw [newSignal, hlayer] at he
  -- the value is not computed, or it does not fit
  obtain he | ⟨y, -, he⟩ := bind_eq_error_iff.mp he
  · left
    by_cases hnil : g.inputs net.layers[i].group = []
    · rw [layerValue_of_source hnil hs] at he
      split at he
      · cases he; rfl
      · obtain he | ⟨x, -, he⟩ := bind_eq_error_iff.mp he
        · exact place?_of_ofArray he
        · exact Graph.place?_of_activate he
    · -- joining and multiplying have gone well, so the activation is to blame
      obtain ⟨z, -, hvalue⟩ := hnet.exists_layerValue given hlayer hnil
      rw [hvalue] at he
      exact Graph.place?_of_activate he
  · right
    rw [hs, fitSignal_eq hshape] at he
    split at he
    · cases he
    · cases he; rfl

/-- A run may refuse the number of vectors, or what a layer computes, but nothing that a layer
reads. -/
theorem Intact.place?_of_run (hnet : net.Intact g output)
    (he : (net.run g feed).1 = .error e) :
    e.place? = none ∨ e.place? = some .networkInputs ∨ ∃ i, e.place? = some (.signal i) := by
  cases haccept : net.accept g feed with
  | error e' =>
      rw [run_eq_of_accept_error haccept] at he
      obtain rfl := Except.error.inj he
      exact (place?_of_accept haccept).imp_right .inl
  | ok given =>
      cases hsteps : steps g given (List.range' 0 net.size) net with
      | mk r net' =>
          rw [run_eq_of_steps haccept hsteps] at he
          obtain rfl | ⟨-, -, hlast⟩ := bind_eq_error_iff.mp he
          · obtain ⟨k, hnet', ⟨hr, -⟩ | ⟨e', hr, hk, hnew⟩⟩ := steps_induction
              (P := fun _ net' => net'.Intact g output ∧ net'.size = net.size)
              (fun _ _ _ ⟨hnet, hsize⟩ hnew => ⟨hnet.setSignal_of_newSignal hnew, by simp [hsize]⟩)
              ⟨hnet, rfl⟩ hsteps
            · cases hr
            · obtain rfl := Except.error.inj hr
              obtain h | h := hnet'.1.shaped.place?_of_newSignal (by omega) hnew
              · exact .inl h
              · exact .inr (.inr ⟨k, h⟩)
          · left
            rw [lastSignal] at hlast
            split at hlast
            · cases hlast; rfl
            · exact place?_of_present hlast

omit [LawfulArithmetic A] [Readable V A] in
/-- Weights and inputs of the right shapes leave nothing for the rule to refuse at a place. -/
theorem place?_of_perceptron {R : Type} {w x : A} {rows columns : Nat} {error : Option A} {info : I}
    (hw : Arithmetic.shape w = [rows, columns]) (hx : Arithmetic.shape x = [columns])
    (he : perceptron (R := R) w x error info = .error e) : e.place? = none := by
  -- the sizes agree, so the first check passes and what is left names no place
  rw [perceptron, Arithmetic.axis_zero_of_shape hx, Arithmetic.axis_one_of_shape hw] at he
  simp only [ofArray_ok, ok_bind, ne_eq, not_true_eq_false, if_false] at he
  obtain he | ⟨_, -, he⟩ := bind_eq_error_iff.mp he
  · exact place?_of_present he
  obtain he | ⟨n, -, he⟩ := bind_eq_error_iff.mp he
  · exact place?_of_ofArray he
  split at he
  · cases he; rfl
  obtain he | ⟨_, -, he⟩ := bind_eq_error_iff.mp he
  · exact place?_of_ofArray he
  obtain he | ⟨_, -, he⟩ := bind_eq_error_iff.mp he
  · exact place?_of_ofArray he
  obtain he | ⟨_, -, he⟩ := bind_eq_error_iff.mp he
  · exact place?_of_ofArray he
  · cases he

omit [Readable V A] in
/-- The perceptron rule compares the inputs of a layer with its weights, and they agree. -/
theorem Intact.place?_of_update {R : Type} (hnet : net.Intact g output) {j : Int} {info : I}
    (he : net.update g j (perceptron (R := R)) info = .error e) : e.place? = none := by
  obtain he | ⟨⟨i, layer⟩, hj, he⟩ := bind_eq_error_iff.mp he
  · exact place?_of_resolve he
  · have hlayer := getElem?_of_resolve hj
    have hfits := hnet.fits layer (Array.mem_of_getElem? hlayer)
    obtain ⟨x, hx, hshape⟩ := hnet.shaped.exists_gather hlayer
    dsimp only at he
    split at he
    · cases he; rfl
    · next w hw =>
        rw [hx, ok_bind] at he
        obtain he | ⟨_, -, he⟩ := bind_eq_error_iff.mp he
        · exact place?_of_perceptron (hfits.weights.2 w hw) hshape he
        · cases he

end Network

open Feedforward.Network Feedforward.Graph

/-- Any number of actions on a floating-point network that has just been compiled, with activations
of any kind. Whatever is refused on the way, the groups, the shapes of all buffers and the layout are
those from the start, and the inputs of a layer never disagree with its weights. -/
theorem actAll_keeps_shapes [Readable V Numeric] {g : Graph Numeric} {output : Handle}
    {memory : Nat} {kind : ElementKind} {gen gen' : Generator} {compiled : Network Numeric}
    (hkind : kind ≠ .int64)
    (hcompile : g.compile (Numeric.allocation memory kind) output gen = (.ok compiled, gen'))
    (actions : List (Action V Numeric I)) :
    (compiled.actAll g actions).groups = compiled.groups ∧
    (∀ layer ∈ (compiled.actAll g actions).layers,
      (layer.weights = none ↔ g.inputs layer.group = []) ∧
      (∀ w, layer.weights = some w →
        w.shape = [g.cardinality layer.group, g.inputSize layer.group]) ∧
      (∃ s, layer.signal = some s ∧ s.shape = [g.cardinality layer.group]) ∧
      ∃ e, layer.error = some e ∧ e.shape = [g.cardinality layer.group]) ∧
    (compiled.actAll g actions).layout g = compiled.layout g ∧
    (∀ (feed : Feed V) (i m n : Nat), ((compiled.actAll g actions).run g feed).1 ≠
      .error (.mismatch (.layerInputs i) m n)) ∧
    ∀ (i : Int) (info : I) (m n : Nat),
      (compiled.actAll g actions).update g i (perceptron (R := Unit)) info ≠
        .error (.mismatch .learnerInputs m n) := by
  have hlaw : (Numeric.allocation memory kind).Lawful _ := Numeric.lawful_allocation hkind
  have hstart := (laidOut_of_compile hlaw hcompile).intact hlaw
  have hnet := hstart.actAll actions
  refine ⟨?_, ?_, hnet.shaped.layout_eq hstart.shaped, ?_, ?_⟩
  · exact Except.ok.inj (hnet.follows.symm.trans hstart.follows)
  · intro layer hlayer
    obtain ⟨hweights, hsignal, herror⟩ := hnet.fits layer hlayer
    exact ⟨hweights.1, hweights.2, hsignal, herror⟩
  · intro feed i m n hrun
    obtain h | h | ⟨j, h⟩ := hnet.place?_of_run hrun <;> cases h
  · intro i info m n hupdate
    cases hnet.place?_of_update hupdate

/-- A run, an error, an update that uses it, one that is refused and a run that is refused. -/
def diamondActions : List (Action Value Numeric Unit) := [
  .run (.aligned [.list [.int 1, .int 2]]),
  .writeError 3 (.float64 (.fill [1] 2)),
  .learn (-1) (),
  .learn 0 (),
  .run (.aligned [.list [.int 1]])]

theorem actAll_keeps_shapes_diamond :
    ElementKind.float64 ≠ .int64 ∧
    ∃ compiled gen', (diamond Activation.linear).compile
        Numeric.doubles 3 (.ofSeed [0]) = (.ok compiled, gen') ∧
      (compiled.actAll (diamond .linear) diamondActions).groups = [0, 2, 1, 3] ∧
      (compiled.actAll (diamond .linear) diamondActions).layout (diamond .linear) =
        compiled.layout (diamond .linear) := by
  have hkind : ElementKind.float64 ≠ .int64 := by decide
  obtain ⟨compiled, gen', hcompile⟩ := exists_compile_diamond (.ofSeed [0])
  obtain ⟨hgroups, -, hlayout, -⟩ := actAll_keeps_shapes hkind hcompile diamondActions
  rw [groups_of_compile_diamond hcompile] at hgroups
  exact ⟨hkind, compiled, gen', hcompile, hgroups, hlayout⟩

end Feedforward
