import Feedforward.Proofs.Network.Perceptron
import Feedforward.Proofs.Network.Session

/-!
# What an update changes

An update looks at one layer: at its weights, at what it reads from the layers in front, and at its
error. It is refused for sources, which have no weights, and for layers without neurons, whose error
has no first component; for nothing else, since in a session shapes stay what they were and every
buffer keeps the kind of the network (`Uniform`). Otherwise it changes the weights of this layer,

    weights r c  ↦  weights r c + inputs c * error 0,

and leaves everything else alone (`update_in_session`).
-/

namespace Feedforward

open Feedforward.Graph

/-! ## Buffers of one kind -/

namespace Numeric

@[simp] theorem kind_toKind (a : Numeric) (kind : ElementKind) : (a.toKind kind).kind = kind := by
  cases kind <;> rfl

theorem kind_of_increase {a d b : Numeric} (h : increase a d = .ok b) : b.kind = a.kind := by
  unfold increase at h
  split at h
  · cases h
  · obtain ⟨sum, -, rfl⟩ := map_eq_ok_iff.mp h
    exact kind_toKind sum a.kind

/-- Weights that can be allocated have the kind and the shape that they are drawn for. -/
theorem weights_eq_ok {kind : ElementKind} {rows columns : Nat} {draws : List Nat} {w : Numeric}
    (h : weights kind rows columns draws = .ok w) : w.kind = kind ∧ w.shape = [rows, columns] := by
  cases kind with
  | float64 =>
      rw [weights, Tensor.ofData?] at h
      split at h
      · obtain rfl := Except.ok.inj h
        exact ⟨rfl, rfl⟩
      · cases h
  | float32 =>
      rw [weights, Tensor.ofData?] at h
      split at h
      · obtain rfl := Except.ok.inj h
        exact ⟨rfl, rfl⟩
      · cases h
  | int64 => cases h

end Numeric

/-- All buffers have the shapes that the graph asks for and are of one kind. -/
structure Network.Uniform (net : Network Numeric) (g : Graph Numeric) (output : Handle)
    (kind : ElementKind) : Prop extends net.Intact g output where
  kinds : ∀ layer ∈ net.layers, ∀ b a, layer.buffer b = some a → a.kind = kind

section Kinds

variable {V I : Type} {g : Graph Numeric} {output : Handle} {memory : Nat} {kind : ElementKind}
  {gen gen' : Generator} {net net' : Network Numeric} {i : Nat} {layer : Layer Numeric}

/-- A group draws weights of its shape and of the kind of the network. -/
theorem Graph.kind_of_drawWeights {h : Handle} {w : Option Numeric}
    (hdraw : g.drawWeights (Numeric.allocation memory kind) h gen = (.ok w, gen')) :
    g.WeightsFit h w ∧ ∀ a, w = some a → a.kind = kind := by
  by_cases hnil : g.inputs h = []
  · rw [drawWeights_of_nil hnil] at hdraw
    cases hdraw
    exact ⟨⟨iff_of_true rfl hnil, fun _ hw => nomatch hw⟩, fun _ hw => nomatch hw⟩
  · match hroom : (Numeric.allocation memory kind).room (g.cardinality h) (g.inputSize h) with
    | .error fault =>
        rw [drawWeights_of_no_room hnil hroom] at hdraw
        cases hdraw
    | .ok () =>
        rw [drawWeights_of_room hnil hroom] at hdraw
        obtain ⟨m, hm, rfl⟩ := map_eq_ok_iff.mp (Prod.mk.inj hdraw).1
        obtain ⟨hkind, hshape⟩ := Numeric.weights_eq_ok hm
        refine ⟨⟨iff_of_false (Option.some_ne_none m) hnil, ?_⟩, ?_⟩
        · rintro a ⟨⟩
          exact hshape
        · rintro a ⟨⟩
          exact hkind

/-- Compiling to whatever kind gives buffers of this kind. Integers are no exception, since they
only make networks of one source. -/
theorem uniform_of_compile
    (hcompile : g.compile (Numeric.allocation memory kind) output gen = (.ok net, gen')) :
    net.Uniform g output kind := by
  have hfollows := follows_of_compile hcompile
  obtain ⟨hs, ws, layers, -, hdraw, hlayers, rfl⟩ := compile_eq_ok_iff.mp hcompile
  have hspec : ∀ layer ∈ (Network.ofLayers layers).layers, _ := fun layer hlayer =>
    forall_mem_newLayers (forall₂_of_drawAll (fun _ _ _ _ => kind_of_drawWeights) hdraw) hlayers
      layer (List.mem_toArray.mp hlayer)
  -- weights are drawn in the kind, and the other buffers are zeros of the kind
  refine { follows := hfollows, fits := ?_, kinds := ?_ }
  · intro layer hlayer
    obtain ⟨⟨hweights, -⟩, z, hz, hsignal, herror⟩ := hspec layer hlayer
    obtain ⟨-, rfl⟩ := Numeric.zeros_eq_ok_iff.mp hz
    exact ⟨hweights, ⟨_, hsignal, Numeric.shape_zeros _⟩, ⟨_, herror, Numeric.shape_zeros _⟩⟩
  · intro layer hlayer b a ha
    obtain ⟨⟨-, hweights⟩, z, hz, hsignal, herror⟩ := hspec layer hlayer
    obtain ⟨-, rfl⟩ := Numeric.zeros_eq_ok_iff.mp hz
    have hzeros : (Numeric.zeros [g.cardinality layer.group] kind).kind = kind := by
      cases kind <;> rfl
    cases b with
    | weights => exact hweights a ha
    | signal =>
        obtain rfl := Option.some.inj (hsignal.symm.trans ha)
        exact hzeros
    | error =>
        obtain rfl := Option.some.inj (herror.symm.trans ha)
        exact hzeros

@[simp]
theorem Layer.buffer_setBuffer_of_ne {A : Type} (layer : Layer A) {b b' : Buffer} (hb : b ≠ b')
    (content : Option A) : (layer.setBuffer b content).buffer b' = layer.buffer b' := by
  cases b <;> cases b' <;> first | rfl | exact absurd rfl hb

namespace Network

namespace Uniform

/-- A change to one buffer keeps a network uniform if what is stored has the kind of the others. -/
theorem setBuffer (hnet : net.Uniform g output kind) {b : Buffer} {content : Option Numeric}
    (hintact : (net.setBuffer i b content).Intact g output)
    (hkind : net.layers[i]? ≠ none → ∀ a, content = some a → a.kind = kind) :
    (net.setBuffer i b content).Uniform g output kind := by
  refine { hintact with kinds := ?_ }
  apply forall_mem_setBuffer hnet.kinds
  intro layer hlayer b' a ha
  by_cases hb : b = b'
  · subst hb
    rw [Layer.buffer_setBuffer] at ha
    exact hkind (by simp [hlayer]) a ha
  · rw [layer.buffer_setBuffer_of_ne hb] at ha
    exact hnet.kinds layer (Array.mem_of_getElem? hlayer) b' a ha

variable [Readable V Numeric] {given : List (Nat × V)}

/-- What is stored takes the kind of the buffer. -/
theorem setSignal_of_newSignal (hnet : net.Uniform g output kind) {a : Numeric}
    (hnew : net.newSignal g given i = .ok a) :
    (net.setBuffer i .signal (some a)).Uniform g output kind := by
  apply hnet.setBuffer (hnet.toIntact.setSignal_of_newSignal hnew)
  intro hsome c hc
  obtain rfl := Option.some.inj hc
  obtain ⟨layer, hlayer⟩ := Option.ne_none_iff_exists'.mp hsome
  have hmem := Array.mem_of_getElem? hlayer
  obtain ⟨s, hs, hshape⟩ := (hnet.fits layer hmem).signal
  obtain ⟨y, -, -, rfl⟩ := exists_layerValue_of_newSignal hlayer hs hshape hnew
  exact (Numeric.kind_toKind y s.kind).trans (hnet.kinds layer hmem .signal s hs)

/-- A run, with whatever outcome, stores arrays of the kind of the network. -/
theorem run (hnet : net.Uniform g output kind) (feed : Feed V) :
    (net.run g feed).2.Uniform g output kind := by
  apply run_induction (P := fun net => net.Uniform g output kind)
  · intro net i given a hnet hnew
    exact hnet.setSignal_of_newSignal hnew
  · exact hnet

omit [Readable V Numeric]

/-- An update stores weights of the kind that they had. -/
theorem learn {R : Type} (hnet : net.Uniform g output kind) {j : Int} {info : I}
    {answer : Option R} (hupdate : net.update g j perceptron info = .ok (answer, net')) :
    net'.Uniform g output kind := by
  have hintact := hnet.toIntact.learn hupdate
  obtain ⟨i, layer, w, x, w', hlayer, hw, hrule, rfl⟩ := update_eq_ok hupdate
  apply hnet.setBuffer hintact
  intro _ a ha
  obtain rfl := Option.some.inj ha
  obtain ⟨step, hincrease⟩ := exists_increase_of_perceptron hrule
  rw [Numeric.kind_of_increase hincrease]
  exact hnet.kinds layer (Array.mem_of_getElem? hlayer) .weights w hw

theorem writeError (hnet : net.Uniform g output kind) (i : Nat) (values : Numeric) :
    (net.writeError i values).Uniform g output kind := by
  have hintact := hnet.toIntact.writeError i values
  rw [Network.writeError] at hintact ⊢
  split
  · exact hnet
  · next error herror =>
      rw [herror] at hintact
      split
      · next hshape =>  -- case: the values fit, and are converted to the kind of the buffer
          dsimp only at hintact
          rw [if_pos hshape] at hintact
          apply hnet.setBuffer hintact
          intro hsome a ha
          obtain rfl := Option.some.inj ha
          obtain ⟨layer, hlayer⟩ := Option.ne_none_iff_exists'.mp hsome
          rw [bufferAt, hlayer] at herror
          have hkind := hnet.kinds layer (Array.mem_of_getElem? hlayer) .error error herror
          exact (Numeric.kind_toKind values error.kind).trans hkind
      · exact hnet

variable [Readable V Numeric]

/-- No action changes a kind, refused or not. -/
theorem act (hnet : net.Uniform g output kind) (action : Action V Numeric I) :
    (net.act g action).Uniform g output kind := by
  cases action with
  | run feed => exact hnet.run feed
  | learn i info =>
      rw [Network.act]
      split
      · exact hnet
      · next hupdate => exact hnet.learn hupdate
  | writeError i values => exact hnet.writeError i values

/-- No sequence of actions mixes kinds of arrays. -/
theorem actAll (hnet : net.Uniform g output kind) (actions : List (Action V Numeric I)) :
    (net.actAll g actions).Uniform g output kind := by
  induction actions generalizing net with
  | nil => exact hnet
  | cons action rest ih => exact ih (hnet.act action)

end Uniform

end Network

end Kinds

/-! ## What an update reads -/

namespace Network

section Reading

variable {A I R : Type} {g : Graph A} {net other : Network A} {i : Nat} {layer layer' : Layer A}
  {j : Int} {content : Option A} {b b' : Buffer}

/-- A position is counted from the front, or from the end if it is negative. -/
theorem resolve_of_getElem? (hlayer : net.layers[i]? = some layer)
    (hj : j = i ∨ j = i - net.size) : net.resolve j = .ok (i, layer) := by
  have hi : i < net.size := (Array.getElem?_eq_some_iff.mp hlayer).1
  have hposition : (if j < 0 then j + (net.size : Int) else j) = i := by
    split <;> omega
  simp only [resolve, hposition, Int.toNat_natCast, hlayer]
  exact if_neg (by omega)

/-- Groups and signals, which are all that layers behind can read. -/
def sent (net : Network A) : List (Handle × Option A) :=
  net.layers.toList.map fun layer => (layer.group, layer.signal)

@[simp] theorem getElem?_sent (net : Network A) (k : Nat) :
    net.sent[k]? = (net.layers[k]?).map fun layer => (layer.group, layer.signal) := by
  rw [sent, List.getElem?_map, Array.getElem?_toList]

/-- No buffer but the signal is sent. -/
@[simp]
theorem sent_setBuffer (hb : b ≠ .signal) : (net.setBuffer i b content).sent = net.sent := by
  apply List.ext_getElem?
  intro k
  rw [getElem?_sent, getElem?_sent, getElem?_setBuffer]
  by_cases hik : i = k
  · rw [if_pos hik, Option.map_map]
    congr 1
    funext layer
    cases b with
    | weights => rfl
    | signal => exact absurd rfl hb
    | error => rfl
  · rw [if_neg hik]

theorem groups_eq_of_sent_eq (hsent : net.sent = other.sent) : net.groups = other.groups := by
  have hgroups : ∀ net : Network A, net.groups = net.sent.map Prod.fst := by
    intro net
    rw [sent, List.map_map]
    rfl
  rw [hgroups, hgroups, hsent]

theorem bufferAt_signal (net : Network A) (k : Nat) :
    net.bufferAt .signal k = (net.sent[k]?).bind Prod.snd := by
  rw [getElem?_sent, Option.bind_map]
  rfl

/-- What is gathered depends on the signals alone. -/
theorem mapM_signal_eq (net : Network A) (ks : List Nat) :
    (ks.filterMap (net.layers[·]?)).mapM (·.signal) =
      (ks.filterMap fun k => (net.sent[k]?).map Prod.snd).mapM id := by
  have hsignals : (ks.filterMap (net.layers[·]?)).map (·.signal) =
      ks.filterMap fun k => (net.sent[k]?).map Prod.snd := by
    rw [List.map_filterMap]
    congr 1
    funext k
    rw [getElem?_sent, Option.map_map]
    rfl
  rw [← hsignals, List.mapM_map]
  rfl

@[simp] theorem bufferAt_setBuffer (hlayer : net.layers[i]? = some layer) :
    (net.setBuffer i b content).bufferAt b i = content := by
  simp [bufferAt, hlayer]

@[simp] theorem bufferAt_setBuffer_of_buffer_ne (hb : b ≠ b') (k : Nat) :
    (net.setBuffer i b content).bufferAt b' k = net.bufferAt b' k := by
  rw [bufferAt, bufferAt, getElem?_setBuffer]
  by_cases hik : i = k
  · rw [if_pos hik, Option.bind_map]
    congr 1
    funext layer
    exact layer.buffer_setBuffer_of_ne hb content
  · rw [if_neg hik]

variable [Arithmetic A]

/-- Layers that get the same signals read the same. -/
theorem gather_congr (hsent : net.sent = other.sent) (hgroup : layer.group = layer'.group)
    (hsignal : layer.signal = layer'.signal) : net.gather g layer = other.gather g layer' := by
  have hjoin : ∀ ks : List Nat, joinSignals (ks.filterMap (net.layers[·]?)) =
      joinSignals (ks.filterMap (other.layers[·]?)) := by
    intro ks
    rw [joinSignals, joinSignals, mapM_signal_eq, mapM_signal_eq, hsent]
  unfold gather
  rw [inputPositions_congr (groups_eq_of_sent_eq hsent), hgroup, hsignal]
  simp only [hjoin]

/-- Networks that send the same signals gather the same inputs. -/
theorem gather_of_sent_eq (hsent : net.sent = other.sent) (hlayer : net.layers[i]? = some layer)
    (hlayer' : other.layers[i]? = some layer') : net.gather g layer = other.gather g layer' := by
  have hsame : (layer.group, layer.signal) = (layer'.group, layer'.signal) := by
    have hi := congrArg (·[i]?) hsent
    simp only [getElem?_sent, hlayer, hlayer'] at hi
    exact Option.some.inj hi
  exact gather_congr hsent (congrArg Prod.fst hsame) (congrArg Prod.snd hsame)

/-- A source layer cannot learn. -/
theorem update_of_source {learner : Learner A I R} {info : I} (hj : net.resolve j = .ok (i, layer))
    (hw : layer.weights = none) : net.update g j learner info = .error (.sourceLayer j) := by
  simp [update, hj, hw]

/-- A layer with weights stores what the learner makes of them, its inputs and its error. -/
theorem update_of_weights {learner : Learner A I R} {info : I} {w x : A}
    (hj : net.resolve j = .ok (i, layer)) (hw : layer.weights = some w)
    (hx : net.gather g layer = .ok x) :
    net.update g j learner info =
      (learner w x layer.error info).map fun (w', answer) =>
        (answer, net.setBuffer i .weights (some w')) := by
  cases hanswer : learner w x layer.error info with
  | error e => simp [update, hj, hw, hx, hanswer, Except.map]
  | ok r => simp [update, hj, hw, hx, hanswer, Except.map]

omit [Arithmetic A] in
/-- Changes to different buffers of a layer can be made in either order. -/
theorem setBuffer_comm (hb : b ≠ b') (content content' : Option A) :
    (net.setBuffer i b content).setBuffer i b' content' =
      (net.setBuffer i b' content').setBuffer i b content := by
  apply eq_of_layers_eq
  apply Array.ext_getElem?
  intro k
  simp only [getElem?_setBuffer]
  by_cases hik : i = k
  · simp only [if_pos hik, Option.map_map]
    congr 1
    funext layer
    cases b <;> cases b' <;> first | rfl | exact absurd rfl hb
  · simp only [if_neg hik]

end Reading

end Network

/-! ## One update -/

/-- Every row of the weights has gained the inputs times the first component of the error, all of it
in the kind of the weights. -/
structure Numeric.Gained (rows columns : Nat) (w x e w' : Numeric) : Prop where
  shape : w.shape = [rows, columns] ∧ w'.shape = [rows, columns]
  kind : w'.kind = w.kind
  entry : ∀ r < rows, ∀ c < columns, ∃ a b d s, w.elements[r * columns + c]? = some a ∧
    x.elements[c]? = some b ∧ e.elements[0]? = some d ∧ a.addProduct? b d = some s ∧
    w'.elements[r * columns + c]? = some s

namespace Network.Uniform

variable {I R : Type} {g : Graph Numeric} {output : Handle} {kind : ElementKind}
  {net : Network Numeric} {i : Nat} {j : Int} {layer : Layer Numeric}

/-- What a layer with inputs brings into an update. -/
theorem exists_parts (hnet : net.Uniform g output kind) (hlayer : net.layers[i]? = some layer)
    (hne : g.inputs layer.group ≠ []) :
    ∃ w x e, layer.weights = some w ∧ w.kind = kind ∧
      w.shape = [g.cardinality layer.group, g.inputSize layer.group] ∧
      net.gather g layer = .ok x ∧ x.kind = kind ∧ x.shape = [g.inputSize layer.group] ∧
      layer.error = some e ∧ e.kind = kind ∧ e.shape = [g.cardinality layer.group] := by
  have hmem := Array.mem_of_getElem? hlayer
  have hsignals : ∀ layer ∈ net.layers, ∃ s, layer.signal = some s ∧
      s.shape = [g.cardinality layer.group] ∧ s.kind = kind := by
    intro layer hlayer
    obtain ⟨s, hs, hshape⟩ := (hnet.fits layer hlayer).signal
    exact ⟨s, hs, hshape, hnet.kinds layer hlayer .signal s hs⟩
  obtain ⟨hnone, hweights⟩ := (hnet.fits layer hmem).weights
  obtain ⟨w, hw⟩ := Option.ne_none_iff_exists'.mp (mt hnone.mp hne)
  obtain ⟨-, x, -, hx, hxshape, hxkind, -⟩ :=
    hnet.follows.exists_gather_kind hsignals hlayer hne
  obtain ⟨e, he, heshape⟩ := (hnet.fits layer hmem).error
  exact ⟨w, x, e, hw, hnet.kinds layer hmem .weights w hw, hweights w hw, hx, hxkind, hxshape, he,
    hnet.kinds layer hmem .error e he, heshape⟩

/-- An update is refused for sources and for layers without neurons; otherwise the weights gain. -/
theorem update_cases (hnet : net.Uniform g output kind) (hlayer : net.layers[i]? = some layer)
    (hj : net.resolve j = .ok (i, layer)) (info : I) :
    (g.inputs layer.group = [] ∧
      net.update g j (perceptron (R := R)) info = .error (.sourceLayer j)) ∨
    (g.inputs layer.group ≠ [] ∧ g.cardinality layer.group = 0 ∧
      net.update g j (perceptron (R := R)) info = .error .emptyError) ∨
    (g.inputs layer.group ≠ [] ∧ g.cardinality layer.group ≠ 0 ∧ ∃ w x e w',
      layer.weights = some w ∧ net.gather g layer = .ok x ∧ layer.error = some e ∧
      Numeric.Gained (g.cardinality layer.group) (g.inputSize layer.group) w x e w' ∧
      net.update g j (perceptron (R := R)) info =
        .ok (none, net.setBuffer i .weights (some w'))) := by
  -- a source has no weights to learn
  by_cases hnil : g.inputs layer.group = []
  · have hw := (hnet.fits layer (Array.mem_of_getElem? hlayer)).weights.1.mpr hnil
    exact .inl ⟨hnil, update_of_source hj hw⟩
  · right
    obtain ⟨w, x, e, hw, hwkind, hwshape, hx, hxkind, hxshape, he, hekind, heshape⟩ :=
      hnet.exists_parts hlayer hnil
    rw [update_of_weights hj hw hx, he]
    -- without units there is no first component of the error
    by_cases hzero : g.cardinality layer.group = 0
    · left
      refine ⟨hnil, hzero, ?_⟩
      rw [perceptron_eq (A := Numeric) hwshape hxshape heshape, if_pos hzero]
      rfl
    · right
      obtain ⟨w', hrule, hkind, hshape, hentries⟩ := Numeric.exists_perceptron (R := R) hwkind
        hxkind hekind hwshape hxshape heshape hzero info
      refine ⟨hnil, hzero, w, x, e, w', hw, hx, rfl, ⟨⟨hwshape, hshape⟩, ?_, hentries⟩, ?_⟩
      · rw [hkind, hwkind]
      · rw [hrule]
        rfl

/-- Of the error, nothing counts but the first component. -/
theorem update_setError (hnet : net.Uniform g output kind) (hlayer : net.layers[i]? = some layer)
    (hj : j = i ∨ j = i - net.size) {e e' : Numeric} (he : layer.error = some e)
    (hshape : e'.shape = e.shape) (hkind : e'.kind = e.kind)
    (hfirst : e'.elements[0]? = e.elements[0]?) (info info' : I) :
    (net.setBuffer i .error (some e')).update g j (perceptron (R := R)) info' =
      (net.update g j perceptron info).map fun (answer, next) =>
        (answer, next.setBuffer i .error (some e')) := by
  have hmem := Array.mem_of_getElem? hlayer
  have hj' : (net.setBuffer i .error (some e')).resolve j =
      .ok (i, layer.setBuffer .error (some e')) := by
    apply resolve_of_getElem?
    · simp [hlayer]
    · simpa using hj
  have hj := resolve_of_getElem? hlayer hj
  -- what is gathered are signals, and the rule reads only the first component of the error
  by_cases hnil : g.inputs layer.group = []
  · have hw := (hnet.fits layer hmem).weights.1.mpr hnil
    rw [update_of_source hj hw, update_of_source hj' hw]
    rfl
  · obtain ⟨w, x, e₀, hw, -, hwshape, hx, -, hxshape, he₀, hekind, heshape⟩ :=
      hnet.exists_parts hlayer hnil
    obtain rfl := Option.some.inj (he₀.symm.trans he)
    have hx' : (net.setBuffer i .error (some e')).gather g (layer.setBuffer .error (some e')) =
        .ok x := by
      rw [← hx]
      exact gather_congr (sent_setBuffer (by decide)) rfl rfl
    have hrule : perceptron (R := R) w x (some e') info' = perceptron w x (some e₀) info := by
      apply perceptron_congr (A := Numeric) hwshape hxshape (hshape.trans heshape) heshape
      exact Numeric.first_congr (hkind.trans hekind) hekind (hshape.trans heshape) heshape hfirst
    rw [update_of_weights hj hw hx, update_of_weights hj' hw hx', he]
    show Except.map _ (perceptron w x (some e') info') = _
    rw [hrule]
    cases perceptron (R := R) w x (some e₀) info with
    | error e => rfl
    | ok r => exact congrArg (fun net => Except.ok (r.2, net)) (setBuffer_comm (by decide) _ _)

end Network.Uniform

open Feedforward.Network

/-- An update by the perceptron rule, after any session on a network that has just been compiled. It
is refused just for sources and for layers without neurons, and then nothing changes. Otherwise it
answers with nothing, every row of the weights of the layer gains the inputs times the first
component of the error, and all other buffers stay as they are. What the caller passes along and the
other components of the error do not matter. -/
theorem update_in_session {V I : Type} [Readable V Numeric] {g : Graph Numeric} {output : Handle}
    {memory : Nat} {kind : ElementKind} {gen gen' : Generator} {compiled net : Network Numeric}
    (hcompile : g.compile (Numeric.allocation memory kind) output gen = (.ok compiled, gen'))
    {actions : List (Action V Numeric I)} (hnet : compiled.actAll g actions = net) {i : Nat}
    {layer : Layer Numeric} (hlayer : net.layers[i]? = some layer) {j : Int}
    (hj : j = i ∨ j = i - net.size) (info : I) :
    ((∃ e, net.update g j (perceptron (R := Unit)) info = .error e) ↔
      g.inputs layer.group = [] ∨ g.cardinality layer.group = 0) ∧
    ((∃ e, net.update g j (perceptron (R := Unit)) info = .error e) →
      net.act g (.learn j info : Action V Numeric I) = net) ∧
    (g.inputs layer.group ≠ [] → g.cardinality layer.group ≠ 0 → ∃ next w x e w',
      net.update g j (perceptron (R := Unit)) info = .ok (none, next) ∧
      net.act g (.learn j info : Action V Numeric I) = next ∧
      net.bufferAt .weights i = some w ∧ net.gather g layer = .ok x ∧
      net.bufferAt .error i = some e ∧ next.bufferAt .weights i = some w' ∧
      Numeric.Gained (g.cardinality layer.group) (g.inputSize layer.group) w x e w' ∧
      next.groups = net.groups ∧
      (∀ k, k ≠ i → next.bufferAt .weights k = net.bufferAt .weights k) ∧
      ∀ k, next.bufferAt .signal k = net.bufferAt .signal k ∧
        next.bufferAt .error k = net.bufferAt .error k) ∧
    (∀ info' : I, net.update g j (perceptron (R := Unit)) info' = net.update g j perceptron info) ∧
    ∀ (e e' : Numeric) (info' : I), net.bufferAt .error i = some e → e'.shape = e.shape →
      e'.kind = e.kind → e'.elements[0]? = e.elements[0]? →
      (net.setBuffer i .error (some e')).update g j (perceptron (R := Unit)) info' =
        (net.update g j perceptron info).map fun (answer, next) =>
          (answer, next.setBuffer i .error (some e')) := by
  have huniform : net.Uniform g output kind := by
    rw [← hnet]
    exact (uniform_of_compile hcompile).actAll actions
  have hbuffer : ∀ b, net.bufferAt b i = layer.buffer b := by
    intro b
    rw [bufferAt, hlayer]
    rfl
  have hcases := huniform.update_cases (R := Unit) hlayer (resolve_of_getElem? hlayer hj) info
  refine ⟨?_, ?_, ?_, fun _ => rfl, ?_⟩
  · rcases hcases with  -- when it fails
      ⟨hnil, herror⟩ | ⟨-, hzero, herror⟩ | ⟨hne, hpos, _, _, _, _, -, -, -, -, hok⟩
    · exact iff_of_true ⟨_, herror⟩ (.inl hnil)
    · exact iff_of_true ⟨_, herror⟩ (.inr hzero)
    · apply iff_of_false
      · rintro ⟨e, herror⟩
        cases hok.symm.trans herror
      · rintro (hnil | hzero)
        · exact hne hnil
        · exact hpos hzero
  · rintro ⟨e, herror⟩  -- a failure changes nothing
    rw [act, herror]
  · intro hne hpos  -- what is learned, and what stays
    rcases hcases with ⟨hnil, -⟩ | ⟨-, hzero, -⟩ | ⟨-, -, w, x, e, w', hw, hx, he, hgained, hok⟩
    · exact absurd hnil hne
    · exact absurd hzero hpos
    · refine ⟨_, w, x, e, w', hok, ?_, (hbuffer .weights).trans hw, hx, (hbuffer .error).trans he,
        bufferAt_setBuffer hlayer, hgained, groups_setBuffer _ _ _ _, ?_, ?_⟩
      · rw [act, hok]
      · intro k hk
        exact bufferAt_setBuffer_of_ne net _ _ _ hk.symm
      · intro k
        constructor
        · exact bufferAt_setBuffer_of_buffer_ne (by decide) k
        · exact bufferAt_setBuffer_of_buffer_ne (by decide) k
  · intro e e' info' he hshape hkind hfirst  -- the other components of the error
    rw [hbuffer] at he
    exact huniform.update_setError hlayer hj he hshape hkind hfirst info info'

/-- After a session on the diamond, the output layer learns and the source is refused. -/
theorem update_in_session_diamond :
    ∃ compiled gen' next, (diamond Activation.linear).compile
        Numeric.doubles 3 (.ofSeed [0]) = (.ok compiled, gen') ∧
      (compiled.actAll (diamond .linear) diamondActions).update (diamond .linear) (-1)
        (perceptron (R := Unit)) () = .ok (none, next) ∧
      next.bufferAt .weights 2 =
        (compiled.actAll (diamond .linear) diamondActions).bufferAt .weights 2 ∧
      ∃ e, (compiled.actAll (diamond .linear) diamondActions).update (diamond .linear) 0
        (perceptron (R := Unit)) () = .error e := by
  obtain ⟨compiled, gen', hcompile⟩ := exists_compile_diamond (.ofSeed [0])
  have hgroups : (compiled.actAll (diamond .linear) diamondActions).groups = [0, 2, 1, 3] := by
    have hfollows := ((uniform_of_compile hcompile).actAll diamondActions).follows
    rw [← groups_of_compile_diamond hcompile]
    exact Except.ok.inj (hfollows.symm.trans (uniform_of_compile hcompile).follows)
  have hsize : (compiled.actAll (diamond .linear) diamondActions).size = 4 := by
    rw [size_eq_length_groups, hgroups]
    rfl
  obtain ⟨source, hsource, hzero⟩ := exists_layer_of_getElem?_groups (i := 0) (h := 0)
    (by rw [hgroups]; rfl)
  obtain ⟨last, hlast, hthree⟩ := exists_layer_of_getElem?_groups (i := 3) (h := 3)
    (by rw [hgroups]; rfl)
  -- the last layer learns, counted from the end, and the first one is a source
  obtain ⟨-, -, hlearn, -⟩ := update_in_session hcompile rfl hlast (j := -1) (by omega) ()
  obtain ⟨hrefused, -⟩ := update_in_session hcompile rfl hsource (j := 0) (by omega) ()
  rw [hthree] at hlearn
  rw [hzero] at hrefused
  obtain ⟨next, _, _, _, _, hok, -, -, -, -, -, -, -, hframe, -⟩ :=
    hlearn (List.cons_ne_nil _ _) (by decide)
  exact ⟨compiled, gen', next, hcompile, hok, hframe 2 (by decide), hrefused.mpr (.inl rfl)⟩

end Feedforward
