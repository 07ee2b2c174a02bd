import Feedforward.Proofs.Network.Session

/-!
# Sizes that are reported

An error about two sizes says where they were compared. Of vectors for a network their number is
compared, of what a layer or a learning rule reads the outermost size, and what was compared is what
is reported:

    mismatch place expected actual  →  expected ≠ actual.

A signal buffer and the value for it are compared by their shapes, but what is reported is the
outermost size of the buffer and the number of elements of the value (`Network.Disagrees.signal`).
These may be equal: a vector of `n` numbers that stands upright is refused with the sizes `n` and
`n`.
-/

namespace Feedforward

variable {A V I : Type}

/-! ## Steps that compare nothing -/

section Steps

variable {α β : Type} {x : Except NetworkError α} {place : Place} {m n : Nat}

/-- Sizes that disagree are reported behind a step that compares none. -/
theorem bind_eq_mismatch_iff {f : α → Except NetworkError β}
    (hx : ∀ e, x = .error e → e.place? = none) :
    x >>= f = .error (.mismatch place m n) ↔
      ∃ a, x = .ok a ∧ f a = .error (.mismatch place m n) := by
  rw [bind_eq_error_iff, or_iff_right_iff_imp]
  intro h
  cases hx _ h

theorem ne_mismatch (hx : ∀ e, x = .error e → e.place? = none) :
    x ≠ .error (.mismatch place m n) := by
  intro h
  cases hx _ h

/-- If no element fails at a place then neither does the whole list. -/
theorem place?_of_mapM {f : α → Except NetworkError β}
    (hf : ∀ a e, f a = .error e → e.place? = none) {as : List α} {e : NetworkError}
    (he : as.mapM f = .error e) : e.place? = none := by
  induction as with
  | nil => cases he
  | cons a rest ih =>
      rw [List.mapM_cons] at he
      obtain he | ⟨b, -, he⟩ := bind_eq_error_iff.mp he
      · exact hf a e he
      · obtain he | ⟨bs, -, he⟩ := bind_eq_error_iff.mp he
        · exact ih he
        · cases he

end Steps

namespace Network

variable [Arithmetic A] {net net' : Network A} {g : Graph A} {i m n : Nat} {place : Place}
  {layer : Layer A} {e : NetworkError}

/-- Gathering inputs never reports a mismatch. -/
theorem place?_of_gather (he : net.gather g layer = .error e) : e.place? = none := by
  obtain he | ⟨positions, -, he⟩ := bind_eq_error_iff.mp he
  · refine place?_of_mapM (fun u e hu => ?_) he
    split at hu
    · cases hu
    · cases hu
      rfl
  · split at he
    · obtain he | ⟨_, -, he⟩ := bind_eq_error_iff.mp he
      · exact place?_of_present he
      · cases he
    · rw [joinSignals] at he
      split at he
      · cases he
        rfl
      · exact place?_of_ofArray he

/-! ## One layer -/

section Layer

variable [Readable V A] {feed : Feed V} {given : List (Nat × V)} {value : A}

/-- What a layer compares while it runs, in a network that is in the given state, and what is
reported of it. -/
inductive Disagrees (net : Network A) (g : Graph A) (given : List (Nat × V)) (i : Nat) :
    Place → Nat → Nat → Prop
  /-- What the layer reads has another size than a row of its weights. -/
  | inputs {layer : Layer A} {w x : A} {m n : Nat} : net.layers[i]? = some layer →
      g.inputs layer.group ≠ [] → layer.weights = some w → net.gather g layer = .ok x →
      Arithmetic.axis 1 w = .ok m → Arithmetic.axis 0 x = .ok n → m ≠ n →
      Disagrees net g given i (.layerInputs i) m n
  /-- What the layer computes has another shape than its buffer, which has some axis. -/
  | signal {layer : Layer A} {buffer value : A} {m : Nat} {rest : List Nat} :
      net.layers[i]? = some layer → layer.signal = some buffer →
      net.layerValue g given i layer = .ok value → Arithmetic.shape buffer = m :: rest →
      Arithmetic.shape value ≠ m :: rest →
      Disagrees net g given i (.signal i) m (Arithmetic.size value)

/-- A value is refused that has another shape than the buffer. -/
theorem fitSignal_eq_mismatch_iff {content : Option A} :
    fitSignal i content value = .error (.mismatch place m n) ↔
      place = .signal i ∧ n = Arithmetic.size value ∧ ∃ buffer rest, content = some buffer ∧
        Arithmetic.shape buffer = m :: rest ∧ Arithmetic.shape value ≠ m :: rest := by
  -- Only the comparison of the shapes reports a mismatch, since the buffer is there or not.
  rw [fitSignal, bind_eq_mismatch_iff fun _ => place?_of_present]
  constructor
  · rintro ⟨buffer, hbuffer, h⟩
    obtain rfl := present_eq_ok_iff.mp hbuffer
    by_cases hmisfit : Arithmetic.shape value = Arithmetic.shape buffer
    · rw [if_neg (not_not.mpr hmisfit)] at h
      cases h
    · rw [if_pos hmisfit] at h
      cases hshape : Arithmetic.shape buffer with
      | nil =>
          rw [hshape] at h
          cases h
      | cons k rest =>
          rw [hshape] at h hmisfit
          cases h
          exact ⟨rfl, rfl, buffer, rest, rfl, hshape, hmisfit⟩
  · rintro ⟨rfl, rfl, buffer, rest, rfl, hshape, hmisfit⟩
    refine ⟨buffer, rfl, ?_⟩
    rw [if_pos (hshape ▸ hmisfit), hshape]
    rfl

/-- Only a layer that has inputs compares sizes while it computes its value. -/
theorem layerValue_eq_mismatch_iff :
    net.layerValue g given i layer = .error (.mismatch place m n) ↔
      place = .layerInputs i ∧ g.inputs layer.group ≠ [] ∧ ∃ w x, layer.weights = some w ∧
        net.gather g layer = .ok x ∧ Arithmetic.axis 1 w = .ok m ∧ Arithmetic.axis 0 x = .ok n ∧
        m ≠ n := by
  rw [layerValue]
  -- A source compares nothing; a layer compares the sizes before it multiplies.
  by_cases hnil : g.inputs layer.group = []
  · rw [if_pos (Graph.isSource_iff.mpr hnil)]
    refine iff_of_false (ne_mismatch fun e he => ?_) fun h => h.2.1 hnil
    split at he
    · cases he
      rfl
    · obtain he | ⟨s, -, he⟩ := bind_eq_error_iff.mp he
      · exact place?_of_present he
      · obtain he | ⟨a, -, he⟩ := bind_eq_error_iff.mp he
        · exact place?_of_ofArray he
        · exact Graph.place?_of_activate (g := g) (h := layer.group) (a := a) he
  · rw [if_neg (mt Graph.isSource_iff.mp hnil), bind_eq_mismatch_iff fun _ => place?_of_gather]
    constructor
    · rintro ⟨x, hx, h⟩
      split at h
      · cases h
      · next w hw =>
          obtain ⟨k, hk, h⟩ := (bind_eq_mismatch_iff fun _ => place?_of_ofArray).mp h
          obtain ⟨l, hl, h⟩ := (bind_eq_mismatch_iff fun _ => place?_of_ofArray).mp h
          by_cases hdiffer : k = l
          · -- what the activation is applied to is no longer compared with anything
            rw [if_neg (not_not.mpr hdiffer)] at h
            obtain ⟨z, -, h⟩ := (bind_eq_mismatch_iff fun _ => place?_of_ofArray).mp h
            cases Graph.place?_of_activate (g := g) (h := layer.group) (a := z) h
          · rw [if_pos hdiffer] at h
            cases h
            exact ⟨rfl, hnil, w, x, hw, hx, ofArray_eq_ok_iff.mp hk, ofArray_eq_ok_iff.mp hl,
              hdiffer⟩
    · rintro ⟨rfl, -, w, x, hw, hx, hm, hn, hdiffer⟩
      refine ⟨x, hx, ?_⟩
      simp [hw, hm, hn, hdiffer]

/-- A layer reports exactly what it compares. -/
theorem newSignal_eq_mismatch_iff :
    net.newSignal g given i = .error (.mismatch place m n) ↔ net.Disagrees g given i place m n := by
  rw [newSignal]
  constructor
  · intro h
    split at h
    · cases h
    · next layer hlayer =>
        -- the value is computed, and then stored
        obtain h | ⟨value, hvalue, h⟩ := bind_eq_error_iff.mp h
        · obtain ⟨rfl, hne, w, x, hw, hx, hm, hn, hdiffer⟩ := layerValue_eq_mismatch_iff.mp h
          exact .inputs hlayer hne hw hx hm hn hdiffer
        · obtain ⟨rfl, rfl, buffer, rest, hbuffer, hshape, hmisfit⟩ :=
            fitSignal_eq_mismatch_iff.mp h
          exact .signal hlayer hbuffer hvalue hshape hmisfit
  · intro h
    cases h with
    | inputs hlayer hne hw hx hm hn hdiffer =>
        rw [hlayer]
        exact bind_eq_error_iff.mpr (.inl (layerValue_eq_mismatch_iff.mpr
          ⟨rfl, hne, _, _, hw, hx, hm, hn, hdiffer⟩))
    | signal hlayer hbuffer hvalue hshape hmisfit =>
        rw [hlayer]
        exact bind_eq_error_iff.mpr (.inr ⟨_, hvalue, fitSignal_eq_mismatch_iff.mpr
          ⟨rfl, rfl, _, _, hbuffer, hshape, hmisfit⟩⟩)

/-! ## Runs -/

omit [Arithmetic A] [Readable V A] in
/-- Before a layer runs, the number of vectors is compared with that of the sources. -/
theorem accept_eq_mismatch_iff : net.accept g feed = .error (.mismatch place m n) ↔
    place = .networkInputs ∧ m ≠ n ∧ ∃ values, feed = .aligned values ∧
      m = (net.sources g).length ∧ n = values.length := by
  cases feed with
  | aligned values =>  -- case: the number of vectors is compared
      rw [accept]
      constructor
      · intro h
        split at h
        · cases h
        · next hdiffer =>
            cases h
            exact ⟨rfl, Ne.symm hdiffer, values, rfl, rfl, rfl⟩
      · rintro ⟨rfl, hdiffer, _, hvalues, rfl, rfl⟩
        obtain rfl := Feed.aligned.inj hvalues
        rw [if_neg hdiffer.symm]
  | keyed entries =>  -- case: entries are compared by their groups
      constructor
      · intro h
        obtain ⟨located, -, h⟩ := (bind_eq_mismatch_iff fun _ => place?_of_locate []).mp h
        dsimp only at h
        split at h
        · cases h
        · split at h <;> cases h
      · rintro ⟨-, -, values, hvalues, -⟩
        cases hvalues

/-- A run compares the vectors with the sources, and then layers compare what they read and
compute. -/
theorem disagrees_of_run (hrun : net.run g feed = (.error (.mismatch place m n), net')) :
    net.accept g feed = .error (.mismatch place m n) ∨
      ∃ given i, net.accept g feed = .ok given ∧ net'.Disagrees g given i place m n := by
  cases haccept : net.accept g feed with
  | error e =>
      rw [run_eq_of_accept_error haccept] at hrun
      obtain rfl := Except.error.inj (Prod.mk.inj hrun).1
      exact .inl rfl
  | ok given =>
      -- the layers in front of the one that fails have passed
      cases hsteps : steps g given (List.range' 0 net.size) net with
      | mk r last =>
          rw [run_eq_of_steps haccept hsteps] at hrun
          obtain ⟨he, rfl⟩ := Prod.mk.inj hrun
          obtain ⟨i, -, ⟨rfl, -⟩ | ⟨e, rfl, -, hnew⟩⟩ :=
            steps_induction (P := fun _ _ => True) (fun _ _ _ _ _ => trivial) trivial hsteps
          · -- what was computed is handed out without another look
            simp only [ok_bind, lastSignal] at he
            split at he
            · cases he
            · cases place?_of_present he
          · obtain rfl := Except.error.inj he
            exact .inr ⟨given, i, rfl, newSignal_eq_mismatch_iff.mp hnew⟩

end Layer

end Network

/-! ## Learning -/

open Feedforward.Network

section Learning

variable [Arithmetic A] {R : Type} {net : Network A} {g : Graph A} {w x : A} {error : Option A}
  {info : I} {place : Place} {m n : Nat}

/-- The rule compares what it reads with a row of the weights. -/
theorem perceptron_eq_mismatch_iff :
    perceptron (R := R) w x error info = .error (.mismatch place m n) ↔
      place = .learnerInputs ∧ m ≠ n ∧ Arithmetic.axis 1 w = .ok m ∧
        Arithmetic.axis 0 x = .ok n := by
  rw [perceptron]
  constructor
  · intro h
    obtain ⟨k, hk, h⟩ := (bind_eq_mismatch_iff fun _ => place?_of_ofArray).mp h
    obtain ⟨l, hl, h⟩ := (bind_eq_mismatch_iff fun _ => place?_of_ofArray).mp h
    -- once the sizes agree nothing is left that reports a mismatch
    by_cases hdiffer : k = l
    · rw [if_neg (not_not.mpr hdiffer)] at h
      obtain ⟨_, -, h⟩ := (bind_eq_mismatch_iff fun _ => place?_of_present).mp h
      obtain ⟨_, -, h⟩ := (bind_eq_mismatch_iff fun _ => place?_of_ofArray).mp h
      split at h
      · cases h
      · obtain ⟨_, -, h⟩ := (bind_eq_mismatch_iff fun _ => place?_of_ofArray).mp h
        obtain ⟨_, -, h⟩ := (bind_eq_mismatch_iff fun _ => place?_of_ofArray).mp h
        obtain ⟨_, -, h⟩ := (bind_eq_mismatch_iff fun _ => place?_of_ofArray).mp h
        cases h
    · rw [if_pos hdiffer] at h
      cases h
      exact ⟨rfl, Ne.symm hdiffer, ofArray_eq_ok_iff.mp hl, ofArray_eq_ok_iff.mp hk⟩
  · rintro ⟨rfl, hdiffer, hm, hn⟩
    simp [hm, hn, hdiffer.symm]

/-- An update compares sizes in the rule only. -/
theorem perceptron_mismatch_of_update {j : Int}
    (h : net.update g j (perceptron (R := R)) info = .error (.mismatch place m n)) :
    ∃ (layer : Layer A) (w x : A), layer ∈ net.layers ∧ layer.weights = some w ∧
      net.gather g layer = .ok x ∧
      perceptron (R := R) w x layer.error info = .error (.mismatch place m n) := by
  rw [Network.update] at h
  obtain ⟨⟨i, layer⟩, hresolve, h⟩ := (bind_eq_mismatch_iff fun _ => place?_of_resolve).mp h
  have hlayer := Array.mem_of_getElem? (getElem?_of_resolve hresolve)
  dsimp only at h
  split at h
  · cases h
  · next w hw =>
      obtain ⟨x, hx, h⟩ := (bind_eq_mismatch_iff fun _ => place?_of_gather).mp h
      obtain h | ⟨_, -, h⟩ := bind_eq_error_iff.mp h
      · exact ⟨layer, w, x, hlayer, hw, hx, h⟩
      · cases h

end Learning

/-! ## The main result -/

/-- An error of a run about two sizes is about the number of vectors, about what a layer reads, or
about what a layer computes, in the state in which the network is left. One of the perceptron rule
is about what the rule is given. The two sizes differ, except where a computed value has another
shape than its buffer: of these shapes the outermost size of the buffer and the number of elements
of the value are reported, which are equal exactly if a value of another shape than a buffer with
one axis has as many elements. -/
theorem mismatch_reports [Arithmetic A] [Readable V A] (net : Network A) (g : Graph A) :
    (∀ (feed : Feed V) (place : Place) (m n : Nat) (net' : Network A),
      net.run g feed = (.error (.mismatch place m n), net') →
      (place = .networkInputs ∧ m ≠ n ∧ ∃ values, feed = .aligned values ∧
        m = (net.sources g).length ∧ n = values.length) ∨
      (∃ i layer w x, place = .layerInputs i ∧ m ≠ n ∧ net'.layers[i]? = some layer ∧
        layer.weights = some w ∧ net'.gather g layer = .ok x ∧
        Arithmetic.axis 1 w = .ok m ∧ Arithmetic.axis 0 x = .ok n) ∨
      ∃ given i layer buffer value, place = .signal i ∧ net.accept g feed = .ok given ∧
        net'.layers[i]? = some layer ∧ layer.signal = some buffer ∧
        net'.layerValue g given i layer = .ok value ∧
        Arithmetic.shape value ≠ Arithmetic.shape buffer ∧
        Arithmetic.axis 0 buffer = .ok m ∧ n = Arithmetic.size value) ∧
    (∀ (given : List (Nat × V)) (i n : Nat) (layer : Layer A) (buffer value : A),
      net.layers[i]? = some layer → layer.signal = some buffer → Arithmetic.shape buffer = [n] →
      net.layerValue g given i layer = .ok value →
      (net.newSignal g given i = .error (.mismatch (.signal i) n n) ↔
        Arithmetic.shape value ≠ [n] ∧ Arithmetic.size value = n)) ∧
    (∀ (R : Type) (w x : A) (error : Option A) (info : I) (place : Place) (m n : Nat),
      perceptron (R := R) w x error info = .error (.mismatch place m n) →
      place = .learnerInputs ∧ m ≠ n ∧ Arithmetic.axis 1 w = .ok m ∧
        Arithmetic.axis 0 x = .ok n) ∧
    ∀ (R : Type) (i : Int) (info : I) (place : Place) (m n : Nat),
      net.update g i (perceptron (R := R)) info = .error (.mismatch place m n) →
      place = .learnerInputs ∧ m ≠ n := by
  refine ⟨?_, ?_, ?_, ?_⟩
  · intro feed place m n net' hrun  -- what a run reports
    obtain haccept | ⟨given, i, haccept, hdisagrees⟩ := disagrees_of_run hrun
    · exact .inl (accept_eq_mismatch_iff.mp haccept)
    · cases hdisagrees with
      | @inputs layer w x m n hlayer hne hw hx hm hn hdiffer =>
          exact .inr (.inl ⟨i, layer, w, x, rfl, hdiffer, hlayer, hw, hx, hm, hn⟩)
      | @signal layer buffer value m rest hlayer hbuffer hvalue hshape hmisfit =>
          refine .inr (.inr ⟨given, i, layer, buffer, value, rfl, haccept, hlayer, hbuffer, hvalue,
            hshape ▸ hmisfit, ?_, rfl⟩)
          rw [Arithmetic.axis, hshape]
          rfl
  · intro given i n layer buffer value hlayer hbuffer hshape hvalue  -- what the report hides
    by_cases hmisfit : Arithmetic.shape value = [n]
    · simp [newSignal, hlayer, hvalue, hbuffer, fitSignal_eq hshape, hmisfit]
    · simp [newSignal, hlayer, hvalue, hbuffer, fitSignal_eq hshape, hmisfit]
  · intro R w x error info place m n h  -- what the learner reports
    exact perceptron_eq_mismatch_iff.mp h
  · intro R i info place m n h  -- and an update with it
    obtain ⟨layer, w, x, -, -, -, hrule⟩ := perceptron_mismatch_of_update h
    obtain ⟨hplace, hdiffer, -⟩ := perceptron_eq_mismatch_iff.mp hrule
    exact ⟨hplace, hdiffer⟩

def lone (n : Nat) : Graph Numeric := ⟨#[some ⟨n, .linear, [], none⟩]⟩

/-- A network for it, as it is compiled. -/
def loneNetwork (n : Nat) : Network Numeric :=
  .ofLayers [⟨0, none, some (.zeros [n] .float64), some (.zeros [n] .float64)⟩]

section Lone

variable [Readable V Numeric] {n : Nat} {v : V} {x : Numeric}

theorem layerValue_loneNetwork (hread : Readable.read (Numeric.zeros [n] .float64) v = .ok x) :
    (loneNetwork n).layerValue (lone n) [(0, v)] 0
      ⟨0, none, some (.zeros [n] .float64), some (.zeros [n] .float64)⟩ = .ok x := by
  rw [layerValue_of_source rfl rfl]
  show ofArray (Readable.read (Numeric.zeros [n] .float64) v) >>= _ = _
  rw [hread]
  rfl

/-- Any array of another shape with as many elements as the source has neurons is refused with equal
sizes: a column, a row, or a single number for a source with one neuron. -/
theorem run_loneNetwork (hread : Readable.read (Numeric.zeros [n] .float64) v = .ok x)
    (hshape : Arithmetic.shape x ≠ [n]) (hsize : Arithmetic.size x = n) :
    (loneNetwork n).run (lone n) (.aligned [v]) =
      (.error (.mismatch (.signal 0) n n), loneNetwork n) := by
  have hzeros : Arithmetic.shape (Numeric.zeros [n] .float64) = [n] := Numeric.shape_zeros [n]
  have hnew : (loneNetwork n).newSignal (lone n) [(0, v)] 0 =
      .error (.mismatch (.signal 0) n n) := by
    have hdisagrees := Disagrees.signal rfl rfl (layerValue_loneNetwork hread) hzeros hshape
    rw [hsize] at hdisagrees
    exact newSignal_eq_mismatch_iff.mpr hdisagrees
  have haccept : (loneNetwork n).accept (lone n) (.aligned [v]) = .ok [(0, v)] := rfl
  have hsteps : steps (lone n) [(0, v)] (List.range (loneNetwork n).size) (loneNetwork n) =
      (.error (.mismatch (.signal 0) n n), loneNetwork n) := by
    show steps (lone n) [(0, v)] [0] (loneNetwork n) = _
    rw [steps, hnew]
  rw [run, haccept]
  dsimp only
  rw [hsteps]

end Lone

/-- Three numbers that stand upright. -/
def uprightVector : Value := .list [.list [.int 1], .list [.int 2], .list [.int 3]]

theorem run_loneNetwork_upright : (loneNetwork 3).run (lone 3) (.aligned [uprightVector]) =
    (.error (.mismatch (.signal 0) 3 3), loneNetwork 3) :=
  run_loneNetwork (v := uprightVector) rfl (by decide) rfl

/-- A source with three neurons is given three numbers that stand upright. -/
theorem mismatch_reports_upright :
    (loneNetwork 3).run (lone 3) (.aligned [uprightVector]) =
      (.error (.mismatch (.signal 0) 3 3), loneNetwork 3) ∧
    ∃ given layer buffer value, (loneNetwork 3).layers[0]? = some layer ∧
      layer.signal = some buffer ∧
      (loneNetwork 3).layerValue (V := Value) (lone 3) given 0 layer = .ok value ∧
      Arithmetic.shape value ≠ Arithmetic.shape buffer ∧ 3 = Arithmetic.size value := by
  have hrun := run_loneNetwork_upright
  obtain ⟨hreports, -⟩ := mismatch_reports (V := Value) (I := Unit) (loneNetwork 3) (lone 3)
  obtain ⟨hplace, -⟩ | ⟨_, _, _, _, hplace, -⟩ |
    ⟨given, i, layer, buffer, value, hplace, -, hlayer, hbuffer, hvalue, hmisfit, -, hsize⟩ :=
    hreports _ _ _ _ _ hrun
  · cases hplace
  · cases hplace
  · cases hplace
    exact ⟨hrun, given, layer, buffer, value, hlayer, hbuffer, hvalue, hmisfit, hsize⟩

/-- The network comes from compiling, and the report says that three was expected and three came. -/
theorem upright_reported_with_equal_sizes :
    ∃ net gen, (lone 3).compile Numeric.doubles 0 (.ofSeed [0]) = (.ok net, gen) ∧
      net.run (lone 3) (.aligned [uprightVector]) =
        (.error (.mismatch (.signal 0) 3 3), net) ∧
      (NetworkError.mismatch (.signal 0) 3 3).message? (lone 3) =
        some "incompatible dimensions for impulse of layer 0: expected 3, got 3" := by
  have horder : (lone 3).order 0 = .ok [0] := by cbv
  have hcompile : (lone 3).compile Numeric.doubles 0 (.ofSeed [0]) =
      (.ok (loneNetwork 3), .ofSeed [0]) := by
    rw [Graph.compile, horder]
    rfl
  exact ⟨loneNetwork 3, _, hcompile, run_loneNetwork_upright, rfl⟩

end Feedforward
