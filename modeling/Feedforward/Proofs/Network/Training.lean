import Mathlib.Algebra.BigOperators.Group.List.Basic
import Mathlib.Tactic.Ring
import Feedforward.Proofs.Network.Learning
import Feedforward.Proofs.Network.Linearity

/-!
# What a network is taught

Between two runs the signals stay, so all updates of a layer see the same inputs. Each adds a
multiple of these to every row of the weights, and over exact arithmetic the multiples add up:

    weights r c  ↦  weights r c + (sum of the errors in force) * inputs c.

No update reads the weights of another layer, and sums do not depend on the order. So lessons taught
in another order leave the same weights (`weights_of_trains`).
-/

namespace Feedforward

open Finset

variable {α : Type} [CommSemiring α]

/-! ## Rows that grow -/

namespace Tensor

variable {w w' w'' x : Tensor α} {rows columns : Nat} {d d' : α}

theorem getElem?_component {n c : Nat} (hx : x.shape = [n]) (hc : c < n) :
    x.data[c]? = some (x.component c) := by
  rw [← length_data_of_shape hx] at hc
  rw [component, List.getD_eq_getElem?_getD, List.getElem?_eq_getElem hc, Option.getD_some]

theorem getElem?_entry {r c : Nat} (hw : w.shape = [rows, columns]) (hr : r < rows)
    (hc : c < columns) : w.data[r * columns + c]? = some (w.entry r c) := by
  have hcolumns : w.shape.getD 1 0 = columns := by
    rw [hw]
    rfl
  rw [entry, hcolumns, List.getD_eq_getElem?_getD,
    List.getElem?_eq_getElem (place_lt_length hw hr hc), Option.getD_some]

/-- Matrices of the same entries are the same. -/
theorem ext_entry {a b : Tensor α} (ha : a.shape = [rows, columns]) (hb : b.shape = [rows, columns])
    (h : ∀ r < rows, ∀ c < columns, a.entry r c = b.entry r c) : a = b := by
  apply eq_of_shape_of_data (ha.trans hb.symm)
  apply List.ext_getElem?
  intro k
  by_cases hk : k < rows * columns
  · -- the place tells its row and its column
    have hcolumns : 0 < columns := Nat.pos_of_mul_pos_left (Nat.zero_lt_of_lt hk)
    have hr : k / columns < rows := (Nat.div_lt_iff_lt_mul hcolumns).mpr hk
    have hc : k % columns < columns := Nat.mod_lt k hcolumns
    have hplace : k / columns * columns + k % columns = k := Nat.div_add_mod' k columns
    rw [← hplace, getElem?_entry ha hr hc, getElem?_entry hb hr hc, h _ hr _ hc]
  · have hle : rows * columns ≤ k := Nat.le_of_not_lt hk
    rw [List.getElem?_eq_none (by rwa [length_data_of_matrix ha]),
      List.getElem?_eq_none (by rwa [length_data_of_matrix hb])]

/-- Every row of a matrix has gained a multiple of a vector. -/
def Grows (w x : Tensor α) (d : α) (w' : Tensor α) : Prop :=
  ∃ rows columns, w.shape = [rows, columns] ∧ x.shape = [columns] ∧ w'.shape = [rows, columns] ∧
    ∀ r < rows, ∀ c < columns, w'.entry r c = w.entry r c + d * x.component c

theorem grows_zero (hw : w.shape = [rows, columns]) (hx : x.shape = [columns]) : w.Grows x 0 w := by
  refine ⟨rows, columns, hw, hx, hw, ?_⟩
  intro r _ c _
  rw [zero_mul, add_zero]

/-- Growth along one vector adds up. -/
theorem Grows.trans (h : w.Grows x d w') (h' : w'.Grows x d' w'') : w.Grows x (d + d') w'' := by
  obtain ⟨rows, columns, hw, hx, hw', hentries⟩ := h
  obtain ⟨_, _, hshape, -, hw'', hentries'⟩ := h'
  cases hshape.symm.trans hw'
  refine ⟨rows, columns, hw, hx, hw'', ?_⟩
  intro r hr c hc
  rw [hentries' r hr c hc, hentries r hr c hc]
  ring

/-- The amount of growth determines the weights. -/
theorem Grows.unique (h : w.Grows x d w') (h' : w.Grows x d w'') : w' = w'' := by
  obtain ⟨rows, columns, hw, -, hw', hentries⟩ := h
  obtain ⟨_, _, hshape, -, hw'', hentries'⟩ := h'
  cases hshape.symm.trans hw
  apply ext_entry hw' hw''
  intro r hr c hc
  rw [hentries r hr c hc, hentries' r hr c hc]

/-- The product with the vector grows by a multiple of its squared norm. -/
theorem Grows.exists_product? (h : w.Grows x d w') (hw : w.shape = [rows, columns]) :
    ∃ z z', product? w x = some z ∧ product? w' x = some z' ∧ z.shape = [rows] ∧
      z'.shape = [rows] ∧ ∀ r < rows, z'.component r =
        z.component r + d * ∑ c ∈ range columns, x.component c * x.component c := by
  obtain ⟨_, _, hshape, hx, hw', hentries⟩ := h
  cases hshape.symm.trans hw
  obtain ⟨z, hz, hzshape⟩ := Tensor.exists_product? hw hx
  obtain ⟨z', hz', hzshape'⟩ := Tensor.exists_product? hw' hx
  refine ⟨z, z', hz, hz', hzshape, hzshape', ?_⟩
  intro r hr
  rw [component_of_product? hw hx hz hr, component_of_product? hw' hx hz' hr, mul_sum,
    ← sum_add_distrib]
  apply sum_congr rfl
  intro c hc
  rw [hentries r hr c (mem_range.mp hc)]
  ring

end Tensor

/-- Lessons for a layer: the rule adds the first component of the error times the inputs. -/
theorem perceptron_grows {I R : Type} {w x e : Tensor α} {rows columns n : Nat}
    (hw : w.shape = [rows, columns]) (hx : x.shape = [columns]) (he : e.shape = [n]) (hn : n ≠ 0)
    (info : I) :
    ∃ w', perceptron (R := R) w x (some e) info = .ok (w', none) ∧
      w.Grows x (e.component 0) w' := by
  obtain ⟨w', hrule, hw', hentries⟩ := exists_perceptron_tensor (R := R) hw hx he
    (Tensor.getElem?_component he (Nat.pos_of_ne_zero hn)) info
  refine ⟨w', hrule, rows, columns, hw, hx, hw', ?_⟩
  intro r hr c hc
  have hentry := hentries r hr c hc _ _ (Tensor.getElem?_entry hw hr hc)
    (Tensor.getElem?_component hx hc)
  rw [Tensor.getElem?_entry hw' hr hc] at hentry
  rw [Option.some.inj hentry, mul_comm]

/-! ## Lessons -/

/-- A network is taught by updates that are not refused. Each is a lesson for the layer at a
position: the first component of the error that is in force. Between lessons, errors are
overwritten. -/
inductive Network.Trains (g : Graph (Tensor α)) :
    Network (Tensor α) → List (Nat × α) → Network (Tensor α) → Prop
  | done {net : Network (Tensor α)} : Trains g net [] net
  | write {net net' : Network (Tensor α)} {lessons : List (Nat × α)} (i : Nat)
      (values : Tensor α) : Trains g (net.writeError i values) lessons net' →
      Trains g net lessons net'
  | learn {net next net' : Network (Tensor α)} {lessons : List (Nat × α)} {I : Type} {j : Int}
      {i : Nat} {layer : Layer (Tensor α)} {e : Tensor α} (info : I) :
      net.resolve j = .ok (i, layer) → layer.error = some e →
      net.update g j (perceptron (R := Unit)) info = .ok (none, next) →
      Trains g next lessons net' → Trains g net ((i, e.component 0) :: lessons) net'

/-- What the lessons for the layer at a position add up to. -/
def lessonSum (lessons : List (Nat × α)) (i : Nat) : α :=
  ((lessons.filter (·.1 = i)).map Prod.snd).sum

@[simp] theorem lessonSum_cons (k : Nat) (d : α) (lessons : List (Nat × α)) (i : Nat) :
    lessonSum ((k, d) :: lessons) i = (if k = i then d else 0) + lessonSum lessons i := by
  unfold lessonSum
  by_cases hk : k = i
  · simp [hk]
  · simp [hk]

/-- The order of the lessons does not matter for what they add up to. -/
theorem lessonSum_perm {lessons lessons' : List (Nat × α)} (hperm : lessons'.Perm lessons)
    (i : Nat) : lessonSum lessons' i = lessonSum lessons i :=
  ((hperm.filter _).map _).sum_eq

namespace Network

variable {g : Graph (Tensor α)} {net next net' net'' : Network (Tensor α)} {output : Handle}
  {i : Nat} {j : Int} {layer : Layer (Tensor α)} {lessons lessons' : List (Nat × α)}
  {amount amount' : Nat → α}

/-- What the lessons have made of a network: all layers read what they read before, and the rows of
the weights at each position have gained a multiple of it. -/
structure Taught (g : Graph (Tensor α)) (net : Network (Tensor α)) (amount : Nat → α)
    (net' : Network (Tensor α)) : Prop where
  sent : net'.sent = net.sent
  weights : ∀ i, (net.bufferAt .weights i = none ∧ net'.bufferAt .weights i = none) ∨
    ∃ layer w x w', net.layers[i]? = some layer ∧ layer.weights = some w ∧
      net.gather g layer = .ok x ∧ w.Grows x (amount i) w' ∧ net'.bufferAt .weights i = some w'

/-- Weights that stay as they are have gained nothing. -/
theorem weights_unchanged (hnet : net.Intact g output) (i : Nat)
    (hweights : net'.bufferAt .weights i = net.bufferAt .weights i) :
    (net.bufferAt .weights i = none ∧ net'.bufferAt .weights i = none) ∨
    ∃ layer w x w', net.layers[i]? = some layer ∧ layer.weights = some w ∧
      net.gather g layer = .ok x ∧ w.Grows x 0 w' ∧ net'.bufferAt .weights i = some w' := by
  rw [hweights]
  cases hw : net.bufferAt .weights i with
  | none => exact .inl ⟨rfl, rfl⟩
  | some w =>
      obtain ⟨layer, hlayer, hw⟩ := Option.bind_eq_some_iff.mp hw
      have hshape := (hnet.fits layer (Array.mem_of_getElem? hlayer)).weights.2 w hw
      obtain ⟨x, hx, hxshape⟩ := hnet.shaped.exists_gather hlayer
      exact .inr ⟨layer, w, x, w, hlayer, hw, hx, Tensor.grows_zero hshape hxshape, rfl⟩

/-- A network with the weights that it had is taught nothing. -/
theorem Taught.of_weights_eq (hnet : net.Intact g output) (hsent : net'.sent = net.sent)
    (hweights : ∀ i, net'.bufferAt .weights i = net.bufferAt .weights i) :
    net.Taught g (fun _ => 0) net' where
  sent := hsent
  weights i := weights_unchanged hnet i (hweights i)

theorem Taught.weights_eq_none (h : net.Taught g amount net')
    (hnone : net.bufferAt .weights i = none) : net'.bufferAt .weights i = none := by
  rcases h.weights i with ⟨-, hnone'⟩ | ⟨layer, w, _, _, hlayer, hw, -, -, -⟩
  · exact hnone'
  · rw [bufferAt, hlayer] at hnone
    cases hw.symm.trans hnone

theorem Taught.exists_grows {w : Tensor α} (h : net.Taught g amount net')
    (hlayer : net.layers[i]? = some layer) (hw : layer.weights = some w) :
    ∃ x w', net.gather g layer = .ok x ∧ w.Grows x (amount i) w' ∧
      net'.bufferAt .weights i = some w' := by
  rcases h.weights i with ⟨hnone, -⟩ | ⟨layer', w₁, x, w', hlayer', hw₁, hx, hgrows, hw'⟩
  · rw [bufferAt, hlayer] at hnone
    cases hw.symm.trans hnone
  · obtain rfl := Option.some.inj (hlayer.symm.trans hlayer')
    obtain rfl := Option.some.inj (hw.symm.trans hw₁)
    exact ⟨x, w', hx, hgrows, hw'⟩

/-- What is taught in two stages adds up, since no signal changes between them. -/
theorem Taught.trans (h : net.Taught g amount next) (h' : next.Taught g amount' net') :
    net.Taught g (fun i => amount i + amount' i) net' where
  sent := h'.sent.trans h.sent
  weights := by
    intro i
    rcases h.weights i with ⟨hnone, hnone'⟩ | ⟨layer, w, x, w', hlayer, hw, hx, hgrows, hw'⟩
    · exact .inl ⟨hnone, h'.weights_eq_none hnone'⟩
    · obtain ⟨layer', hlayer', hw'⟩ := Option.bind_eq_some_iff.mp hw'
      obtain ⟨x', w'', hx', hgrows', hw''⟩ := h'.exists_grows hlayer' hw'
      -- the layer reads the same before the second part
      rw [gather_of_sent_eq h.sent hlayer' hlayer, hx] at hx'
      obtain rfl := Except.ok.inj hx'
      exact .inr ⟨layer, w, x, w'', hlayer, hw, hx, hgrows.trans hgrows', hw''⟩

/-- Writing into an error changes this error or nothing. -/
theorem writeError_cases (net : Network (Tensor α)) (i : Nat) (values : Tensor α) :
    net.writeError i values = net ∨
      ∃ content, net.writeError i values = net.setBuffer i .error content := by
  unfold writeError
  split
  · exact .inl rfl
  · split
    · exact .inr ⟨_, rfl⟩
    · exact .inl rfl

@[simp] theorem sent_writeError (net : Network (Tensor α)) (i : Nat) (values : Tensor α) :
    (net.writeError i values).sent = net.sent := by
  rcases writeError_cases net i values with hsame | ⟨content, hwrite⟩
  · rw [hsame]
  · rw [hwrite]
    exact sent_setBuffer (by decide)

@[simp] theorem weights_writeError (net : Network (Tensor α)) (i k : Nat) (values : Tensor α) :
    (net.writeError i values).bufferAt .weights k = net.bufferAt .weights k := by
  rcases writeError_cases net i values with hsame | ⟨content, hwrite⟩
  · rw [hsame]
  · rw [hwrite]
    exact bufferAt_setBuffer_of_buffer_ne (by decide) k

/-- An update that is not refused is one of a layer that has neurons and reads from something. -/
theorem exists_grows_of_update {I : Type} {info : I} {e : Tensor α} (hnet : net.Intact g output)
    (hj : net.resolve j = .ok (i, layer)) (he : layer.error = some e)
    (hupdate : net.update g j (perceptron (R := Unit)) info = .ok (none, next)) :
    g.inputs layer.group ≠ [] ∧ g.cardinality layer.group ≠ 0 ∧ ∃ w x w',
      layer.weights = some w ∧ net.gather g layer = .ok x ∧ w.Grows x (e.component 0) w' ∧
      next = net.setBuffer i .weights (some w') := by
  have hlayer := getElem?_of_resolve hj
  have hfits := hnet.fits layer (Array.mem_of_getElem? hlayer)
  obtain ⟨x, hx, hxshape⟩ := hnet.shaped.exists_gather hlayer
  obtain ⟨e', he', heshape⟩ := hfits.error
  -- the error that is read is the one of the layer
  obtain rfl := Option.some.inj (he'.symm.trans he)
  cases hw : layer.weights with
  | none =>  -- case: a source, which cannot be taught
      rw [update_of_source hj hw] at hupdate
      cases hupdate
  | some w =>  -- case: a layer
      have hwshape := hfits.weights.2 w hw
      rw [update_of_weights hj hw hx, he] at hupdate
      by_cases hzero : g.cardinality layer.group = 0
      · rw [perceptron_eq hwshape hxshape heshape, if_pos hzero] at hupdate
        cases hupdate
      · obtain ⟨w', hrule, hgrows⟩ :=
          perceptron_grows (R := Unit) hwshape hxshape heshape hzero info
        rw [hrule] at hupdate
        cases hupdate
        have hne : g.inputs layer.group ≠ [] := by
          rw [ne_eq, ← hfits.weights.1, hw]
          exact Option.some_ne_none w
        exact ⟨hne, hzero, w, x, w', rfl, hx, hgrows, rfl⟩

/-- An update that is not refused teaches its layer the first component of the error, and no other
layer anything. -/
theorem taught_of_update {I : Type} {info : I} {e : Tensor α} (hnet : net.Intact g output)
    (hj : net.resolve j = .ok (i, layer)) (he : layer.error = some e)
    (hupdate : net.update g j (perceptron (R := Unit)) info = .ok (none, next)) :
    net.Taught g (fun k => if i = k then e.component 0 else 0) next := by
  have hlayer := getElem?_of_resolve hj
  obtain ⟨-, -, w, x, w', hw, hx, hgrows, rfl⟩ := exists_grows_of_update hnet hj he hupdate
  refine ⟨sent_setBuffer (by decide), ?_⟩
  intro k
  by_cases hk : i = k
  · subst hk
    rw [if_pos rfl]
    exact .inr ⟨layer, w, x, w', hlayer, hw, hx, hgrows, bufferAt_setBuffer hlayer⟩
  · rw [if_neg hk]
    exact weights_unchanged hnet k (bufferAt_setBuffer_of_ne net _ _ _ hk)

/-- All lessons together teach each layer their sum. -/
theorem Trains.taught (htrains : net.Trains g lessons net') (hnet : net.Intact g output) :
    net.Taught g (lessonSum lessons) net' := by
  induction htrains with
  | done => exact .of_weights_eq hnet rfl fun _ => rfl
  | write i values _ ih =>
      have hwrite := Taught.of_weights_eq hnet (sent_writeError _ i values)
        (fun k => weights_writeError _ i k values)
      have htaught := hwrite.trans (ih (hnet.writeError i values))
      simp only [zero_add] at htaught
      exact htaught
  | learn info hj he hupdate _ ih =>
      have htaught := (taught_of_update hnet hj he hupdate).trans (ih (hnet.learn hupdate))
      simp only [← lessonSum_cons] at htaught
      exact htaught

/-- Lessons of the same sums leave the same weights. -/
theorem Taught.weights_unique (h : net.Taught g amount net') (h' : net.Taught g amount net'')
    (i : Nat) : net''.bufferAt .weights i = net'.bufferAt .weights i := by
  rcases h.weights i with ⟨hnone, hnone'⟩ | ⟨layer, w, x, w', hlayer, hw, hx, hgrows, hw'⟩
  · rw [hnone', h'.weights_eq_none hnone]
  · obtain ⟨x', w'', hx', hgrows', hw''⟩ := h'.exists_grows hlayer hw
    obtain rfl := Except.ok.inj (hx.symm.trans hx')
    rw [hw', hw'', hgrows.unique hgrows']

/-! ### Which lessons can be taught -/

/-- A layer can be taught if it has neurons and reads from something. -/
def Teachable {A : Type} (g : Graph A) (net : Network A) (i : Nat) : Prop :=
  ∃ h, net.groups[i]? = some h ∧ g.inputs h ≠ [] ∧ g.cardinality h ≠ 0

/-- Whether a layer can be taught is a matter of its group. -/
theorem teachable_congr {A : Type} {g : Graph A} {net net' : Network A}
    (hgroups : net'.groups = net.groups) (i : Nat) : net'.Teachable g i ↔ net.Teachable g i := by
  unfold Teachable
  rw [hgroups]

@[simp] theorem groups_writeError (net : Network (Tensor α)) (i : Nat) (values : Tensor α) :
    (net.writeError i values).groups = net.groups :=
  groups_eq_of_sent_eq (sent_writeError net i values)

/-- Layers that were taught are ones that can be. -/
theorem Trains.teachable (htrains : net.Trains g lessons net') (hnet : net.Intact g output) :
    ∀ lesson ∈ lessons, net.Teachable g lesson.1 := by
  induction htrains with
  | done => exact List.forall_mem_nil _
  | @write net _ _ i values _ ih =>
      intro lesson hlesson
      exact (teachable_congr (groups_writeError net i values) _).mp
        (ih (hnet.writeError i values) lesson hlesson)
  | learn info hj he hupdate _ ih =>
      rw [List.forall_mem_cons]
      obtain ⟨hne, hpos, -⟩ := exists_grows_of_update hnet hj he hupdate
      refine ⟨⟨_, getElem?_groups_of_layer (getElem?_of_resolve hj), hne, hpos⟩, ?_⟩
      intro lesson hlesson
      have hgroups := groups_eq_of_sent_eq (taught_of_update hnet hj he hupdate).sent
      exact (teachable_congr hgroups _).mp (ih (hnet.learn hupdate) lesson hlesson)

/-- A layer that can be taught can be taught anything: write it into the error, then update. -/
theorem exists_lesson (hnet : net.Intact g output) (hteachable : net.Teachable g i) (d : α) :
    ∃ values e layer next, (net.writeError i values).resolve i = .ok (i, layer) ∧
      layer.error = some e ∧ e.component 0 = d ∧
      (net.writeError i values).update g i (perceptron (R := Unit)) () = .ok (none, next) := by
  obtain ⟨_, hi, hne, hpos⟩ := hteachable
  obtain ⟨layer, hlayer, rfl⟩ := exists_layer_of_getElem?_groups hi
  obtain ⟨error, herror, hshape⟩ := (hnet.fits layer (Array.mem_of_getElem? hlayer)).error
  -- any error will do that has `d` in front
  obtain ⟨values, hvalues, hd⟩ : ∃ values : Tensor α, values.shape = [g.cardinality layer.group] ∧
      values.component 0 = d := by
    refine ⟨.fill [g.cardinality layer.group] d, rfl, ?_⟩
    have hfirst := Tensor.getElem?_component (x := .fill [g.cardinality layer.group] d) rfl
      (Nat.pos_of_ne_zero hpos)
    exact List.eq_of_mem_replicate (List.mem_of_getElem? hfirst)
  have hwrite : net.writeError i values = net.setBuffer i .error (some values) := by
    have hbuffer : net.bufferAt .error i = some error := by
      rw [bufferAt, hlayer]
      exact herror
    unfold writeError
    rw [hbuffer]
    exact if_pos (hvalues.trans hshape.symm)
  have hnext := hnet.writeError i values
  rw [hwrite] at hnext
  have hlayer' : (net.setBuffer i .error (some values)).layers[i]? =
      some (layer.setBuffer .error (some values)) := by
    simp [hlayer]
  -- the layer finds its new error, and its weights grow along what it gathers
  have hj := resolve_of_getElem? hlayer' (.inl rfl)
  have hfits := hnext.fits _ (Array.mem_of_getElem? hlayer')
  obtain ⟨w, hw⟩ := Option.ne_none_iff_exists'.mp (mt hfits.weights.1.mp hne)
  obtain ⟨x, hx, hxshape⟩ := hnext.shaped.exists_gather hlayer'
  obtain ⟨w', hrule, -⟩ :=
    perceptron_grows (R := Unit) (hfits.weights.2 w hw) hxshape hvalues hpos ()
  have herror' : (layer.setBuffer .error (some values)).error = some values := rfl
  have hupdate : (net.setBuffer i .error (some values)).update g i (perceptron (R := Unit)) () =
      .ok (none, (net.setBuffer i .error (some values)).setBuffer i .weights (some w')) := by
    rw [update_of_weights hj hw hx, herror', hrule]
    rfl
  rw [← hwrite] at hj hupdate
  exact ⟨values, values, _, _, hj, herror', hd, hupdate⟩

/-- Lessons for layers that can be taught can all be given, one after the other. -/
theorem exists_trains (hnet : net.Intact g output)
    (hteachable : ∀ lesson ∈ lessons, net.Teachable g lesson.1) :
    ∃ net', net.Trains g lessons net' := by
  induction lessons generalizing net with
  | nil => exact ⟨net, .done⟩
  | cons lesson rest ih =>
      obtain ⟨i, d⟩ := lesson
      obtain ⟨hi, hrest⟩ := List.forall_mem_cons.mp hteachable
      obtain ⟨values, e, layer, next, hj, he, rfl, hupdate⟩ := exists_lesson hnet hi d
      have hwrite := hnet.writeError i values
      have hgroups := (groups_eq_of_sent_eq (taught_of_update hwrite hj he hupdate).sent).trans
        (groups_writeError net i values)
      obtain ⟨net', htrains⟩ := ih (hwrite.learn hupdate) fun lesson hlesson =>
        (teachable_congr hgroups _).mpr (hrest lesson hlesson)
      exact ⟨net', .write i values (.learn () hj he hupdate htrains)⟩

end Network

open Feedforward.Network

/-- Lessons taught to a compiled network that holds anything. The signals stay. Each layer reads
the same inputs throughout, and in every row its weights gain the sum of its lessons times these, so
that the components of their product gain the sum times the squared norm of the inputs. The same
lessons can be taught in any order, and leave the same weights. -/
theorem weights_of_trains {g : Graph (Tensor α)} {alloc : Allocation (Tensor α)} {output : Handle}
    {gen gen' : Generator} {compiled net net' : Network (Tensor α)} {lessons : List (Nat × α)}
    (hcompile : g.compile alloc output gen = (.ok compiled, gen'))
    (hgroups : net.groups = compiled.groups) (hfits : ∀ layer ∈ net.layers, layer.Fits g)
    (htrains : net.Trains g lessons net') :
    net'.groups = net.groups ∧
    (∀ i, net'.bufferAt .signal i = net.bufferAt .signal i) ∧
    (∀ i layer layer', net.layers[i]? = some layer → net'.layers[i]? = some layer' →
      (layer.weights = none ∧ layer'.weights = none) ∨
      ∃ w x w' z z', layer.weights = some w ∧ layer'.weights = some w' ∧
        net.gather g layer = .ok x ∧ net'.gather g layer' = .ok x ∧
        x.shape = [g.inputSize layer.group] ∧
        w.shape = [g.cardinality layer.group, g.inputSize layer.group] ∧
        w'.shape = [g.cardinality layer.group, g.inputSize layer.group] ∧
        (∀ r < g.cardinality layer.group, ∀ c < g.inputSize layer.group,
          w'.entry r c = w.entry r c + lessonSum lessons i * x.component c) ∧
        Arithmetic.product w x = .ok z ∧ Arithmetic.product w' x = .ok z' ∧
        ∀ r < g.cardinality layer.group, z'.component r = z.component r + lessonSum lessons i *
          ∑ c ∈ range (g.inputSize layer.group), x.component c * x.component c) ∧
    ∀ lessons' : List (Nat × α), lessons'.Perm lessons →
      (∃ net'', net.Trains g lessons' net'') ∧
      ∀ net'', net.Trains g lessons' net'' →
        ∀ i, net''.bufferAt .weights i = net'.bufferAt .weights i := by
  have hnet : net.Intact g output := {
    follows := by
      rw [Follows, hgroups]
      exact Graph.follows_of_compile hcompile
    fits := hfits }
  have htaught := htrains.taught hnet
  refine ⟨groups_eq_of_sent_eq htaught.sent, ?_, ?_, ?_⟩
  · intro i  -- signals
    rw [bufferAt_signal, bufferAt_signal, htaught.sent]
  · intro i layer layer' hlayer hlayer'  -- weights
    rcases htaught.weights i with ⟨hnone, hnone'⟩ | ⟨l, w, x, w', hl, hw, hx, hgrows, hw'⟩
    · rw [bufferAt, hlayer] at hnone
      rw [bufferAt, hlayer'] at hnone'
      exact .inl ⟨hnone, hnone'⟩
    · right
      obtain rfl := Option.some.inj (hl.symm.trans hlayer)
      rw [bufferAt, hlayer'] at hw'
      have hwshape := (hfits l (Array.mem_of_getElem? hlayer)).weights.2 w hw
      obtain ⟨z, z', hz, hz', -, -, hproduct⟩ := hgrows.exists_product? hwshape
      obtain ⟨_, _, hshape, hxshape, hwshape', hentries⟩ := hgrows
      cases hshape.symm.trans hwshape
      refine ⟨w, x, w', z, z', hw, hw', hx, ?_, hxshape, hwshape, hwshape', hentries, ?_, ?_,
        hproduct⟩
      · rw [gather_of_sent_eq htaught.sent hlayer' hlayer, hx]
      · exact congrArg (orFault .shapeMisfit) hz
      · exact congrArg (orFault .shapeMisfit) hz'
  · intro lessons' hperm  -- the order of the lessons
    constructor
    · apply exists_trains hnet
      intro lesson hlesson
      exact htrains.teachable hnet lesson (hperm.mem_iff.mp hlesson)
    · intro net'' htrains' i
      have htaught' := htrains'.taught hnet
      -- the amounts are the same in any order, and they determine the weights
      rw [funext (lessonSum_perm hperm)] at htaught'
      exact htaught.weights_unique htaught' i

/-- A network of `bypass` after a run on `[1, 2]`, with errors to learn from. -/
def bypassPupil : Network (Tensor ℤ) :=
  .ofLayers [
    ⟨0, none, some (.vector [1, 2]), some (.vector [0, 0])⟩,
    ⟨1, some ⟨[2, 2], [0, 1, 2, 0], rfl⟩, some (.vector [2, 2]), some (.vector [5, 9])⟩,
    ⟨2, some ⟨[1, 4], [1, 0, 2, 1], rfl⟩, some (.vector [7]), some (.vector [3])⟩]

theorem fits_bypassPupil : ∀ layer ∈ bypassPupil.layers, layer.Fits (bypass .tensorLinear) := by
  intro layer hlayer
  simp only [bypassPupil, Network.ofLayers, List.mem_toArray, List.mem_cons, List.not_mem_nil,
    or_false] at hlayer
  rcases hlayer with rfl | rfl | rfl
  · exact ⟨⟨iff_of_true rfl rfl, by rintro w ⟨⟩⟩, ⟨_, rfl, rfl⟩, ⟨_, rfl, rfl⟩⟩
  · exact ⟨⟨iff_of_false (Option.some_ne_none _) (List.cons_ne_nil _ _), by rintro w ⟨⟩; rfl⟩,
      ⟨_, rfl, rfl⟩, ⟨_, rfl, rfl⟩⟩
  · exact ⟨⟨iff_of_false (Option.some_ne_none _) (List.cons_ne_nil _ _), by rintro w ⟨⟩; rfl⟩,
      ⟨_, rfl, rfl⟩, ⟨_, rfl, rfl⟩⟩

/-- The layer in the middle learns from the error 5 and, once it is overwritten, from -2. Each of
its rows gains three times `[1, 2]`, also if the lessons come in another order. -/
theorem weights_of_trains_bypassPupil :
    ∃ compiled gen' net' layer w' net'',
      (bypass .tensorLinear).compile exactAllocation 2 (.ofSeed [0]) = (.ok compiled, gen') ∧
      bypassPupil.groups = compiled.groups ∧
      bypassPupil.Trains (bypass .tensorLinear) [(1, 5), (2, 3), (1, -2)] net' ∧
      net'.layers[1]? = some layer ∧ layer.weights = some w' ∧ w'.entry 1 0 = 5 ∧
      w'.entry 1 1 = 6 ∧
      bypassPupil.Trains (bypass .tensorLinear) [(2, 3), (1, 5), (1, -2)] net'' ∧
      net''.bufferAt .weights 1 = net'.bufferAt .weights 1 := by
  obtain ⟨compiled, gen', hcompile, hsame⟩ := exists_compile_bypass .tensorLinear
  have hgroups : bypassPupil.groups = compiled.groups := hsame
  obtain ⟨net', htrains⟩ : ∃ net', bypassPupil.Trains (bypass .tensorLinear)
      [(1, 5), (2, 3), (1, -2)] net' :=
    ⟨_, .learn (j := 1) (e := .vector [5, 9]) () rfl rfl rfl (.write 1 (.vector [-2, 0])
      (.learn (j := -1) (e := .vector [3]) () rfl rfl rfl
        (.learn (j := 1) (e := .vector [-2, 0]) () rfl rfl rfl .done)))⟩
  obtain ⟨hkept, -, hweights, hreordered⟩ :=
    weights_of_trains hcompile hgroups fits_bypassPupil htrains
  have hmiddle : net'.groups[1]? = some 1 := by
    rw [hkept]
    rfl
  obtain ⟨layer, hlayer, -⟩ := exists_layer_of_getElem?_groups hmiddle
  obtain ⟨⟨net'', htrains''⟩, hunique⟩ := hreordered [(2, 3), (1, 5), (1, -2)] (by decide)
  -- the layer in the middle learns twice, by 5 and by -2
  rcases hweights 1 _ layer rfl hlayer with
    ⟨hnone, -⟩ | ⟨w, x, w', _, _, hw, hw', hx, -, -, -, -, hentries, -⟩
  · cases hnone
  · cases hw
    cases hx
    have hfirst := hentries 1 (by decide) 0 (by decide)
    have hsecond := hentries 1 (by decide) 1 (by decide)
    exact ⟨compiled, gen', net', layer, w', net'', hcompile, hgroups, htrains, hlayer, hw', hfirst,
      hsecond, htrains'', hunique net'' htrains'' 1⟩

end Feedforward
