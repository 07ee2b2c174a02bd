import Feedforward.Network.Learn
import Feedforward.Proofs.Network.Columns
import Feedforward.Proofs.Tensor.Row

/-!
# The perceptron rule, entry by entry

Once the sizes agree, the rule reads of the error its first component and nothing else
(`perceptron_eq`). It adds a multiple of the inputs to every row of the weights:

    weights r c  ↦  weights r c + inputs c * error 0

Numbers of one kind are added and multiplied in this kind, so the arrays of each kind are tensors
of one type in another guise (`ElementKind.Carrier`), and what the rule does to tensors it does to
them.
-/

namespace Feedforward

variable {A I R : Type}

/-! ## Of the error, the first component -/

section Rule

variable [Arithmetic A] {w x e : A} {rows columns n : Nat}

/-- Where the sizes agree, only an empty error is refused. -/
theorem perceptron_eq (hw : Arithmetic.shape w = [rows, columns])
    (hx : Arithmetic.shape x = [columns]) (he : Arithmetic.shape e = [n]) (info : I) :
    perceptron (R := R) w x (some e) info =
      if n = 0 then .error .emptyError
      else do
        let step ← ofArray (Arithmetic.scale x (← ofArray (Arithmetic.first e)))
        return (← ofArray (Arithmetic.increase w step), none) := by
  simp [perceptron, Arithmetic.axis_zero_of_shape hx, Arithmetic.axis_one_of_shape hw,
    Arithmetic.axis_zero_of_shape he]

/-- Errors with the same first component teach the same. -/
theorem perceptron_congr {e' : A} (hw : Arithmetic.shape w = [rows, columns])
    (hx : Arithmetic.shape x = [columns]) (he : Arithmetic.shape e = [n])
    (he' : Arithmetic.shape e' = [n]) (hfirst : Arithmetic.first e = Arithmetic.first e')
    (info info' : I) :
    perceptron (R := R) w x (some e) info = perceptron w x (some e') info' := by
  rw [perceptron_eq hw hx he, perceptron_eq hw hx he', hfirst]

end Rule

/-! ## Tensors -/

theorem exists_perceptron_tensor {α : Type} [Add α] [Mul α] [OfNat α 0] {w x e : Tensor α}
    {rows columns n : Nat} {d : α} (hw : w.shape = [rows, columns]) (hx : x.shape = [columns])
    (he : e.shape = [n]) (hd : e.data[0]? = some d) (info : I) :
    ∃ w', perceptron (R := R) w x (some e) info = .ok (w', none) ∧ w'.shape = [rows, columns] ∧
      ∀ r < rows, ∀ c < columns, ∀ a b, w.data[r * columns + c]? = some a → x.data[c]? = some b →
        w'.data[r * columns + c]? = some (a + b * d) := by
  have hn : n ≠ 0 := by
    rintro rfl
    rw [List.length_eq_zero_iff.mp (Tensor.length_data_of_shape he)] at hd
    cases hd
  have hfirst : Arithmetic.first e = .ok (Tensor.scalar d) :=
    -- each step of the rule is what it is for the lists behind the tensors
    congrArg (orFault .missingAxis) (Tensor.first?_vector he hd)
  have hscale : Arithmetic.scale x (Tensor.scalar d) = .ok (x.map (· * d)) :=
    congrArg (orFault .shapeMisfit) (Tensor.zipWith?_scalar hx d)
  obtain ⟨w', hw', hshape, hentries⟩ := Tensor.exists_accumulate?_row (f := (· + ·)) hw
    (x := x.map (· * d)) hx
  have hincrease : Arithmetic.increase w (x.map (· * d)) = .ok w' :=
    congrArg (orFault .shapeMisfit) hw'
  refine ⟨w', ?_, hshape, ?_⟩
  · rw [perceptron_eq hw hx he]
    simp [hn, hfirst, hscale, hincrease]
  · intro r hr c hc a b ha hb
    apply hentries r hr c hc a (b * d) ha
    simp [Tensor.map, hb]

/-! ## Arrays of one kind -/

/-- A number plus the product of two others, where all are of one kind. -/
def Element.addProduct? : Element → Element → Element → Option Element
  | .float64 a, .float64 b, .float64 d => some (.float64 (a + b * d))
  | .float32 a, .float32 b, .float32 d => some (.float32 (a + b * d))
  | .int64 a, .int64 b, .int64 d => some (.int64 (a + b * d))
  | _, _, _ => none

/-- The arrays of a kind are the tensors of a type of numbers, and are calculated with as these
are. -/
structure ElementKind.Carrier (kind : ElementKind) {α : Type} [Add α] [Mul α] [OfNat α 0]
    (wrap : Tensor α → Numeric) (element : α → Element) : Prop where
  exists_wrap : ∀ a : Numeric, a.kind = kind → ∃ t, a = wrap t
  kind_wrap : ∀ t, (wrap t).kind = kind
  shape_wrap : ∀ t, (wrap t).shape = t.shape
  elements_wrap : ∀ t, (wrap t).elements = t.data.map element
  first_wrap : ∀ t, Arithmetic.first (wrap t) = (Arithmetic.first t).map wrap
  scale_wrap : ∀ s t, Arithmetic.scale (wrap s) (wrap t) = (Arithmetic.scale s t).map wrap
  increase_wrap : ∀ s t, Arithmetic.increase (wrap s) (wrap t) = (Arithmetic.increase s t).map wrap
  element_injective : ∀ a b, element a = element b → a = b
  addProduct?_element : ∀ a b d,
    (element a).addProduct? (element b) (element d) = some (element (a + b * d))

theorem orFault_map {α β : Type} (f : α → β) (fault : ArrayFault) (x : Option α) :
    orFault fault (x.map f) = (orFault fault x).map f := by
  cases x with
  | none => rfl
  | some a => rfl

/-- What has the kind already is stored as it is. -/
theorem Numeric.toKind_wrap {α : Type} {wrap : Tensor α → Numeric} {kind : ElementKind}
    (hwrap : ∀ t, (wrap t).toKind kind = wrap t) (fault : ArrayFault) (x : Option (Tensor α)) :
    (orFault fault (x.map wrap)).map (·.toKind kind) = (orFault fault x).map wrap := by
  cases x with
  | none => rfl
  | some t => exact congrArg Except.ok (hwrap t)

namespace ElementKind

/-- Every kind of elements has its type of numbers. -/
theorem exists_carrier (kind : ElementKind) :
    ∃ (α : Type) (_ : Add α) (_ : Mul α) (_ : OfNat α 0) (wrap : Tensor α → Numeric)
      (element : α → Element), kind.Carrier wrap element := by
  cases kind
  case' float64 =>
    refine ⟨Float, inferInstance, inferInstance, inferInstance, .float64, .float64, ?_⟩
  case' float32 =>
    refine ⟨Float32, inferInstance, inferInstance, inferInstance, .float32, .float32, ?_⟩
  case' int64 =>
    refine ⟨Int64, inferInstance, inferInstance, inferInstance, .int64, .int64, ?_⟩
  -- the operations on arrays do the same for every kind
  all_goals exact {
    exists_wrap := by rintro (t | t | t) ⟨⟩; exact ⟨t, rfl⟩
    kind_wrap := fun _ => rfl
    shape_wrap := fun _ => rfl
    elements_wrap := fun _ => rfl
    first_wrap := fun _ => orFault_map _ _ _
    scale_wrap := fun _ _ => orFault_map _ _ _
    increase_wrap := fun _ _ => Numeric.toKind_wrap (fun _ => rfl) _ _
    element_injective := by rintro a b ⟨⟩; rfl
    addProduct?_element := fun _ _ _ => rfl }

namespace Carrier

variable {kind : ElementKind} {α : Type} [Add α] [Mul α] [OfNat α 0] {wrap : Tensor α → Numeric}
  {element : α → Element}

theorem getElem?_elements (carrier : kind.Carrier wrap element) {t : Tensor α} {k : Nat} {a : α}
    (hk : t.data[k]? = some a) : (wrap t).elements[k]? = some (element a) := by
  rw [carrier.elements_wrap, List.getElem?_map, hk, Option.map_some]

/-- The rule does to the arrays of a kind what it does to the tensors behind them. -/
theorem perceptron_wrap (carrier : kind.Carrier wrap element) {w x e : Tensor α}
    {rows columns n : Nat} (hw : w.shape = [rows, columns]) (hx : x.shape = [columns])
    (he : e.shape = [n]) (info : I) :
    perceptron (R := R) (wrap w) (wrap x) (some (wrap e)) info =
      (perceptron w x (some e) info).map fun (w', answer) => (wrap w', answer) := by
  rw [perceptron_eq (A := Numeric) ((carrier.shape_wrap w).trans hw)
    ((carrier.shape_wrap x).trans hx) ((carrier.shape_wrap e).trans he), perceptron_eq hw hx he,
    carrier.first_wrap]
  by_cases hn : n = 0
  · simp [hn, Except.map]
  · -- up to the first operation that is refused, both go the same way
    cases Arithmetic.first e with
    | error fault => simp [hn, Except.map, ofArray]
    | ok d =>
        cases hscale : Arithmetic.scale x d with
        | error fault => simp [hn, Except.map, ofArray, carrier.scale_wrap, hscale]
        | ok step =>
            cases hsum : Arithmetic.increase w step with
            | error fault =>
                simp [hn, Except.map, ofArray, carrier.scale_wrap, hscale,
                  carrier.increase_wrap, hsum]
            | ok sum =>
                simp [hn, Except.map, carrier.scale_wrap, hscale, carrier.increase_wrap, hsum]

end Carrier

end ElementKind

namespace Numeric

/-- Every row of the weights gains the inputs times the first component of the error. -/
theorem exists_perceptron {kind : ElementKind} {w x e : Numeric} {rows columns n : Nat}
    (hw : w.kind = kind) (hx : x.kind = kind) (he : e.kind = kind)
    (hwshape : w.shape = [rows, columns]) (hxshape : x.shape = [columns]) (heshape : e.shape = [n])
    (hn : n ≠ 0) (info : I) :
    ∃ w', perceptron (R := R) w x (some e) info = .ok (w', none) ∧ w'.kind = kind ∧
      w'.shape = [rows, columns] ∧
      ∀ r < rows, ∀ c < columns, ∃ a b d s, w.elements[r * columns + c]? = some a ∧
        x.elements[c]? = some b ∧ e.elements[0]? = some d ∧ a.addProduct? b d = some s ∧
        w'.elements[r * columns + c]? = some s := by
  -- the arrays are tensors of the type of numbers of the kind
  obtain ⟨α, _, _, _, wrap, element, carrier⟩ := kind.exists_carrier
  obtain ⟨w, rfl⟩ := carrier.exists_wrap w hw
  obtain ⟨x, rfl⟩ := carrier.exists_wrap x hx
  obtain ⟨e, rfl⟩ := carrier.exists_wrap e he
  rw [carrier.shape_wrap] at hwshape hxshape heshape
  have hfirst : 0 < e.data.length := by
    rw [Tensor.length_data_of_shape heshape]
    omega
  obtain ⟨w', hrule, hshape, hentries⟩ := exists_perceptron_tensor (R := R) hwshape hxshape heshape
    (List.getElem?_eq_getElem hfirst) info
  refine ⟨wrap w', ?_, carrier.kind_wrap w', ?_, ?_⟩
  · rw [carrier.perceptron_wrap hwshape hxshape heshape, hrule]
    rfl
  · rw [carrier.shape_wrap, hshape]
  · intro r hr c hc
    have hcolumn : c < x.data.length := by
      rw [Tensor.length_data_of_shape hxshape]
      exact hc
    have hw := List.getElem?_eq_getElem (Tensor.place_lt_length hwshape hr hc)
    have hx := List.getElem?_eq_getElem hcolumn
    have he := List.getElem?_eq_getElem hfirst
    exact ⟨_, _, _, _, carrier.getElem?_elements hw, carrier.getElem?_elements hx,
      carrier.getElem?_elements he, carrier.addProduct?_element _ _ _,
      carrier.getElem?_elements (hentries r hr c hc _ _ hw hx)⟩

/-- The slice in front of a vector is known from its first component. -/
theorem first_congr {kind : ElementKind} {e e' : Numeric} {n : Nat} (he : e.kind = kind)
    (he' : e'.kind = kind) (hshape : e.shape = [n]) (hshape' : e'.shape = [n])
    (hsame : e.elements[0]? = e'.elements[0]?) : Arithmetic.first e = Arithmetic.first e' := by
  obtain ⟨α, _, _, _, wrap, element, carrier⟩ := kind.exists_carrier
  obtain ⟨e, rfl⟩ := carrier.exists_wrap e he
  obtain ⟨e', rfl⟩ := carrier.exists_wrap e' he'
  rw [carrier.shape_wrap] at hshape hshape'
  -- the first component of a vector depends on its first number only
  have hfirst : ∀ t : Tensor α, t.shape = [n] →
      Arithmetic.first t = orFault .missingAxis (Tensor.ofData? [] t.data[0]?.toList) := by
    intro t ht
    show orFault .missingAxis t.first? = _
    unfold Tensor.first?
    rw [ht]
    show orFault .missingAxis (Tensor.ofData? [] (t.data.take 1)) = _
    rw [List.take_one, List.head?_eq_getElem?]
  rw [carrier.elements_wrap, carrier.elements_wrap, List.getElem?_map, List.getElem?_map] at hsame
  have hdata : e.data[0]? = e'.data[0]? :=
    Option.map_injective (fun a b => carrier.element_injective a b) hsame
  rw [carrier.first_wrap, carrier.first_wrap, hfirst e hshape, hfirst e' hshape', hdata]

end Numeric

end Feedforward
