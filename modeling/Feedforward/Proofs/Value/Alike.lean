import Mathlib.Data.List.Forall2
import Mathlib.Data.List.Nodup
import Feedforward.Proofs.Json.KeyOrder
import Feedforward.Proofs.Json.Writing

/-!
# Values up to the order of keys

A mapping is written with its keys in order and read back in the order of the text, so that a value
comes back with its mappings rearranged (`Value.Alike`). Look-up does not see the difference
(`Alike.exists_at?`), and neither does the question of what can be written. Where all keys are texts
the same text is written again (`Alike.write_eq`).
-/

namespace Feedforward

/-- The value is neither a list nor a mapping. -/
def Value.isScalar : Value → Bool
  | .list _ | .map _ => false
  | _ => true

def Value.isList : Value → Bool
  | .list _ => true
  | _ => false

/-- Two values are equal up to the order of the keys of mappings. -/
inductive Value.Alike : Value → Value → Prop
  | scalar {v : Value} : v.isScalar → Alike v v
  | list {items items' : List Value} : items.length = items'.length →
      (∀ (i : Nat) (v v' : Value), items[i]? = some v → items'[i]? = some v' → Alike v v') →
      Alike (.list items) (.list items')
  | map {m m' : Fields} : (m.map (·.1)).Perm (m'.map (·.1)) →
      (∀ k v v', (k, v) ∈ m → (k, v') ∈ m' → Alike v v') → Alike (.map m) (.map m')

/-- All mappings in the value have different texts as keys. -/
inductive Value.Textual : Value → Prop
  | scalar {v : Value} : v.isScalar → Textual v
  | list {items : List Value} : (∀ v ∈ items, Textual v) → Textual (.list items)
  | map {m : Fields} : (m.map (·.1)).Nodup → (∀ e ∈ m, Json.HasTextKey e) →
      (∀ e ∈ m, Textual e.2) → Textual (.map m)

theorem Value.textual_record {fields : List (String × Value)} (hnodup : (fields.map (·.1)).Nodup)
    (h : ∀ f ∈ fields, f.2.Textual) : (Value.record fields).Textual := by
  refine .map ?_ (List.forall_mem_map.mpr fun f _ => ⟨.string f.1, rfl⟩) (List.forall_mem_map.mpr h)
  have hkey : Function.Injective fun name : String => (.str name : Key) := by
    rintro _ _ ⟨⟩
    rfl
  have hkeys : (fields.map fun f => ((.str f.1 : Key), f.2)).map (·.1) =
      (fields.map (·.1)).map fun name => .str name := by
    simp
  rw [hkeys]
  exact hnodup.map hkey

/-! ## Look-up by a text -/

@[simp] theorem Key.same_str_iff {k : Key} {t : Text} : k.same (.str t) ↔ k = .str t := by
  cases k with
  | float x =>
      rw [same, normal]
      cases x.toInt? <;> simp [normal]
  | _ => simp [same, normal]

theorem Fields.mem_of_at? {m : Fields} {name : String} {v : Value} (h : m.at? name = some v) :
    ((.str name, v) : Key × Value) ∈ m := by
  rw [at?] at h
  induction m with
  | nil => cases h
  | cons entry rest ih =>
      obtain ⟨k, w⟩ := entry
      rw [get?] at h
      split at h
      · next hk =>
          rw [Key.same_str_iff.mp hk, Option.some.inj h]
          exact List.mem_cons_self
      · exact List.mem_cons_of_mem _ (ih h)

/-- A name has a value exactly if it is one of the keys. -/
theorem Fields.isSome_at?_iff {m : Fields} {name : String} :
    (m.at? name).isSome ↔ (.str name : Key) ∈ m.map (·.1) := by
  rw [at?]
  induction m with
  | nil => simp [get?]
  | cons entry rest ih =>
      obtain ⟨k, w⟩ := entry
      have hkey : .str name = k ↔ k.same (.str name) := eq_comm.trans Key.same_str_iff.symm
      rw [get?, List.map_cons, List.mem_cons, hkey, ← ih]
      split <;> simp_all

namespace Value.Alike

variable {v v' : Value} {items items' : List Value} {m m' : Fields}

theorem eq_of_isScalar (h : Alike v v') (hv : v.isScalar) : v' = v := by
  cases h with
  | scalar => rfl
  | list => cases hv
  | map => cases hv

/-- Values that are alike are lists together, with members that are alike. -/
theorem exists_list (h : Alike (.list items) v') :
    ∃ items', v' = .list items' ∧ List.Forall₂ Alike items items' := by
  cases h with
  | scalar hv => cases hv
  | @list _ items' hlen hitems =>
      refine ⟨items', rfl, List.forall₂_iff_get.mpr ⟨hlen, fun i hi hi' => ?_⟩⟩
      exact hitems i _ _ (List.getElem?_eq_getElem hi) (List.getElem?_eq_getElem hi')

theorem of_forall₂ (h : List.Forall₂ Alike items items') : Alike (.list items) (.list items') := by
  obtain ⟨hlen, hget⟩ := List.forall₂_iff_get.mp h
  refine .list hlen fun i v v' hv hv' => ?_
  obtain ⟨hi, rfl⟩ := List.getElem?_eq_some_iff.mp hv
  obtain ⟨hi', rfl⟩ := List.getElem?_eq_some_iff.mp hv'
  exact hget i hi hi'

/-- Where keys do not repeat, it is enough that each value comes from one that is alike. -/
theorem of_nodup (hnodup : (m.map (·.1)).Nodup) (hkeys : (m.map (·.1)).Perm (m'.map (·.1)))
    (h : ∀ e ∈ m', ∃ v, (e.1, v) ∈ m ∧ Alike v e.2) : Alike (.map m) (.map m') := by
  refine .map hkeys fun k v v' hv hv' => ?_
  obtain ⟨w, hw, halike⟩ := h _ hv'
  cases List.inj_on_of_nodup_map hnodup hv hw rfl
  exact halike

/-- A list is alike to lists only. -/
theorem exists_items (h : Alike v v') (hv : v.isList) :
    ∃ items items', v = .list items ∧ v' = .list items' ∧ List.Forall₂ Alike items items' := by
  cases v with
  | list items =>
      obtain ⟨items', rfl, hitems⟩ := h.exists_list
      exact ⟨items, items', rfl, rfl, hitems⟩
  | _ => cases hv

theorem exists_map (h : Alike (.map m) v') : ∃ m', v' = .map m' := by
  cases h with
  | scalar hv => cases hv
  | @map _ m' => exact ⟨m', rfl⟩

/-- A text is found in both mappings or in none. -/
theorem at?_eq_none_iff (h : Alike (.map m) (.map m')) {name : String} :
    m'.at? name = none ↔ m.at? name = none := by
  cases h with
  | scalar hv => cases hv
  | map hkeys _ =>
      rw [← Option.not_isSome_iff_eq_none, ← Option.not_isSome_iff_eq_none, Fields.isSome_at?_iff,
        Fields.isSome_at?_iff, hkeys.mem_iff]

/-- Maps that are alike have values that are alike under each name. -/
theorem exists_at? (h : Alike (.map m) (.map m')) {name : String} (hv : m.at? name = some v) :
    ∃ v', m'.at? name = some v' ∧ Alike v v' := by
  cases hv' : m'.at? name with
  | none => cases hv.symm.trans (h.at?_eq_none_iff.mp hv')
  | some v' =>
      cases h with
      | scalar hm => cases hm
      | map _ hvalues =>
          exact ⟨v', rfl, hvalues _ v v' (Fields.mem_of_at? hv) (Fields.mem_of_at? hv')⟩

theorem isSome_at? (h : Alike (.map m) (.map m')) {name : String} (hsome : (m.at? name).isSome) :
    (m'.at? name).isSome := by
  obtain ⟨v, hv⟩ := Option.isSome_iff_exists.mp hsome
  obtain ⟨v', hv', -⟩ := h.exists_at? hv
  rw [hv']
  rfl

theorem at?_eq_of_isScalar (h : Alike (.map m) (.map m')) {name : String}
    (hscalar : (m.at? name).all isScalar) : m'.at? name = m.at? name := by
  cases hv : m.at? name with
  | none => exact h.at?_eq_none_iff.mpr hv
  | some v =>
      rw [hv] at hscalar
      obtain ⟨v', hv', halike⟩ := h.exists_at? hv
      rw [hv', halike.eq_of_isScalar hscalar]

/-! ## Writing -/

theorem writable (h : Alike v v') (hv : Json.writable v) : Json.writable v' := by
  induction h with
  | scalar => exact hv
  | @list items items' hlen _ ih =>
      rw [Json.writable, Json.itemsWritable_iff] at hv ⊢
      intro v' hv'
      obtain ⟨i, hi, rfl⟩ := List.mem_iff_getElem.mp hv'
      have hi' : i < items.length := hlen ▸ hi
      exact ih i _ _ (List.getElem?_eq_getElem hi') (List.getElem?_eq_getElem hi)
        (hv _ (List.getElem_mem hi'))
  | @map m m' hkeys _ ih =>
      rw [Json.writable, Bool.and_eq_true, Json.entriesWritable_iff] at hv ⊢
      -- the keys are the same up to their order, and each of them has a counterpart
      refine ⟨Json.ordered_perm hkeys ▸ hv.1, fun e he => ?_⟩
      obtain ⟨k, v'⟩ := e
      obtain ⟨⟨k', v⟩, he', rfl⟩ := List.mem_map.mp (hkeys.mem_iff.mpr (List.mem_map_of_mem he))
      obtain ⟨hk, hv⟩ := hv.2 _ he'
      exact ⟨hk, ih _ v v' he' he hv⟩

theorem map_fst_map {β : Type} (f : Value → β) (m : Fields) :
    (m.map fun e => (e.1, f e.2)).map (·.1) = m.map (·.1) :=
  List.map_map

/-- Entries with the same keys, whose values become the same, are the same in another order. -/
theorem map_perm {β : Type} {f : Value → β} (hnodup : (m.map (·.1)).Nodup)
    (hkeys : (m.map (·.1)).Perm (m'.map (·.1)))
    (h : ∀ k v v', (k, v) ∈ m → (k, v') ∈ m' → f v' = f v) :
    (m.map fun e => (e.1, f e.2)).Perm (m'.map fun e => (e.1, f e.2)) := by
  have hnodup' := hkeys.nodup_iff.mp hnodup
  rw [← map_fst_map f] at hnodup hnodup'
  refine (List.perm_ext_iff_of_nodup (.of_map _ hnodup) (.of_map _ hnodup')).mpr fun ⟨k, b⟩ => ?_
  simp only [List.mem_map, Prod.mk.injEq]
  constructor
  · rintro ⟨⟨k, v⟩, hv, rfl, rfl⟩
    obtain ⟨⟨k', v'⟩, hv', rfl⟩ := List.mem_map.mp (hkeys.mem_iff.mp (List.mem_map_of_mem hv))
    exact ⟨_, hv', rfl, h _ v v' hv hv'⟩
  · rintro ⟨⟨k, v'⟩, hv', rfl, rfl⟩
    obtain ⟨⟨k', v⟩, hv, rfl⟩ := List.mem_map.mp (hkeys.mem_iff.mpr (List.mem_map_of_mem hv'))
    exact ⟨_, hv, rfl, (h _ v v' hv hv').symm⟩

/-- The order of keys is not seen in what is written. -/
theorem writeAt_eq (h : Alike v v') (htextual : v.Textual) (l : Json.Spread) (level : Nat) :
    Json.writeAt l level v' = Json.writeAt l level v := by
  induction h generalizing level with
  | scalar => rfl
  | @list items items' hlen hitems ih =>
      cases htextual with
      | scalar hv => cases hv
      | list hall =>
          rw [Json.writeAt, Json.writeAt, Json.writeItems_congr]
          refine List.forall₂_iff_get.mpr ⟨hlen, fun i hi hi' => ?_⟩
          exact ih i _ _ (List.getElem?_eq_getElem hi) (List.getElem?_eq_getElem hi')
            (hall _ (List.getElem_mem hi)) (level + 1)
  | @map m m' hkeys _ ih =>
      cases htextual with
      | scalar hv => cases hv
      | map hnodup htext hall =>
          -- sorting by the keys makes the same entries of both, and the same order
          have hperm := map_perm hnodup hkeys fun k v v' hv hv' =>
            ih k v v' hv hv' (hall _ hv) (level + 1)
          rw [Json.writeAt, Json.writeAt, Json.writeEntries_eq_map, Json.writeEntries_eq_map,
            Json.arrange_eq_of_perm ?_ ?_ hperm]
          · exact List.forall_mem_map.mpr htext
          · rwa [map_fst_map]

/-- Values that are alike are written alike, since keys are sorted on the way. -/
theorem write_eq (h : Alike v v') (htextual : v.Textual) (l : Json.Spread) :
    Json.write l v' = Json.write l v :=
  h.writeAt_eq htextual l 0

end Value.Alike

end Feedforward
