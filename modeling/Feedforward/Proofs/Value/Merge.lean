import Feedforward.Value.Merge

/-!
# What is found in merged mappings

Mappings in mappings are read along paths of keys (`Value.follow`). At a path, a merged mapping
holds what the override holds there; where both hold a mapping, the two are merged:

    follow (merge base override) p = merge m n    if follow base p = m and follow override p = n.

What only the base holds is found as before, unless the override has cut off the path above: with
something that is no mapping, or with a mapping where the base has none. Inductions along the path
show all of it, since merging goes down just where both hold mappings (`mergeOver_cases`).
-/

namespace Feedforward

/-! ## Keys -/

namespace Key

variable {k k' k'' : Key}

theorem same_iff : k.same k' ↔ k.normal = k'.normal := by simp [same]

theorem same_of_same (h : k.same k'') (h' : k'.same k'') : k.same k' := by
  rw [same_iff] at h h' ⊢
  rw [h, h']

theorem same_congr (h : k.same k') : k.same k'' = k'.same k'' := by
  simp only [same, same_iff.mp h]

end Key

namespace Fields

variable {m base override : Fields} {k k' : Key} {v : Value}

/-- No two entries have the same key. -/
def KeysDiffer (m : Fields) : Prop := m.Pairwise fun e e' => ¬ e.1.same e'.1

/-- Keys that are the same find the same value. -/
theorem get?_congr (hsame : k.same k') : m.get? k = m.get? k' := by
  induction m with
  | nil => rfl
  | cons entry rest ih =>
      obtain ⟨key, v⟩ := entry
      have hkey : key.same k = key.same k' := by
        simp only [Key.same, Key.same_iff.mp hsame]
      rw [get?, get?, hkey, ih]

theorem get?_eq_none (hm : ∀ e ∈ m, ¬ e.1.same k) : m.get? k = none := by
  induction m with
  | nil => rfl
  | cons entry rest ih =>
      obtain ⟨hentry, hrest⟩ := List.forall_mem_cons.mp hm
      rw [get?, if_neg hentry, ih hrest]

theorem exists_mem_of_get? (h : m.get? k = some v) : ∃ e ∈ m, e.2 = v := by
  induction m with
  | nil => cases h
  | cons entry rest ih =>
      rw [get?] at h
      split at h
      · exact ⟨entry, List.mem_cons_self, Option.some.inj h⟩
      · obtain ⟨e, he, hv⟩ := ih h
        exact ⟨e, List.mem_cons_of_mem _ he, hv⟩

/-- A key that is put finds its new value, and all others what they found before. -/
@[simp] theorem get?_put (m : Fields) (k k' : Key) (v : Value) :
    (m.put k v).get? k' = if k.same k' then some v else m.get? k' := by
  induction m with
  | nil => rfl
  | cons entry rest ih =>
      obtain ⟨key, w⟩ := entry
      rw [put]
      by_cases hkey : key.same k
      · -- the entry keeps its key, which is found by the same keys as the new one
        rw [if_pos hkey, get?, get?, Key.same_congr hkey]
        by_cases hk : k.same k'
        · rw [if_pos hk, if_pos hk]
        · rw [if_neg hk, if_neg hk, if_neg hk]
      · rw [if_neg hkey, get?, get?, ih]
        by_cases hk : k.same k'
        · have hother : ¬ key.same k' := by
            intro hkey'
            exact hkey (Key.same_of_same hkey' hk)
          rw [if_neg hother, if_pos hk, if_pos hk]
        · rw [if_neg hk, if_neg hk]

/-- At a key of the override the merged mapping holds what becomes of its value, at any other key
what the base holds. -/
theorem get?_merge (hoverride : override.KeysDiffer) (base : Fields) (k : Key) :
    (base.merge override).get? k = match override.get? k with
      | none => base.get? k
      | some v => some (v.mergeOver (base.get? k)) := by
  induction override generalizing base with
  | nil =>
      rw [merge]
      rfl
  | cons entry rest ih =>
      obtain ⟨key, v⟩ := entry
      obtain ⟨hkey, hrest⟩ := List.pairwise_cons.mp hoverride
      rw [merge, ih hrest, get?_put, get?]
      by_cases hk : key.same k  -- case: the first entry decides
      · -- the entries behind have other keys
        have hnone : get? rest k = none := by
          apply get?_eq_none
          intro e he hsame
          exact hkey e he (Key.same_of_same hk hsame)
        rw [if_pos hk, if_pos hk, hnone]
        show some (v.mergeOver (base.get? key)) = some (v.mergeOver (base.get? k))
        rw [get?_congr hk]
      · rw [if_neg hk, if_neg hk]

/-- A mapping that is written to has no keys but those that it had and the one it is written at. -/
theorem key_of_mem_put {e : Key × Value} (he : e ∈ m.put k v) : e.1 = k ∨ ∃ e' ∈ m, e.1 = e'.1 := by
  induction m with
  | nil => exact .inl (congrArg Prod.fst (List.mem_singleton.mp he))
  | cons entry rest ih =>
      rw [Fields.put] at he
      split at he
      · rcases List.mem_cons.mp he with rfl | he
        · exact .inr ⟨entry, List.mem_cons_self, rfl⟩
        · exact .inr ⟨e, List.mem_cons_of_mem _ he, rfl⟩
      · rcases List.mem_cons.mp he with rfl | he
        · exact .inr ⟨entry, List.mem_cons_self, rfl⟩
        · rcases ih he with hk | ⟨e', he', hkey⟩
          · exact .inl hk
          · exact .inr ⟨e', List.mem_cons_of_mem _ he', hkey⟩

/-- Putting a key replaces the one that is the same. -/
theorem KeysDiffer.put (hm : m.KeysDiffer) (k : Key) (v : Value) : (m.put k v).KeysDiffer := by
  induction m with
  | nil => exact List.pairwise_singleton _ _
  | cons entry rest ih =>
      obtain ⟨hentry, hrest⟩ := List.pairwise_cons.mp hm
      rw [Fields.put]
      split  -- case: the key of the first entry is replaced
      · exact List.pairwise_cons.mpr ⟨hentry, hrest⟩
      · next hother =>
          apply List.pairwise_cons.mpr
          -- a key behind is the new one or an old one, and neither is the first
          refine ⟨?_, ih hrest⟩
          intro e he
          rcases key_of_mem_put he with hk | ⟨e', he', hkey⟩
          · rw [hk]
            exact hother
          · rw [hkey]
            exact hentry e' he'

/-- Merging puts no key into a mapping twice. -/
theorem KeysDiffer.merge (hbase : base.KeysDiffer) (override : Fields) :
    (base.merge override).KeysDiffer := by
  induction override generalizing base with
  | nil => rwa [Fields.merge]
  | cons entry rest ih =>
      obtain ⟨k, v⟩ := entry
      rw [Fields.merge]
      exact ih (hbase.put _ _)

/-- The keys of a merged mapping are those of both. -/
theorem contains_merge (hoverride : override.KeysDiffer) (base : Fields) (k : Key) :
    (base.merge override).contains k = (base.contains k || override.contains k) := by
  unfold contains
  rw [get?_merge hoverride]
  cases override.get? k with
  | none => simp
  | some v => simp

end Fields

/-! ## Paths -/

namespace Value

/-- What is found at the end of a path of keys. -/
def follow : Value → List Key → Option Value
  | v, [] => some v
  | .map m, k :: p => (Fields.get? m k).bind fun v => follow v p
  | _, _ :: _ => none

/-- In no mapping that is found along a path do two entries have the same key. -/
def KeysDiffer (v : Value) : Prop := ∀ p m, v.follow p = some (.map m) → Fields.KeysDiffer m

variable {v w : Value} {old : Option Value} {m n : Fields} {k : Key} {p q : List Key}

@[simp] theorem follow_map_cons (m : Fields) (k : Key) (p : List Key) :
    (Value.map m).follow (k :: p) = (m.get? k).bind fun v => v.follow p := by
  rw [follow]

/-- Whatever is found behind a key is found in a mapping. -/
theorem exists_of_follow_cons (h : v.follow (k :: p) = some w) :
    ∃ (m : Fields) (u : Value), v = .map m ∧ m.get? k = some u ∧ u.follow p = some w := by
  cases v with
  | map m =>
      rw [follow_map_cons] at h
      obtain ⟨u, hu, hw⟩ := Option.bind_eq_some_iff.mp h
      exact ⟨m, u, rfl, hu, hw⟩
  | _ => cases h

theorem KeysDiffer.get? (hm : (Value.map m).KeysDiffer) (hk : m.get? k = some v) :
    v.KeysDiffer := by
  intro p n hn
  apply hm (k :: p) n
  rw [follow_map_cons, hk]
  exact hn

theorem KeysDiffer.fields (hm : (Value.map m).KeysDiffer) : Fields.KeysDiffer m := hm [] m rfl

theorem keysDiffer_of_not_map (hv : ∀ m, v ≠ .map m) : v.KeysDiffer := by
  intro p n hn
  cases p with
  | nil => exact absurd (Option.some.inj hn) (hv n)
  | cons k p =>
      obtain ⟨m, _, hm, -⟩ := exists_of_follow_cons hn
      exact absurd hm (hv m)

theorem keysDiffer_map (hm : Fields.KeysDiffer m) (hvalues : ∀ e ∈ m, e.2.KeysDiffer) :
    (Value.map m).KeysDiffer := by
  intro p n hn
  cases p with
  | nil =>
      obtain rfl : m = n := Value.map.inj (Option.some.inj hn)
      exact hm
  | cons k p =>
      rw [follow_map_cons] at hn
      obtain ⟨v, hv, hn⟩ := Option.bind_eq_some_iff.mp hn
      obtain ⟨e, he, rfl⟩ := Fields.exists_mem_of_get? hv
      exact hvalues e he p n hn

/-- Two mappings are merged; otherwise the override's value stands. -/
theorem mergeOver_cases (old : Option Value) (v : Value) :
    (∃ m n : Fields, old = some (.map m) ∧ v = .map n ∧ v.mergeOver old = .map (m.merge n)) ∨
    ((∀ m n : Fields, old = some (.map m) → v ≠ .map n) ∧ v.mergeOver old = v) := by
  -- Two mappings are the only values that are merged.
  cases v with
  | map n =>
      rw [mergeOver.eq_def]
      dsimp only
      split
      · next m => exact .inl ⟨m, n, rfl, rfl, rfl⟩
      · next hold =>
          right
          refine ⟨?_, rfl⟩
          rintro m _ rfl -
          exact hold m rfl
  | _ =>
      right
      constructor
      · rintro _ _ - ⟨⟩
      · rw [mergeOver.eq_def]

/-- A map is merged into a map key by key. -/
@[simp] theorem mergeOver_map (m n : Fields) :
    (Value.map n).mergeOver (some (.map m)) = .map (m.merge n) := by
  rw [mergeOver]

/-- What is found behind a key in merged mappings. -/
theorem follow_merge_cons (hn : (Value.map n).KeysDiffer) (m : Fields) (k : Key) (p : List Key) :
    (Value.map (m.merge n)).follow (k :: p) = match n.get? k with
      | none => (m.get? k).bind fun v => v.follow p
      | some u => (u.mergeOver (m.get? k)).follow p := by
  rw [follow_map_cons, Fields.get?_merge hn.fields]
  cases n.get? k with
  | none => rfl
  | some u => rfl

/-- Where the override holds something, it is merged over what the base holds there. -/
theorem follow_mergeOver_of_some (hv : v.KeysDiffer) (h : v.follow p = some w) :
    (v.mergeOver old).follow p = some (w.mergeOver (old.bind fun u => u.follow p)) := by
  induction p generalizing old v with
  | nil =>
      obtain rfl : v = w := Option.some.inj h
      cases old with
      | none => rfl
      | some u => rfl
  | cons k p ih =>
      obtain ⟨n, u, rfl, hu, hw⟩ := exists_of_follow_cons h
      rcases mergeOver_cases old (.map n) with ⟨m, _, rfl, ⟨⟩, hmerge⟩ | ⟨hold, hmerge⟩
      · rw [hmerge, follow_merge_cons hv, hu]
        dsimp only
        simp [ih (hv.get? hu) hw]
      · -- where the base has no mapping, nothing is found in it
        have hnone : (old.bind fun u => u.follow (k :: p)) = none := by
          cases hfound : old.bind fun u => u.follow (k :: p) with
          | none => rfl
          | some a =>
              obtain ⟨b, rfl, hb⟩ := Option.bind_eq_some_iff.mp hfound
              obtain ⟨m, _, rfl, -, -⟩ := exists_of_follow_cons hb
              exact absurd rfl (hold m n rfl)
        rw [hmerge, h, hnone]
        rcases mergeOver_cases none w with ⟨_, _, hsome, -, -⟩ | ⟨-, hsame⟩
        · cases hsome
        · rw [hsame]

/-- Where the override holds nothing and nothing has cut off the path above, the base is found. -/
theorem follow_mergeOver_of_open (hv : v.KeysDiffer) (h : v.follow p = none)
    (hopen : ∀ q, q <+: p → q ≠ p → v.follow q = none ∨ ∃ m n : Fields,
      (old.bind fun u => u.follow q) = some (.map m) ∧ v.follow q = some (.map n)) :
    (v.mergeOver old).follow p = old.bind fun u => u.follow p := by
  induction p generalizing old v with
  | nil => cases h
  | cons k p ih =>
      -- the base goes along with the override, from mapping to mapping
      rcases hopen [] List.nil_prefix (List.cons_ne_nil k p).symm with hnone | ⟨m, n, hm, hn⟩
      · cases hnone
      · obtain rfl : v = .map n := Option.some.inj hn
        obtain ⟨b, rfl, hb⟩ := Option.bind_eq_some_iff.mp hm
        obtain rfl : b = .map m := Option.some.inj hb
        rw [mergeOver_map, follow_merge_cons hv, Option.bind_some, follow_map_cons]
        rw [follow_map_cons] at h
        cases hu : n.get? k with
        | none => rfl
        | some u =>
            rw [hu, Option.bind_some] at h
            apply ih (hv.get? hu) h
            intro q hq hne
            have hstep := hopen (k :: q) ((List.prefix_cons_inj k).mpr hq)
              fun heq => hne (List.cons.inj heq).2
            simp only [Option.bind_some, follow_map_cons, hu] at hstep
            exact hstep

/-- Where the override has cut off the path above, nothing is found but what it holds itself. -/
theorem follow_mergeOver_of_cut (hv : v.KeysDiffer) (h : v.follow p = none) (hq : q <+: p)
    (hne : q ≠ p) (hw : v.follow q = some w)
    (hcut : (∀ n : Fields, w ≠ .map n) ∨
      ∀ m : Fields, (old.bind fun u => u.follow q) ≠ some (.map m)) :
    (v.mergeOver old).follow p = none := by
  induction p generalizing old v q with
  | nil => exact absurd (List.prefix_nil.mp hq) hne
  | cons k p ih =>
      -- The path is cut at `q`: at the start, or further down in the first component.
      rcases mergeOver_cases old v with ⟨m, n, rfl, rfl, hmerge⟩ | ⟨-, hmerge⟩
      · rw [hmerge, follow_merge_cons hv]
        cases q with
        | nil =>
            -- both hold mappings at the start
            obtain rfl : .map n = w := Option.some.inj hw
            rcases hcut with hmap | hold
            · exact absurd rfl (hmap n)
            · exact absurd rfl (hold m)
        | cons k' q =>
            obtain ⟨rfl, hprefix⟩ := List.cons_prefix_cons.mp hq
            rw [follow_map_cons] at h hw
            obtain ⟨u, hu, hw⟩ := Option.bind_eq_some_iff.mp hw
            rw [hu, Option.bind_some] at h
            simp only [Option.bind_some, follow_map_cons] at hcut
            rw [hu]
            apply ih (hv.get? hu) h hprefix ?_ hw hcut
            rintro rfl
            exact hne rfl
      · rw [hmerge, h]

end Value

open Feedforward.Value

/-- What is found at a path in merged mappings. Something of the override that is no mapping stands
as it is, a list in particular. Two mappings are merged, and have the keys of both, each once. A
mapping of the override stands where the base has none. Where the override has nothing, the base is
found as long as above, wherever the override has anything, both have mappings; otherwise nothing is
found. -/
theorem Fields.follow_merge {override : Fields} (hoverride : (Value.map override).KeysDiffer)
    (base : Fields) (p : List Key) :
    (∀ w, (Value.map override).follow p = some w → (∀ n, w ≠ .map n) →
      (Value.map (base.merge override)).follow p = some w) ∧
    (∀ items, (Value.map override).follow p = some (.list items) →
      (Value.map (base.merge override)).follow p = some (.list items)) ∧
    (∀ m n : Fields, (Value.map base).follow p = some (.map m) →
      (Value.map override).follow p = some (.map n) →
      (Value.map (base.merge override)).follow p = some (.map (m.merge n)) ∧
      (∀ k, (m.merge n).contains k = (m.contains k || n.contains k)) ∧
      (m.KeysDiffer → (m.merge n).KeysDiffer)) ∧
    (∀ n : Fields, (Value.map override).follow p = some (.map n) →
      (∀ m, (Value.map base).follow p ≠ some (.map m)) →
      (Value.map (base.merge override)).follow p = some (.map n)) ∧
    ((Value.map override).follow p = none →
      (∀ q, q <+: p → q ≠ p → (Value.map override).follow q = none ∨ ∃ m n : Fields,
        (Value.map base).follow q = some (.map m) ∧
        (Value.map override).follow q = some (.map n)) →
      (Value.map (base.merge override)).follow p = (Value.map base).follow p) ∧
    ((Value.map override).follow p = none →
      (∃ q w, q <+: p ∧ q ≠ p ∧ (Value.map override).follow q = some w ∧
        ((∀ n, w ≠ .map n) ∨ ∀ m, (Value.map base).follow q ≠ some (.map m))) →
      (Value.map (base.merge override)).follow p = none) := by
  have hmerge := mergeOver_map base override
  -- what the override holds at the path is merged over what the base holds there
  have hsome : ∀ w, (Value.map override).follow p = some w →
      (Value.map (base.merge override)).follow p =
        some (w.mergeOver ((Value.map base).follow p)) := by
    intro w hw
    rw [← hmerge]
    exact follow_mergeOver_of_some hoverride hw
  have hstands : ∀ w, (Value.map override).follow p = some w →
      (∀ m n : Fields, (Value.map base).follow p = some (.map m) → w ≠ .map n) →
      (Value.map (base.merge override)).follow p = some w := by
    intro w hw hother
    rw [hsome w hw]
    rcases mergeOver_cases ((Value.map base).follow p) w with ⟨m, n, hm, hn, -⟩ | ⟨-, hsame⟩
    · exact absurd hn (hother m n hm)
    · rw [hsame]
  refine ⟨?_, ?_, ?_, ?_, ?_, ?_⟩
  · intro w hw hmap
    exact hstands w hw fun _ n _ => hmap n
  · intro items hitems
    apply hstands _ hitems
    rintro _ _ - ⟨⟩
  · intro m n hm hn
    refine ⟨?_, ?_, ?_⟩
    · simp [hsome _ hn, hm]
    · exact Fields.contains_merge (hoverride p n hn) m
    · intro hkeys
      exact hkeys.merge n
  · intro n hn hbase
    exact hstands _ hn fun m _ hm => absurd hm (hbase m)
  · intro hnone hopen
    rw [← hmerge]
    exact follow_mergeOver_of_open hoverride hnone hopen
  · rintro hnone ⟨q, w, hq, hne, hw, hcut⟩
    rw [← hmerge]
    exact follow_mergeOver_of_cut hoverride hnone hq hne hw hcut

/-- A mapping meets a mapping at `a`, a list a list at `b` and a number a mapping at `c`. -/
def nestedBase : Fields := [
  (.str "a", .map [(.str "x", .int 1), (.str "y", .map [(.str "z", .int 2)])]),
  (.str "b", .list [.int 1, .int 2]),
  (.str "c", .int 5)]

def nestedOverride : Fields := [
  (.str "a", .map [(.str "y", .int 7)]),
  (.str "b", .list [.int 3]),
  (.str "c", .map [(.str "d", .int 9)])]

theorem keysDiffer_nestedOverride : (Value.map nestedOverride).KeysDiffer := by
  have hinner : ∀ name : String, ∀ n : Int, (Value.map [(.str name, .int n)]).KeysDiffer := by
    intro name n
    apply keysDiffer_map (List.pairwise_singleton _ _)
    intro e he
    rw [List.mem_singleton.mp he]
    exact keysDiffer_of_not_map fun _ h => nomatch h
  apply keysDiffer_map
  · simp [Fields.KeysDiffer, nestedOverride, Key.same, Key.normal]
  · intro e he
    simp only [nestedOverride, List.mem_cons, List.not_mem_nil, or_false] at he
    rcases he with rfl | rfl | rfl
    · exact hinner "y" 7
    · exact keysDiffer_of_not_map fun _ h => nomatch h
    · exact hinner "d" 9

/-- At `a` the number at `x` is found as before, and the one at `y` has cut off what the base has at
`z`. The list is replaced, and so is the number at `c`. -/
theorem Fields.follow_merge_nested :
    (Value.map nestedOverride).KeysDiffer ∧
    (Value.map (nestedBase.merge nestedOverride)).follow [.str "a", .str "x"] = some (.int 1) ∧
    (Value.map (nestedBase.merge nestedOverride)).follow [.str "a", .str "y"] = some (.int 7) ∧
    (Value.map (nestedBase.merge nestedOverride)).follow [.str "a", .str "y", .str "z"] = none ∧
    (Value.map (nestedBase.merge nestedOverride)).follow [.str "b"] = some (.list [.int 3]) ∧
    (Value.map (nestedBase.merge nestedOverride)).follow [.str "c"] =
      some (.map [(.str "d", .int 9)]) := by
  have hkeys := keysDiffer_nestedOverride
  refine ⟨hkeys, ?_, ?_, ?_, ?_, ?_⟩
  · obtain ⟨-, -, -, -, hopen, -⟩ := Fields.follow_merge hkeys nestedBase [.str "a", .str "x"]
    refine (hopen rfl ?_).trans rfl
    intro q hq hne
    simp only [List.prefix_cons_iff, List.prefix_nil] at hq
    rcases hq with rfl | ⟨_, rfl, rfl | ⟨_, rfl, rfl⟩⟩
    · exact .inr ⟨_, _, rfl, rfl⟩
    · exact .inr ⟨_, _, rfl, rfl⟩
    · exact absurd rfl hne
  · obtain ⟨hstands, -⟩ := Fields.follow_merge hkeys nestedBase [.str "a", .str "y"]
    exact hstands _ rfl fun _ h => nomatch h
  · obtain ⟨-, -, -, -, -, hcut⟩ :=
      Fields.follow_merge hkeys nestedBase [.str "a", .str "y", .str "z"]
    exact hcut rfl ⟨[.str "a", .str "y"], .int 7, ⟨[.str "z"], rfl⟩, by decide, rfl,
      .inl fun _ h => nomatch h⟩
  · obtain ⟨-, hlist, -⟩ := Fields.follow_merge hkeys nestedBase [.str "b"]
    exact hlist _ rfl
  · obtain ⟨-, -, -, hmap, -⟩ := Fields.follow_merge hkeys nestedBase [.str "c"]
    exact hmap _ rfl fun _ h => nomatch h

end Feedforward
