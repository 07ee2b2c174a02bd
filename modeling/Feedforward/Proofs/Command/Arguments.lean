import Feedforward.Command.Draft
import Feedforward.Proofs.Network.Answer

/-!
# What is known of settings

The settings come from the words one option at a time, so that what every option keeps holds of all
settings that are read (`Arguments.parse_induction`). One such thing is that a preset is named that
exists, which is why choosing it does not fail.
-/

namespace Feedforward

theorem Preset.exists_find {name : String} (h : name ∈ names) :
    ∃ preset, find (.str name) = .ok preset := by
  have hmem : name ∈ all.map (·.1) := (List.mergeSort_perm _ _).mem_iff.mp h
  simp only [all, List.map_cons, List.map_nil, List.mem_cons, List.not_mem_nil, or_false] at hmem
  obtain rfl | rfl | rfl := hmem
  · exact ⟨_, rfl⟩
  · exact ⟨_, rfl⟩
  · exact ⟨_, rfl⟩

namespace Arguments

variable {a b : Arguments} {o : CommandOption} {value : String} {words : List String}

/-! ## Reading words -/

section Induction

variable {P : Arguments → Prop}

/-- What holds of settings and stays so with every option holds when all words are read. -/
theorem apply_induction
    (hset : ∀ (a : Arguments) (o : CommandOption) (value : String) (b : Arguments),
      P a → a.set o value = .ok b → P b)
    (hraise : ∀ (a : Arguments) (o : CommandOption) (b : Arguments),
      P a → a.raise o = .ok b → P b)
    {extra : Bool} {words : List Word} (ha : P a) (h : a.apply extra words = .ok b) : P b := by
  fun_induction Arguments.apply a extra words
  case case1 | case7 | case8 | case10 => cases h
  case case2 =>
    cases h
    exact ha
  case case3 ih | case4 ih | case5 ih => exact ih ha h
  case case6 ih | case9 ih =>
    -- the option has a value, in the same word or in the next one
    obtain ⟨c, hc, h⟩ := bind_eq_ok_iff.mp h
    exact ih c (hset _ _ _ _ ha hc) h
  case case11 ih =>
    obtain ⟨c, hc, h⟩ := bind_eq_ok_iff.mp h
    exact ih c (hraise _ _ _ ha hc) h

/-- What every option keeps holds of all settings that are read, if it holds without any. -/
theorem parse_induction (hdefault : P default)
    (hset : ∀ (a : Arguments) (o : CommandOption) (value : String) (b : Arguments),
      P a → a.set o value = .ok b → P b)
    (hraise : ∀ (a : Arguments) (o : CommandOption) (b : Arguments),
      P a → a.raise o = .ok b → P b)
    (h : parse words = .ok a) : P a := by
  obtain ⟨kinds, -, happly⟩ := bind_eq_ok_iff.mp h
  exact apply_induction hset hraise hdefault happly

end Induction

/-! ## The preset -/

/-- If a preset is named, then it is one of those that there are. -/
def NamesPreset (a : Arguments) : Prop := ∀ name, a.preset = some name → name ∈ Preset.names

theorem NamesPreset.clear (h : a.NamesPreset) (o : CommandOption) : (a.clear o).NamesPreset := by
  cases o with
  | preset => intro name hname; cases hname
  | _ => exact h

/-- Of the options with a value only one names a preset, and it refuses other names. -/
theorem NamesPreset.set (h : a.NamesPreset) (hset : a.set o value = .ok b) : b.NamesPreset := by
  unfold Arguments.set at hset
  split at hset
  · cases hset  -- case: the option is taken back
    exact h.clear o
  · cases o with
    | preset =>
        dsimp only at hset
        split at hset
        · next hmem =>
            cases hset
            -- only a name among the presets is set
            intro name hname
            cases hname
            exact hmem
        · cases hset
    | config => cases hset; exact h
    | dumpLayout => cases hset; exact h
    | help => cases hset
    | listPresets => cases hset
    | _ =>
        -- the text may be refused, but it has nothing to do with the preset
        dsimp only at hset
        split at hset
        · cases hset
          exact h
        · cases hset

theorem NamesPreset.raise (h : a.NamesPreset) (hraise : a.raise o = .ok b) : b.NamesPreset := by
  cases o with
  | listPresets => cases hraise; exact h
  | _ => cases hraise

theorem namesPreset_default : default.NamesPreset := by
  intro name hname
  obtain rfl := Option.some.inj hname
  exact (List.mergeSort_perm _ _).mem_iff.mpr List.mem_cons_self

/-- The words of a command line name no preset that there is not. -/
theorem namesPreset_of_parse (h : parse words = .ok a) : a.NamesPreset :=
  parse_induction namesPreset_default (fun _ _ _ _ ha hset => ha.set hset)
    (fun _ _ _ ha hraise => ha.raise hraise) h

end Arguments

/-- The preset of settings that are read is there, unless its option stands without a value. -/
theorem Command.exists_choosePreset {words : List String} {a : Arguments}
    (hparse : Arguments.parse words = .ok a) (hpreset : a.preset.isSome) :
    ∃ preset, choosePreset a = .ok preset := by
  obtain ⟨name, hname⟩ := Option.isSome_iff_exists.mp hpreset
  obtain ⟨preset, hfind⟩ := Preset.exists_find (Arguments.namesPreset_of_parse hparse name hname)
  refine ⟨preset, ?_⟩
  rw [choosePreset, hname]
  dsimp only
  rw [hfind]

end Feedforward
