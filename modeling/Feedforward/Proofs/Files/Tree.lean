import Feedforward.Report
import Feedforward.Proofs.Network.Answer

/-!
# What becomes of files

Making directories touches no file, whether it is refused or not, and writing a file touches no
other (`FileTree.SameFiles`). So a text that is delivered to a path is found there and nothing else
has changed, and where delivering is refused nothing has changed at all (`deliver_cases`).
-/

namespace Feedforward

def FileEntry.content? : FileEntry → Option ByteArray
  | .file content => some content
  | .directory => none

namespace FileTree

variable {t t' : FileTree} {place q : List String} {p : Path} {content : ByteArray}

def content? (t : FileTree) (place : List String) : Option ByteArray :=
  (t.entry? place).bind (·.content?)

/-- The trees hold the same files with the same contents. Directories may differ. -/
def SameFiles (t t' : FileTree) : Prop := ∀ place, t'.content? place = t.content? place

theorem SameFiles.refl (t : FileTree) : t.SameFiles t := fun _ => rfl

theorem SameFiles.trans {t'' : FileTree} (h : t.SameFiles t') (h' : t'.SameFiles t'') :
    t.SameFiles t'' :=
  fun place => (h' place).trans (h place)

/-! ## Putting entries -/

theorem lookup_map_replace (entries : List (List String × FileEntry)) (place q : List String)
    (e : FileEntry) :
    (entries.map fun (p, old) => if p = place then (p, e) else (p, old)).lookup q =
      (entries.lookup q).map fun old => if q = place then e else old := by
  induction entries with
  | nil => rfl
  | cons entry rest ih =>
      obtain ⟨p, old⟩ := entry
      have hfirst : (if p = place then (p, e) else (p, old)) =
          (p, if p = place then e else old) := by
        split <;> rfl
      rw [List.map_cons]
      dsimp only
      rw [hfirst, List.lookup_cons, List.lookup_cons, ih]
      by_cases hq : q = p
      · simp [hq]
      · rw [beq_false_of_ne hq]

/-- What is put at a place is found there, and what stands elsewhere is found as before. -/
@[simp] theorem lookup_put (t : FileTree) (place q : List String) (e : FileEntry) :
    (t.put place e).entries.lookup q = if q = place then some e else t.entries.lookup q := by
  rw [put]
  split
  · next hsome =>
      rw [lookup_map_replace]
      split
      · next hq =>
          obtain ⟨old, hold⟩ := Option.isSome_iff_exists.mp hsome
          rw [hq, hold]
          rfl
      · exact Option.map_id'
  · next hnone =>
      rw [List.lookup_append, List.lookup_cons]
      rw [Option.not_isSome_iff_eq_none] at hnone
      by_cases hq : q = place
      · simp [hq, hnone]
      · rw [beq_false_of_ne hq, if_neg hq]
        exact Option.or_none

/-- The directories that are always there cannot be put, so that what is put is found. -/
theorem entry?_put (hplace : place.isPrefixOf work = false) (e : FileEntry) (q : List String) :
    FileTree.entry? (t.put place e) q = if q = place then some e else t.entry? q := by
  rw [ entry?, entry?, lookup_put]
  by_cases hq : q = place
  · simp [hq, hplace]
  · simp [hq]

/-- Above the working directory there are only directories. -/
theorem isPrefixOf_work_eq_false (h : t.isDirectory place = false) :
    place.isPrefixOf work = false := by
  by_contra hwork
  rw [Bool.not_eq_false] at hwork
  simp [isDirectory, entry?, hwork] at h

/-- A directory in a free place changes no file. -/
theorem sameFiles_put_directory (hnone : t.entry? place = none) :
    t.SameFiles (t.put place .directory) := by
  have hplace : place.isPrefixOf work = false :=
    isPrefixOf_work_eq_false (by rw [isDirectory, hnone])
  intro q
  rw [content?, content?, entry?_put hplace]
  by_cases hq : q = place
  · rw [if_pos hq, hq, hnone]
    rfl
  · rw [if_neg hq]

/-! ## Directories -/

/-- The tree that is left when directories have been made or not. -/
def leftBy : Except Interruption FileTree → FileTree
  | .ok t => t
  | .error i => i.left

/-- Directories are made in free places only, also where the making is refused half the way. -/
theorem sameFiles_makeAlong (t : FileTree) (place : List String) (made : Bool)
    (parts : List String) : t.SameFiles (leftBy (t.makeAlong place made parts)) := by
  induction parts generalizing t place made with
  | nil => exact .refl t
  | cons part rest ih =>
      rw [makeAlong]
      split
      · exact ih t _ made
      · split
        · exact .refl t
        · extract_lets next
          split
          · exact ih t next made
          · exact .refl t
          · next hnone => exact (sameFiles_put_directory hnone).trans (ih _ next true)

theorem sameFiles_makeDirectories (t : FileTree) (p : Path) :
    t.SameFiles (leftBy (t.makeDirectories p)) := by
  rw [makeDirectories]
  split
  · exact .refl t
  · exact sameFiles_makeAlong t _ false p.parts

/-! ## Files -/

theorem write_eq_ok_iff :
    t.write p content = .ok t' ↔
      ∃ place, t.resolve p = .ok place ∧ t.isDirectory place = false ∧
        t' = t.put place (.file content) := by
  rw [write, bind_eq_ok_iff]
  refine exists_congr fun place => and_congr_right fun _ => ?_
  cases t.isDirectory place <;> simp [eq_comm]

/-- A file does not stand in the way of a path that passes through directories. -/
theorem walk_put_file (hplace : t.isDirectory place = false) {parts q r : List String}
    (h : t.walk q parts = .ok r) : (t.put place (.file content)).walk q parts = .ok r := by
  induction parts generalizing q with
  | nil => exact h
  | cons part rest ih =>
      rw [walk] at h
      split at h
      · cases h
      · cases h
      · next hdirectory =>
          -- the path cannot go through the place, which is no directory
          have hne : q ≠ place := by
            rintro rfl
            simp [isDirectory, hdirectory] at hplace
          rw [walk, entry?_put (isPrefixOf_work_eq_false hplace), if_neg hne, hdirectory]
          dsimp only
          split at h
          · next hup =>
              rw [if_pos hup]
              exact ih h
          · next hdown =>
              rw [if_neg hdown]
              split at h
              · cases h
              · next hshort =>
                  rw [if_neg hshort]
                  exact ih h

/-- What is written stands at the place of the path, and no other file has changed. -/
theorem read_of_write (h : t.write p content = .ok t') :
    t'.read p = .ok content ∧
      ∃ place, t'.resolve p = .ok place ∧ t'.content? place = some content ∧
        ∀ q, q ≠ place → t'.content? q = t.content? q := by
  obtain ⟨place, hresolve, hdirectory, rfl⟩ := write_eq_ok_iff.mp h
  have hplace := isPrefixOf_work_eq_false hdirectory
  have hresolve' : (t.put place (.file content)).resolve p = .ok place := by
    rw [resolve, bind_eq_ok_iff] at hresolve ⊢
    obtain ⟨start, hstart, hwalk⟩ := hresolve
    exact ⟨start, hstart, walk_put_file hdirectory hwalk⟩
  have hself : FileTree.entry? (t.put place (.file content)) place = some (.file content) := by
    rw [entry?_put hplace, if_pos rfl]
  refine ⟨?_, place, hresolve', ?_, fun q hq => ?_⟩
  · simp [read, hresolve', hself]
  · rw [content?, hself]
    rfl
  · rw [content?, content?, entry?_put hplace, if_neg hq]

/-- A file can be written at the path once its directory is made. -/
def Accepts (t : FileTree) (p : Path) : Prop :=
  ∃ t' place, t.makeDirectories p.parent = .ok t' ∧ t'.resolve p = .ok place ∧
    t'.isDirectory place = false

/-- What is accepted is delivered. -/
theorem Accepts.exists_deliver (h : t.Accepts p) (s : String) :
    ∃ t', t.deliver p (.ok s) = (.ok (), t') := by
  obtain ⟨t₁, place, hmake, hresolve, hplace⟩ := h
  have hwrite : t₁.write p s.toUTF8 = .ok (t₁.put place (.file s.toUTF8)) :=
    write_eq_ok_iff.mpr ⟨place, hresolve, hplace, rfl⟩
  refine ⟨t₁.put place (.file s.toUTF8), ?_⟩
  rw [deliver, hmake]
  dsimp only
  rw [hwrite]

/-- A text is delivered, and then it is all that has changed; or no file has changed. -/
theorem deliver_cases (t : FileTree) (p : Path) (text : Except ReportError String) :
    (∃ e t', t.deliver p text = (.error e, t') ∧ t.SameFiles t') ∨
    ∃ s t' place, t.deliver p text = (.ok (), t') ∧ text = .ok s ∧ t'.read p = .ok s.toUTF8 ∧
      t'.resolve p = .ok place ∧ t'.content? place = some s.toUTF8 ∧
      ∀ q, q ≠ place → t'.content? q = t.content? q := by
  -- Nothing but the last step touches the content of a file; directories may be made on the way.
  have hparents := sameFiles_makeDirectories t p.parent
  rw [deliver]
  cases hmake : t.makeDirectories p.parent with
  | error i =>
      rw [hmake] at hparents
      exact .inl ⟨_, i.left, rfl, hparents⟩
  | ok t₁ =>
      rw [hmake] at hparents
      cases text with
      | error e => exact .inl ⟨e, t₁, rfl, hparents⟩
      | ok s =>
          dsimp only
          cases hwrite : t₁.write p s.toUTF8 with
          | error e => exact .inl ⟨_, t₁, rfl, hparents⟩
          | ok t' =>
              obtain ⟨hread, place, hplace, hcontent, hothers⟩ := read_of_write hwrite
              exact .inr ⟨s, t', place, rfl, rfl, hread, hplace, hcontent, fun q hq =>
                (hothers q hq).trans (hparents q)⟩

/-! ## Names in the working directory -/

/-- A name that a file in the working directory can have. -/
structure IsFileName (name : String) : Prop where
  not_up : name ≠ ".."
  not_null : '\x00' ∉ name.toList
  short : name.utf8ByteSize ≤ nameLimit

@[simp] theorem entry?_work (t : FileTree) : t.entry? work = some .directory := by
  rw [ entry?, if_pos (by decide)]

/-- A file name leads to its place in the working directory. -/
theorem resolve_name {name : String} (h : IsFileName name) (t : FileTree) :
    t.resolve ⟨"", [name]⟩ = .ok (work ++ [name]) := by
  have horigin : origin ⟨"", [name]⟩ = .ok work := by
    have htext : Path.text ⟨"", [name]⟩ = name := by simp [Path.text]
    have hnull : name.contains '\x00' = false := by simp [h.not_null]
    have hlong : ¬ pathLimit < name.utf8ByteSize :=
      Nat.not_lt.mpr (Nat.le_trans h.short (by decide))
    rw [origin, htext, hnull, if_neg (by decide), if_neg hlong]
    rfl
  simp [resolve, horigin, walk, h.not_up, Nat.not_lt.mpr h.short]

theorem read_name {name : String} (h : IsFileName name) {content : ByteArray}
    (hentry : t.entry? (work ++ [name]) = some (.file content)) :
    t.read ⟨"", [name]⟩ = .ok content := by
  simp [read, resolve_name h, hentry]

/-- A file of this name can be written unless a directory has the name. -/
theorem accepts_name {name : String} (h : IsFileName name)
    (hfree : t.isDirectory (work ++ [name]) = false) : t.Accepts ⟨"", [name]⟩ := by
  refine ⟨t, work ++ [name], ?_, resolve_name h t, hfree⟩
  have horigin : origin (Path.parent ⟨"", [name]⟩) = .ok work := by
    have htext : Path.text (Path.parent ⟨"", [name]⟩) = "." := rfl
    rw [origin, htext, if_neg (by simp), if_neg (by decide)]
    rfl
  rw [makeDirectories, horigin]
  rfl

end FileTree

end Feedforward
