import Mathlib.Logic.Function.Basic
import ShaderGraph.FileTree
import ShaderGraph.Proofs.Except

namespace ShaderGraph.FileTree

open Function (update)

variable {t t' : FileTree} {path text : String} {l : Location}

def fileAt? (t : FileTree) (l : Location) : Option String :=
  match t.lookup? l with
  | some (.file text) => some text
  | _ => none

/-- Where a path leads to as the name of a file: a file is there or can be put there. -/
def spot? (t : FileTree) (path : String) : Option Location :=
  match t.locate path with
  | .ok (.named parent name false) =>
    match t.child? parent name with
    | .ok (some .directory) | .error _ => none
    | .ok _ => some (parent ++ [name])
  | _ => none

def text? (t : FileTree) (path : String) : Option String := (t.read path).toOption

theorem fileAt?_eq_some : t.fileAt? l = some text ↔ t.lookup? l = some (.file text) := by
  unfold fileAt?
  split <;> simp_all

theorem child?_eq_ok {parent : Location} {name : String} {entry : Option Entry} :
    t.child? parent name = .ok entry ↔
      name.utf8ByteSize ≤ maxNameBytes ∧ t.lookup? (parent ++ [name]) = entry := by
  unfold child?
  split
  · rename_i hlong
    simp [Nat.not_le_of_lt hlong]
  · rename_i hshort
    simp [Nat.le_of_not_lt hshort]

/-- A path that leads to a name takes all its steps but the last to get to the directory. -/
theorem steps_of_locate {parent : Location} {name : String} {slash : Bool}
    (h : t.locate path = .ok (.named parent name slash)) :
    path ≠ "" ∧ Path.endsInSlash path = slash ∧
      (Path.steps path).getLast? = some (.down name) ∧
      (Path.steps path).dropLast.foldlM t.enter
        (if Path.isAbsolute path then [] else t.workingDirectory) = .ok parent := by
  unfold locate at h
  split at h
  · cases h
  · split at h
    · cases h
    · split at h
      · cases h
      · rename_i hne _
        obtain ⟨parent', hparent, h⟩ := except_bind_eq_ok.mp h
        split at h
        · rename_i name' hlast
          cases h
          exact ⟨hne, rfl, hlast, hparent⟩
        · cases h

theorem spot?_eq_some : t.spot? path = some l ↔ ∃ parent name entry,
    t.locate path = .ok (.named parent name false) ∧ t.child? parent name = .ok entry ∧
      entry ≠ some .directory ∧ parent ++ [name] = l := by
  unfold spot?
  constructor
  · intro h
    split at h
    · rename_i parent name hlocate
      split at h
      · cases h
      · cases h
      · rename_i entry hne hchild
        exact ⟨parent, name, entry, hlocate, hchild, fun he => hne (he ▸ rfl), Option.some.inj h⟩
    · cases h
  · rintro ⟨parent, name, entry, hlocate, hchild, hentry, rfl⟩
    simp only [hlocate, hchild]

/-- A name under which there is a file names a spot. -/
theorem spot_of_file {parent : Location} {name : String}
    (hlocate : t.locate path = .ok (.named parent name false))
    (hchild : t.child? parent name = .ok (some (.file text))) :
    t.spot? path = some (parent ++ [name]) ∧ t.fileAt? (parent ++ [name]) = some text :=
  ⟨spot?_eq_some.mpr ⟨parent, name, _, hlocate, hchild, by simp, rfl⟩,
    fileAt?_eq_some.mpr (child?_eq_ok.mp hchild).2⟩

/-- The file at a spot, by its name. -/
theorem file_of_spot (hl : t.spot? path = some l) (hfile : t.fileAt? l = some text) :
    ∃ parent name, t.locate path = .ok (.named parent name false) ∧
      t.child? parent name = .ok (some (.file text)) ∧ parent ++ [name] = l := by
  obtain ⟨parent, name, entry, hlocate, hchild, -, rfl⟩ := spot?_eq_some.mp hl
  rw [fileAt?_eq_some, (child?_eq_ok.mp hchild).2] at hfile
  exact ⟨parent, name, hlocate, hfile ▸ hchild, rfl⟩

/-- A call that looks for a file finds it at the spot of the path. -/
theorem find_eq_ok {α : Type} {k : Location → String → α} {a : α} :
    (do
      match ← t.locate path with
      | .directory => throw .isDirectory
      | .named parent name slash =>
        match ← t.child? parent name with
        | some (.file text) =>
          if slash then throw .notDirectory else return k (parent ++ [name]) text
        | some .directory => throw .isDirectory
        | none => throw .notFound : Except FileError α) = .ok a ↔
    ∃ l text, t.spot? path = some l ∧ t.fileAt? l = some text ∧ a = k l text := by
  constructor
  · intro h
    obtain ⟨target, hlocate, h⟩ := except_bind_eq_ok.mp h
    cases target with
    | directory => cases h
    | named parent name slash =>
      obtain ⟨entry, hchild, h⟩ := except_bind_eq_ok.mp h
      cases entry with
      | none => cases h
      | some entry =>
        cases entry with
        | directory => cases h
        | file text =>
          cases slash with
          | true => cases h
          | false =>
            obtain ⟨hl, hfile⟩ := spot_of_file hlocate hchild
            exact ⟨_, text, hl, hfile, (Except.ok.inj h).symm⟩
  · rintro ⟨l, text, hl, hfile, rfl⟩
    obtain ⟨parent, name, hlocate, hchild, rfl⟩ := file_of_spot hl hfile
    refine except_bind_eq_ok.mpr ⟨_, hlocate, ?_⟩
    exact except_bind_eq_ok.mpr ⟨_, hchild, rfl⟩

theorem read_eq_ok :
    t.read path = .ok text ↔ ∃ l, t.spot? path = some l ∧ t.fileAt? l = some text := by
  refine (find_eq_ok (k := fun _ text => text)).trans ⟨?_, ?_⟩
  · rintro ⟨l, text, hl, hfile, rfl⟩
    exact ⟨l, hl, hfile⟩
  · rintro ⟨l, hl, hfile⟩
    exact ⟨l, text, hl, hfile, rfl⟩

theorem text?_eq (t : FileTree) (path : String) :
    t.text? path = (t.spot? path).bind t.fileAt? := by
  apply Option.ext
  intro text
  rw [text?, except_toOption_eq_some, read_eq_ok, Option.bind_eq_some_iff]

theorem delete_eq_ok : t.delete path = .ok t' ↔
    ∃ l text, t.spot? path = some l ∧ t.fileAt? l = some text ∧ t' = t.remove l :=
  find_eq_ok (k := fun l _ => t.remove l)

theorem write_eq_ok :
    t.write path text = .ok t' ↔ ∃ l, t.spot? path = some l ∧ t' = t.put l text := by
  constructor
  · intro h
    obtain ⟨target, hlocate, h⟩ := except_bind_eq_ok.mp h
    split at h
    · cases h
    · cases h
    · rename_i parent name
      obtain ⟨entry, hchild, h⟩ := except_bind_eq_ok.mp h
      split at h
      · cases h
      · rename_i hentry
        refine ⟨parent ++ [name], ?_, (Except.ok.inj h).symm⟩
        exact spot?_eq_some.mpr ⟨parent, name, entry, hlocate, hchild, hentry, rfl⟩
  · rintro ⟨l, hl, rfl⟩
    obtain ⟨parent, name, entry, hlocate, hchild, hentry, rfl⟩ := spot?_eq_some.mp hl
    refine except_bind_eq_ok.mpr ⟨_, hlocate, ?_⟩
    refine except_bind_eq_ok.mpr ⟨entry, hchild, ?_⟩
    rw [if_neg hentry]
    rfl

/-- A file moves onto any spot, its own included. -/
theorem move_eq_ok {source target : String} : t.move source target = .ok t' ↔
    ∃ a b text, t.spot? source = some a ∧ t.fileAt? a = some text ∧ t.spot? target = some b ∧
      t' = if a = b then t else (t.remove a).put b text := by
  constructor
  · intro h
    obtain ⟨old, hsource, h⟩ := except_bind_eq_ok.mp h
    obtain ⟨new, htarget, h⟩ := except_bind_eq_ok.mp h
    cases old with
    | directory => cases h
    | named parent name slash =>
    cases new with
    | directory => cases h
    | named parent' name' slash' =>
    obtain ⟨entry, hchild, h⟩ := except_bind_eq_ok.mp h
    cases entry with
    | none => cases h
    | some entry =>
    obtain ⟨taken, hchild', h⟩ := except_bind_eq_ok.mp h
    cases entry with
    | directory => cases h
    | file text =>
    cases slash with
    | true => cases h
    | false =>
    cases slash' with
    | true => cases h
    | false =>
    simp only [Bool.or_self, Bool.false_eq_true, ↓reduceIte] at h
    split at h
    · cases h
    rename_i hfree
    obtain ⟨ha, hfile⟩ := spot_of_file hsource hchild
    have hb := spot?_eq_some.mpr ⟨parent', name', taken, htarget, hchild', hfree, rfl⟩
    refine ⟨_, _, text, ha, hfile, hb, ?_⟩
    split at h
    · rename_i heq
      rw [if_pos heq]
      exact (Except.ok.inj h).symm
    · rename_i hne
      rw [if_neg hne]
      exact (Except.ok.inj h).symm
  · rintro ⟨a, b, text, ha, hfile, hb, rfl⟩
    obtain ⟨parent, name, hlocate, hchild, rfl⟩ := file_of_spot ha hfile
    obtain ⟨parent', name', entry, hlocate', hchild', hentry, rfl⟩ := spot?_eq_some.mp hb
    refine except_bind_eq_ok.mpr ⟨_, hlocate, ?_⟩
    refine except_bind_eq_ok.mpr ⟨_, hlocate', ?_⟩
    refine except_bind_eq_ok.mpr ⟨_, hchild, ?_⟩
    refine except_bind_eq_ok.mpr ⟨_, hchild', ?_⟩
    simp only [Bool.or_self, Bool.false_eq_true, ↓reduceIte, hentry]
    split <;> rfl

structure SameDirectories (t t' : FileTree) : Prop where
  entry : ∀ l, t.lookup? l = some .directory ↔ t'.lookup? l = some .directory
  workingDirectory : t'.workingDirectory = t.workingDirectory

theorem SameDirectories.trans {t'' : FileTree} (h : SameDirectories t t')
    (h' : SameDirectories t' t'') : SameDirectories t t'' :=
  ⟨fun l => (h.entry l).trans (h'.entry l), h'.workingDirectory.trans h.workingDirectory⟩

theorem SameDirectories.symm (h : SameDirectories t t') : SameDirectories t' t :=
  ⟨fun l => (h.entry l).symm, h.workingDirectory.symm⟩

theorem enter_down_eq_ok {location location' : Location} {name : String} :
    t.enter location (.down name) = .ok location' ↔
      t.child? location name = .ok (some .directory) ∧ location' = location ++ [name] := by
  constructor
  · intro h
    obtain ⟨entry, hchild, h⟩ := except_bind_eq_ok.mp h
    cases entry with
    | none => cases h
    | some entry =>
      cases entry with
      | file text => cases h
      | directory => exact ⟨hchild, (Except.ok.inj h).symm⟩
  · rintro ⟨hchild, rfl⟩
    exact except_bind_eq_ok.mpr ⟨_, hchild, rfl⟩

namespace SameDirectories

variable (h : SameDirectories t t')

include h

theorem enter_eq_ok {location location' : Location} {step : Path.Step} :
    t.enter location step = .ok location' ↔ t'.enter location step = .ok location' := by
  cases step with
  | stay => rfl
  | up => rfl
  | down name => simp only [enter_down_eq_ok, child?_eq_ok, h.entry]

theorem foldlM_enter_eq_ok {steps : List Path.Step} {location location' : Location} :
    steps.foldlM t.enter location = .ok location' ↔
      steps.foldlM t'.enter location = .ok location' := by
  induction steps generalizing location with
  | nil => rfl
  | cons step steps ih =>
    simp only [List.foldlM_cons, except_bind_eq_ok, h.enter_eq_ok, ih]

/-- Only the directories of a tree have a say in where a path leads. -/
theorem locate_eq_ok {target : Target} :
    t.locate path = .ok target ↔ t'.locate path = .ok target := by
  unfold locate
  split
  · rfl
  · split
    · rfl
    · split
      · rfl
      · simp only [except_bind_eq_ok, h.foldlM_enter_eq_ok, h.workingDirectory]

theorem spot_imp (hl : t.spot? path = some l) : t'.spot? path = some l := by
  obtain ⟨parent, name, entry, hlocate, hchild, hentry, rfl⟩ := spot?_eq_some.mp hl
  obtain ⟨hshort, hfound⟩ := child?_eq_ok.mp hchild
  refine spot?_eq_some.mpr ⟨parent, name, _, h.locate_eq_ok.mp hlocate,
    child?_eq_ok.mpr ⟨hshort, rfl⟩, fun he => ?_, rfl⟩
  exact hentry (hfound.symm.trans ((h.entry _).mpr he))

end SameDirectories

theorem SameDirectories.spot?_eq (h : SameDirectories t t') (path : String) :
    t'.spot? path = t.spot? path :=
  Option.ext fun _ => ⟨h.symm.spot_imp, h.spot_imp⟩

theorem lookup_cons_eq (k l : Location) (x : Entry) (entries : List (Location × Entry)) :
    ((k, x) :: entries).lookup l = if l = k then some x else entries.lookup l := by
  rw [List.lookup_cons]
  by_cases h : l = k
  · simp [h]
  · simp [h, beq_false_of_ne h]

theorem lookup_replaced (entries : List (Location × Entry)) (l : Location) (x : Entry)
    (l' : Location) :
    (entries.map fun e => if e.1 = l then (l, x) else e).lookup l' =
      if l' = l then (entries.lookup l).map fun _ => x else entries.lookup l' := by
  induction entries with
  | nil => simp
  | cons e entries ih =>
    obtain ⟨k, y⟩ := e
    by_cases hk : k = l
    · subst hk
      simp only [List.map_cons, ↓reduceIte, lookup_cons_eq, ih]
      split <;> rfl
    · simp only [List.map_cons, hk, ↓reduceIte, lookup_cons_eq, ih]
      by_cases hl : l' = l
      · subst hl
        simp [Ne.symm hk]
      · simp [hl]

theorem lookup_filtered (entries : List (Location × Entry)) (l l' : Location) :
    (entries.filter fun e => e.1 ≠ l).lookup l' =
      if l' = l then none else entries.lookup l' := by
  induction entries with
  | nil => simp
  | cons e entries ih =>
    obtain ⟨k, y⟩ := e
    by_cases hk : k = l
    · subst hk
      rw [List.filter_cons_of_neg (by simp), ih, lookup_cons_eq]
      split <;> rfl
    · rw [List.filter_cons_of_pos (by simpa using hk), lookup_cons_eq, lookup_cons_eq, ih]
      by_cases hl : l' = l
      · subst hl
        simp [Ne.symm hk]
      · simp [hl]

theorem not_above (hfree : t.lookup? l ≠ some .directory) :
    l.isPrefixOf t.workingDirectory = false := by
  unfold lookup? at hfree
  split at hfree
  · exact absurd rfl hfree
  · rename_i habove
    exact Bool.eq_false_iff.mpr habove

theorem lookup?_put (hfree : t.lookup? l ≠ some .directory) (text : String) (l' : Location) :
    (t.put l text).lookup? l' = if l' = l then some (.file text) else t.lookup? l' := by
  have hlookup : (t.put l text).contents.lookup l' =
      if l' = l then some (.file text) else t.contents.lookup l' := by
    unfold put
    split
    · rename_i hsome
      obtain ⟨entry, hentry⟩ := Option.isSome_iff_exists.mp hsome
      rw [lookup_replaced, hentry, Option.map_some]
    · rename_i hnone
      rw [Bool.not_eq_true, Option.isSome_eq_false_iff, Option.isNone_iff_eq_none] at hnone
      rw [List.lookup_append, lookup_cons_eq, List.lookup_nil]
      by_cases he : l' = l
      · rw [he, hnone, if_pos rfl, Option.none_or]
      · simp [he]
  have hdirectory : (t.put l text).workingDirectory = t.workingDirectory := rfl
  unfold lookup?
  rw [hdirectory, hlookup]
  by_cases he : l' = l
  · simp [he, not_above hfree]
  · simp [he]

theorem lookup?_remove (hfree : t.lookup? l ≠ some .directory) (l' : Location) :
    (t.remove l).lookup? l' = if l' = l then none else t.lookup? l' := by
  have hlookup : (t.remove l).contents.lookup l' =
      if l' = l then none else t.contents.lookup l' := lookup_filtered t.contents l l'
  have hdirectory : (t.remove l).workingDirectory = t.workingDirectory := rfl
  unfold lookup?
  rw [hdirectory, hlookup]
  by_cases he : l' = l
  · simp [he, not_above hfree]
  · simp [he]

theorem fileAt?_put (hfree : t.lookup? l ≠ some .directory) (text : String) :
    (t.put l text).fileAt? = update t.fileAt? l (some text) := by
  funext l'
  rw [fileAt?, lookup?_put hfree, Function.update_apply]
  by_cases he : l' = l
  · rw [if_pos he, if_pos he]
  · rw [if_neg he, if_neg he, fileAt?]

theorem fileAt?_remove (hfree : t.lookup? l ≠ some .directory) :
    (t.remove l).fileAt? = update t.fileAt? l none := by
  funext l'
  rw [fileAt?, lookup?_remove hfree, Function.update_apply]
  by_cases he : l' = l
  · rw [if_pos he, if_pos he]
  · rw [if_neg he, if_neg he, fileAt?]

theorem sameDirectories_put (hfree : t.lookup? l ≠ some .directory) (text : String) :
    SameDirectories t (t.put l text) where
  entry l' := by
    rw [lookup?_put hfree]
    by_cases he : l' = l
    · simp [he, hfree]
    · rw [if_neg he]
  workingDirectory := rfl

theorem sameDirectories_remove (hfree : t.lookup? l ≠ some .directory) :
    SameDirectories t (t.remove l) where
  entry l' := by
    rw [lookup?_remove hfree]
    by_cases he : l' = l
    · simp [he, hfree]
    · rw [if_neg he]
  workingDirectory := rfl

/-- Every spot is a name in a directory. -/
theorem spot_ne_nil (hl : t.spot? path = some l) : l ≠ [] := by
  obtain ⟨parent, name, -, -, -, -, rfl⟩ := spot?_eq_some.mp hl
  simp

theorem lookup?_spot (hl : t.spot? path = some l) : t.lookup? l ≠ some .directory := by
  obtain ⟨parent, name, entry, -, hchild, hentry, rfl⟩ := spot?_eq_some.mp hl
  rwa [(child?_eq_ok.mp hchild).2]

/-- The directories of `t`, and these files. -/
structure Refiled (t : FileTree) (files : Location → Option String) (t' : FileTree) : Prop where
  directories : SameDirectories t t'
  files_eq : t'.fileAt? = files

theorem Refiled.refl (t : FileTree) : t.Refiled t.fileAt? t := ⟨⟨fun _ => Iff.rfl, rfl⟩, rfl⟩

namespace Refiled

variable {files : Location → Option String} {t'' : FileTree} (h : t.Refiled files t')

include h

theorem spot?_eq (path : String) : t'.spot? path = t.spot? path := h.directories.spot?_eq path

theorem text?_eq (path : String) : t'.text? path = (t.spot? path).bind files := by
  rw [FileTree.text?_eq, h.spot?_eq, h.files_eq]

theorem put (hl : t.spot? path = some l) (text : String) :
    t.Refiled (update files l (some text)) (t'.put l text) := by
  have hfree := lookup?_spot ((h.spot?_eq path).trans hl)
  refine ⟨h.directories.trans (sameDirectories_put hfree text), ?_⟩
  rw [fileAt?_put hfree, h.files_eq]

theorem remove (hl : t.spot? path = some l) : t.Refiled (update files l none) (t'.remove l) := by
  have hfree := lookup?_spot ((h.spot?_eq path).trans hl)
  refine ⟨h.directories.trans (sameDirectories_remove hfree), ?_⟩
  rw [fileAt?_remove hfree, h.files_eq]

/-- Writing goes through where the path has a spot. -/
theorem write_eq_ok_iff : t'.write path text = .ok t'' ↔
    ∃ l, t.spot? path = some l ∧ t'' = t'.put l text := by
  simp only [write_eq_ok, h.spot?_eq]

theorem of_write (hw : t'.write path text = .ok t'') :
    ∃ l, t.spot? path = some l ∧ t.Refiled (update files l (some text)) t'' := by
  obtain ⟨l, hl, rfl⟩ := h.write_eq_ok_iff.mp hw
  exact ⟨l, hl, h.put hl text⟩

/-- Moving goes through where there is a file and its new path has a spot. -/
theorem move_eq_ok_iff {source target : String} : t'.move source target = .ok t'' ↔
    ∃ a b text, t.spot? source = some a ∧ files a = some text ∧ t.spot? target = some b ∧
      t'' = if a = b then t' else (t'.remove a).put b text := by
  simp only [move_eq_ok, h.spot?_eq, h.files_eq]

theorem of_move {source target : String} {a b : Location} (hm : t'.move source target = .ok t'')
    (ha : t.spot? source = some a) (hb : t.spot? target = some b) (hne : a ≠ b) :
    ∃ text, files a = some text ∧ t.Refiled (update (update files a none) b (some text)) t'' := by
  obtain ⟨a', b', text, ha', hfile, hb', rfl⟩ := h.move_eq_ok_iff.mp hm
  obtain rfl : a = a' := Option.some.inj (ha.symm.trans ha')
  obtain rfl : b = b' := Option.some.inj (hb.symm.trans hb')
  rw [if_neg hne]
  exact ⟨text, hfile, (h.remove ha).put hb text⟩

theorem delete_eq_ok_iff : t'.delete path = .ok t'' ↔
    ∃ l text, t.spot? path = some l ∧ files l = some text ∧ t'' = t'.remove l := by
  simp only [delete_eq_ok, h.spot?_eq, h.files_eq]

end Refiled

end ShaderGraph.FileTree
