import ShaderGraph.Proofs.Machine
import ShaderGraph.Proofs.Records

namespace ShaderGraph

namespace Path

/-- A path up to its last slash, and what is behind. -/
theorem exists_parts (cs : List Char) : ∃ (parts : List (List Char)) (last : List Char),
    (∀ p ∈ parts, '/' ∉ p) ∧ '/' ∉ last ∧ cs = parts.flatMap (· ++ ['/']) ++ last := by
  induction cs with
  | nil => exact ⟨[], [], by simp, by simp, rfl⟩
  | cons c cs ih =>
    obtain ⟨parts, last, hparts, hlast, rfl⟩ := ih
    by_cases hc : c = '/'
    · exact ⟨[] :: parts, last, by simpa using hparts, hlast, by simp [hc]⟩
    · cases parts with
      | nil => exact ⟨[], c :: last, by simp, by simp [hlast, Ne.symm hc], rfl⟩
      | cons p parts =>
        refine ⟨(c :: p) :: parts, last, ?_, hlast, by simp⟩
        intro q hq
        rcases List.mem_cons.mp hq with rfl | hq
        · simp [Ne.symm hc, hparts p (by simp)]
        · exact hparts q (by simp [hq])

theorem steps_of_parts {path : String} {parts : List (List Char)} {last : List Char}
    (hparts : ∀ p ∈ parts, '/' ∉ p) (hlast : '/' ∉ last) (hne : last ≠ [])
    (h : path.toList = parts.flatMap (· ++ ['/']) ++ last) :
    steps path = ((parts.map String.ofList).filter (· ≠ "")).map Step.ofText ++
      [Step.ofText (String.ofList last)] := by
  have hnonempty : String.ofList last ≠ "" := by
    intro he
    have := congrArg String.toList he
    simp [hne] at this
  rw [steps, pieces, h, Text.splitOn_joined parts hparts hlast, List.map_append, List.filter_append,
    List.map_append]
  simp [hnonempty]

theorem Step.ofText_eq_down {s name : String} (h : Step.ofText s = .down name) : s = name := by
  unfold Step.ofText at h
  split at h
  · cases h
  · split at h
    · cases h
    · exact Step.down.inj h

/-- A name grows with its path. -/
theorem steps_append {path name more : String} (hslash : endsInSlash path = false)
    (hlast : (steps path).getLast? = some (.down name)) (hmore : '/' ∉ more.toList)
    (hdown : Step.ofText (name ++ more) = .down (name ++ more)) :
    steps (path ++ more) = (steps path).dropLast ++ [.down (name ++ more)] := by
  obtain ⟨parts, last, hparts, hfree, htext⟩ := exists_parts path.toList
  have hne : last ≠ [] := by
    intro he
    rw [he, List.append_nil] at htext
    rcases List.eq_nil_or_concat parts with rfl | ⟨front, part, rfl⟩
    · simp [steps, pieces, htext, Text.splitOn] at hlast
    · simp [endsInSlash, htext] at hslash
  have hsteps := steps_of_parts hparts hfree hne htext
  rw [hsteps, List.getLast?_append, List.getLast?_singleton, Option.some_or,
    Option.some.injEq] at hlast
  have hname := Step.ofText_eq_down hlast
  have hlonger : steps (path ++ more) = ((parts.map String.ofList).filter (· ≠ "")).map
      Step.ofText ++ [Step.ofText (String.ofList (last ++ more.toList))] :=
    steps_of_parts hparts (by simp [hfree, hmore]) (by simp [hne]) (by simp [htext])
  have hgrown : String.ofList (last ++ more.toList) = name ++ more := by
    rw [← hname]
    apply String.toList_inj.mp
    simp
  rw [hlonger, hgrown, hdown, hsteps, List.dropLast_concat]

end Path

namespace Workspace

open Function (update)

variable {t t' : FileTree} {path : String} {a b l : Location}

def beside : Location → Location
  | [] => []
  | [name] => [stagingPath name]
  | name :: l => name :: beside l

theorem beside_concat (location : Location) (name : String) :
    beside (location ++ [name]) = location ++ [stagingPath name] := by
  induction location with
  | nil => rfl
  | cons x location ih =>
    cases location with
    | nil => rfl
    | cons y location => exact congrArg (x :: ·) ih

theorem stagingPath_ne (name : String) : stagingPath name ≠ name := by
  intro h
  have := congrArg (fun s : String => s.toList.length) h
  simp [stagingPath] at this

theorem ofText_stagingPath (name : String) :
    Path.Step.ofText (stagingPath name) = .down (stagingPath name) := by
  have hlength : 4 ≤ (stagingPath name).toList.length := by simp [stagingPath]
  unfold Path.Step.ofText
  rw [if_neg fun h => ?_, if_neg fun h => ?_]
  · rw [h] at hlength
    simp at hlength
  · rw [h] at hlength
    simp at hlength

/-- A program is staged beside its destination, if it can be staged. -/
theorem spot?_stagingPath (hl : t.spot? path = some l)
    (ha : t.spot? (stagingPath path) = some a) : a = beside l := by
  obtain ⟨parent, name, _, hlocate, -, -, rfl⟩ := FileTree.spot?_eq_some.mp hl
  obtain ⟨parent', name', _, hlocate', -, -, rfl⟩ := FileTree.spot?_eq_some.mp ha
  obtain ⟨hne, hslash, hlast, hparent⟩ := FileTree.steps_of_locate hlocate
  obtain ⟨-, -, hlast', hparent'⟩ := FileTree.steps_of_locate hlocate'
  have hsteps : Path.steps (stagingPath path) =
      (Path.steps path).dropLast ++ [.down (stagingPath name)] :=
    Path.steps_append hslash hlast (by decide) (ofText_stagingPath name)
  have habsolute : Path.isAbsolute (stagingPath path) = Path.isAbsolute path := by
    have hcs : path.toList ≠ [] := by simpa using hne
    cases hpath : path.toList with
    | nil => exact absurd hpath hcs
    | cons c cs => simp [Path.isAbsolute, stagingPath, hpath]
  rw [hsteps, List.getLast?_concat] at hlast'
  rw [hsteps, List.dropLast_concat, habsolute, hparent] at hparent'
  cases hlast'
  cases hparent'
  rw [beside_concat]

theorem beside_ne (hl : l ≠ []) : beside l ≠ l := by
  obtain ⟨location, name, rfl⟩ := (List.eq_nil_or_concat l).resolve_left hl
  rw [List.concat_eq_append, beside_concat]
  simpa using stagingPath_ne name

/-- No program is staged at its own destination. -/
theorem staged_ne (hl : t.spot? path = some l) (ha : t.spot? (stagingPath path) = some a) :
    a ≠ l := by
  rw [spot?_stagingPath hl ha]
  exact beside_ne (FileTree.spot_ne_nil hl)

/-- The tree without the program staged for a path, unless the machine refuses. -/
def unstaged (m : Machine) (path : String) (t : FileTree) : FileTree :=
  match m.delete t (stagingPath path) with
  | .ok t => t
  | .error _ => t

def cleared (m : Machine) (vertex fragment : String) (t : FileTree) : FileTree :=
  unstaged m fragment (unstaged m vertex t)

inductive Progress where
  | unmoved (e : WorkspaceError) (t : FileTree)
  | halfway (e : WorkspaceError) (t : FileTree)
  | complete (t : FileTree)

def progress (m : Machine) (shaders : Glsl.Shaders) (vertex fragment : String) (t : FileTree) :
    Progress :=
  match m.write t (stagingPath vertex) shaders.vertex with
  | .error e => .unmoved (.output (stagingPath vertex) e) t
  | .ok t₁ =>
    match m.write t₁ (stagingPath fragment) shaders.fragment with
    | .error e => .unmoved (.output (stagingPath fragment) e) t₁
    | .ok t₂ =>
      match m.move t₂ (stagingPath vertex) vertex with
      | .error e => .unmoved (.output vertex e) t₂
      | .ok t₃ =>
        match m.move t₃ (stagingPath fragment) fragment with
        | .error e => .halfway (.output fragment e) t₃
        | .ok t₄ => .complete t₄

def Progress.finish (m : Machine) (vertex fragment : String) :
    Progress → Except WorkspaceError Unit × FileTree
  | unmoved e t | halfway e t => (.error e, cleared m vertex fragment t)
  | complete t => (.ok (), t)

section Runs

variable (m : Machine)

theorem outcome_discard (path : String) (t : FileTree) :
    outcome (@discard _ _ m.files path) t = (.ok (), unstaged m path t) := by
  have hrun : outcome (@discard _ _ m.files path) t =
      (.ok (), (FileTree.change (m.delete · (stagingPath path)) t).2) := rfl
  rw [hrun, FileTree.change, unstaged]
  cases m.delete t (stagingPath path) <;> rfl

theorem run_writeShaders (shaders : Glsl.Shaders) (vertex fragment : String) (t : FileTree) :
    m.run (writeShaders shaders vertex fragment) t =
      (progress m shaders vertex fragment t).finish m vertex fragment := by
  have hstage : ∀ path text t, outcome (@stage _ _ m.files path text) t =
      match m.write t (stagingPath path) text with
      | .ok t' => (.ok (), t')
      | .error e => (.error (.output (stagingPath path) e), t) := fun path text t =>
    outcome_change (m.write · (stagingPath path) text) (.output (stagingPath path)) t
  have hrelease : ∀ path t, outcome (@release _ _ m.files path) t =
      match m.move t (stagingPath path) path with
      | .ok t' => (.ok (), t')
      | .error e => (.error (.output path e), t) := fun path t =>
    outcome_change (m.move · (stagingPath path) path) (.output path) t
  simp only [Machine.run, writeShaders, outcome_tryCatch, outcome_bind, hstage, hrelease,
    outcome_discard, outcome_throw, progress]
  cases m.write t (stagingPath vertex) shaders.vertex with
  | error e => rfl
  | ok t₁ =>
    simp only
    cases m.write t₁ (stagingPath fragment) shaders.fragment with
    | error e => rfl
    | ok t₂ =>
      simp only
      cases m.move t₂ (stagingPath vertex) vertex with
      | error e => rfl
      | ok t₃ =>
        simp only
        cases m.move t₃ (stagingPath fragment) fragment <;> rfl

end Runs

section Failure

variable {m : Machine} {files : Location → Option String} {vertex fragment : String}

def kept (t : FileTree) (vertex fragment : String) (files : Location → Option String)
    (l : Location) : Option String :=
  if t.spot? (stagingPath vertex) = some l ∨ t.spot? (stagingPath fragment) = some l then none
  else files l

theorem kept_comm : kept t vertex fragment files = kept t fragment vertex files := by
  funext l
  simp only [kept, or_comm]

/-- What was put where programs are staged makes no difference. -/
theorem kept_update {a : Location}
    (ha : t.spot? (stagingPath vertex) = some a ∨ t.spot? (stagingPath fragment) = some a)
    (x : Option String) :
    kept t vertex fragment (update files a x) = kept t vertex fragment files := by
  funext l
  unfold kept
  by_cases hl : l = a
  · rw [hl, if_pos ha, if_pos ha]
  · rw [Function.update_of_ne hl]

/-- A destination is lost if the other program is staged there. -/
theorem kept_destination : (t.spot? vertex).bind (kept t vertex fragment files) =
    if t.spot? vertex = t.spot? (stagingPath fragment) then none
    else (t.spot? vertex).bind files := by
  cases hl : t.spot? vertex with
  | none => simp
  | some l =>
    have hown : t.spot? (stagingPath vertex) ≠ some l := fun ha => staged_ne hl ha rfl
    simp only [Option.bind_some, kept, hown, false_or, eq_comm]

/-- Clearing up for a path touches no other place than the one where its program is staged. -/
theorem refiled_unstaged (h : t.Refiled files t') (m : Machine) (path : String) :
    ∃ files', t.Refiled files' (unstaged m path t') ∧
      ∀ l, t.spot? (stagingPath path) ≠ some l → files' l = files l := by
  unfold unstaged
  cases hd : m.delete t' (stagingPath path) with
  | error e => exact ⟨files, h, fun _ _ => rfl⟩
  | ok t'' =>
    obtain ⟨a, _, ha, -, rfl⟩ := h.delete_eq_ok_iff.mp (Machine.grant_eq_ok.mp hd).2
    refine ⟨_, h.remove ha, fun l hl => Function.update_of_ne ?_ _ _⟩
    rintro rfl
    exact hl ha

theorem refiled_cleared (h : t.Refiled files t') (m : Machine) (vertex fragment : String) :
    ∃ files', t.Refiled files' (cleared m vertex fragment t') ∧
      ∀ l, t.spot? (stagingPath vertex) ≠ some l → t.spot? (stagingPath fragment) ≠ some l →
        files' l = files l := by
  obtain ⟨files₁, h₁, hother₁⟩ := refiled_unstaged h m vertex
  obtain ⟨files₂, h₂, hother₂⟩ := refiled_unstaged h₁ m fragment
  exact ⟨files₂, h₂, fun l hv hf => (hother₂ l hf).trans (hother₁ l hv)⟩

def Clears (m : Machine) (vertex fragment : String) (t : FileTree) : Prop :=
  (cleared m vertex fragment t).text? (stagingPath vertex) = none ∧
    (cleared m vertex fragment t).text? (stagingPath fragment) = none

/-- Where nothing stays staged all other files are there. -/
theorem refiled_kept (h : t.Refiled files t') (hclears : Clears m vertex fragment t') :
    t.Refiled (kept t vertex fragment files) (cleared m vertex fragment t') := by
  obtain ⟨files', h', hother⟩ := refiled_cleared h m vertex fragment
  obtain ⟨hv, hf⟩ := hclears
  rw [h'.text?_eq] at hv hf
  convert h' using 1
  funext l
  unfold kept
  split
  · rename_i hstaged
    rcases hstaged with hl | hl
    · rw [hl] at hv
      exact hv.symm
    · rw [hl] at hf
      exact hf.symm
  · rename_i hstaged
    obtain ⟨hv, hf⟩ := not_or.mp hstaged
    exact (hother l hv hf).symm

theorem unstaged_text? (hgrants : ∀ t path, m.refuses t (.remove path) = none) (path : String)
    (t : FileTree) : (unstaged m path t).text? (stagingPath path) = none := by
  have h := FileTree.Refiled.refl t
  unfold unstaged
  cases hd : m.delete t (stagingPath path) with
  | ok t'' =>
    obtain ⟨a, _, ha, -, rfl⟩ := h.delete_eq_ok_iff.mp (Machine.grant_eq_ok.mp hd).2
    simp [(h.remove ha).text?_eq, ha]
  | error e =>
    -- had there been a file, it could have been deleted
    refine Option.eq_none_iff_forall_ne_some.mpr fun text hfile => ?_
    rw [FileTree.text?_eq] at hfile
    obtain ⟨l, hl, hfile⟩ := Option.bind_eq_some_iff.mp hfile
    have hdelete : m.delete t (stagingPath path) = .ok (t.remove l) := Machine.grant_eq_ok.mpr
      ⟨hgrants t _, FileTree.delete_eq_ok.mpr ⟨l, text, hl, hfile, rfl⟩⟩
    rw [hd] at hdelete
    cases hdelete

/-- No file comes to be where programs are cleared up. -/
theorem unstaged_text?_of_none {path' : String} (hnone : t.text? path' = none) :
    (unstaged m path t).text? path' = none := by
  unfold unstaged
  cases hd : m.delete t (stagingPath path) with
  | error e => exact hnone
  | ok t'' =>
    have h := FileTree.Refiled.refl t
    obtain ⟨a, _, ha, -, rfl⟩ := h.delete_eq_ok_iff.mp (Machine.grant_eq_ok.mp hd).2
    rw [FileTree.text?_eq] at hnone
    rw [(h.remove ha).text?_eq]
    cases hl : t.spot? path' with
    | none => rfl
    | some l =>
      rw [hl, Option.bind_some] at hnone
      simp [Function.update_apply, hnone]

/-- A machine that removes every file it is asked to clears up. -/
theorem clears_of_grants (hgrants : ∀ t path, m.refuses t (.remove path) = none)
    (vertex fragment : String) (t : FileTree) : Clears m vertex fragment t :=
  ⟨unstaged_text?_of_none (unstaged_text? hgrants vertex t), unstaged_text? hgrants fragment _⟩

end Failure

/-- What a run that writes programs should come to: both destinations hold their new programs, or
both hold what they did before and nothing stays staged. -/
def AllOrNothing (t : FileTree) (shaders : Glsl.Shaders) (vertex fragment : String) :
    Except WorkspaceError Unit × FileTree → Prop
  | (.ok (), t') =>
    t'.text? vertex = some shaders.vertex ∧ t'.text? fragment = some shaders.fragment
  | (.error _, t') =>
    (t'.text? vertex = t.text? vertex ∧ t'.text? fragment = t.text? fragment) ∧
      t'.text? (stagingPath vertex) = none ∧ t'.text? (stagingPath fragment) = none

/-- A destination where the other program is staged has no file to lose. -/
def Unharmed (t : FileTree) (path other : String) : Prop :=
  t.spot? path = t.spot? (stagingPath other) → t.text? path = none

/-- What is left at the first destination when the second program is not moved there. If both were
staged at one place it is the second program that was moved to the first destination. -/
def leftInPlace (t : FileTree) (shaders : Glsl.Shaders) (vertex fragment : String) :
    Option String :=
  if t.spot? vertex = t.spot? (stagingPath fragment) then none
  else if t.spot? (stagingPath vertex) = t.spot? (stagingPath fragment) then some shaders.fragment
  else some shaders.vertex

/-- The destinations that are written both or neither. Three things go wrong with others: one is
where the other program is staged, the machine does not clear up, or the second program is not moved
when the first has been. A destination that holds already what it is given, or that holds nothing
and is left so, shows none of this. -/
def Recovers (m : Machine) (t : FileTree) (shaders : Glsl.Shaders) (vertex fragment : String) :
    Prop :=
  match progress m shaders vertex fragment t with
  | .unmoved _ t' =>
    Clears m vertex fragment t' ∧ Unharmed t vertex fragment ∧ Unharmed t fragment vertex
  | .halfway _ t' =>
    Clears m vertex fragment t' ∧ t.text? vertex = leftInPlace t shaders vertex fragment ∧
      Unharmed t fragment vertex
  | .complete _ => t.spot? vertex ≠ t.spot? (stagingPath fragment)

def Recoverable (t : FileTree) (shaders : Glsl.Shaders) (vertex fragment : String) : Prop :=
  match t.spot? (stagingPath vertex), t.spot? (stagingPath fragment), t.spot? vertex with
  | some a, some b, some l =>
    if a = b then t.text? vertex = some shaders.fragment
    else if l = b then t.spot? fragment = none ∧ t.text? vertex = none
    else t.spot? fragment ≠ none ∨ t.text? vertex = some shaders.vertex
  | _, _, _ => Unharmed t vertex fragment ∧ Unharmed t fragment vertex

section Outcome

variable {m : Machine} {files : Location → Option String} {vertex fragment : String}
  (shaders : Glsl.Shaders)

theorem allOrNothing_error_iff (h : t.Refiled files t') (e : WorkspaceError) :
    AllOrNothing t shaders vertex fragment (.error e, cleared m vertex fragment t') ↔
      Clears m vertex fragment t' ∧
        (t.spot? vertex).bind (kept t vertex fragment files) = t.text? vertex ∧
        (t.spot? fragment).bind (kept t vertex fragment files) = t.text? fragment := by
  rw [AllOrNothing, and_comm]
  refine and_congr_right fun hclears => ?_
  have hkept := refiled_kept h hclears
  rw [hkept.text?_eq, hkept.text?_eq]

/-- A destination stays as it is unless the other program is staged there. -/
theorem kept_eq_text?_iff (t : FileTree) (vertex fragment : String) :
    (t.spot? vertex).bind (kept t vertex fragment t.fileAt?) = t.text? vertex ↔
      Unharmed t vertex fragment := by
  rw [kept_destination, ← FileTree.text?_eq, Unharmed]
  by_cases hs : t.spot? vertex = t.spot? (stagingPath fragment)
  · simp [hs, eq_comm]
  · simp [hs]

/-- A failure before anything is moved. -/
theorem allOrNothing_unmoved_iff (h : t.Refiled files t')
    (hkept : kept t vertex fragment files = kept t vertex fragment t.fileAt?) (e : WorkspaceError) :
    AllOrNothing t shaders vertex fragment (.error e, cleared m vertex fragment t') ↔
      Clears m vertex fragment t' ∧ Unharmed t vertex fragment ∧ Unharmed t fragment vertex := by
  rw [allOrNothing_error_iff shaders h, hkept, kept_eq_text?_iff, kept_comm, kept_eq_text?_iff]

def staged (t : FileTree) (shaders : Glsl.Shaders) (a b : Location) : Location → Option String :=
  update (update t.fileAt? a (some shaders.vertex)) b (some shaders.fragment)

def moved (t : FileTree) (shaders : Glsl.Shaders) (a b l : Location) : Location → Option String :=
  update (update (staged t shaders a b) a none) l (staged t shaders a b a)

theorem kept_staged (ha : t.spot? (stagingPath vertex) = some a)
    (hb : t.spot? (stagingPath fragment) = some b) :
    kept t vertex fragment (staged t shaders a b) = kept t vertex fragment t.fileAt? :=
  (kept_update (.inr hb) _).trans (kept_update (.inl ha) _)

section Moved

variable (ha : t.spot? (stagingPath vertex) = some a) (hb : t.spot? (stagingPath fragment) = some b)
  (hl : t.spot? vertex = some l)

include ha hb hl

theorem kept_moved : (t.spot? vertex).bind (kept t vertex fragment (moved t shaders a b l)) =
    leftInPlace t shaders vertex fragment := by
  rw [kept_destination, leftInPlace, hl, ha, hb, Option.bind_some, moved, Function.update_self]
  by_cases hab : a = b <;> simp [staged, hab]

/-- A failure when the first program has been moved. -/
theorem allOrNothing_halfway_iff (h : t.Refiled (moved t shaders a b l) t') (e : WorkspaceError) :
    AllOrNothing t shaders vertex fragment (.error e, cleared m vertex fragment t') ↔
      Clears m vertex fragment t' ∧ t.text? vertex = leftInPlace t shaders vertex fragment ∧
        Unharmed t fragment vertex := by
  have hvertex := kept_moved shaders ha hb hl
  rw [allOrNothing_error_iff shaders h, hvertex, eq_comm]
  refine and_congr_right fun _ => and_congr_right fun hleft => ?_
  cases hf : t.spot? fragment with
  | none => simp [Unharmed, FileTree.text?_eq, hf]
  | some f =>
    rw [Option.bind_some]
    by_cases hfl : f = l
    · -- both destinations are one place, and no program is staged there
      subst hfl
      have hunharmed : Unharmed t fragment vertex := fun hs =>
        absurd (Option.some.inj (ha.symm.trans (hs.symm.trans hf))) (staged_ne hl ha)
      rw [hl, Option.bind_some, ← hleft, FileTree.text?_eq, hl, ← hf,
        ← FileTree.text?_eq] at hvertex
      exact iff_of_true hvertex hunharmed
    · have hsame : kept t vertex fragment (moved t shaders a b l) f =
          kept t vertex fragment t.fileAt? f := by
        have hcleared : kept t vertex fragment (update (staged t shaders a b) a none) =
            kept t vertex fragment (staged t shaders a b) := kept_update (.inl ha) none
        rw [← kept_staged shaders ha hb, ← hcleared]
        simp only [kept, moved, Function.update_of_ne hfl]
      rw [hsame, ← kept_eq_text?_iff, hf, Option.bind_some, kept_comm]

/-- Both programs are moved, the second over the first if that is where it was staged. -/
theorem allOrNothing_complete_iff (h : t.Refiled (moved t shaders a b l) t') {t'' : FileTree}
    (hmove : t'.move (stagingPath fragment) fragment = .ok t'') :
    AllOrNothing t shaders vertex fragment (.ok (), t'') ↔
      t.spot? vertex ≠ t.spot? (stagingPath fragment) := by
  obtain ⟨_, f, text, hb', -, hf, -⟩ := h.move_eq_ok_iff.mp hmove
  have hbf : b ≠ f := staged_ne hf hb
  obtain ⟨text, hstaged, h''⟩ := h.of_move hmove hb hf hbf
  have hal : a ≠ l := staged_ne hl ha
  have hab : a ≠ b := by
    rintro rfl
    simp [moved, hal] at hstaged
  have hlf : l ≠ f := by
    rintro rfl
    exact hab ((spot?_stagingPath hl ha).trans (spot?_stagingPath hf hb).symm)
  rw [AllOrNothing, h''.text?_eq, h''.text?_eq, hl, hf, hb, Option.bind_some, Option.bind_some,
    Function.update_of_ne hlf, Function.update_self, ← hstaged]
  by_cases hlb : l = b
  · simp [hlb]
  · simp [moved, staged, hlb, Ne.symm hlb, hab, Ne.symm hab]

end Moved

/-- The files when writing the programs has got so far. -/
theorem progress_spec (m : Machine) (t : FileTree) (vertex fragment : String) :
    match progress m shaders vertex fragment t with
    | .unmoved _ t' => ∃ files, t.Refiled files t' ∧
      kept t vertex fragment files = kept t vertex fragment t.fileAt?
    | .halfway _ t' => ∃ a b l, t.spot? (stagingPath vertex) = some a ∧
      t.spot? (stagingPath fragment) = some b ∧ t.spot? vertex = some l ∧
      t.Refiled (moved t shaders a b l) t'
    | .complete t' => ∃ a b l t₃, t.spot? (stagingPath vertex) = some a ∧
      t.spot? (stagingPath fragment) = some b ∧ t.spot? vertex = some l ∧
      t.Refiled (moved t shaders a b l) t₃ ∧ t₃.move (stagingPath fragment) fragment = .ok t' := by
  have h := FileTree.Refiled.refl t
  unfold progress
  cases hw₁ : m.write t (stagingPath vertex) shaders.vertex with
  | error e => exact ⟨_, h, rfl⟩
  | ok t₁ =>
    obtain ⟨a, ha, h₁⟩ := h.of_write (Machine.grant_eq_ok.mp hw₁).2
    simp only
    cases hw₂ : m.write t₁ (stagingPath fragment) shaders.fragment with
    | error e => exact ⟨_, h₁, kept_update (.inl ha) _⟩
    | ok t₂ =>
      obtain ⟨b, hb, h₂⟩ := h₁.of_write (Machine.grant_eq_ok.mp hw₂).2
      simp only
      cases hm₁ : m.move t₂ (stagingPath vertex) vertex with
      | error e => exact ⟨_, h₂, kept_staged shaders ha hb⟩
      | ok t₃ =>
        have hmove := (Machine.grant_eq_ok.mp hm₁).2
        obtain ⟨_, l, _, -, -, hl, -⟩ := h₂.move_eq_ok_iff.mp hmove
        obtain ⟨text, hstaged, h₃⟩ := h₂.of_move hmove ha hl (staged_ne hl ha)
        rw [← hstaged] at h₃
        simp only
        cases hm₂ : m.move t₃ (stagingPath fragment) fragment with
        | error e => exact ⟨a, b, l, ha, hb, hl, h₃⟩
        | ok t₄ => exact ⟨a, b, l, t₃, ha, hb, hl, h₃, (Machine.grant_eq_ok.mp hm₂).2⟩

/-- Both programs are written or neither, exactly at the destinations that recover. -/
theorem writeShaders_allOrNothing_iff (m : Machine) (t : FileTree) (vertex fragment : String) :
    AllOrNothing t shaders vertex fragment (m.run (writeShaders shaders vertex fragment) t) ↔
      Recovers m t shaders vertex fragment := by
  have hspec := progress_spec shaders m t vertex fragment
  rw [run_writeShaders, Recovers]
  cases hp : progress m shaders vertex fragment t with
  | unmoved e t' =>
    rw [hp] at hspec
    obtain ⟨files, h, hkept⟩ := hspec
    exact allOrNothing_unmoved_iff shaders h hkept e
  | halfway e t' =>
    rw [hp] at hspec
    obtain ⟨a, b, l, ha, hb, hl, h⟩ := hspec
    exact allOrNothing_halfway_iff shaders ha hb hl h e
  | complete t' =>
    rw [hp] at hspec
    obtain ⟨a, b, l, t₃, ha, hb, hl, h, hmove⟩ := hspec
    exact allOrNothing_complete_iff shaders ha hb hl h hmove

/-- Programs that cannot be staged both, or the first of which cannot be moved, stay unmoved. -/
theorem progress_unmoved (m : Machine) (hstuck : t.spot? (stagingPath vertex) = none ∨
      t.spot? (stagingPath fragment) = none ∨ t.spot? vertex = none) :
    ∃ e t', progress m shaders vertex fragment t = .unmoved e t' := by
  have hspec := progress_spec shaders m t vertex fragment
  cases hp : progress m shaders vertex fragment t with
  | unmoved e t' => exact ⟨e, t', rfl⟩
  | halfway e t' =>
    rw [hp] at hspec
    obtain ⟨a, b, l, ha, hb, hl, -⟩ := hspec
    simp [ha, hb, hl] at hstuck
  | complete t' =>
    rw [hp] at hspec
    obtain ⟨a, b, l, _, ha, hb, hl, -⟩ := hspec
    simp [ha, hb, hl] at hstuck

section Obliging

variable (ha : t.spot? (stagingPath vertex) = some a) (hb : t.spot? (stagingPath fragment) = some b)
  (hl : t.spot? vertex = some l)

include ha hb hl

/-- Left to the tree, the first program is moved if it can be staged with the second. -/
theorem progress_obliging_moved : ∃ t₃, t.Refiled (moved t shaders a b l) t₃ ∧
    progress .obliging shaders vertex fragment t =
      match t₃.move (stagingPath fragment) fragment with
      | .error e => .halfway (.output fragment e) t₃
      | .ok t₄ => .complete t₄ := by
  obtain ⟨first, hfirst⟩ : ∃ first, staged t shaders a b a = some first := by
    by_cases hab : a = b <;> simp [staged, hab]
  have h₁ := (FileTree.Refiled.refl t).put ha shaders.vertex
  have h₂ : t.Refiled (staged t shaders a b) _ := h₁.put hb shaders.fragment
  have hw₁ : Machine.obliging.write t (stagingPath vertex) shaders.vertex = .ok _ :=
    FileTree.write_eq_ok.mpr ⟨a, ha, rfl⟩
  have hw₂ : Machine.obliging.write _ (stagingPath fragment) shaders.fragment = .ok _ :=
    h₁.write_eq_ok_iff.mpr ⟨b, hb, rfl⟩
  have hm₁ : Machine.obliging.move _ (stagingPath vertex) vertex = .ok _ :=
    h₂.move_eq_ok_iff.mpr ⟨a, l, first, ha, hfirst, hl, rfl⟩
  rw [if_neg (staged_ne hl ha)] at hm₁
  refine ⟨_, ?_, by simp only [progress, hw₁, hw₂, hm₁]; rfl⟩
  rw [moved, hfirst]
  exact (h₂.remove ha).put hl first

/-- With both programs staged at one place there is nothing left to move to the second destination,
and otherwise it can only be that there is no such place. -/
theorem progress_obliging_halfway (hstop : a = b ∨ t.spot? fragment = none) :
    ∃ e t', progress .obliging shaders vertex fragment t = .halfway e t' := by
  obtain ⟨t₃, h₃, hp⟩ := progress_obliging_moved shaders ha hb hl
  rw [hp]
  cases hm : t₃.move (stagingPath fragment) fragment with
  | error e => exact ⟨_, t₃, rfl⟩
  | ok t₄ =>
    obtain ⟨b', f, text, hb', hstaged, hf, -⟩ := h₃.move_eq_ok_iff.mp hm
    obtain rfl : b = b' := Option.some.inj (hb.symm.trans hb')
    rcases hstop with rfl | hnone
    · simp [moved, staged_ne hl ha] at hstaged
    · rw [hf] at hnone
      cases hnone

theorem progress_obliging_complete {f : Location} (hab : a ≠ b) (hf : t.spot? fragment = some f) :
    ∃ t', progress .obliging shaders vertex fragment t = .complete t' := by
  obtain ⟨t₃, h₃, hp⟩ := progress_obliging_moved shaders ha hb hl
  obtain ⟨second, hsecond⟩ : ∃ second, moved t shaders a b l b = some second := by
    by_cases hlb : l = b
    · simp [moved, staged, hlb, hab]
    · simp [moved, staged, Ne.symm hlb, Ne.symm hab]
  have hm : t₃.move (stagingPath fragment) fragment = .ok _ :=
    h₃.move_eq_ok_iff.mpr ⟨b, f, second, hb, hsecond, hf, rfl⟩
  exact ⟨_, by rw [hp, hm]⟩

end Obliging

/-- On a machine that leaves it to the tree the destinations recover that are recoverable. -/
theorem recovers_obliging_iff (t : FileTree) (vertex fragment : String) :
    Recovers .obliging t shaders vertex fragment ↔ Recoverable t shaders vertex fragment := by
  have hclears := clears_of_grants (m := .obliging) (fun _ _ => rfl) vertex fragment
  unfold Recoverable
  split
  · rename_i a b l ha hb hl
    by_cases hab : a = b
    · subst hab
      obtain ⟨e, t', hp⟩ := progress_obliging_halfway shaders ha hb hl (.inl rfl)
      have hunharmed : Unharmed t fragment vertex := fun hs =>
        absurd rfl (staged_ne (hs.trans ha) hb)
      have hal : l ≠ a := (staged_ne hl ha).symm
      simp [Recovers, hp, hclears t', hunharmed, leftInPlace, hl, ha, hb, hal]
    cases hf : t.spot? fragment with
    | none =>
      obtain ⟨e, t', hp⟩ := progress_obliging_halfway shaders ha hb hl (.inr hf)
      have hunharmed : Unharmed t fragment vertex := fun _ => by simp [FileTree.text?_eq, hf]
      simp only [Recovers, hp, hclears t', hunharmed, leftInPlace, hl, ha, hb, Option.some.injEq]
      by_cases hlb : l = b <;> simp [hlb, hab]
    | some f =>
      obtain ⟨t', hp⟩ := progress_obliging_complete shaders ha hb hl hab hf
      simp only [Recovers, hp, hl, hb]
      by_cases hlb : l = b <;> simp [hlb, hab]
  · rename_i hstuck
    obtain ⟨e, t', hp⟩ : ∃ e t', progress .obliging shaders vertex fragment t = .unmoved e t' := by
      refine progress_unmoved shaders _ ?_
      cases ha : t.spot? (stagingPath vertex) with
      | none => exact .inl rfl
      | some a =>
        cases hb : t.spot? (stagingPath fragment) with
        | none => exact .inr (.inl rfl)
        | some b =>
          cases hl : t.spot? vertex with
          | none => exact .inr (.inr rfl)
          | some l => exact absurd hl (hstuck a b l ha hb)
    simp only [Recovers, hp, hclears t', true_and]

/-- A machine that removes every file it is asked to leaves nothing staged after a failure. -/
theorem writeShaders_leaves_nothing_staged
    (hgrants : ∀ t path, m.refuses t (.remove path) = none) {e : WorkspaceError}
    (hrun : m.run (writeShaders shaders vertex fragment) t = (.error e, t')) :
    t'.text? (stagingPath vertex) = none ∧ t'.text? (stagingPath fragment) = none := by
  have hclears := clears_of_grants hgrants vertex fragment
  rw [run_writeShaders] at hrun
  cases hp : progress m shaders vertex fragment t with
  | unmoved e₁ t₁ =>
    rw [hp] at hrun
    cases hrun
    exact hclears t₁
  | halfway e₁ t₁ =>
    rw [hp] at hrun
    cases hrun
    exact hclears t₁
  | complete t₁ =>
    rw [hp] at hrun
    cases hrun

end Outcome

/-- Compiling writes nothing before it has both programs, and then it writes these. -/
theorem run_compile [Format] (m : Machine) (path : String) (t : FileTree) :
    (∃ e, m.run (compile path) t = (.error e, t)) ∨
      ∃ settings s shaders, m.run (openSession path) t = (.ok (settings, s), t) ∧
        Glsl.compile s.graph settings.dialect = .ok shaders ∧
        m.run (compile path) t =
          m.run (writeShaders shaders (settings.resolved path).vertex
            (settings.resolved path).fragment) t := by
  have hquiet := readsOnly_openSession m path t
  simp only [Machine.run, compile, outcome_bind]
  rcases hopen : outcome (@openSession _ _ m.files _ path) t with ⟨r, t'⟩
  rw [hopen] at hquiet
  subst hquiet
  cases r with
  | error e => exact .inl ⟨e, rfl⟩
  | ok opened =>
    obtain ⟨settings, s⟩ := opened
    simp only [outcome_require]
    cases hcompile : Glsl.compile s.graph settings.dialect with
    | error e => exact .inl ⟨.compile e, rfl⟩
    | ok shaders => exact .inr ⟨settings, s, shaders, rfl, hcompile, rfl⟩

/-- Both programs are written or neither just where the destinations recover, which on a machine
that leaves it to the tree is for the tree as it was before to say. A machine that removes every
file it is asked to has nothing staged after a failure. Compiling fails with no file touched, or
writes the programs it has to the destinations of the settings. -/
theorem output_allOrNothing_iff [Format] (m : Machine) (t : FileTree) :
    (∀ shaders vertex fragment,
      (AllOrNothing t shaders vertex fragment (m.run (writeShaders shaders vertex fragment) t) ↔
        Recovers m t shaders vertex fragment) ∧
      (Recovers .obliging t shaders vertex fragment ↔ Recoverable t shaders vertex fragment) ∧
      ((∀ t path, m.refuses t (.remove path) = none) →
        ∀ e t', m.run (writeShaders shaders vertex fragment) t = (.error e, t') →
          t'.text? (stagingPath vertex) = none ∧ t'.text? (stagingPath fragment) = none)) ∧
    ∀ path, outcome (compile path) t = Machine.obliging.run (compile path) t ∧
      ((∃ e, m.run (compile path) t = (.error e, t)) ∨
        ∃ settings s shaders, m.run (openSession path) t = (.ok (settings, s), t) ∧
          Glsl.compile s.graph settings.dialect = .ok shaders ∧
          (AllOrNothing t shaders (settings.resolved path).vertex (settings.resolved path).fragment
              (m.run (compile path) t) ↔
            Recovers m t shaders (settings.resolved path).vertex
              (settings.resolved path).fragment)) := by
  refine ⟨fun shaders vertex fragment => ⟨writeShaders_allOrNothing_iff shaders m t vertex fragment,
    recovers_obliging_iff shaders t vertex fragment, fun hgrants e t' hrun =>
      writeShaders_leaves_nothing_staged shaders hgrants hrun⟩, fun path => ⟨rfl, ?_⟩⟩
  rcases run_compile m path t with hfailed | ⟨settings, s, shaders, hopen, hcompile, hrun⟩
  · exact .inl hfailed
  · refine .inr ⟨settings, s, shaders, hopen, hcompile, ?_⟩
    rw [hrun]
    exact writeShaders_allOrNothing_iff shaders m t _ _

/-- A failure after which a destination holds something else. -/
theorem not_allOrNothing_of_changed {shaders : Glsl.Shaders} {vertex fragment : String}
    {r : Except WorkspaceError Unit × FileTree}
    (h : r.1.toOption = none ∧ r.2.text? vertex ≠ t.text? vertex) :
    ¬ AllOrNothing t shaders vertex fragment r := by
  obtain ⟨r, t'⟩ := r
  obtain ⟨hfailed, hchanged⟩ := h
  intro hall
  cases r with
  | ok u => cases hfailed
  | error e => exact hchanged hall.1.1

/-- The fragment program is to be written where a directory is. -/
def blockedTree (vertex fragment : String) : FileTree :=
  .ofEntries
    [(["d"], .directory),
      (["graph.sg"], .file (SavedGraph.save (Graph.new (handles 0) (handles 1)))),
      (["shadegraph.ron"], .file (Settings.toText ⟨1, .glsl330, ⟨"graph.sg", vertex, fragment⟩⟩)),
      (["v"], .file "old")]

/-- Compiling fails, yet the vertex program is in place, wherever the paths start from. -/
theorem blocked_half_written :
    (¬ ∃ shaders, AllOrNothing (blockedTree "v" "d") shaders "v" "d"
      (outcome (compile "shadegraph.ron") (blockedTree "v" "d"))) ∧
    ¬ ∃ shaders, AllOrNothing (blockedTree "/tmp/shadegraph/v" "/tmp/shadegraph/d") shaders
      "/tmp/shadegraph/v" "/tmp/shadegraph/d"
      (outcome (compile "shadegraph.ron")
        (blockedTree "/tmp/shadegraph/v" "/tmp/shadegraph/d")) :=
  ⟨not_exists.mpr fun _ => not_allOrNothing_of_changed (by decide +kernel),
    not_exists.mpr fun _ => not_allOrNothing_of_changed (by decide +kernel)⟩

end Workspace

end ShaderGraph
