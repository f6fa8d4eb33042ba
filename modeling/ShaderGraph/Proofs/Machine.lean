import ShaderGraph.Proofs.Files
import ShaderGraph.Workspace

namespace ShaderGraph

inductive Call where
  | read (path : String)
  | write (path text : String)
  | rename (source target : String)
  | remove (path : String)

/-- A machine with a file tree. It may refuse a call for reasons that the tree does not show, such
as permissions or a full disk. A call that it refuses has no effect. -/
structure Machine where
  refuses : FileTree → Call → Option FileError

namespace Machine

variable {m : Machine} {t t' : FileTree} {path text : String}

def obliging : Machine := ⟨fun _ _ => none⟩

def grant {α : Type} (m : Machine) (t : FileTree) (c : Call) (r : Except FileError α) :
    Except FileError α :=
  match m.refuses t c with
  | some e => .error e
  | none => r

theorem grant_eq_ok {α : Type} {c : Call} {r : Except FileError α} {a : α} :
    m.grant t c r = .ok a ↔ m.refuses t c = none ∧ r = .ok a := by
  unfold grant
  cases m.refuses t c <;> simp

def read (m : Machine) (t : FileTree) (path : String) : Except FileError String :=
  m.grant t (.read path) (t.read path)

def write (m : Machine) (t : FileTree) (path text : String) : Except FileError FileTree :=
  m.grant t (.write path text) (t.write path text)

def move (m : Machine) (t : FileTree) (source target : String) : Except FileError FileTree :=
  m.grant t (.rename source target) (t.move source target)

def delete (m : Machine) (t : FileTree) (path : String) : Except FileError FileTree :=
  m.grant t (.remove path) (t.delete path)

@[reducible]
def files (m : Machine) : FileSystem (StateM FileTree) where
  readFile path := fun t => (m.read t path, t)
  writeFile path text := FileTree.change (m.write · path text)
  rename source target := FileTree.change (m.move · source target)
  removeFile path := FileTree.change (m.delete · path)

end Machine

namespace Workspace

/-- What a request comes to on a tree, and the tree it leaves. -/
def outcome {α : Type} (x : Request (StateM FileTree) α) (t : FileTree) :
    Except WorkspaceError α × FileTree :=
  x.run t

end Workspace

def Machine.run {α : Type} (m : Machine)
    (x : [FileSystem (StateM FileTree)] → Workspace.Request (StateM FileTree) α) (t : FileTree) :
    Except WorkspaceError α × FileTree :=
  Workspace.outcome (@x m.files) t

namespace Workspace

section Requests

variable {α β : Type} {t t' : FileTree}

theorem outcome_bind (x : Request (StateM FileTree) α) (f : α → Request (StateM FileTree) β)
    (t : FileTree) : outcome (x >>= f) t =
      match outcome x t with
      | (.ok a, t') => outcome (f a) t'
      | (.error e, t') => (.error e, t') := by
  have hrun : outcome (x >>= f) t = ExceptT.bindCont f (outcome x t).1 (outcome x t).2 := rfl
  rw [hrun]
  rcases outcome x t with ⟨r, t'⟩
  cases r <;> rfl

theorem outcome_tryCatch (x : Request (StateM FileTree) α)
    (f : WorkspaceError → Request (StateM FileTree) α) (t : FileTree) : outcome (tryCatch x f) t =
      match outcome x t with
      | (.ok a, t') => (.ok a, t')
      | (.error e, t') => outcome (f e) t' := by
  rcases hx : outcome x t with ⟨r, t'⟩
  have hx : (x : StateM FileTree _) t = (r, t') := hx
  simp only [outcome, tryCatch, tryCatchThe, MonadExceptOf.tryCatch, ExceptT.tryCatch, ExceptT.run,
    ExceptT.mk, bind, StateT.bind, hx]
  cases r <;> rfl

theorem outcome_change (f : FileTree → Except FileError FileTree)
    (error : FileError → WorkspaceError) (t : FileTree) :
    outcome (call (FileTree.change f) error) t =
      match f t with
      | .ok t' => (.ok (), t')
      | .error e => (.error (error e), t) := by
  have hrun : outcome (call (FileTree.change f) error) t =
      ((FileTree.change f t).1.mapError error, (FileTree.change f t).2) := rfl
  rw [hrun, FileTree.change]
  cases f t <;> rfl

theorem outcome_throw (e : WorkspaceError) (t : FileTree) :
    outcome (throw e : Request (StateM FileTree) α) t = (.error e, t) := rfl

theorem outcome_require {ε : Type} (r : Except ε α) (error : ε → WorkspaceError) (t : FileTree) :
    outcome (require r error) t = (r.mapError error, t) := rfl

theorem outcome_bind_ok {x : Request (StateM FileTree) α} {f : α → Request (StateM FileTree) β}
    {b : β} : outcome (x >>= f) t = (.ok b, t') ↔
      ∃ a t₁, outcome x t = (.ok a, t₁) ∧ outcome (f a) t₁ = (.ok b, t') := by
  rw [outcome_bind]
  rcases outcome x t with ⟨r, t₁⟩
  cases r with
  | error e => simp
  | ok a =>
    refine ⟨fun h => ⟨a, t₁, rfl, h⟩, ?_⟩
    rintro ⟨a', t₂, hfirst, h⟩
    cases hfirst
    exact h

theorem outcome_require_ok {ε : Type} {r : Except ε α} {error : ε → WorkspaceError} {a : α} :
    outcome (require r error) t = (.ok a, t') ↔ r = .ok a ∧ t = t' := by
  rw [outcome_require, Prod.mk.injEq, except_mapError_eq_ok]

theorem outcome_pure_ok {a b : α} :
    outcome (pure a : Request (StateM FileTree) α) t = (.ok b, t') ↔ a = b ∧ t = t' := by
  have hrun : outcome (pure a : Request (StateM FileTree) α) t = (.ok a, t) := rfl
  rw [hrun, Prod.mk.injEq, Except.ok.injEq]

theorem outcome_change_ok {f : FileTree → Except FileError FileTree}
    {error : FileError → WorkspaceError} :
    outcome (call (FileTree.change f) error) t = (.ok (), t') ↔ f t = .ok t' := by
  rw [outcome_change]
  cases f t <;> simp

def ReadsOnly (x : Request (StateM FileTree) α) : Prop := ∀ t, (outcome x t).2 = t

theorem ReadsOnly.bind {x : Request (StateM FileTree) α} {f : α → Request (StateM FileTree) β}
    (hx : ReadsOnly x) (hf : ∀ a, ReadsOnly (f a)) : ReadsOnly (x >>= f) := by
  intro t
  have ht := hx t
  rw [outcome_bind]
  rcases hr : outcome x t with ⟨r, t'⟩
  rw [hr] at ht
  cases r with
  | ok a => exact (hf a t').trans ht
  | error e => exact ht

theorem readsOnly_require {ε : Type} (r : Except ε α) (error : ε → WorkspaceError) :
    ReadsOnly (require r error) := fun _ => rfl

theorem readsOnly_throw (e : WorkspaceError) : ReadsOnly (throw e : Request (StateM FileTree) α) :=
  fun _ => rfl

theorem readsOnly_pure (a : α) : ReadsOnly (pure a : Request (StateM FileTree) α) := fun _ => rfl

def FailsClean (x : Request (StateM FileTree) α) : Prop :=
  ∀ t e t', outcome x t = (.error e, t') → t' = t

theorem ReadsOnly.failsClean_bind {x : Request (StateM FileTree) α}
    {f : α → Request (StateM FileTree) β} (hx : ReadsOnly x) (hf : ∀ a, FailsClean (f a)) :
    FailsClean (x >>= f) := by
  intro t e t' h
  have ht := hx t
  rw [outcome_bind] at h
  rcases hr : outcome x t with ⟨r, t₁⟩
  rw [hr] at ht h
  subst ht
  cases r with
  | ok a => exact hf a t₁ e t' h
  | error e' =>
    cases h
    rfl

theorem failsClean_change (f : FileTree → Except FileError FileTree)
    (error : FileError → WorkspaceError) : FailsClean (call (FileTree.change f) error) := by
  intro t e t' h
  rw [outcome_change] at h
  cases hf : f t with
  | ok t₁ =>
    rw [hf] at h
    cases h
  | error e' =>
    rw [hf] at h
    cases h
    rfl

end Requests

section Opening

variable (m : Machine) {t t' : FileTree} {path : String}

theorem readsOnly_read (path : String) (error : FileError → WorkspaceError) :
    ReadsOnly (call (m.files.readFile path) error) := fun _ => rfl

theorem outcome_read_ok {text : String} {error : FileError → WorkspaceError} :
    outcome (call (m.files.readFile path) error) t = (.ok text, t') ↔
      m.read t path = .ok text ∧ t = t' := by
  have hrun : outcome (call (m.files.readFile path) error) t =
      ((m.read t path).mapError error, t) := rfl
  rw [hrun, Prod.mk.injEq, except_mapError_eq_ok]

variable [Format]

theorem readsOnly_readSettings (path : String) : ReadsOnly (@readSettings _ _ m.files _ path) := by
  refine (readsOnly_read m path _).bind fun text => ?_
  split
  · exact readsOnly_throw _
  · split
    · exact readsOnly_throw _
    · exact readsOnly_pure _

/-- Opening a session reads files and writes none. -/
theorem readsOnly_openSession (path : String) : ReadsOnly (@openSession _ _ m.files _ path) := by
  refine (readsOnly_readSettings m path).bind fun settings => ?_
  refine (readsOnly_read m _ _).bind fun text => ?_
  refine (readsOnly_require _ _).bind fun g => ?_
  exact (readsOnly_require _ _).bind fun s => readsOnly_pure _

theorem outcome_readSettings_ok {settings : Settings} :
    outcome (@readSettings _ _ m.files _ path) t = (.ok settings, t') ↔
      ((∃ text, m.read t path = .ok text ∧ Format.settings? text = some settings) ∧
        settings.version ≤ Settings.formatVersion) ∧ t = t' := by
  unfold readSettings
  rw [outcome_bind_ok]
  constructor
  · rintro ⟨text, t₁, hcall, h⟩
    obtain ⟨hread, rfl⟩ := (outcome_read_ok m).mp hcall
    split at h
    · rw [outcome_throw] at h
      cases h
    · rename_i s hs
      split at h
      · rw [outcome_throw] at h
        cases h
      · rename_i hversion
        obtain ⟨rfl, rfl⟩ := outcome_pure_ok.mp h
        exact ⟨⟨⟨text, hread, hs⟩, Nat.le_of_not_lt hversion⟩, rfl⟩
  · rintro ⟨⟨⟨text, hread, hs⟩, hversion⟩, rfl⟩
    refine ⟨text, t, (outcome_read_ok m).mpr ⟨hread, rfl⟩, ?_⟩
    simp only [hs, if_neg (Nat.not_lt_of_le hversion)]
    exact outcome_pure_ok.mpr ⟨rfl, rfl⟩

theorem outcome_openSession_ok {settings : Settings} {s : Session} :
    outcome (@openSession _ _ m.files _ path) t = (.ok (settings, s), t') ↔
      ((∃ text, m.read t path = .ok text ∧ Format.settings? text = some settings) ∧
        settings.version ≤ Settings.formatVersion ∧
        ∃ stored, (∃ text, m.read t (settings.resolved path).graph = .ok text ∧
          SavedGraph.load handles text = .ok stored) ∧
          Session.ofGraph stored .topological = .ok s) ∧ t = t' := by
  unfold openSession
  constructor
  · intro h
    obtain ⟨settings, t₁, hfirst, h⟩ := outcome_bind_ok.mp h
    obtain ⟨⟨hsettings, hversion⟩, rfl⟩ := (outcome_readSettings_ok m).mp hfirst
    obtain ⟨text, t₂, hcall, h⟩ := outcome_bind_ok.mp h
    obtain ⟨hread, rfl⟩ := (outcome_read_ok m).mp hcall
    obtain ⟨stored, t₃, hgraph, h⟩ := outcome_bind_ok.mp h
    obtain ⟨hload, rfl⟩ := outcome_require_ok.mp hgraph
    obtain ⟨s, t₄, hpass, h⟩ := outcome_bind_ok.mp h
    obtain ⟨hopen, rfl⟩ := outcome_require_ok.mp hpass
    obtain ⟨hpair, rfl⟩ := outcome_pure_ok.mp h
    cases hpair
    exact ⟨⟨hsettings, hversion, stored, ⟨text, hread, hload⟩, hopen⟩, rfl⟩
  · rintro ⟨⟨hsettings, hversion, stored, ⟨text, hread, hload⟩, hopen⟩, rfl⟩
    refine outcome_bind_ok.mpr
      ⟨settings, t, (outcome_readSettings_ok m).mpr ⟨⟨hsettings, hversion⟩, rfl⟩, ?_⟩
    refine outcome_bind_ok.mpr ⟨text, t, (outcome_read_ok m).mpr ⟨hread, rfl⟩, ?_⟩
    refine outcome_bind_ok.mpr ⟨stored, t, outcome_require_ok.mpr ⟨hload, rfl⟩, ?_⟩
    refine outcome_bind_ok.mpr ⟨s, t, outcome_require_ok.mpr ⟨hopen, rfl⟩, ?_⟩
    exact outcome_pure_ok.mpr ⟨rfl, rfl⟩

end Opening

end Workspace

end ShaderGraph
