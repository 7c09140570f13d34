import Mathlib.Data.List.Nodup
import Scripting.Proofs.Running.Scopes

/-!
# One write at a time

Scopes share the frames of the scopes around them, so one write is seen from many scopes and
hidden from others that bind the same name nearer by.  A definition and an assignment both
change what one name is bound to in one frame (`Store.SameBut`), and from this alone it
follows what every scope finds afterwards (`Store.lookup_of_sameBut`): the new value where
the name leads to that frame, and elsewhere what it found before.

Main statement: `Forest.writes_bind_one_name`.
-/

namespace Scripting

namespace Store

variable {store later : Store} {frame : FrameId} {name : String}

/-! ## Lookups -/

/-- A name is bound in a scope if and only if some frame of the scope holds it. -/
theorem isSome_holder? (store : Store) (scope : Scope) (name : String) :
    (store.holder? scope name).isSome = (store.lookup scope name).isSome := by
  unfold holder? lookup Bindings.binds
  induction scope.frames with
  | nil => rfl
  | cons first others inductionHypothesis =>
      rw [List.find?_cons, List.findSome?_cons]
      cases (store.bindings first).find? name with
      | none => exact inductionHypothesis
      | some value => rfl

/-- A scope inside another one looks a name up in its own frame first. -/
theorem lookup_inside (store : Store) (outer : Scope) (frame : FrameId) (name : String) :
    store.lookup (outer.inside frame) name =
      ((store.bindings frame).find? name).or (store.lookup outer name) := by
  unfold lookup
  rw [Scope.frames_inside, List.findSome?_cons]
  cases (store.bindings frame).find? name <;> rfl

/-! ## Writes -/

/-- But for one name in one frame, all names are bound as they were in every frame. -/
def SameBut (store later : Store) (frame : FrameId) (name : String) : Prop :=
  ∀ other bound, other ≠ frame ∨ bound ≠ name →
    (later.bindings other).find? bound = (store.bindings other).find? bound

theorem sameBut_bindIn (store : Store) (frame : FrameId) (name : String) (value : Value) :
    store.SameBut (store.bindIn frame name value) frame name := by
  intro other bound apart
  rw [bindings_bindIn]
  split
  next here =>
      have different : bound ≠ name := apart.resolve_left (not_not.mpr here.1)
      exact Bindings.find?_bind_of_ne _ value different
  · rfl

theorem find?_bindIn (inside : frame < store.frames.size) (name : String) (value : Value) :
    ((store.bindIn frame name value).bindings frame).find? name = some value := by
  rw [bindings_bindIn, if_pos ⟨rfl, inside⟩, Bindings.find?_bind_self]

/-- Where a name leads to the frame that has been changed it has the new value. All other
lookups find what they did before. -/
theorem lookup_of_sameBut
    (same : store.SameBut later frame name)
    {value : Value}
    (written : (later.bindings frame).find? name = some value)
    (scope : Scope)
    (bound : String) :
    later.lookup scope bound =
      if bound = name ∧ later.holder? scope name = some frame then some value
      else store.lookup scope bound := by
  unfold lookup holder? Bindings.binds
  induction scope.frames with
  | nil => simp
  | cons first others inductionHypothesis =>
      rw [List.findSome?_cons, List.findSome?_cons, List.find?_cons, inductionHypothesis]
      by_cases isName : bound = name
      · subst isName
        by_cases here : first = frame
        · subst here
          simp [written]
        · have kept := same first bound (.inl here)
          cases found : (store.bindings first).find? bound <;> simp [kept, found, here]
      · simp [isName, same first bound (.inr isName)]

/-- When the frame binds the name already, every frame goes on to bind what it did. -/
theorem binds_of_sameBut
    (same : store.SameBut later frame name)
    {value : Value}
    (written : (later.bindings frame).find? name = some value)
    (before : store.Binds frame name)
    (other : FrameId)
    (bound : String) :
    (later.bindings other).binds bound = (store.bindings other).binds bound := by
  by_cases here : other = frame ∧ bound = name
  · obtain ⟨rfl, rfl⟩ := here
    rw [show (store.bindings other).binds bound = true from before, Bindings.binds, written]
    rfl
  · rw [Bindings.binds, same other bound (not_and_or.mp here)]
    rfl

/-- A frame that binds a name is one of the store. -/
theorem lt_of_binds (binds : store.Binds frame name) : frame < store.frames.size := by
  by_contra outside
  rw [Binds, bindings, Array.getElem?_eq_none (Nat.le_of_not_lt outside)] at binds
  cases binds

/-- An assignment succeeds if and only if the name is bound. -/
theorem exists_assign_iff
    {scope : Scope}
    {name : Token}
    {value : Value} :
    (∃ later, store.assign scope name value = .ok later) ↔
      ∃ old, store.lookup scope name.lexeme = some old := by
  rw [← Option.isSome_iff_exists, ← isSome_holder?]
  unfold assign
  cases store.holder? scope name.lexeme <;> simp

/-- An assignment changes what the name is bound to in the frame to which it leads, and
every frame goes on to bind what it did. -/
theorem exists_of_assign
    {scope : Scope}
    {name : Token}
    {value : Value}
    (assigned : store.assign scope name value = .ok later) :
    ∃ frame, store.holder? scope name.lexeme = some frame ∧
      store.SameBut later frame name.lexeme ∧
      (later.bindings frame).find? name.lexeme = some value ∧
      ∀ other bound, (later.bindings other).binds bound = (store.bindings other).binds bound := by
  unfold assign at assigned
  cases holder : store.holder? scope name.lexeme with
  | none =>
      rw [holder] at assigned
      cases assigned
  | some frame =>
      rw [holder] at assigned
      cases assigned
      have before := binds_of_holder holder
      have same := store.sameBut_bindIn frame name.lexeme value
      have written := find?_bindIn (lt_of_binds before) name.lexeme value
      exact ⟨frame, rfl, same, written, binds_of_sameBut same written before⟩

/-! ## New frames -/

theorem lookup_addFrame (store : Store) (scope : Scope) (name : String) :
    store.addFrame.lookup scope name = store.lookup scope name := by
  simp only [lookup, bindings_addFrame]

theorem bindings_nextFrame (store : Store) : store.bindings store.nextFrame = [] := by
  rw [bindings, nextFrame, Array.getElem?_eq_none (Nat.le_refl _)]
  rfl

end Store

/-! ## Forests -/

/-- Scopes that have been made in a store, in their order. -/
structure Forest where
  store : Store
  scopes : List Scope

namespace Forest

/-- No scopes yet, in a store that may have arrays and functions. -/
def bare (arrays : Array (Array Value)) (callables : Array Callable) : Forest where
  store := { frames := #[], arrays := arrays, callables := callables }
  scopes := []

/-- One scope more. -/
def adding (forest : Forest) (scope : Scope) : Forest where
  store := forest.store.addFrame
  scopes := forest.scopes ++ [scope]

/-- One scope more, with none around it. -/
def plant (forest : Forest) : Forest :=
  forest.adding ⟨forest.store.nextFrame, []⟩

/-- One scope more, directly inside another one. -/
def branch (forest : Forest) (outer : Scope) : Forest :=
  forest.adding (outer.inside forest.store.nextFrame)

/-- Binds a name in a scope. -/
def define (forest : Forest) (scope : Scope) (name : String) (value : Value) : Forest :=
  { forest with store := forest.store.define scope name value }

/-- A forest as it grows. -/
inductive Grown : Forest → Prop
  | bare (arrays : Array (Array Value)) (callables : Array Callable) :
      Grown (bare arrays callables)
  | plant {forest : Forest} : Grown forest → Grown forest.plant
  | branch {forest : Forest} {outer : Scope} :
      Grown forest → outer ∈ forest.scopes → Grown (forest.branch outer)
  | define {forest : Forest} {scope : Scope} (name : String) (value : Value) :
      Grown forest → scope ∈ forest.scopes → Grown (forest.define scope name value)
  | assign {forest : Forest} {scope : Scope} {name : Token} {value : Value} {later : Store} :
      Grown forest → scope ∈ forest.scopes →
      forest.store.assign scope name value = .ok later →
        Grown { forest with store := later }

/-- Every scope has a frame of its own, and is directly inside an earlier one or has none
around it. -/
structure Sound (forest : Forest) : Prop where
  frames : forest.scopes.map Scope.frame = List.range forest.store.frames.size
  outer : ∀ scope ∈ forest.scopes, scope.outer = [] ∨
    ∃ parent ∈ forest.scopes, parent.frame < scope.frame ∧ scope.outer = parent.frames

namespace Sound

variable {forest : Forest}

theorem frame_lt (sound : forest.Sound) {scope : Scope} (member : scope ∈ forest.scopes) :
    scope.frame < forest.store.frames.size := by
  have inside := List.mem_map_of_mem (f := Scope.frame) member
  rwa [sound.frames, List.mem_range] at inside

/-- Scopes are told apart by their frames. -/
theorem eq_of_frame_eq
    (sound : forest.Sound)
    {scope other : Scope}
    (member : scope ∈ forest.scopes)
    (isOther : other ∈ forest.scopes)
    (same : other.frame = scope.frame) :
    other = scope := by
  have distinct : (forest.scopes.map Scope.frame).Nodup := sound.frames ▸ List.nodup_range
  exact List.inj_on_of_nodup_map distinct isOther member same

/-- A change of what is bound moves no scope. -/
theorem of_size
    (sound : forest.Sound)
    {later : Store}
    (size : later.frames.size = forest.store.frames.size) :
    Sound { forest with store := later } :=
  ⟨sound.frames.trans (congrArg List.range size.symm), sound.outer⟩

theorem adding
    (sound : forest.Sound)
    {scope : Scope}
    (isNew : scope.frame = forest.store.nextFrame)
    (outer : scope.outer = [] ∨ ∃ parent ∈ forest.scopes, scope.outer = parent.frames) :
    (forest.adding scope).Sound where
  frames := by
    have size : forest.store.addFrame.frames.size = forest.store.frames.size + 1 :=
      Array.size_push _
    change (forest.scopes ++ [scope]).map Scope.frame = List.range forest.store.addFrame.frames.size
    rw [List.map_append, sound.frames, size, List.range_succ]
    exact congrArg (List.range forest.store.frames.size ++ [·]) isNew
  outer := by
    refine List.forall_mem_append.mpr ⟨fun other member => ?_, List.forall_mem_singleton.mpr ?_⟩
    · exact (sound.outer other member).imp_right fun ⟨parent, isParent, further⟩ =>
        ⟨parent, List.mem_append_left _ isParent, further⟩
    · refine outer.imp_right fun ⟨parent, isParent, same⟩ =>
        ⟨parent, List.mem_append_left _ isParent, ?_, same⟩
      rw [isNew]
      exact sound.frame_lt isParent

end Sound

theorem Grown.sound {forest : Forest} (grown : forest.Grown) : forest.Sound := by
  induction grown with
  | bare => exact ⟨rfl, fun scope member => nomatch member⟩
  | plant _ inductionHypothesis => exact inductionHypothesis.adding rfl (.inl rfl)
  | branch _ member inductionHypothesis =>
      exact inductionHypothesis.adding rfl (.inr ⟨_, member, rfl⟩)
  | define name value _ _ inductionHypothesis =>
      exact inductionHypothesis.of_size (Store.size_bindIn ..)
  | @assign forest scope name value later _ _ assigned inductionHypothesis =>
      unfold Store.assign at assigned
      split at assigned <;> cases assigned
      exact inductionHypothesis.of_size (Store.size_bindIn ..)

/-! ## What writes do -/

section Writes

variable (forest : Forest) (scope : Scope) (name : Token) (value : Value)

/-- What an assignment in a scope does. -/
structure Assigns : Prop where
  /-- It succeeds if and only if the name is bound there. -/
  succeeds_iff : (∃ later, forest.store.assign scope name value = .ok later) ↔
    ∃ old, forest.store.lookup scope name.lexeme = some old
  /-- Otherwise it is a fault of the name, and changes nothing. -/
  fails : forest.store.lookup scope name.lexeme = none →
    ∀ machine : Machine, machine.store = forest.store → machine.scope = scope →
      Run.assign name value machine = .error (.fault (Store.unbound name)) machine
  /-- The scopes in which the name leads to the same frame find the new value. -/
  lookup : ∀ later, forest.store.assign scope name value = .ok later →
    ∀ viewer ∈ forest.scopes, ∀ bound,
      later.lookup viewer bound =
        if bound = name.lexeme ∧
            forest.store.holder? viewer name.lexeme = forest.store.holder? scope name.lexeme
          then some value
        else forest.store.lookup viewer bound
  /-- No scope binds more names, or fewer, and the value of one in one frame has changed. -/
  bindsLocally : ∀ later, forest.store.assign scope name value = .ok later →
    ∀ viewer ∈ forest.scopes, ∀ bound,
      later.bindsLocally viewer bound = forest.store.bindsLocally viewer bound
  sameBut : ∀ later, forest.store.assign scope name value = .ok later →
    ∃ frame, forest.store.holder? scope name.lexeme = some frame ∧
      forest.store.SameBut later frame name.lexeme

/-- What a definition in a scope does. -/
structure Defines (name : String) : Prop where
  /-- The scopes in which the name now leads to this one find the new value. -/
  lookup : ∀ viewer ∈ forest.scopes, ∀ bound,
    (forest.define scope name value).store.lookup viewer bound =
      if bound = name ∧
          (forest.define scope name value).store.holder? viewer name = some scope.frame
        then some value
      else forest.store.lookup viewer bound
  /-- The scope itself binds the name, and no scope binds other ones than before. -/
  bindsLocally : ∀ viewer ∈ forest.scopes, ∀ bound,
    (forest.define scope name value).store.bindsLocally viewer bound = true ↔
      viewer = scope ∧ bound = name ∨ forest.store.bindsLocally viewer bound = true
  sameBut : forest.store.SameBut (forest.define scope name value).store scope.frame name

end Writes

/-- What one scope more does, in which names are looked up as they are around it. -/
structure Adds (forest later : Forest) (around : String → Option Value) : Prop where
  /-- All other scopes bind and find what they did before. -/
  lookup : ∀ viewer ∈ forest.scopes, ∀ name,
    later.store.lookup viewer name = forest.store.lookup viewer name
  bindsLocally : ∀ viewer ∈ forest.scopes, ∀ name,
    later.store.bindsLocally viewer name = forest.store.bindsLocally viewer name
  /-- The new one binds nothing itself. -/
  added : ∃ scope, later.scopes = forest.scopes ++ [scope] ∧ ∀ name,
    later.store.lookup scope name = around name ∧ later.store.bindsLocally scope name = false

theorem assigns (forest : Forest) (scope : Scope) (name : Token) (value : Value) :
    forest.Assigns scope name value where
  succeeds_iff := Store.exists_assign_iff
  fails unbound machine sameStore sameScope := by
    have holder : forest.store.holder? scope name.lexeme = none := by
      rw [← Option.isNone_iff_eq_none, ← Option.not_isSome, Store.isSome_holder?, unbound]
      rfl
    rw [Run.assign, sameStore, sameScope, holder]
  lookup later assigned viewer _ bound := by
    obtain ⟨frame, holder, same, written, binds⟩ := Store.exists_of_assign assigned
    have holders : later.holder? viewer name.lexeme = forest.store.holder? viewer name.lexeme := by
      simp only [Store.holder?, binds]
    rw [Store.lookup_of_sameBut same written, holders, holder]
  bindsLocally later assigned viewer _ bound := by
    obtain ⟨frame, holder, same, written, binds⟩ := Store.exists_of_assign assigned
    exact binds viewer.frame bound
  sameBut later assigned := by
    obtain ⟨frame, holder, same, -⟩ := Store.exists_of_assign assigned
    exact ⟨frame, holder, same⟩

variable {forest : Forest}

theorem Sound.defines
    (sound : forest.Sound)
    {scope : Scope}
    (member : scope ∈ forest.scopes)
    (name : String)
    (value : Value) :
    forest.Defines scope value name where
  lookup viewer _ bound :=
    Store.lookup_of_sameBut (forest.store.sameBut_bindIn scope.frame name value)
      (Store.find?_bindIn (sound.frame_lt member) name value) viewer bound
  bindsLocally viewer isViewer bound := by
    have binds := forest.store.binds_bindIn scope.frame viewer.frame bound name value
    have isScope : viewer.frame = scope.frame ↔ viewer = scope :=
      ⟨sound.eq_of_frame_eq member isViewer, congrArg Scope.frame⟩
    rw [isScope, and_iff_left (sound.frame_lt member), or_comm] at binds
    exact binds
  sameBut := forest.store.sameBut_bindIn scope.frame name value

/-- A scope that is added finds what is found around it. -/
theorem adds
    {scope : Scope}
    (isNew : scope.frame = forest.store.nextFrame)
    {around : String → Option Value}
    (outside : ∀ name, forest.store.lookup scope name = around name) :
    forest.Adds (forest.adding scope) around where
  lookup viewer _ name := forest.store.lookup_addFrame viewer name
  bindsLocally viewer _ name := by
    change (forest.store.addFrame.bindings viewer.frame).binds name = _
    rw [Store.bindings_addFrame]
    rfl
  added := by
    refine ⟨scope, rfl, fun name => ⟨?_, ?_⟩⟩
    · exact (forest.store.lookup_addFrame scope name).trans (outside name)
    · change (forest.store.addFrame.bindings scope.frame).binds name = false
      rw [Store.bindings_addFrame, isNew, Store.bindings_nextFrame]
      rfl

/-- However a forest of scopes has grown, an assignment changes one name in the one frame to
which it leads, a definition one name in the scope itself, and a new scope nothing, so all
scopes that do not look the name up there find what they did before. An assignment binds no
name that was not bound, and if there is none to assign to, it is a fault and changes
nothing. Each scope has a frame of its own. -/
theorem writes_bind_one_name
    (grown : forest.Grown)
    {scope : Scope}
    (member : scope ∈ forest.scopes)
    (name : Token)
    (value : Value) :
    forest.Sound ∧
      forest.Assigns scope name value ∧
      forest.Defines scope value name.lexeme ∧
      forest.Adds (forest.branch scope) (forest.store.lookup scope) ∧
      forest.Adds forest.plant fun _ => none := by
  have sound := grown.sound
  refine ⟨sound, forest.assigns scope name value, sound.defines member name.lexeme value,
    adds rfl fun bound => ?branch, adds rfl fun bound => ?plant⟩
  case branch =>
    rw [Store.lookup_inside, Store.bindings_nextFrame]
    rfl
  case plant =>
    rw [Store.lookup, Scope.frames, List.findSome?_cons, Store.bindings_nextFrame]
    rfl

/-- Two scopes, one inside the other, of which both bind the same name. -/
def shadowing : Forest :=
  (((bare #[] #[]).plant.branch .global).define .global "total" (.text "outside")).define
    (Scope.global.inside 1) "total" (.text "inside")

theorem grown_shadowing : shadowing.Grown :=
  have planted : (bare #[] #[]).plant.Grown := .plant (.bare #[] #[])
  have branched : ((bare #[] #[]).plant.branch .global).Grown := planted.branch (.head _)
  have outside := branched.define "total" (.text "outside") (.head [Scope.global.inside 1])
  outside.define "total" (.text "inside") (.tail _ (.head _))

/-- What is written from the inner scope is written to its own binding, which hides the
global one. -/
theorem writes_bind_one_name_of_shadowing :
    let inner := Scope.global.inside 1
    let name := Token.placeless .identifier "total"
    shadowing.Grown ∧ inner ∈ shadowing.scopes ∧
      shadowing.store.lookup .global "total" = some (.text "outside") ∧
      shadowing.store.lookup inner "total" = some (.text "inside") ∧
      shadowing.Sound ∧
      shadowing.Assigns inner name (.text "later") ∧
      shadowing.Defines inner (.text "later") "total" ∧
      shadowing.Adds (shadowing.branch inner) (shadowing.store.lookup inner) ∧
      shadowing.Adds shadowing.plant fun _ => none :=
  ⟨grown_shadowing, .tail _ (.head _), rfl, rfl,
    writes_bind_one_name grown_shadowing (.tail _ (.head _)) _ _⟩

end Forest
end Scripting
