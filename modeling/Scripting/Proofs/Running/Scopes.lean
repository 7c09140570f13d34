import Mathlib.Logic.Function.Basic
import Scripting.Proofs.Reading.Advance
import Scripting.Proofs.Running.Obedience

/-!
# How scopes are nested

The frames of a machine are nested: around each but the outermost one there is exactly
one earlier frame, and the current scope and the scopes of all functions are frames with
those around them (`Machine.Nests`).  So from every frame the way out is finite, meets no
frame twice, and ends in the global scope.

A run adds frames, which are inside of others, and names, which are added to the current
scope alone, or to the global one when a source has been read meanwhile, as an include does
and nothing else (`Machine.KeepsScopes`).  All that is done in a block or in the body of a
function is done in a scope that is new, so nothing that is declared there is added to a
frame that was there before (`Machine.SameNames`).

Main statements: `Machine.KeepsScopes.of_opening`, `Regime.scopes`.
-/

namespace Scripting

open Tree (Arena)

/-! ## Names -/

theorem Bindings.binds_bind
    (bindings : Bindings)
    (name other : String)
    (value : Value) :
    (bindings.bind name value).binds other = true ↔
      bindings.binds other = true ∨ other = name := by
  unfold binds
  by_cases same : other = name
  · subst same
    simp
  · simp [find?_bind_of_ne bindings value same, same]

namespace Store

/-- A frame binds a name. -/
def Binds (store : Store) (frame : FrameId) (name : String) : Prop :=
  (store.bindings frame).binds name = true

/-- Binding a name adds it to one frame. -/
theorem binds_bindIn
    (store : Store)
    (frame other : FrameId)
    (name added : String)
    (value : Value) :
    (store.bindIn frame added value).Binds other name ↔
      store.Binds other name ∨ (other = frame ∧ frame < store.frames.size) ∧ name = added := by
  unfold Binds
  rw [bindings_bindIn]
  split
  next here => simp [Bindings.binds_bind, here]
  next elsewhere => simp [elsewhere]

/-- The frame that an assignment changes binds the name already. -/
theorem binds_of_holder
    {store : Store}
    {scope : Scope}
    {name : String}
    {frame : FrameId}
    (holder : store.holder? scope name = some frame) :
    store.Binds frame name := by
  have found : scope.frames.find? (fun frame => (store.bindings frame).binds name) = some frame :=
    holder
  simpa [Binds] using List.find?_some found

@[simp] theorem size_bindIn (store : Store) (frame : FrameId) (name : String) (value : Value) :
    (store.bindIn frame name value).frames.size = store.frames.size := by
  simp [bindIn]

end Store

/-! ## Nested frames -/

/-- The scope is a frame with those around it. -/
def Scope.NestedIn (scope : Scope) (around : FrameId → List FrameId) (count : Nat) : Prop :=
  scope.frame < count ∧ scope.outer = around scope.frame

namespace Machine

/-- The frames around each frame, from the inside out. The global one is the outermost. -/
structure Nests (machine : Machine) (around : FrameId → List FrameId) : Prop where
  globals : Scope.global.frame < machine.store.frames.size
  outermost : around Scope.global.frame = []
  inside : ∀ frame, Scope.global.frame < frame → frame < machine.store.frames.size →
    ∃ parent, parent < frame ∧ around frame = parent :: around parent
  scope : machine.scope.NestedIn around machine.store.frames.size
  closures : ∀ place declared, machine.store.callable? place = some (.function declared) →
    declared.closure.NestedIn around machine.store.frames.size

/-- The way out of a frame goes to ever earlier frames and ends in the global scope. -/
theorem Nests.descends
    {machine : Machine}
    {around : FrameId → List FrameId}
    (nests : machine.Nests around)
    {frame : FrameId}
    (exists_ : frame < machine.store.frames.size) :
    (frame :: around frame).Pairwise (fun inner outer => outer < inner) ∧
      (frame :: around frame).getLast? = some Scope.global.frame := by
  induction frame using Nat.strongRecOn with
  | _ frame inductionHypothesis =>
      obtain rfl | inside := Nat.eq_zero_or_pos frame
      · have outermost := nests.outermost
        change around 0 = [] at outermost
        simp [outermost, Scope.global]
      · obtain ⟨parent, earlier, whole⟩ := nests.inside frame inside exists_
        obtain ⟨descending, last⟩ :=
          inductionHypothesis parent earlier (Nat.lt_trans earlier exists_)
        rw [whole]
        refine ⟨.cons (fun outer member => ?_) descending, by rwa [List.getLast?_cons_cons]⟩
        obtain rfl | member := List.mem_cons.mp member
        · exact earlier
        · exact Nat.lt_trans (List.rel_of_pairwise_cons descending member) earlier

/-- The frames that were there bind the names that they bound, all of them and no others,
but for the global one, which may bind more if a source has been read. -/
def SameNames (machine later : Machine) : Prop :=
  ∀ frame < machine.store.frames.size, ∀ name,
    (machine.store.Binds frame name → later.store.Binds frame name) ∧
    (later.store.Binds frame name → machine.store.Binds frame name ∨
      frame = Scope.global.frame ∧ machine.arena.size < later.arena.size)

/-- The later machine has the frames of the one before and possibly more, nested as they
were. None has lost a name, and only the current one has gained any, but for the global one,
which may have gained some if a source has been read. -/
structure KeepsScopes (machine later : Machine) : Prop where
  scope : later.scope = machine.scope
  arena : machine.arena.size ≤ later.arena.size
  frames : machine.store.frames.size ≤ later.store.frames.size
  nests : ∀ around, machine.Nests around → ∃ further, later.Nests further ∧
    ∀ frame < machine.store.frames.size, further frame = around frame
  kept : ∀ frame < machine.store.frames.size, ∀ name,
    machine.store.Binds frame name → later.store.Binds frame name
  added : ∀ frame < machine.store.frames.size, ∀ name,
    later.store.Binds frame name → machine.store.Binds frame name ∨
      frame = machine.scope.frame ∨
      frame = Scope.global.frame ∧ machine.arena.size < later.arena.size

namespace KeepsScopes

variable {machine between later : Machine}

theorem refl (machine : Machine) : machine.KeepsScopes machine where
  scope := rfl
  arena := Nat.le_refl _
  frames := Nat.le_refl _
  nests around nests := ⟨around, nests, fun _ _ => rfl⟩
  kept _ _ _ bound := bound
  added _ _ _ bound := .inl bound

theorem trans (first : machine.KeepsScopes between) (second : between.KeepsScopes later) :
    machine.KeepsScopes later where
  scope := second.scope.trans first.scope
  arena := Nat.le_trans first.arena second.arena
  frames := Nat.le_trans first.frames second.frames
  nests around nests := by
    obtain ⟨further, betweenNests, same⟩ := first.nests around nests
    obtain ⟨last, laterNests, lastSame⟩ := second.nests further betweenNests
    exact ⟨last, laterNests, fun frame earlier =>
      (lastSame frame (Nat.lt_of_lt_of_le earlier first.frames)).trans (same frame earlier)⟩
  kept frame earlier name bound :=
    second.kept frame (Nat.lt_of_lt_of_le earlier first.frames) name
      (first.kept frame earlier name bound)
  added frame earlier name bound := by
    obtain bound | current | ⟨isGlobal, grown⟩ :=
      second.added frame (Nat.lt_of_lt_of_le earlier first.frames) name bound
    · obtain bound | current | ⟨isGlobal, grown⟩ := first.added frame earlier name bound
      · exact .inl bound
      · exact .inr (.inl current)
      · exact .inr (.inr ⟨isGlobal, Nat.lt_of_lt_of_le grown second.arena⟩)
    · exact .inr (.inl (first.scope ▸ current))
    · exact .inr (.inr ⟨isGlobal, Nat.lt_of_le_of_lt first.arena grown⟩)

end KeepsScopes

/-- Frames are nested as before when there are as many of them and every function has
been there or is declared in the current scope. -/
theorem Nests.of_closures
    {machine later : Machine}
    {around : FrameId → List FrameId}
    (nests : machine.Nests around)
    (scope : later.scope = machine.scope)
    (frames : later.store.frames.size = machine.store.frames.size)
    (closures : ∀ place declared, later.store.callable? place = some (.function declared) →
      machine.store.callable? place = some (.function declared) ∨
        declared.closure = machine.scope) :
    later.Nests around where
  globals := frames ▸ nests.globals
  outermost := nests.outermost
  inside := frames ▸ nests.inside
  scope := by
    rw [scope, frames]
    exact nests.scope
  closures place declared found := by
    rw [frames]
    obtain before | here := closures place declared found
    · exact nests.closures place declared before
    · rw [here]
      exact nests.scope

/-- Where all frames are as they were, names are, too. -/
theorem KeepsScopes.of_frames
    {machine later : Machine}
    (scope : later.scope = machine.scope)
    (arena : machine.arena.size ≤ later.arena.size)
    (frames : later.store.frames = machine.store.frames)
    (nests : ∀ around, machine.Nests around → later.Nests around) :
    machine.KeepsScopes later := by
  have binds : ∀ frame name, later.store.Binds frame name ↔ machine.store.Binds frame name := by
    intro frame name
    simp only [Store.Binds, Store.bindings, frames]
  exact ⟨scope, arena, frames ▸ Nat.le_refl _,
    fun around held => ⟨around, nests around held, fun _ _ => rfl⟩,
    fun frame _ name => (binds frame name).mpr,
    fun frame _ name bound => .inl ((binds frame name).mp bound)⟩

/-- A binding in the current scope, or in a frame that binds the name already. -/
theorem KeepsScopes.of_bindIn
    (machine : Machine)
    {name : String}
    {frame : FrameId}
    (value : Value)
    (allowed : machine.store.Binds frame name ∨ frame = machine.scope.frame) :
    machine.KeepsScopes { machine with store := machine.store.bindIn frame name value } where
  scope := rfl
  arena := Nat.le_refl _
  frames := by simp
  nests around nests :=
    ⟨around, nests.of_closures rfl (by simp) fun _ _ found => .inl found, fun _ _ => rfl⟩
  kept other _ bound held := (Store.binds_bindIn ..).mpr (.inl held)
  added other _ bound held := by
    obtain before | ⟨⟨rfl, -⟩, rfl⟩ := (Store.binds_bindIn ..).mp held
    · exact .inl before
    · exact allowed.imp_right .inl

/-- How frames are nested is seen in the store and the scope. -/
theorem Nests.of_eq
    {machine later : Machine}
    {around : FrameId → List FrameId}
    (nests : machine.Nests around)
    (store : later.store = machine.store)
    (scope : later.scope = machine.scope) :
    later.Nests around :=
  nests.of_closures scope (by rw [store]) fun _ _ found => .inl (by rwa [store] at found)

/-- One small step adds no name but to the current scope. -/
theorem Step.keepsScopes
    {machine later : Machine}
    (step : machine.Step later) :
    machine.KeepsScopes later := by
  have arena := Arena.size_le_of_le (Grows.step step).arena
  cases step with
  | assign value holder => exact .of_bindIn machine value (.inl (Store.binds_of_holder holder))
  | define name value => exact .of_bindIn machine value (.inr rfl)
  | addArray | push | ask | read =>
      exact .of_frames rfl arena rfl fun around nests =>
        nests.of_closures rfl rfl fun _ _ found => .inl found
  | declare present kind =>
      refine .of_frames rfl arena rfl fun around nests =>
        nests.of_closures rfl rfl fun place declared found => ?_
      obtain before | same := Store.callable?_addCallable_cases found
      · exact .inl before
      · cases same
        exact .inr rfl

/-! ## Visits -/

section Visits

variable
  (machine : Machine)
  (outer : Scope)
  (bindings : List (String × Value))

@[simp] theorem size_opening :
    (machine.opening outer bindings).store.frames.size = machine.store.frames.size + 1 := by
  have kept : ∀ store : Store,
      (bindings.foldl (fun store binding =>
        store.bindIn machine.store.nextFrame binding.1 binding.2) store).frames.size =
        store.frames.size := by
    induction bindings with
    | nil => exact fun _ => rfl
    | cons binding rest inductionHypothesis =>
        exact fun store => (inductionHypothesis _).trans (by simp)
  exact (kept _).trans (by simp [Store.addFrame])

/-- The names in a new scope are bound in no frame that was there before. -/
theorem binds_opening
    {frame : FrameId}
    (earlier : frame < machine.store.frames.size)
    (name : String) :
    (machine.opening outer bindings).store.Binds frame name ↔ machine.store.Binds frame name := by
  have elsewhere : frame ≠ machine.store.nextFrame := Nat.ne_of_lt earlier
  have kept : ∀ store : Store,
      (bindings.foldl (fun store binding =>
        store.bindIn machine.store.nextFrame binding.1 binding.2) store).Binds frame name ↔
        store.Binds frame name := by
    induction bindings with
    | nil => exact fun _ => .rfl
    | cons binding rest inductionHypothesis =>
        exact fun store => (inductionHypothesis _).trans (by simp [Store.binds_bindIn, elsewhere])
  exact (kept _).trans (by simp [Store.Binds])

variable {machine outer}

/-- A scope that is opened is nested, too. -/
theorem Nests.opening
    {around : FrameId → List FrameId}
    (nests : machine.Nests around)
    (nested : outer.NestedIn around machine.store.frames.size) :
    (machine.opening outer bindings).Nests
      (Function.update around machine.store.frames.size outer.frames) where
  globals := by
    rw [size_opening]
    exact Nat.lt_succ_of_lt nests.globals
  outermost := by
    rw [Function.update_of_ne (Nat.ne_of_lt nests.globals)]
    exact nests.outermost
  inside frame inner bound := by
    rw [size_opening] at bound
    obtain earlier | rfl := Nat.lt_succ_iff_lt_or_eq.mp bound
    · obtain ⟨parent, before, whole⟩ := nests.inside frame inner earlier
      refine ⟨parent, before, ?_⟩
      rw [Function.update_of_ne (Nat.ne_of_lt earlier),
        Function.update_of_ne (Nat.ne_of_lt (Nat.lt_trans before earlier)), whole]
    · refine ⟨outer.frame, nested.1, ?_⟩
      rw [Function.update_self, Function.update_of_ne (Nat.ne_of_lt nested.1), Scope.frames,
        nested.2]
  scope := by
    have innermost : Function.update around machine.store.frames.size outer.frames
        machine.store.frames.size = outer.frames := Function.update_self ..
    rw [size_opening]
    exact ⟨Nat.lt_succ_self _, innermost.symm⟩
  closures place declared found := by
    have closure := nests.closures place declared (by simpa [Store.callable?] using found)
    rw [size_opening]
    refine ⟨Nat.lt_succ_of_lt closure.1, ?_⟩
    rw [Function.update_of_ne (Nat.ne_of_lt closure.1)]
    exact closure.2

/-- What becomes of the frames of a machine on which a scope was opened, once work in that
scope is left. -/
theorem KeepsScopes.of_opening
    {later : Machine}
    (inside : (machine.opening outer bindings).KeepsScopes later)
    (nested : ∀ around, machine.Nests around →
      outer.NestedIn around machine.store.frames.size) :
    machine.KeepsScopes { later with scope := machine.scope } ∧
      machine.SameNames { later with scope := machine.scope } := by
  have fewer : machine.store.frames.size < (machine.opening outer bindings).store.frames.size := by
    simp
  have same : machine.SameNames { later with scope := machine.scope } := by
    intro frame earlier name
    have inner := Nat.lt_trans earlier fewer
    refine ⟨fun bound => ?_, fun bound => ?_⟩
    · have opened := (machine.binds_opening outer bindings earlier name).mpr bound
      exact inside.kept frame inner name opened
    · obtain bound | current | grown := inside.added frame inner name bound
      · exact .inl ((machine.binds_opening outer bindings earlier name).mp bound)
      · exact absurd current (Nat.ne_of_lt earlier)
      · exact .inr grown
  refine ⟨⟨rfl, inside.arena, Nat.le_trans (Nat.le_of_lt fewer) inside.frames,
    fun around nests => ?_, fun frame earlier name => (same frame earlier name).1,
    fun frame earlier name bound => ((same frame earlier name).2 bound).imp_right .inr⟩, same⟩
  obtain ⟨further, laterNests, agree⟩ :=
    inside.nests _ (nests.opening bindings (nested around nests))
  have before : ∀ frame < machine.store.frames.size, further frame = around frame := by
    intro frame earlier
    rw [agree frame (Nat.lt_trans earlier fewer), Function.update_of_ne (Nat.ne_of_lt earlier)]
  refine ⟨further, ⟨laterNests.globals, laterNests.outermost, laterNests.inside, ?_,
    laterNests.closures⟩, before⟩
  refine ⟨Nat.lt_of_lt_of_le nests.scope.1 (Nat.le_trans (Nat.le_of_lt fewer) inside.frames), ?_⟩
  exact nests.scope.2.trans (before _ nests.scope.1).symm

/-- How many calls are active has nothing to do with scopes. -/
theorem KeepsScopes.of_depth
    {later : Machine}
    (inside : { machine with depth := machine.depth + 1 }.KeepsScopes later) :
    machine.KeepsScopes { later with depth := later.depth - 1 } := by
  refine ⟨inside.scope, inside.arena, inside.frames, fun around nests => ?_, inside.kept,
    inside.added⟩
  obtain ⟨further, laterNests, agree⟩ := inside.nests around (nests.of_eq rfl rfl)
  exact ⟨further, laterNests.of_eq rfl rfl, agree⟩

variable (machine) in
/-- The top level of a program is nested in nothing. -/
theorem Nests.starting
    {around : FrameId → List FrameId}
    (nests : machine.Nests around)
    (source : String) :
    (machine.starting source).Nests around where
  globals := nests.globals
  outermost := nests.outermost
  inside := nests.inside
  scope := ⟨nests.globals, nests.outermost.symm⟩
  closures := nests.closures

/-- What becomes of the frames of a machine on which a program was read, once its run has
ended. -/
theorem KeepsScopes.of_starting
    {later : Machine}
    {source : String}
    (inside : (machine.starting source).KeepsScopes later) :
    machine.KeepsScopes { later with scope := machine.scope, base := machine.base } := by
  have read : machine.arena.size < later.arena.size :=
    Nat.lt_of_lt_of_le (Tree.size_lt_readProgram machine.arena) inside.arena
  refine ⟨rfl, Nat.le_of_lt read, inside.frames, fun around nests => ?_, inside.kept,
    fun frame earlier name bound => ?_⟩
  · obtain ⟨further, laterNests, agree⟩ := inside.nests around (nests.starting machine source)
    refine ⟨further, ⟨laterNests.globals, laterNests.outermost, laterNests.inside, ?_,
      laterNests.closures⟩, agree⟩
    exact ⟨Nat.lt_of_lt_of_le nests.scope.1 inside.frames,
      nests.scope.2.trans (agree _ nests.scope.1).symm⟩
  · obtain bound | isGlobal | ⟨isGlobal, -⟩ := inside.added frame earlier name bound
    · exact .inl bound
    · exact .inr (.inr ⟨isGlobal, read⟩)
    · exact .inr (.inr ⟨isGlobal, read⟩)

end Visits

end Machine

/-- Frames are nested, and stay as they are nested. -/
def Regime.scopes : Regime where
  holds machine := ∃ around, machine.Nests around
  leads := Machine.KeepsScopes
  evaluates _ _ := True
  executes _ _ := True
  calls machine callable := ∃ place, machine.store.callable? place = some callable
  refl := .refl
  trans := .trans
  evaluates_mono _ _ := trivial
  executes_mono _ _ := trivial
  calls_mono := @Machine.Grows.exists_callable?
  operand _ _ _ _ _ := trivial
  statement _ _ _ _ := trivial
  part _ _ _ _ _ _ := by split <;> trivial
  expression _ _ _ _ := trivial
  body _ _ _ _ := trivial
  root _ _ := trivial
  found _ found := ⟨_, found⟩
  step := by
    rintro machine later ⟨around, nests⟩ step
    obtain ⟨further, laterNests, -⟩ := step.keepsScopes.nests around nests
    exact ⟨⟨further, laterNests⟩, step.keepsScopes⟩
  enter := by
    rintro machine inner back ⟨around, nests⟩ visits
    cases visits with
    | block bindings => exact ⟨_, nests.opening bindings nests.scope⟩
    | body bindings called =>
        obtain ⟨place, found⟩ := called
        exact ⟨_, nests.opening bindings (nests.closures place _ found)⟩
    | call => exact ⟨around, nests.of_eq rfl rfl⟩
    | program source => exact ⟨around, nests.starting machine source⟩
  leave := by
    rintro machine inner later back ⟨around, nests⟩ visits - - inside
    have leads : machine.KeepsScopes (back later) := by
      cases visits with
      | block bindings => exact (inside.of_opening bindings fun _ nests => nests.scope).1
      | body bindings called =>
          obtain ⟨place, found⟩ := called
          exact (inside.of_opening bindings fun _ nests => nests.closures place _ found).1
      | call => exact inside.of_depth
      | program source => exact inside.of_starting
    obtain ⟨further, laterNests, -⟩ := leads.nests around nests
    exact ⟨⟨further, laterNests⟩, leads⟩

end Scripting
