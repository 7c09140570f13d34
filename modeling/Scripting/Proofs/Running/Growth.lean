import Scripting.Proofs.Running.Histories

/-!
# Arrays only grow

What the work of a run does by itself keeps the elements of all arrays, but for the function
that adds one (`Moment.Pushes`).  So the points of a run, in their order, account for every
element that an array has besides those with which it was made: it has been added at one of
them (`Point.pushed`), and an element that has been added stays where it is.

Main statements: `Moment.Fits.exists_growsThrough`, `Store.GrowsThrough.amid`.
-/

namespace Scripting

open Tree (Node)

variable {α : Type}

/-! ## What is added -/

/-- The array to which a call adds an element, and the element. -/
def Errand.push? : Errand → Option (ArrayId × Value)
  | .call (.builtin given) arguments =>
      match given.action, arguments.headD .null with
      | .push, .array id => some (id, arguments.tail.headD .null)
      | _, _ => none
  | _ => none

/-- The call that adds an element to an array at a point, unless no bound is left for it. -/
def Point.push? : Point → Option (ArrayId × Value)
  | [] => none
  | activity :: _ => if activity.bound = 0 then none else activity.errand.push?

/-- The store at a point. -/
def Point.store : Point → Store
  | [] => .fresh
  | activity :: _ => activity.machine.store

/-- The elements that are added to an array at a point: one or none. -/
def Point.pushed (id : ArrayId) (point : Point) : List Value :=
  match point.push? with
  | some (place, value) => if place = id then [value] else []
  | none => []

/-- The store at a point, with the element that is added there. -/
def Point.storeAfter (point : Point) : Store :=
  match point.push? with
  | some (id, value) => point.store.pushElement id value
  | none => point.store

/-! ## Growing arrays -/

/-- The arrays of the one store are arrays of the other one, each with the given elements
added. -/
def Store.Grows (store : Store) (added : ArrayId → List Value) (later : Store) : Prop :=
  ∀ id, id < store.arrays.size → id < later.arrays.size ∧
    (later.elements id).toList = (store.elements id).toList ++ added id

theorem Store.KeepsPlaces.grows
    {store later : Store}
    (keeps : store.KeepsPlaces later) :
    store.Grows (fun _ => []) later := by
  intro id inside
  obtain ⟨added, whole⟩ := keeps.arrays
  have size : store.arrays.size + added.length = later.arrays.size := by
    simpa using congrArg List.length whole
  have same : later.arrays[id]? = store.arrays[id]? := by
    rw [← Array.getElem?_toList, ← Array.getElem?_toList, ← whole,
      List.getElem?_append_left (by simpa using inside)]
  refine ⟨by omega, ?_⟩
  rw [Store.elements, Store.elements, same, List.append_nil]

theorem Store.Grows.trans
    {store between later : Store}
    {added further : ArrayId → List Value}
    (first : store.Grows added between)
    (second : between.Grows further later) :
    store.Grows (fun id => added id ++ further id) later := by
  intro id inside
  obtain ⟨still, before⟩ := first id inside
  obtain ⟨last, after⟩ := second id still
  exact ⟨last, by rw [after, before, List.append_assoc]⟩

theorem Point.grows_storeAfter (point : Point) :
    point.store.Grows (fun id => point.pushed id) point.storeAfter := by
  unfold Point.pushed Point.storeAfter
  cases point.push? with
  | none => exact Store.KeepsPlaces.grows (.refl point.store)
  | some push =>
      obtain ⟨place, value⟩ := push
      intro id inside
      have size : (point.store.pushElement place value).arrays.size = point.store.arrays.size := by
        simp [Store.pushElement]
      refine ⟨by rwa [size], ?_⟩
      by_cases same : place = id
      · subst same
        simp [Store.elements_pushElement_self _ value inside]
      · simp [Store.elements, Store.pushElement, Array.getElem?_modify, same]

/-! ## Points that account for all elements -/

/-- From the one store to the other, nothing is done to arrays but what is done at the
points, one after the other. -/
def Store.GrowsThrough : Store → List Point → Store → Prop
  | store, [], later => store.KeepsPlaces later
  | store, point :: points, later =>
      store.KeepsPlaces point.store ∧ point.storeAfter.GrowsThrough points later

namespace Store.GrowsThrough

variable {store middle later : Store} {points others : List Point}

theorem of_keeps
    (keeps : store.KeepsPlaces middle)
    (grows : middle.GrowsThrough points later) :
    store.GrowsThrough points later := by
  cases points with
  | nil => exact keeps.trans grows
  | cons point rest => exact ⟨keeps.trans grows.1, grows.2⟩

theorem append
    (first : store.GrowsThrough points middle)
    (second : middle.GrowsThrough others later) :
    store.GrowsThrough (points ++ others) later := by
  induction points generalizing store with
  | nil => exact of_keeps first second
  | cons point rest inductionHypothesis => exact ⟨first.1, inductionHypothesis first.2⟩

theorem grows (through : store.GrowsThrough points later) :
    store.Grows (fun id => points.flatMap (Point.pushed id)) later := by
  induction points generalizing store with
  | nil => exact KeepsPlaces.grows through
  | cons point rest inductionHypothesis =>
      have added := (point.grows_storeAfter).trans (inductionHypothesis through.2)
      have whole := (KeepsPlaces.grows through.1).trans added
      simpa only [List.nil_append, List.flatMap_cons] using whole

/-- What is done before a point and what is done from it on. -/
theorem split
    {here : Point}
    (through : store.GrowsThrough (points ++ here :: others) later) :
    store.GrowsThrough points here.store ∧ here.store.GrowsThrough (here :: others) later := by
  induction points generalizing store with
  | nil => exact ⟨through.1, .refl here.store, through.2⟩
  | cons point rest inductionHypothesis =>
      obtain ⟨before, after⟩ := inductionHypothesis through.2
      exact ⟨⟨through.1, before⟩, after⟩

/-- From one point to a later one, the arrays grow by what is added at the points in
between. -/
theorem amid
    {before after between : List Point}
    {here there : Point}
    (through : store.GrowsThrough (before ++ here :: (between ++ there :: after)) later) :
    here.store.Grows (fun id => (here :: between).flatMap (Point.pushed id)) there.store := by
  obtain ⟨-, onward⟩ := through.split
  have whole : here.store.GrowsThrough ((here :: between) ++ there :: after) later := onward
  exact whole.split.1.grows

end Store.GrowsThrough

/-! ## What an errand does to arrays -/

namespace Moment

variable {moment : Moment} {bound : Nat} {around : Point}

/-- Nothing is begun for the call that adds an element to an array. -/
theorem Leads.not_pushes
    {link : Link}
    (leads : moment.Leads link) :
    ¬ moment.Pushes := by
  rintro ⟨given, arguments, isCall, isPush⟩
  obtain ⟨errand, machine⟩ := moment
  cases isCall
  generalize whole : Moment.mk (.call (.builtin given) arguments) machine = outer at leads
  cases leads with
  | operand found becomes fits =>
      subst whole
      exact nomatch found
  | program found source runs becomes =>
      cases whole
      exact absurd (isPush.symm.trans runs) (by decide)
  | _ => cases whole

/-- The call that adds an element to an array adds it, and does nothing else. -/
theorem Pushes.store_outcome (pushes : moment.Pushes) :
    (machineAfter ((Run.within (bound + 1)).outcome moment)).store =
      Point.storeAfter (⟨moment, bound + 1⟩ :: around) := by
  obtain ⟨given, arguments, isCall, isPush⟩ := pushes
  obtain ⟨errand, machine⟩ := moment
  cases isCall
  rw [Run.outcome_within_succ]
  obtain ⟨steps, performs⟩ : ∃ steps,
      work ⟨.call (.builtin given) arguments, machine⟩ bound (Run.within bound) =
        Builtin.perform steps given arguments machine := ⟨_, rfl⟩
  have answers : Builtin.answer steps given.action arguments =
      Builtin.push (arguments.headD .null) (arguments.tail.headD .null) := by
    rw [isPush]
    rfl
  rw [performs, Builtin.perform, answers]
  unfold Point.storeAfter Point.push? Errand.push? Builtin.push
  dsimp only
  rw [isPush, if_neg (Nat.succ_ne_zero bound)]
  cases arguments.headD .null <;> rfl

theorem push?_of_not_pushes (steady : ¬ moment.Pushes) : moment.errand.push? = none := by
  unfold Errand.push?
  split
  next given arguments same =>
    split
    next isPush _ => exact absurd ⟨given, arguments, same, isPush⟩ steady
    next => rfl
  next => rfl

end Moment

/-- Where the work itself keeps the arrays, they grow through what it begins. -/
theorem Manner.Along.growsThrough
    {manner : Manner}
    {steps : Steps}
    {machine : Machine}
    {links : List Link}
    {part : Link → List Point}
    {ending : Ending α}
    (along : manner.Along steps machine links ending)
    (steady : ¬ manner.pushes)
    (each : ∀ link ∈ links, (∀ later, (link.back later).store = later.store) ∧
      link.moment.machine.store.GrowsThrough (part link)
        (machineAfter (steps.outcome link.moment)).store) :
    machine.store.GrowsThrough (links.flatMap part) (machineAfter ending).store := by
  induction along with
  | ends allows => exact allows.keeps.resolve_left steady
  | interrupted keeps ends =>
      obtain ⟨back, inside⟩ := each _ (List.mem_singleton_self _)
      rw [ends] at inside
      rw [List.flatMap_singleton]
      refine .of_keeps (keeps.resolve_left steady) ?_
      exact (back _).symm ▸ inside
  | answered keeps ends _ inductionHypothesis =>
      obtain ⟨⟨back, inside⟩, others⟩ := List.forall_mem_cons.mp each
      rw [ends] at inside
      rw [List.flatMap_cons]
      have onward := inductionHypothesis others
      rw [back] at onward
      exact .of_keeps (keeps.resolve_left steady) (inside.append onward)

namespace Moment.Fits

variable {moment : Moment}

/-- Whatever is begun, the points to which it comes account for all elements. -/
theorem exists_growsThrough
    (fits : moment.Fits)
    (bound : Nat)
    (around : Point) :
    ∃ points, Run.Unfolds bound around moment points ∧
      moment.machine.store.GrowsThrough points
        (machineAfter ((Run.within bound).outcome moment)).store := by
  refine Run.exists_unfolds
    (motive := fun bound _ moment points => moment.machine.store.GrowsThrough points
      (machineAfter ((Run.within bound).outcome moment)).store) ?_ ?_ bound around fits
  · intro around moment
    have ended : machineAfter ((Run.within 0).outcome moment) = moment.machine := by
      obtain ⟨errand, machine⟩ := moment
      cases errand <;> rfl
    rw [ended]
    exact ⟨.refl _, .refl _⟩
  · intro bound around moment links part proceeds each
    refine ⟨.refl _, ?_⟩
    by_cases pushes : moment.Pushes
    · have nothing : links = [] := List.eq_nil_iff_forall_not_mem.mpr fun link member =>
        (proceeds.leads link member).not_pushes pushes
      have stored : _ = Point.storeAfter (⟨moment, bound + 1⟩ :: around) := pushes.store_outcome
      rw [nothing, stored]
      exact .refl _
    · have still : Point.storeAfter (⟨moment, bound + 1⟩ :: around) = moment.machine.store := by
        unfold Point.storeAfter Point.push?
        dsimp only
        rw [if_neg (Nat.succ_ne_zero bound), push?_of_not_pushes pushes]
        rfl
      rw [still]
      exact proceeds.along.growsThrough pushes fun link member =>
        ⟨(proceeds.leads link member).back_store, each link member⟩

end Moment.Fits

/-! ## Positions -/

/-- An element is found at a position that is inside the array. -/
theorem Steps.elementAt_eq_ok_iff
    {bracket : Token}
    {id : ArrayId}
    {position item : Value}
    {machine : Machine} :
    elementAt bracket (.array id) position machine = .ok item machine ↔
      ∃ number index, position = .number number ∧ Decimal.wholePart number = .ofNat index ∧
        (machine.store.elements id)[index]? = some item := by
  cases position with
  | number number =>
      have looks : Run.elementsOf id machine = .ok (machine.store.elements id) machine := rfl
      unfold elementAt
      dsimp only
      rw [Run.bind_of_ok looks]
      cases whole : Decimal.wholePart number with
      | ofNat index =>
          have same : (Int.ofNat index).toNat = index := rfl
          rw [same]
          cases found : (machine.store.elements id)[index]? with
          | some other =>
              constructor
              · rintro ⟨⟩
                exact ⟨number, index, rfl, whole, found⟩
              · rintro ⟨_, other, ⟨⟩, isWhole, isFound⟩
                cases whole.symm.trans isWhole
                cases found.symm.trans isFound
                rfl
          | none =>
              constructor
              · rintro ⟨⟩
              · rintro ⟨_, other, ⟨⟩, isWhole, isFound⟩
                cases whole.symm.trans isWhole
                cases found.symm.trans isFound
      | negSucc index =>
          constructor
          · rintro ⟨⟩
          · rintro ⟨_, other, ⟨⟩, isWhole, -⟩
            cases whole.symm.trans isWhole
  | _ =>
      constructor
      · rintro ⟨⟩
      · rintro ⟨_, _, ⟨⟩, -⟩

end Scripting
