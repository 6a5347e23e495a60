import Mathlib.Logic.Function.Basic
import Mathlib.Data.List.Basic
import Mathlib.Data.Set.Card

namespace NitroEncSvc.Fleet

/-!
# Machines that share nothing, interleaved

A fleet runs one copy of a machine for every identifier, as an accept loop
spawns one task for every connection it accepts.  Each event names the machine
it happens to, and only that machine steps.  Since the machines share no
state, an interleaved run of the fleet is, machine by machine, the run of the
events that name it, and every family of runs of the machines is reached by
every interleaving of their events (`run_eq_some_iff`).

A counter that goes up by one each time a machine comes to satisfy a
predicate counts the machines that satisfy it, as long as no machine leaves
the predicate: `encard_holders_update` is the step of that count.
-/

variable {ι σ ε : Type} [DecidableEq ι] (machineStep : σ → ε → Option σ)

/-- A run of one machine. -/
def runOne (state : σ) (events : List ε) : Option σ :=
  events.foldlM machineStep state

/-- One event of the fleet: the machine it names takes the step, the others stay. -/
def step (fleet : ι → σ) (event : ι × ε) : Option (ι → σ) :=
  (machineStep (fleet event.1) event.2).map (Function.update fleet event.1)

/-- An interleaved run of the fleet. -/
def run (fleet : ι → σ) (events : List (ι × ε)) : Option (ι → σ) :=
  events.foldlM (step machineStep) fleet

/-- The events that name one machine, in the order of the run. -/
def eventsOf (id : ι) (events : List (ι × ε)) : List ε :=
  events.filterMap fun event => if event.1 = id then some event.2 else none

@[simp] theorem eventsOf_nil (id : ι) :
    eventsOf id ([] : List (ι × ε)) = [] :=
  rfl

@[simp] theorem eventsOf_cons_self (id : ι) (event : ε) (rest : List (ι × ε)) :
    eventsOf id ((id, event) :: rest) = event :: eventsOf id rest := by
  simp [eventsOf]

theorem eventsOf_cons_of_ne {id other : ι} (differs : other ≠ id) (event : ε)
    (rest : List (ι × ε)) :
    eventsOf id ((other, event) :: rest) = eventsOf id rest := by
  simp [eventsOf, differs]

@[simp] theorem runOne_nil (state : σ) :
    runOne machineStep state [] = some state :=
  rfl

@[simp] theorem run_nil (fleet : ι → σ) :
    run machineStep fleet [] = some fleet :=
  rfl

theorem runOne_cons (state : σ) (event : ε) (rest : List ε) :
    runOne machineStep state (event :: rest) =
      (machineStep state event).bind fun next => runOne machineStep next rest :=
  rfl

theorem run_cons (fleet : ι → σ) (event : ι × ε) (rest : List (ι × ε)) :
    run machineStep fleet (event :: rest) =
      (step machineStep fleet event).bind fun next => run machineStep next rest :=
  rfl

/--
An interleaved run reaches a fleet exactly when each machine's own events run
it from its first state to its state in that fleet.
-/
theorem run_eq_some_iff
    (fleet final : ι → σ)
    (events : List (ι × ε)) :
    run machineStep fleet events = some final ↔
      ∀ id, runOne machineStep (fleet id) (eventsOf id events) = some (final id) := by
  induction events generalizing fleet with
  | nil =>
      simp only [run_nil, eventsOf_nil, runOne_nil, Option.some.injEq]
      exact ⟨fun same _ => congrFun same _, fun same => funext same⟩
  | cons event rest inductionHypothesis =>
      obtain ⟨named, happened⟩ := event
      rw [run_cons]
      cases stepped : machineStep (fleet named) happened with
      | none =>
          -- The named machine cannot take the event, in the fleet or alone.
          have blocked : step machineStep fleet (named, happened) = none := by
            simp [step, stepped]
          simp only [blocked, Option.bind_none, reduceCtorEq, false_iff, not_forall]
          exact ⟨named, by simp [runOne_cons, stepped]⟩
      | some next =>
          have moved : step machineStep fleet (named, happened) =
              some (Function.update fleet named next) := by
            simp [step, stepped]
          rw [moved, Option.bind_some, inductionHypothesis]
          -- Machine by machine: the named one has taken its step, the others kept theirs.
          refine forall_congr' fun id => ?_
          by_cases same : named = id
          · subst same
            simp [runOne_cons, stepped]
          · rw [Function.update_of_ne (Ne.symm same), eventsOf_cons_of_ne same]

/-! ## Counting the machines in a state -/

section Holders

variable {holds : σ → Prop}

/-- The machines of a fleet whose state satisfies a predicate. -/
def holders (fleet : ι → σ) (holds : σ → Prop) : Set ι :=
  {id | holds (fleet id)}

omit [DecidableEq ι] in
/-- A fleet whose machines all start in a state outside the predicate has no holder. -/
theorem holders_const
    {state : σ}
    (fails : ¬ holds state) :
    holders (fun _ : ι => state) holds = ∅ := by
  simp [holders, fails]

/-- A machine that steps into the predicate from outside it adds one holder; any other step none. -/
theorem encard_holders_update
    [DecidablePred holds]
    {fleet : ι → σ}
    {id : ι}
    (outside : ¬ holds (fleet id))
    (next : σ) :
    (holders (Function.update fleet id next) holds).encard =
      (holders fleet holds).encard + if holds next then 1 else 0 := by
  by_cases nowHolds : holds next
  · have grown : holders (Function.update fleet id next) holds = insert id (holders fleet holds) := by
      ext other
      by_cases same : other = id
      · subst same
        simp [holders, nowHolds]
      · simp [holders, same]
    have absent : id ∉ holders fleet holds := outside
    rw [grown, Set.encard_insert_of_notMem absent, if_pos nowHolds]
  · have kept : holders (Function.update fleet id next) holds = holders fleet holds := by
      ext other
      by_cases same : other = id
      · subst same
        simp [holders, nowHolds, outside]
      · simp [holders, Function.update_of_ne same]
    rw [kept, if_neg nowHolds, add_zero]

end Holders

end NitroEncSvc.Fleet
