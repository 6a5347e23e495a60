import Mathlib.Data.List.Basic

namespace NitroEncSvc.Relay

/-!
# Relaying a connection in both directions

A relay joins two peers: it splits each stream into its halves, copies each
read half into the other peer's write half with `tokio::io::copy`, and runs
the two copies under `tokio::select!`, which returns as soon as one of them
does and drops the other.

A copy reads what its source peer has sent into a buffer of bounded size and
writes the buffer out, in pieces of any size; it returns the count it wrote
once it has read end of stream and emptied its buffer, and an error as soon as
a read, a write or the final flush fails.  The model allows a read whenever
the buffer has room for it, which includes every read the copy makes; results
about every run of the model therefore hold of every run of the copy.

Each direction conserves what its source sent: what it delivered, what it
holds in its buffer and what it has not yet read are, in this order, exactly
the items sent, so nothing is lost, duplicated, reordered or invented
(`Duplex.run_conserves`).  A copy that returns normally has delivered all of
it; the other copy is dropped with whatever it still held.
-/

/-- How a copy returned: with the count it wrote, or with an I/O error. -/
inductive Outcome where
  | done (written : Nat)
  | failed
  deriving Repr, DecidableEq

/-- One direction of the relay: its source peer's stream and the copy over it. -/
structure Pipe (α : Type) where
  /-- Sent by the source peer, not yet read by the copy. -/
  unread : List α
  /-- Read by the copy, not yet written. -/
  buffer : List α
  /-- Written to the destination peer. -/
  delivered : List α
  /-- The source peer has shut down its write half. -/
  sourceClosed : Bool
  /-- The copy has read end of stream. -/
  readDone : Bool
  deriving Repr, DecidableEq

/-- A direction before anything is sent. -/
def Pipe.empty {α : Type} : Pipe α :=
  ⟨[], [], [], false, false⟩

/-- What can happen to one direction: an action of its source peer, or a step of its copy. -/
inductive PipeEvent (α : Type) where
  | send (chunk : List α)
  | close
  | read (count : Nat)
  | readEof
  | write (count : Nat)
  | finish
  | fail
  deriving Repr, DecidableEq

/-- The items an event has the source peer send. -/
def PipeEvent.sent {α : Type} : PipeEvent α → List α
  | .send chunk => chunk
  | _ => []

section Pipe

variable {α : Type} (capacity : Nat)

/-- One event of one direction: the direction after it, and the copy's outcome when it returns. -/
def Pipe.step (pipe : Pipe α) : PipeEvent α → Option (Pipe α × Option Outcome)
  | .send chunk =>
      if pipe.sourceClosed then none
      else some ({ pipe with unread := pipe.unread ++ chunk }, none)
  | .close => some ({ pipe with sourceClosed := true }, none)
  | .read count =>
      if !pipe.readDone ∧ 0 < count ∧ count ≤ pipe.unread.length ∧
          pipe.buffer.length + count ≤ capacity then
        some ({ pipe with
          unread := pipe.unread.drop count
          buffer := pipe.buffer ++ pipe.unread.take count }, none)
      else none
  | .readEof =>
      if !pipe.readDone ∧ pipe.unread = [] ∧ pipe.sourceClosed then
        some ({ pipe with readDone := true }, none)
      else none
  | .write count =>
      if 0 < count ∧ count ≤ pipe.buffer.length then
        some ({ pipe with
          buffer := pipe.buffer.drop count
          delivered := pipe.delivered ++ pipe.buffer.take count }, none)
      else none
  | .finish =>
      if pipe.readDone ∧ pipe.buffer = [] then some (pipe, some (.done pipe.delivered.length))
      else none
  | .fail => some (pipe, some .failed)

/-- What holds of a direction whose source peer has sent `sent`. -/
structure Pipe.Invariant (sent : List α) (pipe : Pipe α) : Prop where
  /-- Delivered, buffered and unread items are the sent ones, in order. -/
  conserves : pipe.delivered ++ pipe.buffer ++ pipe.unread = sent
  /-- The copy never holds more than its buffer. -/
  bounded : pipe.buffer.length ≤ capacity
  /-- End of stream is read only after the source closed and everything before it was read. -/
  eofLast : pipe.readDone = true → pipe.sourceClosed = true ∧ pipe.unread = []

theorem Pipe.invariant_empty :
    Pipe.Invariant capacity [] (Pipe.empty : Pipe α) :=
  ⟨rfl, Nat.zero_le _, fun done => by cases done⟩

variable {capacity}

/-- Each event keeps the invariant, with what it sends appended. -/
theorem Pipe.Invariant.step
    {sent : List α}
    {pipe next : Pipe α}
    {event : PipeEvent α}
    {outcome : Option Outcome}
    (holds : Pipe.Invariant capacity sent pipe)
    (stepped : pipe.step capacity event = some (next, outcome)) :
    Pipe.Invariant capacity (sent ++ event.sent) next := by
  obtain ⟨conserves, bounded, eofLast⟩ := holds
  cases event with
  | send chunk =>
      simp only [Pipe.step] at stepped
      split at stepped
      · cases stepped
      · rename_i open_
        cases stepped
        refine ⟨?_, bounded, fun done => absurd (eofLast done).1 open_⟩
        simp only [PipeEvent.sent, ← conserves, List.append_assoc]
  | close =>
      cases stepped
      exact ⟨by simpa [PipeEvent.sent] using conserves, bounded,
        fun done => ⟨rfl, (eofLast done).2⟩⟩
  | read count =>
      simp only [Pipe.step] at stepped
      split at stepped
      · rename_i enabled
        obtain ⟨notDone, -, -, room⟩ := enabled
        cases stepped
        refine ⟨?_, ?_, fun done => absurd done (by simpa using notDone)⟩
        · simp only [PipeEvent.sent, List.append_nil, List.append_assoc, List.take_append_drop,
            ← conserves]
        · simp only [List.length_append, List.length_take]
          omega
      · cases stepped
  | readEof =>
      simp only [Pipe.step] at stepped
      split at stepped
      · rename_i enabled
        obtain ⟨-, drained, closed⟩ := enabled
        cases stepped
        exact ⟨by simpa [PipeEvent.sent] using conserves, bounded, fun _ => ⟨closed, drained⟩⟩
      · cases stepped
  | write count =>
      simp only [Pipe.step] at stepped
      split at stepped
      · cases stepped
        refine ⟨?_, ?_, eofLast⟩
        · simp only [PipeEvent.sent, List.append_nil, List.append_assoc, List.take_append_drop,
            ← conserves]
        · simp only [List.length_drop]
          omega
      · cases stepped
  | finish =>
      simp only [Pipe.step] at stepped
      split at stepped
      · cases stepped
        exact ⟨by simpa [PipeEvent.sent] using conserves, bounded, eofLast⟩
      · cases stepped
  | fail =>
      cases stepped
      exact ⟨by simpa [PipeEvent.sent] using conserves, bounded, eofLast⟩

/-- A copy that returns normally has delivered everything its source sent, and says how much. -/
theorem Pipe.Invariant.done_of_step
    {sent : List α}
    {pipe next : Pipe α}
    {event : PipeEvent α}
    {written : Nat}
    (holds : Pipe.Invariant capacity sent pipe)
    (stepped : pipe.step capacity event = some (next, some (.done written))) :
    next.delivered = sent ++ event.sent ∧ written = (sent ++ event.sent).length ∧
      next.sourceClosed = true := by
  cases event with
  | finish =>
      simp only [Pipe.step] at stepped
      split at stepped
      · rename_i enabled
        obtain ⟨done, empty⟩ := enabled
        cases stepped
        obtain ⟨closed, drained⟩ := holds.eofLast done
        have delivered : pipe.delivered = sent := by
          simpa [empty, drained] using holds.conserves
        exact ⟨by simpa [PipeEvent.sent] using delivered,
          by simp [PipeEvent.sent, delivered], closed⟩
      · cases stepped
  | send chunk =>
      simp only [Pipe.step] at stepped
      split at stepped <;> cases stepped
  | close => cases stepped
  | read count =>
      simp only [Pipe.step] at stepped
      split at stepped <;> cases stepped
  | readEof =>
      simp only [Pipe.step] at stepped
      split at stepped <;> cases stepped
  | write count =>
      simp only [Pipe.step] at stepped
      split at stepped <;> cases stepped
  | fail => cases stepped

end Pipe

/-! ## Both directions under `select!` -/

/-- The two directions of a relay. -/
inductive Side where
  | forward
  | backward
  deriving Repr, DecidableEq

/-- Both directions, and the copy that returned first with its outcome, once one has. -/
structure Duplex (α : Type) where
  forward : Pipe α
  backward : Pipe α
  ended : Option (Side × Outcome)

namespace Duplex

variable {α : Type}

/-- A relay that has just started. -/
def start : Duplex α :=
  ⟨Pipe.empty, Pipe.empty, none⟩

/-- One direction of a relay. -/
def pipe (relay : Duplex α) : Side → Pipe α
  | .forward => relay.forward
  | .backward => relay.backward

/-- Replace one direction, and record its copy's outcome if it returned. -/
def update (relay : Duplex α) : Side → Pipe α → Option Outcome → Duplex α
  | .forward, next, outcome => ⟨next, relay.backward, outcome.map (.forward, ·)⟩
  | .backward, next, outcome => ⟨relay.forward, next, outcome.map (.backward, ·)⟩

@[simp] theorem pipe_update_self (relay : Duplex α) (side : Side) (next : Pipe α)
    (outcome : Option Outcome) :
    (relay.update side next outcome).pipe side = next := by
  cases side <;> rfl

theorem pipe_update_other (relay : Duplex α) {side other : Side} (different : other ≠ side)
    (next : Pipe α) (outcome : Option Outcome) :
    (relay.update side next outcome).pipe other = relay.pipe other := by
  cases side <;> cases other
  all_goals first | rfl | exact absurd rfl different

@[simp] theorem ended_update (relay : Duplex α) (side : Side) (next : Pipe α)
    (outcome : Option Outcome) :
    (relay.update side next outcome).ended = outcome.map (side, ·) := by
  cases side <;> rfl

/-- One event on one side; nothing happens once a copy has returned and `select!` with it. -/
def step (capacity : Nat) (relay : Duplex α) (side : Side) (event : PipeEvent α) :
    Option (Duplex α) :=
  match relay.ended with
  | some _ => none
  | none =>
      ((relay.pipe side).step capacity event).map fun result =>
        relay.update side result.1 result.2

/-- A run of events, each on its side. -/
def run (capacity : Nat) (relay : Duplex α) (events : List (Side × PipeEvent α)) :
    Option (Duplex α) :=
  events.foldlM (fun relay event => relay.step capacity event.1 event.2) relay

/-- Everything the source peer of one side sends during a run, in order. -/
def sentOn (side : Side) (events : List (Side × PipeEvent α)) : List α :=
  (events.filter fun event => event.1 = side).flatMap fun event => event.2.sent

theorem sentOn_append_singleton (side : Side) (events : List (Side × PipeEvent α))
    (event : Side × PipeEvent α) :
    sentOn side (events ++ [event]) =
      sentOn side events ++ if event.1 = side then event.2.sent else [] := by
  by_cases same : event.1 = side <;> simp [sentOn, same]

/-- What holds of a relay after the events of `history`. -/
structure Invariant (capacity : Nat) (history : List (Side × PipeEvent α)) (relay : Duplex α) :
    Prop where
  pipes : ∀ side, Pipe.Invariant capacity (sentOn side history) (relay.pipe side)
  doneDelivered : ∀ side written, relay.ended = some (side, .done written) →
    (relay.pipe side).delivered = sentOn side history ∧
      written = (sentOn side history).length

variable {capacity : Nat}

theorem invariant_start :
    Invariant capacity [] (start : Duplex α) :=
  ⟨fun side => by cases side <;> exact Pipe.invariant_empty capacity,
    fun _ _ ended => by cases ended⟩

/-- One step keeps the invariant of the history extended by its event. -/
theorem Invariant.step
    {history : List (Side × PipeEvent α)}
    {relay next : Duplex α}
    (holds : Invariant capacity history relay)
    {side : Side}
    {event : PipeEvent α}
    (stepped : relay.step capacity side event = some next) :
    Invariant capacity (history ++ [(side, event)]) next := by
  unfold Duplex.step at stepped
  cases running : relay.ended with
  | some _ =>
      rw [running] at stepped
      cases stepped
  | none =>
      rw [running] at stepped
      obtain ⟨⟨pipe, outcome⟩, pipeStepped, rfl⟩ := Option.map_eq_some_iff.mp stepped
      have pipeHolds := (holds.pipes side).step pipeStepped
      refine ⟨fun other => ?_, fun finishedSide written finished => ?_⟩
      · rw [sentOn_append_singleton]
        by_cases same : other = side
        · subst same
          simpa using pipeHolds
        · -- The other direction is untouched, and its source sent nothing.
          rw [if_neg (Ne.symm same), List.append_nil, pipe_update_other relay same]
          exact holds.pipes other
      · -- Only the copy of this step can have returned.
        rw [ended_update] at finished
        cases outcome with
        | none => cases finished
        | some outcome =>
            simp only [Option.map_some, Option.some.injEq, Prod.mk.injEq] at finished
            obtain ⟨rfl, rfl⟩ := finished
            obtain ⟨delivered, count, -⟩ := (holds.pipes side).done_of_step pipeStepped
            rw [sentOn_append_singleton, if_pos rfl, pipe_update_self]
            exact ⟨delivered, count⟩

/-- A run of events keeps the invariant of the history extended by them. -/
theorem Invariant.run
    {history events : List (Side × PipeEvent α)}
    {relay final : Duplex α}
    (holds : Invariant capacity history relay)
    (ran : Duplex.run capacity relay events = some final) :
    Invariant capacity (history ++ events) final := by
  induction events generalizing history relay with
  | nil =>
      cases ran
      simpa using holds
  | cons event rest inductionHypothesis =>
      obtain ⟨middle, stepped, restRan⟩ := Option.bind_eq_some_iff.mp ran
      have extended := inductionHypothesis (holds.step stepped) restRan
      simpa using extended

/-- Once a copy has returned, `select!` has returned too: no event happens after it. -/
theorem step_of_ended
    {relay : Duplex α}
    (ended : relay.ended.isSome = true)
    (side : Side)
    (event : PipeEvent α) :
    relay.step capacity side event = none := by
  obtain ⟨finished, isEnded⟩ := Option.isSome_iff_exists.mp ended
  simp only [Duplex.step, isEnded]

/-- A run from a relay whose `select!` has returned has no event. -/
theorem run_of_ended
    {relay final : Duplex α}
    (ended : relay.ended.isSome = true)
    {events : List (Side × PipeEvent α)}
    (ran : Duplex.run capacity relay events = some final) :
    events = [] ∧ final = relay := by
  cases events with
  | nil =>
      cases ran
      exact ⟨rfl, rfl⟩
  | cons event rest =>
      obtain ⟨middle, stepped, -⟩ := Option.bind_eq_some_iff.mp ran
      have blocked : relay.step capacity event.1 event.2 = none :=
        step_of_ended ended event.1 event.2
      change relay.step capacity event.1 event.2 = some middle at stepped
      rw [blocked] at stepped
      cases stepped

/--
In every run of a relay, each direction has delivered a prefix of what its
source sent, holds the next items in its buffer (never more than its
capacity) and has the rest still unread; the copy that returned normally, if
one has, delivered all its source sent and returned that count.
-/
theorem run_conserves
    {events : List (Side × PipeEvent α)}
    {relay : Duplex α}
    (ran : Duplex.run capacity start events = some relay) :
    Invariant capacity events relay := by
  simpa using invariant_start.run ran

end Duplex

end NitroEncSvc.Relay
