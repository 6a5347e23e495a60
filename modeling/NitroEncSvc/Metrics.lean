import NitroEncSvc.Fleet
import NitroEncSvc.Interleaving

namespace NitroEncSvc

/-!
# The metrics of the running service (`telemetry/metrics.rs`)

`Metrics` holds a request counter and a latency histogram for each of
`encrypt` and `decrypt`, and the counter `dek_rotations`.  Each handler adds
one to its counter as it returns, under the attribute `status`: `success` on
its `200` path and `error` on each of its five other returns.
`rotation_task` adds one to `dek_rotations` each time `fetch_and_store`
returns `Ok`.  Nothing a handler or a background task reads depends on the
metrics, so they are kept beside the world: a metered world is a world with
its counters, and a metered step is a step of the world together with the
adds it makes (`meteredStep`).  The histograms record elapsed times, which the
model does not have, and are left out.

In every interleaving the counters then count what happened: the tasks a
handler answered, by the status of the answer
(`meteredRun_requests_eq_encard`), and the rotations that fetched a key
(`meteredRun_dekRotations`).
-/

open Json

/-- The attribute `status` of `success_attrs` and `error_attrs`. -/
inductive MetricStatus where
  | success
  | error
  deriving Repr, DecidableEq

/-- The counters of `Metrics`, each by the attribute it is added under. -/
structure Metrics where
  encryptRequests : MetricStatus → Nat
  decryptRequests : MetricStatus → Nat
  dekRotations : Nat

namespace Metrics

/-- `Metrics::new`: every counter at zero. -/
def new : Metrics :=
  ⟨fun _ => 0, fun _ => 0, 0⟩

/-- The request counter of a handler. -/
def requests (metrics : Metrics) : Handler → MetricStatus → Nat
  | .encrypt => metrics.encryptRequests
  | .decrypt => metrics.decryptRequests

/-- `add(1, &attrs)` on the request counter of a handler. -/
def addRequest (metrics : Metrics) (handler : Handler) (status : MetricStatus) : Metrics :=
  match handler with
  | .encrypt =>
      { metrics with
        encryptRequests :=
          Function.update metrics.encryptRequests status (metrics.encryptRequests status + 1) }
  | .decrypt =>
      { metrics with
        decryptRequests :=
          Function.update metrics.decryptRequests status (metrics.decryptRequests status + 1) }

@[simp] theorem requests_new
    (handler : Handler)
    (status : MetricStatus) :
    new.requests handler status = 0 := by
  cases handler <;> rfl

@[simp] theorem requests_addRequest
    (metrics : Metrics)
    (added handler : Handler)
    (addedStatus status : MetricStatus) :
    (metrics.addRequest added addedStatus).requests handler status =
      metrics.requests handler status + if added = handler ∧ addedStatus = status then 1 else 0 := by
  cases added <;> cases handler <;> by_cases same : addedStatus = status <;>
    simp [addRequest, requests, same, eq_comm]

@[simp] theorem dekRotations_addRequest
    (metrics : Metrics)
    (handler : Handler)
    (status : MetricStatus) :
    (metrics.addRequest handler status).dekRotations = metrics.dekRotations := by
  cases handler <;> rfl

/-- The request counter add of a step, when it makes one. -/
def addRequested (metrics : Metrics) : Option (Handler × MetricStatus) → Metrics
  | some (handler, status) => metrics.addRequest handler status
  | none => metrics

/-- `dek_rotations.add(1, &[])`, when the step makes it. -/
def addRotation (metrics : Metrics) (added : Bool) : Metrics :=
  if added then { metrics with dekRotations := metrics.dekRotations + 1 } else metrics

@[simp] theorem requests_addRequested
    (metrics : Metrics)
    (added : Option (Handler × MetricStatus))
    (handler : Handler)
    (status : MetricStatus) :
    (metrics.addRequested added).requests handler status =
      metrics.requests handler status + if added = some (handler, status) then 1 else 0 := by
  cases added with
  | none => simp [addRequested]
  | some entry =>
      obtain ⟨added, addedStatus⟩ := entry
      simp [addRequested]

@[simp] theorem dekRotations_addRequested
    (metrics : Metrics)
    (added : Option (Handler × MetricStatus)) :
    (metrics.addRequested added).dekRotations = metrics.dekRotations := by
  cases added with
  | none => rfl
  | some entry => exact dekRotations_addRequest metrics entry.1 entry.2

@[simp] theorem requests_addRotation
    (metrics : Metrics)
    (added : Bool)
    (handler : Handler)
    (status : MetricStatus) :
    (metrics.addRotation added).requests handler status = metrics.requests handler status := by
  cases added <;> cases handler <;> rfl

@[simp] theorem dekRotations_addRotation
    (metrics : Metrics)
    (added : Bool) :
    (metrics.addRotation added).dekRotations = metrics.dekRotations + if added then 1 else 0 := by
  cases added <;> rfl

end Metrics

/-! ## Where the adds are made -/

/-- The attribute a handler adds its counter under after its `await`: `error` without a key or when the traversal fails. -/
def resumeStatus (transform : Value → PiiFieldPaths → List UInt8 → Except CipherError Value)
    (dekStore : DekStore) (cached : CachedSchema) (payload : Value) : MetricStatus :=
  match dekStore.current with
  | .error _ => .error
  | .ok dek =>
      match transform payload cached.piiPaths dek.bytes.toList with
      | .error _ => .error
      | .ok _ => .success

/-- The add of a dispatch: a handler that returns before its `await` adds under `error`. -/
def dispatchAdded (state : AppState) (request : Request) : Option (Handler × MetricStatus) :=
  match route request.method request.path with
  | .endpoint (.transform handler) =>
      match lookUp state request.headers with
      | .error _ => some (handler, .error)
      | .ok _ => none
  | _ => none

section Record

variable (prims : Primitives) (order : (paths : PiiFieldPaths) → IterationOrder paths)

/-- The request counter a step adds one to, with its attribute. -/
def requestAdded (world : World) : WorldEvent → Option (Handler × MetricStatus)
  | .dispatch task =>
      match world.tasks task with
      | .arrived request => dispatchAdded world.shared request
      | _ => none
  | .resume task =>
      match world.tasks task with
      | .awaitingKey request handler cached =>
          some (handler, resumeStatus (handler.transform prims order) world.shared.dekStore cached
            request.payload)
      | _ => none
  | _ => none

/-- Whether a step is a tick of `rotation_task` whose `fetch_and_store` returns `Ok`. -/
def rotationAdded (cfg : Config) (world : World) : WorldEvent → Bool
  | .background (.rotateDek aws) => (fetchAndStore aws cfg world.shared.dekStore).1.isOk
  | _ => false

/-- The adds of a step: one to a request counter, one to `dek_rotations`. -/
def Metrics.record (cfg : Config) (world : World) (metrics : Metrics) (event : WorldEvent) :
    Metrics :=
  (metrics.addRequested (requestAdded prims order world event)).addRotation
    (rotationAdded cfg world event)

end Record

/-- A world of the service with its counters. -/
structure MeteredWorld where
  world : World
  metrics : Metrics

section Steps

variable (prims : Primitives) (order : (paths : PiiFieldPaths) → IterationOrder paths)
  (parsers : OpenApiParsers) (cfg : Config) (fuel : Nat)

/-- A step of the world, with the adds it makes to the counters. -/
def meteredStep (metered : MeteredWorld) (event : WorldEvent) : Option MeteredWorld :=
  (worldStep prims order parsers cfg fuel metered.world event).map fun next =>
    ⟨next, metered.metrics.record prims order cfg metered.world event⟩

/-- A sequence of steps, in order. -/
def meteredRun (metered : MeteredWorld) (events : List WorldEvent) : Option MeteredWorld :=
  events.foldlM (meteredStep prims order parsers cfg fuel) metered

end Steps

/-! ## What the counters count -/

/-- The attribute an answer is counted under: `success` for a `200`. -/
def MetricStatus.ofResponse (response : Response) : MetricStatus :=
  if response.status = .ok then .success else .error

/-- Whether a task holds a handler's answer, with the attribute it is counted under. -/
def TaskState.countedAs (handler : Handler) (status : MetricStatus) : TaskState → Bool
  | .answered request (.handled response) =>
      route request.method request.path == .endpoint (.transform handler) &&
        MetricStatus.ofResponse response == status
  | _ => false

/-- The tasks of a world that a handler answered, with the attribute of their answer. -/
def World.countedTasks (world : World) (handler : Handler) (status : MetricStatus) : Set Nat :=
  Fleet.holders world.tasks fun task => task.countedAs handler status = true

theorem World.setTask_tasks_eq_update
    (world : World)
    (task : Nat)
    (next : TaskState) :
    (world.setTask task next).tasks = Function.update world.tasks task next := by
  funext other
  rw [World.setTask_tasks, Function.update_apply]

/-- The attribute added after the `await` is the one of the status the handler answers with. -/
theorem ofResponse_resumeWith
    (transform : Value → PiiFieldPaths → List UInt8 → Except CipherError Value)
    (failureMessage : String)
    (dekStore : DekStore)
    (cached : CachedSchema)
    (payload : Value) :
    MetricStatus.ofResponse (resumeWith transform failureMessage dekStore cached payload) =
      resumeStatus transform dekStore cached payload := by
  unfold resumeWith resumeStatus
  cases dekStore.current with
  | error _ => rfl
  | ok dek =>
      dsimp only
      cases transform payload cached.piiPaths dek.bytes.toList with
      | error _ => rfl
      | ok _ => rfl

/-- The answers before the `await` are all `400`s, counted under `error`. -/
theorem ofResponse_of_lookUp_eq_error
    {state : AppState}
    {headers : HeaderMap}
    {response : Response}
    (failed : lookUp state headers = .error response) :
    MetricStatus.ofResponse response = .error := by
  unfold lookUp at failed
  cases named : schemaNameOf state headers with
  | error early =>
      rw [named] at failed
      cases failed
      obtain ⟨message, rfl⟩ := schemaNameOf_eq_error named
      rfl
  | ok name =>
      rw [named] at failed
      dsimp only at failed
      cases found : state.schemaCache.get name with
      | error _ =>
          rw [found] at failed
          cases failed
          rfl
      | ok cached =>
          rw [found] at failed
          cases failed

/-- A dispatch leaves its task counted exactly when the handler returns before its `await`. -/
theorem countedAs_dispatched_iff
    (state : AppState)
    (request : Request)
    (handler : Handler)
    (status : MetricStatus) :
    (dispatched state request).countedAs handler status = true ↔
      dispatchAdded state request = some (handler, status) := by
  unfold dispatched dispatchAdded
  cases routed : route request.method request.path with
  | endpoint endpoint =>
      cases endpoint with
      | transform routedTo =>
          dsimp only
          cases looked : lookUp state request.headers with
          | error response =>
              simp [TaskState.countedAs, routed, ofResponse_of_lookUp_eq_error looked]
          | ok cached =>
              simp [TaskState.countedAs]
      | health =>
          simp [TaskState.countedAs]
  | methodNotAllowed =>
      simp [TaskState.countedAs]
  | fallback =>
      simp [TaskState.countedAs, routed]

/-- A task answered by the handler it was routed to is counted under its answer's attribute. -/
theorem countedAs_answered_iff
    {request : Request}
    {routedTo : Handler}
    (routed : route request.method request.path = .endpoint (.transform routedTo))
    (response : Response)
    (handler : Handler)
    (status : MetricStatus) :
    (TaskState.answered request (.handled response)).countedAs handler status = true ↔
      some (routedTo, MetricStatus.ofResponse response) = some (handler, status) := by
  simp [TaskState.countedAs, routed]

section Step

variable {prims : Primitives} {order : (paths : PiiFieldPaths) → IterationOrder paths}
  {parsers : OpenApiParsers} {cfg : Config} {schemaHeaderName : String} {fuel : Nat}
  {world next : World} {event : WorldEvent}

/--
What a step does to the counted tasks: a tick or an arrival changes none and
adds to no request counter; a dispatch or a resume moves one uncounted task to
a state that is counted exactly under the add it makes.
-/
theorem countedAs_step_cases
    (holds : WorldInvariant prims order schemaHeaderName fuel world)
    (stepped : worldStep prims order parsers cfg fuel world event = some next) :
    (next.tasks = world.tasks ∧ requestAdded prims order world event = none) ∨
      ∃ task after, next.tasks = Function.update world.tasks task after ∧
        (∀ handler status, (world.tasks task).countedAs handler status = false) ∧
        ∀ handler status, after.countedAs handler status = true ↔
          requestAdded prims order world event = some (handler, status) := by
  cases event with
  | background tick =>
      have ticked : (step parsers cfg fuel world.shared tick).map
          (fun shared => { world with shared }) = some next := stepped
      obtain ⟨shared, -, rfl⟩ := Option.map_eq_some_iff.mp ticked
      exact .inl ⟨rfl, rfl⟩
  | arrive task request =>
      simp only [worldStep] at stepped
      cases taskState : world.tasks task with
      | idle =>
          rw [taskState] at stepped
          cases stepped
          refine .inr ⟨task, .arrived request, World.setTask_tasks_eq_update _ _ _,
            fun _ _ => by rw [taskState]; rfl, fun _ _ => ?_⟩
          simp [TaskState.countedAs, requestAdded]
      | _ =>
          rw [taskState] at stepped
          cases stepped
  | dispatch task =>
      simp only [worldStep] at stepped
      cases taskState : world.tasks task with
      | arrived request =>
          rw [taskState] at stepped
          cases stepped
          refine .inr ⟨task, dispatched world.shared request, World.setTask_tasks_eq_update _ _ _,
            fun _ _ => by rw [taskState]; rfl, fun handler status => ?_⟩
          simp only [requestAdded, taskState]
          exact countedAs_dispatched_iff world.shared request handler status
      | _ =>
          rw [taskState] at stepped
          cases stepped
  | resume task =>
      simp only [worldStep] at stepped
      have taskHolds := holds.tasks task
      cases taskState : world.tasks task with
      | awaitingKey request routedTo cached =>
          rw [taskState] at stepped taskHolds
          cases stepped
          refine .inr ⟨task, _, World.setTask_tasks_eq_update _ _ _,
            fun _ _ => by rw [taskState]; rfl, fun handler status => ?_⟩
          -- The task was routed to the handler it resumes, as its invariant says.
          simp only [requestAdded, taskState]
          rw [countedAs_answered_iff taskHolds.1, ofResponse_resumeWith]
      | awaitingCount request dekReady =>
          rw [taskState] at stepped taskHolds
          cases stepped
          refine .inr ⟨task, _, World.setTask_tasks_eq_update _ _ _,
            fun _ _ => by rw [taskState]; rfl, fun _ _ => ?_⟩
          -- `health` is no handler with a counter.
          simp [TaskState.countedAs, requestAdded, taskState, taskHolds.1]
      | _ =>
          rw [taskState] at stepped
          cases stepped

/-- A step adds one counted task under exactly the attribute it adds to the counter. -/
theorem encard_countedTasks_step
    (holds : WorldInvariant prims order schemaHeaderName fuel world)
    (stepped : worldStep prims order parsers cfg fuel world event = some next)
    (handler : Handler)
    (status : MetricStatus) :
    (next.countedTasks handler status).encard =
      (world.countedTasks handler status).encard +
        if requestAdded prims order world event = some (handler, status) then 1 else 0 := by
  rcases countedAs_step_cases holds stepped with ⟨same, none⟩ | ⟨task, after, moved, outside, counted⟩
  · simp [World.countedTasks, same, none]
  · have notCounted : ¬ (world.tasks task).countedAs handler status = true := by
      simp [outside handler status]
    rw [World.countedTasks, moved, Fleet.encard_holders_update notCounted after]
    simp only [World.countedTasks, counted]

end Step

section Counters

variable {prims : Primitives} {order : (paths : PiiFieldPaths) → IterationOrder paths}
  {cfg : Config}

theorem requests_record
    (metrics : Metrics)
    (world : World)
    (event : WorldEvent)
    (handler : Handler)
    (status : MetricStatus) :
    (metrics.record prims order cfg world event).requests handler status =
      metrics.requests handler status +
        if requestAdded prims order world event = some (handler, status) then 1 else 0 := by
  simp [Metrics.record]

end Counters

/-! ## Whole runs -/

section Runs

variable {prims : Primitives} {order : (paths : PiiFieldPaths) → IterationOrder paths}
  {parsers : OpenApiParsers} {cfg : Config} {schemaHeaderName : String} {fuel : Nat}

theorem meteredRun_cons
    (metered : MeteredWorld)
    (event : WorldEvent)
    (rest : List WorldEvent) :
    meteredRun prims order parsers cfg fuel metered (event :: rest) =
      (meteredStep prims order parsers cfg fuel metered event).bind fun middle =>
        meteredRun prims order parsers cfg fuel middle rest :=
  rfl

/-- A metered step is a step of the world with the counters of `Metrics.record`. -/
theorem meteredStep_eq_some
    {metered middle : MeteredWorld}
    {event : WorldEvent}
    (stepped : meteredStep prims order parsers cfg fuel metered event = some middle) :
    worldStep prims order parsers cfg fuel metered.world event = some middle.world ∧
      middle.metrics = metered.metrics.record prims order cfg metered.world event := by
  obtain ⟨next, worldStepped, rfl⟩ := Option.map_eq_some_iff.mp stepped
  exact ⟨worldStepped, rfl⟩

/--
From a reachable world whose counters count its answered tasks, every metered
run keeps the counters counting them.
-/
theorem meteredRun_counts
    {metered final : MeteredWorld}
    {events : List WorldEvent}
    (reachable : WorldReachable prims order parsers cfg fuel schemaHeaderName metered.world)
    (counts : ∀ handler status,
      (metered.world.countedTasks handler status).encard = metered.metrics.requests handler status)
    (ran : meteredRun prims order parsers cfg fuel metered events = some final)
    (handler : Handler)
    (status : MetricStatus) :
    (final.world.countedTasks handler status).encard = final.metrics.requests handler status := by
  induction events generalizing metered with
  | nil =>
      cases ran
      exact counts handler status
  | cons event rest inductionHypothesis =>
      obtain ⟨middle, stepped, ranRest⟩ := Option.bind_eq_some_iff.mp ran
      obtain ⟨worldStepped, recorded⟩ := meteredStep_eq_some stepped
      refine inductionHypothesis (reachable.step worldStepped) (fun handler status => ?_) ranRest
      -- The step adds one counted task under the attribute it adds one to the counter under.
      rw [encard_countedTasks_step reachable.worldInvariant worldStepped, recorded,
        requests_record, counts, Nat.cast_add]
      split <;> simp

/--
In every interleaving of requests with the background tasks, from the start
of the service with `Metrics::new`, the request counter of each handler
under each attribute is the number of tasks that handler answered with a
status of that attribute: every answer is counted once, under `success`
exactly for a `200`.
-/
theorem meteredRun_requests_eq_encard
    {aws : AwsClients}
    {state : AppState}
    {events : List WorldEvent}
    {final : MeteredWorld}
    (started : startup aws parsers cfg schemaHeaderName fuel = some (.ok state))
    (ran : meteredRun prims order parsers cfg fuel ⟨⟨state, fun _ => .idle⟩, .new⟩ events =
      some final)
    (handler : Handler)
    (status : MetricStatus) :
    (final.world.countedTasks handler status).encard = final.metrics.requests handler status := by
  have counts : ∀ handler status,
      ((⟨state, fun _ => .idle⟩ : World).countedTasks handler status).encard =
        Metrics.new.requests handler status := by
    intro handler status
    rw [World.countedTasks, Fleet.holders_const (by simp [TaskState.countedAs])]
    simp
  exact meteredRun_counts (.start started) counts ran handler status

/-- An encryption request without the schema header. -/
def headerlessEncryptRequest : Request :=
  ⟨.post, "/encrypt", [], orderPayload⟩

/-- A health check and a request without the header, served around a key rotation. -/
def meteredOrderRun : List WorldEvent :=
  [.arrive 0 headerlessEncryptRequest, .arrive 1 healthRequest, .dispatch 1,
    .background (.rotateDek orderAws), .dispatch 0, .resume 1]

/-- The order service with its counters after `meteredOrderRun`. -/
def meteredOrderWorld : MeteredWorld :=
  (meteredRun Primitives.sample IterationOrder.ascending orderParsers sampleConfig 4
    ⟨⟨orderState, fun _ => .idle⟩, .new⟩ meteredOrderRun).getD ⟨⟨orderState, fun _ => .idle⟩, .new⟩

theorem meteredRun_requests_eq_encard_headerless :
    (meteredOrderWorld.world.countedTasks .encrypt .error).encard = 1 := by
  have ran : meteredRun Primitives.sample IterationOrder.ascending orderParsers sampleConfig 4
      ⟨⟨orderState, fun _ => .idle⟩, .new⟩ meteredOrderRun = some meteredOrderWorld := rfl
  have counted : meteredOrderWorld.metrics.requests .encrypt .error = 1 := rfl
  rw [meteredRun_requests_eq_encard
    (show startup orderAws orderParsers sampleConfig "X-Schema-Name" 4 = some (.ok orderState)
      from rfl) ran, counted, Nat.cast_one]

end Runs

end NitroEncSvc
