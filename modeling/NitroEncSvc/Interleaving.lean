import NitroEncSvc.Router
import NitroEncSvc.Service

namespace NitroEncSvc

/-!
# Requests interleaved with the background tasks (`server/handlers.rs`)

Every handler that reads the shared state reads it twice.  `encrypt` and
`decrypt` read the schema cache (`SchemaCache::get`, a load of the map behind
the `ArcSwap`) before their only `await`, and the key (`DekStore::current`,
under the read lock) after it; `health` reads whether a key is stored, then
the count of cached schemas.  On the multi-threaded runtime the rotation and
refresh tasks can swap the key or the cache between the two reads, and any
number of requests are in flight.

A request's task is modelled by where it stands between its two reads; the
world is the shared state with the task of every number, and a run interleaves
the arrival, the dispatch and the resumption of every task with the ticks of
the background tasks.  Each read and each swap is atomic, as the `ArcSwap` and
the `RwLock` make them.

The reply of a task may combine a cache and a key that were never current
together.  It is still the router's reply on a state that satisfies the
service invariant, because each part of the invariant is a fact about the key
alone or the cache alone: every guarantee of the running service holds of
every interleaving.
-/

open Json

/-! ## The handler, split at its `await` -/

/-- The handler up to its `await`: the header and the cache lookup, or the early answer. -/
def lookUp (state : AppState) (headers : HeaderMap) : Except Response CachedSchema :=
  match schemaNameOf state headers with
  | .error response => .error response
  | .ok schemaName =>
      match state.schemaCache.get schemaName with
      | .error _ => .error (badRequest ("unknown schema: " ++ schemaName))
      | .ok cached => .ok cached

/-- The handler after its `await`: the key, then the traversal. -/
def resumeWith (transform : Value → PiiFieldPaths → List UInt8 → Except CipherError Value)
    (failureMessage : String) (dekStore : DekStore) (cached : CachedSchema) (payload : Value) :
    Response :=
  match dekStore.current with
  | .error _ => ⟨.serviceUnavailable, .error ⟨"service_unavailable", "DEK not yet initialised"⟩⟩
  | .ok dek =>
      match transform payload cached.piiPaths dek.bytes.toList with
      | .error _ => ⟨.internalServerError, .error ⟨"internal_error", failureMessage⟩⟩
      | .ok transformed => ⟨.ok, .payload transformed⟩

section Split

variable {transform : Value → PiiFieldPaths → List UInt8 → Except CipherError Value}
  {failureMessage : String} {state : AppState} {headers : HeaderMap} {payload : Value}

/-- The two halves, run one after the other on one state, are the handler. -/
theorem transformPayload_eq_lookUp :
    transformPayload transform failureMessage state headers payload =
      match lookUp state headers with
      | .error response => response
      | .ok cached => resumeWith transform failureMessage state.dekStore cached payload := by
  unfold transformPayload lookUp
  cases schemaNameOf state headers with
  | error response => rfl
  | ok name =>
      dsimp only
      cases state.schemaCache.get name with
      | error _ => rfl
      | ok cached => rfl

/-- The lookup reads the cache and the header name, never the key. -/
@[simp] theorem lookUp_with_dekStore
    (store : DekStore) :
    lookUp { state with dekStore := store } headers = lookUp state headers :=
  rfl

end Split

/-- `health` after its read of the key: the count of cached schemas decides. -/
def healthWith (dekReady : Bool) (schemasLoaded : Nat) : Response :=
  if dekReady && 0 < schemasLoaded then
    ⟨.ok, .health ⟨"ok", dekReady, schemasLoaded⟩⟩
  else
    ⟨.serviceUnavailable, .health ⟨"degraded", dekReady, schemasLoaded⟩⟩

/-- The two reads of `health`, made on one state, are `health`. -/
theorem health_eq_healthWith
    (state : AppState) :
    health state = healthWith state.dekStore.isReady state.schemaCache.len :=
  rfl

/-! ## The world -/

/-- A request: its method, its path, its headers and its parsed payload. -/
structure Request where
  method : Method
  path : String
  headers : HeaderMap
  payload : Value

section Reply

variable (prims : Primitives) (order : (paths : PiiFieldPaths) → IterationOrder paths)

/-- The router's reply to a request on one state. -/
def Request.reply (request : Request) (state : AppState) : Reply :=
  serve prims order state request.method request.path request.headers request.payload

/-- A request routed to a handler is that handler's answer. -/
theorem Request.reply_of_transform
    {request : Request}
    {handler : Handler}
    (routed : route request.method request.path = .endpoint (.transform handler))
    (state : AppState) :
    request.reply prims order state =
      .handled (handler.answer prims order state request.headers request.payload) := by
  simp only [Request.reply, serve, routed]

/-- A request routed to `health` is `health`'s answer. -/
theorem Request.reply_of_health
    {request : Request}
    (routed : route request.method request.path = .endpoint .health)
    (state : AppState) :
    request.reply prims order state = .handled (health state) := by
  simp only [Request.reply, serve, routed]

end Reply

/-- Where the task of a request stands. -/
inductive TaskState where
  | idle
  | arrived (request : Request)
  | awaitingKey (request : Request) (handler : Handler) (cached : CachedSchema)
  | awaitingCount (request : Request) (dekReady : Bool)
  | answered (request : Request) (reply : Reply)

/-- The router's dispatch, and the handler up to its first read of the shared state. -/
def dispatched (state : AppState) (request : Request) : TaskState :=
  match route request.method request.path with
  | .endpoint (.transform handler) =>
      match lookUp state request.headers with
      | .error response => .answered request (.handled response)
      | .ok cached => .awaitingKey request handler cached
  | .endpoint .health => .awaitingCount request state.dekStore.isReady
  | .methodNotAllowed => .answered request .methodNotAllowed
  | .fallback => .answered request (.handled notFound)

/-- The shared state, and the task of every number. -/
structure World where
  shared : AppState
  tasks : Nat → TaskState

/-- Change the state of one task. -/
def World.setTask (world : World) (task : Nat) (next : TaskState) : World :=
  { world with tasks := fun other => if other = task then next else world.tasks other }

@[simp] theorem World.setTask_shared
    (world : World) (task : Nat) (next : TaskState) :
    (world.setTask task next).shared = world.shared :=
  rfl

theorem World.setTask_tasks
    (world : World) (task : Nat) (next : TaskState) (other : Nat) :
    (world.setTask task next).tasks other = if other = task then next else world.tasks other :=
  rfl

/-- What can happen next: a background tick, or a step of one task. -/
inductive WorldEvent where
  | background (event : Event)
  | arrive (task : Nat) (request : Request)
  | dispatch (task : Nat)
  | resume (task : Nat)

section Steps

variable (prims : Primitives) (order : (paths : PiiFieldPaths) → IterationOrder paths)
  (parsers : OpenApiParsers) (cfg : Config) (fuel : Nat)

/-- One step of the world; `none` when the event is not enabled. -/
def worldStep (world : World) : WorldEvent → Option World
  | .background event =>
      (step parsers cfg fuel world.shared event).map fun shared => { world with shared }
  | .arrive task request =>
      match world.tasks task with
      | .idle => some (world.setTask task (.arrived request))
      | _ => none
  | .dispatch task =>
      match world.tasks task with
      | .arrived request => some (world.setTask task (dispatched world.shared request))
      | _ => none
  | .resume task =>
      match world.tasks task with
      | .awaitingKey request handler cached =>
          some (world.setTask task (.answered request (.handled
            (resumeWith (handler.transform prims order) handler.failureMessage
              world.shared.dekStore cached request.payload))))
      | .awaitingCount request dekReady =>
          some (world.setTask task (.answered request (.handled
            (healthWith dekReady world.shared.schemaCache.len))))
      | _ => none

/-- The worlds of a running service: a successful startup with no task started, then any steps. -/
inductive WorldReachable (schemaHeaderName : String) : World → Prop
  | start {aws : AwsClients} {state : AppState} :
      startup aws parsers cfg schemaHeaderName fuel = some (.ok state) →
      WorldReachable schemaHeaderName ⟨state, fun _ => .idle⟩
  | step {world next : World} {event : WorldEvent} :
      WorldReachable schemaHeaderName world →
      worldStep prims order parsers cfg fuel world event = some next →
      WorldReachable schemaHeaderName next

end Steps

/-! ## The invariant of the world -/

section Invariant

variable (prims : Primitives) (order : (paths : PiiFieldPaths) → IterationOrder paths)
  (schemaHeaderName : String) (fuel : Nat)

/--
What a task keeps of the snapshots it took: a task between its reads holds
what a state with the invariant gave it, and an answered task holds the
router's reply on a state with the invariant.
-/
def TaskInvariant : TaskState → Prop
  | .idle => True
  | .arrived _ => True
  | .awaitingKey request handler cached =>
      route request.method request.path = .endpoint (.transform handler) ∧
        ∃ seen : AppState, ServiceInvariant schemaHeaderName fuel seen ∧
          lookUp seen request.headers = .ok cached
  | .awaitingCount request dekReady =>
      route request.method request.path = .endpoint .health ∧ dekReady = true
  | .answered request reply =>
      ∃ mixed : AppState, ServiceInvariant schemaHeaderName fuel mixed ∧
        reply = request.reply prims order mixed

/-- The shared state keeps the service invariant, and every task its own. -/
structure WorldInvariant (world : World) : Prop where
  shared : ServiceInvariant schemaHeaderName fuel world.shared
  tasks : ∀ task, TaskInvariant prims order schemaHeaderName fuel (world.tasks task)

end Invariant

section Preservation

variable {prims : Primitives} {order : (paths : PiiFieldPaths) → IterationOrder paths}
  {parsers : OpenApiParsers} {cfg : Config} {schemaHeaderName : String} {fuel : Nat}
  {world next : World}

/-- Setting one task to a state with its invariant keeps the world's. -/
theorem WorldInvariant.setTask
    (holds : WorldInvariant prims order schemaHeaderName fuel world)
    {task : Nat}
    {state : TaskState}
    (taskHolds : TaskInvariant prims order schemaHeaderName fuel state) :
    WorldInvariant prims order schemaHeaderName fuel (world.setTask task state) := by
  refine ⟨holds.shared, fun other => ?_⟩
  rw [World.setTask_tasks]
  split
  · exact taskHolds
  · exact holds.tasks other

/-- A dispatch on a state with the invariant leaves its task with its invariant. -/
theorem taskInvariant_dispatched
    (prims : Primitives)
    (order : (paths : PiiFieldPaths) → IterationOrder paths)
    {seen : AppState}
    (holds : ServiceInvariant schemaHeaderName fuel seen)
    (request : Request) :
    TaskInvariant prims order schemaHeaderName fuel (dispatched seen request) := by
  unfold dispatched
  cases routed : route request.method request.path with
  | endpoint endpoint =>
      cases endpoint with
      | transform handler =>
          dsimp only
          cases looked : lookUp seen request.headers with
          | error response =>
              -- An early answer is the handler's answer on the state it looked at.
              refine ⟨seen, holds, ?_⟩
              rw [Request.reply_of_transform prims order routed, Handler.answer,
                transformPayload_eq_lookUp, looked]
          | ok cached =>
              exact ⟨routed, seen, holds, looked⟩
      | health =>
          exact ⟨routed, holds.dekReady⟩
  | methodNotAllowed =>
      exact ⟨seen, holds, by simp only [Request.reply, serve, routed]⟩
  | fallback =>
      exact ⟨seen, holds, by simp only [Request.reply, serve, routed]⟩

/--
Resuming on the key of a state with the invariant answers as the handler would
on the cache the task looked at together with that key.
-/
theorem taskInvariant_resume_key
    {request : Request}
    {handler : Handler}
    {cached : CachedSchema}
    (waiting : TaskInvariant prims order schemaHeaderName fuel (.awaitingKey request handler cached))
    {current : AppState}
    (holds : ServiceInvariant schemaHeaderName fuel current) :
    TaskInvariant prims order schemaHeaderName fuel (.answered request (.handled
      (resumeWith (handler.transform prims order) handler.failureMessage
        current.dekStore cached request.payload))) := by
  obtain ⟨routed, seen, seenHolds, looked⟩ := waiting
  -- The cache and header of the lookup, the key of the resumption.
  let mixed : AppState := { seen with dekStore := current.dekStore }
  have mixedHolds : ServiceInvariant schemaHeaderName fuel mixed :=
    ⟨holds.dekReady, seenHolds.headerName, seenHolds.cacheResolved⟩
  refine ⟨mixed, mixedHolds, ?_⟩
  rw [Request.reply_of_transform prims order routed, Handler.answer, transformPayload_eq_lookUp,
    lookUp_with_dekStore, looked]

/-- Resuming `health` on a state with the invariant answers as `health` on that state. -/
theorem taskInvariant_resume_count
    {request : Request}
    {dekReady : Bool}
    (waiting : TaskInvariant prims order schemaHeaderName fuel (.awaitingCount request dekReady))
    {current : AppState}
    (holds : ServiceInvariant schemaHeaderName fuel current) :
    TaskInvariant prims order schemaHeaderName fuel (.answered request (.handled
      (healthWith dekReady current.schemaCache.len))) := by
  obtain ⟨routed, rfl⟩ := waiting
  -- The key was ready when read, and is ready in every state with the invariant.
  refine ⟨current, holds, ?_⟩
  rw [Request.reply_of_health prims order routed, health_eq_healthWith, holds.dekReady]

/-- Every step of the world keeps its invariant. -/
theorem worldInvariant_step
    (holds : WorldInvariant prims order schemaHeaderName fuel world)
    {event : WorldEvent}
    (stepped : worldStep prims order parsers cfg fuel world event = some next) :
    WorldInvariant prims order schemaHeaderName fuel next := by
  cases event with
  | background event =>
      -- A tick changes the shared state only, and keeps its invariant.
      have ticked : (step parsers cfg fuel world.shared event).map
          (fun shared => { world with shared }) = some next := stepped
      obtain ⟨shared, tickedShared, rfl⟩ := Option.map_eq_some_iff.mp ticked
      exact ⟨serviceInvariant_step holds.shared tickedShared, holds.tasks⟩
  | arrive task request =>
      simp only [worldStep] at stepped
      cases taskState : world.tasks task with
      | idle =>
          rw [taskState] at stepped
          cases stepped
          exact holds.setTask trivial
      | _ =>
          rw [taskState] at stepped
          cases stepped
  | dispatch task =>
      simp only [worldStep] at stepped
      cases taskState : world.tasks task with
      | arrived request =>
          rw [taskState] at stepped
          cases stepped
          exact holds.setTask (taskInvariant_dispatched prims order holds.shared request)
      | _ =>
          rw [taskState] at stepped
          cases stepped
  | resume task =>
      simp only [worldStep] at stepped
      have taskHolds := holds.tasks task
      cases taskState : world.tasks task with
      | awaitingKey request handler cached =>
          rw [taskState] at stepped taskHolds
          cases stepped
          exact holds.setTask (taskInvariant_resume_key taskHolds holds.shared)
      | awaitingCount request dekReady =>
          rw [taskState] at stepped taskHolds
          cases stepped
          exact holds.setTask (taskInvariant_resume_count taskHolds holds.shared)
      | _ =>
          rw [taskState] at stepped
          cases stepped

/-- Every world of a running service satisfies the invariant. -/
theorem WorldReachable.worldInvariant
    (reachable : WorldReachable prims order parsers cfg fuel schemaHeaderName world) :
    WorldInvariant prims order schemaHeaderName fuel world := by
  induction reachable with
  | start started =>
      exact ⟨serviceInvariant_startup started, fun _ => trivial⟩
  | step _ stepped inductionHypothesis =>
      exact worldInvariant_step inductionHypothesis stepped

end Preservation

/-! ## A request served alone -/

section Alone

variable {prims : Primitives} {order : (paths : PiiFieldPaths) → IterationOrder paths}
  {parsers : OpenApiParsers} {cfg : Config} {schemaHeaderName : String} {fuel : Nat}
  {world : World}

/-- What a dispatch leaves: the reply on its state, or the second read still to make. -/
theorem dispatched_cases
    (prims : Primitives)
    (order : (paths : PiiFieldPaths) → IterationOrder paths)
    (state : AppState)
    (request : Request) :
    dispatched state request = .answered request (request.reply prims order state) ∨
      (∃ handler cached, dispatched state request = .awaitingKey request handler cached ∧
        request.reply prims order state = .handled (resumeWith (handler.transform prims order)
          handler.failureMessage state.dekStore cached request.payload)) ∨
      (dispatched state request = .awaitingCount request state.dekStore.isReady ∧
        request.reply prims order state =
          .handled (healthWith state.dekStore.isReady state.schemaCache.len)) := by
  unfold dispatched
  cases routed : route request.method request.path with
  | endpoint endpoint =>
      cases endpoint with
      | transform handler =>
          dsimp only
          rw [Request.reply_of_transform prims order routed, Handler.answer,
            transformPayload_eq_lookUp]
          cases looked : lookUp state request.headers with
          | error response => exact .inl rfl
          | ok cached => exact .inr (.inl ⟨handler, cached, rfl, rfl⟩)
      | health =>
          rw [Request.reply_of_health prims order routed, health_eq_healthWith]
          exact .inr (.inr ⟨rfl, rfl⟩)
  | methodNotAllowed =>
      exact .inl (by simp only [Request.reply, serve, routed])
  | fallback =>
      exact .inl (by simp only [Request.reply, serve, routed])

/--
A request that arrives at an idle task and is served with no other step in
between gets the router's reply on the current state: the interleaved service
can do all the sequential one does.
-/
theorem WorldReachable.answer_alone
    (reachable : WorldReachable prims order parsers cfg fuel schemaHeaderName world)
    {task : Nat}
    (idle : world.tasks task = .idle)
    (request : Request) :
    ∃ next, WorldReachable prims order parsers cfg fuel schemaHeaderName next ∧
      next.tasks task = .answered request (request.reply prims order world.shared) := by
  have arrive : worldStep prims order parsers cfg fuel world (.arrive task request) =
      some (world.setTask task (.arrived request)) := by
    simp only [worldStep, idle]
  have dispatch : worldStep prims order parsers cfg fuel (world.setTask task (.arrived request))
      (.dispatch task) = some ((world.setTask task (.arrived request)).setTask task
        (dispatched world.shared request)) := by
    simp only [worldStep, World.setTask_tasks, ↓reduceIte, World.setTask_shared]
  have reachedDispatch := (reachable.step arrive).step dispatch
  rcases dispatched_cases prims order world.shared request with
    answered | ⟨handler, cached, waiting, replied⟩ | ⟨waiting, replied⟩
  · exact ⟨_, reachedDispatch, by simp only [World.setTask_tasks, ↓reduceIte, answered]⟩
  · -- The task resumes on the key of the same state.
    have resume : worldStep prims order parsers cfg fuel
        ((world.setTask task (.arrived request)).setTask task (dispatched world.shared request))
        (.resume task) = some (((world.setTask task (.arrived request)).setTask task
          (dispatched world.shared request)).setTask task (.answered request (.handled
            (resumeWith (handler.transform prims order) handler.failureMessage
              world.shared.dekStore cached request.payload)))) := by
      simp only [worldStep, World.setTask_tasks, ↓reduceIte, waiting, World.setTask_shared]
    exact ⟨_, reachedDispatch.step resume,
      by simp only [World.setTask_tasks, ↓reduceIte, replied]⟩
  · -- `health` counts the schemas of the same state.
    have resume : worldStep prims order parsers cfg fuel
        ((world.setTask task (.arrived request)).setTask task (dispatched world.shared request))
        (.resume task) = some (((world.setTask task (.arrived request)).setTask task
          (dispatched world.shared request)).setTask task (.answered request (.handled
            (healthWith world.shared.dekStore.isReady world.shared.schemaCache.len)))) := by
      simp only [worldStep, World.setTask_tasks, ↓reduceIte, waiting, World.setTask_shared]
    exact ⟨_, reachedDispatch.step resume,
      by simp only [World.setTask_tasks, ↓reduceIte, replied]⟩

end Alone

/-! ## Requests to the order service -/

/-- A health check. -/
def healthRequest : Request :=
  ⟨.get, "/health", [], .null⟩

section OneState

variable {prims : Primitives} {order : (paths : PiiFieldPaths) → IterationOrder paths}
  {schemaHeaderName : String} {fuel : Nat} {state : AppState}

/--
On a state with the invariant, the router answers `503` only to a health
check, when no schema is cached.
-/
theorem reply_eq_serviceUnavailable
    (holds : ServiceInvariant schemaHeaderName fuel state)
    {request : Request}
    {response : Response}
    (replied : request.reply prims order state = .handled response)
    (unavailable : response.status = .serviceUnavailable) :
    route request.method request.path = .endpoint .health ∧
      response = ⟨.serviceUnavailable, .health ⟨"degraded", true, 0⟩⟩ := by
  cases routed : route request.method request.path with
  | endpoint endpoint =>
      cases endpoint with
      | transform handler =>
          rw [Request.reply_of_transform prims order routed, Reply.handled.injEq] at replied
          subst replied
          exact absurd unavailable (transformPayload_status_ne_serviceUnavailable holds.dekReady)
      | health =>
          rw [Request.reply_of_health prims order routed, Reply.handled.injEq] at replied
          subst replied
          refine ⟨rfl, ?_⟩
          -- With the key ready, `health` is degraded only with an empty cache.
          have empty : state.schemaCache.len = 0 := by
            by_contra nonempty
            have healthy := (health_status_eq_ok_iff state).mpr
              ⟨holds.dekReady, Nat.pos_of_ne_zero nonempty⟩
            rw [unavailable] at healthy
            cases healthy
          simp [health_eq_healthWith, healthWith, holds.dekReady, empty]
  | methodNotAllowed =>
      simp only [Request.reply, serve, routed, reduceCtorEq] at replied
  | fallback =>
      simp only [Request.reply, serve, routed, Reply.handled.injEq] at replied
      subst replied
      cases unavailable

end OneState

/-! ## What every interleaving answers -/

section Answers

variable {prims : Primitives} {order : (paths : PiiFieldPaths) → IterationOrder paths}
  {parsers : OpenApiParsers} {cfg : Config} {schemaHeaderName : String} {fuel : Nat}
  {world : World}

/--
In every interleaving, the running service answers `503` only to a health
check that found no schema cached: never to `encrypt` or `decrypt`, whatever
the background tasks swap between a request's two reads.
-/
theorem WorldReachable.serviceUnavailable_only_health
    (reachable : WorldReachable prims order parsers cfg fuel schemaHeaderName world)
    {task : Nat}
    {request : Request}
    {response : Response}
    (answered : world.tasks task = .answered request (.handled response))
    (unavailable : response.status = .serviceUnavailable) :
    route request.method request.path = .endpoint .health ∧
      response = ⟨.serviceUnavailable, .health ⟨"degraded", true, 0⟩⟩ := by
  have taskHolds := reachable.worldInvariant.tasks task
  rw [answered] at taskHolds
  obtain ⟨mixed, holds, replied⟩ := taskHolds
  exact reply_eq_serviceUnavailable holds replied.symm unavailable

theorem serviceUnavailable_only_health_emptyListing :
    route healthRequest.method healthRequest.path = .endpoint .health ∧
      (⟨.serviceUnavailable, .health ⟨"degraded", true, 0⟩⟩ : Response) =
        ⟨.serviceUnavailable, .health ⟨"degraded", true, 0⟩⟩ := by
  -- An empty listing: the service starts with the key and no schema.
  have started : WorldReachable Primitives.sample IterationOrder.ascending orderParsers
      sampleConfig 4 "X-Schema-Name" ⟨{ orderState with schemaCache := SchemaCache.new },
        fun _ => .idle⟩ :=
    .start (show startup { orderAws with s3 := ⟨fun _ _ => some [], fun _ _ => .sendFailed⟩ }
      orderParsers sampleConfig "X-Schema-Name" 4 =
        some (.ok { orderState with schemaCache := SchemaCache.new }) from rfl)
  obtain ⟨world, reachable, answered⟩ := started.answer_alone
    (show (⟨{ orderState with schemaCache := SchemaCache.new }, fun _ => .idle⟩ : World).tasks 0 =
      .idle from rfl) healthRequest
  have degraded : healthRequest.reply Primitives.sample IterationOrder.ascending
      { orderState with schemaCache := SchemaCache.new } =
        .handled ⟨.serviceUnavailable, .health ⟨"degraded", true, 0⟩⟩ := by
    decide
  exact WorldReachable.serviceUnavailable_only_health reachable
    (answered.trans (congrArg (TaskState.answered healthRequest) degraded)) rfl

end Answers

end NitroEncSvc
