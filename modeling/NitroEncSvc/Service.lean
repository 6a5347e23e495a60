import NitroEncSvc.Coverage
import NitroEncSvc.Handlers

namespace NitroEncSvc

/-!
# The running service (`main.rs`, `dek/mod.rs`, `schema/mod.rs`)

`main` validates the configuration, fetches the DEK (a secret from Secrets
Manager, decrypted by KMS) into an empty `DekStore`, loads every schema from
S3 into an empty `SchemaCache`, and only then serves requests; any failure on
the way ends the process.  Two background tasks then change the shared state:
each tick of `rotation_task` fetches the DEK again and keeps the previous key
when that fails, and each tick of `refresh_task` runs `load_all` again and
keeps the previous cache when that fails.  Requests only read the state.

The AWS clients are code outside the repository, and what they answer may
change from one call to the next: every fetch takes the answers of its moment
as an argument.  The bridges, telemetry and TLS setup that `main` also runs
change none of this state and are left out; so is the header name's place in
`Config`, which `startup` takes as its own argument.

`resolve_pii_paths` runs with the bound on its depth that the model of the
loader takes (`fuel`): a document that needs more makes the loader give
`none`, the state in which the real task never returns.
-/

open Json

/-- What `get_secret_value` gives for a secret id. -/
inductive SecretValueOutput where
  | sendFailed
  | noBinary
  | binary (bytes : List UInt8)
  deriving Repr, DecidableEq

/-- What KMS `decrypt` gives for a key id and a ciphertext blob. -/
inductive DecryptOutput where
  | sendFailed
  | noPlaintext
  | plaintext (bytes : List UInt8)
  deriving Repr, DecidableEq

/-- `AwsClients`: the three clients as the service calls them. -/
structure AwsClients where
  getSecretValue : String → SecretValueOutput
  decrypt : String → List UInt8 → DecryptOutput
  s3 : S3Client

/-- The failures of `fetch_and_store`, one for each `?` of its body. -/
inductive FetchError where
  | secretFetchFailed
  | secretNotBinary
  | kmsDecryptFailed
  | noPlaintext
  | storeFailed (error : DekError)
  deriving Repr, DecidableEq

/-- The context each failure carries. -/
def FetchError.message : FetchError → String
  | .secretFetchFailed => "failed to fetch DEK from Secrets Manager"
  | .secretNotBinary => "DEK secret must be stored as binary in Secrets Manager"
  | .kmsDecryptFailed => "failed to decrypt DEK via KMS"
  | .noPlaintext => "KMS decrypt response contained no plaintext"
  | .storeFailed _ => "failed to store decrypted DEK (unexpected key length)"

/-- `fetch_and_store`: fetch the secret, decrypt it with KMS and store the plaintext. -/
def fetchAndStore (aws : AwsClients) (cfg : Config) (store : DekStore) :
    Except FetchError Unit × DekStore :=
  match aws.getSecretValue cfg.secretArn with
  | .sendFailed => (.error .secretFetchFailed, store)
  | .noBinary => (.error .secretNotBinary, store)
  | .binary ciphertext =>
      match aws.decrypt cfg.kmsKeyId ciphertext with
      | .sendFailed => (.error .kmsDecryptFailed, store)
      | .noPlaintext => (.error .noPlaintext, store)
      | .plaintext plaintext =>
          match store.store plaintext with
          | (.ok (), stored) => (.ok (), stored)
          | (.error error, stored) => (.error (.storeFailed error), stored)

/-- Why startup ends the process. -/
inductive StartupError where
  | config (message : String)
  | dek (error : FetchError)
  | schemas (error : LoadError)
  deriving Repr, DecidableEq

/--
Steps 1, 5 and 6 of `main`, and the state it serves with: `none` when the
resolver needs more than `fuel` nested calls on some document.
-/
def startup (aws : AwsClients) (parsers : OpenApiParsers) (cfg : Config)
    (schemaHeaderName : String) (fuel : Nat) : Option (Except StartupError AppState) :=
  match cfg.validate with
  | .error message => some (.error (.config message))
  | .ok () =>
      match fetchAndStore aws cfg DekStore.new with
      | (.error failure, _) => some (.error (.dek failure))
      | (.ok (), dekStore) =>
          (loadAll aws.s3 parsers cfg fuel SchemaCache.new).map fun loaded =>
            match loaded with
            | (.error failure, _) => .error (.schemas failure)
            | (.ok (), schemaCache) => .ok ⟨dekStore, schemaCache, schemaHeaderName⟩

/-- One iteration of the loop of `rotation_task`: the previous key stays when the fetch fails. -/
def rotationTick (aws : AwsClients) (cfg : Config) (state : AppState) : AppState :=
  { state with dekStore := (fetchAndStore aws cfg state.dekStore).2 }

/-- One iteration of the loop of `refresh_task`: the previous cache stays when the load fails. -/
def refreshTick (aws : AwsClients) (parsers : OpenApiParsers) (cfg : Config) (fuel : Nat)
    (state : AppState) : Option AppState :=
  (loadAll aws.s3 parsers cfg fuel state.schemaCache).map fun loaded =>
    { state with schemaCache := loaded.2 }

/-- A tick of one of the background tasks, with the AWS answers of its moment. -/
inductive Event where
  | rotateDek (aws : AwsClients)
  | refreshSchemas (aws : AwsClients)

/-- What an event does to the shared state. -/
def step (parsers : OpenApiParsers) (cfg : Config) (fuel : Nat) (state : AppState) :
    Event → Option AppState
  | .rotateDek aws => some (rotationTick aws cfg state)
  | .refreshSchemas aws => refreshTick aws parsers cfg fuel state

/-- A sequence of events, in order. -/
def run (parsers : OpenApiParsers) (cfg : Config) (fuel : Nat) (state : AppState)
    (events : List Event) : Option AppState :=
  events.foldlM (step parsers cfg fuel) state

/-- The states the service serves with: a successful startup, then any events. -/
inductive Reachable (parsers : OpenApiParsers) (cfg : Config) (schemaHeaderName : String)
    (fuel : Nat) : AppState → Prop
  | start {aws : AwsClients} {state : AppState} :
      startup aws parsers cfg schemaHeaderName fuel = some (.ok state) →
      Reachable parsers cfg schemaHeaderName fuel state
  | step {state next : AppState} {event : Event} :
      Reachable parsers cfg schemaHeaderName fuel state →
      NitroEncSvc.step parsers cfg fuel state event = some next →
      Reachable parsers cfg schemaHeaderName fuel next

/-- AWS answers under which the service starts: the key of sevens, and one schema object. -/
def orderAws : AwsClients :=
  ⟨fun _ => .binary [1], fun _ _ => .plaintext (List.replicate keyLen 7),
    ⟨fun _ _ => some [⟨some "schemas/order.yaml"⟩], fun _ _ => .body []⟩⟩

/-- Parsers that read every text as `orderDocument`. -/
def orderParsers : OpenApiParsers :=
  ⟨fun _ => some orderDocument, fun _ => none⟩

/-- The order schema as the cache holds it, with the paths the resolver finds. -/
def orderCached : CachedSchema :=
  ⟨orderDocument, {"cards[].number"}⟩

/-- The state the service starts in under `orderAws`. -/
def orderState : AppState :=
  ⟨⟨some ⟨Vector.replicate keyLen 7⟩⟩,
    ⟨(∅ : AList fun _ : String => CachedSchema).insert "order" orderCached⟩, "X-Schema-Name"⟩

example : startup orderAws orderParsers sampleConfig "X-Schema-Name" 4 = some (.ok orderState) := by
  rfl

/-! ## Fetching the key -/

section Fetch

variable {aws : AwsClients} {cfg : Config} {store : DekStore}

/--
What a fetch can do: fail and leave the store as it was, or store the
plaintext KMS gave for the secret, which has the length of a key.
-/
theorem fetchAndStore_cases
    (aws : AwsClients) (cfg : Config) (store : DekStore) :
    (∃ failure, fetchAndStore aws cfg store = (.error failure, store)) ∨
      ∃ ciphertext plaintext, aws.getSecretValue cfg.secretArn = .binary ciphertext ∧
        aws.decrypt cfg.kmsKeyId ciphertext = .plaintext plaintext ∧
        plaintext.length = keyLen ∧
        fetchAndStore aws cfg store = (.ok (), (store.store plaintext).2) := by
  unfold fetchAndStore
  cases secret : aws.getSecretValue cfg.secretArn with
  | sendFailed => exact .inl ⟨_, rfl⟩
  | noBinary => exact .inl ⟨_, rfl⟩
  | binary ciphertext =>
      dsimp only
      cases decrypted : aws.decrypt cfg.kmsKeyId ciphertext with
      | sendFailed => exact .inl ⟨_, rfl⟩
      | noPlaintext => exact .inl ⟨_, rfl⟩
      | plaintext plaintext =>
          dsimp only
          by_cases lengthOk : plaintext.length = keyLen
          · obtain ⟨stored, _⟩ := store.current_store_of_length lengthOk
            refine .inr ⟨ciphertext, plaintext, rfl, decrypted, lengthOk, ?_⟩
            rcases storing : store.store plaintext with ⟨result, after⟩
            rw [storing] at stored
            obtain rfl : result = .ok () := stored
            rfl
          · -- Key material of the wrong length is refused, and the store kept.
            rw [store.store_of_length_ne lengthOk]
            exact .inl ⟨_, rfl⟩

/-- A failed fetch leaves the store as it was: the previous key is retained. -/
theorem fetchAndStore_of_error
    {failure : FetchError}
    (failed : (fetchAndStore aws cfg store).1 = .error failure) :
    (fetchAndStore aws cfg store).2 = store := by
  rcases fetchAndStore_cases aws cfg store with ⟨_, fetched⟩ | ⟨_, _, _, _, _, fetched⟩
  · rw [fetched]
  · rw [fetched] at failed
    cases failed

/-- A successful fetch stores exactly the plaintext KMS gave for the secret. -/
theorem fetchAndStore_of_ok
    (succeeded : (fetchAndStore aws cfg store).1 = .ok ()) :
    ∃ ciphertext plaintext, aws.getSecretValue cfg.secretArn = .binary ciphertext ∧
      aws.decrypt cfg.kmsKeyId ciphertext = .plaintext plaintext ∧
      (fun dek => dek.bytes.toList) <$> (fetchAndStore aws cfg store).2.current = .ok plaintext := by
  rcases fetchAndStore_cases aws cfg store with ⟨_, fetched⟩ | ⟨ciphertext, plaintext, secret,
    decrypted, lengthOk, fetched⟩
  · rw [fetched] at succeeded
    cases succeeded
  · rw [fetched]
    exact ⟨ciphertext, plaintext, secret, decrypted, (store.current_store_of_length lengthOk).2⟩

/-- A ready store stays ready through a fetch, and a successful fetch makes it ready. -/
theorem isReady_fetchAndStore
    (readyOrStored : store.isReady = true ∨ (fetchAndStore aws cfg store).1 = .ok ()) :
    (fetchAndStore aws cfg store).2.isReady = true := by
  rcases fetchAndStore_cases aws cfg store with ⟨_, fetched⟩ | ⟨_, plaintext, _, _, lengthOk,
    fetched⟩
  · rw [fetched] at readyOrStored ⊢
    rcases readyOrStored with ready | stored
    · exact ready
    · cases stored
  · rw [fetched]
    exact store.isReady_store_of_length lengthOk

end Fetch

/-! ## Loading the schemas into the cache -/

section Load

variable {s3 : S3Client} {parsers : OpenApiParsers} {cfg : Config} {fuel : Nat}

/-- Every entry of a cache holds the paths resolved, within `fuel`, from its document. -/
def CacheResolved (fuel : Nat) (cache : SchemaCache) : Prop :=
  ∀ name cached, cache.get name = .ok cached → resolvePiiPaths cached.api fuel = some cached.piiPaths

/-- The cache `replace_all` builds holds, under each name, the paths resolved from its document. -/
theorem cacheResolved_replaceAll
    {schemas : SchemaMap}
    {cache : SchemaCache}
    (replaced : SchemaCache.replaceAll fuel schemas = some cache) :
    CacheResolved fuel cache := by
  intro name cached found
  have entry := SchemaCache.lookup_replaceAll replaced name
  cases named : schemas.lookup name with
  | none =>
      rw [named, found] at entry
      cases entry
  | some api =>
      rw [named] at entry
      obtain ⟨piiPaths, resolved, present⟩ := entry
      rw [found] at present
      cases present
      exact resolved

/-- A load, failed or not, keeps every entry of the cache resolved. -/
theorem cacheResolved_loadAll
    {cache next : SchemaCache}
    {result : Except LoadError Unit}
    (loaded : loadAll s3 parsers cfg fuel cache = some (result, next))
    (resolvedBefore : CacheResolved fuel cache) :
    CacheResolved fuel next := by
  rcases loadAll_cases loaded with ⟨rfl, -⟩ | ⟨-, schemas, -, replaced⟩
  · exact resolvedBefore
  · exact cacheResolved_replaceAll replaced

end Load

/-! ## Startup and the background tasks -/

section Transitions

variable {aws : AwsClients} {parsers : OpenApiParsers} {cfg : Config} {schemaHeaderName : String}
  {fuel : Nat}

/-- The service starts only with a valid configuration, a stored key and a loaded cache. -/
theorem startup_eq_ok
    {state : AppState}
    (started : startup aws parsers cfg schemaHeaderName fuel = some (.ok state)) :
    cfg.validate = .ok () ∧ (fetchAndStore aws cfg DekStore.new).1 = .ok () ∧
      state.dekStore = (fetchAndStore aws cfg DekStore.new).2 ∧
      loadAll aws.s3 parsers cfg fuel SchemaCache.new = some (.ok (), state.schemaCache) ∧
      state.schemaHeaderName = schemaHeaderName := by
  unfold startup at started
  cases valid : cfg.validate with
  | error message =>
      rw [valid] at started
      cases started
  | ok _ =>
      rw [valid] at started
      rcases fetched : fetchAndStore aws cfg DekStore.new with ⟨_ | _, dekStore⟩
      · rw [fetched] at started
        cases started
      · rw [fetched] at started
        obtain ⟨loaded, loadedSome, answer⟩ := Option.map_eq_some_iff.mp started
        rcases loaded with ⟨_ | _, schemaCache⟩
        · cases answer
        · cases answer
          exact ⟨rfl, rfl, rfl, loadedSome, rfl⟩

/-- A refresh swaps the cache and nothing else; a failed one keeps the state. -/
theorem refreshTick_eq_some
    {state next : AppState}
    (refreshed : refreshTick aws parsers cfg fuel state = some next) :
    next.dekStore = state.dekStore ∧ next.schemaHeaderName = state.schemaHeaderName ∧
      ∃ result, loadAll aws.s3 parsers cfg fuel state.schemaCache =
        some (result, next.schemaCache) := by
  obtain ⟨⟨result, cache⟩, loaded, rfl⟩ := Option.map_eq_some_iff.mp refreshed
  exact ⟨rfl, rfl, result, loaded⟩

/-- A rotation whose fetch fails leaves the state as it was. -/
theorem rotationTick_of_error
    {state : AppState}
    {failure : FetchError}
    (failed : (fetchAndStore aws cfg state.dekStore).1 = .error failure) :
    rotationTick aws cfg state = state := by
  unfold rotationTick
  rw [fetchAndStore_of_error failed]

/-- A refresh whose load fails leaves the state as it was. -/
theorem refreshTick_of_error
    {state : AppState}
    {failure : LoadError}
    {cache : SchemaCache}
    (failed : loadAll aws.s3 parsers cfg fuel state.schemaCache = some (.error failure, cache)) :
    refreshTick aws parsers cfg fuel state = some state := by
  rcases loadAll_cases failed with ⟨rfl, -⟩ | ⟨wrong, -⟩
  · unfold refreshTick
    rw [failed]
    rfl
  · cases wrong

end Transitions

/-! ## The invariant of the running service -/

/--
What holds of every state the service serves with: the key is loaded, the
header name is the configured one, and every cached schema holds the paths
resolved from its document.
-/
structure ServiceInvariant (schemaHeaderName : String) (fuel : Nat) (state : AppState) :
    Prop where
  dekReady : state.dekStore.isReady = true
  headerName : state.schemaHeaderName = schemaHeaderName
  cacheResolved : CacheResolved fuel state.schemaCache

section Invariant

variable {aws : AwsClients} {parsers : OpenApiParsers} {cfg : Config} {schemaHeaderName : String}
  {fuel : Nat} {state next : AppState}

/-- The invariant holds when the service starts serving. -/
theorem serviceInvariant_startup
    (started : startup aws parsers cfg schemaHeaderName fuel = some (.ok state)) :
    ServiceInvariant schemaHeaderName fuel state := by
  obtain ⟨-, fetched, dekStore, loaded, headerName⟩ := startup_eq_ok started
  have emptyResolved : CacheResolved fuel SchemaCache.new := by
    intro name cached found
    cases found
  refine ⟨?_, headerName, cacheResolved_loadAll loaded emptyResolved⟩
  rw [dekStore]
  exact isReady_fetchAndStore (.inr fetched)

/-- Each event keeps the invariant. -/
theorem serviceInvariant_step
    (holds : ServiceInvariant schemaHeaderName fuel state)
    {event : Event}
    (stepped : step parsers cfg fuel state event = some next) :
    ServiceInvariant schemaHeaderName fuel next := by
  cases event with
  | rotateDek aws =>
      cases stepped
      exact ⟨isReady_fetchAndStore (.inl holds.dekReady), holds.headerName, holds.cacheResolved⟩
  | refreshSchemas aws =>
      obtain ⟨sameKey, sameHeader, result, loaded⟩ := refreshTick_eq_some stepped
      refine ⟨?_, sameHeader.trans holds.headerName, cacheResolved_loadAll loaded
        holds.cacheResolved⟩
      rw [sameKey]
      exact holds.dekReady

/-- Every state the service serves with satisfies the invariant. -/
theorem Reachable.serviceInvariant
    (reachable : Reachable parsers cfg schemaHeaderName fuel state) :
    ServiceInvariant schemaHeaderName fuel state := by
  induction reachable with
  | start started =>
      exact serviceInvariant_startup started
  | step _ stepped inductionHypothesis =>
      exact serviceInvariant_step inductionHypothesis stepped

/-- The states reached by running events from a served state are served states. -/
theorem Reachable.run
    {events : List Event}
    (reachable : Reachable parsers cfg schemaHeaderName fuel state)
    (ran : NitroEncSvc.run parsers cfg fuel state events = some next) :
    Reachable parsers cfg schemaHeaderName fuel next := by
  induction events generalizing state with
  | nil =>
      cases ran
      exact reachable
  | cons event rest inductionHypothesis =>
      obtain ⟨middle, stepped, restRan⟩ := Option.bind_eq_some_iff.mp ran
      exact inductionHypothesis (reachable.step stepped) restRan

end Invariant

/-! ## What a run leaves -/

/-- The key material a tick stores: the plaintext of a rotation whose fetch succeeds. -/
def Event.fetchedKey (cfg : Config) : Event → Option (List UInt8)
  | .rotateDek aws =>
      match aws.getSecretValue cfg.secretArn with
      | .binary ciphertext =>
          match aws.decrypt cfg.kmsKeyId ciphertext with
          | .plaintext plaintext => if plaintext.length = keyLen then some plaintext else none
          | _ => none
      | _ => none
  | .refreshSchemas _ => none

/-- The cache a tick swaps in: the one a refresh whose load succeeds builds. -/
def Event.loadedCache (parsers : OpenApiParsers) (cfg : Config) (fuel : Nat) :
    Event → Option SchemaCache
  | .rotateDek _ => none
  | .refreshSchemas aws =>
      match loadSchemas aws.s3 parsers cfg with
      | .ok schemas => SchemaCache.replaceAll fuel schemas
      | .error _ => none

section History

variable {parsers : OpenApiParsers} {cfg : Config} {fuel : Nat} {state next : AppState}

/-- The bytes of the key a store returns. -/
def keyBytes (store : DekStore) : Except DekError (List UInt8) :=
  (fun dek => dek.bytes.toList) <$> store.current

/-- A fetch stores the key of a successful rotation and otherwise keeps the store. -/
theorem fetchAndStore_snd
    (aws : AwsClients) (cfg : Config) (store : DekStore) :
    (fetchAndStore aws cfg store).2 =
      ((Event.rotateDek aws).fetchedKey cfg).elim store fun key => (store.store key).2 := by
  unfold fetchAndStore Event.fetchedKey
  dsimp only
  cases aws.getSecretValue cfg.secretArn with
  | sendFailed => rfl
  | noBinary => rfl
  | binary ciphertext =>
      dsimp only
      cases aws.decrypt cfg.kmsKeyId ciphertext with
      | sendFailed => rfl
      | noPlaintext => rfl
      | plaintext plaintext =>
          dsimp only
          by_cases lengthOk : plaintext.length = keyLen
          · rw [if_pos lengthOk]
            show _ = (store.store plaintext).2
            rcases store.store plaintext with ⟨_ | _, stored⟩ <;> rfl
          · rw [if_neg lengthOk, store.store_of_length_ne lengthOk]
            rfl

/-- The key material of a successful rotation has the length of a key. -/
theorem length_of_fetchedKey
    {event : Event}
    {key : List UInt8}
    (fetched : event.fetchedKey cfg = some key) :
    key.length = keyLen := by
  cases event with
  | refreshSchemas aws =>
      cases fetched
  | rotateDek aws =>
      simp only [Event.fetchedKey] at fetched
      split at fetched
      · split at fetched
        · rename_i plaintext _
          by_cases lengthOk : plaintext.length = keyLen
          · rw [if_pos lengthOk] at fetched
            cases fetched
            exact lengthOk
          · rw [if_neg lengthOk] at fetched
            cases fetched
        · cases fetched
      · cases fetched

/-- One tick replaces the key exactly when it is a rotation whose fetch succeeds. -/
theorem keyBytes_step
    {event : Event}
    (stepped : step parsers cfg fuel state event = some next) :
    keyBytes next.dekStore = match event.fetchedKey cfg with
      | some key => .ok key
      | none => keyBytes state.dekStore := by
  cases event with
  | rotateDek aws =>
      cases stepped
      show keyBytes (fetchAndStore aws cfg state.dekStore).2 = _
      rw [fetchAndStore_snd]
      cases fetched : (Event.rotateDek aws).fetchedKey cfg with
      | none => rfl
      | some key =>
          exact (state.dekStore.current_store_of_length (length_of_fetchedKey fetched)).2
  | refreshSchemas aws =>
      rw [(refreshTick_eq_some stepped).1]
      rfl

/-- One tick replaces the cache exactly when it is a refresh whose load succeeds. -/
theorem schemaCache_step
    {event : Event}
    (stepped : step parsers cfg fuel state event = some next) :
    next.schemaCache = (event.loadedCache parsers cfg fuel).getD state.schemaCache := by
  cases event with
  | rotateDek aws =>
      cases stepped
      rfl
  | refreshSchemas aws =>
      obtain ⟨-, -, result, loaded⟩ := refreshTick_eq_some stepped
      simp only [Event.loadedCache]
      rcases loadAll_cases loaded with ⟨kept, _, -, failed⟩ | ⟨-, schemas, listed, replaced⟩
      · rw [failed]
        exact kept
      · rw [listed]
        dsimp only
        rw [replaced]
        rfl

/-- No tick changes the header name. -/
theorem schemaHeaderName_step
    {event : Event}
    (stepped : step parsers cfg fuel state event = some next) :
    next.schemaHeaderName = state.schemaHeaderName := by
  cases event with
  | rotateDek aws =>
      cases stepped
      rfl
  | refreshSchemas aws =>
      exact (refreshTick_eq_some stepped).2.1

/--
After any run of ticks, the key is the one the last successful rotation
fetched and the cache the one the last successful refresh built; failed ticks
leave no trace, and where no tick of a kind succeeded the state keeps its own.
-/
theorem run_eq_last_success
    {events : List Event}
    (ran : run parsers cfg fuel state events = some next) :
    keyBytes next.dekStore =
        (match events.reverse.findSome? (Event.fetchedKey cfg) with
        | some key => .ok key
        | none => keyBytes state.dekStore) ∧
      next.schemaCache =
        (events.reverse.findSome? (Event.loadedCache parsers cfg fuel)).getD state.schemaCache ∧
      next.schemaHeaderName = state.schemaHeaderName := by
  -- Induction on the run from its first tick; the last success is found from the end.
  induction events generalizing state with
  | nil =>
      cases ran
      exact ⟨rfl, rfl, rfl⟩
  | cons event rest inductionHypothesis =>
      obtain ⟨middle, stepped, restRan⟩ := Option.bind_eq_some_iff.mp ran
      obtain ⟨restKey, restCache, restHeader⟩ := inductionHypothesis restRan
      simp only [List.reverse_cons, List.findSome?_append, List.findSome?_cons,
        List.findSome?_nil]
      refine ⟨?_, ?_, restHeader.trans (schemaHeaderName_step stepped)⟩
      · rw [restKey]
        cases rest.reverse.findSome? (Event.fetchedKey cfg) with
        | some key => rfl
        | none =>
            rw [keyBytes_step stepped]
            cases event.fetchedKey cfg <;> rfl
      · rw [restCache]
        cases rest.reverse.findSome? (Event.loadedCache parsers cfg fuel) with
        | some cache => rfl
        | none =>
            rw [schemaCache_step stepped]
            cases event.loadedCache parsers cfg fuel <;> rfl

/-- The order service after one rotation under `orderAws`. -/
def rotatedOrderState : AppState :=
  (run orderParsers sampleConfig 4 orderState [.rotateDek orderAws]).getD orderState

/-- The rotation leaves the key it fetched, and the cache and header name as they were. -/
theorem run_eq_last_success_rotation :
    keyBytes rotatedOrderState.dekStore =
        (match [Event.rotateDek orderAws].reverse.findSome? (Event.fetchedKey sampleConfig) with
        | some key => .ok key
        | none => keyBytes orderState.dekStore) ∧
      rotatedOrderState.schemaCache =
        ([Event.rotateDek orderAws].reverse.findSome?
          (Event.loadedCache orderParsers sampleConfig 4)).getD orderState.schemaCache ∧
      rotatedOrderState.schemaHeaderName = orderState.schemaHeaderName :=
  run_eq_last_success (show run orderParsers sampleConfig 4 orderState [.rotateDek orderAws] =
    some rotatedOrderState from rfl)

end History

/-- The states the service serves with are those its startup and a run of ticks reach. -/
theorem reachable_iff_run
    {parsers : OpenApiParsers} {cfg : Config} {schemaHeaderName : String} {fuel : Nat}
    {state : AppState} :
    Reachable parsers cfg schemaHeaderName fuel state ↔
      ∃ aws start events, startup aws parsers cfg schemaHeaderName fuel = some (.ok start) ∧
        run parsers cfg fuel start events = some state := by
  constructor
  · intro reachable
    induction reachable with
    | @start aws state started =>
        exact ⟨aws, state, [], started, rfl⟩
    | @step state next event _ stepped inductionHypothesis =>
        obtain ⟨aws, start, events, started, ran⟩ := inductionHypothesis
        refine ⟨aws, start, events ++ [event], started, ?_⟩
        unfold run
        rw [List.foldlM_append]
        exact Option.bind_eq_some_iff.mpr ⟨state, ran, by simpa using stepped⟩
  · rintro ⟨aws, start, events, started, ran⟩
    exact (Reachable.start started).run ran

/-! ## What a running service answers -/

namespace ServiceInvariant

variable {schemaHeaderName : String} {fuel : Nat} {state : AppState}

/-- A state with the invariant has a key for every request. -/
theorem exists_current
    (holds : ServiceInvariant schemaHeaderName fuel state) :
    ∃ dek, state.dekStore.current = .ok dek :=
  ExceptList.eq_ok_of_isOk
    ((DekStore.isReady_eq_isOk_current state.dekStore).symm.trans holds.dekReady)

variable (prims : Primitives) (order : (paths : PiiFieldPaths) → IterationOrder paths)

end ServiceInvariant

section Answers

variable {parsers : OpenApiParsers} {cfg : Config} {schemaHeaderName : String} {fuel : Nat}
  {state : AppState} (prims : Primitives) (order : (paths : PiiFieldPaths) → IterationOrder paths)

/-- A running service never answers `503` to an encryption or decryption request. -/
theorem Reachable.transform_status_ne_serviceUnavailable
    (reachable : Reachable parsers cfg schemaHeaderName fuel state)
    (headers : HeaderMap)
    (payload : Value) :
    (encrypt prims order state headers payload).status ≠ .serviceUnavailable ∧
      (decrypt prims order state headers payload).status ≠ .serviceUnavailable :=
  ⟨transformPayload_status_ne_serviceUnavailable reachable.serviceInvariant.dekReady,
    transformPayload_status_ne_serviceUnavailable reachable.serviceInvariant.dekReady⟩

/-- A running service is healthy exactly when some schema is cached. -/
theorem Reachable.health_status_eq_ok_iff
    (reachable : Reachable parsers cfg schemaHeaderName fuel state) :
    (health state).status = .ok ↔ 0 < state.schemaCache.len := by
  rw [NitroEncSvc.health_status_eq_ok_iff, reachable.serviceInvariant.dekReady]
  exact and_iff_right rfl

/-- An empty listing only warns: the service starts, and reports itself degraded. -/
example :
    (startup ⟨fun _ => .binary [1], fun _ _ => .plaintext (List.replicate keyLen 7),
          ⟨fun _ _ => some [], fun _ _ => .sendFailed⟩⟩
        ⟨fun _ => none, fun _ => none⟩ sampleConfig "X-Schema-Name" 0).map
      (Except.map fun state => (health state).status) = some (.ok .serviceUnavailable) := by
  decide

/--
End to end: in every state the service serves with, a request whose header
names a cached schema, with a payload that follows one of the schema's
components, is answered `200`, and every string at a marked node the path
codec reads back is replaced by the text of its encryption under the current
key.
-/
theorem Reachable.encrypt_covers_pii_nodes
    (withinLimit : prims.EncryptsWithinLimit)
    (reachable : Reachable parsers cfg schemaHeaderName fuel state)
    {headers : HeaderMap}
    {name : String}
    {cached : CachedSchema}
    (named : schemaNameOf state headers = .ok name)
    (found : state.schemaCache.get name = .ok cached)
    {root : Schema}
    (isRoot : root ∈ componentRoots cached.api)
    {payload : Value}
    (fits : ∀ text ∈ payload.strings, (Str.asBytes text).length ≤ plaintextMax) :
    ∃ dek encrypted, state.dekStore.current = .ok dek ∧
      encrypt prims order state headers payload = ⟨.ok, .payload encrypted⟩ ∧
      ∀ position steps node text, SchemaNodeAt cached.api root payload position steps node →
        node.isPii = true → codecSafe steps = true →
        payload.at? position = some (.string text) →
        ∃ field, encryptField prims (Str.asBytes text) dek.bytes.toList = .ok field ∧
          encrypted.at? position = some (.string (field.toStringRepr prims)) := by
  have holds := reachable.serviceInvariant
  obtain ⟨dek, current⟩ := holds.exists_current
  have resolved := holds.cacheResolved name cached found
  refine ⟨dek, _, current, encrypt_eq_ok withinLimit order named found current fits, ?_⟩
  intro position steps node text atNode marked safe atText
  exact at?_rewritePiiFields_encryptLeaf_of_piiMatched withinLimit fits dek atText
    (piiMatched_of_schemaNodeAt resolved isRoot atNode marked safe)

end Answers

end NitroEncSvc
