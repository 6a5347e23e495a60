import NitroEncSvc.Dek
import NitroEncSvc.PiiFields
import NitroEncSvc.Schemas

namespace NitroEncSvc

/-!
# The HTTP handlers (`server/handlers.rs`)

`encrypt` and `decrypt` read the schema name from the configured header, look
the schema up in the cache, borrow the current DEK, and run their traversal
over the payload; each failure on the way has its own status and error body.
`health` reports whether the DEK is loaded and how many schemas are cached.

The two request handlers differ only in the traversal and in the message of
its failure: both are `transformPayload` applied to their own.  The metrics
they record are kept beside the state, in `NitroEncSvc.Metrics`.  A `HashSet` of paths is iterated in an order the
program does not fix: the handlers take that order as an argument, and every
result below holds whichever order it is.
-/

open Json

/-- The status codes the handlers answer with. -/
inductive StatusCode where
  | ok
  | badRequest
  | notFound
  | internalServerError
  | serviceUnavailable
  deriving Repr, DecidableEq

/-- The numeric code of a status. -/
def StatusCode.code : StatusCode → Nat
  | .ok => 200
  | .badRequest => 400
  | .notFound => 404
  | .internalServerError => 500
  | .serviceUnavailable => 503

/-- `ErrorResponse`: a machine-readable code and a message. -/
structure ErrorResponse where
  code : String
  message : String
  deriving Repr, DecidableEq

/-- `HealthResponse`. -/
structure HealthResponse where
  status : String
  dekReady : Bool
  schemasLoaded : Nat
  deriving Repr, DecidableEq

/-- The JSON body of a response. -/
inductive ResponseBody where
  | payload (value : Value)
  | error (body : ErrorResponse)
  | health (body : HealthResponse)
  deriving DecidableEq

/-- A response: its status and its body. -/
structure Response where
  status : StatusCode
  body : ResponseBody
  deriving DecidableEq

/-- The request headers: names with the bytes of their values, in order. -/
abbrev HeaderMap := List (String × List UInt8)

/-- `HeaderMap::get`: the first value under the name, compared without regard to case. -/
def headerGet (headers : HeaderMap) (name : String) : Option (List UInt8) :=
  (headers.find? fun header => header.1.toLower == name.toLower).map Prod.snd

@[simp] theorem headerGet_cons_self
    (name : String) (value : List UInt8) (rest : HeaderMap) :
    headerGet ((name, value) :: rest) name = some value := by
  simp [headerGet]

/-- `HeaderValue::to_str`: the text when every byte is visible ASCII or a tab. -/
def headerValueToStr (value : List UInt8) : Option String :=
  if value.all fun byte => byte == 9 || (32 ≤ byte && byte < 127) then
    some (String.ofList (value.map fun byte => Char.ofNat byte.toNat))
  else
    none

/-- `AppState`, without the metrics. -/
structure AppState where
  dekStore : DekStore
  schemaCache : SchemaCache
  schemaHeaderName : String

/-- `AppState::default`: empty stores and the default header, as the router's tests build it. -/
def AppState.default : AppState :=
  ⟨DekStore.new, SchemaCache.new, "X-Schema-Name"⟩

/-- A `400 Bad Request` with its message. -/
def badRequest (message : String) : Response :=
  ⟨.badRequest, .error ⟨"bad_request", message⟩⟩

/-- The schema name of a request, or the response for a missing or non-ASCII header. -/
def schemaNameOf (state : AppState) (headers : HeaderMap) : Except Response String :=
  match headerGet headers state.schemaHeaderName with
  | some value =>
      match headerValueToStr value with
      | some name => .ok name
      | none => .error (badRequest (state.schemaHeaderName ++ " header contains non-ASCII characters"))
  | none => .error (badRequest ("missing " ++ state.schemaHeaderName ++ " header"))

/-- The body `encrypt` and `decrypt` share, with the traversal and its failure message. -/
def transformPayload
    (transform : Value → PiiFieldPaths → List UInt8 → Except CipherError Value)
    (failureMessage : String) (state : AppState) (headers : HeaderMap) (payload : Value) :
    Response :=
  match schemaNameOf state headers with
  | .error response => response
  | .ok schemaName =>
      match state.schemaCache.get schemaName with
      | .error _ => badRequest ("unknown schema: " ++ schemaName)
      | .ok cached =>
          match state.dekStore.current with
          | .error _ => ⟨.serviceUnavailable, .error ⟨"service_unavailable", "DEK not yet initialised"⟩⟩
          | .ok dek =>
              match transform payload cached.piiPaths dek.bytes.toList with
              | .error _ => ⟨.internalServerError, .error ⟨"internal_error", failureMessage⟩⟩
              | .ok transformed => ⟨.ok, .payload transformed⟩

section Handlers

variable (prims : Primitives) (order : (paths : PiiFieldPaths) → IterationOrder paths)

/-- `POST /encrypt`. -/
def encrypt (state : AppState) (headers : HeaderMap) (payload : Value) : Response :=
  transformPayload (fun payload paths dek => encryptPiiFields prims payload (order paths).list dek)
    "encryption failed" state headers payload

/-- `POST /decrypt`. -/
def decrypt (state : AppState) (headers : HeaderMap) (payload : Value) : Response :=
  transformPayload (fun payload paths dek => decryptPiiFields prims payload (order paths).list dek)
    "decryption failed" state headers payload

end Handlers

/-- `GET /health`: `200` when the DEK is loaded and some schema is cached, else `503`. -/
def health (state : AppState) : Response :=
  let dekReady := state.dekStore.isReady
  let schemasLoaded := state.schemaCache.len
  if dekReady && 0 < schemasLoaded then
    ⟨.ok, .health ⟨"ok", dekReady, schemasLoaded⟩⟩
  else
    ⟨.serviceUnavailable, .health ⟨"degraded", dekReady, schemasLoaded⟩⟩

/-- The catch-all `404`. -/
def notFound : Response :=
  ⟨.notFound, .error ⟨"not_found", "the requested resource does not exist"⟩⟩

/-- The code an error body carries with each status. -/
def StatusCode.errorCode : StatusCode → String
  | .ok => ""
  | .badRequest => "bad_request"
  | .notFound => "not_found"
  | .internalServerError => "internal_error"
  | .serviceUnavailable => "service_unavailable"

/-! ## What the handlers answer -/

section Answers

variable {transform : Value → PiiFieldPaths → List UInt8 → Except CipherError Value}
  {failureMessage : String} {state : AppState} {headers : HeaderMap} {payload : Value}

/-- A request without a usable schema header is a bad request. -/
theorem schemaNameOf_eq_error
    {response : Response}
    (failed : schemaNameOf state headers = .error response) :
    ∃ message, response = badRequest message := by
  unfold schemaNameOf at failed
  split at failed
  · split at failed
    · cases failed
    · cases failed
      exact ⟨_, rfl⟩
  · cases failed
    exact ⟨_, rfl⟩

/-- What a request can be answered: one case for each stage that can fail, and success. -/
theorem transformPayload_cases
    (transform : Value → PiiFieldPaths → List UInt8 → Except CipherError Value)
    (failureMessage : String) (state : AppState) (headers : HeaderMap) (payload : Value) :
    (∃ message, transformPayload transform failureMessage state headers payload =
        badRequest message) ∨
      (transformPayload transform failureMessage state headers payload =
          ⟨.serviceUnavailable, .error ⟨"service_unavailable", "DEK not yet initialised"⟩⟩ ∧
        ∃ failure, state.dekStore.current = .error failure) ∨
      transformPayload transform failureMessage state headers payload =
        ⟨.internalServerError, .error ⟨"internal_error", failureMessage⟩⟩ ∨
      ∃ name cached dek result, schemaNameOf state headers = .ok name ∧
        state.schemaCache.get name = .ok cached ∧ state.dekStore.current = .ok dek ∧
        transform payload cached.piiPaths dek.bytes.toList = .ok result ∧
        transformPayload transform failureMessage state headers payload =
          ⟨.ok, .payload result⟩ := by
  unfold transformPayload
  cases named : schemaNameOf state headers with
  | error response =>
      obtain ⟨message, rfl⟩ := schemaNameOf_eq_error named
      exact .inl ⟨message, rfl⟩
  | ok name =>
      dsimp only
      cases found : state.schemaCache.get name with
      | error _ =>
          exact .inl ⟨_, rfl⟩
      | ok cached =>
          dsimp only
          cases current : state.dekStore.current with
          | error failure =>
              exact .inr (.inl ⟨rfl, failure, rfl⟩)
          | ok dek =>
              dsimp only
              cases ran : transform payload cached.piiPaths dek.bytes.toList with
              | error _ => exact .inr (.inr (.inl rfl))
              | ok result =>
                  exact .inr (.inr (.inr ⟨name, cached, dek, result, rfl, found, rfl, ran,
                    rfl⟩))

/-- A request succeeds exactly when each stage does: header, schema, key, traversal. -/
theorem transformPayload_eq_ok_iff
    {result : Value} :
    transformPayload transform failureMessage state headers payload = ⟨.ok, .payload result⟩ ↔
      ∃ name cached dek, schemaNameOf state headers = .ok name ∧
        state.schemaCache.get name = .ok cached ∧ state.dekStore.current = .ok dek ∧
        transform payload cached.piiPaths dek.bytes.toList = .ok result := by
  constructor
  · intro answered
    rcases transformPayload_cases transform failureMessage state headers payload with
      ⟨message, failed⟩ | ⟨failed, -⟩ | failed |
        ⟨name, cached, dek, transformed, named, found, current, ran, succeeded⟩
    · rw [failed] at answered
      cases answered
    · rw [failed] at answered
      cases answered
    · rw [failed] at answered
      cases answered
    · rw [succeeded] at answered
      cases answered
      exact ⟨name, cached, dek, named, found, current, ran⟩
  · rintro ⟨name, cached, dek, named, found, current, ran⟩
    unfold transformPayload
    rw [named]
    dsimp only
    rw [found]
    dsimp only
    rw [current]
    dsimp only
    rw [ran]

/-- Every answer other than `200` carries an error body with the code of its status. -/
theorem transformPayload_error_body
    (failed : (transformPayload transform failureMessage state headers payload).status ≠ .ok) :
    ∃ message, (transformPayload transform failureMessage state headers payload).body =
      .error ⟨(transformPayload transform failureMessage state headers payload).status.errorCode,
        message⟩ := by
  rcases transformPayload_cases transform failureMessage state headers payload with
    ⟨message, answered⟩ | ⟨answered, -⟩ | answered | ⟨-, -, -, result, -, -, -, -, answered⟩ <;>
    rw [answered] at failed ⊢
  · exact ⟨message, rfl⟩
  · exact ⟨_, rfl⟩
  · exact ⟨_, rfl⟩
  · exact absurd rfl failed

/-- With a key in the store, no request is answered `503`. -/
theorem transformPayload_status_ne_serviceUnavailable
    (ready : state.dekStore.isReady = true) :
    (transformPayload transform failureMessage state headers payload).status ≠
      .serviceUnavailable := by
  rcases transformPayload_cases transform failureMessage state headers payload with
    ⟨message, answered⟩ | ⟨-, failure, missing⟩ | answered | ⟨-, -, -, result, -, -, -, -, answered⟩
  · simp [answered, badRequest]
  · rw [DekStore.isReady_eq_isOk_current, missing] at ready
    cases ready
  · simp [answered]
  · simp [answered]

end Answers

/-- `health` answers `200` exactly when the DEK is loaded and some schema is cached. -/
theorem health_status_eq_ok_iff
    (state : AppState) :
    (health state).status = .ok ↔ state.dekStore.isReady = true ∧ 0 < state.schemaCache.len := by
  simp only [health]
  split <;> simp_all

/-! ## Encryption and decryption through the handlers -/

section RoundTrip

variable {prims : Primitives} {state later : AppState} {headers : HeaderMap} {name : String}
  {cached : CachedSchema} {dek : DekBytes}

/-- The schema name depends on the state through its header name only. -/
theorem schemaNameOf_congr
    (sameHeader : later.schemaHeaderName = state.schemaHeaderName) :
    schemaNameOf later headers = schemaNameOf state headers := by
  unfold schemaNameOf
  rw [sameHeader]

/-- With its schema and key at hand, `encrypt` answers `200` with every matched string sealed. -/
theorem encrypt_eq_ok
    (withinLimit : prims.EncryptsWithinLimit)
    (order : (paths : PiiFieldPaths) → IterationOrder paths)
    (named : schemaNameOf state headers = .ok name)
    (found : state.schemaCache.get name = .ok cached)
    (current : state.dekStore.current = .ok dek)
    {payload : Value}
    (fits : ∀ text ∈ payload.strings, (Str.asBytes text).length ≤ plaintextMax) :
    encrypt prims order state headers payload =
      ⟨.ok, .payload (rewritePiiFields (leafOrSelf (encryptLeaf prims dek.bytes.toList))
        cached.piiPaths.toList payload)⟩ :=
  transformPayload_eq_ok_iff.mpr ⟨name, cached, dek, named, found, current,
    encryptPiiFields_eq_rewritePiiFields withinLimit fits dek (order cached.piiPaths)⟩

/--
What `encrypt` answers `200`, `decrypt` opens again in any later state that
reads the same header, holds the same key and the same paths for the schema,
whatever order either request iterates the paths in.
-/
theorem decrypt_encrypt
    (urlSafe : prims.EncodesUrlSafe)
    (roundTrip : prims.DecodesEncodings)
    (opens : prims.DecryptsEncryptions)
    (withinLimit : prims.EncryptsWithinLimit)
    (encryptOrder decryptOrder : (paths : PiiFieldPaths) → IterationOrder paths)
    {payload encrypted : Value}
    (fits : ∀ text ∈ payload.strings, (Str.asBytes text).length ≤ plaintextMax)
    (answered : encrypt prims encryptOrder state headers payload = ⟨.ok, .payload encrypted⟩)
    (sameHeader : later.schemaHeaderName = state.schemaHeaderName)
    (sameKey : later.dekStore.current = state.dekStore.current)
    (samePaths : ∀ name cached, state.schemaCache.get name = .ok cached →
      ∃ kept : CachedSchema, later.schemaCache.get name = .ok kept ∧
        kept.piiPaths = cached.piiPaths) :
    decrypt prims decryptOrder later headers encrypted = ⟨.ok, .payload payload⟩ := by
  obtain ⟨name, cached, dek, named, found, current, ran⟩ := transformPayload_eq_ok_iff.mp answered
  -- The answer is the one fold that seals each reached string.
  have sealed : encrypted = rewritePiiFields (leafOrSelf (encryptLeaf prims dek.bytes.toList))
      cached.piiPaths.toList payload := by
    have folded := encryptPiiFields_eq_rewritePiiFields withinLimit fits dek
      (encryptOrder cached.piiPaths)
    exact Except.ok.inj (ran.symm.trans folded)
  obtain ⟨kept, keptFound, keptPaths⟩ := samePaths name cached found
  have opened := decryptPiiFields_rewritePiiFields urlSafe roundTrip opens withinLimit fits dek
    (decryptOrder cached.piiPaths)
  rw [← sealed, ← keptPaths] at opened
  exact transformPayload_eq_ok_iff.mpr ⟨name, kept, dek,
    (schemaNameOf_congr sameHeader).trans named, keptFound, sameKey.trans current, opened⟩

/-- A state with the key of sevens and one schema whose paths are `ssn`; the handlers read only the paths. -/
def ssnState : AppState :=
  ⟨⟨some ⟨Vector.replicate keyLen 7⟩⟩,
    ⟨(∅ : AList fun _ : String => CachedSchema).insert "person" ⟨⟨none⟩, {"ssn"}⟩⟩,
    "X-Schema-Name"⟩

theorem decrypt_encrypt_ssn :
    decrypt Primitives.sample IterationOrder.ascending ssnState
        [("X-Schema-Name", Str.asBytes "person")]
        (.object [("ssn", .string "v1.KywtLi8wMTIzNDU2.KywtLi8wMTIzNDU2NjU0KjMyKjEwPz4")]) =
      ⟨.ok, .payload (.object [("ssn", .string "123-45-6789")])⟩ := by
  have answered : encrypt Primitives.sample IterationOrder.ascending ssnState
      [("X-Schema-Name", Str.asBytes "person")] (.object [("ssn", .string "123-45-6789")]) =
      ⟨.ok, .payload
        (.object [("ssn", .string "v1.KywtLi8wMTIzNDU2.KywtLi8wMTIzNDU2NjU0KjMyKjEwPz4")])⟩ := by
    simp only [encrypt, transformPayload, schemaNameOf, ssnState, headerGet_cons_self]
    decide
  exact decrypt_encrypt Primitives.sample_encodesUrlSafe Primitives.sample_decodesEncodings
    Primitives.sample_decryptsEncryptions Primitives.sample_encryptsWithinLimit _ _ (by decide)
    answered rfl rfl fun _ cached found => ⟨cached, found, rfl⟩

end RoundTrip

/-- The router's test state: a request without the header is a bad request, before the key is looked at. -/
example :
    (decrypt Primitives.sample (fun paths => ⟨paths.toList, Finset.coe_toList paths⟩)
      AppState.default [] (.object [])).status = .badRequest := by
  decide

example : (health AppState.default).status = .serviceUnavailable := by
  decide

end NitroEncSvc
