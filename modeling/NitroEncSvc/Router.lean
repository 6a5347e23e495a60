import NitroEncSvc.Handlers

namespace NitroEncSvc

/-!
# The router (`server/router.rs`)

`build` routes `POST /encrypt`, `POST /decrypt` and `GET /health` to their
handlers and sends every other path to `not_found`.  The rest is axum's:

* a path that has routes, none of them for the request's method, is answered
  by the method router itself, `405 Method Not Allowed`, and never reaches
  `not_found`;
* a `GET` route serves `HEAD` as well; the server then sends the same
  response without its body, which the model does not track;
* the trace layer only records, and the timeout layer changes no answer a
  handler gives within the 30 seconds of `REQUEST_TIMEOUT`.

axum's rejection of a body that is not an `EncryptRequest` or a
`DecryptRequest` is left out: the requests below carry the parsed payload.
-/

open Json

/-- The two handlers that transform a payload. -/
inductive Handler where
  | encrypt
  | decrypt
  deriving Repr, DecidableEq

section Handler

variable (prims : Primitives) (order : (paths : PiiFieldPaths) → IterationOrder paths)

/-- The traversal a handler runs over the payload. -/
def Handler.transform : Handler → Value → PiiFieldPaths → List UInt8 → Except CipherError Value
  | .encrypt => fun payload paths dek => encryptPiiFields prims payload (order paths).list dek
  | .decrypt => fun payload paths dek => decryptPiiFields prims payload (order paths).list dek

/-- The message of the handler's `500`. -/
def Handler.failureMessage : Handler → String
  | .encrypt => "encryption failed"
  | .decrypt => "decryption failed"

/-- The handler's answer when nothing interrupts it. -/
def Handler.answer (handler : Handler) (state : AppState) (headers : HeaderMap)
    (payload : Value) : Response :=
  transformPayload (handler.transform prims order) handler.failureMessage state headers payload

theorem Handler.answer_encrypt :
    Handler.answer prims order .encrypt = NitroEncSvc.encrypt prims order :=
  rfl

theorem Handler.answer_decrypt :
    Handler.answer prims order .decrypt = NitroEncSvc.decrypt prims order :=
  rfl

end Handler

/-- The request methods of HTTP; an extension method by its name. -/
inductive Method where
  | get
  | head
  | post
  | put
  | delete
  | patch
  | options
  | trace
  | connect
  | other (name : String)
  deriving Repr, DecidableEq

/-- What a route leads to. -/
inductive Endpoint where
  | transform (handler : Handler)
  | health
  deriving Repr, DecidableEq

/-- The routes of `build`, in the order it adds them: a path, the method of its handler, the handler. -/
def routes : List (String × Method × Endpoint) :=
  [("/encrypt", .post, .transform .encrypt),
    ("/decrypt", .post, .transform .decrypt),
    ("/health", .get, .health)]

/-- Whether a handler registered for a method serves a request's method: `get` serves `HEAD` too. -/
def Method.serves (registered requested : Method) : Bool :=
  requested == registered || (registered == .get && requested == .head)

/-- Where the router sends a request. -/
inductive Route where
  | endpoint (endpoint : Endpoint)
  | methodNotAllowed
  | fallback
  deriving Repr, DecidableEq

/-- The router's choice: the route of the path for the method, `405` for a path without one, the fallback for any other path. -/
def route (method : Method) (path : String) : Route :=
  match routes.filter (fun entry => entry.1 == path) with
  | [] => .fallback
  | onPath =>
      match onPath.find? (fun entry => entry.2.1.serves method) with
      | some entry => .endpoint entry.2.2
      | none => .methodNotAllowed

/-- What the router sends back: a handler's response, or the method router's own `405`. -/
inductive Reply where
  | handled (response : Response)
  | methodNotAllowed
  deriving DecidableEq

section Serve

variable (prims : Primitives) (order : (paths : PiiFieldPaths) → IterationOrder paths)

/-- The router that `build` returns, answering one request on one state. -/
def serve (state : AppState) (method : Method) (path : String) (headers : HeaderMap)
    (payload : Value) : Reply :=
  match route method path with
  | .endpoint (.transform handler) => .handled (handler.answer prims order state headers payload)
  | .endpoint .health => .handled (health state)
  | .methodNotAllowed => .methodNotAllowed
  | .fallback => .handled notFound

end Serve

/-! ## What the router does -/

/-- The routes are exactly those `build` adds, `HEAD` served by the `GET` route. -/
theorem route_eq_endpoint_iff
    (method : Method)
    (path : String)
    (endpoint : Endpoint) :
    route method path = .endpoint endpoint ↔
      (path = "/encrypt" ∧ method = .post ∧ endpoint = .transform .encrypt) ∨
        (path = "/decrypt" ∧ method = .post ∧ endpoint = .transform .decrypt) ∨
          (path = "/health" ∧ (method = .get ∨ method = .head) ∧ endpoint = .health) := by
  unfold route
  -- One case per routed path, each with every method; then a path without routes.
  by_cases toEncrypt : path = "/encrypt"
  · subst toEncrypt
    cases method <;> simp [routes, Method.serves]
    exact eq_comm
  by_cases toDecrypt : path = "/decrypt"
  · subst toDecrypt
    cases method <;> simp [routes, Method.serves]
    exact eq_comm
  by_cases toHealth : path = "/health"
  · subst toHealth
    cases method <;> simp [routes, Method.serves]
    all_goals exact eq_comm
  · have unrouted : routes.filter (fun entry => entry.1 == path) = [] := by
      simp [routes, Ne.symm toEncrypt, Ne.symm toDecrypt, Ne.symm toHealth]
    simp [unrouted, toEncrypt, toDecrypt, toHealth]

/-- The paths with a route. -/
theorem routes_filter_eq_nil_iff
    (path : String) :
    routes.filter (fun entry => entry.1 == path) = [] ↔
      path ≠ "/encrypt" ∧ path ≠ "/decrypt" ∧ path ≠ "/health" := by
  simp only [routes, List.filter_eq_nil_iff, List.mem_cons, List.not_mem_nil, or_false,
    forall_eq_or_imp, forall_eq, beq_iff_eq]
  exact and_congr ne_comm (and_congr ne_comm ne_comm)

/-- `not_found` answers exactly the paths without a route. -/
theorem route_eq_fallback_iff
    (method : Method)
    (path : String) :
    route method path = .fallback ↔ path ≠ "/encrypt" ∧ path ≠ "/decrypt" ∧ path ≠ "/health" := by
  rw [← routes_filter_eq_nil_iff]
  unfold route
  -- A path with routes is routed or answered `405`, never sent to the fallback.
  cases routes.filter (fun entry => entry.1 == path) with
  | nil => simp
  | cons entry rest =>
      dsimp only
      split <;> simp

end NitroEncSvc
