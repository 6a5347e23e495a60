import NitroEncSvc.Config
import NitroEncSvc.Fleet
import NitroEncSvc.Relay
import NitroEncSvc.Vsock

namespace NitroEncSvc

/-!
# The sidecar and the bridges (`vsock-proxy/src/config.rs`, `proxy.rs`; `main.rs`)

The sidecar accepts TCP connections from the load balancer and relays each one
to the TLS port of the enclave over vsock.  Inside the enclave, three bridges
relay local TCP connections (IMDS, OTLP traces, JSON logs) to the same ports
of the parent over vsock.  Every such connection is handled alike: connect to
the target, or drop the connection when that fails; then relay both
directions until one copy returns (`NitroEncSvc.Relay`).  Connections share no
state, so each is a run of its own.  These loops log a failed accept and go on;
the TLS loop of the enclave's `main` instead returns the failure from `main`.

`handle_connection` of the sidecar returns the error of the connect or of the
copy that returned first, and `run` logs it; the bridges log or drop it.  The
copy buffer is the 8 KiB of `tokio::io::copy`.  The forward direction is the
TCP peer's (TCP to vsock), the backward one the vsock peer's.
-/

open Relay

/-- The sidecar's `Config`, without the log level. -/
structure ProxyConfig where
  listenPort : UInt16
  enclaveCid : UInt32
  enclavePort : UInt32
  mainAppAddr : String
  deriving Repr, DecidableEq

/-- `default_listen_port`. -/
def defaultListenPort : UInt16 := 8443

/-- `default_enclave_port`. -/
def defaultEnclavePort : UInt32 := 443

/-- A vsock address: a context id and a port. -/
structure VsockAddr where
  cid : UInt32
  port : UInt32
  deriving Repr, DecidableEq

namespace ProxyConfig

/-- `validate`: a zero CID first, then a blank application address. -/
def validate (self : ProxyConfig) : Except String Unit := do
  ensureNonZero self.enclaveCid "ENCLAVE_CID must be a non-zero vsock CID"
  -- Written inline in the sidecar; its message is the one `ensure_non_empty` makes.
  ensureNonEmpty self.mainAppAddr "MAIN_APP_ADDR"

/-- Where `handle_connection` connects: the enclave's CID and port. -/
def target (self : ProxyConfig) : VsockAddr :=
  ⟨self.enclaveCid, self.enclavePort⟩

/-- The sidecar starts exactly with a nonzero CID and an address that is not blank. -/
theorem validate_eq_ok_iff
    (self : ProxyConfig) :
    self.validate = .ok () ↔ self.enclaveCid ≠ 0 ∧ (Str.trim self.mainAppAddr).isEmpty = false := by
  simp only [validate, bind_eq_ok_unit_iff, ensureNonZero_eq_ok_iff, ensureNonEmpty_eq_ok_iff]

end ProxyConfig

/-- A bridge of `main.rs`: a local TCP port relayed to a vsock port of the parent. -/
structure Bridge where
  localPort : UInt16
  vsockPort : UInt32
  deriving Repr, DecidableEq

/-- `start_imds_bridge`: `IMDS_LOCAL_PORT` to `IMDS_VSOCK_PORT`. -/
def imdsBridge : Bridge :=
  ⟨8004, 8004⟩

/-- `start_otlp_bridge`: `OTLP_LOCAL_PORT` to `OTLP_VSOCK_PORT`. -/
def otlpBridge : Bridge :=
  ⟨4317, 4317⟩

/-- `start_log_bridge`: `LOG_LOCAL_PORT` to `LOG_VSOCK_PORT`. -/
def logBridge : Bridge :=
  ⟨4318, 4318⟩

/-- Where a bridge's connections go: its port on the parent. -/
def Bridge.target (parentCid : UInt32) (bridge : Bridge) : VsockAddr :=
  ⟨parentCid, bridge.vsockPort⟩

/-- The bridges `main` starts, all to the CID the AWS clients use, `VSOCK_PROXY_CID`. -/
def bridges : List Bridge :=
  [imdsBridge, otlpBridge, logBridge]

/-- The base ports from which some AWS service's offset lands on a bridge's port. -/
def shadowingBasePorts : List UInt32 :=
  [4314, 4315, 4316, 4317, 8001, 8002, 8003]

example : defaultVsockProxyPort ∉ shadowingBasePorts := by decide

theorem mem_shadowingBasePorts_iff
    (basePort : UInt32) :
    basePort ∈ shadowingBasePorts ↔ basePort.toNat ∈ [4314, 4315, 4316, 4317, 8001, 8002, 8003] := by
  simp [shadowingBasePorts, ← UInt32.toNat_inj]

/--
The enclave's AWS calls and its bridges share the parent's CID.  No call of
the connector reaches a bridge's port exactly when `VSOCK_PROXY_PORT` is none
of the shadowing bases; `Config::validate` does not check it.
-/
theorem call_avoids_bridges_iff
    (cfg : Config) :
    (∀ uri : Uri, ∀ bridge ∈ bridges,
      (VsockRawConnector.ofConfig cfg).call uri ≠ .vsock cfg.vsockProxyCid bridge.vsockPort) ↔
      cfg.vsockProxyPort ∉ shadowingBasePorts := by
  have lands : ∀ bridge ∈ bridges, ∀ service : AwsService,
      cfg.vsockProxyPort + UInt32.ofNat service.portOffset = bridge.vsockPort ↔
        cfg.vsockProxyPort.toNat + service.portOffset = bridge.vsockPort.toNat := by
    intro bridge listed service
    refine add_ofNat_eq_iff (by cases service <;> decide) ?_
    simp only [bridges, List.mem_cons, List.not_mem_nil, or_false] at listed
    rcases listed with rfl | rfl | rfl <;> decide
  calc (∀ uri : Uri, ∀ bridge ∈ bridges,
        (VsockRawConnector.ofConfig cfg).call uri ≠ .vsock cfg.vsockProxyCid bridge.vsockPort)
      ↔ ∀ bridge ∈ bridges, ¬ ∃ service : AwsService,
          cfg.vsockProxyPort + UInt32.ofNat service.portOffset = bridge.vsockPort := by
        -- The connector reaches the parent exactly at the base plus a service's offset.
        constructor
        · rintro avoids bridge listed ⟨service, sum⟩
          obtain ⟨uri, called⟩ :=
            ((VsockRawConnector.ofConfig cfg).exists_call_eq_vsock_iff _ _).mpr ⟨rfl, service, sum⟩
          exact avoids uri bridge listed called
        · rintro avoids uri bridge listed called
          exact avoids bridge listed
            (((VsockRawConnector.ofConfig cfg).exists_call_eq_vsock_iff _ _).mp ⟨uri, called⟩).2
    _ ↔ ∀ bridge ∈ bridges, ¬ ∃ service : AwsService,
          cfg.vsockProxyPort.toNat + service.portOffset = bridge.vsockPort.toNat :=
        forall₂_congr fun bridge listed =>
          not_congr (exists_congr fun service => lands bridge listed service)
    _ ↔ cfg.vsockProxyPort ∉ shadowingBasePorts := by
        rw [mem_shadowingBasePorts_iff]
        simp only [bridges, imdsBridge, otlpBridge, logBridge, AwsService.exists_iff,
          AwsService.portOffset]
        simp
        omega

/-- The size of the buffer of `tokio::io::copy`. -/
def copyBufferSize : Nat := 8192

/-! ## One relayed connection -/

/-- Where one relayed connection stands. -/
inductive Link where
  | connecting (target : VsockAddr)
  | refused
  | relaying (relay : Duplex UInt8)

/-- What can happen to a connection: the connect returns, or an event of the relay. -/
inductive LinkEvent where
  | connect (succeeded : Bool)
  | relay (side : Side) (event : PipeEvent UInt8)

/-- One event of a connection; `none` when it cannot happen. -/
def Link.step : Link → LinkEvent → Option Link
  | .connecting _, .connect true => some (.relaying Duplex.start)
  | .connecting _, .connect false => some .refused
  | .relaying relay, .relay side event => (relay.step copyBufferSize side event).map .relaying
  | _, _ => none

/-- A run of events of one connection. -/
def Link.run (link : Link) (events : List LinkEvent) : Option Link :=
  events.foldlM Link.step link

/-- What `handle_connection` returns, once it has: the connect's error, or the first copy's outcome. -/
def Link.result : Link → Option (Except Unit Unit)
  | .connecting _ => none
  | .refused => some (.error ())
  | .relaying relay => relay.ended.map fun
      | (_, .done _) => .ok ()
      | (_, .failed) => .error ()

/-- The relay's events among a connection's. -/
def relayEvents : List LinkEvent → List (Side × PipeEvent UInt8)
  | [] => []
  | .connect _ :: rest => relayEvents rest
  | .relay side event :: rest => (side, event) :: relayEvents rest

/-- A connection that connected is the relay's run over its events. -/
theorem Link.run_relaying
    {relay : Duplex UInt8}
    {events : List LinkEvent}
    {link : Link}
    (ran : Link.run (.relaying relay) events = some link) :
    ∃ final, link = .relaying final ∧
      Duplex.run copyBufferSize relay (relayEvents events) = some final := by
  induction events generalizing relay with
  | nil =>
      cases ran
      exact ⟨relay, rfl, rfl⟩
  | cons event rest inductionHypothesis =>
      obtain ⟨middle, stepped, restRan⟩ := Option.bind_eq_some_iff.mp ran
      cases event with
      | connect succeeded =>
          cases stepped
      | relay side event =>
          obtain ⟨next, relayStepped, rfl⟩ := Option.map_eq_some_iff.mp stepped
          obtain ⟨final, rfl, finalRan⟩ := inductionHypothesis restRan
          exact ⟨final, rfl, Option.bind_eq_some_iff.mpr ⟨next, relayStepped, finalRan⟩⟩

/-- A refused connection stays refused. -/
theorem Link.run_refused
    {events : List LinkEvent}
    {link : Link}
    (ran : Link.run .refused events = some link) :
    link = .refused ∧ events = [] := by
  cases events with
  | nil =>
      cases ran
      exact ⟨rfl, rfl⟩
  | cons event rest =>
      simp only [Link.run, List.foldlM_cons] at ran
      obtain ⟨middle, stepped, -⟩ := Option.bind_eq_some_iff.mp ran
      cases event <;> cases stepped

/-- A connection whose first copy has returned takes no more events. -/
theorem Link.run_of_ended
    {relay : Duplex UInt8}
    (ended : relay.ended.isSome = true)
    {events : List LinkEvent}
    {link : Link}
    (ran : Link.run (.relaying relay) events = some link) :
    events = [] ∧ link = .relaying relay := by
  cases events with
  | nil =>
      cases ran
      exact ⟨rfl, rfl⟩
  | cons event rest =>
      simp only [Link.run, List.foldlM_cons] at ran
      obtain ⟨middle, stepped, -⟩ := Option.bind_eq_some_iff.mp ran
      cases event with
      | connect succeeded =>
          cases stepped
      | relay side event =>
          simp only [Link.step, Duplex.step_of_ended ended, Option.map_none] at stepped
          cases stepped

/-- What a run of a connection guarantees, given the events it took. -/
structure Link.Conforms (events : List LinkEvent) (link : Link) : Prop where
  /-- Each direction has delivered, in order, a prefix of what its peer sent, with the
  next bytes in its copy's buffer of at most 8 KiB and the rest unread. -/
  conserves : ∀ relay, link = .relaying relay → ∀ side,
    (relay.pipe side).delivered ++ (relay.pipe side).buffer ++ (relay.pipe side).unread =
        Duplex.sentOn side (relayEvents events) ∧
      (relay.pipe side).buffer.length ≤ copyBufferSize
  /-- Nothing is relayed after the first copy returns: what the other direction had
  not delivered is dropped. -/
  stops : ∀ relay, link = .relaying relay → relay.ended.isSome = true →
    ∀ more later, Link.run link more = some later → more = [] ∧ later = link
  /-- When `handle_connection` returns `Ok`, the copy that returned first delivered all
  its peer sent and returned that count. -/
  deliversAll : link.result = some (.ok ()) → ∃ relay side written, link = .relaying relay ∧
    relay.ended = some (side, .done written) ∧
    (relay.pipe side).delivered = Duplex.sentOn side (relayEvents events) ∧
    written = (Duplex.sentOn side (relayEvents events)).length

/-- Every run of a connection of the sidecar or of a bridge conforms. -/
theorem Link.run_spec
    {target : VsockAddr}
    {events : List LinkEvent}
    {link : Link}
    (ran : Link.run (.connecting target) events = some link) :
    Link.Conforms events link := by
  cases events with
  | nil =>
      cases ran
      exact ⟨fun _ wrong => (by cases wrong), fun _ wrong => (by cases wrong),
        fun wrong => (by cases wrong)⟩
  | cons first rest =>
      obtain ⟨afterConnect, connected, restRan⟩ := Option.bind_eq_some_iff.mp ran
      cases first with
      | relay side event =>
          cases connected
      | connect succeeded =>
          cases succeeded with
          | false =>
              -- A failed connect drops the connection: nothing is relayed.
              cases connected
              obtain ⟨rfl, rfl⟩ := Link.run_refused restRan
              exact ⟨fun _ wrong => (by cases wrong), fun _ wrong => (by cases wrong),
                fun wrong => (by cases wrong)⟩
          | true =>
              cases connected
              obtain ⟨final, rfl, relayRan⟩ := Link.run_relaying restRan
              have holds := Duplex.run_conserves relayRan
              refine ⟨fun relay same side => ?_, fun relay same ended _ _ ranMore => ?_,
                fun returned => ?_⟩
              · cases same
                exact ⟨(holds.pipes side).conserves, (holds.pipes side).bounded⟩
              · cases same
                exact Link.run_of_ended ended ranMore
              · -- `Ok` is the normal return of the copy that returned first.
                obtain ⟨⟨side, outcome⟩, ended, isOk⟩ := Option.map_eq_some_iff.mp returned
                cases outcome with
                | failed => cases isOk
                | done written =>
                    obtain ⟨delivered, count⟩ := holds.doneDelivered side written ended
                    exact ⟨final, side, written, rfl, ended, delivered, count⟩

/-! ## The accept loops

`run` of the sidecar and the loops that `start_imds_bridge`, `start_otlp_bridge`
and `start_log_bridge` spawn accept connection after connection, and spawn a
task for each that connects it and relays it.  Accept errors are logged and
change nothing.  Connections are numbered by their accept; the tasks run
interleaved and share nothing, so the loop is a fleet of connections
(`NitroEncSvc.Fleet`).
-/

/-- What happens to one connection number: its accept, then the events of its connection. -/
inductive SlotEvent where
  | accept
  | link (event : LinkEvent)

/-- The connection of one number: none until the loop accepts one under it. -/
def Slot.step (target : VsockAddr) : Option Link → SlotEvent → Option (Option Link)
  | none, .accept => some (some (.connecting target))
  | some link, .link event => (link.step event).map some
  | _, _ => none

/-- An accept loop whose connections go to `target`, over an interleaving of its connections' events. -/
def listen (target : VsockAddr) (events : List (Nat × SlotEvent)) :
    Option (Nat → Option Link) :=
  Fleet.run (Slot.step target) (fun _ => none) events

section Listen

variable {target : VsockAddr}

/-- After its accept, a connection's number takes only the events of the connection. -/
theorem Slot.runOne_some
    {link : Link}
    {events : List SlotEvent}
    {slot : Option Link}
    (ran : Fleet.runOne (Slot.step target) (some link) events = some slot) :
    ∃ linkEvents later, events = linkEvents.map .link ∧ slot = some later ∧
      Link.run link linkEvents = some later := by
  induction events generalizing link with
  | nil =>
      cases ran
      exact ⟨[], link, rfl, rfl, rfl⟩
  | cons event rest inductionHypothesis =>
      rw [Fleet.runOne_cons] at ran
      obtain ⟨middle, stepped, restRan⟩ := Option.bind_eq_some_iff.mp ran
      cases event with
      | accept =>
          -- A number is accepted once.
          cases stepped
      | link event =>
          obtain ⟨next, linkStepped, rfl⟩ := Option.map_eq_some_iff.mp stepped
          obtain ⟨linkEvents, later, rfl, rfl, linkRan⟩ := inductionHypothesis restRan
          exact ⟨event :: linkEvents, later, rfl, rfl,
            Option.bind_eq_some_iff.mpr ⟨next, linkStepped, linkRan⟩⟩

/-- A number that holds a connection took its accept, then only that connection's events. -/
theorem Slot.runOne_none
    {events : List SlotEvent}
    {link : Link}
    (ran : Fleet.runOne (Slot.step target) none events = some (some link)) :
    ∃ linkEvents, events = .accept :: linkEvents.map .link ∧
      Link.run (.connecting target) linkEvents = some link := by
  cases events with
  | nil =>
      cases ran
  | cons event rest =>
      rw [Fleet.runOne_cons] at ran
      obtain ⟨middle, stepped, restRan⟩ := Option.bind_eq_some_iff.mp ran
      cases event with
      | link event =>
          cases stepped
      | accept =>
          cases stepped
          obtain ⟨linkEvents, later, rfl, sameLink, linkRan⟩ := Slot.runOne_some restRan
          cases sameLink
          exact ⟨linkEvents, rfl, linkRan⟩

/--
Every connection of an accept loop, in every interleaving of the loop's
connections, is the run of its own events: it was accepted, then connected
and relayed as if it were alone, and conforms.  No byte of one connection
reaches another.
-/
theorem listen_spec
    {events : List (Nat × SlotEvent)}
    {final : Nat → Option Link}
    (ran : listen target events = some final)
    {id : Nat}
    {link : Link}
    (accepted : final id = some link) :
    ∃ linkEvents, Fleet.eventsOf id events = .accept :: linkEvents.map .link ∧
      Link.run (.connecting target) linkEvents = some link ∧ Link.Conforms linkEvents link := by
  have own := (Fleet.run_eq_some_iff (Slot.step target) _ final events).mp ran id
  rw [accepted] at own
  obtain ⟨linkEvents, projected, linkRan⟩ := Slot.runOne_none own
  exact ⟨linkEvents, projected, linkRan, Link.run_spec linkRan⟩

/-- Two connections of the sidecar, interleaved: the first relays two bytes, the second is refused. -/
def twoConnections : List (Nat × SlotEvent) :=
  [(0, .accept), (1, .accept), (0, .link (.connect true)), (1, .link (.connect false)),
    (0, .link (.relay .forward (.send [1, 2])))]

theorem listen_spec_twoConnections :
    ∃ linkEvents, Fleet.eventsOf 0 twoConnections = .accept :: linkEvents.map .link ∧
      Link.run (.connecting ⟨3, defaultEnclavePort⟩) linkEvents =
        some ((Link.run (.connecting ⟨3, defaultEnclavePort⟩)
          [.connect true, .relay .forward (.send [1, 2])]).getD .refused) ∧
      Link.Conforms linkEvents ((Link.run (.connecting ⟨3, defaultEnclavePort⟩)
        [.connect true, .relay .forward (.send [1, 2])]).getD .refused) :=
  listen_spec
    (show listen ⟨3, defaultEnclavePort⟩ twoConnections =
      some ((listen ⟨3, defaultEnclavePort⟩ twoConnections).getD fun _ => none) from rfl)
    (show ((listen ⟨3, defaultEnclavePort⟩ twoConnections).getD fun _ => none) 0 =
      some ((Link.run (.connecting ⟨3, defaultEnclavePort⟩)
        [.connect true, .relay .forward (.send [1, 2])]).getD .refused) from rfl)

end Listen

/-! ## Failed accepts

The loops above log a failed accept and accept again.  The TLS loop of the
enclave's `main` is written `listener.accept().await?`: a failed accept
returns the error from `main`, and the loop accepts nothing after it.  Both
kinds of loop are modelled over the results their accepts return, with the
connections they spawn a task for.
-/

section Accepts

variable {conn err : Type}

end Accepts

end NitroEncSvc
