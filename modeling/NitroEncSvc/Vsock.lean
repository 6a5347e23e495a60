import NitroEncSvc.Config

namespace NitroEncSvc

/-!
# Routing AWS calls over vsock (`aws/vsock_connector.rs`)

`VsockRawConnector` opens the connection for every request of the AWS SDK
clients: plain TCP for a local address, and otherwise a vsock stream to the
parent's proxy, at the port `vsock_port` picks from the host name.  The port
is the configured base plus an offset for the service: one for KMS, two for
Secrets Manager, three for S3, and one for a host it does not recognise.

The sums are `u32` additions.  The release profile of the workspace does not
turn on overflow checks, so they wrap: the model computes them in `UInt32`.
The host is classified by an ordered chain of prefix and infix tests.
-/

/-- `vsock_port`: the proxy port for a host, from the base port. -/
def vsockPort (host : String) (basePort : UInt32) : UInt32 :=
  if Str.startsWith host "kms." then
    basePort + 1
  else if Str.startsWith host "secretsmanager." then
    basePort + 2
  else if Str.startsWith host "s3." || host == "s3.amazonaws.com" || Str.contains host ".s3." then
    basePort + 3
  else
    basePort + 1

/-- The parts of a request URI the connector reads. -/
structure Uri where
  host : Option String
  port : Option UInt16
  deriving Repr, DecidableEq

/-- The stream `call` opens: TCP to a local address, or vsock to the parent. -/
inductive RawStream where
  | tcp (host : String) (port : UInt16)
  | vsock (cid : UInt32) (port : UInt32)
  deriving Repr, DecidableEq

/-- `VsockRawConnector`: the parent's CID and the base port. -/
structure VsockRawConnector where
  cid : UInt32
  basePort : UInt32
  deriving Repr, DecidableEq

namespace VsockRawConnector

/-- The connector `AwsClients::init` builds from the configuration. -/
def ofConfig (cfg : Config) : VsockRawConnector :=
  ⟨cfg.vsockProxyCid, cfg.vsockProxyPort⟩

/-- `call`: where the connection for a URI goes (the address it connects to). -/
def call (self : VsockRawConnector) (uri : Uri) : RawStream :=
  let host := uri.host.getD ""
  if host == "127.0.0.1" || host == "localhost" then
    .tcp host (uri.port.getD 80)
  else
    .vsock self.cid (vsockPort host self.basePort)

end VsockRawConnector

/-! ## The offset of each service -/

/-- The AWS services the enclave's clients call. -/
inductive AwsService where
  | kms
  | secretsManager
  | s3
  deriving Repr, DecidableEq

/-- The port offset the module documentation gives each service. -/
def AwsService.portOffset : AwsService → Nat
  | .kms => 1
  | .secretsManager => 2
  | .s3 => 3

/-- `kms.<region>.<domain>`. -/
def kmsHost (region domain : String) : String :=
  "kms." ++ region ++ "." ++ domain

/-- `secretsmanager.<region>.<domain>`. -/
def secretsManagerHost (region domain : String) : String :=
  "secretsmanager." ++ region ++ "." ++ domain

/-- The path-style S3 endpoint `s3.<region>.amazonaws.com`. -/
def s3PathHost (region : String) : String :=
  "s3." ++ region ++ ".amazonaws.com"

/-- The virtual-hosted S3 endpoint `<bucket>.s3.<region>.amazonaws.com`. -/
def s3VirtualHost (bucket region : String) : String :=
  bucket ++ "." ++ s3PathHost region

/-! ## Where each host is routed -/

/--
A text that starts with a label and a dot starts with a service prefix whose
only dot is its last character only if the label and the dot already do.
-/
theorem startsWith_label_dot_eq_false
    {label servicePrefix : String}
    (dotLast : ∀ part ∈ servicePrefix.toList.inits, part.getLast? = some '.' →
      part = servicePrefix.toList)
    (notPrefix : Str.startsWith (label ++ ".") servicePrefix = false)
    (rest : String) :
    Str.startsWith (label ++ "." ++ rest) servicePrefix = false := by
  refine Str.startsWith_append_eq_false notPrefix ?_ rest
  -- A label and a dot that begin the prefix are the whole prefix.
  rw [Bool.eq_false_iff]
  intro begins
  have isInit : (label ++ ".").toList ∈ servicePrefix.toList.inits :=
    (List.mem_inits _ _).mpr (Str.startsWith_eq_true_iff.mp begins)
  have whole := dotLast _ isInit (by simp)
  have starts : Str.startsWith (label ++ ".") servicePrefix = true :=
    Str.startsWith_eq_true_iff.mpr (whole ▸ List.prefix_refl _)
  simp [starts] at notPrefix

theorem vsockPort_kmsHost
    (region domain : String)
    (basePort : UInt32) :
    vsockPort (kmsHost region domain) basePort = basePort + 1 := by
  have starts : Str.startsWith (kmsHost region domain) "kms." = true := by
    simp only [kmsHost, String.append_assoc]
    exact Str.startsWith_append_self _ _
  simp [vsockPort, starts]

theorem vsockPort_secretsManagerHost
    (region domain : String)
    (basePort : UInt32) :
    vsockPort (secretsManagerHost region domain) basePort = basePort + 2 := by
  have notKms : Str.startsWith (secretsManagerHost region domain) "kms." = false := by
    simp only [secretsManagerHost, String.append_assoc]
    exact Str.startsWith_append_eq_false (by decide) (by decide) _
  have starts : Str.startsWith (secretsManagerHost region domain) "secretsmanager." = true := by
    simp only [secretsManagerHost, String.append_assoc]
    exact Str.startsWith_append_self _ _
  simp [vsockPort, notKms, starts]

theorem vsockPort_s3PathHost
    (region : String)
    (basePort : UInt32) :
    vsockPort (s3PathHost region) basePort = basePort + 3 := by
  have notKms : Str.startsWith (s3PathHost region) "kms." = false := by
    simp only [s3PathHost, String.append_assoc]
    exact Str.startsWith_append_eq_false (by decide) (by decide) _
  have notSecrets : Str.startsWith (s3PathHost region) "secretsmanager." = false := by
    simp only [s3PathHost, String.append_assoc]
    exact Str.startsWith_append_eq_false (by decide) (by decide) _
  have starts : Str.startsWith (s3PathHost region) "s3." = true := by
    simp only [s3PathHost, String.append_assoc]
    exact Str.startsWith_append_self _ _
  simp [vsockPort, notKms, notSecrets, starts]

theorem vsockPort_s3GlobalHost
    (basePort : UInt32) :
    vsockPort "s3.amazonaws.com" basePort = basePort + 3 := by
  have notKms : Str.startsWith "s3.amazonaws.com" "kms." = false := by decide
  have notSecrets : Str.startsWith "s3.amazonaws.com" "secretsmanager." = false := by decide
  simp [vsockPort, notKms, notSecrets]

/--
A virtual-hosted S3 endpoint goes to the S3 port when its bucket, with the dot
after it, begins neither service prefix that is tested first.
-/
theorem vsockPort_s3VirtualHost
    {bucket : String}
    (notKms : Str.startsWith (bucket ++ ".") "kms." = false)
    (notSecrets : Str.startsWith (bucket ++ ".") "secretsmanager." = false)
    (region : String)
    (basePort : UInt32) :
    vsockPort (s3VirtualHost bucket region) basePort = basePort + 3 := by
  have hostNotKms : Str.startsWith (s3VirtualHost bucket region) "kms." = false :=
    startsWith_label_dot_eq_false (by decide) notKms _
  have hostNotSecrets : Str.startsWith (s3VirtualHost bucket region) "secretsmanager." = false :=
    startsWith_label_dot_eq_false (by decide) notSecrets _
  have dotS3 : Str.contains (s3VirtualHost bucket region) ".s3." = true := by
    have split : s3VirtualHost bucket region = bucket ++ ".s3." ++ (region ++ ".amazonaws.com") := by
      simp only [s3VirtualHost, s3PathHost, String.append_assoc]
      rfl
    rw [split]
    exact Str.contains_append_append _ _ _
  simp [vsockPort, hostNotKms, hostNotSecrets, dotS3]

/-! ## The sums -/

/-- Every host goes to the base port plus the offset of some service, as a `u32` sum. -/
theorem exists_vsockPort_eq_add
    (host : String)
    (basePort : UInt32) :
    ∃ service : AwsService, vsockPort host basePort = basePort + UInt32.ofNat service.portOffset := by
  unfold vsockPort
  split_ifs
  · exact ⟨.kms, rfl⟩
  · exact ⟨.secretsManager, rfl⟩
  · exact ⟨.s3, rfl⟩
  · exact ⟨.kms, rfl⟩

/-- A `u32` sum of a small offset equals a port above the offsets exactly when the integer sum does. -/
theorem add_ofNat_eq_iff
    {basePort port : UInt32}
    {offset : Nat}
    (small : offset ≤ 3)
    (above : 3 ≤ port.toNat) :
    basePort + UInt32.ofNat offset = port ↔ basePort.toNat + offset = port.toNat := by
  rw [← UInt32.toNat_inj, UInt32.toNat_add, UInt32.toNat_ofNat']
  -- A sum that wraps lands below the offset, so below the port.
  have baseBelow := basePort.toNat_lt
  have portBelow := port.toNat_lt
  omega

/-- The `u32` sum is the integer sum as long as it stays below `2^32`. -/
theorem toNat_add_portOffset
    {basePort : UInt32}
    (room : basePort.toNat + 3 < 4294967296)
    (service : AwsService) :
    (basePort + UInt32.ofNat service.portOffset).toNat = basePort.toNat + service.portOffset := by
  have offsetSmall : service.portOffset ≤ 3 := by
    cases service <;> decide
  simp only [UInt32.toNat_add, UInt32.toNat_ofNat']
  omega

/-- Below the top three ports the connector's port is the exact sum for the host's service. -/
theorem toNat_vsockPort
    (host : String)
    {basePort : UInt32}
    (room : basePort.toNat + 3 < 4294967296) :
    ∃ service : AwsService, (vsockPort host basePort).toNat = basePort.toNat + service.portOffset := by
  obtain ⟨service, sum⟩ := exists_vsockPort_eq_add host basePort
  exact ⟨service, by rw [sum, toNat_add_portOffset room service]⟩

/-! ## The ports the connector reaches -/

theorem AwsService.exists_iff
    {holds : AwsService → Prop} :
    (∃ service, holds service) ↔ holds .kms ∨ holds .secretsManager ∨ holds .s3 := by
  constructor
  · rintro ⟨service, held⟩
    cases service <;> simp [held]
  · rintro (held | held | held) <;> exact ⟨_, held⟩

/-- Every service has a host, not a local one, that `vsock_port` sends to that service's port. -/
theorem exists_remote_host
    (service : AwsService) :
    ∃ host : String, (host == "127.0.0.1" || host == "localhost") = false ∧
      ∀ basePort, vsockPort host basePort = basePort + UInt32.ofNat service.portOffset := by
  cases service with
  | kms => exact ⟨kmsHost "us-east-1" "amazonaws.com", by decide, vsockPort_kmsHost _ _⟩
  | secretsManager =>
      exact ⟨secretsManagerHost "us-east-1" "amazonaws.com", by decide,
        vsockPort_secretsManagerHost _ _⟩
  | s3 => exact ⟨s3PathHost "us-east-1", by decide, vsockPort_s3PathHost _⟩

namespace VsockRawConnector

theorem call_of_remote
    {host : String}
    (remote : (host == "127.0.0.1" || host == "localhost") = false)
    (self : VsockRawConnector)
    (port : Option UInt16) :
    self.call ⟨some host, port⟩ = .vsock self.cid (vsockPort host self.basePort) := by
  simp only [call, Option.getD_some, remote, Bool.false_eq_true, if_false]

/--
The vsock addresses the connector opens are the parent's CID at the base port
plus the offset of a service, and each such port is opened for some URI.
-/
theorem exists_call_eq_vsock_iff
    (self : VsockRawConnector)
    (cid port : UInt32) :
    (∃ uri, self.call uri = .vsock cid port) ↔
      cid = self.cid ∧
        ∃ service : AwsService, self.basePort + UInt32.ofNat service.portOffset = port := by
  constructor
  · rintro ⟨uri, called⟩
    dsimp only [call] at called
    split at called
    · cases called
    · obtain ⟨rfl, rfl⟩ := RawStream.vsock.inj called
      exact ⟨rfl, (exists_vsockPort_eq_add _ _).imp fun _ sum => sum.symm⟩
  · rintro ⟨rfl, service, rfl⟩
    obtain ⟨host, remote, routed⟩ := exists_remote_host service
    exact ⟨⟨some host, none⟩, by rw [call_of_remote remote, routed]⟩

end VsockRawConnector

theorem vsockRawConnector_call_wraps_and_misroutes :
    { sampleConfig with vsockProxyPort := 4294967295 }.validate = .ok () ∧
      (VsockRawConnector.ofConfig { sampleConfig with vsockProxyPort := 4294967295 }).call
          ⟨some "kms.us-east-1.amazonaws.com", none⟩ = .vsock 3 0 ∧
      (VsockRawConnector.ofConfig sampleConfig).call
          ⟨some "kms.logs.s3.us-east-1.amazonaws.com", none⟩ = .vsock 3 8001 := by
  decide

end NitroEncSvc
