import NitroEncSvc.ExceptList
import NitroEncSvc.Str

namespace NitroEncSvc

/-!
# Service configuration (`config.rs`)

`Config` holds the settings the service reads from its environment at
startup.  `validate` checks them in order and reports the first failure: six
required texts must not be blank, and the vsock CID and both refresh
intervals must not be zero.  The vsock proxy port is not checked: every
`u32` is accepted.

The fields kept are those that `validate` reads and those that the modelled
schema loader and vsock routing use.
-/

/-- `Config`: the validated enclave service configuration. -/
structure Config where
  secretArn : String
  kmsKeyId : String
  s3Bucket : String
  s3Prefix : String
  dekRotationIntervalSecs : UInt64
  schemaRefreshIntervalSecs : UInt64
  vsockProxyCid : UInt32
  vsockProxyPort : UInt32
  tlsCertPath : String
  tlsKeyPath : String
  otelExporterOtlpEndpoint : String
  deriving Repr, DecidableEq

/-- `default_s3_prefix`. -/
def defaultS3Prefix : String := "schemas/"

/-- `default_dek_rotation_interval`. -/
def defaultDekRotationInterval : UInt64 := 3600

/-- `default_schema_refresh_interval`. -/
def defaultSchemaRefreshInterval : UInt64 := 300

/-- `default_vsock_proxy_port`. -/
def defaultVsockProxyPort : UInt32 := 8000

/-- The configuration of the module's tests, which `validate` accepts. -/
def sampleConfig : Config where
  secretArn := "arn"
  kmsKeyId := "key"
  s3Bucket := "bucket"
  s3Prefix := defaultS3Prefix
  dekRotationIntervalSecs := defaultDekRotationInterval
  schemaRefreshIntervalSecs := defaultSchemaRefreshInterval
  vsockProxyCid := 3
  vsockProxyPort := defaultVsockProxyPort
  tlsCertPath := "/run/acm/tls.crt"
  tlsKeyPath := "/run/acm/tls.key"
  otelExporterOtlpEndpoint := "vsock://3:4317"

/-- `ensure_non_empty`: a text that is blank after trimming names its variable. -/
def ensureNonEmpty (value name : String) : Except String Unit :=
  if (Str.trim value).isEmpty then
    .error (name ++ " is required and must not be empty")
  else
    .ok ()

/-- The numeric checks of `validate`: `bail!` with the message when the value is zero. -/
def ensureNonZero {α : Type} [DecidableEq α] [OfNat α 0] (value : α) (message : String) :
    Except String Unit :=
  if value = 0 then .error message else .ok ()

namespace Config

/-- `validate`: every check in order, failing with the first message. -/
def validate (self : Config) : Except String Unit := do
  ensureNonEmpty self.secretArn "SECRET_ARN"
  ensureNonEmpty self.kmsKeyId "KMS_KEY_ID"
  ensureNonEmpty self.s3Bucket "S3_BUCKET"
  ensureNonEmpty self.otelExporterOtlpEndpoint "OTEL_EXPORTER_OTLP_ENDPOINT"
  ensureNonEmpty self.tlsCertPath "TLS_CERT_PATH"
  ensureNonEmpty self.tlsKeyPath "TLS_KEY_PATH"
  ensureNonZero self.vsockProxyCid "VSOCK_PROXY_CID must be a non-zero vsock CID"
  ensureNonZero self.dekRotationIntervalSecs "DEK_ROTATION_INTERVAL_SECS must be > 0"
  ensureNonZero self.schemaRefreshIntervalSecs "SCHEMA_REFRESH_INTERVAL_SECS must be > 0"

/-- The required texts with the names of their variables, in the order they are checked. -/
def requiredTexts (self : Config) : List (String × String) :=
  [(self.secretArn, "SECRET_ARN"), (self.kmsKeyId, "KMS_KEY_ID"), (self.s3Bucket, "S3_BUCKET"),
    (self.otelExporterOtlpEndpoint, "OTEL_EXPORTER_OTLP_ENDPOINT"),
    (self.tlsCertPath, "TLS_CERT_PATH"), (self.tlsKeyPath, "TLS_KEY_PATH")]

/-- The numeric fields with their messages, in the order they are checked. -/
def nonZeroChecks (self : Config) : List (Bool × String) :=
  [(self.vsockProxyCid == 0, "VSOCK_PROXY_CID must be a non-zero vsock CID"),
    (self.dekRotationIntervalSecs == 0, "DEK_ROTATION_INTERVAL_SECS must be > 0"),
    (self.schemaRefreshIntervalSecs == 0, "SCHEMA_REFRESH_INTERVAL_SECS must be > 0")]

end Config

/-! ## What `validate` accepts -/

@[simp] theorem ensureNonEmpty_eq_ok_iff
    {value name : String} :
    ensureNonEmpty value name = .ok () ↔ (Str.trim value).isEmpty = false := by
  unfold ensureNonEmpty
  split <;> simp_all

@[simp] theorem ensureNonZero_eq_ok_iff
    {α : Type} [DecidableEq α] [OfNat α 0]
    {value : α}
    {message : String} :
    ensureNonZero value message = .ok () ↔ value ≠ 0 := by
  unfold ensureNonZero
  split <;> simp_all

theorem ensureNonEmpty_eq_error_iff
    {value name message : String} :
    ensureNonEmpty value name = .error message ↔
      (Str.trim value).isEmpty = true ∧ message = name ++ " is required and must not be empty" := by
  unfold ensureNonEmpty
  by_cases blank : (Str.trim value).isEmpty = true
  · rw [if_pos blank, Except.error.injEq]
    exact ⟨fun same => ⟨blank, same.symm⟩, fun both => both.2.symm⟩
  · simp [blank]

theorem ensureNonZero_eq_error_iff
    {α : Type} [DecidableEq α] [OfNat α 0]
    {value : α}
    {message failure : String} :
    ensureNonZero value message = .error failure ↔ value = 0 ∧ failure = message := by
  unfold ensureNonZero
  by_cases zero : value = 0
  · rw [if_pos zero, Except.error.injEq]
    exact ⟨fun same => ⟨zero, same.symm⟩, fun both => both.2.symm⟩
  · simp [zero]

/-- A sequence of checks passes exactly when the first one and the rest do. -/
theorem bind_eq_ok_unit_iff
    {ε : Type}
    {first : Except ε Unit}
    {rest : Unit → Except ε Unit} :
    first >>= rest = .ok () ↔ first = .ok () ∧ rest () = .ok () := by
  cases first <;> simp [ExceptList.ok_bind, ExceptList.error_bind]

/-- A sequence of checks fails with the first check's failure, or with a later one's. -/
theorem bind_eq_error_unit_iff
    {ε : Type}
    {first : Except ε Unit}
    {rest : Unit → Except ε Unit}
    {failure : ε} :
    first >>= rest = .error failure ↔
      first = .error failure ∨ first = .ok () ∧ rest () = .error failure := by
  cases first <;> simp [ExceptList.ok_bind, ExceptList.error_bind]

namespace Config

/-- `validate` accepts exactly the configurations whose texts are not blank and counts not zero. -/
theorem validate_eq_ok_iff
    (self : Config) :
    self.validate = .ok () ↔
      (∀ entry ∈ self.requiredTexts, (Str.trim entry.1).isEmpty = false) ∧
        self.vsockProxyCid ≠ 0 ∧ self.dekRotationIntervalSecs ≠ 0 ∧
        self.schemaRefreshIntervalSecs ≠ 0 := by
  simp only [validate, bind_eq_ok_unit_iff, ensureNonEmpty_eq_ok_iff, ensureNonZero_eq_ok_iff,
    requiredTexts, List.mem_cons, List.not_mem_nil, or_false, forall_eq_or_imp, forall_eq,
    and_assoc]

/-- Every failure of `validate` is the message of a check that fails, naming its variable. -/
theorem validate_eq_error
    {self : Config}
    {message : String}
    (failed : self.validate = .error message) :
    (∃ entry ∈ self.requiredTexts, (Str.trim entry.1).isEmpty = true ∧
        message = entry.2 ++ " is required and must not be empty") ∨
      ∃ check ∈ self.nonZeroChecks, check.1 = true ∧ message = check.2 := by
  simp only [validate, bind_eq_error_unit_iff, ensureNonEmpty_eq_error_iff,
    ensureNonZero_eq_error_iff, ensureNonEmpty_eq_ok_iff, ensureNonZero_eq_ok_iff] at failed
  simp only [requiredTexts, nonZeroChecks, List.mem_cons, List.not_mem_nil, or_false,
    exists_eq_or_imp, exists_eq_left, beq_iff_eq]
  -- Each failure comes after the checks before it passed; only the failure is kept.
  rcases failed with failure | ⟨-, failure | ⟨-, failure | ⟨-, failure | ⟨-, failure |
    ⟨-, failure | ⟨-, failure | ⟨-, failure | ⟨-, failure⟩⟩⟩⟩⟩⟩⟩⟩
  · exact .inl (.inl failure)
  · exact .inl (.inr (.inl failure))
  · exact .inl (.inr (.inr (.inl failure)))
  · exact .inl (.inr (.inr (.inr (.inl failure))))
  · exact .inl (.inr (.inr (.inr (.inr (.inl failure)))))
  · exact .inl (.inr (.inr (.inr (.inr (.inr failure)))))
  · exact .inr (.inl failure)
  · exact .inr (.inr (.inl failure))
  · exact .inr (.inr (.inr failure))

example : sampleConfig.validate = .ok () := by
  decide

/-- The port is not checked: `validate` gives the same answer for every `u32` port. -/
theorem validate_vsockProxyPort
    (self : Config)
    (port : UInt32) :
    { self with vsockProxyPort := port }.validate = self.validate :=
  rfl

end Config

end NitroEncSvc
