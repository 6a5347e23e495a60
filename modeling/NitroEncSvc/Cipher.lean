import NitroEncSvc.Str
import NitroEncSvc.Base64
import NitroEncSvc.ExceptList

namespace NitroEncSvc

/-!
# Field encryption (`crypto/cipher.rs`)

One PII string is encrypted with AES-256-GCM-SIV under the data encryption key,
with a nonce derived as the first twelve bytes of `HMAC-SHA256(DEK, plaintext)`,
and written as `v1.<base64url(nonce)>.<base64url(ciphertext)>`.

The AEAD, the HMAC and the base64 engine are third-party code, so they are a
parameter, `Primitives`.  What the service relies on from them is stated as
named properties of that parameter (`Primitives.EncodesUrlSafe` and the rest)
and assumed only where a theorem needs it.  `Primitives.sample` is one concrete
parameter with every such property: the base64 engine of
`NitroEncSvc.Base64`, and a toy AEAD that stands in for AES-GCM-SIV.

The text format is a bijection onto its image: `fromStr` reads back every
`toStringRepr`, and every text it accepts is the `toStringRepr` of its result
(`fromStr_toStringRepr`, `toStringRepr_of_fromStr`).
-/

/-- `KEY_LEN`: byte length of an AES-256 key. -/
def keyLen : Nat := 32

/-- `NONCE_LEN`: byte length of an AES-GCM-SIV nonce. -/
def nonceLen : Nat := 12

/-- `VERSION_PREFIX`: the first part of every encrypted field value. -/
def versionPrefix : String := "v1"

/-- `P_MAX` of RFC 8452, `2^36` bytes: the longest plaintext AES-GCM-SIV encrypts. -/
def plaintextMax : Nat := 68719476736

/-- Errors produced by the cipher layer. -/
inductive CipherError where
  | invalidKeyLength
  | aeadFailure
  | invalidFormat
  deriving Repr, DecidableEq

/-- A parsed, encrypted field value: the nonce and the ciphertext with its tag. -/
structure EncryptedField where
  nonce : Vector UInt8 nonceLen
  ciphertext : List UInt8
  deriving Repr, DecidableEq

/-- The third-party primitives `cipher.rs` calls. -/
structure Primitives where
  /-- `URL_SAFE_NO_PAD.encode`. -/
  urlSafeNoPadEncode : List UInt8 → String
  /-- `URL_SAFE_NO_PAD.decode`; `none` stands for any decode error. -/
  urlSafeNoPadDecode : String → Option (List UInt8)
  /-- `HMAC-SHA256(key, data)`. -/
  hmacSha256 : List UInt8 → List UInt8 → Vector UInt8 32
  /-- `Aes256GcmSiv::encrypt`; `none` stands for `aead::Error`. -/
  aes256GcmSivEncrypt :
    Vector UInt8 keyLen → Vector UInt8 nonceLen → List UInt8 → Option (List UInt8)
  /-- `Aes256GcmSiv::decrypt`; `none` stands for `aead::Error`. -/
  aes256GcmSivDecrypt :
    Vector UInt8 keyLen → Vector UInt8 nonceLen → List UInt8 → Option (List UInt8)

namespace Primitives

/-- `URL_SAFE_NO_PAD` writes only characters of the URL-safe alphabet. -/
def EncodesUrlSafe (prims : Primitives) : Prop :=
  ∀ bytes, ∀ c ∈ (prims.urlSafeNoPadEncode bytes).toList, c ∈ Base64.urlSafeAlphabet

/-- `URL_SAFE_NO_PAD` decoding inverts its encoding. -/
def DecodesEncodings (prims : Primitives) : Prop :=
  ∀ bytes, prims.urlSafeNoPadDecode (prims.urlSafeNoPadEncode bytes) = some bytes

/--
`URL_SAFE_NO_PAD` decoding refuses padding and non-canonical trailing bits, so
a text that decodes is the encoding of its result.
-/
def DecodesCanonically (prims : Primitives) : Prop :=
  ∀ text bytes,
    prims.urlSafeNoPadDecode text = some bytes → prims.urlSafeNoPadEncode bytes = text

/-- AES-GCM-SIV decryption inverts encryption under the same key and nonce. -/
def DecryptsEncryptions (prims : Primitives) : Prop :=
  ∀ key nonce plaintext ciphertext,
    prims.aes256GcmSivEncrypt key nonce plaintext = some ciphertext →
      prims.aes256GcmSivDecrypt key nonce ciphertext = some plaintext

/-- AES-GCM-SIV encrypts every plaintext of at most `P_MAX` bytes. -/
def EncryptsWithinLimit (prims : Primitives) : Prop :=
  ∀ key nonce plaintext,
    plaintext.length ≤ plaintextMax → (prims.aes256GcmSivEncrypt key nonce plaintext).isSome

end Primitives

/-! ## A concrete instance -/

/--
A toy stand-in for `Aes256GcmSiv::encrypt`: the nonce as a tag, then the
plaintext masked by the key's first byte; it refuses what exceeds `P_MAX`.
-/
def sampleSeal (key : Vector UInt8 keyLen) (nonce : Vector UInt8 nonceLen)
    (plaintext : List UInt8) : Option (List UInt8) :=
  if plaintext.length ≤ plaintextMax then
    some (nonce.toList ++ plaintext.map (· ^^^ key.get ⟨0, by decide⟩))
  else
    none

/-- Opening a `sampleSeal` box: check the nonce tag, then unmask. -/
def sampleOpen (key : Vector UInt8 keyLen) (nonce : Vector UInt8 nonceLen)
    (ciphertext : List UInt8) : Option (List UInt8) :=
  if nonce.toList.isPrefixOf ciphertext then
    some ((ciphertext.drop nonceLen).map (· ^^^ key.get ⟨0, by decide⟩))
  else
    none

/-- A toy stand-in for `HMAC-SHA256`. -/
def sampleMac (key data : List UInt8) : Vector UInt8 32 :=
  Vector.ofFn fun i => UInt8.ofNat (key.length + data.length + i.val)

/-- Concrete primitives: the base64 engine of `Base64` with the toy AEAD and MAC. -/
def Primitives.sample : Primitives where
  urlSafeNoPadEncode := Base64.encode
  urlSafeNoPadDecode := Base64.decode
  hmacSha256 := sampleMac
  aes256GcmSivEncrypt := sampleSeal
  aes256GcmSivDecrypt := sampleOpen

namespace Primitives

theorem sample_encodesUrlSafe : sample.EncodesUrlSafe :=
  Base64.encode_mem_alphabet

theorem sample_decodesEncodings : sample.DecodesEncodings :=
  Base64.decode_encode

theorem sample_decodesCanonically : sample.DecodesCanonically := fun _ _ decodes =>
  Base64.encode_eq_of_decode_eq_some decodes

/-- Masking twice with the same byte unmasks. -/
theorem map_xor_map_xor (mask : UInt8) (bytes : List UInt8) :
    (bytes.map (· ^^^ mask)).map (· ^^^ mask) = bytes := by
  simp only [List.map_map, Function.comp_def, UInt8.xor_assoc, UInt8.xor_self,
    UInt8.xor_zero, List.map_id']

theorem sample_decryptsEncryptions : sample.DecryptsEncryptions := by
  intro key nonce plaintext ciphertext sealed
  have short : plaintext.length ≤ plaintextMax := by
    by_contra long
    simp [sample, sampleSeal, long] at sealed
  simp only [sample, sampleSeal, short, ↓reduceIte, Option.some.injEq] at sealed
  subst sealed
  have tagged :
      nonce.toList.isPrefixOf (nonce.toList ++ plaintext.map (· ^^^ key.get ⟨0, by decide⟩)) :=
    List.isPrefixOf_iff_prefix.mpr (List.prefix_append _ _)
  have untagged :
      (nonce.toList ++ plaintext.map (· ^^^ key.get ⟨0, by decide⟩)).drop nonceLen =
        plaintext.map (· ^^^ key.get ⟨0, by decide⟩) :=
    List.drop_left' (by simp)
  simp only [sample, sampleOpen, tagged, ↓reduceIte, untagged, map_xor_map_xor]

theorem sample_encryptsWithinLimit : sample.EncryptsWithinLimit := by
  intro key nonce plaintext short
  simp [sample, sampleSeal, short]

end Primitives

section Cipher

variable (prims : Primitives)

/-- `.map_err(|_| error)?` on an `aead` or `base64` result. -/
def orError {α : Type} (error : CipherError) : Option α → Except CipherError α
  | some value => .ok value
  | none => .error error

/-- `derive_nonce`: the first `NONCE_LEN` bytes of `HMAC-SHA256(DEK, plaintext)`. -/
def deriveNonce (dek plaintext : List UInt8) : Vector UInt8 nonceLen :=
  let tag := prims.hmacSha256 dek plaintext
  Vector.ofFn fun i => tag.get (i.castLE (by decide))

/-- `build_cipher`: a key of exactly `KEY_LEN` bytes, or `InvalidKeyLength`. -/
def buildCipher (dek : List UInt8) : Except CipherError (Vector UInt8 keyLen) :=
  if lengthOk : dek.length = keyLen then
    .ok ⟨dek.toArray, lengthOk⟩
  else
    .error .invalidKeyLength

/-- `encrypt_field`: deterministic AES-256-GCM-SIV encryption of one field. -/
def encryptField (plaintext dek : List UInt8) : Except CipherError EncryptedField := do
  let cipher ← buildCipher dek
  let nonce := deriveNonce prims dek plaintext
  let ciphertext ←
    orError .aeadFailure (prims.aes256GcmSivEncrypt cipher nonce plaintext)
  pure { nonce, ciphertext }

/-- `decrypt_field`: the plaintext bytes, or `AeadFailure` when authentication fails. -/
def decryptField (field : EncryptedField) (dek : List UInt8) :
    Except CipherError (List UInt8) := do
  let cipher ← buildCipher dek
  orError .aeadFailure (prims.aes256GcmSivDecrypt cipher field.nonce field.ciphertext)

namespace EncryptedField

/-- `to_string_repr`: `v1.<base64url(nonce)>.<base64url(ciphertext)>`. -/
def toStringRepr (field : EncryptedField) : String :=
  versionPrefix ++ "." ++ prims.urlSafeNoPadEncode field.nonce.toList ++ "." ++
    prims.urlSafeNoPadEncode field.ciphertext

/-- `from_str`: parse `v1.<nonce>.<ciphertext>`, or `InvalidFormat`. -/
def fromStr (text : String) : Except CipherError EncryptedField :=
  match Str.splitn text 3 '.' with
  | [version, noncePart, ciphertextPart] =>
      if version ≠ versionPrefix then
        .error .invalidFormat
      else do
        let nonceBytes ← orError .invalidFormat (prims.urlSafeNoPadDecode noncePart)
        if lengthOk : nonceBytes.length = nonceLen then
          let ciphertext ← orError .invalidFormat (prims.urlSafeNoPadDecode ciphertextPart)
          pure { nonce := ⟨nonceBytes.toArray, lengthOk⟩, ciphertext }
        else
          .error .invalidFormat
  | _ =>
      .error .invalidFormat

end EncryptedField

end Cipher

/-! ## Lemmas about each step -/

@[simp] theorem orError_some {α : Type} (error : CipherError) (value : α) :
    orError error (some value) = .ok value :=
  rfl

@[simp] theorem orError_none {α : Type} (error : CipherError) :
    orError error (none : Option α) = .error error :=
  rfl

/-- A key of `KEY_LEN` bytes builds a cipher on exactly those bytes. -/
theorem buildCipher_of_length
    {dek : List UInt8}
    (lengthOk : dek.length = keyLen) :
    buildCipher dek = .ok ⟨dek.toArray, lengthOk⟩ := by
  simp [buildCipher, lengthOk]

/-- Encryption under a `KEY_LEN`-byte key is the AEAD's result at the derived nonce. -/
theorem encryptField_of_length
    (prims : Primitives)
    (plaintext : List UInt8)
    {dek : List UInt8}
    (lengthOk : dek.length = keyLen) :
    encryptField prims plaintext dek =
      (fun ciphertext => { nonce := deriveNonce prims dek plaintext, ciphertext }) <$>
        orError .aeadFailure
          (prims.aes256GcmSivEncrypt ⟨dek.toArray, lengthOk⟩
            (deriveNonce prims dek plaintext) plaintext) := by
  rw [encryptField, buildCipher_of_length lengthOk, ExceptList.ok_bind]
  dsimp only
  cases prims.aes256GcmSivEncrypt ⟨dek.toArray, lengthOk⟩
    (deriveNonce prims dek plaintext) plaintext <;> rfl

/-- Within `P_MAX`, encryption under a `KEY_LEN`-byte key succeeds. -/
theorem encryptField_isOk
    {prims : Primitives}
    (withinLimit : prims.EncryptsWithinLimit)
    {plaintext dek : List UInt8}
    (lengthOk : dek.length = keyLen)
    (short : plaintext.length ≤ plaintextMax) :
    ∃ field, encryptField prims plaintext dek = .ok field := by
  obtain ⟨ciphertext, sealed⟩ :=
    Option.isSome_iff_exists.mp
      (withinLimit ⟨dek.toArray, lengthOk⟩
        (deriveNonce prims dek plaintext) plaintext short)
  refine ⟨{ nonce := deriveNonce prims dek plaintext, ciphertext }, ?_⟩
  rw [encryptField_of_length prims plaintext lengthOk, sealed]
  rfl

/-- What encryption produces, decryption under the same key opens. -/
theorem decryptField_encryptField
    {prims : Primitives}
    (opens : prims.DecryptsEncryptions)
    {plaintext dek : List UInt8}
    {field : EncryptedField}
    (encrypted : encryptField prims plaintext dek = .ok field) :
    decryptField prims field dek = .ok plaintext := by
  by_cases lengthOk : dek.length = keyLen
  · rw [encryptField_of_length prims plaintext lengthOk] at encrypted
    cases sealed : prims.aes256GcmSivEncrypt ⟨dek.toArray, lengthOk⟩
        (deriveNonce prims dek plaintext) plaintext with
    | none =>
        rw [sealed] at encrypted
        cases encrypted
    | some ciphertext =>
        rw [sealed] at encrypted
        cases encrypted
        rw [decryptField, buildCipher_of_length lengthOk, ExceptList.ok_bind,
          opens _ _ _ _ sealed, orError_some]
  · simp [encryptField, buildCipher, lengthOk] at encrypted

/-! ## The text format -/

section Format

variable {prims : Primitives}

/-- The version prefix has no dot. -/
theorem dot_not_mem_versionPrefix : '.' ∉ versionPrefix.toList := by
  decide

/-- The URL-safe alphabet has no dot. -/
theorem dot_not_mem_urlSafeAlphabet : '.' ∉ Base64.urlSafeAlphabet := by
  decide

/-- A URL-safe encoding never contains the separator of the text format. -/
theorem dot_not_mem_encode
    (urlSafe : prims.EncodesUrlSafe)
    (bytes : List UInt8) :
    '.' ∉ (prims.urlSafeNoPadEncode bytes).toList := fun member =>
  dot_not_mem_urlSafeAlphabet (urlSafe bytes '.' member)

/-- The characters of a field's text: prefix, nonce and ciphertext around two dots. -/
theorem toStringRepr_toList
    (field : EncryptedField) :
    (field.toStringRepr prims).toList =
      versionPrefix.toList ++ '.' ::
        ((prims.urlSafeNoPadEncode field.nonce.toList).toList ++ '.' ::
          (prims.urlSafeNoPadEncode field.ciphertext).toList) := by
  simp [EncryptedField.toStringRepr, String.toList_append]

/-- `splitn(3, '.')` cuts a field's text into prefix, nonce and ciphertext. -/
theorem splitn_toStringRepr
    (urlSafe : prims.EncodesUrlSafe)
    (field : EncryptedField) :
    Str.splitn (field.toStringRepr prims) 3 '.' =
      [versionPrefix, prims.urlSafeNoPadEncode field.nonce.toList,
        prims.urlSafeNoPadEncode field.ciphertext] := by
  rw [Str.splitn, toStringRepr_toList,
    Str.splitnList_three dot_not_mem_versionPrefix (dot_not_mem_encode urlSafe _)]
  simp [String.ofList_toList]

/-- `from_str` reads back every `to_string_repr`. -/
theorem fromStr_toStringRepr
    (urlSafe : prims.EncodesUrlSafe)
    (roundTrip : prims.DecodesEncodings)
    (field : EncryptedField) :
    EncryptedField.fromStr prims (field.toStringRepr prims) = .ok field := by
  obtain ⟨nonce, ciphertext⟩ := field
  rw [EncryptedField.fromStr, splitn_toStringRepr urlSafe]
  simp only [ne_eq, not_true_eq_false, ↓reduceIte, roundTrip nonce.toList,
    roundTrip ciphertext, orError_some, ExceptList.ok_bind, Vector.length_toList,
    ↓reduceDIte, Except.map_ok, bind_pure_comp]
  congr 2

/-- What `from_str` accepts: the version prefix and two parts that decode to the field. -/
theorem fromStr_eq_ok
    {text : String}
    {field : EncryptedField}
    (parsed : EncryptedField.fromStr prims text = .ok field) :
    ∃ noncePart ciphertextPart,
      Str.splitn text 3 '.' = [versionPrefix, noncePart, ciphertextPart] ∧
        prims.urlSafeNoPadDecode noncePart = some field.nonce.toList ∧
        prims.urlSafeNoPadDecode ciphertextPart = some field.ciphertext := by
  unfold EncryptedField.fromStr at parsed
  split at parsed
  · rename_i version noncePart ciphertextPart pieces
    by_cases versionOk : version = versionPrefix
    · subst versionOk
      cases nonceDecoded : prims.urlSafeNoPadDecode noncePart with
      | none =>
          simp [nonceDecoded] at parsed
      | some nonceBytes =>
          by_cases lengthOk : nonceBytes.length = nonceLen
          · cases ciphertextDecoded : prims.urlSafeNoPadDecode ciphertextPart with
            | none =>
                simp [nonceDecoded, ciphertextDecoded] at parsed
            | some ciphertext =>
                simp only [ne_eq, not_true_eq_false, ↓reduceIte, nonceDecoded, orError_some,
                  ExceptList.ok_bind, lengthOk, ↓reduceDIte, ciphertextDecoded,
                  bind_pure_comp, Except.map_ok, Except.ok.injEq] at parsed
                subst parsed
                exact ⟨noncePart, ciphertextPart, pieces, by simpa using nonceDecoded,
                  ciphertextDecoded⟩
          · simp [nonceDecoded, lengthOk] at parsed
    · simp [versionOk] at parsed
  · cases parsed

/-- Every text `from_str` accepts is the `to_string_repr` of its result. -/
theorem toStringRepr_of_fromStr
    (canonical : prims.DecodesCanonically)
    {text : String}
    {field : EncryptedField}
    (parsed : EncryptedField.fromStr prims text = .ok field) :
    field.toStringRepr prims = text := by
  obtain ⟨noncePart, ciphertextPart, pieces, nonceDecoded, ciphertextDecoded⟩ :=
    fromStr_eq_ok parsed
  have textShape := Str.eq_of_splitnList_three (by
    simpa [Str.splitn, List.map_eq_cons_iff, String.toList_inj] using
      congrArg (List.map String.toList) pieces)
  rw [← String.toList_inj, toStringRepr_toList, textShape.1]
  simp [canonical _ _ nonceDecoded, canonical _ _ ciphertextDecoded]

/--
The text format is a bijection onto its image: `from_str` inverts
`to_string_repr`, and each accepted text is the one text of its field.
-/
theorem fromStr_toStringRepr_bijection
    (prims : Primitives)
    (urlSafe : prims.EncodesUrlSafe)
    (roundTrip : prims.DecodesEncodings)
    (canonical : prims.DecodesCanonically) :
    (∀ field : EncryptedField,
        EncryptedField.fromStr prims (field.toStringRepr prims) = .ok field) ∧
      ∀ (text : String) (field : EncryptedField),
        EncryptedField.fromStr prims text = .ok field → field.toStringRepr prims = text :=
  ⟨fromStr_toStringRepr urlSafe roundTrip,
    fun _ _ parsed => toStringRepr_of_fromStr canonical parsed⟩

theorem sample_fromStr_toStringRepr_bijection :
    (∀ field : EncryptedField,
        EncryptedField.fromStr Primitives.sample (field.toStringRepr Primitives.sample) =
          .ok field) ∧
      ∀ (text : String) (field : EncryptedField),
        EncryptedField.fromStr Primitives.sample text = .ok field →
          field.toStringRepr Primitives.sample = text :=
  fromStr_toStringRepr_bijection Primitives.sample Primitives.sample_encodesUrlSafe
    Primitives.sample_decodesEncodings Primitives.sample_decodesCanonically

end Format

end NitroEncSvc
