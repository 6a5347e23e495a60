import Mathlib.Data.List.GetD

namespace NitroEncSvc.Base64

/-!
# Base64 with the URL-safe alphabet and no padding

RFC 4648 §5 as the `URL_SAFE_NO_PAD` engine of the `base64` crate applies it.
Encoding turns three bytes into four characters and a final one or two bytes
into two or three, writing no `=`.  Decoding refuses any character outside the
alphabet (padding included), a lone final character, and a final character
whose unused low bits are not zero.

Under these rules decoding inverts encoding (`decode_encode`), and every text
that decodes is the encoding of its result (`encode_eq_of_decode_eq_some`):
each byte string has exactly one text.
-/

/-- The URL-safe alphabet, in sextet order. -/
def urlSafeAlphabet : List Char :=
  "ABCDEFGHIJKLMNOPQRSTUVWXYZabcdefghijklmnopqrstuvwxyz0123456789-_".toList

theorem urlSafeAlphabet_length : urlSafeAlphabet.length = 64 := by
  decide

theorem urlSafeAlphabet_nodup : urlSafeAlphabet.Nodup := by
  decide

/-- The character written for a sextet. -/
def sextetChar (sextet : Nat) : Char :=
  urlSafeAlphabet.getD sextet 'A'

/-- The sextet a character stands for, when it is in the alphabet. -/
def charSextet (c : Char) : Option Nat :=
  urlSafeAlphabet.idxOf? c

/-- A sextet's character is in the alphabet. -/
theorem sextetChar_mem
    {sextet : Nat}
    (small : sextet < 64) :
    sextetChar sextet ∈ urlSafeAlphabet := by
  have inRange : sextet < urlSafeAlphabet.length := by
    rw [urlSafeAlphabet_length]
    exact small
  rw [sextetChar, List.getD_eq_getElem _ _ inRange]
  exact List.getElem_mem inRange

/-- Reading back the character of a sextet gives the sextet. -/
theorem charSextet_sextetChar
    {sextet : Nat}
    (small : sextet < 64) :
    charSextet (sextetChar sextet) = some sextet := by
  have inRange : sextet < urlSafeAlphabet.length := by
    rw [urlSafeAlphabet_length]
    exact small
  rw [charSextet, sextetChar, List.getD_eq_getElem _ _ inRange,
    List.idxOf?_eq_some_iff]
  refine ⟨inRange, rfl, ?_⟩
  intro earlier earlierLt sameChar
  have indexEq := (List.getElem_inj urlSafeAlphabet_nodup).mp sameChar
  omega

/-- A character that reads as a sextet is that sextet's character. -/
theorem sextetChar_of_charSextet
    {c : Char}
    {sextet : Nat}
    (reads : charSextet c = some sextet) :
    sextetChar sextet = c ∧ sextet < 64 := by
  obtain ⟨inRange, atIndex, -⟩ := List.idxOf?_eq_some_iff.mp reads
  have small : sextet < 64 := urlSafeAlphabet_length ▸ inRange
  refine ⟨?_, small⟩
  rw [sextetChar, List.getD_eq_getElem _ _ inRange]
  exact atIndex

/-! ## Encoding -/

/-- The sextets of a byte string: four per three bytes, two or three at the end. -/
def encodeSextets : List UInt8 → List Nat
  | b0 :: b1 :: b2 :: rest =>
      b0.toNat / 4 :: (b0.toNat % 4 * 16 + b1.toNat / 16) ::
        (b1.toNat % 16 * 4 + b2.toNat / 64) :: b2.toNat % 64 :: encodeSextets rest
  | [b0, b1] =>
      [b0.toNat / 4, b0.toNat % 4 * 16 + b1.toNat / 16, b1.toNat % 16 * 4]
  | [b0] =>
      [b0.toNat / 4, b0.toNat % 4 * 16]
  | [] =>
      []

/-- `URL_SAFE_NO_PAD.encode`. -/
def encode (bytes : List UInt8) : String :=
  String.ofList ((encodeSextets bytes).map sextetChar)

/-- Every sextet of an encoding is below 64. -/
theorem encodeSextets_lt
    (bytes : List UInt8) :
    ∀ sextet ∈ encodeSextets bytes, sextet < 64 := by
  fun_induction encodeSextets bytes with
  | case1 b0 b1 b2 rest inductionHypothesis =>
      have b0Small := b0.toNat_lt
      have b1Small := b1.toNat_lt
      have b2Small := b2.toNat_lt
      intro sextet member
      simp only [List.mem_cons] at member
      rcases member with rfl | rfl | rfl | rfl | inRest
      · omega
      · omega
      · omega
      · omega
      · exact inductionHypothesis sextet inRest
  | case2 b0 b1 =>
      have b0Small := b0.toNat_lt
      have b1Small := b1.toNat_lt
      simp only [List.mem_cons, List.not_mem_nil, or_false]
      omega
  | case3 b0 =>
      have b0Small := b0.toNat_lt
      simp only [List.mem_cons, List.not_mem_nil, or_false]
      omega
  | case4 =>
      simp

/-- `URL_SAFE_NO_PAD` writes only characters of the URL-safe alphabet. -/
theorem encode_mem_alphabet
    (bytes : List UInt8) :
    ∀ c ∈ (encode bytes).toList, c ∈ urlSafeAlphabet := by
  intro c member
  rw [encode, String.toList_ofList, List.mem_map] at member
  obtain ⟨sextet, sextetMember, rfl⟩ := member
  exact sextetChar_mem (encodeSextets_lt bytes sextet sextetMember)

/-! ## Decoding -/

/--
Bytes from sextets: four give three bytes; a final three or two must leave
their unused low bits zero, and a final single sextet is refused.
-/
def decodeSextets : List Nat → Option (List UInt8)
  | s0 :: s1 :: s2 :: s3 :: rest =>
      (fun tail =>
          UInt8.ofNat (s0 * 4 + s1 / 16) :: UInt8.ofNat (s1 % 16 * 16 + s2 / 4) ::
            UInt8.ofNat (s2 % 4 * 64 + s3) :: tail) <$>
        decodeSextets rest
  | [s0, s1, s2] =>
      if s2 % 4 = 0 then
        some [UInt8.ofNat (s0 * 4 + s1 / 16), UInt8.ofNat (s1 % 16 * 16 + s2 / 4)]
      else
        none
  | [s0, s1] =>
      if s1 % 16 = 0 then some [UInt8.ofNat (s0 * 4 + s1 / 16)] else none
  | [_] =>
      none
  | [] =>
      some []

/-- `URL_SAFE_NO_PAD.decode`. -/
def decode (text : String) : Option (List UInt8) :=
  text.toList.mapM charSextet >>= decodeSextets

/-- A byte is the byte of any number equal to its value. -/
theorem ofNat_eq_of_toNat_eq
    {byte : UInt8}
    {n : Nat}
    (same : n = byte.toNat) :
    UInt8.ofNat n = byte := by
  apply UInt8.toNat_inj.mp
  rw [UInt8.toNat_ofNat', same]
  exact Nat.mod_eq_of_lt byte.toNat_lt

/-- The value of a byte built from a number below 256 is that number. -/
theorem toNat_ofNat_of_lt
    {n : Nat}
    (small : n < 256) :
    (UInt8.ofNat n).toNat = n := by
  rw [UInt8.toNat_ofNat']
  exact Nat.mod_eq_of_lt small

/-- Decoding the sextets of an encoding gives the bytes back. -/
theorem decodeSextets_encodeSextets
    (bytes : List UInt8) :
    decodeSextets (encodeSextets bytes) = some bytes := by
  fun_induction encodeSextets bytes with
  | case1 b0 b1 b2 rest inductionHypothesis =>
      have b0Small := b0.toNat_lt
      have b1Small := b1.toNat_lt
      have b2Small := b2.toNat_lt
      rw [decodeSextets, inductionHypothesis]
      simp only [Option.map_eq_map, Option.map_some, Option.some.injEq, List.cons.injEq,
        and_true]
      refine ⟨ofNat_eq_of_toNat_eq ?_, ofNat_eq_of_toNat_eq ?_,
        ofNat_eq_of_toNat_eq ?_⟩ <;> omega
  | case2 b0 b1 =>
      have b0Small := b0.toNat_lt
      have b1Small := b1.toNat_lt
      have lowBitsZero : b1.toNat % 16 * 4 % 4 = 0 := by omega
      rw [decodeSextets, if_pos lowBitsZero]
      simp only [Option.some.injEq, List.cons.injEq, and_true]
      exact ⟨ofNat_eq_of_toNat_eq (by omega), ofNat_eq_of_toNat_eq (by omega)⟩
  | case3 b0 =>
      have b0Small := b0.toNat_lt
      have lowBitsZero : b0.toNat % 4 * 16 % 16 = 0 := by omega
      rw [decodeSextets, if_pos lowBitsZero]
      simp only [Option.some.injEq, List.cons.injEq, and_true]
      exact ofNat_eq_of_toNat_eq (by omega)
  | case4 =>
      rfl

/-- Sextets below 64 read back from their characters. -/
theorem mapM_charSextet_map_sextetChar
    {sextets : List Nat}
    (small : ∀ sextet ∈ sextets, sextet < 64) :
    (sextets.map sextetChar).mapM charSextet = some sextets := by
  induction sextets with
  | nil =>
      rfl
  | cons sextet rest inductionHypothesis =>
      have headSmall := small sextet List.mem_cons_self
      have restSmall : ∀ other ∈ rest, other < 64 :=
        fun other member => small other (List.mem_cons_of_mem _ member)
      simp [List.mapM_cons, charSextet_sextetChar headSmall,
        inductionHypothesis restSmall]

/-- Decoding inverts encoding. -/
theorem decode_encode
    (bytes : List UInt8) :
    decode (encode bytes) = some bytes := by
  rw [decode, encode, String.toList_ofList,
    mapM_charSextet_map_sextetChar (encodeSextets_lt bytes)]
  exact decodeSextets_encodeSextets bytes

/--
Sextets that decode are the sextets of their result: the zero checks on the
final character leave one text per byte string.
-/
theorem encodeSextets_of_decodeSextets
    {sextets : List Nat}
    {bytes : List UInt8}
    (small : ∀ sextet ∈ sextets, sextet < 64)
    (decodes : decodeSextets sextets = some bytes) :
    encodeSextets bytes = sextets := by
  fun_induction decodeSextets sextets generalizing bytes with
  | case1 s0 s1 s2 s3 rest inductionHypothesis =>
      have s0Small := small s0 (by simp)
      have s1Small := small s1 (by simp)
      have s2Small := small s2 (by simp)
      have s3Small := small s3 (by simp)
      have restSmall : ∀ other ∈ rest, other < 64 :=
        fun other member => small other (by simp [member])
      cases restDecodes : decodeSextets rest with
      | none =>
          simp [restDecodes] at decodes
      | some tail =>
          simp only [restDecodes, Option.map_eq_map, Option.map_some,
            Option.some.injEq] at decodes
          subst decodes
          rw [encodeSextets, inductionHypothesis restSmall restDecodes,
            toNat_ofNat_of_lt (by omega), toNat_ofNat_of_lt (by omega),
            toNat_ofNat_of_lt (by omega)]
          simp only [List.cons.injEq, and_true]
          omega
  | case2 s0 s1 s2 lowBitsZero =>
      have s0Small := small s0 (by simp)
      have s1Small := small s1 (by simp)
      have s2Small := small s2 (by simp)
      simp only [Option.some.injEq] at decodes
      subst decodes
      rw [encodeSextets, toNat_ofNat_of_lt (by omega), toNat_ofNat_of_lt (by omega)]
      simp only [List.cons.injEq, and_true]
      omega
  | case3 s0 s1 s2 highBits =>
      simp at decodes
  | case4 s0 s1 lowBitsZero =>
      have s0Small := small s0 (by simp)
      have s1Small := small s1 (by simp)
      simp only [Option.some.injEq] at decodes
      subst decodes
      rw [encodeSextets, toNat_ofNat_of_lt (by omega)]
      simp only [List.cons.injEq, and_true]
      omega
  | case5 s0 s1 highBits =>
      simp at decodes
  | case6 s0 =>
      simp at decodes
  | case7 =>
      simp only [Option.some.injEq] at decodes
      subst decodes
      rfl

/-- Reading characters as sextets succeeds only on alphabet characters, each its own sextet's. -/
theorem map_sextetChar_of_mapM_charSextet
    {chars : List Char}
    {sextets : List Nat}
    (reads : chars.mapM charSextet = some sextets) :
    sextets.map sextetChar = chars ∧ ∀ sextet ∈ sextets, sextet < 64 := by
  induction chars generalizing sextets with
  | nil =>
      simp only [List.mapM_nil, Option.pure_def, Option.some.injEq] at reads
      subst reads
      simp
  | cons c rest inductionHypothesis =>
      rw [List.mapM_cons] at reads
      cases headReads : charSextet c with
      | none =>
          simp [headReads] at reads
      | some sextet =>
          cases restReads : rest.mapM charSextet with
          | none =>
              simp [headReads, restReads] at reads
          | some restSextets =>
              simp only [headReads, restReads, Option.bind_eq_bind, Option.bind_some,
                Option.pure_def, Option.some.injEq] at reads
              subst reads
              obtain ⟨headChar, headSmall⟩ := sextetChar_of_charSextet headReads
              obtain ⟨restChars, restSmall⟩ := inductionHypothesis restReads
              refine ⟨by simp [headChar, restChars], ?_⟩
              intro other member
              rcases List.mem_cons.mp member with rfl | inRest
              · exact headSmall
              · exact restSmall other inRest

/-- A text that decodes is the encoding of its result. -/
theorem encode_eq_of_decode_eq_some
    {text : String}
    {bytes : List UInt8}
    (decodes : decode text = some bytes) :
    encode bytes = text := by
  rw [decode] at decodes
  cases reads : text.toList.mapM charSextet with
  | none =>
      simp [reads] at decodes
  | some sextets =>
      rw [reads, Option.bind_eq_bind, Option.bind_some] at decodes
      obtain ⟨sameChars, small⟩ := map_sextetChar_of_mapM_charSextet reads
      rw [encode, encodeSextets_of_decodeSextets small decodes, sameChars,
        String.ofList_toList]

end NitroEncSvc.Base64
