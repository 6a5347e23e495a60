import Mathlib.Data.Finset.Dedup
import Mathlib.Data.Finset.Insert
import Mathlib.Data.List.Sort
import Mathlib.Data.String.Basic
import NitroEncSvc.PathTraversal
import NitroEncSvc.Resolver
import NitroEncSvc.Cipher
import NitroEncSvc.Dek

namespace NitroEncSvc

/-!
# The PII fields of a payload (`server/handlers.rs`)

`encrypt_pii_fields` and `decrypt_pii_fields` run one walk per path of the
schema's `PiiFieldPaths`, in the order in which the `HashSet` yields them, and
stop at the first error.  Both are the loop `visitPiiFields` with the leaf
action of their walk.

The loop refines `rewritePiiFields`, a fold of pure rewrites.  Distinct paths
reach disjoint positions, so each step of the fold leaves the strings of the
later paths alone: the fold rewrites every string that some path reaches,
once, and its result does not depend on the order of the paths.  On this the
three results about the handlers rest: encryption replaces exactly the
reached strings, whatever the order (`encryptPiiFields_spec`); decryption
inverts it (`decryptPiiFields_encryptPiiFields`); and decryption fails exactly
on a reached string with the `v1.` prefix that it cannot open
(`decryptPiiFields_spec`).
-/

open Json

/-- An order in which `for path in pii_paths` can visit a set: each member once. -/
structure IterationOrder (paths : PiiFieldPaths) where
  list : List String
  enumerates : (list : Multiset String) = paths.val

namespace IterationOrder

variable {paths : PiiFieldPaths}

/-- No path is visited twice. -/
theorem nodup (order : IterationOrder paths) : order.list.Nodup := by
  rw [← Multiset.coe_nodup, order.enumerates]
  exact paths.nodup

/-- The visited paths are the members of the set. -/
theorem mem_iff (order : IterationOrder paths) {path : String} :
    path ∈ order.list ↔ path ∈ paths := by
  rw [← Multiset.mem_coe, order.enumerates]
  rfl

/-- Two orders of one set visit the same paths. -/
theorem perm (order other : IterationOrder paths) : order.list.Perm other.list :=
  Quotient.exact (order.enumerates.trans other.enumerates.symm)

/-- The paths in ascending order: one order a `HashSet` may yield them in, and one that computes. -/
def ascending (paths : PiiFieldPaths) : IterationOrder paths where
  list := Quotient.liftOn paths.val (fun list => list.insertionSort (· ≤ ·))
    fun _ _ related => List.Perm.eq_of_sortedLE List.sortedLE_insertionSort
      List.sortedLE_insertionSort
      (((List.perm_insertionSort _ _).trans related).trans (List.perm_insertionSort _ _).symm)
  enumerates := by
    rcases paths with ⟨⟨list⟩, nodup⟩
    exact Quotient.sound (List.perm_insertionSort _ list)

end IterationOrder

/-! ## The loop over the paths -/

/-- The loop shared by `encrypt_pii_fields` and `decrypt_pii_fields`. -/
def visitPiiFields {ε : Type} (leaf : String → Except ε String) (payload : Value)
    (piiPaths : List String) : Except ε Value :=
  piiPaths.foldlM (fun payload path => visitAtPath leaf (parsePath path) payload) payload

/-- The loop with a leaf function that cannot fail. -/
def rewritePiiFields (f : String → String) (piiPaths : List String) (payload : Value) :
    Value :=
  piiPaths.foldl (fun payload path => rewriteAtPath f (parsePath path) payload) payload

/-- Some path of the list reaches the position. -/
def PiiReached (value : Value) (piiPaths : List String) (position : Position) : Prop :=
  ∃ path ∈ piiPaths, Reached value (parsePath path) position

instance (value : Value) (piiPaths : List String) (position : Position) :
    Decidable (PiiReached value piiPaths position) :=
  inferInstanceAs (Decidable (∃ path ∈ piiPaths, Reached value (parsePath path) position))

section Rewrite

variable (f : String → String)

@[simp] theorem rewritePiiFields_nil (payload : Value) :
    rewritePiiFields f [] payload = payload :=
  rfl

@[simp] theorem rewritePiiFields_cons (path : String) (rest : List String) (payload : Value) :
    rewritePiiFields f (path :: rest) payload =
      rewritePiiFields f rest (rewriteAtPath f (parsePath path) payload) :=
  rfl

/-- The fold changes strings only: the payload keeps its shape. -/
theorem eraseStrings_rewritePiiFields
    (piiPaths : List String)
    (payload : Value) :
    (rewritePiiFields f piiPaths payload).eraseStrings = payload.eraseStrings := by
  induction piiPaths generalizing payload with
  | nil =>
      rfl
  | cons path rest inductionHypothesis =>
      rw [rewritePiiFields_cons, inductionHypothesis,
        eraseStrings_rewriteAtPath]

/-- The fold moves no position a walk reaches. -/
theorem reached_rewritePiiFields_iff
    {piiPaths : List String}
    {payload : Value}
    {segments : List PathSegment}
    {position : Position} :
    Reached (rewritePiiFields f piiPaths payload) segments position ↔
      Reached payload segments position := by
  have sameShape : (rewritePiiFields f piiPaths payload).SameShape payload :=
    eraseStrings_rewritePiiFields f piiPaths payload
  simp only [Reached, sameShape.at?_isSome position]

/-- A rewrite along a path commutes with the fold over paths it is not among. -/
theorem rewriteAtPath_rewritePiiFields
    (g : String → String)
    {path : String}
    {piiPaths : List String}
    (absent : path ∉ piiPaths)
    (payload : Value) :
    rewriteAtPath g (parsePath path) (rewritePiiFields f piiPaths payload) =
      rewritePiiFields f piiPaths (rewriteAtPath g (parsePath path) payload) := by
  induction piiPaths generalizing payload with
  | nil =>
      rfl
  | cons other rest inductionHypothesis =>
      have differ : path ≠ other := fun same => absent (same ▸ List.mem_cons_self)
      have restAbsent : path ∉ rest := fun member => absent (List.mem_cons_of_mem _ member)
      rw [rewritePiiFields_cons,
        inductionHypothesis restAbsent,
        rewriteAtPath_comm g f (parsePath_injective.ne differ)]
      rfl

/--
The fold applies `f` to the string at each position some path reaches, once,
and keeps every other string.
-/
theorem at?_rewritePiiFields_of_string
    {piiPaths : List String}
    (noDuplicates : piiPaths.Nodup)
    {payload : Value}
    {position : Position}
    {text : String}
    (found : payload.at? position = some (.string text)) :
    (rewritePiiFields f piiPaths payload).at? position =
      some (.string (if PiiReached payload piiPaths position then f text else text)) := by
  induction piiPaths generalizing payload text with
  | nil =>
      simp [PiiReached, found]
  | cons path rest inductionHypothesis =>
      obtain ⟨pathAbsent, restNoDuplicates⟩ := List.nodup_cons.mp noDuplicates
      have firstStep :
          (rewriteAtPath f (parsePath path) payload).at? position =
            some (.string (if Reached payload (parsePath path) position then f text else text)) :=
        at?_rewriteAtPath_of_string f found
      rw [rewritePiiFields_cons,
        inductionHypothesis restNoDuplicates firstStep]
      have laterReach :
          PiiReached (rewriteAtPath f (parsePath path) payload) rest position ↔
            PiiReached payload rest position := by
        simp only [PiiReached, reached_rewriteAtPath_iff]
      by_cases firstReached : Reached payload (parsePath path) position
      · -- The first path reaches the string, so no later path does.
        have notLater : ¬ PiiReached payload rest position := by
          rintro ⟨other, member, otherReached⟩
          have differ : path ≠ other := fun same => pathAbsent (same ▸ member)
          exact not_reached_of_reached (parsePath_injective.ne differ) firstReached otherReached
        have reachedHere : PiiReached payload (path :: rest) position :=
          ⟨path, List.mem_cons_self, firstReached⟩
        simp [laterReach, notLater, firstReached, reachedHere]
      · have sameReach : PiiReached payload (path :: rest) position ↔
            PiiReached payload rest position := by
          simp [PiiReached, firstReached]
        simp [laterReach, firstReached, sameReach]

/-- The result of the fold does not depend on the order of the paths. -/
theorem rewritePiiFields_perm
    {piiPaths others : List String}
    (reordered : piiPaths.Perm others)
    (payload : Value) :
    rewritePiiFields f piiPaths payload = rewritePiiFields f others payload := by
  apply reordered.foldl_eq'
  intro first firstMember second secondMember current
  by_cases same : first = second
  · subst same
    rfl
  · exact rewriteAtPath_comm f f (parsePath_injective.ne (Ne.symm same)) _

/-- Two folds over one list of paths are one fold by the composite. -/
theorem rewritePiiFields_rewritePiiFields
    (g : String → String)
    {piiPaths : List String}
    (noDuplicates : piiPaths.Nodup)
    (payload : Value) :
    rewritePiiFields g piiPaths (rewritePiiFields f piiPaths payload) =
      rewritePiiFields (g ∘ f) piiPaths payload := by
  induction piiPaths generalizing payload with
  | nil =>
      rfl
  | cons path rest inductionHypothesis =>
      obtain ⟨pathAbsent, restNoDuplicates⟩ := List.nodup_cons.mp noDuplicates
      -- Move the second rewrite along `path` past the first fold over `rest`.
      rw [rewritePiiFields_cons, rewritePiiFields_cons,
        rewriteAtPath_rewritePiiFields f g pathAbsent, rewriteAtPath_rewriteAtPath_self,
        inductionHypothesis restNoDuplicates]
      rfl

/-- The fold by the identity changes nothing. -/
theorem rewritePiiFields_id
    (piiPaths : List String)
    (payload : Value) :
    rewritePiiFields id piiPaths payload = payload := by
  induction piiPaths generalizing payload with
  | nil =>
      rfl
  | cons path rest inductionHypothesis =>
      rw [rewritePiiFields_cons, rewriteAtPath_id,
        inductionHypothesis]

end Rewrite

/-! ## The loop refines the fold -/

section Loop

variable {ε : Type} {leaf : String → Except ε String}

theorem visitPiiFields_cons
    (payload : Value)
    (path : String)
    (rest : List String) :
    visitPiiFields leaf payload (path :: rest) =
      visitAtPath leaf (parsePath path) payload >>= fun next => visitPiiFields leaf next rest :=
  rfl

/--
When the leaf action agrees with `f` on the strings each path reaches, the
loop succeeds with the fold of pure rewrites by `f`.
-/
theorem visitPiiFields_eq_ok
    {f : String → String}
    {piiPaths : List String}
    (noDuplicates : piiPaths.Nodup)
    {payload : Value}
    (agrees : ∀ path ∈ piiPaths, LeafAgrees leaf f payload (parsePath path)) :
    visitPiiFields leaf payload piiPaths = .ok (rewritePiiFields f piiPaths payload) := by
  induction piiPaths generalizing payload with
  | nil =>
      rfl
  | cons path rest inductionHypothesis =>
      obtain ⟨pathAbsent, restNoDuplicates⟩ := List.nodup_cons.mp noDuplicates
      -- The first walk leaves the strings of every later path as they were.
      have restAgree : ∀ other ∈ rest,
          LeafAgrees leaf f (rewriteAtPath f (parsePath path) payload) (parsePath other) :=
        fun other member =>
          (agrees other (List.mem_cons_of_mem _ member)).rewriteAtPath_of_ne
            (parsePath_injective.ne fun same => pathAbsent (same ▸ member))
      rw [visitPiiFields_cons, visitAtPath_eq_ok (agrees path List.mem_cons_self),
        ExceptList.ok_bind, inductionHypothesis restNoDuplicates restAgree]
      rfl

/-- A string some path reaches on which the leaf action fails makes the loop fail. -/
theorem visitPiiFields_isOk_eq_false
    {piiPaths : List String}
    (noDuplicates : piiPaths.Nodup)
    {payload : Value}
    {path : String}
    (member : path ∈ piiPaths)
    {position : Position}
    {text : String}
    (reached : Reached payload (parsePath path) position)
    (found : payload.at? position = some (.string text))
    (failure : (leaf text).isOk = false) :
    (visitPiiFields leaf payload piiPaths).isOk = false := by
  induction piiPaths generalizing payload with
  | nil =>
      simp at member
  | cons first rest inductionHypothesis =>
      obtain ⟨firstAbsent, restNoDuplicates⟩ := List.nodup_cons.mp noDuplicates
      rw [visitPiiFields_cons]
      cases firstResult : visitAtPath leaf (parsePath first) payload with
      | error e =>
          rfl
      | ok next =>
          rw [ExceptList.ok_bind]
          rcases List.mem_cons.mp member with rfl | inRest
          · -- The failing string is on the first path, whose walk cannot have succeeded.
            have firstFails := visitAtPath_isOk_eq_false reached found failure
            rw [firstResult] at firstFails
            cases firstFails
          · -- The first walk succeeded and left the failing string where it was.
            have succeeded : (visitAtPath leaf (parsePath first) payload).isOk = true := by
              rw [firstResult]
              rfl
            have nextIsRewrite := visitAtPath_eq_ok_of_isOk succeeded
            rw [firstResult, Except.ok.injEq] at nextIsRewrite
            subst nextIsRewrite
            have differ : parsePath first ≠ parsePath path :=
              parsePath_injective.ne fun same => firstAbsent (same ▸ inRest)
            have kept :
                (rewriteAtPath (leafOrSelf leaf) (parsePath first) payload).at? position =
                  some (.string text) := by
              rw [at?_rewriteAtPath_of_string _ found,
                if_neg fun firstReached => not_reached_of_reached differ firstReached reached]
            exact inductionHypothesis restNoDuplicates inRest
              ((reached_rewriteAtPath_iff _).mpr reached) kept

/-- A loop that succeeds is the fold of what the leaf action returns. -/
theorem visitPiiFields_eq_ok_of_isOk
    {piiPaths : List String}
    (noDuplicates : piiPaths.Nodup)
    {payload : Value}
    (succeeds : (visitPiiFields leaf payload piiPaths).isOk = true) :
    visitPiiFields leaf payload piiPaths =
      .ok (rewritePiiFields (leafOrSelf leaf) piiPaths payload) := by
  apply visitPiiFields_eq_ok noDuplicates
  intro path member position text reached found
  apply eq_ok_leafOrSelf
  by_contra leafFails
  have loopFails := visitPiiFields_isOk_eq_false noDuplicates member reached found
    (Bool.eq_false_iff.mpr leafFails)
  rw [succeeds] at loopFails
  cases loopFails

/-- A loop that fails has a reached string on which the leaf action fails. -/
theorem exists_failing_of_visitPiiFields
    {piiPaths : List String}
    (noDuplicates : piiPaths.Nodup)
    {payload : Value}
    (fails : (visitPiiFields leaf payload piiPaths).isOk = false) :
    ∃ path ∈ piiPaths, ∃ position text, Reached payload (parsePath path) position ∧
      payload.at? position = some (.string text) ∧ (leaf text).isOk = false := by
  by_contra noFailure
  have agrees : ∀ path ∈ piiPaths,
      LeafAgrees leaf (leafOrSelf leaf) payload (parsePath path) := by
    intro path member position text reached found
    apply eq_ok_leafOrSelf
    by_contra leafFails
    exact noFailure ⟨path, member, position, text, reached, found,
      Bool.eq_false_iff.mpr leafFails⟩
  rw [visitPiiFields_eq_ok noDuplicates agrees] at fails
  cases fails

end Loop

/-- Folds by functions that agree on every reached string are equal. -/
theorem rewritePiiFields_congr
    {f g : String → String}
    {piiPaths : List String}
    (noDuplicates : piiPaths.Nodup)
    {payload : Value}
    (agree : ∀ path ∈ piiPaths, ∀ position text, Reached payload (parsePath path) position →
      payload.at? position = some (.string text) → f text = g text) :
    rewritePiiFields f piiPaths payload = rewritePiiFields g piiPaths payload := by
  -- Both are the loop whose leaf action returns `f`.
  have byF : visitPiiFields (fun text => (.ok (f text) : Except Empty String)) payload piiPaths =
      .ok (rewritePiiFields f piiPaths payload) :=
    visitPiiFields_eq_ok noDuplicates fun _ _ _ _ _ _ => rfl
  have byG : visitPiiFields (fun text => (.ok (f text) : Except Empty String)) payload piiPaths =
      .ok (rewritePiiFields g piiPaths payload) :=
    visitPiiFields_eq_ok noDuplicates fun path member position text reached found => by
      rw [agree path member position text reached found]
  exact Except.ok.inj (byF.symm.trans byG)

/-- Some path of the set matches the position, segment for step. -/
def PiiMatched (piiPaths : PiiFieldPaths) (position : Position) : Prop :=
  ∃ path ∈ piiPaths, List.Forall₂ PathSegment.Matches (parsePath path) position

instance (piiPaths : PiiFieldPaths) (position : Position) :
    Decidable (PiiMatched piiPaths position) :=
  inferInstanceAs
    (Decidable (∃ path ∈ piiPaths, List.Forall₂ PathSegment.Matches (parsePath path) position))

/-- At a position the payload has, an order of the set reaches what the set matches. -/
theorem piiReached_iff_piiMatched
    {piiPaths : PiiFieldPaths}
    (order : IterationOrder piiPaths)
    {payload : Value}
    {position : Position}
    (present : (payload.at? position).isSome) :
    PiiReached payload order.list position ↔ PiiMatched piiPaths position := by
  simp only [PiiReached, PiiMatched, Reached, present, and_true, order.mem_iff]

/-! ## The handlers' walks and loops -/

section Handlers

variable (prims : Primitives)

/-- The leaf of `encrypt_at_path`: encrypt the string's bytes and write the field's text. -/
def encryptLeaf (dek : List UInt8) (text : String) : Except CipherError String := do
  let encrypted ← encryptField prims (Str.asBytes text) dek
  pure (encrypted.toStringRepr prims)

/-- `encrypt_at_path`. -/
def encryptAtPath (value : Value) (segments : List PathSegment) (dek : List UInt8) :
    Except CipherError Value :=
  visitAtPath (encryptLeaf prims dek) segments value

/-- `encrypt_pii_fields`. -/
def encryptPiiFields (payload : Value) (piiPaths : List String) (dek : List UInt8) :
    Except CipherError Value :=
  piiPaths.foldlM (fun payload path => encryptAtPath prims payload (parsePath path) dek) payload

/--
The leaf of `decrypt_at_path`: a string with the `v1.` prefix is parsed,
decrypted and read back as UTF-8; any other string is left as it is.
-/
def decryptLeaf (dek : List UInt8) (text : String) : Except CipherError String :=
  if Str.startsWith text "v1." then do
    let field ← EncryptedField.fromStr prims text
    let plaintext ← decryptField prims field dek
    orError .aeadFailure (Str.fromUtf8 plaintext)
  else
    pure text

/-- `decrypt_at_path`. -/
def decryptAtPath (value : Value) (segments : List PathSegment) (dek : List UInt8) :
    Except CipherError Value :=
  visitAtPath (decryptLeaf prims dek) segments value

/-- `decrypt_pii_fields`. -/
def decryptPiiFields (payload : Value) (piiPaths : List String) (dek : List UInt8) :
    Except CipherError Value :=
  piiPaths.foldlM (fun payload path => decryptAtPath prims payload (parsePath path) dek) payload

theorem encryptPiiFields_eq_visitPiiFields
    (payload : Value)
    (piiPaths : List String)
    (dek : List UInt8) :
    encryptPiiFields prims payload piiPaths dek =
      visitPiiFields (encryptLeaf prims dek) payload piiPaths :=
  rfl

theorem decryptPiiFields_eq_visitPiiFields
    (payload : Value)
    (piiPaths : List String)
    (dek : List UInt8) :
    decryptPiiFields prims payload piiPaths dek =
      visitPiiFields (decryptLeaf prims dek) payload piiPaths :=
  rfl

end Handlers

/-! ## One string -/

section Leaves

variable {prims : Primitives}

/-- Every field's text carries the `v1.` prefix. -/
theorem startsWith_toStringRepr
    (field : EncryptedField) :
    Str.startsWith (field.toStringRepr prims) "v1." = true := by
  have prefixChars : "v1.".toList = ['v', '1', '.'] := rfl
  simp [Str.startsWith, toStringRepr_toList, versionPrefix, prefixChars]

/-- Within `P_MAX`, encrypting a string succeeds with the text of its field. -/
theorem encryptLeaf_eq_ok
    (withinLimit : prims.EncryptsWithinLimit)
    (dek : DekBytes)
    {text : String}
    (short : (Str.asBytes text).length ≤ plaintextMax) :
    ∃ field, encryptField prims (Str.asBytes text) dek.bytes.toList = .ok field ∧
      encryptLeaf prims dek.bytes.toList text = .ok (field.toStringRepr prims) := by
  obtain ⟨field, encrypted⟩ := encryptField_isOk withinLimit Vector.length_toList short
  refine ⟨field, encrypted, ?_⟩
  simp [encryptLeaf, encrypted]

/-- Decryption opens the text encryption wrote, back to the original string. -/
theorem decryptLeaf_toStringRepr
    (urlSafe : prims.EncodesUrlSafe)
    (roundTrip : prims.DecodesEncodings)
    (opens : prims.DecryptsEncryptions)
    {dek : List UInt8}
    {text : String}
    {field : EncryptedField}
    (encrypted : encryptField prims (Str.asBytes text) dek = .ok field) :
    decryptLeaf prims dek (field.toStringRepr prims) = .ok text := by
  simp [decryptLeaf, startsWith_toStringRepr, fromStr_toStringRepr urlSafe roundTrip,
    decryptField_encryptField opens encrypted]

/-- A string without the `v1.` prefix is kept by decryption. -/
theorem decryptLeaf_of_startsWith_eq_false
    (dek : List UInt8)
    {text : String}
    (plain : Str.startsWith text "v1." = false) :
    decryptLeaf prims dek text = .ok text := by
  simp only [decryptLeaf, plain, Bool.false_eq_true, ↓reduceIte]
  rfl

/--
`decrypt_at_path` opens a `v1.` text to `decoded`: the text parses, its
ciphertext authenticates under the key, and the plaintext is UTF-8.
-/
def OpensTo (prims : Primitives) (dek : List UInt8) (text decoded : String) : Prop :=
  ∃ field plaintext, EncryptedField.fromStr prims text = .ok field ∧
    decryptField prims field dek = .ok plaintext ∧ Str.fromUtf8 plaintext = some decoded

/-- A `v1.` string decrypts to `decoded` exactly when it opens to it. -/
theorem decryptLeaf_eq_ok_iff
    {dek : List UInt8}
    {text decoded : String}
    (tagged : Str.startsWith text "v1." = true) :
    decryptLeaf prims dek text = .ok decoded ↔ OpensTo prims dek text decoded := by
  simp only [decryptLeaf, tagged, ↓reduceIte, OpensTo]
  constructor
  · intro decrypted
    cases parsed : EncryptedField.fromStr prims text with
    | error e =>
        rw [parsed] at decrypted
        cases decrypted
    | ok field =>
        rw [parsed, ExceptList.ok_bind] at decrypted
        cases opened : decryptField prims field dek with
        | error e =>
            rw [opened] at decrypted
            cases decrypted
        | ok plaintext =>
            rw [opened, ExceptList.ok_bind] at decrypted
            cases utf8 : Str.fromUtf8 plaintext with
            | none =>
                rw [utf8] at decrypted
                cases decrypted
            | some text' =>
                rw [utf8, orError_some, Except.ok.injEq] at decrypted
                exact ⟨field, plaintext, rfl, opened, by rw [utf8, decrypted]⟩
  · rintro ⟨field, plaintext, parsed, opened, utf8⟩
    rw [parsed, ExceptList.ok_bind, opened, ExceptList.ok_bind, utf8, orError_some]

end Leaves

/-! ## Whole payloads -/

section Payloads

variable {prims : Primitives}

/--
Within `P_MAX`, every order of the paths encrypts the payload to the one fold
that seals each reached string.
-/
theorem encryptPiiFields_eq_rewritePiiFields
    (withinLimit : prims.EncryptsWithinLimit)
    {payload : Value}
    (fits : ∀ text ∈ payload.strings, (Str.asBytes text).length ≤ plaintextMax)
    {piiPaths : PiiFieldPaths}
    (dek : DekBytes)
    (order : IterationOrder piiPaths) :
    encryptPiiFields prims payload order.list dek.bytes.toList =
      .ok (rewritePiiFields (leafOrSelf (encryptLeaf prims dek.bytes.toList))
        piiPaths.toList payload) := by
  have agrees : ∀ path ∈ order.list, LeafAgrees (encryptLeaf prims dek.bytes.toList)
      (leafOrSelf (encryptLeaf prims dek.bytes.toList)) payload (parsePath path) := by
    intro path _ position text _ found
    obtain ⟨field, _, sealed⟩ :=
      encryptLeaf_eq_ok withinLimit dek (fits text (Value.mem_strings_of_at? found))
    exact eq_ok_leafOrSelf (by rw [sealed]; rfl)
  rw [encryptPiiFields_eq_visitPiiFields, visitPiiFields_eq_ok order.nodup agrees,
    rewritePiiFields_perm _ (order.perm ⟨piiPaths.toList, Finset.coe_toList piiPaths⟩)]

/-- In the encrypted payload, a string some path matches holds the text of its field. -/
theorem at?_rewritePiiFields_encryptLeaf_of_piiMatched
    (withinLimit : prims.EncryptsWithinLimit)
    {payload : Value}
    (fits : ∀ text ∈ payload.strings, (Str.asBytes text).length ≤ plaintextMax)
    {piiPaths : PiiFieldPaths}
    (dek : DekBytes)
    {position : Position}
    {text : String}
    (found : payload.at? position = some (.string text))
    (matched : PiiMatched piiPaths position) :
    ∃ field, encryptField prims (Str.asBytes text) dek.bytes.toList = .ok field ∧
      (rewritePiiFields (leafOrSelf (encryptLeaf prims dek.bytes.toList)) piiPaths.toList
        payload).at? position = some (.string (field.toStringRepr prims)) := by
  let canonical : IterationOrder piiPaths := ⟨piiPaths.toList, Finset.coe_toList piiPaths⟩
  have reached := (piiReached_iff_piiMatched canonical (by rw [found]; rfl)).mpr matched
  obtain ⟨field, encrypted, sealed⟩ :=
    encryptLeaf_eq_ok withinLimit dek (fits text (Value.mem_strings_of_at? found))
  refine ⟨field, encrypted, ?_⟩
  rw [at?_rewritePiiFields_of_string _ canonical.nodup found, if_pos reached]
  simp only [leafOrSelf, sealed]

/--
`encrypt_pii_fields` meets its functional specification in every iteration
order: it succeeds with one result, of the payload's shape, in which each
string at a position some PII path matches is replaced by the text of its
encryption, once, and every other string is kept.
-/
theorem encryptPiiFields_spec
    (prims : Primitives)
    (withinLimit : prims.EncryptsWithinLimit)
    (payload : Value)
    (fits : ∀ text ∈ payload.strings, (Str.asBytes text).length ≤ plaintextMax)
    (piiPaths : PiiFieldPaths)
    (dek : DekBytes) :
    ∃ encrypted : Value,
      (∀ order : IterationOrder piiPaths,
        encryptPiiFields prims payload order.list dek.bytes.toList = .ok encrypted) ∧
      encrypted.SameShape payload ∧
      ∀ position text, payload.at? position = some (.string text) →
        if PiiMatched piiPaths position then
          ∃ field, encryptField prims (Str.asBytes text) dek.bytes.toList = .ok field ∧
            encrypted.at? position = some (.string (field.toStringRepr prims))
        else
          encrypted.at? position = some (.string text) := by
  let canonical : IterationOrder piiPaths := ⟨piiPaths.toList, Finset.coe_toList piiPaths⟩
  let sealLeaf := leafOrSelf (encryptLeaf prims dek.bytes.toList)
  refine ⟨rewritePiiFields sealLeaf piiPaths.toList payload,
    encryptPiiFields_eq_rewritePiiFields withinLimit fits dek,
    eraseStrings_rewritePiiFields sealLeaf piiPaths.toList payload, ?_⟩
  intro position text found
  by_cases matched : PiiMatched piiPaths position
  · rw [if_pos matched]
    exact at?_rewritePiiFields_encryptLeaf_of_piiMatched withinLimit fits dek found matched
  · -- An unmatched string is reached by no path, so no path rewrites it.
    have reachedIff := piiReached_iff_piiMatched canonical (by rw [found]; rfl)
    rw [at?_rewritePiiFields_of_string sealLeaf canonical.nodup found,
      if_neg (mt reachedIff.mp matched), if_neg matched]

theorem encryptPiiFields_spec_sample :
    ∃ encrypted : Value,
      (∀ order : IterationOrder {"ssn", "cards[].number"},
        encryptPiiFields Primitives.sample
            (.object [("ssn", .string "123-45-6789"),
              ("cards", .array [.object [("number", .string "4111")]])])
            order.list (Vector.replicate keyLen 7).toList = .ok encrypted) ∧
      encrypted.SameShape
          (.object [("ssn", .string "123-45-6789"),
            ("cards", .array [.object [("number", .string "4111")]])]) ∧
      ∀ position text,
        Value.at? (.object [("ssn", .string "123-45-6789"),
            ("cards", .array [.object [("number", .string "4111")]])]) position =
          some (.string text) →
        if PiiMatched {"ssn", "cards[].number"} position then
          ∃ field, encryptField Primitives.sample (Str.asBytes text)
              (Vector.replicate keyLen 7).toList = .ok field ∧
            encrypted.at? position = some (.string (field.toStringRepr Primitives.sample))
        else
          encrypted.at? position = some (.string text) :=
  encryptPiiFields_spec Primitives.sample Primitives.sample_encryptsWithinLimit
    (.object [("ssn", .string "123-45-6789"),
      ("cards", .array [.object [("number", .string "4111")]])])
    (by decide) {"ssn", "cards[].number"} ⟨Vector.replicate keyLen 7⟩

/-- Decryption succeeds on an encrypted payload and opens every sealed string. -/
theorem decryptPiiFields_rewritePiiFields
    (urlSafe : prims.EncodesUrlSafe)
    (roundTrip : prims.DecodesEncodings)
    (opens : prims.DecryptsEncryptions)
    (withinLimit : prims.EncryptsWithinLimit)
    {payload : Value}
    (fits : ∀ text ∈ payload.strings, (Str.asBytes text).length ≤ plaintextMax)
    {piiPaths : PiiFieldPaths}
    (dek : DekBytes)
    (order : IterationOrder piiPaths) :
    decryptPiiFields prims
        (rewritePiiFields (leafOrSelf (encryptLeaf prims dek.bytes.toList))
          piiPaths.toList payload)
        order.list dek.bytes.toList = .ok payload := by
  let canonical : IterationOrder piiPaths := ⟨piiPaths.toList, Finset.coe_toList piiPaths⟩
  let sealLeaf := leafOrSelf (encryptLeaf prims dek.bytes.toList)
  let openLeaf := leafOrSelf (decryptLeaf prims dek.bytes.toList)
  -- Each reached string of the payload is sealed, then opened back.
  have roundTrips : ∀ position text, payload.at? position = some (.string text) →
      decryptLeaf prims dek.bytes.toList (sealLeaf text) = .ok text := by
    intro position text found
    obtain ⟨field, encrypted, sealed⟩ :=
      encryptLeaf_eq_ok withinLimit dek (fits text (Value.mem_strings_of_at? found))
    have sealText : sealLeaf text = field.toStringRepr prims := by
      simp only [sealLeaf, leafOrSelf, sealed]
    rw [sealText, decryptLeaf_toStringRepr urlSafe roundTrip opens encrypted]
  have openSeal : ∀ position text, payload.at? position = some (.string text) →
      openLeaf (sealLeaf text) = text := by
    intro position text found
    simp only [openLeaf, leafOrSelf, roundTrips position text found]
  -- Decryption reaches exactly the sealed strings, and opens each.
  have agrees : ∀ path ∈ order.list, LeafAgrees (decryptLeaf prims dek.bytes.toList) openLeaf
      (rewritePiiFields sealLeaf piiPaths.toList payload) (parsePath path) := by
    intro path member position sealedText reached found
    have reachedBefore : Reached payload (parsePath path) position :=
      (reached_rewritePiiFields_iff sealLeaf).mp reached
    have sameShape : (rewritePiiFields sealLeaf piiPaths.toList payload).SameShape payload :=
      eraseStrings_rewritePiiFields sealLeaf piiPaths.toList payload
    obtain ⟨text, originalFound⟩ := sameShape.at?_string found
    have sealedHere : PiiReached payload piiPaths.toList position :=
      ⟨path, Finset.mem_toList.mpr (order.mem_iff.mp member), reachedBefore⟩
    rw [at?_rewritePiiFields_of_string sealLeaf canonical.nodup originalFound,
      if_pos sealedHere, Option.some.injEq, Value.string.injEq] at found
    rw [← found, openSeal position text originalFound]
    exact roundTrips position text originalFound
  have composedIsId :
      rewritePiiFields (openLeaf ∘ sealLeaf) piiPaths.toList payload =
        rewritePiiFields id piiPaths.toList payload :=
    rewritePiiFields_congr canonical.nodup fun _ _ position text _ found =>
      openSeal position text found
  rw [decryptPiiFields_eq_visitPiiFields, visitPiiFields_eq_ok order.nodup agrees,
    rewritePiiFields_perm _ (order.perm canonical),
    rewritePiiFields_rewritePiiFields sealLeaf openLeaf canonical.nodup, composedIsId,
    rewritePiiFields_id]

/--
Encryption and decryption round trip over whole payloads: in any iteration
order, encryption succeeds with one result, and decryption of that result, in
any order, gives the payload back.
-/
theorem decryptPiiFields_encryptPiiFields
    (prims : Primitives)
    (urlSafe : prims.EncodesUrlSafe)
    (roundTrip : prims.DecodesEncodings)
    (opens : prims.DecryptsEncryptions)
    (withinLimit : prims.EncryptsWithinLimit)
    (payload : Value)
    (fits : ∀ text ∈ payload.strings, (Str.asBytes text).length ≤ plaintextMax)
    (piiPaths : PiiFieldPaths)
    (dek : DekBytes) :
    ∃ encrypted : Value,
      (∀ order : IterationOrder piiPaths,
        encryptPiiFields prims payload order.list dek.bytes.toList = .ok encrypted) ∧
      ∀ order : IterationOrder piiPaths,
        decryptPiiFields prims encrypted order.list dek.bytes.toList = .ok payload :=
  ⟨_, encryptPiiFields_eq_rewritePiiFields withinLimit fits dek,
    decryptPiiFields_rewritePiiFields urlSafe roundTrip opens withinLimit fits dek⟩

theorem decryptPiiFields_encryptPiiFields_sample :
    ∃ encrypted : Value,
      (∀ order : IterationOrder {"ssn", "cards[].number"},
        encryptPiiFields Primitives.sample
            (.object [("ssn", .string "v1.not-a-token"),
              ("cards", .array [.object [("number", .string "4111")]])])
            order.list (Vector.replicate keyLen 7).toList = .ok encrypted) ∧
      ∀ order : IterationOrder {"ssn", "cards[].number"},
        decryptPiiFields Primitives.sample encrypted order.list
            (Vector.replicate keyLen 7).toList =
          .ok (.object [("ssn", .string "v1.not-a-token"),
            ("cards", .array [.object [("number", .string "4111")]])]) :=
  decryptPiiFields_encryptPiiFields Primitives.sample Primitives.sample_encodesUrlSafe
    Primitives.sample_decodesEncodings Primitives.sample_decryptsEncryptions
    Primitives.sample_encryptsWithinLimit
    (.object [("ssn", .string "v1.not-a-token"),
      ("cards", .array [.object [("number", .string "4111")]])])
    (by decide) {"ssn", "cards[].number"} ⟨Vector.replicate keyLen 7⟩

/--
After a decryption loop that succeeded, a matched `v1.` string holds a text it
opens to, and every other string is kept.
-/
theorem at?_rewritePiiFields_decryptLeaf_of_isOk
    {payload : Value}
    {piiPaths : PiiFieldPaths}
    {dek : DekBytes}
    {order : IterationOrder piiPaths}
    (succeeded :
      (visitPiiFields (decryptLeaf prims dek.bytes.toList) payload order.list).isOk = true)
    {position : Position}
    {text : String}
    (found : payload.at? position = some (.string text)) :
    if PiiMatched piiPaths position ∧ Str.startsWith text "v1." = true then
      ∃ decoded, OpensTo prims dek.bytes.toList text decoded ∧
        (rewritePiiFields (leafOrSelf (decryptLeaf prims dek.bytes.toList)) order.list
          payload).at? position = some (.string decoded)
    else
      (rewritePiiFields (leafOrSelf (decryptLeaf prims dek.bytes.toList)) order.list
        payload).at? position = some (.string text) := by
  let openLeaf := leafOrSelf (decryptLeaf prims dek.bytes.toList)
  have reachedIff := piiReached_iff_piiMatched order (by rw [found]; rfl)
  rw [at?_rewritePiiFields_of_string openLeaf order.nodup found]
  by_cases reachedHere : PiiReached payload order.list position
  · obtain ⟨path, member, reached⟩ := reachedHere
    -- The loop succeeded, so decryption succeeded on this string.
    have leafOk : (decryptLeaf prims dek.bytes.toList text).isOk = true := by
      by_contra leafFails
      have loopFails := visitPiiFields_isOk_eq_false order.nodup member reached found
        (Bool.eq_false_iff.mpr leafFails)
      rw [succeeded] at loopFails
      cases loopFails
    have opened := eq_ok_leafOrSelf leafOk
    have matched : PiiMatched piiPaths position := reachedIff.mp ⟨path, member, reached⟩
    rw [if_pos (show PiiReached payload order.list position from ⟨path, member, reached⟩)]
    cases tagged : Str.startsWith text "v1." with
    | true =>
        rw [if_pos ⟨matched, rfl⟩]
        exact ⟨openLeaf text, (decryptLeaf_eq_ok_iff tagged).mp opened, rfl⟩
    | false =>
        have kept : openLeaf text = text := by
          simp only [openLeaf, leafOrSelf,
            decryptLeaf_of_startsWith_eq_false dek.bytes.toList tagged]
        rw [if_neg fun both => Bool.false_ne_true both.2, kept]
  · rw [if_neg reachedHere, if_neg fun matched => reachedHere (reachedIff.mpr matched.1)]

/-- A decryption loop fails only at a matched `v1.` string that does not open. -/
theorem exists_unopened_of_isOk_eq_false
    {payload : Value}
    {piiPaths : PiiFieldPaths}
    {dek : DekBytes}
    {order : IterationOrder piiPaths}
    (failed :
      (visitPiiFields (decryptLeaf prims dek.bytes.toList) payload order.list).isOk = false) :
    ∃ position text, PiiMatched piiPaths position ∧
      payload.at? position = some (.string text) ∧
      Str.startsWith text "v1." = true ∧
      ¬ ∃ decoded, OpensTo prims dek.bytes.toList text decoded := by
  obtain ⟨path, member, position, text, reached, found, leafFails⟩ :=
    exists_failing_of_visitPiiFields order.nodup failed
  -- Only a `v1.` string that does not open makes the leaf fail.
  cases tagged : Str.startsWith text "v1." with
  | false =>
      rw [decryptLeaf_of_startsWith_eq_false dek.bytes.toList tagged] at leafFails
      cases leafFails
  | true =>
      refine ⟨position, text,
        (piiReached_iff_piiMatched order (by rw [found]; rfl)).mp ⟨path, member, reached⟩,
        found, tagged, ?_⟩
      rintro ⟨decoded, opensTo⟩
      rw [(decryptLeaf_eq_ok_iff tagged).mpr opensTo] at leafFails
      cases leafFails

/--
What `decrypt_pii_fields` does, in every iteration order: it fails exactly
when some matched string with the `v1.` prefix does not open; otherwise it
keeps the payload's shape, opens every matched `v1.` string and keeps every
other string, matched strings without the prefix included.
-/
theorem decryptPiiFields_spec
    (prims : Primitives)
    (payload : Value)
    (piiPaths : PiiFieldPaths)
    (dek : DekBytes)
    (order : IterationOrder piiPaths) :
    match decryptPiiFields prims payload order.list dek.bytes.toList with
    | .ok decrypted =>
        decrypted.SameShape payload ∧
          ∀ position text, payload.at? position = some (.string text) →
            if PiiMatched piiPaths position ∧ Str.startsWith text "v1." = true then
              ∃ decoded, OpensTo prims dek.bytes.toList text decoded ∧
                decrypted.at? position = some (.string decoded)
            else
              decrypted.at? position = some (.string text)
    | .error _ =>
        ∃ position text, PiiMatched piiPaths position ∧
          payload.at? position = some (.string text) ∧
          Str.startsWith text "v1." = true ∧
          ¬ ∃ decoded, OpensTo prims dek.bytes.toList text decoded := by
  rw [decryptPiiFields_eq_visitPiiFields]
  cases result : visitPiiFields (decryptLeaf prims dek.bytes.toList) payload order.list with
  | ok decrypted =>
      have succeeded :
          (visitPiiFields (decryptLeaf prims dek.bytes.toList) payload order.list).isOk = true := by
        rw [result]
        rfl
      -- A successful loop computes the fold that opens each reached string.
      have isFold := visitPiiFields_eq_ok_of_isOk order.nodup succeeded
      rw [result, Except.ok.injEq] at isFold
      subst isFold
      exact ⟨eraseStrings_rewritePiiFields _ order.list payload,
        fun _ _ found => at?_rewritePiiFields_decryptLeaf_of_isOk succeeded found⟩
  | error _ =>
      have failed :
          (visitPiiFields (decryptLeaf prims dek.bytes.toList) payload order.list).isOk =
            false := by
        rw [result]
        rfl
      exact exists_unopened_of_isOk_eq_false failed

/--
A matched string that `from_str` rejects but that starts with `v1.` makes
decryption fail, with `InvalidFormat`.
-/
theorem decryptPiiFields_rejects_malformed_v1 :
    EncryptedField.fromStr Primitives.sample "v1.abc" = .error .invalidFormat ∧
      decryptPiiFields Primitives.sample (.object [("ssn", .string "v1.abc")])
          (⟨["ssn"], rfl⟩ : IterationOrder {"ssn"}).list (Vector.replicate keyLen 7).toList =
        .error .invalidFormat := by
  decide

end Payloads

end NitroEncSvc
