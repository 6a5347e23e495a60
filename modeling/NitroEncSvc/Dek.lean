import NitroEncSvc.Cipher

namespace NitroEncSvc

/-!
# The data encryption key store (`dek/store.rs`)

`DekStore` caches the current data encryption key once it has been fetched.
Handlers read it with `current`; the rotation task replaces it with `store`,
which accepts only key material of exactly `KEY_LEN` bytes.  The store is its
contents, and each operation a function of them returning its result together
with the contents after it.
-/

/-- Errors produced by the DEK layer. -/
inductive DekError where
  | notInitialised
  | invalidLength (length : Nat)
  deriving Repr, DecidableEq

/-- `DekBytes`: key material of exactly `KEY_LEN` bytes. -/
structure DekBytes where
  bytes : Vector UInt8 keyLen
  deriving Repr, DecidableEq

/-- `DekStore`: the cached key, if one has been stored. -/
structure DekStore where
  inner : Option DekBytes
  deriving Repr, DecidableEq

namespace DekStore

/-- `DekStore::new`: a store with no key. -/
def new : DekStore :=
  ⟨none⟩

/-- `is_ready`: a key is cached. -/
def isReady (self : DekStore) : Bool :=
  self.inner.isSome

/-- `store`: replace the key, refusing material of the wrong length. -/
def store (self : DekStore) (keyBytes : List UInt8) : Except DekError Unit × DekStore :=
  if lengthOk : keyBytes.length = keyLen then
    (.ok (), ⟨some ⟨⟨keyBytes.toArray, lengthOk⟩⟩⟩)
  else
    (.error (.invalidLength keyBytes.length), self)

/-- `current`: a copy of the cached key, or `NotInitialised`. -/
def current (self : DekStore) : Except DekError DekBytes :=
  match self.inner with
  | some dek => .ok dek
  | none => .error .notInitialised

/-- A store is ready exactly when `current` has a key to return. -/
theorem isReady_eq_isOk_current
    (self : DekStore) :
    self.isReady = self.current.isOk := by
  cases inner : self.inner <;> simp [isReady, current, inner]

/-- After a successful `store`, `current` returns exactly the stored bytes. -/
theorem current_store_of_length
    (self : DekStore)
    {keyBytes : List UInt8}
    (lengthOk : keyBytes.length = keyLen) :
    (self.store keyBytes).1 = .ok () ∧
      (fun dek => dek.bytes.toList) <$> (self.store keyBytes).2.current = .ok keyBytes := by
  simp [store, current, lengthOk]

/-- A `store` of the wrong length fails and leaves the store as it was. -/
theorem store_of_length_ne
    (self : DekStore)
    {keyBytes : List UInt8}
    (lengthBad : keyBytes.length ≠ keyLen) :
    self.store keyBytes = (.error (.invalidLength keyBytes.length), self) := by
  simp [store, lengthBad]

/-- A `store` of the right length leaves the store ready. -/
theorem isReady_store_of_length
    (self : DekStore)
    {keyBytes : List UInt8}
    (lengthOk : keyBytes.length = keyLen) :
    (self.store keyBytes).2.isReady = true := by
  simp [store, lengthOk, isReady]

/-- Once ready, a store stays ready whatever is stored next. -/
theorem isReady_store
    {self : DekStore}
    (ready : self.isReady = true)
    (keyBytes : List UInt8) :
    (self.store keyBytes).2.isReady = true := by
  by_cases lengthOk : keyBytes.length = keyLen
  · exact self.isReady_store_of_length lengthOk
  · rw [store_of_length_ne self lengthOk]
    exact ready

end DekStore

end NitroEncSvc
