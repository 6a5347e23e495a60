import NitroEncSvc.ExceptList

namespace NitroEncSvc.Json

/-!
# JSON documents

A model of `serde_json::Value`.  Objects are member lists; `Map::get` and
`Map::get_mut` read the first member with the requested name, which is the
only member of that name in a map.  A position is a list of steps, an object
member by name or an array element by index, and `Value.at?` follows it.

Forgetting the text of every string gives the *shape* of a value: two values
of one shape have the same object keys, the same array lengths and the same
non-string leaves.
-/

/-- The three kinds of `serde_json::Number`; a float is kept as its bits. -/
inductive Number where
  | posInt (value : UInt64)
  | negInt (value : Int64)
  | float (bits : UInt64)
  deriving Repr, DecidableEq

/-- A JSON value, as `serde_json::Value`. -/
inductive Value where
  | null
  | bool (value : Bool)
  | number (value : Number)
  | string (value : String)
  | array (items : List Value)
  | object (members : List (String × Value))
  deriving Repr

namespace Value

mutual

/-- Equality of JSON values is decidable, member by member. -/
def decEq : (first second : Value) → Decidable (first = second)
  | .null, .null => isTrue rfl
  | .bool x, .bool y =>
      if same : x = y then isTrue (same ▸ rfl)
      else isFalse (by intro equal; cases equal; exact same rfl)
  | .number x, .number y =>
      if same : x = y then isTrue (same ▸ rfl)
      else isFalse (by intro equal; cases equal; exact same rfl)
  | .string x, .string y =>
      if same : x = y then isTrue (same ▸ rfl)
      else isFalse (by intro equal; cases equal; exact same rfl)
  | .array xs, .array ys =>
      match decEqItems xs ys with
      | isTrue same => isTrue (same ▸ rfl)
      | isFalse differ => isFalse (by intro equal; cases equal; exact differ rfl)
  | .object xs, .object ys =>
      match decEqMembers xs ys with
      | isTrue same => isTrue (same ▸ rfl)
      | isFalse differ => isFalse (by intro equal; cases equal; exact differ rfl)
  -- Values built by different constructors are never equal.
  | .null, .bool _ | .null, .number _ | .null, .string _ | .null, .array _
  | .null, .object _ | .bool _, .null | .bool _, .number _ | .bool _, .string _
  | .bool _, .array _ | .bool _, .object _ | .number _, .null | .number _, .bool _
  | .number _, .string _ | .number _, .array _ | .number _, .object _
  | .string _, .null | .string _, .bool _ | .string _, .number _
  | .string _, .array _ | .string _, .object _ | .array _, .null
  | .array _, .bool _ | .array _, .number _ | .array _, .string _
  | .array _, .object _ | .object _, .null | .object _, .bool _
  | .object _, .number _ | .object _, .string _ | .object _, .array _ =>
      isFalse (by intro equal; cases equal)

/-- Equality of element lists, element by element. -/
def decEqItems : (first second : List Value) → Decidable (first = second)
  | [], [] => isTrue rfl
  | [], _ :: _ => isFalse (by intro equal; cases equal)
  | _ :: _, [] => isFalse (by intro equal; cases equal)
  | x :: xs, y :: ys =>
      match decEq x y, decEqItems xs ys with
      | isTrue head, isTrue tail => isTrue (head ▸ tail ▸ rfl)
      | isFalse differ, _ => isFalse (by intro equal; cases equal; exact differ rfl)
      | _, isFalse differ => isFalse (by intro equal; cases equal; exact differ rfl)

/-- Equality of member lists, name and value by name and value. -/
def decEqMembers :
    (first second : List (String × Value)) → Decidable (first = second)
  | [], [] => isTrue rfl
  | [], _ :: _ => isFalse (by intro equal; cases equal)
  | _ :: _, [] => isFalse (by intro equal; cases equal)
  | (k, x) :: xs, (l, y) :: ys =>
      if sameKey : k = l then
        match decEq x y, decEqMembers xs ys with
        | isTrue head, isTrue tail => isTrue (sameKey ▸ head ▸ tail ▸ rfl)
        | isFalse differ, _ => isFalse (by intro equal; cases equal; exact differ rfl)
        | _, isFalse differ => isFalse (by intro equal; cases equal; exact differ rfl)
      else
        isFalse (by intro equal; cases equal; exact sameKey rfl)

end

instance : DecidableEq Value := decEq

/-- `Value::as_bool`. -/
def asBool : Value → Option Bool
  | .bool value => some value
  | _ => none

end Value

/-- One step into a value: an object member by name or an array element by index. -/
inductive Step where
  | key (name : String)
  | index (i : Nat)
  deriving Repr, DecidableEq

/-- A position in a value, from the root. -/
abbrev Position := List Step

/-- `lookup` skips a member under another name. -/
theorem lookup_cons_of_ne
    {name key : String}
    (child : Value)
    (rest : List (String × Value))
    (differ : name ≠ key) :
    ((key, child) :: rest).lookup name = rest.lookup name := by
  rw [List.lookup_cons, beq_false_of_ne differ]

namespace Value

/-- The value at a position, if every step exists. -/
def at? : Value → Position → Option Value
  | value, [] =>
      some value
  | .object members, .key name :: rest =>
      (members.lookup name).bind fun child => child.at? rest
  | .array items, .index i :: rest =>
      items[i]?.bind fun child => child.at? rest
  | _, _ :: _ =>
      none

@[simp] theorem at?_nil (value : Value) : value.at? [] = some value := by
  cases value <;> rfl

@[simp] theorem at?_object_key
    (members : List (String × Value))
    (name : String)
    (rest : Position) :
    (Value.object members).at? (.key name :: rest) =
      (members.lookup name).bind fun child => child.at? rest :=
  rfl

@[simp] theorem at?_array_index
    (items : List Value)
    (i : Nat)
    (rest : Position) :
    (Value.array items).at? (.index i :: rest) =
      items[i]?.bind fun child => child.at? rest :=
  rfl

/-- A string has nothing below it. -/
@[simp] theorem at?_string_cons
    (text : String)
    (step : Step)
    (rest : Position) :
    (Value.string text).at? (step :: rest) = none := by
  cases step <;> rfl

/-- The value one step below, if the step exists. -/
def child? : Value → Step → Option Value
  | .object members, .key name => members.lookup name
  | .array items, .index i => items[i]?
  | _, _ => none

/-- Following a position is one step and then the rest. -/
theorem at?_cons
    (value : Value)
    (step : Step)
    (rest : Position) :
    value.at? (step :: rest) = (value.child? step).bind fun child => child.at? rest := by
  cases value <;> cases step <;> rfl

/-- A member step exists only in an object that has the member. -/
theorem eq_object_of_child?_key
    {value child : Value}
    {name : String}
    (stepped : value.child? (.key name) = some child) :
    ∃ members, value = .object members ∧ members.lookup name = some child := by
  cases value with
  | object members => exact ⟨members, rfl, stepped⟩
  | null | bool _ | number _ | string _ | array _ => cases stepped

/-- An element step exists only in an array that has the element. -/
theorem eq_array_of_child?_index
    {value child : Value}
    {i : Nat}
    (stepped : value.child? (.index i) = some child) :
    ∃ items, value = .array items ∧ items[i]? = some child := by
  cases value with
  | array items => exact ⟨items, rfl, stepped⟩
  | null | bool _ | number _ | string _ | object _ => cases stepped

mutual

/-- Forget the text of every string, keeping keys, lengths and other leaves. -/
def eraseStrings : Value → Value
  | .string _ => .string ""
  | .array items => .array (eraseStringsItems items)
  | .object members => .object (eraseStringsMembers members)
  | other => other

/-- `eraseStrings` on every element. -/
def eraseStringsItems : List Value → List Value
  | [] => []
  | item :: rest => item.eraseStrings :: eraseStringsItems rest

/-- `eraseStrings` on every member value. -/
def eraseStringsMembers : List (String × Value) → List (String × Value)
  | [] => []
  | (name, child) :: rest => (name, child.eraseStrings) :: eraseStringsMembers rest

end

@[simp] theorem eraseStringsItems_eq_map
    (items : List Value) :
    eraseStringsItems items = items.map eraseStrings := by
  induction items with
  | nil =>
      rfl
  | cons item rest inductionHypothesis =>
      simp [eraseStringsItems, inductionHypothesis]

@[simp] theorem eraseStringsMembers_eq_map
    (members : List (String × Value)) :
    eraseStringsMembers members =
      members.map fun member => (member.1, member.2.eraseStrings) := by
  induction members with
  | nil =>
      rfl
  | cons member rest inductionHypothesis =>
      simp [eraseStringsMembers, inductionHypothesis]

@[simp] theorem eraseStrings_string (text : String) :
    (Value.string text).eraseStrings = .string "" := by
  simp [eraseStrings]

@[simp] theorem eraseStrings_array (items : List Value) :
    (Value.array items).eraseStrings = .array (items.map eraseStrings) := by
  simp [eraseStrings]

@[simp] theorem eraseStrings_object (members : List (String × Value)) :
    (Value.object members).eraseStrings =
      .object (members.map fun member => (member.1, member.2.eraseStrings)) := by
  simp [eraseStrings]

mutual

/-- Every string of a value, in document order. -/
def strings : Value → List String
  | .string text => [text]
  | .array items => stringsItems items
  | .object members => stringsMembers members
  | _ => []

/-- The strings of every element. -/
def stringsItems : List Value → List String
  | [] => []
  | item :: rest => item.strings ++ stringsItems rest

/-- The strings of every member value. -/
def stringsMembers : List (String × Value) → List String
  | [] => []
  | (_, child) :: rest => child.strings ++ stringsMembers rest

end

/-- The strings of an element are strings of the array. -/
theorem strings_subset_stringsItems
    {items : List Value}
    {item : Value}
    (member : item ∈ items) :
    item.strings ⊆ stringsItems items := by
  induction items with
  | nil =>
      simp at member
  | cons head rest inductionHypothesis =>
      rcases List.mem_cons.mp member with rfl | inRest
      · simp [stringsItems]
      · simp only [stringsItems]
        exact fun _ inItem => List.subset_append_right _ _ (inductionHypothesis inRest inItem)

/-- The strings of the member found by a name are strings of the object. -/
theorem strings_subset_stringsMembers
    {members : List (String × Value)}
    {name : String}
    {child : Value}
    (found : members.lookup name = some child) :
    child.strings ⊆ stringsMembers members := by
  induction members with
  | nil =>
      simp at found
  | cons member rest inductionHypothesis =>
      obtain ⟨key, value⟩ := member
      by_cases sameName : name = key
      · subst sameName
        simp only [List.lookup_cons_self, Option.some.injEq] at found
        subst found
        simp [stringsMembers]
      · rw [lookup_cons_of_ne _ _ sameName] at found
        simp only [stringsMembers]
        exact fun _ inChild => List.subset_append_right _ _ (inductionHypothesis found inChild)

/-- A string found at any position is one of the value's strings. -/
theorem mem_strings_of_at?
    {value : Value}
    {position : Position}
    {text : String}
    (found : value.at? position = some (.string text)) :
    text ∈ value.strings := by
  induction position generalizing value with
  | nil =>
      simp only [at?_nil, Option.some.injEq] at found
      subst found
      simp [strings]
  | cons step tail inductionHypothesis =>
      rw [at?_cons] at found
      obtain ⟨child, stepped, childFound⟩ := Option.bind_eq_some_iff.mp found
      have inChild := inductionHypothesis childFound
      cases step with
      | key name =>
          obtain ⟨members, rfl, memberFound⟩ := eq_object_of_child?_key stepped
          exact strings_subset_stringsMembers memberFound inChild
      | index i =>
          obtain ⟨items, rfl, itemFound⟩ := eq_array_of_child?_index stepped
          exact strings_subset_stringsItems (List.mem_of_getElem? itemFound) inChild

/-- Two values have the same shape when they agree once strings are erased. -/
def SameShape (value other : Value) : Prop :=
  value.eraseStrings = other.eraseStrings

instance (value other : Value) : Decidable (value.SameShape other) :=
  inferInstanceAs (Decidable (value.eraseStrings = other.eraseStrings))

/-- Looking up a name commutes with erasing strings. -/
theorem lookup_eraseStrings
    (members : List (String × Value))
    (name : String) :
    (members.map fun member => (member.1, member.2.eraseStrings)).lookup name =
      (members.lookup name).map eraseStrings := by
  induction members with
  | nil =>
      rfl
  | cons member rest inductionHypothesis =>
      obtain ⟨key, child⟩ := member
      by_cases sameName : name = key
      · subst sameName
        simp
      · simp only [List.map_cons]
        rw [lookup_cons_of_ne _ _ sameName, lookup_cons_of_ne _ _ sameName,
          inductionHypothesis]

/-- Erasing strings and then following a position erases what is found there. -/
theorem at?_eraseStrings
    (value : Value)
    (position : Position) :
    value.eraseStrings.at? position = (value.at? position).map eraseStrings := by
  induction position generalizing value with
  | nil =>
      simp
  | cons step rest inductionHypothesis =>
      cases value with
      | string text =>
          simp
      | array items =>
          cases step with
          | key name =>
              rfl
          | index i =>
              simp only [eraseStrings_array, at?_array_index, List.getElem?_map]
              cases items[i]? with
              | none => rfl
              | some child => exact inductionHypothesis child
      | object members =>
          cases step with
          | index i =>
              rfl
          | key name =>
              simp only [eraseStrings_object, at?_object_key, lookup_eraseStrings]
              cases members.lookup name with
              | none => rfl
              | some child => exact inductionHypothesis child
      | null | bool _ | number _ =>
          cases step <;> rfl

/-- Values of one shape have the same positions. -/
theorem SameShape.at?_isSome
    {value other : Value}
    (sameShape : value.SameShape other)
    (position : Position) :
    (value.at? position).isSome = (other.at? position).isSome := by
  have erased := congrArg (fun v => v.at? position) sameShape
  simp only [at?_eraseStrings] at erased
  cases valueAt : value.at? position <;> cases otherAt : other.at? position <;>
    simp_all

/-- Where one of two values of one shape has a string, so has the other. -/
theorem SameShape.at?_string
    {value other : Value}
    (sameShape : value.SameShape other)
    {position : Position}
    {text : String}
    (found : value.at? position = some (.string text)) :
    ∃ otherText, other.at? position = some (.string otherText) := by
  have erased := congrArg (fun v => v.at? position) sameShape
  simp only [at?_eraseStrings, found, Option.map_some, eraseStrings_string] at erased
  cases otherFound : other.at? position with
  | none =>
      simp [otherFound] at erased
  | some otherValue =>
      rw [otherFound, Option.map_some, Option.some.injEq] at erased
      cases otherValue with
      | string otherText => exact ⟨otherText, rfl⟩
      | null | bool _ | number _ => cases erased
      | array _ => simp at erased
      | object _ => simp at erased

end Value

/-! ## Updating members and elements -/

/--
Update the first member named `key`, as `map.get_mut(key)` followed by a write
through the returned reference; a missing member is left alone.
-/
def updateMember
    {ε : Type}
    (key : String)
    (update : Value → Except ε Value) :
    List (String × Value) → Except ε (List (String × Value))
  | [] =>
      pure []
  | (name, child) :: rest =>
      if name = key then
        (fun updated => (name, updated) :: rest) <$> update child
      else
        (fun updatedRest => (name, child) :: updatedRest) <$> updateMember key update rest

/-- Replace the first member named `key` by applying `f` to it. -/
def modifyMember
    (key : String)
    (f : Value → Value) :
    List (String × Value) → List (String × Value)
  | [] =>
      []
  | (name, child) :: rest =>
      if name = key then
        (name, f child) :: rest
      else
        (name, child) :: modifyMember key f rest

/-- Modifying a member keeps every name in place. -/
@[simp] theorem map_fst_modifyMember
    (key : String)
    (f : Value → Value)
    (members : List (String × Value)) :
    (modifyMember key f members).map Prod.fst = members.map Prod.fst := by
  induction members with
  | nil =>
      rfl
  | cons member rest inductionHypothesis =>
      obtain ⟨name, child⟩ := member
      by_cases sameName : name = key
      · simp [modifyMember, sameName]
      · simp [modifyMember, sameName, inductionHypothesis]

/-- Looking up a modified member list sees the modification under its name only. -/
theorem lookup_modifyMember
    (key name : String)
    (f : Value → Value)
    (members : List (String × Value)) :
    (modifyMember key f members).lookup name =
      if name = key then (members.lookup key).map f else members.lookup name := by
  induction members with
  | nil =>
      by_cases sameName : name = key <;> simp [modifyMember, sameName]
  | cons member rest inductionHypothesis =>
      obtain ⟨memberName, child⟩ := member
      by_cases memberIsKey : memberName = key
      · subst memberIsKey
        by_cases sameName : name = memberName
        · subst sameName
          simp [modifyMember]
        · simp only [modifyMember, ↓reduceIte, sameName]
          rw [lookup_cons_of_ne _ _ sameName, lookup_cons_of_ne _ _ sameName]
      · simp only [modifyMember, memberIsKey, ↓reduceIte]
        have keyNe : key ≠ memberName := Ne.symm memberIsKey
        by_cases sameName : name = memberName
        · subst sameName
          simp [memberIsKey]
        · rw [lookup_cons_of_ne _ _ sameName, lookup_cons_of_ne _ _ sameName,
            lookup_cons_of_ne _ _ keyNe, inductionHypothesis]

/-- Erasing strings after a modification that keeps shapes changes nothing. -/
theorem map_eraseStrings_modifyMember
    (key : String)
    {f : Value → Value}
    (keepsShape : ∀ child, (f child).eraseStrings = child.eraseStrings)
    (members : List (String × Value)) :
    (modifyMember key f members).map
        (fun member => (member.1, member.2.eraseStrings)) =
      members.map fun member => (member.1, member.2.eraseStrings) := by
  induction members with
  | nil =>
      rfl
  | cons member rest inductionHypothesis =>
      obtain ⟨name, child⟩ := member
      by_cases sameName : name = key
      · simp [modifyMember, sameName, keepsShape]
      · simp [modifyMember, sameName, inductionHypothesis]

/-- Modifying a member by the identity changes nothing. -/
theorem modifyMember_id
    (key : String)
    (members : List (String × Value)) :
    modifyMember key id members = members := by
  induction members with
  | nil =>
      rfl
  | cons member rest inductionHypothesis =>
      obtain ⟨name, child⟩ := member
      by_cases sameName : name = key
      · simp [modifyMember, sameName]
      · simp [modifyMember, sameName, inductionHypothesis]

/-- Modifying a member that is not there changes nothing. -/
theorem modifyMember_of_lookup_eq_none
    {key : String}
    (f : Value → Value)
    {members : List (String × Value)}
    (absent : members.lookup key = none) :
    modifyMember key f members = members := by
  induction members with
  | nil =>
      rfl
  | cons member rest inductionHypothesis =>
      obtain ⟨name, child⟩ := member
      have keyNe : key ≠ name := by
        rintro rfl
        simp at absent
      rw [lookup_cons_of_ne _ _ keyNe] at absent
      simp [modifyMember, Ne.symm keyNe, inductionHypothesis absent]

/-- Only the value of the modified member matters. -/
theorem modifyMember_congr
    {key : String}
    {f g : Value → Value}
    {members : List (String × Value)}
    {child : Value}
    (found : members.lookup key = some child)
    (agree : f child = g child) :
    modifyMember key f members = modifyMember key g members := by
  induction members with
  | nil =>
      simp at found
  | cons member rest inductionHypothesis =>
      obtain ⟨name, value⟩ := member
      by_cases sameName : name = key
      · subst sameName
        simp only [List.lookup_cons_self, Option.some.injEq] at found
        subst found
        simp [modifyMember, agree]
      · rw [lookup_cons_of_ne _ _ (Ne.symm sameName)] at found
        simp [modifyMember, sameName, inductionHypothesis found]

/-- Two modifications of one member are one modification by the composite. -/
theorem modifyMember_modifyMember_self
    (key : String)
    (f g : Value → Value)
    (members : List (String × Value)) :
    modifyMember key f (modifyMember key g members) = modifyMember key (f ∘ g) members := by
  induction members with
  | nil =>
      rfl
  | cons member rest inductionHypothesis =>
      obtain ⟨name, child⟩ := member
      by_cases sameName : name = key
      · simp [modifyMember, sameName]
      · simp [modifyMember, sameName, inductionHypothesis]

/-- Modifications of members under different names commute. -/
theorem modifyMember_comm
    {key other : String}
    (differ : key ≠ other)
    (f g : Value → Value)
    (members : List (String × Value)) :
    modifyMember key f (modifyMember other g members) =
      modifyMember other g (modifyMember key f members) := by
  induction members with
  | nil =>
      rfl
  | cons member rest inductionHypothesis =>
      obtain ⟨name, child⟩ := member
      by_cases isKey : name = key
      · subst isKey
        simp [modifyMember, differ]
      · by_cases isOther : name = other
        · subst isOther
          simp [modifyMember, isKey]
        · simp [modifyMember, isKey, isOther, inductionHypothesis]

/--
The effectful update is the pure modification with the update's result, or
the update's error; nothing happens when no member has the name.
-/
theorem updateMember_eq
    {ε : Type}
    (key : String)
    (update : Value → Except ε Value)
    (members : List (String × Value)) :
    updateMember key update members =
      match members.lookup key with
      | none => .ok members
      | some child =>
          (fun updated => modifyMember key (fun _ => updated) members) <$> update child := by
  induction members with
  | nil =>
      rfl
  | cons member rest inductionHypothesis =>
      obtain ⟨name, child⟩ := member
      by_cases sameName : name = key
      · subst sameName
        simp only [updateMember, ↓reduceIte, List.lookup_cons_self]
        cases updateResult : update child <;> simp [modifyMember]
      · have keyNe : key ≠ name := Ne.symm sameName
        simp only [updateMember, sameName, ↓reduceIte, inductionHypothesis,
          lookup_cons_of_ne _ _ keyNe]
        cases rest.lookup key with
        | none =>
            rfl
        | some found =>
            cases updateResult : update found <;>
              simp [modifyMember, sameName]

end NitroEncSvc.Json
