import NitroEncSvc.Str
import NitroEncSvc.Json

namespace NitroEncSvc

/-!
# PII path traversal (`server/handlers.rs`)

A PII path is dot notation: each part names an object member, and a part that
ends in `[]` also expands every element of the array found there.
`parse_path` turns the text into segments, and `encrypt_at_path` and
`decrypt_at_path` walk a value along them, rewriting each string where the
segments run out.  Both walks are one traversal, `visitAtPath`, with a
different action at the leaf.

The positions a walk ends at are those whose steps match the segments one for
one and that exist in the value (`Reached`).  A walk whose leaf action agrees
with a pure function `f` on the strings it reaches computes `rewriteAtPath f`,
which rewrites exactly the strings at reached positions and keeps the value's
shape.  Distinct texts parse to distinct segment lists, and distinct segment
lists reach disjoint positions, so rewrites along different paths commute.
-/

open Json

/-- `PathSegment`: one segment of a dot-notation PII path. -/
inductive PathSegment where
  | key (name : String)
  | arrayItem
  deriving Repr, DecidableEq

/-- The segments of one dot-separated part: a `[]` suffix adds `ArrayItem`. -/
def partSegments (part : String) : List PathSegment :=
  match Str.stripSuffix? part "[]" with
  | some key => [.key key, .arrayItem]
  | none => [.key part]

/-- `parse_path`. -/
def parsePath (path : String) : List PathSegment :=
  (Str.split path '.').flatMap partSegments

/-! ## `parse_path` is injective -/

/--
The parts a segment list was parsed from: a `Key` followed by `ArrayItem` came
from a part with the `[]` suffix.
-/
def segmentParts : List PathSegment → List String
  | [] => []
  | .key name :: .arrayItem :: rest => (name ++ "[]") :: segmentParts rest
  | .key name :: rest => name :: segmentParts rest
  | .arrayItem :: rest => segmentParts rest

/-- Every part begins with a `Key` segment. -/
theorem partSegments_eq_key_cons
    (part : String) :
    ∃ name more, partSegments part = .key name :: more := by
  unfold partSegments
  cases Str.stripSuffix? part "[]" with
  | some key => exact ⟨key, [.arrayItem], rfl⟩
  | none => exact ⟨part, [], rfl⟩

/-- The segments of a list of parts never begin with `ArrayItem`. -/
theorem flatMap_partSegments_ne_arrayItem_cons
    (parts : List String)
    (tail : List PathSegment) :
    parts.flatMap partSegments ≠ .arrayItem :: tail := by
  cases parts with
  | nil =>
      simp
  | cons part rest =>
      obtain ⟨name, more, segments⟩ := partSegments_eq_key_cons part
      simp [segments]

/-- Reading back the parts of one part's segments gives the part. -/
theorem segmentParts_partSegments_append
    (part : String)
    {rest : List PathSegment}
    (restStart : ∀ tail, rest ≠ .arrayItem :: tail) :
    segmentParts (partSegments part ++ rest) = part :: segmentParts rest := by
  unfold partSegments
  cases stripped : Str.stripSuffix? part "[]" with
  | some key =>
      simp only [List.cons_append, List.nil_append, segmentParts,
        Str.stripSuffix?_eq_some stripped]
  | none =>
      simp only [List.cons_append, List.nil_append]
      -- A plain part is followed by another part's `Key`, or by nothing.
      cases rest with
      | nil =>
          rfl
      | cons next tail =>
          cases next with
          | key name => rfl
          | arrayItem => exact absurd rfl (restStart tail)

/-- `segmentParts` inverts the parsing of every list of parts. -/
theorem segmentParts_flatMap_partSegments
    (parts : List String) :
    segmentParts (parts.flatMap partSegments) = parts := by
  induction parts with
  | nil =>
      rfl
  | cons part rest inductionHypothesis =>
      rw [List.flatMap_cons,
        segmentParts_partSegments_append part (flatMap_partSegments_ne_arrayItem_cons rest),
        inductionHypothesis]

/-- The parts of a path are read back from its segments. -/
theorem segmentParts_parsePath
    (path : String) :
    segmentParts (parsePath path) = Str.split path '.' :=
  segmentParts_flatMap_partSegments _

/-- Distinct path texts parse to distinct segment lists. -/
theorem parsePath_injective : Function.Injective parsePath := by
  intro path other sameSegments
  apply Str.split_injective '.'
  simp only
  rw [← segmentParts_parsePath, ← segmentParts_parsePath, sameSegments]

/-! ## Positions a walk ends at -/

/-- A segment matches a step: a `Key` its member, `ArrayItem` any element. -/
def PathSegment.Matches : PathSegment → Step → Prop
  | .key name, .key member => name = member
  | .arrayItem, .index _ => True
  | .key _, .index _ => False
  | .arrayItem, .key _ => False

instance : (segment : PathSegment) → (step : Step) → Decidable (segment.Matches step)
  | .key name, .key member => inferInstanceAs (Decidable (name = member))
  | .arrayItem, .index _ => isTrue trivial
  | .key _, .index _ => isFalse id
  | .arrayItem, .key _ => isFalse id

/-- Each step is matched by one segment only. -/
theorem PathSegment.eq_of_matches
    {segment other : PathSegment}
    {step : Step}
    (segmentMatches : segment.Matches step)
    (otherMatches : other.Matches step) :
    segment = other := by
  cases segment <;> cases other <;> cases step <;>
    simp_all [PathSegment.Matches]

/--
The positions a walk along `segments` ends at in `value`: one step per
segment, each matched by its segment, at a position the value has.
-/
def Reached (value : Value) (segments : List PathSegment) (position : Position) : Prop :=
  List.Forall₂ PathSegment.Matches segments position ∧ (value.at? position).isSome

instance (value : Value) (segments : List PathSegment) (position : Position) :
    Decidable (Reached value segments position) :=
  inferInstanceAs (Decidable (List.Forall₂ _ _ _ ∧ _))

/-- A position determines the segment list that matches it. -/
theorem eq_of_forall₂_matches
    {segments others : List PathSegment}
    {position : Position}
    (segmentsMatch : List.Forall₂ PathSegment.Matches segments position)
    (othersMatch : List.Forall₂ PathSegment.Matches others position) :
    segments = others := by
  induction segmentsMatch generalizing others with
  | nil =>
      exact (List.forall₂_nil_right_iff.mp othersMatch).symm
  | cons headMatches _ inductionHypothesis =>
      cases othersMatch with
      | cons otherHeadMatches otherRest =>
          rw [PathSegment.eq_of_matches headMatches otherHeadMatches,
            inductionHypothesis otherRest]

/-- Distinct segment lists reach disjoint positions. -/
theorem not_reached_of_reached
    {value : Value}
    {segments others : List PathSegment}
    {position : Position}
    (differ : segments ≠ others)
    (reached : Reached value segments position) :
    ¬ Reached value others position := fun othersReached =>
  differ (eq_of_forall₂_matches reached.1 othersReached.1)

/--
Distinct PII paths address disjoint leaves: `parse_path` is injective, and
the positions a walk reaches along two distinct paths never meet.
-/
theorem parsePath_injective_reached_disjoint :
    Function.Injective parsePath ∧
      ∀ (path other : String), path ≠ other →
        ∀ (value : Value) (position : Position),
          Reached value (parsePath path) position →
            ¬ Reached value (parsePath other) position :=
  ⟨parsePath_injective, fun _ _ differ _ _ reached =>
    not_reached_of_reached (parsePath_injective.ne differ) reached⟩

/-! ## The traversal -/

/--
The walk of `encrypt_at_path` and `decrypt_at_path`: follow `segments`, and
where they run out apply `leaf` to a string.  A `Key` on anything but an
object, a missing member, or `ArrayItem` on anything but an array ends the
walk there without error; the first error of `leaf` ends the whole walk.
-/
def visitAtPath {ε : Type} (leaf : String → Except ε String) :
    List PathSegment → Value → Except ε Value
  | [], .string text => .string <$> leaf text
  | [], value => pure value
  | .key key :: rest, .object members =>
      .object <$> updateMember key (visitAtPath leaf rest) members
  | .arrayItem :: rest, .array items =>
      .array <$> items.mapM (visitAtPath leaf rest)
  | _ :: _, value => pure value

/-- The walk of `visitAtPath` with a leaf action that cannot fail. -/
def rewriteAtPath (leaf : String → String) : List PathSegment → Value → Value
  | [], .string text => .string (leaf text)
  | [], value => value
  | .key key :: rest, .object members =>
      .object (modifyMember key (rewriteAtPath leaf rest) members)
  | .arrayItem :: rest, .array items =>
      .array (items.map (rewriteAtPath leaf rest))
  | _ :: _, value => value

/-! ## What a walk reaches, one segment at a time -/

/-- With no segments left the walk ends where it stands. -/
theorem reached_nil_iff
    {value : Value}
    {position : Position} :
    Reached value [] position ↔ position = [] := by
  constructor
  · rintro ⟨segmentsMatch, -⟩
    exact List.forall₂_nil_left_iff.mp segmentsMatch
  · rintro rfl
    exact ⟨List.Forall₂.nil, by simp⟩

/-- A walk with segments left has not ended at the root. -/
theorem not_reached_cons_nil
    {value : Value}
    {segment : PathSegment}
    {rest : List PathSegment} :
    ¬ Reached value (segment :: rest) [] := fun reached =>
  nomatch reached.1

/-- A segment takes the walk one matching step down, into a child that exists. -/
theorem reached_cons_cons_iff
    {value : Value}
    {segment : PathSegment}
    {rest : List PathSegment}
    {step : Step}
    {tail : Position} :
    Reached value (segment :: rest) (step :: tail) ↔
      segment.Matches step ∧ ∃ child, value.child? step = some child ∧ Reached child rest tail := by
  simp only [Reached, List.forall₂_cons, Value.at?_cons, Option.isSome_bind]
  constructor
  · rintro ⟨⟨segmentMatches, restMatch⟩, present⟩
    cases stepped : value.child? step with
    | none =>
        simp [stepped] at present
    | some child =>
        rw [stepped] at present
        exact ⟨segmentMatches, child, rfl, restMatch, present⟩
  · rintro ⟨segmentMatches, child, stepped, restMatch, present⟩
    rw [stepped]
    exact ⟨⟨segmentMatches, restMatch⟩, present⟩

/-- The strings a walk along `segments` reaches in `value`, where `leaf` agrees with `f`. -/
def LeafAgrees {ε : Type} (leaf : String → Except ε String) (f : String → String)
    (value : Value) (segments : List PathSegment) : Prop :=
  ∀ position text, Reached value segments position →
    value.at? position = some (.string text) → leaf text = .ok (f text)

/-- Agreement on a value's reached strings passes to the child one segment down. -/
theorem LeafAgrees.child
    {ε : Type}
    {leaf : String → Except ε String}
    {f : String → String}
    {value child : Value}
    {segment : PathSegment}
    {rest : List PathSegment}
    {step : Step}
    (agrees : LeafAgrees leaf f value (segment :: rest))
    (segmentMatches : segment.Matches step)
    (stepped : value.child? step = some child) :
    LeafAgrees leaf f child rest := by
  intro position text reached childFound
  apply agrees (step :: position) text
  · exact reached_cons_cons_iff.mpr ⟨segmentMatches, child, stepped, reached⟩
  · rw [Value.at?_cons, stepped]
    exact childFound

/-! ## The effectful walk refines the pure one -/

/-- What a leaf action returns, or the text itself where it fails. -/
def leafOrSelf {ε : Type} (leaf : String → Except ε String) (text : String) : String :=
  match leaf text with
  | .ok result => result
  | .error _ => text

/-- A leaf action that succeeds returns `leafOrSelf`. -/
theorem eq_ok_leafOrSelf
    {ε : Type}
    {leaf : String → Except ε String}
    {text : String}
    (succeeds : (leaf text).isOk = true) :
    leaf text = .ok (leafOrSelf leaf text) := by
  unfold leafOrSelf
  cases result : leaf text with
  | ok value => rfl
  | error e => simp [result] at succeeds

/--
When the leaf action agrees with `f` on every string the walk reaches, the walk
succeeds with the pure rewrite by `f`.
-/
theorem visitAtPath_eq_ok
    {ε : Type}
    {leaf : String → Except ε String}
    {f : String → String}
    {segments : List PathSegment}
    {value : Value}
    (agrees : LeafAgrees leaf f value segments) :
    visitAtPath leaf segments value = .ok (rewriteAtPath f segments value) := by
  induction segments generalizing value with
  | nil =>
      cases value with
      | string text =>
          have leafOk := agrees [] text (reached_nil_iff.mpr rfl) rfl
          simp [visitAtPath, rewriteAtPath, leafOk]
      | null | bool _ | number _ | array _ | object _ =>
          rfl
  | cons segment rest inductionHypothesis =>
      cases segment with
      | key key =>
          cases value with
          | object members =>
              rw [visitAtPath, rewriteAtPath, updateMember_eq]
              cases found : members.lookup key with
              | none =>
                  simp [modifyMember_of_lookup_eq_none _ found]
              | some child =>
                  have childOk := inductionHypothesis
                    (agrees.child (show (PathSegment.key key).Matches (.key key) from rfl) found)
                  simp only [childOk, Except.map_ok, Except.ok.injEq, Value.object.injEq]
                  exact modifyMember_congr found rfl
          | null | bool _ | number _ | string _ | array _ =>
              rfl
      | arrayItem =>
          cases value with
          | array items =>
              have itemsOk :
                  ∀ item ∈ items, visitAtPath leaf rest item = .ok (rewriteAtPath f rest item) := by
                intro item member
                obtain ⟨i, stepped⟩ := List.mem_iff_getElem?.mp member
                exact inductionHypothesis
                  (agrees.child (show PathSegment.arrayItem.Matches (.index i) from trivial) stepped)
              rw [visitAtPath, rewriteAtPath, ExceptList.mapM_eq_ok_map itemsOk]
              rfl
          | null | bool _ | number _ | string _ | object _ =>
              rfl

/-- A reached string on which the leaf action fails makes the whole walk fail. -/
theorem visitAtPath_isOk_eq_false
    {ε : Type}
    {leaf : String → Except ε String}
    {segments : List PathSegment}
    {value : Value}
    {position : Position}
    {text : String}
    (reached : Reached value segments position)
    (found : value.at? position = some (.string text))
    (failure : (leaf text).isOk = false) :
    (visitAtPath leaf segments value).isOk = false := by
  induction segments generalizing value position with
  | nil =>
      obtain rfl := reached_nil_iff.mp reached
      simp only [Value.at?_nil, Option.some.injEq] at found
      subst found
      simp [visitAtPath, failure]
  | cons segment rest inductionHypothesis =>
      cases position with
      | nil =>
          exact absurd reached not_reached_cons_nil
      | cons step tail =>
          obtain ⟨segmentMatches, child, stepped, childReached⟩ := reached_cons_cons_iff.mp reached
          have childFound : child.at? tail = some (.string text) := by
            rw [Value.at?_cons, stepped] at found
            exact found
          have childFails := inductionHypothesis childReached childFound
          cases segment with
          | key key =>
              -- The step is the member `key` of an object.
              cases step with
              | index i =>
                  exact absurd segmentMatches id
              | key name =>
                  cases segmentMatches
                  obtain ⟨members, rfl, memberFound⟩ := Value.eq_object_of_child?_key stepped
                  simp [visitAtPath, updateMember_eq, memberFound, childFails]
          | arrayItem =>
              -- The step is one element of an array.
              cases step with
              | key name =>
                  exact absurd segmentMatches id
              | index i =>
                  obtain ⟨items, rfl, itemFound⟩ := Value.eq_array_of_child?_index stepped
                  have member : child ∈ items := List.mem_of_getElem? itemFound
                  simp [visitAtPath, ExceptList.mapM_isOk_eq_false member childFails]

/-- A walk that succeeds is the pure rewrite by what its leaf action returns. -/
theorem visitAtPath_eq_ok_of_isOk
    {ε : Type}
    {leaf : String → Except ε String}
    {segments : List PathSegment}
    {value : Value}
    (succeeds : (visitAtPath leaf segments value).isOk = true) :
    visitAtPath leaf segments value = .ok (rewriteAtPath (leafOrSelf leaf) segments value) := by
  apply visitAtPath_eq_ok
  intro position text reached found
  apply eq_ok_leafOrSelf
  -- A failing reached string would make the walk fail.
  by_contra leafFails
  have walkFails :=
    visitAtPath_isOk_eq_false reached found (Bool.eq_false_iff.mpr leafFails)
  rw [succeeds] at walkFails
  cases walkFails

/-! ## What the pure walk does -/

section Rewrite

variable (f : String → String)

/-- A rewrite changes strings only: the value keeps its shape. -/
theorem eraseStrings_rewriteAtPath
    (segments : List PathSegment)
    (value : Value) :
    (rewriteAtPath f segments value).eraseStrings = value.eraseStrings := by
  induction segments generalizing value with
  | nil =>
      cases value <;> simp [rewriteAtPath]
  | cons segment rest inductionHypothesis =>
      cases segment with
      | key key =>
          cases value with
          | object members =>
              simp only [rewriteAtPath, Value.eraseStrings_object]
              rw [map_eraseStrings_modifyMember key inductionHypothesis]
          | null | bool _ | number _ | string _ | array _ =>
              rfl
      | arrayItem =>
          cases value with
          | array items =>
              simp [rewriteAtPath, inductionHypothesis]
          | null | bool _ | number _ | string _ | object _ =>
              rfl

/-- A rewrite moves no position a walk reaches. -/
theorem reached_rewriteAtPath_iff
    {segments others : List PathSegment}
    {value : Value}
    {position : Position} :
    Reached (rewriteAtPath f segments value) others position ↔
      Reached value others position := by
  have sameShape : (rewriteAtPath f segments value).SameShape value :=
    eraseStrings_rewriteAtPath f segments value
  simp only [Reached, sameShape.at?_isSome position]

/-- A rewrite with no segments left leaves every child in place. -/
theorem child?_rewriteAtPath_nil
    (value : Value)
    (step : Step) :
    (rewriteAtPath f [] value).child? step = value.child? step := by
  cases value <;> cases step <;> rfl

/-- One segment down, a rewrite is the rest of the rewrite on the matching children. -/
theorem child?_rewriteAtPath_cons
    (segment : PathSegment)
    (rest : List PathSegment)
    (value : Value)
    (step : Step) :
    (rewriteAtPath f (segment :: rest) value).child? step =
      if segment.Matches step then (value.child? step).map (rewriteAtPath f rest)
      else value.child? step := by
  cases segment with
  | key key =>
      cases value with
      | object members =>
          cases step with
          | key name =>
              by_cases sameName : key = name
              · subst sameName
                simp [rewriteAtPath, Value.child?, lookup_modifyMember, PathSegment.Matches]
              · simp [rewriteAtPath, Value.child?, lookup_modifyMember, PathSegment.Matches,
                  sameName, Ne.symm sameName]
          | index i =>
              rfl
      | null | bool _ | number _ | string _ | array _ =>
          cases step with
          | key name => simp [rewriteAtPath, Value.child?]
          | index i => simp [rewriteAtPath, Value.child?, PathSegment.Matches]
  | arrayItem =>
      cases value with
      | array items =>
          cases step with
          | key name =>
              rfl
          | index i =>
              simp [rewriteAtPath, Value.child?, PathSegment.Matches]
      | null | bool _ | number _ | string _ | object _ =>
          cases step with
          | key name => simp [rewriteAtPath, Value.child?, PathSegment.Matches]
          | index i => simp [rewriteAtPath, Value.child?]

/--
A rewrite applies `f` to the string at each reached position and keeps every
other string.
-/
theorem at?_rewriteAtPath_of_string
    {segments : List PathSegment}
    {value : Value}
    {position : Position}
    {text : String}
    (found : value.at? position = some (.string text)) :
    (rewriteAtPath f segments value).at? position =
      some (.string (if Reached value segments position then f text else text)) := by
  -- The induction follows the position, one step of the value at a time.
  induction position generalizing value segments with
  | nil =>
      simp only [Value.at?_nil, Option.some.injEq] at found
      subst found
      cases segments with
      | nil =>
          simp [rewriteAtPath, reached_nil_iff]
      | cons segment rest =>
          rw [if_neg not_reached_cons_nil]
          cases segment <;> rfl
  | cons step tail inductionHypothesis =>
      rw [Value.at?_cons] at found ⊢
      obtain ⟨child, stepped, childFound⟩ := Option.bind_eq_some_iff.mp found
      cases segments with
      | nil =>
          have notReached : ¬ Reached value [] (step :: tail) := by
            simp [reached_nil_iff]
          rw [child?_rewriteAtPath_nil, stepped, if_neg notReached]
          exact childFound
      | cons segment rest =>
          rw [child?_rewriteAtPath_cons]
          by_cases segmentMatches : segment.Matches step
          · have sameReach :
                Reached value (segment :: rest) (step :: tail) ↔ Reached child rest tail := by
              simp [reached_cons_cons_iff, segmentMatches, stepped]
            rw [if_pos segmentMatches, stepped, Option.map_some, Option.bind_some,
              inductionHypothesis childFound]
            simp only [sameReach]
          · have notReached : ¬ Reached value (segment :: rest) (step :: tail) := by
              simp [reached_cons_cons_iff, segmentMatches]
            rw [if_neg segmentMatches, if_neg notReached, stepped]
            exact childFound

/-- Rewriting by the identity changes nothing. -/
theorem rewriteAtPath_id
    (segments : List PathSegment)
    (value : Value) :
    rewriteAtPath id segments value = value := by
  induction segments generalizing value with
  | nil =>
      cases value <;> rfl
  | cons segment rest inductionHypothesis =>
      cases segment with
      | key key =>
          cases value with
          | object members =>
              have restId : rewriteAtPath id rest = id := funext inductionHypothesis
              simp only [rewriteAtPath, restId, modifyMember_id]
          | null | bool _ | number _ | string _ | array _ =>
              rfl
      | arrayItem =>
          cases value with
          | array items =>
              have restId : rewriteAtPath id rest = id := funext inductionHypothesis
              simp only [rewriteAtPath, restId, List.map_id]
          | null | bool _ | number _ | string _ | object _ =>
              rfl

/-- Two rewrites along the same segments are one rewrite by the composite. -/
theorem rewriteAtPath_rewriteAtPath_self
    (g : String → String)
    (segments : List PathSegment)
    (value : Value) :
    rewriteAtPath g segments (rewriteAtPath f segments value) =
      rewriteAtPath (g ∘ f) segments value := by
  induction segments generalizing value with
  | nil =>
      cases value <;> rfl
  | cons segment rest inductionHypothesis =>
      cases segment with
      | key key =>
          cases value with
          | object members =>
              have restComposed :
                  rewriteAtPath g rest ∘ rewriteAtPath f rest = rewriteAtPath (g ∘ f) rest :=
                funext inductionHypothesis
              simp only [rewriteAtPath, modifyMember_modifyMember_self, restComposed]
          | null | bool _ | number _ | string _ | array _ =>
              rfl
      | arrayItem =>
          cases value with
          | array items =>
              simp only [rewriteAtPath, List.map_map, Value.array.injEq]
              exact List.map_congr_left fun item _ => inductionHypothesis item
          | null | bool _ | number _ | string _ | object _ =>
              rfl

/-- Rewrites along distinct segment lists commute, whatever the two leaf functions. -/
theorem rewriteAtPath_comm
    (g : String → String)
    {segments others : List PathSegment}
    (differ : segments ≠ others)
    (value : Value) :
    rewriteAtPath f segments (rewriteAtPath g others value) =
      rewriteAtPath g others (rewriteAtPath f segments value) := by
  induction segments generalizing others value with
  | nil =>
      cases others with
      | nil =>
          exact absurd rfl differ
      | cons other rest =>
          cases value <;> cases other <;> rfl
  | cons segment rest inductionHypothesis =>
      cases others with
      | nil =>
          cases value <;> cases segment <;> rfl
      | cons other otherRest =>
          cases segment with
          | key key =>
              cases other with
              | key otherKey =>
                  cases value with
                  | object members =>
                      simp only [rewriteAtPath, Value.object.injEq]
                      by_cases sameKey : key = otherKey
                      · -- One member is rewritten twice, by rests that differ.
                        subst sameKey
                        have restsDiffer : rest ≠ otherRest := fun same => differ (by rw [same])
                        rw [modifyMember_modifyMember_self, modifyMember_modifyMember_self]
                        congr 1
                        funext child
                        exact inductionHypothesis restsDiffer child
                      · exact modifyMember_comm sameKey _ _ members
                  | null | bool _ | number _ | string _ | array _ =>
                      rfl
              | arrayItem =>
                  cases value <;> rfl
          | arrayItem =>
              cases other with
              | key otherKey =>
                  cases value <;> rfl
              | arrayItem =>
                  cases value with
                  | array items =>
                      -- Every element is rewritten along both rests, which differ.
                      have restsDiffer : rest ≠ otherRest := fun same => differ (by rw [same])
                      simp only [rewriteAtPath, List.map_map, Value.array.injEq]
                      apply List.map_congr_left
                      intro item _
                      exact inductionHypothesis restsDiffer item
                  | null | bool _ | number _ | string _ | object _ =>
                      rfl

end Rewrite

/-- Agreement on the strings a walk reaches survives a rewrite along other segments. -/
theorem LeafAgrees.rewriteAtPath_of_ne
    {ε : Type}
    {leaf : String → Except ε String}
    {f g : String → String}
    {value : Value}
    {segments others : List PathSegment}
    (agrees : LeafAgrees leaf f value others)
    (differ : segments ≠ others) :
    LeafAgrees leaf f (rewriteAtPath g segments value) others := by
  intro position text reached found
  have reachedBefore : Reached value others position :=
    (reached_rewriteAtPath_iff g).mp reached
  have notRewritten : ¬ Reached value segments position := fun rewritten =>
    not_reached_of_reached differ rewritten reachedBefore
  -- The string there before the rewrite is the one found after it.
  have sameShape : (rewriteAtPath g segments value).SameShape value :=
    eraseStrings_rewriteAtPath g segments value
  obtain ⟨original, originalFound⟩ := sameShape.at?_string found
  have kept :
      (rewriteAtPath g segments value).at? position =
        some (.string (if Reached value segments position then g original else original)) :=
    at?_rewriteAtPath_of_string g originalFound
  rw [if_neg notRewritten, found, Option.some.injEq, Value.string.injEq] at kept
  rw [kept]
  exact agrees position original reachedBefore originalFound

/-- Rewrites by functions that agree on every reached string are equal. -/
theorem rewriteAtPath_congr
    {f g : String → String}
    {segments : List PathSegment}
    {value : Value}
    (agree : ∀ position text, Reached value segments position →
      value.at? position = some (.string text) → f text = g text) :
    rewriteAtPath f segments value = rewriteAtPath g segments value := by
  -- Both are the walk whose leaf action returns `f`.
  have byF : visitAtPath (fun text => (.ok (f text) : Except Empty String)) segments value =
      .ok (rewriteAtPath f segments value) :=
    visitAtPath_eq_ok fun _ _ _ _ => rfl
  have byG : visitAtPath (fun text => (.ok (f text) : Except Empty String)) segments value =
      .ok (rewriteAtPath g segments value) :=
    visitAtPath_eq_ok fun position text reached found => by
      rw [agree position text reached found]
  exact Except.ok.inj (byF.symm.trans byG)

end NitroEncSvc
