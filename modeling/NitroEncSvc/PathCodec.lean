import NitroEncSvc.PathTraversal
import NitroEncSvc.Resolver

namespace NitroEncSvc

/-!
# The path codec between the resolver and the handlers

`walk_schema` writes the location of a PII schema as text: a property adds its
name, after a dot unless the prefix is still empty, and array items add `[]`.
`parse_path` reads the text back by splitting it at every dot and stripping
one `[]` from each part.  The text is then a list of parts, one for each
property step together with the items step after it, joined by dots.

The two agree on the locations whose parts it can read back
(`parsePath_stepsPath_of_codecSafe`): every property name is free of dots,
carries at most one items step, and ends in `[]` only when one follows, and
the first step is a property with a nonempty name.  Outside that fragment they
disagree: a component that is itself an array starts its text with `[]`,
which `parse_path` reads as a key (`parsePath_stepsPath_items_cons`).
-/

open Json

/-- The segment `parse_path` should give back for one step of the walk. -/
def SchemaStep.toSegment : SchemaStep → PathSegment
  | .property name => .key name
  | .items => .arrayItem

/--
Steps that fall into parts `parse_path` reads back: each property name is free
of dots and followed by at most one items step, and a name ending in `[]` is
followed by one.
-/
def spelledSteps : List SchemaStep → Bool
  | [] => true
  | .property name :: .items :: rest => !name.toList.contains '.' && spelledSteps rest
  | .property name :: rest =>
      !name.toList.contains '.' && (Str.stripSuffix? name "[]").isNone && spelledSteps rest
  | .items :: _ => false

/-- A location whose text `parse_path` reads back: spelled steps from a named first property. -/
def codecSafe : List SchemaStep → Bool
  | .property name :: rest => !name.isEmpty && spelledSteps (.property name :: rest)
  | .items :: _ => false
  | [] => false

example : codecSafe [.property "orders", .items, .property "card_number"] = true := by
  decide

/-! ## Writing the text -/

theorem stepsPath_cons
    (pathPrefix : String)
    (step : SchemaStep)
    (rest : List SchemaStep) :
    stepsPath pathPrefix (step :: rest) = stepsPath (step.extendPath pathPrefix) rest :=
  rfl

theorem propertyPath_of_ne_empty
    {pathPrefix : String}
    (nonempty : pathPrefix ≠ "")
    (name : String) :
    propertyPath pathPrefix name = pathPrefix ++ "." ++ name := by
  simp [propertyPath, nonempty]

theorem arrayPath_of_ne_empty
    {pathPrefix : String}
    (nonempty : pathPrefix ≠ "") :
    arrayPath pathPrefix = pathPrefix ++ "[]" := by
  simp [arrayPath, nonempty]

/-- A property name followed by something other than an items step is a part of its own. -/
theorem segmentParts_key_cons
    (name : String)
    {rest : List SchemaStep}
    (noItems : ∀ after, rest ≠ .items :: after) :
    segmentParts ((SchemaStep.property name :: rest).map SchemaStep.toSegment) =
      name :: segmentParts (rest.map SchemaStep.toSegment) := by
  cases rest with
  | nil =>
      rfl
  | cons next after =>
      cases next with
      | property other => rfl
      | items => exact absurd rfl (noItems after)

/--
After a nonempty prefix, spelled steps write their parts each after a dot:
the whole text is the prefix and the parts, joined by dots.
-/
theorem stepsPath_of_spelledSteps
    {steps : List SchemaStep}
    (spelled : spelledSteps steps = true)
    {cur : String}
    (nonempty : cur ≠ "") :
    stepsPath cur steps =
      (String.singleton '.').intercalate (cur :: segmentParts (steps.map SchemaStep.toSegment)) := by
  induction steps using spelledSteps.induct generalizing cur with
  | case1 =>
      simp [stepsPath, segmentParts]
  | case2 name rest inductionHypothesis =>
      simp only [spelledSteps, Bool.and_eq_true] at spelled
      have extended : cur ++ "." ++ name ++ "[]" ≠ "" := by simp
      rw [stepsPath_cons, stepsPath_cons, SchemaStep.extendPath, SchemaStep.extendPath,
        propertyPath_of_ne_empty nonempty, arrayPath_of_ne_empty (by simp),
        inductionHypothesis spelled.2 extended]
      simp [segmentParts, SchemaStep.toSegment, String.append_assoc]
  | case3 name rest noItems inductionHypothesis =>
      simp only [spelledSteps, Bool.and_eq_true] at spelled
      rw [stepsPath_cons, SchemaStep.extendPath, propertyPath_of_ne_empty nonempty,
        inductionHypothesis spelled.2 (by simp), segmentParts_key_cons name noItems]
      simp [String.append_assoc]
  | case4 rest =>
      simp [spelledSteps] at spelled

/-- From the root, the text of a safe location is its parts joined by dots. -/
theorem stepsPath_of_codecSafe
    {steps : List SchemaStep}
    (safe : codecSafe steps = true) :
    stepsPath "" steps =
      (String.singleton '.').intercalate (segmentParts (steps.map SchemaStep.toSegment)) := by
  obtain ⟨name, rest, rfl⟩ : ∃ name rest, steps = .property name :: rest := by
    cases steps with
    | nil => simp [codecSafe] at safe
    | cons step rest =>
        cases step with
        | property name => exact ⟨name, rest, rfl⟩
        | items => simp [codecSafe] at safe
  simp only [codecSafe, Bool.and_eq_true, Bool.not_eq_true', String.isEmpty_eq_false_iff] at safe
  obtain ⟨named, spelled⟩ := safe
  -- The first part is the name itself, with `[]` when an items step follows.
  rw [stepsPath_cons, SchemaStep.extendPath, propertyPath, if_pos (by simp)]
  cases rest with
  | nil =>
      simp [stepsPath, segmentParts, SchemaStep.toSegment]
  | cons next after =>
      cases next with
      | items =>
          simp only [spelledSteps, Bool.and_eq_true] at spelled
          rw [stepsPath_cons, SchemaStep.extendPath, arrayPath_of_ne_empty named,
            stepsPath_of_spelledSteps spelled.2 (by simp)]
          rfl
      | property other =>
          have restSpelled : spelledSteps (.property other :: after) = true := by
            simp only [spelledSteps, Bool.and_eq_true] at spelled
            exact spelled.2
          rw [stepsPath_of_spelledSteps restSpelled named,
            segmentParts_key_cons name (by simp)]

/-! ## Reading it back -/

/-- A part ending in `[]` reads as its key and an `ArrayItem`. -/
theorem partSegments_append_brackets
    (name : String) :
    partSegments (name ++ "[]") = [.key name, .arrayItem] := by
  simp [partSegments, Str.stripSuffix?_append]

/-- A part without the `[]` suffix reads as one key. -/
theorem partSegments_of_stripSuffix?_eq_none
    {name : String}
    (plain : Str.stripSuffix? name "[]" = none) :
    partSegments name = [.key name] := by
  simp [partSegments, plain]

/-- The parts of spelled steps read back as the steps, one segment each. -/
theorem flatMap_partSegments_segmentParts
    {steps : List SchemaStep}
    (spelled : spelledSteps steps = true) :
    (segmentParts (steps.map SchemaStep.toSegment)).flatMap partSegments =
      steps.map SchemaStep.toSegment := by
  induction steps using spelledSteps.induct with
  | case1 =>
      rfl
  | case2 name rest inductionHypothesis =>
      simp only [spelledSteps, Bool.and_eq_true] at spelled
      simp [SchemaStep.toSegment, segmentParts, partSegments_append_brackets,
        inductionHypothesis spelled.2]
  | case3 name rest noItems inductionHypothesis =>
      simp only [spelledSteps, Bool.and_eq_true, Option.isNone_iff_eq_none] at spelled
      rw [segmentParts_key_cons name noItems, List.flatMap_cons,
        partSegments_of_stripSuffix?_eq_none spelled.1.2, inductionHypothesis spelled.2]
      rfl
  | case4 rest =>
      simp [spelledSteps] at spelled

/-- No part of spelled steps holds a dot. -/
theorem dot_not_mem_segmentParts
    {steps : List SchemaStep}
    (spelled : spelledSteps steps = true) :
    ∀ part ∈ segmentParts (steps.map SchemaStep.toSegment), '.' ∉ part.toList := by
  induction steps using spelledSteps.induct with
  | case1 =>
      simp [segmentParts]
  | case2 name rest inductionHypothesis =>
      simp [spelledSteps] at spelled
      simp only [List.map_cons, SchemaStep.toSegment, segmentParts, List.mem_cons,
        forall_eq_or_imp]
      exact ⟨by simpa using spelled.1, inductionHypothesis spelled.2⟩
  | case3 name rest noItems inductionHypothesis =>
      simp [spelledSteps] at spelled
      rw [segmentParts_key_cons name noItems]
      simp only [List.mem_cons, forall_eq_or_imp]
      exact ⟨spelled.1.1, inductionHypothesis spelled.2⟩
  | case4 rest =>
      simp [spelledSteps] at spelled

/-- A location starting at a property has a first part. -/
theorem segmentParts_property_cons_ne_nil
    (name : String)
    (rest : List SchemaStep) :
    segmentParts ((SchemaStep.property name :: rest).map SchemaStep.toSegment) ≠ [] := by
  cases rest with
  | nil =>
      simp [segmentParts, SchemaStep.toSegment]
  | cons next after =>
      cases next with
      | property other => simp [segmentParts, SchemaStep.toSegment]
      | items => simp [segmentParts, SchemaStep.toSegment]

/-- `parse_path` reads the text of a safe location back as its steps. -/
theorem parsePath_stepsPath_of_codecSafe
    {steps : List SchemaStep}
    (safe : codecSafe steps = true) :
    parsePath (stepsPath "" steps) = steps.map SchemaStep.toSegment := by
  obtain ⟨name, rest, rfl⟩ : ∃ name rest, steps = .property name :: rest := by
    cases steps with
    | nil => simp [codecSafe] at safe
    | cons step rest =>
        cases step with
        | property name => exact ⟨name, rest, rfl⟩
        | items => simp [codecSafe] at safe
  have spelled : spelledSteps (.property name :: rest) = true := by
    simp only [codecSafe, Bool.and_eq_true] at safe
    exact safe.2
  rw [stepsPath_of_codecSafe safe, parsePath,
    Str.split_intercalate '.' (dot_not_mem_segmentParts spelled)
      (segmentParts_property_cons_ne_nil name rest),
    flatMap_partSegments_segmentParts spelled]

/-- A component that is itself an array never reads back: its text starts with a key. -/
theorem parsePath_stepsPath_items_cons
    (rest : List SchemaStep) :
    parsePath (stepsPath "" (.items :: rest)) ≠ (SchemaStep.items :: rest).map SchemaStep.toSegment :=
  flatMap_partSegments_ne_arrayItem_cons _ _

/-! ## The paths `resolve_pii_paths` returns -/

/-- A string schema marked `x-pii: true`. -/
def piiString : Schema :=
  .mk [("x-pii", .bool true)] .other

/-- An order whose cards each carry a PII number. -/
def orderSchema : Schema :=
  .mk [] (.object [("cards", .item (.mk [] (.array (some (.item
    (.mk [] (.object [("number", .item piiString)])))))))])

/-- A document whose only component is the order. -/
def orderDocument : OpenAPI :=
  ⟨some ⟨[("Order", .item orderSchema)]⟩⟩

end NitroEncSvc
