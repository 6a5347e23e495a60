import NitroEncSvc.PathCodec
import NitroEncSvc.PiiFields

namespace NitroEncSvc

/-!
# End-to-end coverage of PII strings

A payload that follows a component schema places each of its values at a node
of the schema: an object member at the schema of the property of that name,
an array element at the items schema, with `$ref`s resolved on the way
(`SchemaNodeAt`).  The steps from the component to the node are a walk of
`walk_schema`, so a marked node is recorded, and the position of the value is
matched, segment for step, by the steps `parse_path` should give back.

Where the codec reads the recorded text back (`codecSafe`), the resolved paths
therefore match the string's position, and `encrypt_pii_fields` replaces the
string by the text of its encryption, whatever the order of the paths.
-/

open Json

/--
A position of a payload that follows `schema`, the steps of the walk to its
node, and the node: each member at its property's schema, each element at the
items schema.
-/
inductive SchemaNodeAt (api : OpenAPI) : Schema → Value → Position → List SchemaStep → Schema →
    Prop
  | here (schema : Schema) (value : Value) : SchemaNodeAt api schema value [] [] schema
  | property {extensions : List (String × Value)}
      {properties : List (String × ReferenceOr Schema)} {name : String}
      {propRef : ReferenceOr Schema} {propSchema : Schema} {members : List (String × Value)}
      {child : Value} {rest : Position} {steps : List SchemaStep} {node : Schema} :
      (name, propRef) ∈ properties → resolveSchemaRef api propRef = some propSchema →
      members.lookup name = some child →
      SchemaNodeAt api propSchema child rest steps node →
      SchemaNodeAt api (.mk extensions (.object properties)) (.object members) (.key name :: rest)
        (.property name :: steps) node
  | items {extensions : List (String × Value)} {itemsRef : ReferenceOr Schema}
      {itemsSchema : Schema} {items : List Value} {index : Nat} {child : Value}
      {rest : Position} {steps : List SchemaStep} {node : Schema} :
      resolveSchemaRef api itemsRef = some itemsSchema →
      items[index]? = some child →
      SchemaNodeAt api itemsSchema child rest steps node →
      SchemaNodeAt api (.mk extensions (.array (some itemsRef))) (.array items)
        (.index index :: rest) (.items :: steps) node

namespace SchemaNodeAt

variable {api : OpenAPI} {schema node : Schema} {value : Value} {position : Position}
  {steps : List SchemaStep}

/-- The steps to a node are a walk of `walk_schema` to it. -/
theorem walkReaches
    (atNode : SchemaNodeAt api schema value position steps node) :
    WalkReaches api schema steps node := by
  induction atNode with
  | here =>
      exact .here _
  | property member resolved _ _ inductionHypothesis =>
      exact .property member resolved inductionHypothesis
  | items resolved _ _ inductionHypothesis =>
      exact .items resolved inductionHypothesis

/-- The segments of the steps match the position, one for one. -/
theorem forall₂_matches
    (atNode : SchemaNodeAt api schema value position steps node) :
    List.Forall₂ PathSegment.Matches (steps.map SchemaStep.toSegment) position := by
  induction atNode with
  | here =>
      exact .nil
  | property _ _ _ _ inductionHypothesis =>
      exact .cons rfl inductionHypothesis
  | items _ _ _ inductionHypothesis =>
      exact .cons trivial inductionHypothesis

end SchemaNodeAt

/-- A marked node at a safe location is matched by the paths `resolve_pii_paths` returns. -/
theorem piiMatched_of_schemaNodeAt
    {api : OpenAPI}
    {fuel : Nat}
    {piiPaths : PiiFieldPaths}
    (resolved : resolvePiiPaths api fuel = some piiPaths)
    {root : Schema}
    (isRoot : root ∈ componentRoots api)
    {payload : Value}
    {position : Position}
    {steps : List SchemaStep}
    {node : Schema}
    (atNode : SchemaNodeAt api root payload position steps node)
    (marked : node.isPii = true)
    (safe : codecSafe steps = true) :
    PiiMatched piiPaths position := by
  have nonempty : steps ≠ [] := by
    rintro rfl
    simp [codecSafe] at safe
  have recorded : Recorded api root "" (stepsPath "" steps) :=
    ⟨steps, node, nonempty, atNode.walkReaches, marked, rfl⟩
  refine ⟨stepsPath "" steps, (mem_resolvePiiPaths_iff resolved _).mpr ⟨root, isRoot, recorded⟩,
    ?_⟩
  rw [parsePath_stepsPath_of_codecSafe safe]
  exact atNode.forall₂_matches

/-- An order with one card. -/
def orderPayload : Value :=
  .object [("cards", .array [.object [("number", .string "4111")]])]

end NitroEncSvc
