import NitroEncSvc.Json
import NitroEncSvc.Str

namespace NitroEncSvc

/-!
# OpenAPI documents (`openapiv3`)

The part of an `openapiv3::OpenAPI` document that `schema/resolver.rs` reads:
the schemas under `components`, each inline or a `$ref`; of a schema, its
extensions and its kind, where only an object (through its properties) and an
array (through its items) has schemas below it.  The crate's `IndexMap`s are
member lists in insertion order, read by first match.
-/

open Json

/-- `openapiv3::ReferenceOr`: a `$ref` string or an inline item. -/
inductive ReferenceOr (α : Type) where
  | reference (reference : String)
  | item (value : α)
  deriving Repr

/--
`openapiv3::SchemaKind`: the object and array types, which the walk descends
into, and every other kind as one.
-/
inductive SchemaKind (σ : Type) where
  | object (properties : List (String × ReferenceOr σ))
  | array (items : Option (ReferenceOr σ))
  | other
  deriving Repr

/-- `openapiv3::Schema`: `schema_data.extensions` and `schema_kind`. -/
inductive Schema where
  | mk (extensions : List (String × Value)) (schemaKind : SchemaKind Schema)

/-- `openapiv3::Components`, with the `schemas` map. -/
structure Components where
  schemas : List (String × ReferenceOr Schema)

/-- `openapiv3::OpenAPI`, with the `components` object. -/
structure OpenAPI where
  components : Option Components

namespace Schema

/-- `extensions.get("x-pii").and_then(|v| v.as_bool()).unwrap_or(false)`. -/
def isPii : Schema → Bool
  | .mk extensions _ => ((extensions.lookup "x-pii").bind Value.asBool).getD false

end Schema

/-- The prefix of a `$ref` to a component schema. -/
def componentsSchemasPrefix : String := "#/components/schemas/"

/--
`resolve_ref`: the inline component schema that `#/components/schemas/<name>`
names; `none` for another format, a missing name, or a chained reference.
-/
def resolveRef (api : OpenAPI) (reference : String) : Option Schema :=
  (Str.stripPrefix? reference componentsSchemasPrefix).bind fun name =>
    api.components.bind fun components =>
      (components.schemas.lookup name).bind fun
        | .item schema => some schema
        | .reference _ => none

/-- The schema of a `components/schemas` entry, if it is inline. -/
def componentRoot? (entry : String × ReferenceOr Schema) : Option Schema :=
  match entry.2 with
  | .item schema => some schema
  | .reference _ => none

/-- The inline schemas of `components/schemas`, where `resolve_pii_paths` starts a walk. -/
def componentRoots (api : OpenAPI) : List Schema :=
  match api.components with
  | none => []
  | some components => components.schemas.filterMap componentRoot?

/-- A reference resolves to one of the walk's starting schemas. -/
theorem mem_componentRoots_of_resolveRef
    {api : OpenAPI}
    {reference : String}
    {schema : Schema}
    (resolved : resolveRef api reference = some schema) :
    schema ∈ componentRoots api := by
  simp only [resolveRef, Option.bind_eq_some_iff] at resolved
  obtain ⟨name, -, components, hasComponents, entry, found, isItem⟩ := resolved
  cases entry with
  | reference _ =>
      cases isItem
  | item found' =>
      cases isItem
      obtain ⟨before, after, split, -⟩ := List.lookup_eq_some_iff.mp found
      simp only [componentRoots, hasComponents, List.mem_filterMap]
      exact ⟨(name, .item schema), by simp [split], rfl⟩

end NitroEncSvc
