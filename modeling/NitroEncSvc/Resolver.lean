import Mathlib.Data.Finset.Insert
import Mathlib.Data.Fintype.Card
import Mathlib.Data.Set.Finite.Basic
import NitroEncSvc.OpenApi

namespace NitroEncSvc

/-!
# PII path resolution (`schema/resolver.rs`)

`resolve_pii_paths` walks every inline schema of `components/schemas`,
descending through object properties and array items, resolving each `$ref`
on the way, and records the dot-notation path of every schema marked
`x-pii: true`.  The walk keeps no set of visited schemas, so a document whose
references form a cycle sends it into unbounded recursion.

`walkSchema` is the walk with an explicit bound on its depth of nested calls:
`none` means that the recursion goes deeper than `fuel`.  The walk is
described declaratively by `WalkReaches`, the relation between a schema, a
list of steps and the schema they lead to, and `stepsPath`, the text the walk
builds for a list of steps.  The walk records exactly the paths of the marked
schemas it reaches (`mem_walkSchema_iff`); it finishes within `fuel` exactly
when no chain of steps from its start is `fuel` long (`walkSchema_isSome_iff`);
and `resolve_pii_paths` finishes, for some bound, exactly when no component
schema reaches itself again (`resolvePiiPaths_terminates_iff`).
-/

open Json

/-- `PiiFieldPaths`: the dot-notation paths a schema marks as PII. -/
abbrev PiiFieldPaths := Finset String

/-- A property or items schema, inline or resolved through `resolve_ref`. -/
def resolveSchemaRef (api : OpenAPI) : ReferenceOr Schema → Option Schema
  | .item schema => some schema
  | .reference reference => resolveRef api reference

/-- The path of a property: its name at the root, else after the prefix and a dot. -/
def propertyPath (pathPrefix propName : String) : String :=
  if pathPrefix.isEmpty then propName else pathPrefix ++ "." ++ propName

/-- The path of array items: `[]` at the root, else the prefix followed by `[]`. -/
def arrayPath (pathPrefix : String) : String :=
  if pathPrefix.isEmpty then "[]" else pathPrefix ++ "[]"

/--
`walk_schema`, with at most `fuel` nested calls: the paths of `out` together
with those of the marked schemas below `schema`, or `none` when the recursion
goes deeper than `fuel`.
-/
def walkSchema (api : OpenAPI) : Nat → Schema → String → PiiFieldPaths →
    Option PiiFieldPaths
  | 0, _, _, _ => none
  | fuel + 1, .mk _ (.object properties), pathPrefix, out =>
      properties.foldlM
        (fun out property =>
          let path := propertyPath pathPrefix property.1
          match resolveSchemaRef api property.2 with
          | some propSchema =>
              walkSchema api fuel propSchema path
                (if propSchema.isPii then insert path out else out)
          | none => some out)
        out
  | fuel + 1, .mk _ (.array (some itemsRef)), pathPrefix, out =>
      let path := arrayPath pathPrefix
      match resolveSchemaRef api itemsRef with
      | some itemsSchema =>
          walkSchema api fuel itemsSchema path
            (if itemsSchema.isPii then insert path out else out)
      | none => some out
  | _ + 1, .mk _ (.array none), _, out => some out
  | _ + 1, .mk _ .other, _, out => some out

/-- One iteration of the loop of `resolve_pii_paths`: walk the entry if it is inline. -/
def walkComponent (api : OpenAPI) (fuel : Nat) (paths : PiiFieldPaths)
    (entry : String × ReferenceOr Schema) : Option PiiFieldPaths :=
  match entry.2 with
  | .item schema => walkSchema api fuel schema "" paths
  | .reference _ => some paths

/--
`resolve_pii_paths`, with at most `fuel` nested calls of each walk: one walk
from every inline component schema, with an empty prefix.
-/
def resolvePiiPaths (api : OpenAPI) (fuel : Nat) : Option PiiFieldPaths :=
  match api.components with
  | none => some ∅
  | some components => components.schemas.foldlM (walkComponent api fuel) ∅

/-! ## The walk, declaratively -/

/-- One step of the walk: into a property by name, or into the array items. -/
inductive SchemaStep where
  | property (name : String)
  | items
  deriving Repr, DecidableEq

/-- The path text after one more step. -/
def SchemaStep.extendPath (pathPrefix : String) : SchemaStep → String
  | .property name => propertyPath pathPrefix name
  | .items => arrayPath pathPrefix

/-- The path text the walk builds along a list of steps, from a prefix. -/
def stepsPath (pathPrefix : String) (steps : List SchemaStep) : String :=
  steps.foldl SchemaStep.extendPath pathPrefix

/-- The steps of the walk from a schema, and the schema they lead to. -/
inductive WalkReaches (api : OpenAPI) : Schema → List SchemaStep → Schema → Prop
  | here (schema : Schema) : WalkReaches api schema [] schema
  | property {extensions : List (String × Value)}
      {properties : List (String × ReferenceOr Schema)} {name : String}
      {propRef : ReferenceOr Schema} {propSchema : Schema} {rest : List SchemaStep}
      {target : Schema} :
      (name, propRef) ∈ properties → resolveSchemaRef api propRef = some propSchema →
      WalkReaches api propSchema rest target →
      WalkReaches api (.mk extensions (.object properties)) (.property name :: rest) target
  | items {extensions : List (String × Value)} {itemsRef : ReferenceOr Schema}
      {itemsSchema : Schema} {rest : List SchemaStep} {target : Schema} :
      resolveSchemaRef api itemsRef = some itemsSchema →
      WalkReaches api itemsSchema rest target →
      WalkReaches api (.mk extensions (.array (some itemsRef))) (.items :: rest) target

/-- The paths a walk from `schema` records: those of the marked schemas it reaches. -/
def Recorded (api : OpenAPI) (schema : Schema) (pathPrefix path : String) : Prop :=
  ∃ steps target, steps ≠ [] ∧ WalkReaches api schema steps target ∧
    target.isPii = true ∧ path = stepsPath pathPrefix steps

/--
The paths a walk records on entering `schema` at `childPath`: that path if the
schema is marked, and what it records below.
-/
def Entered (api : OpenAPI) (schema : Schema) (childPath path : String) : Prop :=
  (schema.isPii = true ∧ path = childPath) ∨ Recorded api schema childPath path

/-- An object records what its properties' schemas record when entered. -/
theorem recorded_object_iff
    {api : OpenAPI}
    {extensions : List (String × Value)}
    {properties : List (String × ReferenceOr Schema)}
    {pathPrefix path : String} :
    Recorded api (.mk extensions (.object properties)) pathPrefix path ↔
      ∃ name propRef propSchema, (name, propRef) ∈ properties ∧
        resolveSchemaRef api propRef = some propSchema ∧
        Entered api propSchema (propertyPath pathPrefix name) path := by
  constructor
  · rintro ⟨steps, target, nonempty, reaches, marked, rfl⟩
    cases reaches with
    | here =>
        exact absurd rfl nonempty
    | property member resolved restReaches =>
        rename_i name propRef propSchema rest
        refine ⟨name, propRef, propSchema, member, resolved, ?_⟩
        cases rest with
        | nil =>
            cases restReaches
            exact Or.inl ⟨marked, rfl⟩
        | cons step more =>
            exact Or.inr ⟨step :: more, target, List.cons_ne_nil _ _, restReaches, marked, rfl⟩
  · rintro ⟨name, propRef, propSchema, member, resolved, entered⟩
    rcases entered with ⟨marked, rfl⟩ | ⟨rest, target, _, restReaches, marked, rfl⟩
    · exact ⟨[.property name], propSchema, List.cons_ne_nil _ _,
        .property member resolved (.here propSchema), marked, rfl⟩
    · exact ⟨.property name :: rest, target, List.cons_ne_nil _ _,
        .property member resolved restReaches, marked, rfl⟩

/-- An array records what its items schema records when entered. -/
theorem recorded_array_iff
    {api : OpenAPI}
    {extensions : List (String × Value)}
    {itemsRef : ReferenceOr Schema}
    {pathPrefix path : String} :
    Recorded api (.mk extensions (.array (some itemsRef))) pathPrefix path ↔
      ∃ itemsSchema, resolveSchemaRef api itemsRef = some itemsSchema ∧
        Entered api itemsSchema (arrayPath pathPrefix) path := by
  constructor
  · rintro ⟨steps, target, nonempty, reaches, marked, rfl⟩
    cases reaches with
    | here =>
        exact absurd rfl nonempty
    | items resolved restReaches =>
        rename_i itemsSchema rest
        refine ⟨itemsSchema, resolved, ?_⟩
        cases rest with
        | nil =>
            cases restReaches
            exact Or.inl ⟨marked, rfl⟩
        | cons step more =>
            exact Or.inr ⟨step :: more, target, List.cons_ne_nil _ _, restReaches, marked, rfl⟩
  · rintro ⟨itemsSchema, resolved, entered⟩
    rcases entered with ⟨marked, rfl⟩ | ⟨rest, target, _, restReaches, marked, rfl⟩
    · exact ⟨[.items], itemsSchema, List.cons_ne_nil _ _,
        .items resolved (.here itemsSchema), marked, rfl⟩
    · exact ⟨.items :: rest, target, List.cons_ne_nil _ _,
        .items resolved restReaches, marked, rfl⟩

/-- A schema with nothing below it records nothing. -/
theorem not_recorded_of_walkReaches_eq_nil
    {api : OpenAPI}
    {schema : Schema}
    (leaf : ∀ steps target, WalkReaches api schema steps target → steps = [])
    (pathPrefix path : String) :
    ¬ Recorded api schema pathPrefix path := fun ⟨steps, target, nonempty, reaches, _⟩ =>
  nonempty (leaf steps target reaches)

/-! ## The walk records exactly the marked schemas it reaches -/

section Walk

variable {api : OpenAPI}

/--
Entering one child at `path`, as both branches of `walk_schema` do: resolve
it, record the path if the child is marked, and walk it.
-/
def walkChild (api : OpenAPI) (fuel : Nat) (childRef : ReferenceOr Schema) (path : String)
    (out : PiiFieldPaths) : Option PiiFieldPaths :=
  match resolveSchemaRef api childRef with
  | some child => walkSchema api fuel child path (if child.isPii then insert path out else out)
  | none => some out

theorem walkSchema_object_nil
    (fuel : Nat)
    (extensions : List (String × Value))
    (pathPrefix : String)
    (out : PiiFieldPaths) :
    walkSchema api (fuel + 1) (.mk extensions (.object [])) pathPrefix out = some out :=
  rfl

theorem walkSchema_object_cons
    (fuel : Nat)
    (extensions : List (String × Value))
    (name : String)
    (propRef : ReferenceOr Schema)
    (rest : List (String × ReferenceOr Schema))
    (pathPrefix : String)
    (out : PiiFieldPaths) :
    walkSchema api (fuel + 1) (.mk extensions (.object ((name, propRef) :: rest))) pathPrefix out =
      walkChild api fuel propRef (propertyPath pathPrefix name) out >>= fun next =>
        walkSchema api (fuel + 1) (.mk extensions (.object rest)) pathPrefix next :=
  rfl

theorem walkSchema_array_some
    (fuel : Nat)
    (extensions : List (String × Value))
    (itemsRef : ReferenceOr Schema)
    (pathPrefix : String)
    (out : PiiFieldPaths) :
    walkSchema api (fuel + 1) (.mk extensions (.array (some itemsRef))) pathPrefix out =
      walkChild api fuel itemsRef (arrayPath pathPrefix) out :=
  rfl

/-- Entering a child records what the child's walk records, and the child's path if marked. -/
theorem mem_walkChild_iff
    {fuel : Nat}
    (childSpec : ∀ {schema : Schema} {pathPrefix : String} {out result : PiiFieldPaths}
      {path : String}, walkSchema api fuel schema pathPrefix out = some result →
        (path ∈ result ↔ path ∈ out ∨ Recorded api schema pathPrefix path))
    {childRef : ReferenceOr Schema}
    {childPath : String}
    {out result : PiiFieldPaths}
    (walked : walkChild api fuel childRef childPath out = some result)
    (path : String) :
    path ∈ result ↔
      path ∈ out ∨ ∃ child, resolveSchemaRef api childRef = some child ∧
        Entered api child childPath path := by
  unfold walkChild at walked
  cases resolved : resolveSchemaRef api childRef with
  | none =>
      rw [resolved, Option.some.injEq] at walked
      subst walked
      simp
  | some child =>
      rw [resolved] at walked
      rw [childSpec walked]
      by_cases marked : child.isPii = true
      · simp only [marked, ↓reduceIte, Finset.mem_insert, Entered, true_and,
          Option.some.injEq, exists_eq_left']
        tauto
      · simp only [marked, Bool.false_eq_true, ↓reduceIte, Entered, false_and, false_or,
          Option.some.injEq, exists_eq_left']

/-- `walk_schema` adds to `out` exactly the paths of the marked schemas it reaches. -/
theorem mem_walkSchema_iff
    {fuel : Nat}
    {schema : Schema}
    {pathPrefix : String}
    {out result : PiiFieldPaths}
    {path : String}
    (walked : walkSchema api fuel schema pathPrefix out = some result) :
    path ∈ result ↔ path ∈ out ∨ Recorded api schema pathPrefix path := by
  induction fuel generalizing schema pathPrefix out result path with
  | zero =>
      cases walked
  | succ fuel inductionHypothesis =>
      obtain ⟨extensions, kind⟩ := schema
      cases kind with
      | object properties =>
          rw [recorded_object_iff]
          -- The loop over the properties, one property at a time.
          induction properties generalizing out with
          | nil =>
              rw [walkSchema_object_nil, Option.some.injEq] at walked
              subst walked
              simp
          | cons property rest restHypothesis =>
              obtain ⟨name, propRef⟩ := property
              rw [walkSchema_object_cons] at walked
              obtain ⟨next, walkedChild, walkedRest⟩ := Option.bind_eq_some_iff.mp walked
              rw [restHypothesis walkedRest, mem_walkChild_iff inductionHypothesis walkedChild]
              simp only [List.mem_cons, Prod.mk.injEq]
              constructor
              · rintro ((inOut | ⟨child, resolved, entered⟩) | ⟨other, otherRef, child, member,
                  resolved, entered⟩)
                · exact Or.inl inOut
                · exact Or.inr ⟨name, propRef, child, Or.inl ⟨rfl, rfl⟩, resolved, entered⟩
                · exact Or.inr ⟨other, otherRef, child, Or.inr member, resolved, entered⟩
              · rintro (inOut | ⟨other, otherRef, child, (⟨rfl, rfl⟩ | member), resolved,
                  entered⟩)
                · exact Or.inl (Or.inl inOut)
                · exact Or.inl (Or.inr ⟨child, resolved, entered⟩)
                · exact Or.inr ⟨other, otherRef, child, member, resolved, entered⟩
      | array items =>
          cases items with
          | none =>
              cases walked
              refine ⟨Or.inl, ?_⟩
              rintro (inOut | recorded)
              · exact inOut
              · exact absurd recorded (not_recorded_of_walkReaches_eq_nil
                  (fun _ _ reaches => by cases reaches; rfl) _ _)
          | some itemsRef =>
              rw [walkSchema_array_some] at walked
              rw [recorded_array_iff, mem_walkChild_iff inductionHypothesis walked]
      | other =>
          cases walked
          refine ⟨Or.inl, ?_⟩
          rintro (inOut | recorded)
          · exact inOut
          · exact absurd recorded (not_recorded_of_walkReaches_eq_nil
              (fun _ _ reaches => by cases reaches; rfl) _ _)

end Walk

/-! ## How deep the walk goes -/

section Depth

variable {api : OpenAPI}

/-- Steps compose: a walk to a schema, then a walk from it. -/
theorem WalkReaches.append
    {schema middle target : Schema}
    {first second : List SchemaStep}
    (toMiddle : WalkReaches api schema first middle)
    (toTarget : WalkReaches api middle second target) :
    WalkReaches api schema (first ++ second) target := by
  induction toMiddle with
  | here =>
      exact toTarget
  | property member resolved _ inductionHypothesis =>
      exact .property member resolved (inductionHypothesis toTarget)
  | items resolved _ inductionHypothesis =>
      exact .items resolved (inductionHypothesis toTarget)

/-- Every chain of steps from `schema` is shorter than `bound`. -/
def DepthBelow (api : OpenAPI) (schema : Schema) (bound : Nat) : Prop :=
  ∀ steps target, WalkReaches api schema steps target → steps.length < bound

/-- A larger bound bounds as well. -/
theorem DepthBelow.mono
    {schema : Schema}
    {bound larger : Nat}
    (below : DepthBelow api schema bound)
    (le : bound ≤ larger) :
    DepthBelow api schema larger := fun steps target reaches =>
  Nat.lt_of_lt_of_le (below steps target reaches) le

/-- One more level of depth is one more level below every child. -/
theorem depthBelow_succ_iff
    {schema : Schema}
    {bound : Nat} :
    DepthBelow api schema (bound + 1) ↔
      ∀ step child, WalkReaches api schema [step] child → DepthBelow api child bound := by
  constructor
  · intro below step child toChild steps target reaches
    have whole := below _ _ (toChild.append reaches)
    simp only [List.singleton_append, List.length_cons] at whole
    omega
  · intro childrenBelow steps target reaches
    cases reaches with
    | here =>
        exact Nat.succ_pos bound
    | property member resolved restReaches =>
        have childBelow := childrenBelow _ _ (.property member resolved (.here _))
        exact Nat.succ_lt_succ (childBelow _ _ restReaches)
    | items resolved restReaches =>
        have childBelow := childrenBelow _ _ (.items resolved (.here _))
        exact Nat.succ_lt_succ (childBelow _ _ restReaches)

/-- A schema reached again after some steps has no bound on its depth. -/
theorem not_depthBelow_of_walkReaches_self
    {schema : Schema}
    {steps : List SchemaStep}
    (nonempty : steps ≠ [])
    (cycle : WalkReaches api schema steps schema)
    (bound : Nat) :
    ¬ DepthBelow api schema bound := by
  intro below
  -- Going round the cycle `bound` times gives a chain of at least `bound` steps.
  have around : ∀ laps, ∃ longer, WalkReaches api schema longer schema ∧ laps ≤ longer.length := by
    intro laps
    induction laps with
    | zero =>
        exact ⟨[], .here schema, Nat.le_refl 0⟩
    | succ laps inductionHypothesis =>
        obtain ⟨longer, reaches, atLeast⟩ := inductionHypothesis
        have lapLength : 1 ≤ steps.length := List.length_pos_iff.mpr nonempty
        refine ⟨steps ++ longer, cycle.append reaches, ?_⟩
        rw [List.length_append]
        omega
  obtain ⟨longer, reaches, atLeast⟩ := around bound
  exact Nat.lt_irrefl bound (Nat.lt_of_le_of_lt atLeast (below longer schema reaches))

/-- One step into an object goes into one of its properties. -/
theorem walkReaches_singleton_object_iff
    {extensions : List (String × Value)}
    {properties : List (String × ReferenceOr Schema)}
    {step : SchemaStep}
    {child : Schema} :
    WalkReaches api (.mk extensions (.object properties)) [step] child ↔
      ∃ name propRef, step = .property name ∧ (name, propRef) ∈ properties ∧
        resolveSchemaRef api propRef = some child := by
  constructor
  · intro reaches
    cases reaches with
    | property member resolved restReaches =>
        cases restReaches
        exact ⟨_, _, rfl, member, resolved⟩
  · rintro ⟨name, propRef, rfl, member, resolved⟩
    exact .property member resolved (.here child)

/-- A property for every child splits into the first property and the rest. -/
theorem forall_walkReaches_singleton_object_cons
    {extensions : List (String × Value)}
    {name : String}
    {propRef : ReferenceOr Schema}
    {rest : List (String × ReferenceOr Schema)}
    {holds : Schema → Prop} :
    (∀ step child, WalkReaches api (.mk extensions (.object ((name, propRef) :: rest))) [step] child →
        holds child) ↔
      (∀ child, resolveSchemaRef api propRef = some child → holds child) ∧
        ∀ step child, WalkReaches api (.mk extensions (.object rest)) [step] child → holds child := by
  simp only [walkReaches_singleton_object_iff, List.mem_cons, Prod.mk.injEq]
  constructor
  · intro all
    refine ⟨fun child resolved => all _ child ⟨name, propRef, rfl, Or.inl ⟨rfl, rfl⟩, resolved⟩, ?_⟩
    rintro step child ⟨other, otherRef, isStep, member, resolved⟩
    exact all step child ⟨other, otherRef, isStep, Or.inr member, resolved⟩
  · rintro ⟨first, later⟩ step child ⟨other, otherRef, isStep, (⟨rfl, rfl⟩ | member), resolved⟩
    · exact first child resolved
    · exact later step child ⟨other, otherRef, isStep, member, resolved⟩

/-- Entering a child finishes within `fuel` exactly when the resolved child is below it. -/
theorem walkChild_isSome_iff
    {fuel : Nat}
    (childSpec : ∀ {schema : Schema} {pathPrefix : String} {out : PiiFieldPaths},
      (walkSchema api fuel schema pathPrefix out).isSome ↔ DepthBelow api schema fuel)
    {childRef : ReferenceOr Schema}
    {childPath : String}
    {out : PiiFieldPaths} :
    (walkChild api fuel childRef childPath out).isSome ↔
      ∀ child, resolveSchemaRef api childRef = some child → DepthBelow api child fuel := by
  unfold walkChild
  cases resolved : resolveSchemaRef api childRef with
  | none =>
      simp
  | some child =>
      simp only [Option.some.injEq, forall_eq']
      exact childSpec

/-- The walk finishes within `fuel` exactly when every chain from its start is shorter. -/
theorem walkSchema_isSome_iff
    {fuel : Nat}
    {schema : Schema}
    {pathPrefix : String}
    {out : PiiFieldPaths} :
    (walkSchema api fuel schema pathPrefix out).isSome ↔ DepthBelow api schema fuel := by
  induction fuel generalizing schema pathPrefix out with
  | zero =>
      simp only [walkSchema, Option.isSome_none, Bool.false_eq_true, false_iff]
      intro below
      exact Nat.lt_irrefl 0 (below [] schema (.here schema))
  | succ fuel inductionHypothesis =>
      rw [depthBelow_succ_iff]
      obtain ⟨extensions, kind⟩ := schema
      cases kind with
      | object properties =>
          -- The loop finishes when every property's walk does, whatever each adds.
          induction properties generalizing out with
          | nil =>
              simp only [walkSchema_object_nil, Option.isSome_some, true_iff]
              intro step child toChild
              cases toChild with
              | property member => simp at member
          | cons property rest restHypothesis =>
              obtain ⟨name, propRef⟩ := property
              have firstIff :
                  (walkChild api fuel propRef (propertyPath pathPrefix name) out).isSome ↔
                    ∀ child, resolveSchemaRef api propRef = some child →
                      DepthBelow api child fuel :=
                walkChild_isSome_iff inductionHypothesis
              rw [walkSchema_object_cons, forall_walkReaches_singleton_object_cons]
              cases childResult : walkChild api fuel propRef (propertyPath pathPrefix name) out with
              | none =>
                  have firstFails : ¬ ∀ child, resolveSchemaRef api propRef = some child →
                      DepthBelow api child fuel := by
                    intro allBelow
                    have finished := firstIff.mpr allBelow
                    rw [childResult] at finished
                    cases finished
                  simp [firstFails]
              | some next =>
                  have firstBelow := firstIff.mp (by rw [childResult]; rfl)
                  show (walkSchema api (fuel + 1) (.mk extensions (.object rest)) pathPrefix
                    next).isSome ↔ _
                  rw [restHypothesis]
                  exact ⟨fun restBelow => ⟨firstBelow, restBelow⟩, fun both => both.2⟩
      | array items =>
          cases items with
          | none =>
              simp only [walkSchema, Option.isSome_some, true_iff]
              intro step child toChild
              cases toChild
          | some itemsRef =>
              rw [walkSchema_array_some, walkChild_isSome_iff inductionHypothesis]
              constructor
              · intro childrenBelow step child toChild
                cases toChild with
                | items resolved restReaches =>
                    cases restReaches
                    exact childrenBelow child resolved
              · intro childrenBelow child resolved
                exact childrenBelow .items child (.items resolved (.here child))
      | other =>
          simp only [walkSchema, Option.isSome_some, true_iff]
          intro step child toChild
          cases toChild

/-- The resolved schemas one step below a schema. -/
def Schema.children (api : OpenAPI) : Schema → List Schema
  | .mk _ (.object properties) =>
      properties.filterMap fun property => resolveSchemaRef api property.2
  | .mk _ (.array (some itemsRef)) => (resolveSchemaRef api itemsRef).toList
  | .mk _ (.array none) => []
  | .mk _ .other => []

/-- The children are exactly the schemas one step below. -/
theorem mem_children_iff
    {schema child : Schema} :
    child ∈ schema.children api ↔ ∃ step, WalkReaches api schema [step] child := by
  obtain ⟨extensions, kind⟩ := schema
  cases kind with
  | object properties =>
      simp only [Schema.children, List.mem_filterMap, walkReaches_singleton_object_iff]
      constructor
      · rintro ⟨⟨name, propRef⟩, member, resolved⟩
        exact ⟨.property name, name, propRef, rfl, member, resolved⟩
      · rintro ⟨step, name, propRef, -, member, resolved⟩
        exact ⟨(name, propRef), member, resolved⟩
  | array items =>
      cases items with
      | none =>
          simp only [Schema.children, List.not_mem_nil, false_iff]
          rintro ⟨step, reaches⟩
          cases reaches
      | some itemsRef =>
          simp only [Schema.children, Option.mem_toList]
          constructor
          · intro resolved
            exact ⟨.items, .items resolved (.here child)⟩
          · rintro ⟨step, reaches⟩
            cases reaches with
            | items resolved restReaches =>
                cases restReaches
                exact resolved
  | other =>
      simp only [Schema.children, List.not_mem_nil, false_iff]
      rintro ⟨step, reaches⟩
      cases reaches

/-- A bound for each of finitely many schemas gives one bound for all of them. -/
theorem exists_depthBelow_forall
    (schemas : List Schema)
    (each : ∀ schema ∈ schemas, ∃ bound, DepthBelow api schema bound) :
    ∃ bound, ∀ schema ∈ schemas, DepthBelow api schema bound := by
  induction schemas with
  | nil =>
      exact ⟨0, fun _ member => absurd member List.not_mem_nil⟩
  | cons first rest inductionHypothesis =>
      obtain ⟨firstBound, firstBelow⟩ := each first List.mem_cons_self
      obtain ⟨restBound, restBelow⟩ :=
        inductionHypothesis fun schema member => each schema (List.mem_cons_of_mem _ member)
      refine ⟨max firstBound restBound, fun schema member => ?_⟩
      rcases List.mem_cons.mp member with rfl | inRest
      · exact firstBelow.mono (Nat.le_max_left _ _)
      · exact (restBelow schema inRest).mono (Nat.le_max_right _ _)

/-- The relation from a schema to the schemas one step below it. -/
def ChildOf (api : OpenAPI) (child parent : Schema) : Prop :=
  ∃ step, WalkReaches api parent [step] child

/-- A schema with no infinite chain of steps below it has a bound on their length. -/
theorem exists_depthBelow_of_acc
    {schema : Schema}
    (accessible : Acc (ChildOf api) schema) :
    ∃ bound, DepthBelow api schema bound := by
  induction accessible with
  | intro parent _ inductionHypothesis =>
      obtain ⟨bound, childrenBelow⟩ := exists_depthBelow_forall (parent.children api)
        fun child member => inductionHypothesis child (mem_children_iff.mp member)
      refine ⟨bound + 1, depthBelow_succ_iff.mpr fun step child reaches => ?_⟩
      exact childrenBelow child (mem_children_iff.mpr ⟨step, reaches⟩)

/-- A step goes to an inline schema, smaller than its parent, or to a component schema. -/
theorem sizeOf_lt_or_mem_componentRoots
    {schema child : Schema}
    {step : SchemaStep}
    (reaches : WalkReaches api schema [step] child) :
    sizeOf child < sizeOf schema ∨ child ∈ componentRoots api := by
  cases reaches with
  | property member resolved restReaches =>
      cases restReaches
      rename_i propRef
      cases propRef with
      | item inline =>
          cases resolved
          have memberSmaller := List.sizeOf_lt_of_mem member
          left
          simp only [ReferenceOr.item.sizeOf_spec, Prod.mk.sizeOf_spec] at memberSmaller
          simp only [Schema.mk.sizeOf_spec, SchemaKind.object.sizeOf_spec]
          omega
      | reference reference =>
          exact Or.inr (mem_componentRoots_of_resolveRef resolved)
  | items resolved restReaches =>
      cases restReaches
      rename_i itemsRef
      cases itemsRef with
      | item inline =>
          cases resolved
          left
          simp only [Schema.mk.sizeOf_spec, SchemaKind.array.sizeOf_spec,
            Option.some.sizeOf_spec, ReferenceOr.item.sizeOf_spec]
          omega
      | reference reference =>
          exact Or.inr (mem_componentRoots_of_resolveRef resolved)

/-- One schema leads to another by at least one step. -/
def Descends (api : OpenAPI) (earlier later : Schema) : Prop :=
  ∃ steps, steps ≠ [] ∧ WalkReaches api earlier steps later

/--
No component schema leads back to itself: the `$ref`s the walk resolves form
no cycle among the component schemas.
-/
def RefsAcyclic (api : OpenAPI) : Prop :=
  ∀ root ∈ componentRoots api, ∀ steps, WalkReaches api root steps root → steps = []

/-- Without cycles, leading from one component schema to another is well founded. -/
theorem wellFounded_descends
    (acyclic : RefsAcyclic api) :
    WellFounded fun (later earlier : {root // root ∈ componentRoots api}) =>
      Descends api earlier.1 later.1 := by
  have : Finite {root // root ∈ componentRoots api} :=
    (List.finite_toSet (componentRoots api)).to_subtype
  have : IsTrans {root // root ∈ componentRoots api} fun later earlier =>
      Descends api earlier.1 later.1 := by
    constructor
    rintro first second third ⟨laterSteps, laterNonempty, toFirst⟩
      ⟨earlierSteps, _, toSecond⟩
    exact ⟨earlierSteps ++ laterSteps, by simp [laterNonempty], toSecond.append toFirst⟩
  have : Std.Irrefl fun (later earlier : {root // root ∈ componentRoots api}) =>
      Descends api earlier.1 later.1 := by
    constructor
    rintro root ⟨steps, nonempty, cycle⟩
    exact nonempty (acyclic root.1 root.2 steps cycle)
  exact Finite.wellFounded_of_trans_of_irrefl _

/-- Without cycles, every chain of steps from a component schema is finite. -/
theorem acc_of_refsAcyclic
    (acyclic : RefsAcyclic api)
    {root : Schema}
    (isRoot : root ∈ componentRoots api) :
    Acc (ChildOf api) root := by
  -- Outer induction on the component the walk is in, inner on the size of the schema.
  have belowRoots : ∀ start : {root // root ∈ componentRoots api}, ∀ schema steps,
      WalkReaches api start.1 steps schema → Acc (ChildOf api) schema := by
    intro start
    induction start using (wellFounded_descends acyclic).induction with
    | _ start outerHypothesis =>
        intro schema
        induction schema using (measure fun schema : Schema => sizeOf schema).wf.induction with
        | _ schema innerHypothesis =>
            intro steps reaches
            refine Acc.intro schema fun child ⟨step, toChild⟩ => ?_
            rcases sizeOf_lt_or_mem_componentRoots toChild with smaller | isComponent
            · exact innerHypothesis child smaller (steps ++ [step]) (reaches.append toChild)
            · exact outerHypothesis ⟨child, isComponent⟩
                ⟨steps ++ [step], by simp, reaches.append toChild⟩ child [] (.here child)
  exact belowRoots ⟨root, isRoot⟩ root [] (.here root)

end Depth

/-! ## The whole resolution -/

section Resolution

variable {api : OpenAPI}

/-- Walking one entry finishes exactly when the entry, if inline, is below the bound. -/
theorem walkComponent_isSome_iff
    {fuel : Nat}
    {paths : PiiFieldPaths}
    {entry : String × ReferenceOr Schema} :
    (walkComponent api fuel paths entry).isSome ↔
      ∀ root, componentRoot? entry = some root → DepthBelow api root fuel := by
  obtain ⟨name, entryRef⟩ := entry
  cases entryRef with
  | item schema =>
      simp only [walkComponent, componentRoot?, Option.some.injEq, forall_eq']
      exact walkSchema_isSome_iff
  | reference reference =>
      simp [walkComponent, componentRoot?]

/-- The loop over the entries finishes exactly when every inline entry is below the bound. -/
theorem foldlM_walkComponent_isSome_iff
    {fuel : Nat}
    (entries : List (String × ReferenceOr Schema))
    (paths : PiiFieldPaths) :
    (entries.foldlM (walkComponent api fuel) paths).isSome ↔
      ∀ root ∈ entries.filterMap componentRoot?, DepthBelow api root fuel := by
  induction entries generalizing paths with
  | nil =>
      simp
  | cons entry rest inductionHypothesis =>
      have entryIff : (walkComponent api fuel paths entry).isSome ↔
          ∀ root, componentRoot? entry = some root → DepthBelow api root fuel :=
        walkComponent_isSome_iff
      rw [List.foldlM_cons]
      cases walked : walkComponent api fuel paths entry with
      | none =>
          rw [walked] at entryIff
          simp only [Option.bind_eq_bind, Option.bind_none, Option.isSome_none, Bool.false_eq_true,
            false_iff]
          intro allBelow
          refine absurd (entryIff.mpr fun root isRoot => allBelow root ?_) (by simp)
          simp [isRoot]
      | some next =>
          rw [walked] at entryIff
          have entryBelow := entryIff.mp rfl
          simp only [Option.bind_eq_bind, Option.bind_some, inductionHypothesis]
          cases isRoot : componentRoot? entry with
          | none =>
              simp [isRoot]
          | some root =>
              simp [isRoot, entryBelow root isRoot]

/-- Walking one entry adds what a walk from the entry, if inline, records at the root. -/
theorem mem_walkComponent_iff
    {fuel : Nat}
    {paths next : PiiFieldPaths}
    {entry : String × ReferenceOr Schema}
    (walked : walkComponent api fuel paths entry = some next)
    (path : String) :
    path ∈ next ↔ path ∈ paths ∨ ∃ root, componentRoot? entry = some root ∧
      Recorded api root "" path := by
  obtain ⟨name, entryRef⟩ := entry
  cases entryRef with
  | item schema =>
      rw [mem_walkSchema_iff walked]
      simp [componentRoot?]
  | reference reference =>
      cases walked
      simp [componentRoot?]

/-- The loop adds what the walks from the inline entries record at the root. -/
theorem mem_foldlM_walkComponent_iff
    {fuel : Nat}
    {entries : List (String × ReferenceOr Schema)}
    {paths result : PiiFieldPaths}
    (walked : entries.foldlM (walkComponent api fuel) paths = some result)
    (path : String) :
    path ∈ result ↔ path ∈ paths ∨ ∃ root ∈ entries.filterMap componentRoot?,
      Recorded api root "" path := by
  induction entries generalizing paths with
  | nil =>
      cases walked
      simp
  | cons entry rest inductionHypothesis =>
      rw [List.foldlM_cons] at walked
      obtain ⟨next, walkedEntry, walkedRest⟩ := Option.bind_eq_some_iff.mp walked
      rw [inductionHypothesis walkedRest, mem_walkComponent_iff walkedEntry]
      cases isRoot : componentRoot? entry with
      | none =>
          simp [isRoot]
      | some root =>
          simp [isRoot, or_assoc]

/-- `resolve_pii_paths` finishes within `fuel` exactly when every component schema is below it. -/
theorem resolvePiiPaths_isSome_iff
    {fuel : Nat} :
    (resolvePiiPaths api fuel).isSome ↔ ∀ root ∈ componentRoots api, DepthBelow api root fuel := by
  obtain ⟨components⟩ := api
  cases components with
  | none =>
      simp [resolvePiiPaths, componentRoots]
  | some components =>
      exact foldlM_walkComponent_isSome_iff components.schemas ∅

/-- When it finishes, `resolve_pii_paths` returns the paths recorded from the component schemas. -/
theorem mem_resolvePiiPaths_iff
    {fuel : Nat}
    {paths : PiiFieldPaths}
    (resolved : resolvePiiPaths api fuel = some paths)
    (path : String) :
    path ∈ paths ↔ ∃ root ∈ componentRoots api, Recorded api root "" path := by
  obtain ⟨components⟩ := api
  cases components with
  | none =>
      cases resolved
      simp [componentRoots]
  | some components =>
      rw [mem_foldlM_walkComponent_iff resolved]
      simp [componentRoots]

/-- A document on which `resolve_pii_paths` finishes has no cycle. -/
theorem refsAcyclic_of_resolvePiiPaths_isSome
    (finishes : ∃ fuel, (resolvePiiPaths api fuel).isSome) :
    RefsAcyclic api := by
  -- A cycle makes every bound too small.
  obtain ⟨fuel, finished⟩ := finishes
  intro root isRoot steps cycle
  by_contra nonempty
  exact not_depthBelow_of_walkReaches_self nonempty cycle fuel
    (resolvePiiPaths_isSome_iff.mp finished root isRoot)

/-- Without cycles, some bound on the depth lets `resolve_pii_paths` finish. -/
theorem exists_resolvePiiPaths_isSome
    (acyclic : RefsAcyclic api) :
    ∃ fuel, (resolvePiiPaths api fuel).isSome := by
  -- Every component has a depth, and the largest one is enough fuel.
  obtain ⟨bound, allBelow⟩ := exists_depthBelow_forall (componentRoots api)
    fun root isRoot => exists_depthBelow_of_acc (acc_of_refsAcyclic acyclic isRoot)
  exact ⟨bound, resolvePiiPaths_isSome_iff.mpr allBelow⟩

theorem resolvePiiPaths_terminates_iff
    (api : OpenAPI) :
    ((∃ fuel, (resolvePiiPaths api fuel).isSome) ↔ RefsAcyclic api) ∧
      ∀ fuel paths, resolvePiiPaths api fuel = some paths →
        ∀ path, path ∈ paths ↔ ∃ root ∈ componentRoots api, Recorded api root "" path := by
  exact ⟨⟨refsAcyclic_of_resolvePiiPaths_isSome, exists_resolvePiiPaths_isSome⟩,
    fun fuel paths resolved => mem_resolvePiiPaths_iff resolved⟩

/-- The `Node` schema: its `children` are an array of `Node`s. -/
def nodeSchema : Schema :=
  .mk [] (.object [("children", .item (.mk [] (.array (some (.reference "#/components/schemas/Node")))))])

/-- A document whose only component is `Node`. -/
def nodeDocument : OpenAPI :=
  ⟨some ⟨[("Node", .item nodeSchema)]⟩⟩

theorem resolvePiiPaths_nodeDocument_diverges :
    resolvePiiPaths nodeDocument = fun _ => none := by
  funext fuel
  have cycle : WalkReaches nodeDocument nodeSchema [.property "children", .items] nodeSchema :=
    .property List.mem_cons_self rfl (.items rfl (.here nodeSchema))
  have nodeBelow : ¬ DepthBelow nodeDocument nodeSchema fuel :=
    not_depthBelow_of_walkReaches_self (List.cons_ne_nil _ _) cycle fuel
  rw [← Option.not_isSome_iff_eq_none, resolvePiiPaths_isSome_iff]
  intro allBelow
  exact nodeBelow (allBelow nodeSchema List.mem_cons_self)

end Resolution

end NitroEncSvc
