import Mathlib.Data.List.AList
import NitroEncSvc.Config
import NitroEncSvc.Resolver

namespace NitroEncSvc

/-!
# Loading the schemas (`schema/mod.rs`, `schema/cache.rs`)

`load_all` lists the objects under the configured prefix, fetches each one,
decodes it as UTF-8, parses it as YAML and then as JSON, and inserts the
document into a map under the name `schema_name_from_key` derives from the
key.  Only when every object has loaded does it hand the map to
`SchemaCache::replace_all`, which resolves the PII paths of every document and
swaps the new map in whole.  Any failure returns before the swap.

The S3 client and the two parsers are code outside the repository: they are
parameters.  The `HashMap`s are association lists with distinct keys, where
`insert` replaces the value of a key already present.  `replace_all` runs
`resolve_pii_paths`, modelled with a bound on its depth; it gives `none` when
some document needs more.
-/

/-- An object of an S3 listing: its key, when the listing gives one. -/
structure S3Object where
  key : Option String
  deriving Repr, DecidableEq

/-- What `get_object` and collecting its body give for a key. -/
inductive GetObjectOutput where
  | sendFailed
  | bodyFailed
  | body (bytes : List UInt8)
  deriving Repr, DecidableEq

/--
The S3 client as `load_all` calls it: `list_objects_v2` of a bucket under a
prefix (`none` when the call fails), and `get_object` of a bucket and key.
-/
structure S3Client where
  listObjectsV2 : String → String → Option (List S3Object)
  getObject : String → String → GetObjectOutput

/-- `serde_yaml::from_str` and `serde_json::from_str` at `OpenAPI`. -/
structure OpenApiParsers where
  fromYaml : String → Option OpenAPI
  fromJson : String → Option OpenAPI

/-- The failures of `load_all`, one for each `?` and `bail!` of its body. -/
inductive LoadError where
  | listFailed
  | fetchFailed (key : String)
  | bodyFailed (key : String)
  | notUtf8 (key : String)
  | notParsed (key : String)
  deriving Repr, DecidableEq

/-- The context each failure carries. -/
def LoadError.message : LoadError → String
  | .listFailed => "failed to list S3 objects for schemas"
  | .fetchFailed key => "failed to fetch schema from S3: " ++ key
  | .bodyFailed key => "failed to read body for S3 key: " ++ key
  | .notUtf8 key => "S3 object " ++ key ++ " is not valid UTF-8"
  | .notParsed key =>
      "failed to parse OpenAPI schema from S3 key " ++ key ++ ": not valid YAML or JSON"

/-- `schema_name_from_key`: strip the prefix, then the first of three extensions that matches. -/
def schemaNameFromKey (key pathPrefix : String) : String :=
  let withoutPrefix := (Str.stripPrefix? key pathPrefix).getD key
  match [".yaml", ".yml", ".json"].findSome? (Str.stripSuffix? withoutPrefix) with
  | some stem => stem
  | none => withoutPrefix

example : schemaNameFromKey "schemas/payments-v1.yaml" "schemas/" = "payments-v1" := by
  decide

/-- The `HashMap<String, OpenAPI>` that `load_all` builds. -/
abbrev SchemaMap := AList fun _ : String => OpenAPI

section Load

variable (s3 : S3Client) (parsers : OpenApiParsers) (cfg : Config)

/-- The body of the loop for one key: fetch, collect, decode and parse. -/
def fetchSchema (key : String) : Except LoadError OpenAPI := do
  let bytes ← match s3.getObject cfg.s3Bucket key with
    | .sendFailed => throw (.fetchFailed key)
    | .bodyFailed => throw (.bodyFailed key)
    | .body bytes => pure bytes
  let text ← match Str.fromUtf8 bytes with
    | some text => pure text
    | none => throw (.notUtf8 key)
  match parsers.fromYaml text with
  | some api => pure api
  | none =>
      match parsers.fromJson text with
      | some api => pure api
      | none => throw (.notParsed key)

/-- The loop body after the key: insert the document under the key's name. -/
def loadKey (schemas : SchemaMap) (key : String) : Except LoadError SchemaMap := do
  let api ← fetchSchema s3 parsers cfg key
  pure (schemas.insert (schemaNameFromKey key cfg.s3Prefix) api)

/-- One iteration of the loop: skip an object without a key. -/
def loadObject (schemas : SchemaMap) (obj : S3Object) : Except LoadError SchemaMap :=
  match obj.key with
  | none => pure schemas
  | some key => loadKey s3 parsers cfg schemas key

/-- `load_all` up to the swap: the listing, then the loop over its objects. -/
def loadSchemas : Except LoadError SchemaMap := do
  let objects ← match s3.listObjectsV2 cfg.s3Bucket cfg.s3Prefix with
    | some objects => pure objects
    | none => throw .listFailed
  objects.foldlM (loadObject s3 parsers cfg) ∅

end Load

/-- The keys of a listing, in order, without the objects that have none. -/
def listedKeys (objects : List S3Object) : List String :=
  objects.filterMap S3Object.key

/-! ## What the loop builds -/

section LoadSpec

variable {s3 : S3Client} {parsers : OpenApiParsers} {cfg : Config}

/-- The loop over the objects is the loop over their keys. -/
theorem foldlM_loadObject
    (objects : List S3Object)
    (schemas : SchemaMap) :
    objects.foldlM (loadObject s3 parsers cfg) schemas =
      (listedKeys objects).foldlM (loadKey s3 parsers cfg) schemas := by
  induction objects generalizing schemas with
  | nil =>
      rfl
  | cons obj rest inductionHypothesis =>
      obtain ⟨key⟩ := obj
      cases key with
      | none =>
          simp only [List.foldlM_cons, loadObject, listedKeys, List.filterMap_cons]
          exact inductionHypothesis schemas
      | some key =>
          simp only [List.foldlM_cons, loadObject, listedKeys, List.filterMap_cons]
          congr 1
          funext next
          exact inductionHypothesis next

theorem loadKey_eq_ok_iff
    {schemas next : SchemaMap}
    {key : String} :
    loadKey s3 parsers cfg schemas key = .ok next ↔
      ∃ api, fetchSchema s3 parsers cfg key = .ok api ∧
        next = schemas.insert (schemaNameFromKey key cfg.s3Prefix) api := by
  unfold loadKey
  cases fetchSchema s3 parsers cfg key with
  | error failure =>
      simp
  | ok api =>
      simp [eq_comm]

/-- The loop over the keys finishes exactly when every key's document loads. -/
theorem foldlM_loadKey_isOk_iff
    (keys : List String)
    (schemas : SchemaMap) :
    (keys.foldlM (loadKey s3 parsers cfg) schemas).isOk ↔
      ∀ key ∈ keys, (fetchSchema s3 parsers cfg key).isOk := by
  induction keys generalizing schemas with
  | nil =>
      exact ⟨fun _ _ absent => absurd absent List.not_mem_nil, fun _ => rfl⟩
  | cons key rest inductionHypothesis =>
      rw [List.foldlM_cons]
      cases fetched : fetchSchema s3 parsers cfg key with
      | error failure =>
          simp [loadKey, fetched, ExceptList.error_bind]
      | ok api =>
          simp [loadKey, fetched, ExceptList.ok_bind, inductionHypothesis]

/--
After the loop, a name holds the document of the last key with that name, and
keeps what it held before when no key has it.
-/
theorem lookup_foldlM_loadKey
    {keys : List String}
    {schemas result : SchemaMap}
    (loaded : keys.foldlM (loadKey s3 parsers cfg) schemas = .ok result)
    (name : String) :
    result.lookup name =
      (keys.reverse.find? fun key => schemaNameFromKey key cfg.s3Prefix == name).elim
        (schemas.lookup name) fun key => (fetchSchema s3 parsers cfg key).toOption := by
  induction keys generalizing schemas with
  | nil =>
      cases loaded
      rfl
  | cons key rest inductionHypothesis =>
      rw [List.foldlM_cons] at loaded
      obtain ⟨next, step, restLoaded⟩ := ExceptList.bind_eq_ok.mp loaded
      obtain ⟨api, fetched, rfl⟩ := loadKey_eq_ok_iff.mp step
      rw [inductionHypothesis restLoaded, List.reverse_cons, List.find?_append]
      -- A later key with the name wins; else this key, if it has the name.
      cases later : rest.reverse.find? fun key => schemaNameFromKey key cfg.s3Prefix == name with
      | some other =>
          rfl
      | none =>
          by_cases named : schemaNameFromKey key cfg.s3Prefix = name
          · simp [named, fetched, AList.lookup_insert, Except.toOption]
          · simp [named, AList.lookup_insert_ne (Ne.symm named)]

theorem loadSchemas_eq_ok_iff
    {schemas : SchemaMap} :
    loadSchemas s3 parsers cfg = .ok schemas ↔
      ∃ objects, s3.listObjectsV2 cfg.s3Bucket cfg.s3Prefix = some objects ∧
        (listedKeys objects).foldlM (loadKey s3 parsers cfg) ∅ = .ok schemas := by
  unfold loadSchemas
  cases s3.listObjectsV2 cfg.s3Bucket cfg.s3Prefix with
  | none =>
      constructor
      · intro listFailed
        cases listFailed
      · rintro ⟨_, absent, _⟩
        cases absent
  | some objects =>
      simp [foldlM_loadObject]

/-- The loop fails only when the listing does or the document of some listed key does. -/
theorem loadSchemas_eq_error
    {failure : LoadError}
    (failed : loadSchemas s3 parsers cfg = .error failure) :
    s3.listObjectsV2 cfg.s3Bucket cfg.s3Prefix = none ∨
      ∃ objects, s3.listObjectsV2 cfg.s3Bucket cfg.s3Prefix = some objects ∧
        ∃ key ∈ listedKeys objects, (fetchSchema s3 parsers cfg key).isOk = false := by
  unfold loadSchemas at failed
  cases listed : s3.listObjectsV2 cfg.s3Bucket cfg.s3Prefix with
  | none =>
      exact .inl rfl
  | some objects =>
      rw [listed] at failed
      simp only [pure_bind, foldlM_loadObject] at failed
      have notOk : ¬ ∀ key ∈ listedKeys objects, (fetchSchema s3 parsers cfg key).isOk := by
        rw [← foldlM_loadKey_isOk_iff (listedKeys objects) ∅, failed]
        simp
      simp only [not_forall, Bool.not_eq_true] at notOk
      obtain ⟨key, listedKey, fails⟩ := notOk
      exact .inr ⟨objects, rfl, key, listedKey, fails⟩

/--
When the loop succeeds, every listed document loaded, and each name holds the
document of the last listed key with that name.
-/
theorem lookup_loadSchemas
    {schemas : SchemaMap}
    (loaded : loadSchemas s3 parsers cfg = .ok schemas) :
    ∃ objects, s3.listObjectsV2 cfg.s3Bucket cfg.s3Prefix = some objects ∧
      (∀ key ∈ listedKeys objects, (fetchSchema s3 parsers cfg key).isOk) ∧
      ∀ name, match (listedKeys objects).reverse.find?
          (fun key => schemaNameFromKey key cfg.s3Prefix == name) with
        | none => schemas.lookup name = none
        | some key => ∃ api, fetchSchema s3 parsers cfg key = .ok api ∧
            schemas.lookup name = some api := by
  obtain ⟨objects, listed, keysLoaded⟩ := loadSchemas_eq_ok_iff.mp loaded
  have allOk := (foldlM_loadKey_isOk_iff (listedKeys objects) ∅).mp (by rw [keysLoaded]; rfl)
  refine ⟨objects, listed, allOk, fun name => ?_⟩
  have named := lookup_foldlM_loadKey keysLoaded name
  cases last : (listedKeys objects).reverse.find?
      (fun key => schemaNameFromKey key cfg.s3Prefix == name) with
  | none =>
      rw [last] at named
      exact named.trans (AList.lookup_empty name)
  | some key =>
      rw [last] at named
      -- The last key with the name is listed, so its document loaded.
      have listedKey : key ∈ listedKeys objects :=
        List.mem_reverse.mp (List.mem_of_find?_eq_some last)
      obtain ⟨api, fetched⟩ := ExceptList.eq_ok_of_isOk (allOk key listedKey)
      refine ⟨api, fetched, ?_⟩
      simp [named, fetched, Except.toOption]

end LoadSpec

/-! ## The cache -/

/-- `CachedSchema`: a document and its PII paths. -/
structure CachedSchema where
  api : OpenAPI
  piiPaths : PiiFieldPaths

/-- `CacheError`. -/
inductive CacheError where
  | unknownSchema (name : String)
  deriving Repr, DecidableEq

/-- `SchemaCache`: the map the handlers read, swapped whole by `replace_all`. -/
structure SchemaCache where
  inner : AList fun _ : String => CachedSchema

namespace SchemaCache

/-- `SchemaCache::new`. -/
def new : SchemaCache :=
  ⟨∅⟩

/-- `get`: the entry of a name, or `UnknownSchema`. -/
def get (self : SchemaCache) (name : String) : Except CacheError CachedSchema :=
  match self.inner.lookup name with
  | some entry => .ok entry
  | none => .error (.unknownSchema name)

/-- `len`: the number of cached schemas. -/
def len (self : SchemaCache) : Nat :=
  self.inner.entries.length

/-- One entry of `replace_all`: resolve the document's PII paths and insert it. -/
def cacheEntry (fuel : Nat) (entries : AList fun _ : String => CachedSchema)
    (schema : Σ _ : String, OpenAPI) : Option (AList fun _ : String => CachedSchema) :=
  (resolvePiiPaths schema.2 fuel).map fun piiPaths =>
    entries.insert schema.1 ⟨schema.2, piiPaths⟩

/-- `replace_all`: the new cache, from the documents alone. -/
def replaceAll (fuel : Nat) (schemas : SchemaMap) : Option SchemaCache :=
  (schemas.entries.foldlM (cacheEntry fuel) ∅).map SchemaCache.mk

/--
The loop of `replace_all` over documents with distinct names: each name of the
documents holds its document with the paths resolved from it, and every other
name keeps its entry.
-/
theorem lookup_foldlM_cacheEntry
    {fuel : Nat}
    {schemas : List (Σ _ : String, OpenAPI)}
    (distinct : schemas.NodupKeys)
    {entries result : AList fun _ : String => CachedSchema}
    (cached : schemas.foldlM (cacheEntry fuel) entries = some result)
    (name : String) :
    match schemas.dlookup name with
    | none => result.lookup name = entries.lookup name
    | some api => ∃ piiPaths, resolvePiiPaths api fuel = some piiPaths ∧
        result.lookup name = some ⟨api, piiPaths⟩ := by
  induction schemas generalizing entries with
  | nil =>
      cases cached
      rfl
  | cons schema rest inductionHypothesis =>
      obtain ⟨key, api⟩ := schema
      obtain ⟨keyAbsent, restDistinct⟩ := List.nodupKeys_cons.mp distinct
      rw [List.foldlM_cons] at cached
      obtain ⟨next, step, restCached⟩ := Option.bind_eq_some_iff.mp cached
      obtain ⟨piiPaths, resolved, rfl⟩ := Option.map_eq_some_iff.mp step
      have restSpec := inductionHypothesis restDistinct restCached
      by_cases same : name = key
      · -- The entry's own name: no later document has it.
        subst same
        rw [List.dlookup_eq_none.mpr keyAbsent] at restSpec
        rw [List.dlookup_cons_eq]
        exact ⟨piiPaths, resolved, restSpec.trans (AList.lookup_insert _)⟩
      · rw [List.dlookup_cons_ne _ _ same]
        cases later : rest.dlookup name with
        | none =>
            rw [later] at restSpec
            exact restSpec.trans (AList.lookup_insert_ne same)
        | some other =>
            rw [later] at restSpec
            exact restSpec

/-- After `replace_all`, each name holds its document with the paths resolved from it. -/
theorem lookup_replaceAll
    {fuel : Nat}
    {schemas : SchemaMap}
    {cache : SchemaCache}
    (replaced : replaceAll fuel schemas = some cache)
    (name : String) :
    match schemas.lookup name with
    | none => cache.get name = .error (.unknownSchema name)
    | some api => ∃ piiPaths, resolvePiiPaths api fuel = some piiPaths ∧
        cache.get name = .ok ⟨api, piiPaths⟩ := by
  obtain ⟨inner, cached, rfl⟩ := Option.map_eq_some_iff.mp replaced
  have spec := lookup_foldlM_cacheEntry schemas.nodupKeys cached name
  change match schemas.entries.dlookup name with
    | none => _
    | some api => _
  cases found : schemas.entries.dlookup name with
  | none =>
      rw [found] at spec
      simp [get, spec, AList.lookup_empty]
  | some api =>
      rw [found] at spec
      obtain ⟨piiPaths, resolved, present⟩ := spec
      exact ⟨piiPaths, resolved, by simp [get, present]⟩

end SchemaCache

/--
`load_all` on the cache: the outcome and the cache after it, or `none` when
`resolve_pii_paths` needs more than `fuel` nested calls on some document.
-/
def loadAll (s3 : S3Client) (parsers : OpenApiParsers) (cfg : Config) (fuel : Nat)
    (cache : SchemaCache) : Option (Except LoadError Unit × SchemaCache) :=
  match loadSchemas s3 parsers cfg with
  | .error error => some (.error error, cache)
  | .ok schemas => (SchemaCache.replaceAll fuel schemas).map fun next => (.ok (), next)

/-! ## `load_all` -/

/-- What a load can do: fail before the swap and keep the cache, or swap in the cache of what it loaded. -/
theorem loadAll_cases
    {s3 : S3Client}
    {parsers : OpenApiParsers}
    {cfg : Config}
    {fuel : Nat}
    {cache next : SchemaCache}
    {result : Except LoadError Unit}
    (loaded : loadAll s3 parsers cfg fuel cache = some (result, next)) :
    (next = cache ∧ ∃ failure, result = .error failure ∧
        loadSchemas s3 parsers cfg = .error failure) ∨
      result = .ok () ∧ ∃ schemas, loadSchemas s3 parsers cfg = .ok schemas ∧
        SchemaCache.replaceAll fuel schemas = some next := by
  unfold loadAll at loaded
  cases listed : loadSchemas s3 parsers cfg with
  | error failure =>
      rw [listed] at loaded
      cases loaded
      exact .inl ⟨rfl, failure, rfl, rfl⟩
  | ok schemas =>
      rw [listed] at loaded
      obtain ⟨swapped, replaced, same⟩ := Option.map_eq_some_iff.mp loaded
      cases same
      exact .inr ⟨rfl, schemas, rfl, replaced⟩

theorem loadAll_spec
    (s3 : S3Client)
    (parsers : OpenApiParsers)
    (cfg : Config)
    (fuel : Nat)
    (cache : SchemaCache) :
    (∀ failure after, loadAll s3 parsers cfg fuel cache = some (.error failure, after) →
      after = cache ∧
        (s3.listObjectsV2 cfg.s3Bucket cfg.s3Prefix = none ∨
          ∃ objects, s3.listObjectsV2 cfg.s3Bucket cfg.s3Prefix = some objects ∧
            ∃ key ∈ listedKeys objects, (fetchSchema s3 parsers cfg key).isOk = false)) ∧
      ∀ after, loadAll s3 parsers cfg fuel cache = some (.ok (), after) →
        ∃ objects, s3.listObjectsV2 cfg.s3Bucket cfg.s3Prefix = some objects ∧
          (∀ key ∈ listedKeys objects, (fetchSchema s3 parsers cfg key).isOk) ∧
          ∀ name, match (listedKeys objects).reverse.find?
              (fun key => schemaNameFromKey key cfg.s3Prefix == name) with
            | none => after.get name = .error (.unknownSchema name)
            | some key => ∃ api piiPaths, fetchSchema s3 parsers cfg key = .ok api ∧
                resolvePiiPaths api fuel = some piiPaths ∧ after.get name = .ok ⟨api, piiPaths⟩ := by
  refine ⟨fun failure after returned => ?_, fun after returned => ?_⟩
  · -- A failed load returns before the swap.
    rcases loadAll_cases returned with ⟨kept, _, _, loaded⟩ | ⟨wrong, -⟩
    · exact ⟨kept, loadSchemas_eq_error loaded⟩
    · cases wrong
  · rcases loadAll_cases returned with ⟨-, _, wrong, -⟩ | ⟨-, schemas, loaded, replaced⟩
    · cases wrong
    · obtain ⟨objects, listed, allOk, named⟩ := lookup_loadSchemas loaded
      refine ⟨objects, listed, allOk, fun name => ?_⟩
      have cached := SchemaCache.lookup_replaceAll replaced name
      have loadedName := named name
      -- The last key with the name decides what the loop left under it.
      cases last : (listedKeys objects).reverse.find?
          (fun key => schemaNameFromKey key cfg.s3Prefix == name) with
      | none =>
          rw [last] at loadedName
          rw [loadedName] at cached
          exact cached
      | some key =>
          rw [last] at loadedName
          obtain ⟨api, fetched, present⟩ := loadedName
          rw [present] at cached
          obtain ⟨piiPaths, resolved, got⟩ := cached
          exact ⟨api, piiPaths, fetched, resolved, got⟩

/-- A document whose `Person` schema marks `ssn`. -/
def personDocument : OpenAPI :=
  ⟨some ⟨[("Person", .item (.mk [] (.object
    [("ssn", .item (.mk [("x-pii", .bool true)] .other))])))]⟩⟩

/-- A document without components. -/
def emptyDocument : OpenAPI := ⟨none⟩

/-- `p.yaml`: the YAML text of `personDocument`. -/
def personYaml : String :=
  "openapi: \"3.0.0\"\ninfo:\n  title: p\n  version: \"1\"\npaths: \x7b\x7d\ncomponents:\n  schemas:\n    Person:\n      type: object\n      properties:\n        ssn:\n          type: string\n          x-pii: true\n"

/-- `p.json`: the JSON text of `emptyDocument`. -/
def emptyJson : String :=
  "\x7b\"openapi\":\"3.0.0\",\"info\":\x7b\"title\":\"p\",\"version\":\"1\"\x7d,\"paths\":\x7b\x7d\x7d"

/-- The parsers on the two texts: JSON is YAML too, so the YAML parser reads both. -/
def collisionParsers : OpenApiParsers where
  fromYaml text :=
    if text = personYaml then some personDocument
    else if text = emptyJson then some emptyDocument
    else none
  fromJson text := if text = emptyJson then some emptyDocument else none

/-- A bucket holding `schemas/p.yaml` and `schemas/p.json`. -/
def collisionS3 : S3Client where
  listObjectsV2 bucket pathPrefix :=
    if bucket = "bucket" ∧ pathPrefix = "schemas/" then
      some [⟨some "schemas/p.yaml"⟩, ⟨some "schemas/p.json"⟩]
    else none
  getObject _ key :=
    if key = "schemas/p.yaml" then .body (Str.asBytes personYaml)
    else if key = "schemas/p.json" then .body (Str.asBytes emptyJson)
    else .sendFailed

theorem loadAll_collision_overwrites :
    resolvePiiPaths personDocument 3 = some {"ssn"} ∧
      (loadAll collisionS3 collisionParsers sampleConfig 3 SchemaCache.new).map
          (fun result => (result.1.isOk, result.2.inner.keys,
            (result.2.get "p").toOption.map CachedSchema.piiPaths)) =
        some (true, ["p"], some ∅) := by
  decide +kernel

end NitroEncSvc
