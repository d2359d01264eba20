import RestPlugin.Config.Load
import RestPlugin.Proofs.Except

/-!
# Checked configurations

What a configuration keeps once it is accepted: no two resources have one name, and every resource
has passed its own checks.  So a declared identity is one of the allowed ones and its parameter
occurs in the routes, a schema that is referred to is declared, and the keys under which meta values
and taxonomies are stored can begin the name of a variable.
-/

namespace RestPlugin

deriving instance DecidableEq for PerOperation
deriving instance DecidableEq for Config.Resource
deriving instance DecidableEq for Config

namespace Config

/-! ## Single checks -/

/-- A refusal is passed exactly if its condition is false. -/
theorem refuseIf_eq_ok_iff {condition : Bool} {violation : Violation} {key : String} :
    refuseIf condition violation key = .ok () ↔ condition = false := by
  cases condition <;> simp [refuseIf]

/-- A list is accepted exactly if each item is. -/
theorem checkAll_eq_ok_iff {α : Type} {check : α → Except Refusal Unit} {items : List α} :
    checkAll check items = .ok () ↔ ∀ item ∈ items, check item = .ok () := by
  induction items with
  | nil => simp [checkAll]
  | cons item items ih =>
      rw [checkAll, bind_eq_ok_iff, List.forall_mem_cons, ← ih]
      constructor
      · rintro ⟨⟨⟩, first, later⟩
        exact ⟨first, later⟩
      · exact fun both => ⟨(), both⟩

/-- The keys of a storage that become parts of the names of variables. -/
def Storage.variableKeys : Storage → List String
  | .post storage => storage.metaFields.map (·.1) ++ storage.taxonomies.map (·.1)
  | .transient | .option _ | .taxonomy _ _ => []

/-- What generating code from a resource relies on. -/
structure Resource.Checked (resource : Resource) : Prop where
  identity : ∀ identity ∈ resource.identity, identity.param ∈ identity.kind.allowedParams
  keys : ∀ storage ∈ resource.storage, ∀ key ∈ storage.variableKeys, isSafeKey key = true

theorem allowed_of_checkIdentity {key name : String} {routes : List (Operation × Route)}
    {identity : Identity} (checked : checkIdentity key name routes identity = .ok ()) :
    identity.param ∈ identity.kind.allowedParams := by
  obtain ⟨⟨⟩, allowed, -⟩ := bind_eq_ok_iff.mp checked
  simpa [refuseIf_eq_ok_iff] using allowed

/-- The keys of an accepted storage that become variables are safe. -/
theorem safe_of_checkStorage {key name : String} {storage : Storage}
    (checked : checkStorage key name storage = .ok ()) :
    ∀ key ∈ storage.variableKeys, isSafeKey key = true := by
  cases storage with
  | transient | option | taxonomy => simp [Storage.variableKeys]
  | post storage =>
      simp only [checkStorage, bind_eq_ok_iff] at checked
      obtain ⟨_, -, _, -, ⟨⟩, safe, -⟩ := checked
      rw [checkAll_eq_ok_iff] at safe
      intro variableKey member
      rcases List.mem_append.mp member with inMeta | inTaxonomies
      · have found := safe _ (List.mem_append_left _ (List.mem_map_of_mem inMeta))
        simpa [refuseIf_eq_ok_iff] using found
      · have found := safe _ (List.mem_append_right _ (List.mem_map_of_mem inTaxonomies))
        simpa [refuseIf_eq_ok_iff] using found

theorem checked_of_checkResource {config : Config} {key : String} {resource : Resource}
    {warnings : List Warning} (accepted : checkResource config key resource = .ok warnings) :
    resource.Checked := by
  simp only [checkResource, bind_eq_ok_iff] at accepted
  obtain ⟨_, -, _, -, _, -, ⟨⟩, identity, _, -, ⟨⟩, storage, -⟩ := accepted
  rw [checkAll_eq_ok_iff] at identity storage
  constructor
  · exact fun declared member =>
      allowed_of_checkIdentity (identity declared (Option.mem_toList.mpr member))
  · exact fun declared member =>
      safe_of_checkStorage (storage declared (Option.mem_toList.mpr member))

/-! ## What the parts of a resource agree on -/

/-- The parameter of a declared identity occurs in some route and in every route of one item, and a
schema that is referred to by its key is declared. -/
structure Resource.Consistent (config : Config) (resource : Resource) : Prop where
  used : ∀ identity ∈ resource.identity, ∃ entry ∈ resource.routes.toList,
    identity.param ∈ placeholders entry.2.path
  items : ∀ identity ∈ resource.identity, ∀ entry ∈ resource.routes.toList,
    entry.1.isItemLevel = true → identity.param ∈ placeholders entry.2.path
  schema : ∀ key, resource.schema = some (.key key) → Keyed.contains key config.schemas = true

/-- The parameter of an accepted identity stands in some path, and in every path of an
item route. -/
theorem used_of_checkIdentity {key name : String} {routes : List (Operation × Route)}
    {identity : Identity} (checked : checkIdentity key name routes identity = .ok ()) :
    (∃ entry ∈ routes, identity.param ∈ placeholders entry.2.path) ∧
      ∀ entry ∈ routes, entry.1.isItemLevel = true →
        identity.param ∈ placeholders entry.2.path := by
  obtain ⟨⟨⟩, -, rest⟩ := bind_eq_ok_iff.mp checked
  obtain ⟨⟨⟩, used, items⟩ := bind_eq_ok_iff.mp rest
  rw [checkAll_eq_ok_iff] at items
  constructor
  · simpa [refuseIf_eq_ok_iff] using used
  · intro entry member itemLevel
    simpa [refuseIf_eq_ok_iff, itemLevel] using items entry member

theorem declared_of_checkSchema {config : Config} {name key : String}
    (checked : checkSchema config name (some (.key key)) = .ok ()) :
    Keyed.contains key config.schemas = true := by
  rw [checkSchema] at checked
  split at checked
  · assumption
  · cases checked

/-- An accepted resource fits the configuration it belongs to. -/
theorem consistent_of_checkResource {config : Config} {key : String} {resource : Resource}
    {warnings : List Warning} (accepted : checkResource config key resource = .ok warnings) :
    resource.Consistent config := by
  simp only [checkResource, bind_eq_ok_iff] at accepted
  obtain ⟨_, -, _, -, _, -, ⟨⟩, identity, ⟨⟩, schema, -⟩ := accepted
  rw [checkAll_eq_ok_iff] at identity
  have used (declared : Identity) (member : declared ∈ resource.identity) :=
    used_of_checkIdentity (identity declared (Option.mem_toList.mpr member))
  constructor
  · exact fun declared member => (used declared member).1
  · exact fun declared member => (used declared member).2
  · intro schemaKey referenced
    rw [referenced] at schema
    exact declared_of_checkSchema schema

/-! ## All checks -/

/-- Every resource passes its own checks, and no name occurs again after it was seen. -/
theorem accepted_of_checkResources {config : Config} {names : List String}
    {entries : List (String × Resource)} {warnings : List Warning}
    (accepted : checkResources config names entries = .ok warnings) :
    (∀ entry ∈ entries, Succeeds (checkResource config entry.1 entry.2)) ∧
      (entries.map (·.2.name)).Nodup ∧ ∀ name ∈ names, name ∉ entries.map (·.2.name) := by
  induction entries generalizing names warnings with
  | nil => simp
  | cons entry entries ih =>
      rcases entry with ⟨key, resource⟩
      simp only [checkResources, bind_eq_ok_iff] at accepted
      obtain ⟨found, foundEq, ⟨⟩, unseen, _, later, -⟩ := accepted
      rw [refuseIf_eq_ok_iff] at unseen
      obtain ⟨each, nodup, fresh⟩ := ih later
      obtain ⟨isFresh, othersFresh⟩ := List.forall_mem_cons.mp fresh
      refine ⟨List.forall_mem_cons.mpr ⟨⟨found, foundEq⟩, each⟩,
        List.nodup_cons.mpr ⟨isFresh, nodup⟩, fun name member => ?_⟩
      rw [List.map_cons, List.mem_cons, not_or]
      refine ⟨?_, othersFresh name member⟩
      rintro rfl
      simp [member] at unseen

section Accepted

variable {config : Config} {warnings : List Warning} (accepted : check config = .ok warnings)
include accepted

theorem checkResource_of_check :
    ∀ entry ∈ config.resources, Succeeds (checkResource config entry.1 entry.2) := by
  simp only [check, bind_eq_ok_iff] at accepted
  obtain ⟨_, -, _, -, _, resources, -⟩ := accepted
  exact (accepted_of_checkResources resources).1

/-- The resources of an accepted configuration have different names. -/
theorem nodup_names_of_check : (config.resources.map (·.2.name)).Nodup := by
  simp only [check, bind_eq_ok_iff] at accepted
  obtain ⟨_, -, _, -, _, resources, -⟩ := accepted
  exact (accepted_of_checkResources resources).2.1

theorem consistent_of_check : ∀ entry ∈ config.resources, entry.2.Consistent config := by
  intro entry member
  obtain ⟨_, passed⟩ := checkResource_of_check accepted entry member
  exact consistent_of_checkResource passed

end Accepted

/-- What an accepted configuration keeps. -/
structure Checked (config : Config) : Prop where
  slug : ∃ slug, Text.sanitizeNamespace config.declaredNamespace = some slug
  resources : ∀ entry ∈ config.resources, entry.2.Checked

/-- An accepted configuration is checked. -/
theorem checked_of_check {config : Config} {warnings : List Warning}
    (accepted : check config = .ok warnings) : config.Checked := by
  have resources := checkResource_of_check accepted
  simp only [check, bind_eq_ok_iff] at accepted
  obtain ⟨_, -, _, space, -⟩ := accepted
  constructor
  · cases slugEq : Text.sanitizeNamespace config.declaredNamespace with
    | none =>
        rw [checkNamespace, slugEq] at space
        simp at space
    | some slug => exact ⟨slug, rfl⟩
  · intro entry member
    obtain ⟨_, passed⟩ := resources entry member
    exact checked_of_checkResource passed

/-- A configuration that is read has passed the checks. -/
theorem check_of_parse {format : Format} {source : String} {config : Config}
    {warnings : List Warning} (accepted : parse format source = .ok (config, warnings)) :
    check config = .ok warnings := by
  obtain ⟨decoded, -, validated⟩ := bind_eq_ok_iff.mp accepted
  obtain ⟨_, checked, same⟩ := bind_eq_ok_iff.mp validated
  cases same
  exact mapError_eq_ok_iff.mp checked

/-- A configuration that is read and accepted is checked. -/
theorem checked_of_parse {format : Format} {source : String} {config : Config}
    {warnings : List Warning} (accepted : parse format source = .ok (config, warnings)) :
    config.Checked :=
  checked_of_check (check_of_parse accepted)

end Config

/-! ## Texts of known characters -/

/-- The tree of the characters of a text. -/
def Toml.readChars (chars : List Char) : Source.Document :=
  let l := skipMark chars
  match lines (l.length + 1) ⟨[], []⟩ l with
  | some draft => ⟨0, sortedTable (entriesToNodes draft.entries), none⟩
  | none => ⟨0, .meaningless, none⟩

theorem Toml.readDocument_eq (text : String) : readDocument text = readChars text.toList := rfl

/-- A text is read from its characters.  Where these are known, they need not be computed. -/
theorem Config.parse_eq_ok_of_toList {source : String} {chars : List Char} {config : Config}
    {warnings : List Warning} (spelled : source.toList = chars)
    (decoded : (Source.Decode.document decode Format.toml.access
      (Toml.readChars chars)).toOption = some config)
    (checked : (check config).toOption = some warnings) :
    parse .toml source = .ok (config, warnings) := by
  have documentEq : Format.toml.read source = Toml.readChars chars := by
    rw [Format.read, Toml.readDocument_eq, spelled]
  have validated : validate source config = .ok warnings :=
    mapError_eq_ok_iff.mpr (eq_ok_of_toOption checked)
  rw [parse, decodeText, documentEq, eq_ok_of_toOption decoded]
  exact bind_eq_ok_iff.mpr ⟨config, rfl, bind_eq_ok_iff.mpr ⟨warnings, validated, rfl⟩⟩

/-- A text is read from the characters of its lines.  The lines are turned into characters one by
one, which takes far fewer steps than turning the whole text into characters. -/
theorem Config.parse_join_eq_ok {lines : List String} {config : Config} {warnings : List Warning}
    (decoded : (Source.Decode.document decode Format.toml.access
      (Toml.readChars (lines.flatMap String.toList))).toOption = some config)
    (checked : (check config).toOption = some warnings) :
    parse .toml (String.join lines) = .ok (config, warnings) :=
  parse_eq_ok_of_toList String.toList_join decoded checked

/-- The characters of a text made of two.  Those of a literal are known by
`String.toList_ofList`. -/
theorem Text.toList_append_eq {first second : String} {l r : List Char}
    (firstEq : first.toList = l) (secondEq : second.toList = r) :
    (first ++ second).toList = l ++ r := by
  rw [String.toList_append, firstEq, secondEq]

end RestPlugin
