import RestPlugin.Proofs.Controller.Total
import RestPlugin.Proofs.Ir.Declarations
import RestPlugin.Proofs.Plugin.Files

/-!
# Configurations that no plugin can be generated from

Once a representation is built, the pipeline fails only for a name that PHP does not allow,
and such a name comes from a digit: at the beginning of a segment of the namespace, or of
the pascal case of a resource.
-/

namespace RestPlugin.Plugin

open Controller Ir Php Pipeline Text

/-! ## Namespaces -/

section Namespace

variable {slug : String} (slugChars : ∀ c ∈ slug.toList, isSlugChar c = true)

theorem namespace_below (last : String) :
    phpNamespace slug ++ "\\" ++ last = join "\\" (namespaceParts slug ++ [last]) := by
  rw [phpNamespace_eq, join_concat _ (namespaceParts_ne_nil slug)]

include slugChars in
/-- A name below the namespace is refused for a segment of the slug only. -/
theorem succeeds_below_iff {later : List String} (alphanumeric : ∀ part ∈ later, Alphanumeric part)
    (letters : later.any startsWithDigit = false) :
    Succeeds (Name.of (join "\\" (namespaceParts slug ++ later))) ↔
      (splitOnChar '-' slug).any startsWithDigit = false := by
  have words : ∀ part ∈ namespaceParts slug ++ later, Alphanumeric part := by
    intro part member
    rcases List.mem_append.mp member with inSpace | inLater
    · exact alphanumeric_of_mem_namespaceParts slugChars part inSpace
    · exact alphanumeric part inLater
  rw [succeeds_name_iff
      (List.append_ne_nil_of_left_ne_nil (namespaceParts_ne_nil slug) later) words,
    List.any_append, letters, Bool.or_false, any_startsWithDigit_namespaceParts slugChars]

end Namespace

/-! ## Sources -/

/-- The words of a representation that become PHP names begin with letters. -/
structure Pronounceable (ir : Ir) : Prop where
  space : (splitOnChar '-' ir.info.slug).any startsWithDigit = false
  resources : ∀ resource ∈ ir.resources, startsWithDigit (pascalCase resource.name) = false

theorem alphanumeric_rest : Alphanumeric "Rest" := by decide

theorem alphanumeric_policy : Alphanumeric "Policy" := by decide

section Sources

variable {ir : Ir} (php : ir.php = buildPhpProject ir.info)
  (slugChars : ∀ c ∈ ir.info.slug.toList, isSlugChar c = true)
include php slugChars

/-- The namespace of the controllers is accepted exactly if no segment of the slug begins
with a digit. -/
theorem succeeds_restNamespace_iff : Succeeds (Name.of (restNamespace ir.php)) ↔
    (splitOnChar '-' ir.info.slug).any startsWithDigit = false := by
  have spaceEq : restNamespace ir.php = phpNamespace ir.info.slug ++ "\\" ++ "Rest" := by
    rw [php, String.append_assoc]
    rfl
  rw [spaceEq, namespace_below]
  apply succeeds_below_iff slugChars _ (by decide)
  exact List.forall_mem_singleton.mpr alphanumeric_rest

variable (space : (splitOnChar '-' ir.info.slug).any startsWithDigit = false)
include space

theorem succeeds_policyNamespace : Succeeds (Name.of (policyNamespace ir.php)) := by
  have spaceEq : policyNamespace ir.php = phpNamespace ir.info.slug ++ "\\" ++ "Policy" := by
    rw [php, String.append_assoc]
    rfl
  rw [spaceEq, namespace_below]
  apply (succeeds_below_iff slugChars _ (by decide)).mpr space
  exact List.forall_mem_singleton.mpr alphanumeric_policy

theorem succeeds_policyName : Succeeds (Name.of (policyNamespace ir.php ++ "\\Policy")) := by
  have nameEq : policyNamespace ir.php ++ "\\Policy" =
      phpNamespace ir.info.slug ++ "\\" ++ "Policy" ++ "\\" ++ "Policy" := by
    rw [php, policyNamespace]
    simp only [String.append_assoc]
    rfl
  rw [nameEq, namespace_below, ← join_concat _ (by simp), List.append_assoc]
  apply (succeeds_below_iff slugChars _ (by decide)).mpr space
  simp [alphanumeric_policy]

/-- The loader is made if no name of a controller begins with a digit. -/
theorem succeeds_loader
    (letters : ∀ resource ∈ ir.resources, startsWithDigit (pascalCase resource.name) = false) :
    Succeeds (loaderSource ir.php.phpNamespace (controllerNames ir)) := by
  have register (resource : Resource) (member : resource ∈ ir.resources) :
      Succeeds (registration ("Rest\\" ++ className resource)) := by
    have nameEq : "Rest\\" ++ className resource = join "\\" ["Rest", className resource] := rfl
    have named : Succeeds (Name.of ("Rest\\" ++ className resource)) := by
      rw [nameEq, succeeds_name_iff (by simp)]
      · simpa [startsWithDigit_className, letters resource member] using
          (by decide : startsWithDigit "Rest" = false)
      · simp [alphanumeric_rest, alphanumeric_className]
    exact (named.map _).bind fun _ => succeeds_ok _
  have registered : Succeeds ((controllerNames ir).mapM registration) := by
    rw [succeeds_mapM_iff, controllerNames, List.forall_mem_map]
    exact register
  have named : Succeeds (Name.of ir.php.phpNamespace) := by
    have nameEq : ir.php.phpNamespace = join "\\" (namespaceParts ir.info.slug ++ []) := by
      rw [php, List.append_nil, ← phpNamespace_eq]
      rfl
    rw [nameEq]
    exact (succeeds_below_iff slugChars (by simp) rfl).mpr space
  exact registered.bind fun _ => named.bind fun _ => succeeds_ok _

omit space

/-- A representation with well-named resources comes to sources exactly if its words begin with
letters. -/
theorem nonempty_sources_iff (named : ∀ resource ∈ ir.resources, resource.WellNamed) :
    Nonempty (Sources ir) ↔ Pronounceable ir := by
  have composed (space : (splitOnChar '-' ir.info.slug).any startsWithDigit = false)
      (resource : Resource) (member : resource ∈ ir.resources) :
      Succeeds (compose ir resource) ↔ startsWithDigit (pascalCase resource.name) = false :=
    succeeds_compose_iff (named resource member)
      ((succeeds_restNamespace_iff php slugChars).mpr space)
      (succeeds_policyName php slugChars space)
  have composedAll : Succeeds (composeAll ir) ↔ ∀ resource ∈ ir.resources,
      Succeeds (compose ir resource) := by
    simp only [composeAll, succeeds_mapM_iff, succeeds_mapError_iff]
  constructor
  · rintro ⟨sources⟩
    obtain ⟨name, nameEq, -⟩ := bind_eq_ok_iff.mp sources.base_eq
    have space := (succeeds_restNamespace_iff php slugChars).mp ⟨name, nameEq⟩
    have all := composedAll.mp ⟨_, sources.controllers_eq⟩
    exact ⟨space, fun resource member => (composed space resource member).mp (all resource member)⟩
  · rintro ⟨space, letters⟩
    obtain ⟨base, baseEq⟩ : Succeeds (baseSource (restNamespace ir.php)) :=
      ((succeeds_restNamespace_iff php slugChars).mpr space).bind fun _ => succeeds_ok _
    obtain ⟨policy, policyEq⟩ : Succeeds (policySource (policyNamespace ir.php) ir.capabilityMap) :=
      (succeeds_policyNamespace php slugChars space).bind fun _ => succeeds_ok _
    obtain ⟨controllers, controllersEq⟩ : Succeeds (composeAll ir) :=
      composedAll.mpr fun resource member =>
        (composed space resource member).mpr (letters resource member)
    obtain ⟨loader, loaderEq⟩ := succeeds_loader php slugChars space letters
    exact ⟨⟨base, policy, controllers, loader, baseEq, policyEq, controllersEq, loaderEq⟩⟩

end Sources

/-! ## Runs -/

/-- A word of a configuration of which a PHP name is made begins with a digit. -/
def Misnamed (slug : String) (config : Config) : Prop :=
  (∃ segment ∈ splitOnChar '-' slug, startsWithDigit segment = true) ∨
    ∃ entry ∈ config.resources, startsWithDigit (pascalCase entry.2.name) = true

instance (slug : String) (config : Config) : Decidable (Misnamed slug config) :=
  inferInstanceAs (Decidable ((∃ segment ∈ splitOnChar '-' slug, startsWithDigit segment = true) ∨
    ∃ entry ∈ config.resources, startsWithDigit (pascalCase entry.2.name) = true))

section Runs

variable {loaded : Config.Loaded} (checked : loaded.config.Checked) (parts : Core.Parts loaded)

/-- The slug of a representation is its namespace, sanitised. -/
theorem slug_of_parts (parts : Core.Parts loaded) :
    sanitizeNamespace loaded.config.declaredNamespace = some parts.ir.info.slug := by
  have infoEq := parts.info_eq
  rw [buildMeta] at infoEq
  split at infoEq
  · cases infoEq
  · rename_i slug slugEq
    have irInfo : parts.ir.info = parts.info := rfl
    rw [slugEq, irInfo, ← Except.ok.inj infoEq]

/-- The words of a representation begin with letters exactly if no word of the configuration
is misnamed. -/
theorem pronounceable_iff (parts : Core.Parts loaded) :
    Pronounceable parts.ir ↔ ¬Misnamed parts.ir.info.slug loaded.config := by
  have byName (name : String) := parts.map_name_resources.mem_iff (a := name)
  have resources : (∀ resource ∈ parts.ir.resources,
        startsWithDigit (pascalCase resource.name) = false) ↔
      ∀ entry ∈ loaded.config.resources, startsWithDigit (pascalCase entry.2.name) = false := by
    rw [← List.forall_mem_map (f := Resource.name)
      (P := fun name => startsWithDigit (pascalCase name) = false)]
    simp only [byName, List.forall_mem_map]
  have space : (splitOnChar '-' parts.ir.info.slug).any startsWithDigit = false ↔
      ∀ segment ∈ splitOnChar '-' parts.ir.info.slug, startsWithDigit segment = false := by
    simp only [List.any_eq_false, Bool.not_eq_true]
  rw [Misnamed, not_or]
  simp only [not_exists, not_and, Bool.not_eq_true]
  rw [← resources, ← space]
  exact ⟨fun good => ⟨good.space, good.resources⟩, fun good => ⟨good.1, good.2⟩⟩

include checked in
theorem wellNamed_of_parts : ∀ resource ∈ parts.ir.resources, resource.WellNamed := by
  intro resource member
  obtain ⟨entry, entryMem, _, _, resolved⟩ := parts.exists_declaration resource member
  exact wellNamed_of_buildResource (checked.resources entry entryMem) resolved

include checked in
/-- There are sources exactly if no word is misnamed. -/
theorem nonempty_sources_iff_of_parts :
    Nonempty (Sources parts.ir) ↔ ¬Misnamed parts.ir.info.slug loaded.config :=
  (nonempty_sources_iff rfl (isSlugChar_of_sanitizeNamespace (slug_of_parts parts))
    (wellNamed_of_parts checked parts)).trans (pronounceable_iff parts)

end Runs

/-- For an accepted configuration whose representation is built, the pipeline fails exactly if a
segment of the namespace or the pascal case of a resource begins with a digit.  In every other case
all sources are composed. -/
theorem run_fails_iff_misnamed {format : Config.Format} {source : String} {config : Config}
    {warnings : List Config.Warning} {loaded : Config.Loaded} {ir : Ir}
    (accepted : Config.parse format source = .ok (config, warnings))
    (configured : loaded.config = config) (built : Ir.build loaded = .ok ir)
    (requested : List String) (context : Context) :
    ∃ slug, sanitizeNamespace config.declaredNamespace = some slug ∧
      ((∃ failure after, pipeline.run loaded requested context = (.error failure, after)) ↔
        Misnamed slug config) ∧
      (¬Misnamed slug config →
        ∃ (sources : Sources ir) (result : Result) (after : Context),
          pipeline.run loaded requested context = (.ok result, after) ∧ result.ir = ir ∧
            result.files = sources.files) := by
  subst configured
  obtain ⟨parts, rfl⟩ := Core.exists_parts_of_build built
  have sourcesIff := nonempty_sources_iff_of_parts (Config.checked_of_parse accepted) parts
  refine ⟨parts.ir.info.slug, slug_of_parts parts, ⟨?_, ?_⟩, ?_⟩
  · rintro ⟨failure, after, failed⟩
    by_contra named
    obtain ⟨sources⟩ := sourcesIff.mpr named
    obtain ⟨result, after', success, -⟩ := run_of_sources parts sources requested context
    rw [success] at failed
    cases failed
  · intro misnamed
    cases runEq : pipeline.run loaded requested context with
    | mk outcome after =>
        cases outcome with
        | error failure => exact ⟨failure, after, rfl⟩
        | ok result =>
            obtain ⟨parts', sources, -, -⟩ := exists_sources_of_run runEq
            have sameIr : parts'.ir = parts.ir :=
              Except.ok.inj (parts'.build_eq.symm.trans parts.build_eq)
            exact absurd misnamed (sourcesIff.mp ⟨sameIr ▸ sources⟩)
  · intro named
    obtain ⟨sources⟩ := sourcesIff.mpr named
    exact ⟨sources, run_of_sources parts sources requested context⟩

/-- A resource of values that expire, with one listing. -/
def listing (name path : String) : Config.Resource where
  name := name
  routes := { list := some ⟨path, .get, none⟩ }
  identity := none
  storage := some .transient
  schema := some .auto
  cacheKeys := none
  queryParams := none
  capabilities := none

/-- A configuration with given resources. -/
def acme (resources : List (String × Config.Resource)) : Config.Loaded where
  config :=
    { version := some 1
      declaredNamespace := "acme"
      schemas := []
      resources
      capabilities := none }
  sourcePath := "wpk.config.toml"

/-- The example comes to parts if its resources are resolved. -/
theorem exists_parts_acme (resources : List (String × Config.Resource))
    (sorted : resources.Pairwise fun first second => declarationLe first second = true)
    (resolved : Succeeds (buildResourceList "acme" { schemas := [] } resources))
    (capabilities : Succeeds (declarations (acme resources).config)) :
    ∃ parts : Core.Parts (acme resources), parts.ir.info.slug = "acme" := by
  have sanitised : sanitizeNamespace "acme" = some "acme" := by decide
  have infoEq : buildMeta (acme resources) = .ok
      { version := 1
        declaredNamespace := "acme"
        slug := "acme"
        sourcePath := displayPath "wpk.config.toml"
        origin := (acme resources).origin } := by
    simp only [buildMeta, acme, sanitised]
    rfl
  obtain ⟨parts, partsEq⟩ := Core.exists_parts_of_sorted infoEq rfl sorted resolved capabilities
  have slugEq : parts.ir.info.slug = parts.info.slug := rfl
  exact ⟨parts, by rw [slugEq, partsEq]⟩

/-- A text that declares one resource. -/
def codesSource (name : String) : String :=
  "version = 1\nnamespace = \"acme\"\n[resources.codes]\nname = \"" ++ name ++
    "\"\nschema = \"auto\"\nstorage.mode = \"transient\"\n" ++
    "routes.list.path = \"/acme/v1/codes\"\nroutes.list.method = \"GET\"\n"

/-- The resource of the text. -/
def codes (name : String) : List (String × Config.Resource) :=
  [("codes", listing name "/acme/v1/codes")]

theorem run_fails_iff_misnamed_codes :
    (∃ ir failure after,
      Config.parse .toml (codesSource "2fa") = .ok ((acme (codes "2fa")).config, []) ∧
        Ir.build (acme (codes "2fa")) = .ok ir ∧
        pipeline.run (acme (codes "2fa")) [] {} = (.error failure, after)) ∧
    ∃ ir result after,
      Config.parse .toml (codesSource "fa2") = .ok ((acme (codes "fa2")).config, []) ∧
        Ir.build (acme (codes "fa2")) = .ok ir ∧
        pipeline.run (acme (codes "fa2")) [] {} = (.ok result, after) := by
  have literal {l : List Char} : (String.ofList l).toList = l := String.toList_ofList
  constructor
  · have accepted :
        Config.parse .toml (codesSource "2fa") = .ok ((acme (codes "2fa")).config, []) :=
      Config.parse_eq_ok_of_toList (toList_append_eq (toList_append_eq (toList_append_eq literal
        literal) literal) literal) (by decide +kernel) (by decide +kernel)
    obtain ⟨parts, -⟩ := exists_parts_acme (codes "2fa") (List.pairwise_singleton _ _)
      (exists_eq_ok (by decide +kernel)) (exists_eq_ok (by decide +kernel))
    obtain ⟨slug, -, fails, -⟩ := run_fails_iff_misnamed accepted rfl parts.build_eq [] {}
    obtain ⟨failure, after, failed⟩ :=
      fails.mpr (.inr ⟨_, List.mem_singleton_self _, by decide +kernel⟩)
    exact ⟨parts.ir, failure, after, accepted, parts.build_eq, failed⟩
  · have accepted :
        Config.parse .toml (codesSource "fa2") = .ok ((acme (codes "fa2")).config, []) :=
      Config.parse_eq_ok_of_toList (toList_append_eq (toList_append_eq (toList_append_eq literal
        literal) literal) literal) (by decide +kernel) (by decide +kernel)
    obtain ⟨parts, slugEq⟩ := exists_parts_acme (codes "fa2") (List.pairwise_singleton _ _)
      (exists_eq_ok (by decide +kernel)) (exists_eq_ok (by decide +kernel))
    obtain ⟨slug, sanitised, -, succeeds⟩ :=
      run_fails_iff_misnamed accepted rfl parts.build_eq [] {}
    have isAcme : slug = "acme" :=
      Option.some.inj (sanitised.symm.trans ((slug_of_parts parts).trans (congrArg some slugEq)))
    have named : ¬Misnamed "acme" (acme (codes "fa2")).config := by decide +kernel
    obtain ⟨-, result, after, success, -⟩ := succeeds (isAcme ▸ named)
    exact ⟨parts.ir, result, after, accepted, parts.build_eq, success⟩

end RestPlugin.Plugin
