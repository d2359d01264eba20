import RestPlugin.Proofs.Config.Checked
import RestPlugin.Proofs.Files.Lawful
import RestPlugin.Proofs.Pipeline.Core

/-!
# Errors that loading rules out

A configuration that was loaded is accepted and comes with a document for every declared schema.  So
a representation of it can only fail for the declaration of a resource: the namespace can be
sanitised, no declared document is missing, and no schema that is referred to is undeclared.
-/

namespace RestPlugin

/-! ## Loaded configurations -/

namespace Config

/-- What loading makes sure of. -/
structure Loaded.Complete (loaded : Loaded) : Prop where
  accepted : ∃ warnings, check loaded.config = .ok warnings
  documents : ∀ entry ∈ loaded.config.schemas, (Keyed.get? entry.1 loaded.schemas).isSome

section Loading

variable {σ : Type} {system : Files.System (StateM σ)} {loaded : Loaded}

/-- What is found under a path is read in the format that belongs to the path. -/
theorem run_load {path source : String} {format : Format} {state after : σ}
    (formatEq : Format.ofPath path = some format)
    (found : (system.read path).run state = (.ok (some source), after)) :
    (load system path).run state = (loadText system format source path).run after := by
  rw [load, formatEq]
  simp only [Files.run_bind, found]

/-- Once a text is read, the documents of its schemas are loaded. -/
theorem run_loadText {format : Format} {source path : String} {config : Config}
    {warnings : List Warning} (parsed : parse format source = .ok (config, warnings)) (state : σ) :
    (loadText system format source path).run state =
      (loadSchemas system { config, sourcePath := path, warnings } config.schemas).run state := by
  rw [loadText, parsed]

/-- Loading documents keeps the configuration and the documents that are there, and adds those of
the declared schemas. -/
theorem loadSchemas_eq_ok {start : Loaded} {declared : List (String × SchemaFile)} {state : σ}
    (done : ((loadSchemas system start declared).run state).1 = .ok loaded) :
    loaded.config = start.config ∧
      ∀ key, (Keyed.get? key start.schemas).isSome ∨ key ∈ declared.map (·.1) →
        (Keyed.get? key loaded.schemas).isSome := by
  induction declared generalizing start state with
  | nil =>
      rw [loadSchemas, Files.run_pure, Except.ok.injEq] at done
      subst done
      exact ⟨rfl, fun key found => found.resolve_right List.not_mem_nil⟩
  | cons entry rest ih =>
      rcases entry with ⟨key, file⟩
      simp only [loadSchemas, Files.run_bind] at done
      split at done
      · cases done
      · obtain ⟨configEq, kept⟩ := ih done
        refine ⟨configEq, fun wanted found => kept wanted ?_⟩
        rw [Loaded.addSchema, Keyed.get?_put]
        split
        · exact .inl rfl
        · rename_i keyNe
          rw [List.map_cons, List.mem_cons] at found
          exact found.imp_right fun inList => inList.resolve_left (Ne.symm keyNe)

/-- A configuration that is loaded from a text has every schema document it names. -/
theorem complete_of_loadText {format : Format} {source path : String} {state : σ}
    (done : ((loadText system format source path).run state).1 = .ok loaded) : loaded.Complete := by
  rw [loadText] at done
  split at done
  · cases done
  · rename_i config warnings parsed
    obtain ⟨configEq, kept⟩ := loadSchemas_eq_ok done
    constructor
    · exact ⟨warnings, configEq ▸ check_of_parse parsed⟩
    · intro entry member
      rw [configEq] at member
      exact kept entry.1 (.inr (List.mem_map_of_mem member))

theorem complete_of_load {path : String} {state : σ}
    (done : ((load system path).run state).1 = .ok loaded) : loaded.Complete := by
  rw [load] at done
  split at done
  · cases done
  · rw [Files.run_bind] at done
    split at done
    · exact complete_of_loadText done
    · cases done

end Loading

/-- The configuration was returned by loading a file, or a text as if it stood at a path, in some
state of some file system. -/
inductive Loaded.Returned (loaded : Loaded) : Prop
  | file {σ : Type} (system : Files.System (StateM σ)) (path : String) (state : σ)
      (done : ((load system path).run state).1 = .ok loaded)
  | text {σ : Type} (system : Files.System (StateM σ)) (format : Format) (source path : String)
      (state : σ) (done : ((loadText system format source path).run state).1 = .ok loaded)

/-- Whatever is returned has every schema document it names. -/
theorem Loaded.Returned.complete {loaded : Loaded} (returned : loaded.Returned) :
    loaded.Complete := by
  cases returned with
  | file system path state done => exact complete_of_load done
  | text system format source path state done => exact complete_of_loadText done

end Config

namespace Ir

open Pipeline

/-! ## Errors that blame a resource -/

/-- The error blames the resource of this name, and not for a schema that is not declared. -/
def Blames (name : String) (error : Error) : Prop :=
  ∃ problem, error = .developer name problem ∧ ∀ key, problem ≠ .schemaUndeclared key

/-- The error blames one of these resources. -/
def BlamesOneOf (resources : List (String × Config.Resource)) (error : Error) : Prop :=
  ∃ entry ∈ resources, Blames entry.2.name error

/-- What blames one of some resources blames one of more. -/
theorem BlamesOneOf.mono {resources resources' : List (String × Config.Resource)}
    (subset : resources ⊆ resources') (error : Error) (blames : BlamesOneOf resources error) :
    BlamesOneOf resources' error := by
  obtain ⟨entry, member, blamesEntry⟩ := blames
  exact ⟨entry, subset member, blamesEntry⟩

theorem blamesOneOf_cons {entry : String × Config.Resource}
    {rest : List (String × Config.Resource)} (error : Error) (blames : Blames entry.2.name error) :
    BlamesOneOf (entry :: rest) error :=
  ⟨entry, List.mem_cons_self, blames⟩

theorem onlyFails_developer {α : Type} {name : String} {problem : Problem}
    (other : ∀ key, problem ≠ .schemaUndeclared key) :
    OnlyFails (Blames name) (Except.error (.developer name problem) : Except Error α) :=
  onlyFails_error ⟨problem, rfl, other⟩

theorem onlyFails_buildRoute (registry : RouteRegistry) (name : String) (operation : Operation)
    (declared : Config.Route) :
    OnlyFails (Blames name) (buildRoute registry name operation declared) := by
  rw [buildRoute]
  split
  · exact onlyFails_developer (by rintro _ ⟨⟩)
  · split
    · exact onlyFails_developer (by rintro _ ⟨⟩)
    · exact onlyFails_ok _

theorem onlyFails_claimRoutes (name : String) (registry : RouteRegistry)
    (declared : List (Operation × Config.Route)) :
    OnlyFails (Blames name) (claimRoutes name registry declared).1 := by
  induction declared generalizing registry with
  | nil => exact onlyFails_ok _
  | cons entry rest ih =>
      rw [claimRoutes]
      split
      · rename_i error failed
        exact onlyFails_error (onlyFails_buildRoute _ _ _ _ error failed)
      · exact (ih _).map _

/-- Checking the identity of a storage blames its resource only. -/
theorem onlyFails_checkStorageIdentity (name : String) (storage : Option Config.Storage)
    (declared : Option Config.Identity) (identity : Option Identity) (routes : List Route) :
    OnlyFails (Blames name) (checkStorageIdentity name storage declared identity routes) := by
  rcases storage with _ | _ | _ | _ | _
  case some.option =>
    rw [checkStorageIdentity]
    split
    · exact onlyFails_developer (by rintro _ ⟨⟩)
    · split
      · exact onlyFails_developer (by rintro _ ⟨⟩)
      · exact onlyFails_ok _
  case some.taxonomy =>
    rcases identity with _ | ⟨_ | _, param⟩
    · exact onlyFails_ok _
    all_goals
      rw [checkStorageIdentity]
      split
      · exact onlyFails_ok _
      · exact onlyFails_developer (by rintro _ ⟨⟩)
  all_goals exact onlyFails_ok _

/-- The schema that a resource refers to by its key is in the table. -/
def Referable (table : SchemaTable) (resource : Config.Resource) : Prop :=
  ∀ key, schemaReference resource = some (.key key) → key ∈ table.map (·.1)

/-- Resolving a schema that can be referred to blames its resource only. -/
theorem onlyFails_resolveSchema {table : SchemaTable} {resource : Config.Resource}
    (referable : Referable table resource) (key slug : String) :
    OnlyFails (Blames resource.name) (resolveSchema table key resource slug) := by
  rw [resolveSchema]
  split
  · exact onlyFails_developer (by rintro _ ⟨⟩)
  · rename_i schema reference
    rw [if_pos (Keyed.contains_iff.mpr (referable schema reference))]
    exact onlyFails_ok _
  · exact onlyFails_ok _

theorem onlyFails_buildResource {claims : Claims} {resource : Config.Resource}
    (referable : Referable claims.schemas resource) (slug key : String) :
    OnlyFails (Blames resource.name) (buildResource slug claims key resource) := by
  rw [buildResource]
  refine ((onlyFails_claimRoutes _ _ _).map _).bind fun routes _ => ?_
  refine (onlyFails_checkStorageIdentity _ _ _ _ _).bind fun _ _ => ?_
  exact (onlyFails_resolveSchema referable _ _).bind fun _ _ => onlyFails_ok _

/-- Resolving resources only blames one of them, since the table loses no schema on the way. -/
theorem onlyFails_buildResourceList {claims : Claims} {declared : List (String × Config.Resource)}
    (filed : claims.schemas.Filed)
    (referable : ∀ entry ∈ declared, Referable claims.schemas entry.2) (slug : String) :
    OnlyFails (BlamesOneOf declared) (buildResourceList slug claims declared) := by
  induction declared generalizing claims with
  | nil => exact onlyFails_ok _
  | cons entry rest ih =>
      obtain ⟨here, later⟩ := List.forall_mem_cons.mp referable
      rw [buildResourceList]
      refine ((onlyFails_buildResource here slug entry.1).mono blamesOneOf_cons).bind ?_
      rintro ⟨built, between⟩ builtEq
      obtain ⟨assignment, schemaEq, -⟩ := buildResource_eq_ok builtEq
      obtain ⟨betweenFiled, kept, -⟩ := resolveSchema_eq_ok filed schemaEq
      have stillReferable : ∀ other ∈ rest, Referable between.schemas other.2 :=
        fun other member key reference => kept (later other member key reference)
      exact ((ih betweenFiled stillReferable).mono (.mono (List.subset_cons_self _ _))).bind
        fun _ _ => onlyFails_ok _

/-- Building the resources blames one of them. -/
theorem onlyFails_buildResources {loaded : Config.Loaded} {table : SchemaTable}
    (filed : table.Filed)
    (referable : ∀ entry ∈ loaded.config.resources, Referable table entry.2) (slug : String) :
    OnlyFails (BlamesOneOf loaded.config.resources) (buildResources loaded slug table) := by
  have sorted : ∀ entry ∈ loaded.config.resources.mergeSort declarationLe,
      Referable table entry.2 :=
    fun entry member => referable entry (List.mem_mergeSort.mp member)
  rw [buildResources]
  exact ((onlyFails_buildResourceList filed sorted slug).mono
    (.mono (List.mergeSort_perm _ _).subset)).bind fun _ _ => onlyFails_ok _

theorem onlyFails_addInline (owner : String) (declared : List (String × Declaration))
    (capabilities : List (String × Config.Capability)) :
    OnlyFails (Blames owner) (addInline owner declared capabilities) := by
  induction capabilities generalizing declared with
  | nil => exact onlyFails_ok _
  | cons entry rest ih =>
      rw [addInline]
      split
      · exact ih _
      · split
        · exact ih _
        · exact onlyFails_developer (by rintro _ ⟨⟩)

theorem onlyFails_addInlines (declared : List (String × Declaration))
    (resources : List (String × Config.Resource)) :
    OnlyFails (BlamesOneOf resources) (addInlines declared resources) := by
  induction resources generalizing declared with
  | nil => exact onlyFails_ok _
  | cons entry rest ih =>
      rw [addInlines]
      exact ((onlyFails_addInline _ _ _).mono blamesOneOf_cons).bind fun added _ =>
        (ih added).mono (.mono (List.subset_cons_self _ _))

theorem onlyFails_buildCapabilityMap (loaded : Config.Loaded) (resources : List Resource) :
    OnlyFails (BlamesOneOf loaded.config.resources) (buildCapabilityMap loaded resources) := by
  rw [buildCapabilityMap]
  refine (onlyFails_addInlines _ _).bind fun declared _ => ?_
  split <;> exact onlyFails_ok _

/-! ## Errors of the parts -/

section Parts

variable {loaded : Config.Loaded} (complete : loaded.Complete)
include complete

theorem succeeds_buildMeta : Succeeds (buildMeta loaded) := by
  obtain ⟨warnings, accepted⟩ := complete.accepted
  obtain ⟨slug, slugEq⟩ := (Config.checked_of_check accepted).slug
  rw [buildMeta, slugEq]
  exact succeeds_ok _

theorem succeeds_buildSchemas : Succeeds (buildSchemas loaded) :=
  ⟨_, addDeclared_eq_ok_iff.mpr ⟨complete.documents, rfl⟩⟩

/-- Every schema that is referred to is among the declared ones. -/
theorem referable_of_complete {table : SchemaTable} (built : buildSchemas loaded = .ok table) :
    ∀ entry ∈ loaded.config.resources, Referable table entry.2 := by
  obtain ⟨warnings, accepted⟩ := complete.accepted
  intro entry member key reference
  have declared : entry.2.schema = some (.key key) := by
    rw [schemaReference] at reference
    split at reference <;> simp_all
  have isDeclared := (Config.consistent_of_check accepted entry member).schema key declared
  exact (mem_keys_of_buildSchemas built).mpr (Keyed.contains_iff.mp isDeclared)

end Parts

/-- If a configuration was returned by loading and no representation of it can be built, then the
error blames the declaration of one of its resources.  It is neither about the namespace nor about a
document that is missing, and it does not say that a schema is not declared. -/
theorem build_blames_of_returned {loaded : Config.Loaded} (returned : loaded.Returned)
    {error : Error} (failed : build loaded = .error error) :
    ∃ entry ∈ loaded.config.resources, ∃ problem, error = .developer entry.2.name problem ∧
      ∀ key, problem ≠ .schemaUndeclared key := by
  have complete := returned.complete
  rcases Core.exists_parts_or_failsAt loaded with ⟨⟨parts⟩⟩ | ⟨error', fragment, fails⟩
  · rw [parts.build_eq] at failed
    cases failed
  · obtain rfl := Except.error.inj (fails.build_eq.symm.trans failed)
    cases fails with
    | info failed =>
        obtain ⟨info, infoEq⟩ := succeeds_buildMeta complete
        rw [infoEq] at failed
        cases failed
    | schemas _ failed =>
        obtain ⟨table, tableEq⟩ := succeeds_buildSchemas complete
        rw [tableEq] at failed
        cases failed
    | resources _ declaredEq failed =>
        exact onlyFails_buildResources (buildSchemas_filed declaredEq)
          (referable_of_complete complete declaredEq) _ _ failed
    | capabilityMap _ _ _ failed => exact onlyFails_buildCapabilityMap loaded _ _ failed

/-- The lines of a text that declares a schema, and a resource with a route of WordPress. -/
def jobsLines : List String :=
  ["version = 1\n", "namespace = \"acme\"\n", "[schemas.job]\n", "path = \"job.json\"\n",
   "[resources.job]\n", "name = \"job\"\n", "schema = \"job\"\n",
   "routes.list.path = \"/wp/v2/jobs\"\n", "routes.list.method = \"GET\"\n"]

/-- A directory that holds the text and an empty document. -/
def jobsDirectory : Files.Memory where
  files := [("job.json", "\x7b\x7d"), ("wpk.config.toml", String.join jobsLines)]

/-- The configuration in the directory. -/
def jobs : Config.Loaded where
  config :=
    { version := some 1
      declaredNamespace := "acme"
      schemas := [("job", ⟨"job.json", none⟩)]
      resources :=
        [("job",
          { name := "job"
            routes := { list := some ⟨"/wp/v2/jobs", .get, none⟩ }
            identity := none
            storage := none
            schema := some (.key "job")
            cacheKeys := none
            queryParams := none
            capabilities := none })]
      capabilities := none }
  sourcePath := "wpk.config.toml"
  schemas := [("job", ⟨"job.json", .obj []⟩)]

/-- Whether a document is an object without members. -/
def isEmptyObject : Json → Bool
  | .obj [] => true
  | _ => false

theorem eq_of_isEmptyObject {document : Json} (empty : isEmptyObject document = true) :
    document = .obj [] := by
  unfold isEmptyObject at empty
  split at empty
  · rfl
  · cases empty

theorem schemaDocument_jobs :
    Config.schemaDocument "job.json" (.ok (some "\x7b\x7d")) = .ok (.obj []) := by
  have found : (Config.schemaDocument "job.json" (.ok (some "\x7b\x7d"))).toOption.any
      isEmptyObject = true := by decide +kernel
  obtain ⟨document, documentEq, empty⟩ := (Option.any_eq_true _ _).mp found
  rw [eq_ok_of_toOption documentEq, eq_of_isEmptyObject empty]

theorem load_jobs :
    ((Config.load Files.Memory.system "wpk.config.toml").run jobsDirectory).1 = .ok jobs := by
  have isToml : Config.Format.ofPath "wpk.config.toml" = some .toml := by decide +kernel
  have parsed : Config.parse .toml (String.join jobsLines) = .ok (jobs.config, []) :=
    Config.parse_join_eq_ok (by decide +kernel) (by decide +kernel)
  have textFound : jobsDirectory.get? "wpk.config.toml" = some (String.join jobsLines) := by
    have differs : Path.same "job.json" "wpk.config.toml" = false := by decide +kernel
    simp only [Files.Memory.get?, jobsDirectory, List.find?, differs, Path.same_self,
      Option.map_some]
  have documentFound : jobsDirectory.get? "job.json" = some "\x7b\x7d" := by
    simp only [Files.Memory.get?, jobsDirectory, List.find?, Path.same_self, Option.map_some]
  have read {path text : String} (found : jobsDirectory.get? path = some text) :
      (Files.Memory.system.read path).run jobsDirectory = (.ok (some text), jobsDirectory) := by
    rw [← found]
    rfl
  have joined : Path.join (Config.Loaded.baseDirectory
      { config := jobs.config, sourcePath := "wpk.config.toml" }) "job.json" = "job.json" := by
    decide +kernel
  have declared : jobs.config.schemas = [("job", ⟨"job.json", none⟩)] := rfl
  rw [Config.run_load isToml (read textFound), Config.run_loadText parsed, declared]
  simp only [Config.loadSchemas, joined, Files.run_bind, read documentFound, schemaDocument_jobs]
  rfl

/-- The path of the jobs belongs to WordPress.  The resource is blamed for it. -/
theorem build_blames_of_returned_jobs :
    ((Config.load Files.Memory.system "wpk.config.toml").run jobsDirectory).1 = .ok jobs ∧
      ∃ problem, build jobs = .error (.developer "job" problem) ∧
        ∀ key, problem ≠ .schemaUndeclared key := by
  refine ⟨load_jobs, ?_⟩
  have sortedEq : jobs.config.resources.mergeSort declarationLe = jobs.config.resources :=
    List.mergeSort_singleton _
  have fails : (build jobs).isOk = false := by
    rw [build]
    simp only [buildResources, sortedEq]
    decide +kernel
  cases failed : build jobs with
  | ok ir =>
      rw [failed] at fails
      cases fails
  | error error =>
      obtain ⟨entry, member, problem, rfl, other⟩ :=
        build_blames_of_returned (.file _ _ _ load_jobs) failed
      obtain rfl := List.mem_singleton.mp member
      exact ⟨problem, rfl, other⟩

end Ir

end RestPlugin
