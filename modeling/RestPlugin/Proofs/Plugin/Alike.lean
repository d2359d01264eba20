import RestPlugin.Proofs.Controller.Redraw
import RestPlugin.Proofs.Ir.Declarations
import RestPlugin.Proofs.Ir.Finalising
import RestPlugin.Proofs.Plugin.Files

/-!
# Representations with one hash come to one plugin

A plugin is not generated again while the hash of its representation stays the same.  The builders
read of a representation only what its canonical text tells, so representations with one text come
to the same files or to the same failure.  Two conditions are needed: no cache segment is the
undefined number, which the text does not tell from an infinite one but which is noted differently,
and no warning about capabilities has `null` for a context, which the text does not tell from none.
-/

namespace RestPlugin

open Json

/-! ## Computations over alike lists -/

theorem map_mapError {ε δ α β : Type} (f : ε → δ) (g : α → β) (result : Except ε α) :
    (result.mapError f).map g = (result.map g).mapError f := by
  cases result <;> rfl

/-- Computations with the same image fail alike, or come to results with the same image. -/
theorem error_or_ok_of_map_eq {ε α β : Type} {f : α → β} {result other : Except ε α}
    (same : result.map f = other.map f) :
    (∃ error, result = .error error ∧ other = .error error) ∨
      ∃ value value', result = .ok value ∧ other = .ok value' ∧ f value = f value' := by
  cases result with
  | error error =>
      cases other with
      | error error' =>
          cases same
          exact Or.inl ⟨error, rfl, rfl⟩
      | ok value => cases same
  | ok value =>
      cases other with
      | error error => cases same
      | ok value' => exact Or.inr ⟨value, value', rfl, rfl, Except.ok.inj same⟩

theorem mapM_congr_of_forall₂ {ε α β : Type} {related : α → α → Prop} {f g : α → Except ε β}
    (each : ∀ item other, related item other → f item = g other) {items others : List α}
    (alike : List.Forall₂ related items others) : items.mapM f = others.mapM g := by
  induction alike with
  | nil => rfl
  | cons here _ ih => rw [List.mapM_cons, List.mapM_cons, each _ _ here, ih]

/-! ## Representations that are told by their texts -/

/-- Whether everything the builders read of a representation is told by its canonical text. -/
structure Ir.Legible (ir : Ir) : Prop where
  ordered : ir.Ordered
  stated : ir.Stated
  defined : ∀ resource ∈ ir.resources, resource.Defined

/-- Whether no configured cache segment is the undefined number. -/
def Config.Loaded.Defined (loaded : Config.Loaded) : Prop :=
  ∀ entry ∈ loaded.config.resources, ∀ keys, entry.2.cacheKeys = some keys →
    ∀ operation segments, keys.at? operation = some segments →
      ∀ segment ∈ segments, segment.Defined

namespace Ir

/-- A resolved storage is in order. -/
theorem ordered_resolveStorage (resource slug : String) (declared : Option Config.Storage) :
    ∀ storage, (resolveStorage resource declared slug).storage = some storage →
      storage.Ordered := by
  have ascending : ∀ postType (post : Config.PostStorage),
      (Storage.post (.ofConfig postType post)).Ordered := fun postType post =>
    ⟨Keyed.ascending_sorted _, Keyed.ascending_sorted _⟩
  intro storage resolved
  cases declared with
  | none => cases resolved
  | some declared =>
      cases declared with
      | transient =>
          cases resolved
          trivial
      | option name =>
          cases resolved
          trivial
      | taxonomy name hierarchical =>
          cases resolved
          trivial
      | post post =>
          cases typeEq : post.postType with
          | none =>
              simp only [resolveStorage, typeEq, Option.some.injEq] at resolved
              rw [← resolved]
              exact ascending _ post
          | some postType =>
              simp only [resolveStorage, typeEq, Option.some.injEq] at resolved
              rw [← resolved]
              exact ascending _ post

theorem ordered_of_buildResource {slug key : String} {claims after : Claims}
    {resource : Config.Resource} {built : Resource}
    (resolved : buildResource slug claims key resource = .ok (built, after)) : built.Ordered := by
  rw [buildResource] at resolved
  simp only [bind_eq_ok_iff] at resolved
  obtain ⟨routes, routesEq, _, _, assigned, schemaEq, resolved⟩ := resolved
  cases resolved
  constructor
  · exact ordered_resolveStorage resource.name slug resource.storage
  · intro params paramsEq
    obtain ⟨declared, -, rfl⟩ := Option.map_eq_some_iff.mp paramsEq
    exact Keyed.ascending_sorted _

/-- The warnings of a built capability map are stated. -/
theorem stated_of_buildCapabilityMap {loaded : Config.Loaded} {resources : List Resource}
    {map : CapabilityMap} (built : buildCapabilityMap loaded resources = .ok map) :
    ∀ warning ∈ map.warnings, warning.Stated := by
  refine forall_mem_warnings_of_buildCapabilityMap ?_ ?_ ?_ ?_ built
  · intro definition warning raised
    rw [bindingWarning] at raised
    split at raised
    · cases raised
      rintro context ⟨⟩
      exact normal_obj_ne_null _
    · cases raised
  · rintro missing context ⟨⟩
    exact normal_obj_ne_null _
  · rintro missing references context ⟨⟩
    exact normal_obj_ne_null _
  · rintro unused context ⟨⟩
    exact normal_obj_ne_null _

/-- The representation of a configuration without undefined numbers is told by its text. -/
theorem legible_of_parts {loaded : Config.Loaded} (configured : loaded.Defined)
    (parts : Pipeline.Core.Parts loaded) : parts.ir.Legible where
  ordered := by
    intro resource member
    obtain ⟨entry, -, _, _, resolved⟩ := parts.exists_declaration resource member
    exact ordered_of_buildResource resolved
  stated := stated_of_buildCapabilityMap parts.capabilityMap_eq
  defined := by
    intro resource member
    exact forall_mem_of_buildResources (fun _ => nofun) configured parts.resources_eq resource
      (List.mem_mergeSort.mp member)

end Ir

namespace Plugin

open Controller Ir Pipeline

variable {first second : Ir}

/-! ## Controllers -/

/-- Alike representations come to controllers that show the same. -/
theorem composeAll_alike (alike : first.Alike second)
    (defined : ∀ resource ∈ first.resources, resource.Defined)
    (defined' : ∀ resource ∈ second.resources, resource.Defined) :
    (composeAll first).map (List.map Composed.shown) =
      (composeAll second).map (List.map Composed.shown) := by
  have both : List.Forall₂ (fun resource other =>
      resource.Defined ∧ other.Defined ∧ resource.Alike other) first.resources second.resources :=
    forall₂_imp_of_mem (fun resource member other otherMem alikeHere =>
      ⟨defined resource member, defined' other otherMem, alikeHere⟩) alike.resources
  rw [composeAll, composeAll, ← mapM_eq_map_mapM fun _ => rfl, ← mapM_eq_map_mapM fun _ => rfl]
  apply mapM_congr_of_forall₂ _ both
  rintro resource other ⟨definedHere, definedThere, alikeHere⟩
  have names : other.name = resource.name := by rw [alikeHere.eq]
  rw [map_mapError, map_mapError, shown_compose alike.slug alike.php alikeHere definedHere
    definedThere, names]

/-! ## Builders -/

theorem applyBase_alike (alike : first.Alike second) : applyBase first = applyBase second := by
  unfold applyBase
  rw [alike.php]

theorem applyPolicy_alike (alike : first.Alike second) :
    applyPolicy first = applyPolicy second := by
  unfold applyPolicy
  rw [alike.php, alike.capabilityMap.eq]
  rfl

theorem classNames_alike (alike : first.Alike second) :
    first.resources.map className = second.resources.map className := by
  apply map_eq_map_of_forall₂ _ alike.resources
  intro resource other alikeHere
  rw [alikeHere.eq]
  rfl

theorem applyIndex_alike (alike : first.Alike second) : applyIndex first = applyIndex second := by
  have entries : classEntries first = classEntries second := by
    have rest := congrArg (List.map fun name =>
      (restNamespace second.php ++ "\\" ++ name, controllerPath name)) (classNames_alike alike)
    rw [List.map_map, List.map_map] at rest
    rw [classEntries, classEntries, alike.php]
    exact congrArg _ rest
  unfold applyIndex
  rw [entries, alike.php]

theorem applyLoader_alike (alike : first.Alike second) :
    applyLoader first = applyLoader second := by
  have names : controllerNames first = controllerNames second := by
    have rest := congrArg (List.map ("Rest\\" ++ ·)) (classNames_alike alike)
    rwa [List.map_map, List.map_map] at rest
  unfold applyLoader
  rw [names, alike.php]

/-- Controllers that show the same are queued in the same way. -/
theorem foldl_queueController_congr (directory : String) {controllers others : List Composed}
    (same : controllers.map Composed.shown = others.map Composed.shown)
    (state : Output.Queue × Context) :
    controllers.foldl (queueController directory) state =
      others.foldl (queueController directory) state := by
  have pairs : List.Forall₂ (fun controller other => controller.shown = other.shown) controllers
      others := forall₂_of_map_eq (fun _ _ _ _ shown => shown) same
  clear same
  induction pairs generalizing state with
  | nil => rfl
  | @cons controller other controllers others shown _ ih =>
      obtain ⟨classNameEq, fileEq, nameEq, routesEq, -⟩ := Shown.mk.inj shown
      have queued : queueController directory state controller =
          queueController directory state other := by
        rw [queueController, queueController, controllerFile, controllerFile, classNameEq, fileEq,
          nameEq, routesEq]
      rw [List.foldl_cons, List.foldl_cons, queued, ih]

/-- Alike representations queue the same controllers. -/
theorem applyControllers_alike (alike : first.Alike second)
    (defined : ∀ resource ∈ first.resources, resource.Defined)
    (defined' : ∀ resource ∈ second.resources, resource.Defined) :
    applyControllers first = applyControllers second := by
  funext queue context
  rw [applyControllers, applyControllers]
  rcases error_or_ok_of_map_eq (composeAll_alike alike defined defined') with
    ⟨failure, firstEq, secondEq⟩ | ⟨controllers, others, firstEq, secondEq, shown⟩
  · rw [firstEq, secondEq]
  · rw [firstEq, secondEq]
    dsimp only
    rw [alike.php, foldl_queueController_congr second.php.outputDirectory shown]

/-! ## The manifest -/

/-- Warnings that are told alike are summarised alike. -/
theorem spelled_warningSummary {warning other : Ir.Warning} (same : warning.told = other.told) :
    (warningSummary warning).spelled = (warningSummary other).spelled := by
  rw [Warning.told, Warning.told, Prod.mk.injEq, Prod.mk.injEq] at same
  obtain ⟨codeEq, messageEq, contextEq⟩ := same
  have field : ∀ context : Option Json,
      Keyed.mapValues spelled (context.map fun context => ("context", context.sortKeys)).toList =
      ((context.map normal).map fun context => ("context", context)).toList := by
    intro context
    cases context <;> rfl
  have summary : ∀ warning : Ir.Warning, (warningSummary warning).spelled =
      .obj (Keyed.mapValues spelled [("code", .str warning.code), ("message", .str warning.message)]
        ++ ((warning.context.map normal).map fun context => ("context", context)).toList) := by
    intro warning
    rw [warningSummary, spelled_obj, ← field]
    exact congrArg Json.obj List.map_append
  rw [summary, summary, codeEq, messageEq, contextEq]

theorem spelled_capabilitySummary {map other : CapabilityMap} (alike : map.Alike other) :
    (capabilitySummary map).spelled = (capabilitySummary other).spelled := by
  have warnings : (Json.arr (map.warnings.map warningSummary)).spelled =
      (Json.arr (other.warnings.map warningSummary)).spelled := by
    rw [spelled_arr, spelled_arr, List.map_map, List.map_map]
    congr 1
    exact map_eq_of_map_eq (fun _ _ _ _ told => spelled_warningSummary told) alike.warnings
  rw [capabilitySummary, capabilitySummary]
  simp only [spelled_obj, Keyed.mapValues, List.map_cons, warnings]
  rw [alike.eq]

/-- Alike representations with one hash have the same manifest. -/
theorem manifestFile_alike (alike : first.Alike second) (hashEq : first.hash = second.hash)
    {controllers others : List Composed}
    (shown : controllers.map Composed.shown = others.map Composed.shown) (files : List String) :
    manifestFile first (controllers.map (·.metadata)) files =
      manifestFile second (others.map (·.metadata)) files := by
  have documents : (Json.arr ((controllers.map (·.metadata)).map Metadata.toJson)).spelled =
      (Json.arr ((others.map (·.metadata)).map Metadata.toJson)).spelled := by
    have shownDocuments := congrArg (List.map Shown.document) shown
    rw [List.map_map, List.map_map] at shownDocuments
    rw [spelled_arr, spelled_arr, List.map_map, List.map_map, List.map_map, List.map_map]
    exact congrArg _ shownDocuments
  have manifests : (manifest first (controllers.map (·.metadata)) files).pretty =
      (manifest second (others.map (·.metadata)) files).pretty := by
    rw [pretty_eq_iff, manifest, manifest]
    simp only [spelled_obj, Keyed.mapValues, List.map_cons, documents,
      spelled_capabilitySummary alike.capabilityMap, hashEq, alike.php]
  rw [manifestFile, manifestFile, manifests, alike.php]

/-- Alike representations with one hash queue the same manifest. -/
theorem applyManifest_alike (alike : first.Alike second) (hashEq : first.hash = second.hash)
    (defined : ∀ resource ∈ first.resources, resource.Defined)
    (defined' : ∀ resource ∈ second.resources, resource.Defined) :
    applyManifest first = applyManifest second := by
  funext queue context
  rw [applyManifest, applyManifest]
  rcases error_or_ok_of_map_eq (composeAll_alike alike defined defined') with
    ⟨failure, firstEq, secondEq⟩ | ⟨controllers, others, firstEq, secondEq, shown⟩
  · rw [firstEq, secondEq]
  · rw [firstEq, secondEq]
    dsimp only
    rw [manifestFile_alike alike hashEq shown, hashEq, alike.php]

/-! ## All builders -/

/-- Helpers that treat two inputs alike come to the same when they are applied in turn. -/
theorem applyAll_congr {ι ω : Type} {stage : Stage} {input other : ι}
    {helpers : List (Helper (ι → Action ω))}
    (each : ∀ helper ∈ helpers, helper.action input = helper.action other) (output : ω)
    (context : Context) :
    applyAll stage input helpers output context = applyAll stage other helpers output context := by
  induction helpers generalizing output context with
  | nil => rfl
  | cons helper helpers ih =>
      obtain ⟨here, later⟩ := List.forall_mem_cons.mp each
      rw [applyAll, applyAll, here]
      split
      · rfl
      · exact ih later _ _

/-- No builder tells alike representations with one hash apart. -/
theorem action_alike (alike : first.Alike second) (hashEq : first.hash = second.hash)
    (defined : ∀ resource ∈ first.resources, resource.Defined)
    (defined' : ∀ resource ∈ second.resources, resource.Defined) :
    ∀ builder ∈ builders, builder.action first = builder.action second := by
  intro builder member
  simp only [builders, List.mem_cons, List.not_mem_nil, or_false] at member
  rcases member with rfl | rfl | rfl | rfl | rfl | rfl
  · dsimp only [baseBuilder]
    exact applyBase_alike alike
  · dsimp only [policyBuilder]
    exact applyPolicy_alike alike
  · exact applyControllers_alike alike defined defined'
  · exact applyIndex_alike alike
  · exact applyLoader_alike alike
  · exact applyManifest_alike alike hashEq defined defined'

/-- Completed representations with one canonical text, of which the text tells all that the builders
read, come to the same files in the same order, or to the same failure. -/
theorem builders_agree_of_canonical_eq {firstDraft secondDraft : Draft}
    (finalised : firstDraft.finalise = .ok first) (finalised' : secondDraft.finalise = .ok second)
    (legible : first.Legible) (legible' : second.Legible)
    (same : first.toJson.canonical = second.toJson.canonical) (context : Context) :
    applyAll .builder first pipeline.builderSchedule.order [] context =
      applyAll .builder second pipeline.builderSchedule.order [] context := by
  have alike := alike_of_canonical_eq legible.ordered legible'.ordered legible.stated
    legible'.stated same
  have hashEq : first.hash = second.hash := by
    rw [hash_of_finalise finalised, hash_of_finalise finalised', contentHash, contentHash, same]
  rw [builderSchedule_order]
  exact applyAll_congr (action_alike alike hashEq legible.defined legible'.defined) [] context

/-! ## A transient resource with two routes of one kind -/

/-- A resource with two routes that read an item, and one number for their cache segment. -/
def job (number : Number.Binary64) : Resource where
  name := "job"
  schemaKey := "job"
  schemaProvenance := .auto
  routes := [⟨.get, "/acme/v1/jobs/:id", none, ""⟩, ⟨.get, "/acme/v1/tasks/:id", none, ""⟩]
  cacheKeys :=
    { list := ⟨[.text "job"], .default⟩
      get := ⟨[.float number], .config⟩
      create := none
      update := none
      remove := none }
  identity := some ⟨.number, "id"⟩
  storage := some .transient
  queryParams := none
  hash := ""
  warnings := []

/-- A draft with that resource. -/
def jobsDraft (number : Number.Binary64) : Draft where
  info := some ⟨1, "acme", "acme", "wpk.config.toml", "wpk.config.toml"⟩
  schemas := some []
  resources := some [job number]
  capabilityMap := some ⟨none, .standard, [], [], [], []⟩
  php := some ⟨"Acme", autoloadDirectory, phpOutputDirectory⟩

/-- The representation of that draft. -/
def jobs (number : Number.Binary64) : Ir :=
  withHash
    { info := ⟨1, "acme", "acme", "wpk.config.toml", "wpk.config.toml"⟩
      schemas := []
      resources := [job number]
      capabilityMap := ⟨none, .standard, [], [], [], []⟩
      php := ⟨"Acme", autoloadDirectory, phpOutputDirectory⟩
      hash := "" }

theorem finalise_jobsDraft (number : Number.Binary64) :
    (jobsDraft number).finalise = .ok (jobs number) := by
  simp [Draft.finalise, jobsDraft, Draft.need, jobs]

/-- The text tells the whole example, unless the number is undefined. -/
theorem legible_jobs {number : Number.Binary64} (isNumber : number ≠ .nan) :
    (jobs number).Legible := by
  have only : ∀ {holds : Resource → Prop}, holds (job number) →
      ∀ resource ∈ (jobs number).resources, holds resource := by
    intro holds here resource member
    rwa [List.mem_singleton.mp member]
  constructor
  · apply only
    constructor
    · rintro storage ⟨⟩
      trivial
    · rintro params ⟨⟩
  · exact nofun
  · apply only
    intro operation key keyEq segment member
    cases operation <;> cases keyEq
    · rw [List.mem_singleton.mp member]
      exact nofun
    · rw [List.mem_singleton.mp member]
      exact fun undefined => isNumber (Segment.float.inj undefined)

/-- Numbers with one text give the example one canonical text. -/
theorem canonical_jobs {number other : Number.Binary64}
    (same : (Json.float number).normal = (Json.float other).normal) :
    (jobs number).toJson.canonical = (jobs other).toJson.canonical := by
  rw [canonical_eq_iff_normal_eq]
  simp only [jobs, job, withHash, toJson, Resource.toJson, CacheKeys.toJson, CacheKey.toJson,
    Segment.toJson, normal_obj, normal_arr, Keyed.mapValues, List.map_cons, List.map_nil, same]

theorem usedClasses_job (number : Number.Binary64) :
    usedClasses (jobs number).php (job number) =
      ["Acme\\Policy\\Policy", "WP_Error", "WP_REST_Request"] := by
  have ascending : ["Acme\\Policy\\Policy", "WP_Error", "WP_REST_Request"].Pairwise
      fun a b : String => (!decide (b < a)) = true := by decide
  exact List.mergeSort_of_pairwise ascending

/-- The sources of the example, once its controller is composed. -/
theorem exists_sources_jobs {number : Number.Binary64} {count : Nat}
    (counted : ((compose (jobs number) (job number)).map
      (·.metadata.cache.events.length)).toOption = some count) :
    ∃ (sources : Sources (jobs number)) (composed : Composed), sources.controllers = [composed] ∧
      composed.metadata.cache.events.length = count := by
  have baseOk : (baseSource ("Acme" ++ "\\Rest")).isOk = true := by decide +kernel
  have policyOk : (policySource ("Acme" ++ "\\Policy")
      ⟨none, .standard, [], [], [], []⟩).isOk = true := by decide +kernel
  have loaderOk : (loaderSource "Acme" ["Rest\\" ++ (Text.pascalCase "job" ++ "Controller")]).isOk =
      true := by decide +kernel
  obtain ⟨base, base_eq⟩ := exists_eq_ok baseOk
  obtain ⟨policy, policy_eq⟩ := exists_eq_ok policyOk
  obtain ⟨loader, loader_eq⟩ := exists_eq_ok loaderOk
  cases composedEq : compose (jobs number) (job number) with
  | error error =>
      rw [composedEq] at counted
      cases counted
  | ok composed =>
      have controllers_eq : composeAll (jobs number) = .ok [composed] := by
        have resources : (jobs number).resources = [job number] := rfl
        rw [composeAll, resources, List.mapM_cons, composedEq]
        rfl
      rw [composedEq] at counted
      exact ⟨⟨base, policy, [composed], loader, base_eq, policy_eq, controllers_eq, loader_eq⟩,
        composed, rfl, Option.some.inj counted⟩

theorem counted_infinite (negative : Bool) :
    ((compose (jobs (.infinite negative)) (job (.infinite negative))).map
      (·.metadata.cache.events.length)).toOption = some 1 := by
  rw [compose, usedClasses_job]
  revert negative
  decide +kernel

theorem counted_nan :
    ((compose (jobs .nan) (job .nan)).map (·.metadata.cache.events.length)).toOption = some 2 := by
  rw [compose, usedClasses_job]
  decide +kernel

/-- The two infinite numbers have one canonical text, and the plugins do not tell them apart. -/
theorem builders_agree_of_canonical_eq_infinite :
    job (.infinite false) ≠ job (.infinite true) ∧
      (jobs (.infinite false)).toJson.canonical = (jobs (.infinite true)).toJson.canonical ∧
      (applyAll .builder (jobs (.infinite false)) pipeline.builderSchedule.order [] {}).1.isOk ∧
      applyAll .builder (jobs (.infinite false)) pipeline.builderSchedule.order [] {} =
        applyAll .builder (jobs (.infinite true)) pipeline.builderSchedule.order [] {} := by
  have texts : (Json.float (.infinite false)).normal = (Json.float (.infinite true)).normal := rfl
  have same := canonical_jobs texts
  refine ⟨?_, same, ?_, ?_⟩
  · intro equal
    have keys := congrArg (·.cacheKeys.get.segments) equal
    exact absurd keys (by decide)
  · obtain ⟨sources, -⟩ := exists_sources_jobs (counted_infinite false)
    obtain ⟨after, queued⟩ := sources.applyAll_builders {}
    rw [builderSchedule_order, queued]
    rfl
  · exact builders_agree_of_canonical_eq (finalise_jobsDraft (.infinite false))
      (finalise_jobsDraft (.infinite true)) (legible_jobs (by decide)) (legible_jobs (by decide))
      same {}

/-- A file is found under its path once it was added. -/
theorem Queue.get?_add_self (file : Output.File) (queue : Output.Queue) :
    (queue.add file).get? file.path = some file := by
  induction queue with
  | nil => simp [Output.Queue.add, Output.Queue.get?, Path.same_self]
  | cons queued queue ih =>
      rw [Output.Queue.add]
      split
      · simp [Output.Queue.get?, Path.same_self]
      · rename_i differ
        rw [Output.Queue.get?, List.find?_cons_of_neg (by exact differ)]
        exact ih

/-- Sources that come to the same files have controllers with the same documents. -/
theorem Sources.documents_eq {sources : Sources first} {sources' : Sources second}
    (directory : first.php.outputDirectory = second.php.outputDirectory)
    (same : sources.files = sources'.files) :
    sources.controllers.map (·.metadata.toJson.spelled) =
      sources'.controllers.map (·.metadata.toJson.spelled) := by
  have found := Queue.get?_add_self sources.manifest sources.queued
  have found' := Queue.get?_add_self sources'.manifest sources'.queued
  have paths : sources.manifest.path = sources'.manifest.path := by
    rw [sources.path_manifest, sources'.path_manifest, directory]
  rw [← Sources.files, same, Sources.files, paths, found', Option.some.injEq] at found
  have contents := congrArg (·.content.toList) found
  simp only [Sources.manifest, manifestFile, String.toList_append] at contents
  have manifests := pretty_eq_iff.mp (String.toList_injective (List.append_cancel_right contents))
  rw [Plugin.manifest, Plugin.manifest, spelled_obj, spelled_obj] at manifests
  have documents := congrArg (Keyed.get? "controllers") (Json.obj.inj manifests)
  simp [Keyed.get?_mapValues, Keyed.get?_cons] at documents
  exact documents.symm

/-- The undefined number has the canonical text of an infinite one, but comes to another manifest:
an event that does not equal itself is noted twice. -/
theorem builders_disagree_of_undefined :
    (jobs .nan).toJson.canonical = (jobs (.infinite false)).toJson.canonical ∧
      (applyAll .builder (jobs .nan) pipeline.builderSchedule.order [] {}).1 ≠
        (applyAll .builder (jobs (.infinite false)) pipeline.builderSchedule.order [] {}).1 := by
  have texts : (Json.float .nan).normal = (Json.float (.infinite false)).normal := rfl
  refine ⟨canonical_jobs texts, ?_⟩
  obtain ⟨sources, composed, controllersEq, count⟩ := exists_sources_jobs counted_nan
  obtain ⟨sources', composed', controllersEq', count'⟩ :=
    exists_sources_jobs (counted_infinite false)
  obtain ⟨after, queued⟩ := sources.applyAll_builders {}
  obtain ⟨after', queued'⟩ := sources'.applyAll_builders {}
  rw [builderSchedule_order, queued, queued']
  intro same
  have filesEq : sources.files = sources'.files := Except.ok.inj same
  have directory : (jobs .nan).php.outputDirectory =
      (jobs (.infinite false)).php.outputDirectory := rfl
  have documents := Sources.documents_eq directory filesEq
  rw [controllersEq, controllersEq'] at documents
  have document : composed.metadata.toJson.spelled = composed'.metadata.toJson.spelled :=
    (List.cons.inj documents).1
  rw [Metadata.spelled_toJson, Metadata.spelled_toJson] at document
  simp only [Json.obj.injEq, Json.arr.injEq, List.cons.injEq, Prod.mk.injEq, true_and, and_true]
    at document
  have counts := congrArg List.length document.2.2.2
  rw [List.length_map, List.length_map, count, count'] at counts
  cases counts

end Plugin

end RestPlugin
