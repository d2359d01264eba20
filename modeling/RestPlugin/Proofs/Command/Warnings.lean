import RestPlugin.Command.Run
import RestPlugin.Proofs.Ir.Finalising
import RestPlugin.Proofs.Plugin.Capabilities
import RestPlugin.Proofs.Pipeline.Report

/-!
# Reported warnings

A run of the plugin's pipeline that succeeds reports every warning once.  Three of the fragments
forward warnings: those of the configuration, those of the resources in the order of the
representation, and those of the capability map.  The builders report nothing of this kind, and the
diagnostics come at the end.  So the number of warnings is the one that a check of the configuration
prints, and that of the diagnostics besides.
-/

namespace RestPlugin

open Report

/-- The reported form of a warning about the configuration. -/
def Config.Warning.entry (scope : String) (warning : Config.Warning) : Entry where
  level := .warn
  scope := childScope scope "config"
  message := warning.message
  context := some (.obj
    [("code", .str warning.code), ("resource", .ofOption .str warning.resource)])

/-- The reported form of a warning about a part of the representation. -/
def Ir.Warning.entry (scope part : String) (warning : Ir.Warning) : Entry where
  level := .warn
  scope := childScope scope part
  message := warning.message
  context := some (.obj [("code", .str warning.code), ("context", .ofOption id warning.context)])

/-- The reported warnings of a resource. -/
def Ir.Resource.entries (scope : String) (resource : Ir.Resource) : List Entry :=
  resource.warnings.map (Ir.Warning.entry scope ("resource." ++ resource.name))

namespace Pipeline

/-! ## What can be heard of a context -/

/-- The scope of a context and the warnings reported to it. -/
def Context.voice (context : Context) : String × List Entry := (context.scope, context.warnings)

namespace Context

variable (context : Context)

@[simp]
theorem voice_start (kind : Stage) (key : String) :
    (context.start kind key).voice = context.voice := by
  rw [voice, warnings_start]
  rfl

@[simp]
theorem voice_completed (kind : Stage) (key : String) :
    (context.completed kind key).voice = context.voice := rfl

@[simp]
theorem voice_setPhase (phase : Option Stage) :
    (context.setPhase phase).voice = context.voice := rfl

@[simp]
theorem voice_registerResource (name : String) :
    (context.registerResource name).voice = context.voice := by
  rw [registerResource]
  split <;> rfl

/-- Only warnings are heard. -/
theorem voice_reportBelow_of_ne {level : Level} (quiet : level ≠ .warn) (scope message : String)
    (data : Option Json) :
    (context.reportBelow scope level message data).voice = context.voice := by
  cases level <;> simp [voice, warnings, entries, reportBelow] at quiet ⊢

theorem voice_reportBelow_warn (scope message : String) (data : Option Json) :
    (context.reportBelow scope .warn message data).voice =
      (context.voice.1, context.voice.2 ++
        [⟨.warn, childScope context.voice.1 scope, message, data⟩]) := by
  simp [voice, warnings, entries, reportBelow]

end Context

/-- Steps each of which reports some warnings report all of them one after another. -/
theorem voice_foldl {α : Type} {step : Context → α → Context} (told : String → α → List Entry)
    (each : ∀ context item, (step context item).voice =
      (context.voice.1, context.voice.2 ++ told context.voice.1 item))
    (items : List α) (context : Context) :
    (items.foldl step context).voice =
      (context.voice.1, context.voice.2 ++ items.flatMap (told context.voice.1)) := by
  induction items generalizing context with
  | nil => rw [List.foldl_nil, List.flatMap_nil, List.append_nil]
  | cons item items ih => rw [List.foldl_cons, ih, each, List.flatMap_cons, List.append_assoc]

/-- Helpers that succeed without being heard leave the voice of the context as it was. -/
theorem voice_applyAll {ι ω : Type} {stage : Stage} {input : ι}
    {helpers : List (Helper (ι → Action ω))}
    (silent : ∀ helper ∈ helpers, ∀ output context,
      (helper.action input output context).2.voice = context.voice)
    {output last : ω} {context final : Context}
    (done : applyAll stage input helpers output context = (.ok last, final)) :
    final.voice = context.voice := by
  induction helpers generalizing output context with
  | nil =>
      cases done
      rfl
  | cons helper rest ih =>
      rw [List.forall_mem_cons] at silent
      have quiet := silent.1 output (context.start helper.kind helper.key)
      rw [applyAll] at done
      split at done
      · cases done
      · rename_i next after called
        rw [called] at quiet
        rw [ih silent.2 done, Context.voice_completed, quiet, Context.voice_start]

namespace Core

/-! ## Warnings of the fragments -/

theorem voice_reportWarnings (part : String) (warnings : List Ir.Warning) (context : Context) :
    (reportWarnings part warnings context).voice = (context.voice.1,
      context.voice.2 ++ warnings.map (Ir.Warning.entry context.voice.1 part)) := by
  rw [List.map_eq_flatMap]
  exact voice_foldl (fun scope warning => [Ir.Warning.entry scope part warning])
    (fun context warning => context.voice_reportBelow_warn part warning.message _) warnings context

theorem voice_reportConfigWarnings (warnings : List Config.Warning) (context : Context) :
    (warnings.foldl reportConfigWarning context).voice = (context.voice.1,
      context.voice.2 ++ warnings.map (Config.Warning.entry context.voice.1)) := by
  rw [List.map_eq_flatMap]
  exact voice_foldl (fun scope warning => [Config.Warning.entry scope warning])
    (fun context warning => context.voice_reportBelow_warn "config" warning.message _) warnings
    context

theorem voice_announce (resources : List Ir.Resource) (context : Context) :
    (resources.foldl announce context).voice = (context.voice.1,
      context.voice.2 ++ resources.flatMap (Ir.Resource.entries context.voice.1)) := by
  apply voice_foldl
  intro context resource
  rw [announce, voice_reportWarnings, Context.voice_registerResource, Ir.Resource.entries]

/-- The entries for the warnings of a configuration and of the representation built from it. -/
def warningEntries (scope : String) (loaded : Config.Loaded) (resources : List Ir.Resource)
    (map : Ir.CapabilityMap) : List Entry :=
  loaded.warnings.map (Config.Warning.entry scope) ++
    resources.flatMap (Ir.Resource.entries scope) ++
    map.warnings.map (Ir.Warning.entry scope "capability-map")

/-- The fragments report the warnings of their parts, each of them once. -/
theorem voice_fragments {loaded : Config.Loaded} (parts : Parts loaded) {draft : Ir.Draft}
    {context final : Context}
    (done : applyAll .fragment loaded fragments {} context = (.ok draft, final)) :
    final.voice = (context.voice.1, context.voice.2 ++
      warningEntries context.voice.1 loaded parts.resources parts.capabilityMap) := by
  have rebuilt := (Ir.buildSchemas_filed parts.declared_eq).ofSchemas_schemas
  have validated := parts.applyValidation_draft
  simp only [Parts.draft] at validated
  simp only [fragments, applyAll, metaFragment, applyMeta, parts.info_eq, schemasFragment,
    applySchemas, parts.declared_eq, resourcesFragment, applyResources, Option.getD_some, rebuilt,
    parts.resources_eq, capabilityMapFragment, applyCapabilityMap, parts.capabilityMap_eq,
    phpFragment, applyPhp, validationFragment, validated] at done
  cases done
  simp only [Context.voice_completed, Context.voice_start, voice_reportWarnings, voice_announce,
    voice_reportConfigWarnings, warningEntries, List.append_assoc]

/-- The resources are announced in the order in which the representation has them. -/
theorem Parts.ir_resources {loaded : Config.Loaded} (parts : Parts loaded) :
    parts.ir.resources = parts.resources := by
  obtain ⟨resolved, -, sortedEq⟩ := Ir.exists_list_of_buildResources parts.resources_eq
  have sorted := Ir.Resource.compares.pairwise_mergeSort resolved
  rw [← sortedEq] at sorted
  exact Ir.Resource.compares.mergeSort_eq_self sorted

end Core

end Pipeline

namespace Plugin

open Controller Ir Pipeline

/-! ## The builders -/

theorem voice_queueController (directory : String) (controllers : List Composed)
    (state : Output.Queue × Context) :
    (controllers.foldl (queueController directory) state).2.voice = state.2.voice := by
  induction controllers generalizing state with
  | nil => rfl
  | cons controller controllers ih =>
      rw [List.foldl_cons, ih, queueController]
      exact state.2.voice_reportBelow_of_ne (by decide) _ _ _

theorem voice_reportFallback (capability : String) (missing : List String) (context : Context) :
    (missing.foldl (reportFallback capability) context).voice = context.voice := by
  induction missing generalizing context with
  | nil => rfl
  | cons key missing ih =>
      rw [List.foldl_cons, ih, reportFallback]
      exact context.voice_reportBelow_of_ne (by decide) _ _ _

/-- No builder reports a warning. -/
theorem voice_builders (ir : Ir) : ∀ builder ∈ builders, ∀ queue context,
    (builder.action ir queue context).2.voice = context.voice := by
  have base (queue : Output.Queue) (context : Context) :
      (applyBase ir queue context).2.voice = context.voice := by
    rw [applyBase]
    split
    · rfl
    · exact context.voice_reportBelow_of_ne (by decide) _ _ _
  have policy (queue : Output.Queue) (context : Context) :
      (applyPolicy ir queue context).2.voice = context.voice := by
    rw [applyPolicy]
    split <;> exact voice_reportFallback _ _ context
  have controllers (queue : Output.Queue) (context : Context) :
      (applyControllers ir queue context).2.voice = context.voice := by
    rw [applyControllers]
    split
    · rfl
    · exact voice_queueController _ _ (queue, context)
  have loader (queue : Output.Queue) (context : Context) :
      (applyLoader ir queue context).2.voice = context.voice := by
    rw [applyLoader]
    split <;> rfl
  have manifest (queue : Output.Queue) (context : Context) :
      (applyManifest ir queue context).2.voice = context.voice := by
    rw [applyManifest]
    split
    · rfl
    · exact context.voice_reportBelow_of_ne (by decide) _ _ _
  simp only [builders, List.forall_mem_cons, List.not_mem_nil, false_implies, implies_true,
    and_true]
  exact ⟨base, policy, controllers, fun _ _ => rfl, loader, manifest⟩

/-! ## Runs of the plugin's pipeline -/

theorem voice_foldl_forward (diagnostics : List Diagnostic) (context : Context) :
    (diagnostics.foldl forward context).voice = (context.voice.1,
      context.voice.2 ++ diagnostics.map (Diagnostic.warning context.voice.1)) := by
  rw [Context.voice, scope_foldl_forward, warnings_foldl_forward]
  rfl

/-- What a run that succeeds reports is what its fragments report and its diagnostics. -/
theorem warnings_of_run {loaded : Config.Loaded} {requested : List String}
    {context final : Context} {result : Result}
    (success : pipeline.run loaded requested context = (.ok result, final)) :
    final.warnings = context.warnings ++
      Core.warningEntries context.scope loaded result.ir.resources result.ir.capabilityMap ++
        result.diagnostics.map (Diagnostic.warning context.scope) := by
  obtain ⟨draft, between, last, fragmentsDone, finalised, buildersDone, diagnosticsEq, -, rfl⟩ :=
    run_eq_ok success
  rw [fragmentSchedule_order] at fragmentsDone
  obtain ⟨parts, rfl⟩ := Core.exists_parts_of_applyAll_fragments fragmentsDone
  have irEq : parts.ir = result.ir := Except.ok.inj (parts.finalise_draft.symm.trans finalised)
  have capabilityMapEq : parts.ir.capabilityMap = parts.capabilityMap := rfl
  have afterFragments := Core.voice_fragments parts fragmentsDone
  rw [builderSchedule_order] at buildersDone
  have afterBuilders := voice_applyAll (voice_builders result.ir) buildersDone
  have heard := voice_foldl_forward (pipeline.diagnostics requested) (last.setPhase none)
  rw [Context.voice_setPhase, afterBuilders, Context.voice_setPhase, afterFragments,
    Context.voice_setPhase, ← parts.ir_resources, ← capabilityMapEq, irEq, ← diagnosticsEq] at heard
  rw [← diagnosticsEq]
  exact congrArg Prod.snd heard

/-- Every helper of the pipeline is used. -/
theorem diagnostics_pipeline (requested : List String) : pipeline.diagnostics requested = [] := rfl

/-- Whether a run succeeds, and with what, depends on the configuration alone. -/
theorem run_eq_of_run {loaded : Config.Loaded} {requested : List String} {context final : Context}
    {result : Result} (success : pipeline.run loaded requested context = (.ok result, final))
    (requested' : List String) (context' : Context) :
    ∃ final', pipeline.run loaded requested' context' = (.ok result, final') := by
  obtain ⟨parts, sources, irEq, filesEq⟩ := exists_sources_of_run success
  obtain ⟨result', final', success', irEq', filesEq'⟩ :=
    run_of_sources parts sources requested' context'
  obtain ⟨-, -, -, -, -, -, diagnosticsEq, stepsEq, -⟩ := run_eq_ok success
  obtain ⟨-, -, -, -, -, -, diagnosticsEq', stepsEq', -⟩ := run_eq_ok success'
  rw [diagnostics_pipeline] at diagnosticsEq diagnosticsEq'
  have same : result' = result := by
    cases result
    cases result'
    simp_all
  exact ⟨final', same ▸ success'⟩

end Plugin

namespace Command

open Pipeline

/-! ## The count of warnings -/

/-- What a check prints before the number of warnings. -/
def checkHeading (config : String) (result : Pipeline.Result) : List String :=
  (if result.diagnostics.isEmpty then [] else [""]) ++
    Text.lines s!"✓ {config} is valid" ++
    ["", "Namespace: " ++ result.ir.php.phpNamespace] ++ resourceLines result.ir

/-- The lines for a number of warnings. -/
def countLines (count : Nat) : List String :=
  if count == 0 then [] else ["", toString count ++ " " ++ plural "warning" count ++ " reported"]

theorem checkLines_eq (config : String) (loaded : Config.Loaded) (result : Pipeline.Result) :
    checkLines config loaded result =
      checkHeading config result ++
        countLines (loaded.warnings.length + result.ir.warnings.length) :=
  rfl

theorem check_eq_ok_of_run {loaded : Config.Loaded} {requested : List String}
    {context final : Context} {result : Pipeline.Result}
    (success : Plugin.pipeline.run loaded requested context = (.ok result, final)) :
    (check loaded).1 = .ok result := by
  obtain ⟨final', success'⟩ := Plugin.run_eq_of_run success [] { scope }
  unfold check
  rw [success']

theorem length_warningEntries (scope : String) (loaded : Config.Loaded) (ir : Ir) :
    (Core.warningEntries scope loaded ir.resources ir.capabilityMap).length =
      loaded.warnings.length + ir.warnings.length := by
  simp [Core.warningEntries, Ir.warnings, Ir.Resource.entries, List.length_flatMap]

/-- A run that succeeds reports one warning for each of the configuration, then one for each of a
resource, in the order of the representation, then one for each of the capability map, and then one
for each diagnostic.  Without the diagnostics these are as many as a check of the configuration
counts. -/
theorem warnings_reported_once {loaded : Config.Loaded} {requested : List String}
    {context final : Context} {result : Pipeline.Result}
    (success : Plugin.pipeline.run loaded requested context = (.ok result, final)) :
    final.warnings = context.warnings ++
        (loaded.warnings.map (Config.Warning.entry context.scope) ++
          result.ir.resources.flatMap (Ir.Resource.entries context.scope) ++
          result.ir.capabilityMap.warnings.map
            (Ir.Warning.entry context.scope "capability-map")) ++
        result.diagnostics.map (Diagnostic.warning context.scope) ∧
      ∃ count, count = loaded.warnings.length + result.ir.warnings.length ∧
        final.warnings.length = context.warnings.length + count + result.diagnostics.length ∧
        (check loaded).1 = .ok result ∧
        ∀ config, checkLines config loaded result =
          checkHeading config result ++ countLines count := by
  have reported := Plugin.warnings_of_run success
  refine ⟨reported, _, rfl, ?_, check_eq_ok_of_run success, fun config =>
    checkLines_eq config loaded result⟩
  rw [reported, List.length_append, List.length_append, length_warningEntries, List.length_map]

/-- A profile with an object capability, without a version. -/
def unversioned : Config.Loaded where
  config := { (Plugin.acme (Plugin.profile "profile.edit")).config with version := none }
  sourcePath := "wpk.config.toml"
  warnings :=
    [{ code := "config.version.missing"
       message := "Config does not declare a version; assuming version 1." }]

theorem check_unversioned : Config.check unversioned.config = .ok unversioned.warnings :=
  eq_ok_of_toOption (by decide)

theorem exists_sources_unversioned :
    ∃ parts : Core.Parts unversioned, Nonempty (Plugin.Sources parts.ir) := by
  obtain ⟨parts, ⟨sources⟩⟩ := Plugin.exists_sources_profile
  let parts' : Core.Parts unversioned :=
    ⟨parts.info, parts.declared, parts.resources, parts.table, parts.capabilityMap, parts.info_eq,
      parts.declared_eq, parts.resources_eq, parts.capabilityMap_eq⟩
  exact ⟨parts', ⟨sources⟩⟩

theorem warnings_reported_once_unversioned :
    Config.check unversioned.config = .ok unversioned.warnings ∧
    ∃ result final, Plugin.pipeline.run unversioned [] {} = (.ok result, final) ∧
      (∃ warning others, final.warnings = warning :: others ∧
        warning.message = "Config does not declare a version; assuming version 1.") ∧
      final.warnings.length = 1 + result.ir.warnings.length := by
  obtain ⟨parts, ⟨sources⟩⟩ := exists_sources_unversioned
  obtain ⟨result, final, success, -, -⟩ := Plugin.run_of_sources parts sources [] {}
  obtain ⟨reported, count, countEq, lengthEq, -, -⟩ := warnings_reported_once success
  obtain ⟨-, -, -, -, -, -, diagnosticsEq, -⟩ := run_eq_ok success
  rw [diagnosticsEq, Plugin.diagnostics_pipeline] at lengthEq
  refine ⟨check_unversioned, result, final, success, ⟨_, _, reported, rfl⟩, ?_⟩
  rw [lengthEq, countEq]
  exact Nat.zero_add _

end Command

end RestPlugin
