import RestPlugin.Proofs.Pipeline.Diagnostic
import RestPlugin.Proofs.Pipeline.Run

/-!
# What a run reports

The diagnostics of a successful run come from four places: the registrations that were turned away,
the two schedules, and the executed helpers that nobody needs.  Each of them reaches the reporter as
one warning.  Helpers can report warnings of their own; if none of those that are called does, there
are no others.
-/

namespace RestPlugin.Pipeline

open Report

/-! ## Warnings -/

/-- The reported warnings. -/
def Context.warnings (context : Context) : List Entry :=
  context.entries.filter fun entry => entry.level == .warn

/-- The warning for a diagnostic, under a scope. -/
def Diagnostic.warning (scope : String) (diagnostic : Diagnostic) : Entry :=
  ⟨.warn, scope, diagnostic.message, some diagnostic.toJson⟩

@[simp]
theorem Context.warnings_setPhase (context : Context) (phase : Option Stage) :
    (context.setPhase phase).warnings = context.warnings := rfl

@[simp]
theorem Context.warnings_completed (context : Context) (kind : Stage) (key : String) :
    (context.completed kind key).warnings = context.warnings := rfl

@[simp]
theorem Context.warnings_start (context : Context) (kind : Stage) (key : String) :
    (context.start kind key).warnings = context.warnings := by
  simp [warnings, entries, start]

@[simp]
theorem warnings_forward (context : Context) (diagnostic : Diagnostic) :
    (forward context diagnostic).warnings =
      context.warnings ++ [diagnostic.warning context.scope] := by
  simp [Context.warnings, Context.entries, forward, Context.report, Diagnostic.warning]

@[simp]
theorem scope_foldl_forward (diagnostics : List Diagnostic) (context : Context) :
    (diagnostics.foldl forward context).scope = context.scope := by
  induction diagnostics generalizing context with
  | nil => rfl
  | cons diagnostic rest ih => exact ih (forward context diagnostic)

/-- Diagnostics are forwarded one by one, in their order. -/
theorem warnings_foldl_forward (diagnostics : List Diagnostic) (context : Context) :
    (diagnostics.foldl forward context).warnings =
      context.warnings ++ diagnostics.map (Diagnostic.warning context.scope) := by
  induction diagnostics generalizing context with
  | nil => simp
  | cons diagnostic rest ih =>
      have scopeEq : (forward context diagnostic).scope = context.scope := rfl
      rw [List.foldl_cons, ih, warnings_forward, scopeEq, List.append_assoc]
      rfl

/-! ## Helpers that do not warn -/

section Quiet

variable {ι ω : Type} {stage : Stage} {input : ι}

/-- Applied one after another, none of the helpers reports a warning when it is called. -/
def Quiet (stage : Stage) (input : ι) (helpers : List (Helper (ι → Action ω))) (output : ω)
    (context : Context) : Prop :=
  ∀ before helper after reached present, helpers = before ++ helper :: after →
    applyAll stage input before output context = (.ok reached, present) →
    (helper.action input reached (present.start helper.kind helper.key)).2.warnings =
      present.warnings

/-- After a quiet helper the remaining ones are quiet. -/
theorem Quiet.tail {helper : Helper (ι → Action ω)} {rest : List (Helper (ι → Action ω))}
    {output reached : ω} {context present : Context}
    (quiet : Quiet stage input (helper :: rest) output context)
    (called : helper.action input output (context.start helper.kind helper.key) =
      (.ok reached, present)) :
    Quiet stage input rest reached (present.completed helper.kind helper.key) := by
  intro before next after last final restEq applied
  apply quiet (helper :: before) next after last final
  · rw [restEq, List.cons_append]
  · rw [applyAll, called]
    exact applied

/-- Helpers that never warn are quiet in every run. -/
theorem Quiet.of_forall {helpers : List (Helper (ι → Action ω))}
    (silent : ∀ helper ∈ helpers, ∀ output context,
      (helper.action input output context).2.warnings = context.warnings)
    (output : ω) (context : Context) : Quiet stage input helpers output context := by
  intro before helper after reached present helpersEq _
  rw [silent helper (by simp [helpersEq]), Context.warnings_start]

/-- Quiet helpers leave the warnings as they were. -/
theorem warnings_applyAll {helpers : List (Helper (ι → Action ω))} {output last : ω}
    {context final : Context} (quiet : Quiet stage input helpers output context)
    (applied : applyAll stage input helpers output context = (.ok last, final)) :
    final.warnings = context.warnings := by
  induction helpers generalizing output context with
  | nil =>
      cases applied
      rfl
  | cons helper rest ih =>
      rw [applyAll] at applied
      split at applied
      · cases applied
      · rename_i reached present called
        have headQuiet := quiet [] helper rest output context rfl rfl
        rw [called] at headQuiet
        rw [ih (quiet.tail called) applied, Context.warnings_completed]
        exact headQuiet

end Quiet

/-- No helper that a run calls reports a warning. -/
def QuietRun (pipeline : Pipeline) (loaded : Config.Loaded) (context : Context) : Prop :=
  Quiet .fragment loaded pipeline.fragmentSchedule.order {} (context.setPhase (some .fragment)) ∧
    ∀ draft between ir,
      applyAll .fragment loaded pipeline.fragmentSchedule.order {}
        (context.setPhase (some .fragment)) = (.ok draft, between) →
      draft.finalise = .ok ir →
      Quiet .builder ir pipeline.builderSchedule.order [] (between.setPhase (some .builder))

/-- If no helper warns, the warnings of a run are its diagnostics. -/
theorem warnings_run {pipeline : Pipeline} {loaded : Config.Loaded} {requested : List String}
    {context final : Context} {result : Result}
    (success : pipeline.run loaded requested context = (.ok result, final))
    (quiet : QuietRun pipeline loaded context) :
    final.warnings =
      context.warnings ++ result.diagnostics.map (Diagnostic.warning final.scope) := by
  obtain ⟨draft, between, after, fragmentsApplied, finalised, buildersApplied, diagnosticsEq, _,
    finalEq⟩ := run_eq_ok success
  have afterFragments := warnings_applyAll quiet.1 fragmentsApplied
  have afterBuilders := warnings_applyAll
    (quiet.2 draft between result.ir fragmentsApplied finalised) buildersApplied
  rw [Context.warnings_setPhase] at afterFragments afterBuilders
  rw [finalEq, warnings_foldl_forward, scope_foldl_forward, diagnosticsEq,
    Context.warnings_setPhase, afterBuilders, afterFragments]

/-! ## Helpers that nobody needs -/

/-- The diagnostic of a helper that nobody needs. -/
def Registration.unused (registration : Registration) : Diagnostic :=
  .unusedHelper registration.kind registration.key registration.dependsOn

/-- An executed helper is not needed if it is neither terminal nor requested and no helper that
stayed, of either stage, depends on it. -/
def Unneeded (registrations : List Registration) (requested : List String) (steps : List Step)
    (registration : Registration) : Prop :=
  ⟨registration.key, registration.stage, .executed⟩ ∈ steps ∧ registration.terminal = false ∧
    registration.key ∉ requested ∧
    ∀ other ∈ retained registrations, registration.key ∉ other.dependsOn

instance (registrations : List Registration) (requested : List String) (steps : List Step)
    (registration : Registration) :
    Decidable (Unneeded registrations requested steps registration) :=
  inferInstanceAs (Decidable (_ ∧ _ ∧ _ ∧ _))

/-- The helpers that nobody needs, fragments first. -/
def unneeded (registrations : List Registration) (requested : List String) (steps : List Step) :
    List Registration :=
  ((retained registrations).filter (·.stage = .fragment) ++
    (retained registrations).filter (·.stage = .builder)).filter
      (Unneeded registrations requested steps)

/-- The executed steps of a stage are those of the keys in its order. -/
theorem executed_mem_steps_iff {α : Type} {stage other : Stage} {schedule : Schedule α}
    {key : String} :
    ⟨key, other, .executed⟩ ∈ Schedule.steps stage schedule ↔
      other = stage ∧ key ∈ keys schedule.order := by
  simp only [Schedule.steps, List.mem_append, List.mem_map, Step.mk.injEq]
  constructor
  · rintro (⟨_, member, rfl, rfl, _⟩ | ⟨_, _, _, _, statusEq⟩)
    · exact ⟨rfl, member⟩
    · cases statusEq
  · rintro ⟨rfl, member⟩
    exact Or.inl ⟨key, member, rfl, rfl, trivial⟩

/-- A fragment is executed exactly if its key is in the order of its stage. -/
theorem executed_fragment_iff (pipeline : Pipeline) (key : String) :
    ⟨key, .fragment, .executed⟩ ∈ pipeline.plannedSteps ↔
      key ∈ keys pipeline.fragmentSchedule.order := by
  simp [plannedSteps, executed_mem_steps_iff]

/-- A builder is executed exactly if its key is in the order of its stage. -/
theorem executed_builder_iff (pipeline : Pipeline) (key : String) :
    ⟨key, .builder, .executed⟩ ∈ pipeline.plannedSteps ↔
      key ∈ keys pipeline.builderSchedule.order := by
  simp [plannedSteps, executed_mem_steps_iff]

/-- Only helpers that stay count as consumers. -/
theorem mem_consumed_iff (registrations : List Registration) (key : String) :
    key ∈ (ofRegistrations registrations).consumed ↔
      ∃ registration ∈ retained registrations, key ∈ registration.dependsOn := by
  rw [consumed, fragments_ofRegistrations, builders_ofRegistrations]
  simp only [List.mem_append, List.mem_flatMap, List.mem_filterMap]
  constructor
  · rintro (⟨helper, ⟨registration, stays, selected⟩, member⟩ |
      ⟨helper, ⟨registration, stays, selected⟩, member⟩)
    · exact ⟨registration, stays, (selects_fragment.dependsOn_eq selected) ▸ member⟩
    · exact ⟨registration, stays, (selects_builder.dependsOn_eq selected) ▸ member⟩
  · rintro ⟨registration, stays, member⟩
    cases registration with
    | fragment helper => exact Or.inl ⟨helper, ⟨_, stays, rfl⟩, member⟩
    | builder helper => exact Or.inr ⟨helper, ⟨_, stays, rfl⟩, member⟩

/-- What is collected from the helpers of a stage can be collected from the registrations for it. -/
theorem Selects.map_filter_filterMap {α β : Type} {stage : Stage}
    {helper? : Registration → Option (Helper α)} (selects : Selects stage helper?)
    {test : Helper α → Bool} {wanted : Registration → Bool} {view : Helper α → β}
    {report : Registration → β}
    (wanted_eq : ∀ {registration helper}, helper? registration = some helper →
      wanted registration = test helper)
    (report_eq : ∀ {registration helper}, helper? registration = some helper →
      report registration = view helper)
    (registrations : List Registration) :
    ((registrations.filterMap helper?).filter test).map view =
      ((registrations.filter (·.stage = stage)).filter wanted).map report := by
  induction registrations with
  | nil => rfl
  | cons registration rest ih =>
      cases selected : helper? registration with
      | none =>
          have otherStage : registration.stage ≠ stage := by
            intro stageEq
            obtain ⟨helper, found⟩ := selects.complete stageEq
            rw [selected] at found
            cases found
          rw [List.filterMap_cons_none selected, ih,
            List.filter_cons_of_neg (by simpa using otherStage)]
      | some helper =>
          have stageEq : registration.stage = stage := congrArg Prod.fst (selects.slot_eq selected)
          have keep : (registration :: rest).filter (·.stage = stage) =
              registration :: rest.filter (·.stage = stage) :=
            List.filter_cons_of_pos (by simpa using stageEq)
          rw [List.filterMap_cons_some selected, keep, List.filter_cons, List.filter_cons,
            wanted_eq selected]
          split
          · rw [List.map_cons, List.map_cons, ih, report_eq selected]
          · exact ih

/-- The diagnostics of a stage about helpers that nobody needs, by their registrations. -/
theorem Selects.unusedDiagnostics_eq {α : Type} {stage : Stage}
    {helper? : Registration → Option (Helper α)} (selects : Selects stage helper?)
    (registrations : List Registration) (requested : List String) {steps : List Step}
    {done : List String}
    (executed_iff : ∀ key, ⟨key, stage, .executed⟩ ∈ steps ↔ key ∈ done) :
    unusedDiagnostics ((retained registrations).filterMap helper?) done
        (ofRegistrations registrations).consumed requested =
      (((retained registrations).filter (·.stage = stage)).filter
        (Unneeded registrations requested steps)).map Registration.unused := by
  refine selects.map_filter_filterMap ?_ ?_ (retained registrations)
  · intro registration helper selected
    have slotEq := selects.slot_eq selected
    rw [Registration.slot, Prod.mk.injEq] at slotEq
    rw [Bool.eq_iff_iff]
    simp only [Unneeded, slotEq, executed_iff, selects.terminal_eq selected, mem_consumed_iff,
      decide_eq_true_eq, Bool.and_eq_true, Bool.not_eq_true', List.contains_eq_mem,
      decide_eq_false_iff_not, not_exists, not_and]
    constructor
    · rintro ⟨executed, notTerminal, notRequested, notConsumed⟩
      exact ⟨⟨⟨executed, notTerminal⟩, notConsumed⟩, notRequested⟩
    · rintro ⟨⟨⟨executed, notTerminal⟩, notConsumed⟩, notRequested⟩
      exact ⟨executed, notTerminal, notRequested, notConsumed⟩
  · intro registration helper selected
    have keyEq : registration.key = helper.key := congrArg Prod.snd (selects.slot_eq selected)
    rw [Registration.unused, selects.kind_eq selected, keyEq, selects.dependsOn_eq selected]

/-! ## Diagnostics of runs after registrations -/

/-- The diagnostics of a run, told by the registrations. -/
theorem diagnostics_ofRegistrations (registrations : List Registration) (requested : List String) :
    (ofRegistrations registrations).diagnostics requested =
      conflictsOf registrations ++ (ofRegistrations registrations).fragmentSchedule.diagnostics ++
        (ofRegistrations registrations).builderSchedule.diagnostics ++
        (unneeded registrations requested (ofRegistrations registrations).plannedSteps).map
          Registration.unused := by
  have fragmentsUnused := selects_fragment.unusedDiagnostics_eq registrations requested
    (executed_fragment_iff (ofRegistrations registrations))
  have buildersUnused := selects_builder.unusedDiagnostics_eq registrations requested
    (executed_builder_iff (ofRegistrations registrations))
  rw [← fragments_ofRegistrations] at fragmentsUnused
  rw [← builders_ofRegistrations] at buildersUnused
  rw [diagnostics, fragmentsUnused, buildersUnused, conflicts_ofRegistrations, unneeded,
    List.filter_append, List.map_append, List.append_assoc]

theorem filter_code_eq_self {code : String} {diagnostics : List Diagnostic}
    (uniform : ∀ diagnostic ∈ diagnostics, diagnostic.code = code) :
    diagnostics.filter (·.code == code) = diagnostics := by
  rw [List.filter_eq_self]
  intro diagnostic member
  exact beq_iff_eq.mpr (uniform diagnostic member)

theorem filter_code_eq_nil {code other : String} {diagnostics : List Diagnostic}
    (uniform : ∀ diagnostic ∈ diagnostics, diagnostic.code = other) (differ : other ≠ code) :
    diagnostics.filter (·.code == code) = [] := by
  rw [List.filter_eq_nil_iff]
  intro diagnostic member codeEq
  exact differ ((uniform diagnostic member).symm.trans (beq_iff_eq.mp codeEq))

/-- The first and the last of the four sources of diagnostics can be told by their codes. -/
theorem filter_code_diagnostics (registrations : List Registration) (requested : List String) :
    ((ofRegistrations registrations).diagnostics requested).filter (·.code == "conflict") =
      conflictsOf registrations ∧
    ((ofRegistrations registrations).diagnostics requested).filter (·.code == "unused-helper") =
      (unneeded registrations requested (ofRegistrations registrations).plannedSteps).map
        Registration.unused := by
  have conflictCode := code_of_mem_conflictsOf registrations
  have fragmentCode : ∀ diagnostic ∈ (ofRegistrations registrations).fragmentSchedule.diagnostics,
      diagnostic.code = "missing-dependency" :=
    code_of_mem_schedule_diagnostics (keys_fragments_nodup registrations)
  have builderCode : ∀ diagnostic ∈ (ofRegistrations registrations).builderSchedule.diagnostics,
      diagnostic.code = "missing-dependency" :=
    code_of_mem_schedule_diagnostics (keys_builders_nodup registrations)
  have unusedCode : ∀ diagnostic ∈ (unneeded registrations requested
      (ofRegistrations registrations).plannedSteps).map Registration.unused,
      diagnostic.code = "unused-helper" := by
    intro diagnostic member
    obtain ⟨registration, _, rfl⟩ := List.mem_map.mp member
    rfl
  rw [diagnostics_ofRegistrations]
  simp only [List.filter_append]
  constructor
  · rw [filter_code_eq_self conflictCode, filter_code_eq_nil fragmentCode (by decide),
      filter_code_eq_nil builderCode (by decide), filter_code_eq_nil unusedCode (by decide)]
    simp
  · rw [filter_code_eq_nil conflictCode (by decide), filter_code_eq_nil fragmentCode (by decide),
      filter_code_eq_nil builderCode (by decide), filter_code_eq_self unusedCode]
    simp

/-- After any registrations the helpers that stayed are the first ones for their slots.  A run that
succeeds reports one conflict for every other registration, with the helper that holds its slot, and
one diagnostic for every executed helper that nobody needs; the findings of the schedules stand
between these, and all of them reach the reporter as warnings, with no others unless a helper warns
itself. -/
theorem run_reports_exactly (registrations : List Registration) (loaded : Config.Loaded)
    (requested : List String) (context : Context) {result : Result} {final : Context}
    (success : (ofRegistrations registrations).run loaded requested context =
      (.ok result, final)) :
    ((ofRegistrations registrations).fragments =
        (retained registrations).filterMap Registration.fragment? ∧
      (ofRegistrations registrations).builders =
        (retained registrations).filterMap Registration.builder?) ∧
    List.Forall₂ (IsConflict registrations) (rejected registrations)
      (result.diagnostics.filter (·.code == "conflict")) ∧
    result.diagnostics.filter (·.code == "unused-helper") =
      (unneeded registrations requested result.steps).map Registration.unused ∧
    result.diagnostics =
      result.diagnostics.filter (·.code == "conflict") ++
        (ofRegistrations registrations).fragmentSchedule.diagnostics ++
        (ofRegistrations registrations).builderSchedule.diagnostics ++
        result.diagnostics.filter (·.code == "unused-helper") ∧
    (QuietRun (ofRegistrations registrations) loaded context →
      final.warnings =
        context.warnings ++ result.diagnostics.map (Diagnostic.warning final.scope)) := by
  obtain ⟨_, _, _, _, _, _, diagnosticsEq, stepsEq, _⟩ := run_eq_ok success
  obtain ⟨conflictsEq, unusedEq⟩ := filter_code_diagnostics registrations requested
  rw [← diagnosticsEq] at conflictsEq unusedEq
  rw [← stepsEq] at unusedEq
  refine ⟨⟨fragments_ofRegistrations registrations, builders_ofRegistrations registrations⟩,
    ?_, unusedEq, ?_, warnings_run success⟩
  · rw [conflictsEq]
    exact forall₂_isConflict registrations
  · rw [conflictsEq, unusedEq, diagnosticsEq, stepsEq]
    exact diagnostics_ofRegistrations registrations requested

/-- A conflict, a missing dependency and a builder that nobody needs, and a warning for each. -/
theorem run_reports_exactly_sharedKeys :
    ∃ result final,
      (ofRegistrations sharedKeys).run default [] {} = (.ok result, final) ∧
      QuietRun (ofRegistrations sharedKeys) default {} ∧
      result.diagnostics =
        [.conflict .fragment "all" "core" "all", .missingDependency .builder "orphan" "nowhere",
         .unusedHelper .builder "page" ["shared", "all"]] ∧
      final.warnings = result.diagnostics.map (Diagnostic.warning final.scope) := by
  obtain ⟨result, final, success, diagnosticsEq⟩ : ∃ result final,
      (ofRegistrations sharedKeys).run default [] {} = (.ok result, final) ∧
        result.diagnostics =
          [.conflict .fragment "all" "core" "all", .missingDependency .builder "orphan" "nowhere",
           .unusedHelper .builder "page" ["shared", "all"]] := ⟨_, _, rfl, rfl⟩
  have quiet : QuietRun (ofRegistrations sharedKeys) default {} := by
    constructor
    · apply Quiet.of_forall
      exact List.forall_mem_cons.mpr
        ⟨fun _ _ => rfl, List.forall_mem_cons.mpr ⟨fun _ _ => rfl, List.forall_mem_nil _⟩⟩
    · intro draft between ir _ _
      apply Quiet.of_forall
      exact List.forall_mem_cons.mpr
        ⟨fun _ _ => rfl, List.forall_mem_cons.mpr ⟨fun _ _ => rfl, List.forall_mem_nil _⟩⟩
  obtain ⟨_, _, _, _, forwarded⟩ := run_reports_exactly sharedKeys default [] {} success
  exact ⟨result, final, success, quiet, diagnosticsEq, forwarded quiet⟩

end RestPlugin.Pipeline
