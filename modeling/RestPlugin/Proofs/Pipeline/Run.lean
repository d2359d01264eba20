import RestPlugin.Proofs.Pipeline.Registration
import RestPlugin.Proofs.Pipeline.Schedule

/-!
# Successful runs

What a successful run says about the helpers of its pipeline: every helper that stayed has one step,
fragments come before builders, and every step that was executed comes after the executed steps of
all the keys its helper depends on.
-/

namespace RestPlugin.Pipeline

/-! ## Inversion -/

/-- The steps of a run that succeeds. -/
def plannedSteps (pipeline : Pipeline) : List Step :=
  Schedule.steps .fragment pipeline.fragmentSchedule ++
    Schedule.steps .builder pipeline.builderSchedule

/-- A run that succeeds applies the fragments, completes the draft and applies the builders; what it
reports does not depend on what they do. -/
theorem run_eq_ok {pipeline : Pipeline} {loaded : Config.Loaded} {requested : List String}
    {context final : Context} {result : Result}
    (success : pipeline.run loaded requested context = (.ok result, final)) :
    ∃ draft between after,
      applyAll .fragment loaded pipeline.fragmentSchedule.order {}
          (context.setPhase (some .fragment)) = (.ok draft, between) ∧
      draft.finalise = .ok result.ir ∧
      applyAll .builder result.ir pipeline.builderSchedule.order []
          (between.setPhase (some .builder)) = (.ok result.files, after) ∧
      result.diagnostics = pipeline.diagnostics requested ∧
      result.steps = pipeline.plannedSteps ∧
      final = (pipeline.diagnostics requested).foldl forward (after.setPhase none) := by
  rw [run] at success
  split at success
  · cases success
  · rename_i draft between fragmentsApplied
    split at success
    · cases success
    · rename_i ir finalised
      split at success
      · cases success
      · rename_i files after buildersApplied
        cases success
        exact ⟨draft, between, after, fragmentsApplied, finalised, buildersApplied, rfl, rfl, rfl⟩

/-! ## Steps of one stage -/

/-- The stage and the key of a step. -/
def Step.slot (step : Step) : Stage × String := (step.stage, step.key)

section Steps

variable {α : Type} {stage : Stage} {schedule : Schedule α}

theorem map_slot_steps (stage : Stage) (schedule : Schedule α) :
    (Schedule.steps stage schedule).map Step.slot =
      (keys schedule.order ++ keys schedule.skipped).map (stage, ·) := by
  simp [Schedule.steps, Step.slot, Function.comp_def]

theorem stage_eq_of_mem_steps {step : Step} (member : step ∈ Schedule.steps stage schedule) :
    step.stage = stage := by
  simp only [Schedule.steps, List.mem_append, List.mem_map] at member
  rcases member with ⟨key, _, rfl⟩ | ⟨key, _, rfl⟩ <;> rfl

/-- The helper at a position of the order has its step there. -/
theorem getElem?_steps_of_order {position : Nat} {helper : Helper α}
    (found : schedule.order[position]? = some helper) :
    (Schedule.steps stage schedule)[position]? = some ⟨helper.key, stage, .executed⟩ := by
  have inRange : position < ((keys schedule.order).map
      fun key => (⟨key, stage, .executed⟩ : Step)).length := by
    simpa [keys] using (List.getElem?_eq_some_iff.mp found).1
  rw [Schedule.steps, List.getElem?_append_left inRange]
  simp [keys, found]

/-- Executed steps stand where their helpers stand in the order. -/
theorem getElem?_order_of_steps {position : Nat} {key : String} {other : Stage}
    (executed : (Schedule.steps stage schedule)[position]? = some ⟨key, other, .executed⟩) :
    ∃ helper, schedule.order[position]? = some helper ∧ helper.key = key := by
  rw [Schedule.steps, List.getElem?_append] at executed
  split at executed
  · rw [List.getElem?_map, Option.map_eq_some_iff] at executed
    obtain ⟨ran, ranFound, stepEq⟩ := executed
    rw [keys, List.getElem?_map, Option.map_eq_some_iff] at ranFound
    obtain ⟨helper, helperFound, rfl⟩ := ranFound
    exact ⟨helper, helperFound, congrArg Step.key stepEq⟩
  · rw [List.getElem?_map, Option.map_eq_some_iff] at executed
    obtain ⟨_, _, stepEq⟩ := executed
    cases congrArg Step.status stepEq

/-- A key that runs before a position has an executed step before it. -/
theorem exists_step_of_mem_take (stage : Stage) {position : Nat} {key : String}
    (ran : key ∈ keys (schedule.order.take position)) :
    ∃ earlier < position,
      (Schedule.steps stage schedule)[earlier]? = some ⟨key, stage, .executed⟩ := by
  obtain ⟨helper, helperMem, rfl⟩ := (mem_keys_iff _ key).mp ran
  obtain ⟨earlier, inRange, helperEq⟩ := List.mem_take_iff_getElem.mp helperMem
  refine ⟨earlier, by omega, getElem?_steps_of_order ?_⟩
  exact List.getElem?_eq_some_iff.mpr ⟨by omega, helperEq⟩

end Steps

/-! ## Steps of both stages -/

section PlannedSteps

variable {pipeline : Pipeline} {position : Nat}

/-- Steps of fragments stand in the first part. -/
theorem getElem?_fragmentSteps {step : Step} (stageEq : step.stage = .fragment)
    (found : pipeline.plannedSteps[position]? = some step) :
    (Schedule.steps .fragment pipeline.fragmentSchedule)[position]? = some step := by
  rw [plannedSteps, List.getElem?_append] at found
  split at found
  · exact found
  · have builderEq := stage_eq_of_mem_steps (List.mem_of_getElem? found)
    rw [stageEq] at builderEq
    cases builderEq

/-- Steps of builders stand in the second part. -/
theorem getElem?_builderSteps {step : Step} (stageEq : step.stage = .builder)
    (found : pipeline.plannedSteps[position]? = some step) :
    (Schedule.steps .fragment pipeline.fragmentSchedule).length ≤ position ∧
      (Schedule.steps .builder pipeline.builderSchedule)[position -
        (Schedule.steps .fragment pipeline.fragmentSchedule).length]? = some step := by
  rw [plannedSteps, List.getElem?_append] at found
  split at found
  · have fragmentEq := stage_eq_of_mem_steps (List.mem_of_getElem? found)
    rw [stageEq] at fragmentEq
    cases fragmentEq
  · rename_i outside
    exact ⟨Nat.le_of_not_lt outside, found⟩

theorem getElem?_plannedSteps_of_fragment {step : Step}
    (found : (Schedule.steps .fragment pipeline.fragmentSchedule)[position]? = some step) :
    pipeline.plannedSteps[position]? = some step := by
  rw [plannedSteps, List.getElem?_append_left (List.getElem?_eq_some_iff.mp found).1]
  exact found

theorem getElem?_plannedSteps_of_builder {step : Step}
    (found : (Schedule.steps .builder pipeline.builderSchedule)[position]? = some step) :
    pipeline.plannedSteps[(Schedule.steps .fragment pipeline.fragmentSchedule).length +
      position]? = some step := by
  rw [plannedSteps, List.getElem?_append_right (Nat.le_add_right _ _), Nat.add_sub_cancel_left]
  exact found

/-- With distinct keys, the helper at a position of the order is the one with the key of the
step. -/
theorem getElem?_order_of_key {α : Type} {stage : Stage} {helpers : List (Helper α)}
    {available skippedBefore : List String} (distinct : (keys helpers).Nodup) {helper : Helper α}
    (helperMem : helper ∈ helpers) {other : Stage}
    (executed : (Schedule.steps stage (schedule helpers available skippedBefore))[position]? =
      some ⟨helper.key, other, .executed⟩) :
    (schedule helpers available skippedBefore).order[position]? = some helper := by
  obtain ⟨ran, ranFound, keyEq⟩ := getElem?_order_of_steps executed
  obtain rfl := eq_of_key_eq distinct (mem_of_mem_order (List.mem_of_getElem? ranFound)) helperMem
    keyEq
  exact ranFound

/-- Executed fragments come after those they depend on. -/
theorem exists_earlier_of_fragment (distinct : (keys pipeline.fragments).Nodup)
    {helper : Helper (Config.Loaded → Action Ir.Draft)} (helperMem : helper ∈ pipeline.fragments)
    (executed : pipeline.plannedSteps[position]? = some ⟨helper.key, .fragment, .executed⟩)
    {dependency : String} (member : dependency ∈ helper.dependsOn) :
    ∃ earlier < position,
      pipeline.plannedSteps[earlier]? = some ⟨dependency, .fragment, .executed⟩ := by
  have found := getElem?_order_of_key distinct helperMem (getElem?_fragmentSteps rfl executed)
  obtain ⟨_, hasRun, isAvailable⟩ := met_of_getElem?_order found member
  have inStage : dependency ∈ keys pipeline.fragments := by
    by_contra outside
    exact List.not_mem_nil (isAvailable outside)
  obtain ⟨earlier, before, ran⟩ := exists_step_of_mem_take .fragment (hasRun inStage)
  exact ⟨earlier, before, getElem?_plannedSteps_of_fragment ran⟩

/-- Executed builders come after the builders they depend on, and after the fragments with the
other keys they depend on. -/
theorem exists_earlier_of_builder (distinct : (keys pipeline.builders).Nodup)
    {helper : Helper (Ir → Action Output.Queue)} (helperMem : helper ∈ pipeline.builders)
    (executed : pipeline.plannedSteps[position]? = some ⟨helper.key, .builder, .executed⟩)
    {dependency : String} (member : dependency ∈ helper.dependsOn) :
    ∃ earlier < position, pipeline.plannedSteps[earlier]? =
      some ⟨dependency, if dependency ∈ keys pipeline.builders then .builder else .fragment,
        .executed⟩ := by
  obtain ⟨afterFragments, executedHere⟩ := getElem?_builderSteps rfl executed
  have found := getElem?_order_of_key distinct helperMem executedHere
  obtain ⟨_, hasRun, isAvailable⟩ := met_of_getElem?_order found member
  by_cases inStage : dependency ∈ keys pipeline.builders
  · obtain ⟨earlier, before, ran⟩ := exists_step_of_mem_take .builder (hasRun inStage)
    refine ⟨_, ?_, by simpa [inStage] using getElem?_plannedSteps_of_builder ran⟩
    omega
  · have ranBefore : dependency ∈ keys (pipeline.fragmentSchedule.order.take
        pipeline.fragmentSchedule.order.length) := by
      rw [List.take_length]
      exact isAvailable inStage
    obtain ⟨earlier, _, ran⟩ := exists_step_of_mem_take .fragment ranBefore
    have inFragments := (List.getElem?_eq_some_iff.mp ran).1
    refine ⟨earlier, by omega, ?_⟩
    simpa [inStage] using getElem?_plannedSteps_of_fragment ran

end PlannedSteps

/-! ## Runs after registrations -/

/-- The slots of registrations are those of the fragments and those of the builders. -/
theorem map_slot_perm (registrations : List Registration) :
    (registrations.map Registration.slot).Perm
      ((keys (registrations.filterMap Registration.fragment?)).map (Stage.fragment, ·) ++
        (keys (registrations.filterMap Registration.builder?)).map (Stage.builder, ·)) := by
  induction registrations with
  | nil => exact List.Perm.refl []
  | cons registration rest ih =>
      cases registration with
      | fragment helper => exact ih.cons (Stage.fragment, helper.key)
      | builder helper => exact (ih.cons (Stage.builder, helper.key)).trans List.perm_middle.symm

/-- The steps are those of the registrations that stay. -/
theorem map_slot_plannedSteps_perm (registrations : List Registration) :
    ((ofRegistrations registrations).plannedSteps.map Step.slot).Perm
      ((retained registrations).map Registration.slot) := by
  have slotsPerm := map_slot_perm (retained registrations)
  rw [← fragments_ofRegistrations, ← builders_ofRegistrations] at slotsPerm
  have fragmentsPerm := keys_order_append_skipped_perm [] []
    (keys_fragments_nodup registrations)
  have buildersPerm := keys_order_append_skipped_perm
    (keys (ofRegistrations registrations).fragmentSchedule.order)
    (keys (ofRegistrations registrations).fragmentSchedule.skipped)
    (keys_builders_nodup registrations)
  rw [plannedSteps, List.map_append, map_slot_steps, map_slot_steps]
  exact ((fragmentsPerm.map _).append (buildersPerm.map _)).trans slotsPerm.symm

/-- Whatever is executed comes after what it depends on, of its own stage if something with the key
was registered for that, and otherwise a fragment. -/
theorem exists_earlier_of_executed {registrations : List Registration}
    {registration : Registration} (stays : registration ∈ retained registrations) {position : Nat}
    (executed : (ofRegistrations registrations).plannedSteps[position]? =
      some ⟨registration.key, registration.stage, .executed⟩)
    {dependency : String} (member : dependency ∈ registration.dependsOn) :
    ∃ earlier < position, (ofRegistrations registrations).plannedSteps[earlier]? =
      some ⟨dependency,
        if (registration.stage, dependency) ∈ registrations.map Registration.slot then
          registration.stage
        else .fragment,
        .executed⟩ := by
  cases registration with
  | fragment helper =>
      obtain ⟨earlier, before, ran⟩ := exists_earlier_of_fragment
        (keys_fragments_nodup registrations) (mem_fragments_of_retained stays) executed member
      exact ⟨earlier, before, by simpa [Registration.stage] using ran⟩
  | builder helper =>
      obtain ⟨earlier, before, ran⟩ := exists_earlier_of_builder
        (keys_builders_nodup registrations) (mem_builders_of_retained stays) executed member
      have registered_iff := selects_builder.mem_keys_iff registrations dependency
      rw [← builders_ofRegistrations] at registered_iff
      rw [if_congr registered_iff rfl rfl] at ran
      exact ⟨earlier, before, ran⟩

/-- In a successful run every helper that stayed has exactly one step and nothing else has one, the
steps of fragments precede those of builders, and executed steps come after executed steps of all
the keys their helpers depend on. -/
theorem run_steps_ordered (registrations : List Registration) (loaded : Config.Loaded)
    (requested : List String) (context : Context) {result : Result} {final : Context}
    (success : (ofRegistrations registrations).run loaded requested context =
      (.ok result, final)) :
    (∀ registration ∈ retained registrations,
      (result.steps.map Step.slot).count registration.slot = 1) ∧
    (∀ step ∈ result.steps, ∃ registration ∈ retained registrations,
      registration.slot = step.slot) ∧
    (∀ (first second : Nat) (firstStep secondStep : Step),
      result.steps[first]? = some firstStep → result.steps[second]? = some secondStep →
      firstStep.stage = .fragment → secondStep.stage = .builder → first < second) ∧
    ∀ position : Nat, ∀ registration ∈ retained registrations,
      result.steps[position]? = some ⟨registration.key, registration.stage, .executed⟩ →
      ∀ dependency ∈ registration.dependsOn, ∃ earlier < position,
        result.steps[earlier]? = some ⟨dependency,
          if (registration.stage, dependency) ∈ registrations.map Registration.slot then
            registration.stage
          else .fragment,
          .executed⟩ := by
  obtain ⟨_, _, _, _, _, _, _, stepsEq, _⟩ := run_eq_ok success
  have slotsPerm := map_slot_plannedSteps_perm registrations
  rw [← stepsEq] at slotsPerm
  refine ⟨?_, ?_, ?_, ?_⟩
  · intro registration stays
    rw [slotsPerm.count_eq]
    exact List.count_eq_one_of_mem (retained_slot_nodup registrations)
      (List.mem_map_of_mem stays)
  · intro step stepMem
    exact List.mem_map.mp (slotsPerm.mem_iff.mp (List.mem_map_of_mem stepMem))
  · intro first second firstStep secondStep firstFound secondFound isFragment isBuilder
    rw [stepsEq] at firstFound secondFound
    have inFragments := getElem?_fragmentSteps isFragment firstFound
    have afterFragments := (getElem?_builderSteps isBuilder secondFound).1
    have bound := (List.getElem?_eq_some_iff.mp inFragments).1
    omega
  · intro position registration stays executed dependency member
    rw [stepsEq] at executed ⊢
    exact exists_earlier_of_executed stays executed member

/-- A history in which both stages have a helper with the same key, a key is registered twice, and a
builder depends on something that nobody provides. -/
def sharedKeys : List Registration :=
  [.fragment
    { key := "all"
      kind := .fragment
      origin := some "core"
      action := fun _ _ context =>
        (.ok { info := some default, schemas := some [], resources := some [],
               capabilityMap := some default, php := some default }, context) },
   .fragment
    { key := "shared", kind := .fragment, dependsOn := ["all"]
      action := fun _ draft context => (.ok draft, context) },
   .fragment
    { key := "all", kind := .fragment, action := fun _ draft context => (.ok draft, context) },
   .builder
    { key := "page"
      kind := .builder
      dependsOn := ["shared", "all"]
      priority := 5
      action := fun _ files context => (.ok files, context) },
   .builder
    { key := "shared", kind := .builder, action := fun _ files context => (.ok files, context) },
   .builder
    { key := "orphan", kind := .builder, dependsOn := ["nowhere"]
      action := fun _ files context => (.ok files, context) }]

/-- The builder waits for the builder with the shared key, though a fragment with it ran before. -/
theorem run_steps_ordered_sharedKeys :
    ∃ result final,
      (ofRegistrations sharedKeys).run default [] {} = (.ok result, final) ∧
      result.steps[3]? = some ⟨"page", .builder, .executed⟩ ∧
      ∃ earlier < 3, result.steps[earlier]? = some ⟨"shared", .builder, .executed⟩ := by
  obtain ⟨result, final, success, executed⟩ : ∃ result final,
      (ofRegistrations sharedKeys).run default [] {} = (.ok result, final) ∧
        result.steps[3]? = some ⟨"page", .builder, .executed⟩ := ⟨_, _, rfl, rfl⟩
  refine ⟨result, final, success, executed, ?_⟩
  have stays : sharedKeys[3] ∈ retained sharedKeys := List.mem_of_getElem? (i := 2) rfl
  obtain ⟨_, _, _, ordered⟩ := run_steps_ordered sharedKeys default [] {} success
  exact ordered 3 sharedKeys[3] stays executed "shared" (by decide)

end RestPlugin.Pipeline
