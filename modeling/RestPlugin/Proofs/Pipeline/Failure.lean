import RestPlugin.Proofs.Pipeline.Report

/-!
# Failing runs

A run that fails either stops at the first helper that fails, or between the stages because the
draft is incomplete.  The helpers before that point were applied once each, in the order of the
schedules, with one completed event for each, and nothing is done after it: the context is the one
that the failing helper left behind.
-/

namespace RestPlugin.Pipeline

open Report

/-! ## Applying helpers -/

section Applied

variable {ι ω : Type} {stage : Stage} {input : ι} {helper : Helper (ι → Action ω)}
  {helpers rest : List (Helper (ι → Action ω))} {output last : ω} {context final : Context}

/-- Helpers are applied one after another, each of them once.  A helper gets the output that the one
before it left.  Its start is noted before it is called, and one completed event is recorded for it
afterwards. -/
inductive Applied (stage : Stage) (input : ι) :
    List (Helper (ι → Action ω)) → ω → Context → ω → Context → Prop
  | nil (output : ω) (context : Context) : Applied stage input [] output context output context
  | cons {helper : Helper (ι → Action ω)} {rest : List (Helper (ι → Action ω))}
      {output next last : ω} {context after final : Context}
      (called : helper.action input output (context.start helper.kind helper.key) =
        (.ok next, after))
      (later : Applied stage input rest next (after.completed helper.kind helper.key) last final) :
      Applied stage input (helper :: rest) output context last final

/-- Helpers succeed exactly if they can be applied one after another. -/
theorem applyAll_eq_ok_iff :
    applyAll stage input helpers output context = (.ok last, final) ↔
      Applied stage input helpers output context last final := by
  constructor
  · intro done
    induction helpers generalizing output context with
    | nil =>
        cases done
        exact .nil _ _
    | cons helper rest ih =>
        rw [applyAll] at done
        split at done
        · cases done
        · rename_i next after called
          exact .cons called (ih done)
  · intro applied
    induction applied with
    | nil => rfl
    | cons called later ih =>
        rw [applyAll, called]
        exact ih

/-- Helpers fail at the first one that fails.  Those before it were applied, and the context is the
one that it left behind. -/
theorem applyAll_eq_error_iff {error : Error} :
    applyAll stage input helpers output context = (.error error, final) ↔
      ∃ before helper after reached present failure, helpers = before ++ helper :: after ∧
        Applied stage input before output context reached present ∧
        helper.action input reached (present.start helper.kind helper.key) =
          (.error failure, final) ∧
        error = .helper stage helper.kind helper.key failure := by
  constructor
  · intro failed
    induction helpers generalizing output context with
    | nil => cases failed
    | cons first rest ih =>
        rw [applyAll] at failed
        split at failed
        · rename_i failure left called
          cases failed
          exact ⟨[], first, rest, output, context, failure, rfl, .nil _ _, called, rfl⟩
        · rename_i next left called
          obtain ⟨before, helper, after, reached, present, failure, rfl, applied, failing, rfl⟩ :=
            ih failed
          exact ⟨first :: before, helper, after, reached, present, failure, rfl,
            .cons called applied, failing, rfl⟩
  · rintro ⟨before, helper, after, reached, present, failure, rfl, applied, failing, rfl⟩
    induction applied with
    | nil => rw [List.nil_append, applyAll, failing]
    | cons called later ih =>
        rw [List.cons_append, applyAll, called]
        exact ih failing

end Applied

/-! ## Runs that stop -/

/-- What tells the application of a helper: the stage for which it is registered, the kind that it
states, and its key. -/
structure HelperCall where
  stage : Stage
  kind : Stage
  key : String
deriving DecidableEq, Repr

namespace HelperCall

/-- The stage and the key, for which only one helper can be registered. -/
def slot (call : HelperCall) : Stage × String := (call.stage, call.key)

/-- The kind and the key, by which the run speaks of the helper. -/
def subject (call : HelperCall) : Stage × String := (call.kind, call.key)

end HelperCall

/-- The applications of helpers of a stage. -/
def calls {α : Type} (stage : Stage) (helpers : List (Helper α)) : List HelperCall :=
  helpers.map fun helper => ⟨stage, helper.kind, helper.key⟩

theorem calls_cons {α : Type} (stage : Stage) (helper : Helper α) (rest : List (Helper α)) :
    calls stage (helper :: rest) = ⟨stage, helper.kind, helper.key⟩ :: calls stage rest := rfl

theorem calls_append {α : Type} (stage : Stage) (first second : List (Helper α)) :
    calls stage (first ++ second) = calls stage first ++ calls stage second := List.map_append

theorem map_slot_calls {α : Type} (stage : Stage) (helpers : List (Helper α)) :
    (calls stage helpers).map HelperCall.slot = (keys helpers).map (stage, ·) := by
  rw [calls, keys, List.map_map, List.map_map]
  rfl

/-- The applications of a run in which no helper fails. -/
def plannedCalls (pipeline : Pipeline) : List HelperCall :=
  calls .fragment pipeline.fragmentSchedule.order ++ calls .builder pipeline.builderSchedule.order

/-- The helper that an error blames. -/
def Error.call? : Error → Option HelperCall
  | helper stage kind key _ => some ⟨stage, kind, key⟩
  | finalise _ => none

/-- Where a run stops: at a fragment, between the stages, or at a builder.  The list holds the
helpers that were applied until then. -/
inductive Stops (pipeline : Pipeline) (loaded : Config.Loaded) (context : Context) :
    List HelperCall → Error → Context → Prop
  | fragment {before after : List (Helper (Config.Loaded → Action Ir.Draft))}
      {helper : Helper (Config.Loaded → Action Ir.Draft)} {draft : Ir.Draft}
      {present final : Context} {failure : Failure}
      (order : pipeline.fragmentSchedule.order = before ++ helper :: after)
      (applied : Applied .fragment loaded before {} (context.setPhase (some .fragment)) draft
        present)
      (failed : helper.action loaded draft (present.start helper.kind helper.key) =
        (.error failure, final)) :
      Stops pipeline loaded context (calls .fragment before)
        (.helper .fragment helper.kind helper.key failure) final
  | between {draft : Ir.Draft} {final : Context} {error : Ir.Error}
      (fragments : Applied .fragment loaded pipeline.fragmentSchedule.order {}
        (context.setPhase (some .fragment)) draft final)
      (failed : draft.finalise = .error error) :
      Stops pipeline loaded context (calls .fragment pipeline.fragmentSchedule.order)
        (.finalise error) final
  | builder {draft : Ir.Draft} {between : Context} {ir : Ir}
      {before after : List (Helper (Ir → Action Output.Queue))}
      {helper : Helper (Ir → Action Output.Queue)} {queue : Output.Queue}
      {present final : Context} {failure : Failure}
      (fragments : Applied .fragment loaded pipeline.fragmentSchedule.order {}
        (context.setPhase (some .fragment)) draft between)
      (finalised : draft.finalise = .ok ir)
      (order : pipeline.builderSchedule.order = before ++ helper :: after)
      (applied : Applied .builder ir before [] (between.setPhase (some .builder)) queue present)
      (failed : helper.action ir queue (present.start helper.kind helper.key) =
        (.error failure, final)) :
      Stops pipeline loaded context
        (calls .fragment pipeline.fragmentSchedule.order ++ calls .builder before)
        (.helper .builder helper.kind helper.key failure) final

section Stops

variable {pipeline : Pipeline} {loaded : Config.Loaded} {requested : List String}
  {context final : Context} {error : Error} {ran : List HelperCall}

/-- A run that fails stops at one place. -/
theorem exists_stops_of_run
    (failed : pipeline.run loaded requested context = (.error error, final)) :
    ∃ ran, Stops pipeline loaded context ran error final := by
  rw [run] at failed
  split at failed
  · rename_i fragmentsFailed
    cases failed
    obtain ⟨before, helper, after, draft, present, failure, order, applied, called, rfl⟩ :=
      applyAll_eq_error_iff.mp fragmentsFailed
    exact ⟨_, .fragment order applied called⟩
  · rename_i draft between fragmentsApplied
    have fragments := applyAll_eq_ok_iff.mp fragmentsApplied
    split at failed
    · rename_i incomplete
      cases failed
      exact ⟨_, .between fragments incomplete⟩
    · rename_i ir finalised
      split at failed
      · rename_i buildersFailed
        cases failed
        obtain ⟨before, helper, after, queue, present, failure, order, applied, called, rfl⟩ :=
          applyAll_eq_error_iff.mp buildersFailed
        exact ⟨_, .builder fragments finalised order applied called⟩
      · cases failed

/-- A run that stops fails with the error of the place. -/
theorem Stops.run_eq (stops : Stops pipeline loaded context ran error final) :
    pipeline.run loaded requested context = (.error error, final) := by
  cases stops with
  | fragment order applied called =>
      have fragmentsFailed := applyAll_eq_error_iff.mpr
        ⟨_, _, _, _, _, _, order, applied, called, rfl⟩
      rw [run, fragmentsFailed]
  | between fragments incomplete =>
      rw [run, applyAll_eq_ok_iff.mpr fragments]
      dsimp only
      rw [incomplete]
  | builder fragments finalised order applied called =>
      have buildersFailed := applyAll_eq_error_iff.mpr
        ⟨_, _, _, _, _, _, order, applied, called, rfl⟩
      rw [run, applyAll_eq_ok_iff.mpr fragments]
      dsimp only
      rw [finalised]
      dsimp only
      rw [buildersFailed]

/-- A run fails exactly if it stops, with the same error and context. -/
theorem run_eq_error_iff :
    pipeline.run loaded requested context = (.error error, final) ↔
      ∃ ran, Stops pipeline loaded context ran error final :=
  ⟨exists_stops_of_run, fun ⟨_, stops⟩ => stops.run_eq⟩

/-- The helpers that were applied are the first ones of the schedules, and the next one is the one
that failed. -/
theorem Stops.isPrefix (stops : Stops pipeline loaded context ran error final) :
    ran ++ error.call?.toList <+: pipeline.plannedCalls := by
  cases stops with
  | @fragment before after helper draft present final failure order applied failed =>
      refine ⟨calls .fragment after ++ calls .builder pipeline.builderSchedule.order, ?_⟩
      rw [plannedCalls, order, calls_append]
      simp only [Error.call?, Option.toList_some, calls_cons, List.append_assoc,
        List.singleton_append]
      rfl
  | between fragments failed =>
      rw [Error.call?, Option.toList_none, List.append_nil]
      exact List.prefix_append _ _
  | @builder draft between ir before after helper queue present final failure fragments finalised
      order applied failed =>
      refine ⟨calls .builder after, ?_⟩
      rw [plannedCalls, order, calls_append]
      simp only [Error.call?, Option.toList_some, calls_cons, List.append_assoc]
      rfl

/-- No helper is planned twice. -/
theorem nodup_plannedCalls (pipeline : Pipeline) :
    (pipeline.plannedCalls.map HelperCall.slot).Nodup := by
  have injective (stage : Stage) : Function.Injective (Prod.mk stage : String → Stage × String) :=
    fun _ _ same => congrArg Prod.snd same
  rw [plannedCalls, List.map_append, map_slot_calls, map_slot_calls, List.nodup_append]
  refine ⟨(keys_schedule_order_nodup _ _ _).map (injective _),
    (keys_schedule_order_nodup _ _ _).map (injective _), ?_⟩
  intro slot inFragments other inBuilders same
  obtain ⟨_, -, rfl⟩ := List.mem_map.mp inFragments
  obtain ⟨_, -, rfl⟩ := List.mem_map.mp inBuilders
  cases congrArg Prod.fst same

end Stops

/-! ## What is noted during a run -/

/-- A part of the context that grows when a helper starts and when it is completed, and on nothing
else that the run does by itself before its end. -/
structure Ledger (β : Type) where
  view : Context → List β
  atStart : Stage × String → List β
  atEnd : Stage × String → List β
  view_start : ∀ context kind key,
    view (Context.start context kind key) = view context ++ atStart (kind, key)
  view_completed : ∀ context kind key,
    view (Context.completed context kind key) = view context ++ atEnd (kind, key)
  view_setPhase : ∀ context phase, view (Context.setPhase context phase) = view context

/-- No helper of the pipeline touches what can be seen of the context through `view`. -/
def Untouched {β : Type} (view : Context → β) (pipeline : Pipeline) : Prop :=
  (∀ helper ∈ pipeline.fragments, ∀ loaded draft context,
    view (helper.action loaded draft context).2 = view context) ∧
  ∀ helper ∈ pipeline.builders, ∀ ir queue context,
    view (helper.action ir queue context).2 = view context

namespace Ledger

variable {β : Type} (ledger : Ledger β)

/-- What the application of a helper adds. -/
def both (call : HelperCall) : List β := ledger.atStart call.subject ++ ledger.atEnd call.subject

/-- What helpers do not touch is the same after them, but for what the run adds at the start and
the end of each. -/
theorem view_applied {ι ω : Type} {stage : Stage} {input : ι}
    {helpers : List (Helper (ι → Action ω))} {output last : ω} {context final : Context}
    (applied : Applied stage input helpers output context last final)
    (untouched : ∀ helper ∈ helpers, ∀ output context,
      ledger.view (helper.action input output context).2 = ledger.view context) :
    ledger.view final = ledger.view context ++ (calls stage helpers).flatMap ledger.both := by
  induction applied with
  | nil output context => exact (List.append_nil _).symm
  | @cons helper rest output next last context after final called later ih =>
      have left := untouched helper List.mem_cons_self output (context.start helper.kind helper.key)
      rw [called, ledger.view_start] at left
      rw [ih fun other member => untouched other (List.mem_cons_of_mem _ member),
        ledger.view_completed, left]
      simp only [calls_cons, both, HelperCall.subject, List.flatMap_cons, List.append_assoc]

/-- A run that stops has noted the start and the end of every helper that was applied, and the start
of the one that failed. -/
theorem view_stops {pipeline : Pipeline} {loaded : Config.Loaded} {context final : Context}
    {ran : List HelperCall} {error : Error} (untouched : Untouched ledger.view pipeline)
    (stops : Stops pipeline loaded context ran error final) :
    ledger.view final = ledger.view context ++ ran.flatMap ledger.both ++
      (error.call?.toList.map HelperCall.subject).flatMap ledger.atStart := by
  have fragmentsApplied {before : List (Helper (Config.Loaded → Action Ir.Draft))}
      (within : ∀ helper ∈ before, helper ∈ pipeline.fragmentSchedule.order) {draft : Ir.Draft}
      {present : Context} (applied : Applied .fragment loaded before {}
        (context.setPhase (some .fragment)) draft present) :
      ledger.view present =
        ledger.view context ++ (calls .fragment before).flatMap ledger.both := by
    rw [← ledger.view_setPhase context (some .fragment)]
    exact ledger.view_applied applied
      fun helper member => untouched.1 helper (mem_of_mem_order (within helper member)) loaded
  cases stops with
  | @fragment before after helper draft present final failure order applied failed =>
      have left := untouched.1 helper (mem_of_order_eq order) loaded draft
        (present.start helper.kind helper.key)
      rw [failed, ledger.view_start] at left
      rw [left, fragmentsApplied (fun other member => by simp [order, member]) applied]
      simp only [Error.call?, Option.toList_some, List.map_singleton, HelperCall.subject,
        List.flatMap_singleton]
  | between fragments failed =>
      rw [fragmentsApplied (fun _ member => member) fragments]
      simp only [Error.call?, Option.toList_none, List.map_nil, List.flatMap_nil, List.append_nil]
  | @builder draft between ir before after helper queue present final failure fragments finalised
      order applied failed =>
      have left := untouched.2 helper (mem_of_order_eq order) ir queue
        (present.start helper.kind helper.key)
      rw [failed, ledger.view_start] at left
      have within (other : Helper (Ir → Action Output.Queue)) (member : other ∈ before) :
          other ∈ pipeline.builderSchedule.order := by
        rw [order]
        exact List.mem_append_left _ member
      have buildersApplied := ledger.view_applied applied
        fun other member => untouched.2 other (mem_of_mem_order (within other member)) ir
      rw [left, buildersApplied, ledger.view_setPhase,
        fragmentsApplied (fun _ member => member) fragments]
      simp only [Error.call?, Option.toList_some, List.map_singleton, HelperCall.subject,
        List.flatMap_singleton, List.flatMap_append, List.append_assoc]

end Ledger

/-- The event that a helper was completed. -/
def completion (subject : Stage × String) : Event where
  name := "helper.completed"
  helper := some subject.2
  payload := some (.obj [("kind", .str subject.1.text)])

/-- The events that helpers were completed. -/
def Context.completions (context : Context) : List Event :=
  context.events.filter fun event => event.name == "helper.completed"

/-- The helpers whose start was noted. -/
def Context.starts (context : Context) : List (Stage × String) :=
  context.journal.filterMap fun
    | .report _ => none
    | .running kind key => some (kind, key)

/-- The completed events: one at the end of every helper. -/
def completionLedger : Ledger Event where
  view := Context.completions
  atStart _ := []
  atEnd subject := [completion subject]
  view_start context kind key := by simp [Context.completions, Context.start]
  view_completed context kind key := by
    simp [Context.completions, Context.completed, Context.record, completion]
  view_setPhase _ _ := rfl

/-- The notes of starts: one for every helper that is called. -/
def startLedger : Ledger (Stage × String) where
  view := Context.starts
  atStart subject := [subject]
  atEnd _ := []
  view_start context kind key := by simp [Context.starts, Context.start]
  view_completed context kind key := by
    simp [Context.starts, Context.completed, Context.record]
  view_setPhase _ _ := rfl

/-- The warnings, to which a run adds none of its own before its end. -/
def warningLedger : Ledger Entry where
  view := Context.warnings
  atStart _ := []
  atEnd _ := []
  view_start context kind key := by simp
  view_completed context kind key := by simp
  view_setPhase _ _ := rfl

section Noted

variable {pipeline : Pipeline} {loaded : Config.Loaded} {context final : Context}
  {ran : List HelperCall} {error : Error}
  (stops : Stops pipeline loaded context ran error final)
include stops

/-- A run that stops has noted as completed what was applied before. -/
theorem completions_of_stops (untouched : Untouched Context.completions pipeline) :
    final.completions = context.completions ++ (ran.map HelperCall.subject).map completion := by
  have noted := completionLedger.view_stops untouched stops
  have atStart :
      (error.call?.toList.map HelperCall.subject).flatMap completionLedger.atStart = [] :=
    List.flatMap_eq_nil_iff.mpr fun _ _ => rfl
  have both : completionLedger.both = fun call => [completion call.subject] := rfl
  rw [atStart, List.append_nil, both, ← List.map_eq_flatMap] at noted
  rw [List.map_map]
  exact noted

/-- A run that stops has noted the start of what was applied before, and of the helper that
failed. -/
theorem starts_of_stops (untouched : Untouched Context.starts pipeline) :
    final.starts =
      context.starts ++ ran.map HelperCall.subject ++
        error.call?.toList.map HelperCall.subject := by
  have noted := startLedger.view_stops untouched stops
  have atStart : startLedger.atStart = fun subject => [subject] := rfl
  have both : startLedger.both = fun call => [call.subject] := rfl
  rw [atStart, both, List.flatMap_singleton', ← List.map_eq_flatMap] at noted
  exact noted

/-- A run that stops has reported no warnings of its own. -/
theorem warnings_of_stops (untouched : Untouched Context.warnings pipeline) :
    final.warnings = context.warnings := by
  have noted := warningLedger.view_stops untouched stops
  have atStart : (error.call?.toList.map HelperCall.subject).flatMap warningLedger.atStart = [] :=
    List.flatMap_eq_nil_iff.mpr fun _ _ => rfl
  have both : ran.flatMap warningLedger.both = [] :=
    List.flatMap_eq_nil_iff.mpr fun _ _ => rfl
  rw [atStart, both, List.append_nil, List.append_nil] at noted
  exact noted

end Noted

/-! ## The helper that fails -/

/-- A run that fails because of a helper has applied exactly the helpers planned before it, each of
them once and in order: all fragments if it is a builder, and those of its own stage that are
scheduled before it.  What the run itself adds to the context until then is one completed event for
each of these, and neither an event for the failing helper nor a warning for a diagnostic.  So much
is seen in the context unless helpers forge, forget or report such things themselves.  The outermost
message names the kind that the failing helper states, and its key. -/
theorem run_stops_at_failing_helper (pipeline : Pipeline) (loaded : Config.Loaded)
    (requested : List String) (context : Context) {stage kind : Stage} {key : String}
    {failure : Failure} {final : Context}
    (failed : pipeline.run loaded requested context =
      (.error (.helper stage kind key failure), final)) :
    ∃ ran : List HelperCall,
      Stops pipeline loaded context ran (.helper stage kind key failure) final ∧
      ran ++ [⟨stage, kind, key⟩] <+: pipeline.plannedCalls ∧
      (ran.map HelperCall.slot ++ [(stage, key)]).Nodup ∧
      (Untouched Context.completions pipeline →
        final.completions = context.completions ++ (ran.map HelperCall.subject).map completion) ∧
      (Untouched Context.starts pipeline →
        final.starts = context.starts ++ ran.map HelperCall.subject ++ [(kind, key)]) ∧
      (Untouched Context.warnings pipeline → final.warnings = context.warnings) ∧
      (Error.helper stage kind key failure).chain.head? =
        some (kind.text ++ " helper \"" ++ key ++ "\" failed") := by
  obtain ⟨ran, stops⟩ := run_eq_error_iff.mp failed
  have isPrefix := stops.isPrefix
  have once := (nodup_plannedCalls pipeline).sublist (isPrefix.sublist.map HelperCall.slot)
  rw [List.map_append] at once
  refine ⟨ran, stops, isPrefix, once, completions_of_stops stops, starts_of_stops stops,
    warnings_of_stops stops, ?_⟩
  rw [String.append_assoc, String.append_assoc]
  rfl

/-- A history in which a builder fails after a fragment and another builder, and before a builder
that depends on it. -/
def fullDisk : List Registration :=
  [.fragment
    { key := "all"
      kind := .fragment
      action := fun _ _ context =>
        (.ok { info := some default, schemas := some [], resources := some [],
               capabilityMap := some default, php := some default }, context) },
   .builder
    { key := "page"
      kind := .builder
      dependsOn := ["all"]
      action := fun _ files context => (.ok files, context) },
   .builder
    { key := "archive"
      kind := .builder
      dependsOn := ["page"]
      action := fun _ _ context => (.error (.other "disk full"), context) },
   .builder
    { key := "index"
      kind := .builder
      dependsOn := ["archive"]
      action := fun _ files context => (.ok files, context) }]

/-- The page was written and completed; the archive was started, and the index was not. -/
theorem run_stops_at_failing_helper_fullDisk :
    ∃ final,
      (ofRegistrations fullDisk).run default [] {} =
        (.error (.helper .builder .builder "archive" (.other "disk full")), final) ∧
      final.completions = [completion (.fragment, "all"), completion (.builder, "page")] ∧
      final.starts = [(.fragment, "all"), (.builder, "page"), (.builder, "archive")] ∧
      final.warnings = [] := by
  obtain ⟨final, failed, started⟩ : ∃ final, (ofRegistrations fullDisk).run default [] {} =
      (.error (.helper .builder .builder "archive" (.other "disk full")), final) ∧
        final.starts = [(.fragment, "all"), (.builder, "page")] ++ [(.builder, "archive")] :=
    ⟨_, rfl, rfl⟩
  have untouched {β : Type} (view : Context → β) : Untouched view (ofRegistrations fullDisk) := by
    constructor
    · exact List.forall_mem_singleton.mpr fun _ _ _ => rfl
    · exact List.forall_mem_cons.mpr ⟨fun _ _ _ => rfl, List.forall_mem_cons.mpr
        ⟨fun _ _ _ => rfl, List.forall_mem_singleton.mpr fun _ _ _ => rfl⟩⟩
  obtain ⟨ran, -, -, -, completions, starts, warnings, -⟩ :=
    run_stops_at_failing_helper (ofRegistrations fullDisk) default [] {} failed
  have subjects : ran.map HelperCall.subject = [(.fragment, "all"), (.builder, "page")] :=
    List.append_cancel_right ((starts (untouched _)).symm.trans started)
  have completed := completions (untouched _)
  rw [subjects] at completed
  exact ⟨final, failed, completed, started, warnings (untouched _)⟩

end RestPlugin.Pipeline
