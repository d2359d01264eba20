import RestPlugin.Proofs.Pipeline.Failure

/-!
# The phase of a context between runs

A run that succeeds leaves its context without a phase.  A run that fails leaves the phase of the
stage in which it stopped, and there it stays: forgetting the events or registering a resource does
not change it, and only a reset or a later run does.  So between runs the phase tells whether a
failure still stands, and in which stage it arose.
-/

namespace RestPlugin.Pipeline

/-! ## Runs -/

/-- The stage in which an error arises.  The representation is completed before the builders
start. -/
def Error.stage : Error → Stage
  | helper stage _ _ _ => stage
  | finalise _ => .fragment

section Stage

variable {ι ω α : Type} {stage : Stage}

/-- Helpers that leave the phase alone are applied without a change of it. -/
theorem phase_applied {input : ι} {helpers : List (Helper (ι → Action ω))} {output last : ω}
    {context final : Context} (applied : Applied stage input helpers output context last final)
    (untouched : ∀ helper ∈ helpers, ∀ output context,
      (helper.action input output context).2.phase = context.phase) :
    final.phase = context.phase := by
  induction applied with
  | nil => rfl
  | @cons helper rest output next last context after final called later ih =>
      have kept := untouched helper List.mem_cons_self output (context.start helper.kind helper.key)
      rw [called] at kept
      exact (ih fun other member => untouched other (List.mem_cons_of_mem _ member)).trans kept

/-- A helper that fails after others have been applied leaves the phase of its stage. -/
theorem phase_failed {input : ι} {before : List (Helper (ι → Action ω))}
    {helper : Helper (ι → Action ω)} {output last : ω} {context present final : Context}
    {failure : Failure} (applied : Applied stage input before output context last present)
    (failed : helper.action input last (present.start helper.kind helper.key) =
      (.error failure, final))
    (untouched : ∀ other ∈ helper :: before, ∀ output context,
      (other.action input output context).2.phase = context.phase) :
    final.phase = context.phase := by
  rw [List.forall_mem_cons] at untouched
  have kept :
      (helper.action input last (present.start helper.kind helper.key)).2.phase = present.phase :=
    untouched.1 last (present.start helper.kind helper.key)
  rw [failed] at kept
  exact kept.trans (phase_applied applied untouched.2)

/-- A helper of an order and those before it are helpers of the stage. -/
theorem mem_of_mem_ran {helpers before after : List (Helper α)} {helper : Helper α}
    {available skippedBefore : List String}
    (split : (schedule helpers available skippedBefore).order = before ++ helper :: after) :
    ∀ other ∈ helper :: before, other ∈ helpers := by
  rw [List.forall_mem_cons]
  exact ⟨mem_of_order_eq split, fun other member =>
    mem_of_mem_order (split ▸ List.mem_append_left _ member)⟩

end Stage

section Runs

variable {pipeline : Pipeline} {loaded : Config.Loaded} {requested : List String}
  {context final : Context} {ran : List HelperCall} {error : Error} {result : Result}

/-- A run that succeeds leaves no phase, whatever its helpers do. -/
theorem phase_of_run_eq_ok
    (success : pipeline.run loaded requested context = (.ok result, final)) :
    final.phase = none := by
  obtain ⟨_, _, after, _, _, _, _, _, rfl⟩ := run_eq_ok success
  have forwarded (context : Context) (diagnostics : List Diagnostic) :
      (diagnostics.foldl forward context).phase = context.phase := by
    induction diagnostics generalizing context with
    | nil => rfl
    | cons diagnostic rest ih => exact ih (forward context diagnostic)
  exact forwarded _ _

/-- A run that stops leaves the phase of the stage in which it stopped. -/
theorem phase_of_stops (untouched : Untouched Context.phase pipeline)
    (stops : Stops pipeline loaded context ran error final) : final.phase = some error.stage := by
  cases stops with
  | fragment order applied failed =>
      exact phase_failed applied failed fun other ran =>
        untouched.1 other (mem_of_mem_ran order other ran) loaded
  | between fragments failed =>
      exact phase_applied fragments fun other member =>
        untouched.1 other (mem_of_mem_order member) loaded
  | builder fragments finalised order applied failed =>
      exact phase_failed applied failed fun other ran =>
        untouched.2 other (mem_of_mem_ran order other ran) _

end Runs

/-! ## Histories -/

/-- What is done with a context between its helpers. -/
inductive Use where
  | run (pipeline : Pipeline) (loaded : Config.Loaded) (requested : List String)
  | clear
  | reset
  | register (name : String)

/-- No helper of a use touches the phase. -/
def Use.LeavesPhase : Use → Prop
  | run pipeline _ _ => Untouched Context.phase pipeline
  | clear | reset | register _ => True

/-- A context with the error that stands: that of the last run, unless it succeeded or the context
was reset since. -/
structure Past where
  context : Context
  standing : Option Error := none

namespace Past

/-- What a use makes of a context. -/
def advance (past : Past) : Use → Past
  | .run pipeline loaded requested =>
      match pipeline.run loaded requested past.context with
      | (.ok _, context) => { context }
      | (.error error, context) => { context, standing := some error }
  | .clear => { past with context := past.context.clear }
  | .reset => { context := past.context.reset }
  | .register name => { past with context := past.context.registerResource name }

/-- What uses make of a context, one after another. -/
def after (past : Past) (uses : List Use) : Past := uses.foldl advance past

theorem phase_registerResource (context : Context) (name : String) :
    (context.registerResource name).phase = context.phase := by
  rw [Context.registerResource]
  split <;> rfl

/-- As long as no failure stands there is no phase. -/
theorem idle_advance {past : Past} (idle : past.standing = none → past.context.phase = none)
    (use : Use) (still : (past.advance use).standing = none) :
    (past.advance use).context.phase = none := by
  cases use with
  | run pipeline loaded requested =>
      rw [advance] at still ⊢
      split at still
      · rename_i result context success
        exact phase_of_run_eq_ok success
      · cases still
  | clear => exact idle still
  | reset => rfl
  | register name => exact (phase_registerResource _ name).trans (idle still)

/-- A use that leaves the phase to the run keeps it at the stage of the failure that stands. -/
theorem phase_advance {past : Past}
    (tells : past.context.phase = past.standing.map Error.stage) {use : Use}
    (leaves : use.LeavesPhase) :
    (past.advance use).context.phase = (past.advance use).standing.map Error.stage := by
  cases use with
  | run pipeline loaded requested =>
      rw [advance]
      split
      · rename_i result context success
        exact phase_of_run_eq_ok success
      · rename_i error context failed
        obtain ⟨ran, stops⟩ := run_eq_error_iff.mp failed
        exact phase_of_stops leaves stops
  | clear => exact tells
  | reset => rfl
  | register name => exact (phase_registerResource _ name).trans tells

theorem idle_after {past : Past} (idle : past.standing = none → past.context.phase = none)
    (uses : List Use) :
    (past.after uses).standing = none → (past.after uses).context.phase = none := by
  induction uses generalizing past with
  | nil => exact idle
  | cons use rest ih => exact ih (idle_advance idle use)

/-- After any uses, the phase is the stage of the failure that stands. -/
theorem phase_after {past : Past} (tells : past.context.phase = past.standing.map Error.stage)
    {uses : List Use} (leave : ∀ use ∈ uses, use.LeavesPhase) :
    (past.after uses).context.phase = (past.after uses).standing.map Error.stage := by
  induction uses generalizing past with
  | nil => exact tells
  | cons use rest ih =>
      exact ih (phase_advance tells (leave use List.mem_cons_self)) fun later member =>
        leave later (List.mem_cons_of_mem _ member)

end Past

/-- However a new context has been used, it has no phase unless a failure stands, that is unless the
last run failed and nothing was reset since.  If the helpers leave the phase alone, and all they
could do to it is to reset the context, then the phase is the stage of the failure that stands. -/
theorem phase_tells_standing_failure (scope : String) (journal : List Note) (uses : List Use) :
    ((Past.after { context := { scope, journal } } uses).standing = none →
      (Past.after { context := { scope, journal } } uses).context.phase = none) ∧
    ((∀ use ∈ uses, use.LeavesPhase) →
      (Past.after { context := { scope, journal } } uses).context.phase =
        (Past.after { context := { scope, journal } } uses).standing.map Error.stage) :=
  ⟨Past.idle_after (fun _ => rfl) uses, Past.phase_after rfl⟩

/-- A history with a fragment that fails. -/
def brokenDraft : List Registration :=
  [.fragment
    { key := "draft"
      kind := .fragment
      action := fun _ _ context => (.error (.other "no draft"), context) }]

/-- A context that is reset after a failing fragment, and used further after a failing builder. -/
def strained : List Use :=
  [.run (ofRegistrations brokenDraft) default [], .reset,
   .run (ofRegistrations fullDisk) default [], .clear, .register "job"]

theorem phase_tells_standing_failure_strained :
    (∀ use ∈ strained, use.LeavesPhase) ∧
    (Past.after { context := {} } strained).standing =
      some (.helper .builder .builder "archive" (.other "disk full")) ∧
    (Past.after { context := {} } strained).context.phase = some .builder := by
  have leave : ∀ use ∈ strained, use.LeavesPhase := by
    simp only [strained, List.forall_mem_cons, Use.LeavesPhase, List.not_mem_nil, false_implies,
      implies_true, and_true, true_and]
    refine ⟨⟨List.forall_mem_singleton.mpr fun _ _ _ => rfl, List.forall_mem_nil _⟩,
      List.forall_mem_singleton.mpr fun _ _ _ => rfl, ?_⟩
    exact List.forall_mem_cons.mpr ⟨fun _ _ _ => rfl, List.forall_mem_cons.mpr
      ⟨fun _ _ _ => rfl, List.forall_mem_singleton.mpr fun _ _ _ => rfl⟩⟩
  have stands : (Past.after { context := {} } strained).standing =
      some (.helper .builder .builder "archive" (.other "disk full")) := by rfl
  refine ⟨leave, stands, ?_⟩
  rw [(phase_tells_standing_failure "" [] strained).2 leave, stands]
  rfl

/-- After a run with a fragment that fails, the context still has the phase of the fragments. -/
theorem phase_left_by_failing_fragment :
    (Past.after { context := {} } [.run (ofRegistrations brokenDraft) default []]).context.phase =
      some .fragment := by
  rfl

end RestPlugin.Pipeline
