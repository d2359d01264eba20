import RestPlugin.Pipeline.Diagnostic
import RestPlugin.Pipeline.Reach

/-!
# Schedules

The order in which the helpers of one stage run.  A helper runs once everything it depends on has
run; among helpers that could run the highest priority goes first, then the earliest registration.
Helpers that can never run are skipped: those with a dependency that nobody provides, those on a
cycle, and those that depend on a skipped helper.
-/

namespace RestPlugin.Pipeline

variable {α : Type}

/-- What a schedule does with the helpers of a stage. -/
structure Schedule (α : Type) where
  order : List (Helper α)
  skipped : List (Helper α)
  diagnostics : List Diagnostic

/-- Why a dependency rules its helper out. -/
inductive Obstacle where
  | skippedBefore
  | missing (dependency : String)
deriving DecidableEq, Repr

/-- The first obstacle among dependencies.  A dependency has to be a key of the stage or to be
available, and must not have been skipped in an earlier stage. -/
def obstacle? (stageKeys available skippedBefore : List String) : List String → Option Obstacle
  | [] => none
  | dependency :: rest =>
      if skippedBefore.contains dependency then some .skippedBefore
      else if stageKeys.contains dependency || available.contains dependency then
        obstacle? stageKeys available skippedBefore rest
      else some (.missing dependency)

/-- The keys of blocked helpers, with those of the helpers that depend on one of them. -/
def blockDependants (helpers : List (Helper α)) (blocked : List String) : List String :=
  keys (helpers.filter fun helper =>
    blocked.contains helper.key || helper.dependsOn.any blocked.contains)

/-- Repeats `blockDependants`. -/
def blockRounds (helpers : List (Helper α)) : Nat → List String → List String
  | 0, blocked => blocked
  | rounds + 1, blocked => blockRounds helpers rounds (blockDependants helpers blocked)

/-- The keys of all helpers that depend, directly or not, on a helper with an obstacle. -/
def blockedKeys (helpers : List (Helper α)) (available skippedBefore : List String) :
    List String :=
  blockRounds helpers helpers.length
    (keys (helpers.filter fun helper =>
      (obstacle? (keys helpers) available skippedBefore helper.dependsOn).isSome))

/-- Whether all dependencies inside the stage are done. -/
def isReady (stageKeys done : List String) (helper : Helper α) : Bool :=
  helper.dependsOn.all fun dependency => !stageKeys.contains dependency || done.contains dependency

/-- The helper of highest priority, the earliest if there are several. -/
def pick : List (Helper α) → Option (Helper α)
  | [] => none
  | helper :: rest =>
      match pick rest with
      | none => some helper
      | some best => some (if helper.priority < best.priority then best else helper)

/-- Runs pending helpers one after another; `fuel` bounds their number. -/
def runOrder (stageKeys : List String) : Nat → List String → List (Helper α) → List (Helper α)
  | 0, _, _ => []
  | fuel + 1, done, pending =>
      match pick (pending.filter (isReady stageKeys done)) with
      | none => []
      | some next =>
          next :: runOrder stageKeys fuel (next.key :: done)
            (pending.filter fun helper => !(helper.key == next.key))

/-- Where the helper with a key stands. -/
def position? (helpers : List (Helper α)) (key : String) : Option (Fin helpers.length) :=
  helpers.findFinIdx? fun helper => helper.key == key

/-- For every helper, the positions of its dependencies among the helpers. -/
def dependencyEdges (helpers : List (Helper α)) : Edges helpers.length :=
  .ofFn fun position => (helpers.get position).dependsOn.filterMap (position? helpers)

/-- The first dependency through which a helper depends on itself. -/
def cycleDependency? (stuck : List (Helper α)) (helper : Helper α) : Option String :=
  (position? stuck helper.key).bind fun own =>
    (((dependencyEdges stuck).get own).find? fun dependency =>
      reaches (dependencyEdges stuck) dependency own).map fun dependency =>
        (stuck.get dependency).key

/-- The diagnostics of helpers with a dependency that nobody provides. -/
def missingDiagnostics (helpers : List (Helper α)) (available skippedBefore : List String) :
    List Diagnostic :=
  helpers.filterMap fun helper =>
    match obstacle? (keys helpers) available skippedBefore helper.dependsOn with
    | some (.missing dependency) => some (.missingDependency helper.kind helper.key dependency)
    | some .skippedBefore | none => none

/-- The diagnostics of helpers on a cycle. -/
def cycleDiagnostics (stuck : List (Helper α)) : List Diagnostic :=
  stuck.filterMap fun helper =>
    (cycleDependency? stuck helper).map (.dependencyCycle helper.kind helper.key)

/-- Schedules the helpers of a stage.  The keys that earlier stages completed are available; those
that they skipped block their dependants. -/
def schedule (helpers : List (Helper α)) (available skippedBefore : List String) : Schedule α :=
  let blocked := blockedKeys helpers available skippedBefore
  let pending := helpers.filter fun helper => !blocked.contains helper.key
  let order := runOrder (keys helpers) pending.length [] pending
  let stuck := pending.filter fun helper => !(keys order).contains helper.key
  { order
    skipped := helpers.filter fun helper => !(keys order).contains helper.key
    diagnostics := missingDiagnostics helpers available skippedBefore ++
      cycleDiagnostics stuck }

end RestPlugin.Pipeline
