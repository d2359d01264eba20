import Mathlib.Data.List.FinRange
import Mathlib.Data.List.Induction
import Mathlib.Data.Set.List
import Mathlib.Order.Bounds.Defs
import RestPlugin.Proofs.Pipeline.Order

/-!
# Which helpers a schedule runs

A schedule runs exactly the helpers that can run.  The set of their positions is the least one that
has every helper whose dependencies were not skipped before, lie in the set as far as they are keys
of the stage, and are available otherwise; all other helpers are skipped, in registration order.
-/

namespace RestPlugin.Pipeline

variable {α : Type}

section Order

variable {helpers : List (Helper α)} {available skippedBefore : List String}

/-- The helpers that nothing blocks. -/
def unblocked (helpers : List (Helper α)) (available skippedBefore : List String) :
    List (Helper α) :=
  helpers.filter fun helper => !(blockedKeys helpers available skippedBefore).contains helper.key

/-- What is unblocked are the helpers that nothing blocks. -/
theorem mem_unblocked_iff (helper : Helper α) :
    helper ∈ unblocked helpers available skippedBefore ↔
      helper ∈ helpers ∧ ¬Blocked helpers available skippedBefore helper.key := by
  simp [unblocked, mem_blockedKeys_iff]

/-- A schedule orders the helpers that nothing blocks. -/
theorem schedule_order :
    (schedule helpers available skippedBefore).order =
      runOrder (keys helpers) (unblocked helpers available skippedBefore).length []
        (unblocked helpers available skippedBefore) :=
  rfl

theorem schedule_skipped :
    (schedule helpers available skippedBefore).skipped =
      helpers.filter fun helper =>
        !(keys (schedule helpers available skippedBefore).order).contains helper.key :=
  rfl

/-- No key runs twice. -/
theorem keys_schedule_order_nodup (helpers : List (Helper α))
    (available skippedBefore : List String) :
    (keys (schedule helpers available skippedBefore).order).Nodup :=
  keys_runOrder_nodup _ _ _ _

/-- Only what nothing blocks runs. -/
theorem mem_unblocked_of_mem_order {helper : Helper α}
    (applied : helper ∈ (schedule helpers available skippedBefore).order) :
    helper ∈ unblocked helpers available skippedBefore :=
  mem_of_mem_runOrder applied

/-- Only helpers of the stage run. -/
theorem mem_of_mem_order {helper : Helper α}
    (applied : helper ∈ (schedule helpers available skippedBefore).order) :
    helper ∈ helpers :=
  ((mem_unblocked_iff helper).mp (mem_unblocked_of_mem_order applied)).1

theorem mem_of_order_eq {before after : List (Helper α)} {helper : Helper α}
    (split : (schedule helpers available skippedBefore).order = before ++ helper :: after) :
    helper ∈ helpers := by
  have applied : helper ∈ (schedule helpers available skippedBefore).order := by
    simp [split]
  exact mem_of_mem_order applied

/-- A dependency is met once the helpers with certain keys have run. -/
def Met (helpers : List (Helper α)) (available skippedBefore ran : List String)
    (dependency : String) : Prop :=
  dependency ∉ skippedBefore ∧ (dependency ∈ keys helpers → dependency ∈ ran) ∧
    (dependency ∉ keys helpers → dependency ∈ available)

/-- Every helper runs after its dependencies were met. -/
theorem met_of_order_eq {before after : List (Helper α)} {helper : Helper α}
    (split : (schedule helpers available skippedBefore).order = before ++ helper :: after)
    {dependency : String} (member : dependency ∈ helper.dependsOn) :
    Met helpers available skippedBefore (keys before) dependency := by
  have applied : helper ∈ (schedule helpers available skippedBefore).order := by
    simp [split]
  obtain ⟨helperMem, notBlocked⟩ := (mem_unblocked_iff helper).mp
    (mem_unblocked_of_mem_order applied)
  have notUnmet : ¬Unmet helpers available skippedBefore dependency := by
    intro unmet
    apply notBlocked
    exact Obstructed.blocked ⟨helper, helperMem, rfl, dependency, member, unmet⟩
  simp only [Unmet, not_or, not_and, not_not] at notUnmet
  refine ⟨notUnmet.1, ?_, notUnmet.2⟩
  intro inStage
  rw [schedule_order] at split
  exact (runOrder_dependency split member inStage).resolve_left List.not_mem_nil

/-- Distinct keys and met dependencies rule out that a helper is blocked. -/
theorem not_blocked_of_met (distinct : (keys helpers).Nodup) {helper : Helper α}
    (helperMem : helper ∈ helpers)
    (met : ∀ dependency ∈ helper.dependsOn, Met helpers available skippedBefore
      (keys (schedule helpers available skippedBefore).order) dependency) :
    ¬Blocked helpers available skippedBefore helper.key := by
  rintro ⟨source, path, obstructed⟩
  rcases path.cases_head with keyEq | ⟨dependency, ⟨other, otherMem, otherKeyEq, member⟩, rest⟩
  · obtain ⟨other, otherMem, otherKeyEq, dependency, member, unmet⟩ := obstructed
    obtain rfl := eq_of_key_eq distinct otherMem helperMem (otherKeyEq.trans keyEq.symm)
    obtain ⟨notSkipped, _, isAvailable⟩ := met dependency member
    rcases unmet with skipped | ⟨outside, notAvailable⟩
    · exact notSkipped skipped
    · exact notAvailable (isAvailable outside)
  · obtain rfl := eq_of_key_eq distinct otherMem helperMem otherKeyEq
    have blocked : Blocked helpers available skippedBefore dependency := ⟨source, rest, obstructed⟩
    obtain ⟨ran, ranMem, ranKeyEq⟩ :=
      (mem_keys_iff _ dependency).mp ((met dependency member).2.1 blocked.mem_keys)
    exact ((mem_unblocked_iff ran).mp (mem_unblocked_of_mem_order ranMem)).2 (ranKeyEq ▸ blocked)

/-- With distinct keys a helper runs when its key does. -/
theorem key_mem_order_iff (distinct : (keys helpers).Nodup) {helper : Helper α}
    (helperMem : helper ∈ helpers) :
    helper.key ∈ keys (schedule helpers available skippedBefore).order ↔
      helper ∈ (schedule helpers available skippedBefore).order := by
  constructor
  · intro keyMem
    obtain ⟨ran, ranMem, keyEq⟩ := (mem_keys_iff _ helper.key).mp keyMem
    obtain rfl := eq_of_key_eq distinct (mem_of_mem_order ranMem) helperMem keyEq
    exact ranMem
  · exact key_mem_keys

/-- Every helper whose dependencies are met in the end has run. -/
theorem mem_order_of_met (distinct : (keys helpers).Nodup) {helper : Helper α}
    (helperMem : helper ∈ helpers)
    (met : ∀ dependency ∈ helper.dependsOn, Met helpers available skippedBefore
      (keys (schedule helpers available skippedBefore).order) dependency) :
    helper ∈ (schedule helpers available skippedBefore).order := by
  rw [← key_mem_order_iff distinct helperMem]
  apply mem_keys_runOrder le_rfl
  · rw [← unblocked, mem_unblocked_iff]
    exact ⟨helperMem, not_blocked_of_met distinct helperMem met⟩
  · intro dependency member inStage
    exact Or.inr ((met dependency member).2.1 inStage)

theorem keys_schedule_skipped :
    keys (schedule helpers available skippedBefore).skipped =
      (keys helpers).filter fun key =>
        !(keys (schedule helpers available skippedBefore).order).contains key := by
  rw [schedule_skipped, show keys helpers = helpers.map Helper.key from rfl, List.filter_map]
  rfl

/-- Every helper either runs or is skipped, and none does both. -/
theorem keys_order_append_skipped_perm (available skippedBefore : List String)
    (distinct : (keys helpers).Nodup) :
    (keys (schedule helpers available skippedBefore).order ++
      keys (schedule helpers available skippedBefore).skipped).Perm (keys helpers) := by
  have orderSubset : ∀ key ∈ keys (schedule helpers available skippedBefore).order,
      key ∈ keys helpers := by
    intro key keyMem
    obtain ⟨helper, applied, rfl⟩ := (mem_keys_iff _ key).mp keyMem
    exact key_mem_keys (mem_of_mem_order applied)
  have apart : (keys (schedule helpers available skippedBefore).order ++
      keys (schedule helpers available skippedBefore).skipped).Nodup := by
    rw [keys_schedule_skipped, List.nodup_append]
    refine ⟨keys_schedule_order_nodup _ _ _, distinct.filter _, ?_⟩
    rintro key ran _ skipped rfl
    simp [ran] at skipped
  rw [List.perm_ext_iff_of_nodup apart distinct]
  intro key
  rw [List.mem_append, keys_schedule_skipped, List.mem_filter]
  by_cases ran : key ∈ keys (schedule helpers available skippedBefore).order
  · simp [ran, orderSubset key ran]
  · simp [ran]

/-- The dependencies of a helper are met by those that run before it. -/
theorem met_of_getElem?_order {position : Nat} {helper : Helper α}
    (found : (schedule helpers available skippedBefore).order[position]? = some helper)
    {dependency : String} (member : dependency ∈ helper.dependsOn) :
    Met helpers available skippedBefore
      (keys ((schedule helpers available skippedBefore).order.take position)) dependency := by
  obtain ⟨inRange, rfl⟩ := List.getElem?_eq_some_iff.mp found
  have split := List.take_append_drop position
    (schedule helpers available skippedBefore).order
  rw [List.drop_eq_getElem_cons inRange] at split
  exact met_of_order_eq split.symm member

end Order

/-! ## Positions -/

section Positions

variable (helpers : List (Helper α)) (available skippedBefore : List String)

/-- The helper at a position can run once those at certain positions do: each of its dependencies
was not skipped before, is the key of no helper outside these positions, and is available unless it
is a key of the stage. -/
def CanRun (running : Set (Fin helpers.length)) (position : Fin helpers.length) : Prop :=
  ∀ dependency ∈ (helpers.get position).dependsOn,
    dependency ∉ skippedBefore ∧
    (∀ other, (helpers.get other).key = dependency → other ∈ running) ∧
    ((∀ other, (helpers.get other).key ≠ dependency) → dependency ∈ available)

variable {helpers available skippedBefore}

/-- A key of a stage stands at one of its positions. -/
theorem mem_keys_iff_get {key : String} :
    key ∈ keys helpers ↔ ∃ position, (helpers.get position).key = key := by
  rw [mem_keys_iff]
  constructor
  · rintro ⟨helper, helperMem, keyEq⟩
    obtain ⟨position, rfl⟩ := List.mem_iff_get.mp helperMem
    exact ⟨position, keyEq⟩
  · rintro ⟨position, keyEq⟩
    exact ⟨helpers.get position, List.get_mem helpers position, keyEq⟩

/-- Once everything that runs is in a set, a helper can run relative to the set if its dependencies
are met. -/
theorem canRun_of_met (distinct : (keys helpers).Nodup) {ran : List (Helper α)}
    (ranSubset : ∀ helper ∈ ran, helper ∈ helpers) {running : Set (Fin helpers.length)}
    (ranRunning : ∀ position, helpers.get position ∈ ran → position ∈ running)
    {position : Fin helpers.length}
    (met : ∀ dependency ∈ (helpers.get position).dependsOn,
      Met helpers available skippedBefore (keys ran) dependency) :
    CanRun helpers available skippedBefore running position := by
  intro dependency member
  obtain ⟨notSkipped, hasRun, isAvailable⟩ := met dependency member
  refine ⟨notSkipped, ?_, ?_⟩
  · intro other otherKeyEq
    obtain ⟨helper, helperRan, keyEq⟩ :=
      (mem_keys_iff ran dependency).mp (hasRun (mem_keys_iff_get.mpr ⟨other, otherKeyEq⟩))
    obtain rfl := eq_of_key_eq distinct (ranSubset _ helperRan) (List.get_mem helpers other)
      (keyEq.trans otherKeyEq.symm)
    exact ranRunning other helperRan
  · intro outside
    apply isAvailable
    rw [mem_keys_iff_get]
    rintro ⟨other, otherKeyEq⟩
    exact outside other otherKeyEq

/-- Everything that runs lies in every set that has all helpers that can run relative to it. -/
theorem order_subset_of_closed (distinct : (keys helpers).Nodup)
    {running : Set (Fin helpers.length)}
    (closed : ∀ position, CanRun helpers available skippedBefore running position →
      position ∈ running)
    (before after : List (Helper α))
    (split : (schedule helpers available skippedBefore).order = before ++ after)
    (position : Fin helpers.length) (applied : helpers.get position ∈ before) :
    position ∈ running := by
  -- Along the order: what ran so far lies in the set, so the next helper can run relative to it.
  induction before using List.reverseRecOn generalizing after position with
  | nil => simp at applied
  | append_singleton before next ih =>
      rw [List.append_assoc, List.singleton_append] at split
      rcases List.mem_append.mp applied with earlier | isNext
      · exact ih (next :: after) split position earlier
      · rw [List.mem_singleton] at isNext
        subst next
        apply closed
        refine canRun_of_met distinct ?_ (ih _ split) fun dependency member =>
          met_of_order_eq split member
        intro helper helperMem
        have applied : helper ∈ (schedule helpers available skippedBefore).order := by
          simp [split, helperMem]
        exact mem_of_mem_order applied

/-- The positions of the helpers that run, in the order in which they do. -/
theorem exists_order_positions :
    ∃ order : List (Fin helpers.length),
      (schedule helpers available skippedBefore).order = order.map helpers.get ∧
        order.Nodup := by
  have inRange : (schedule helpers available skippedBefore).order ∈
      Set.range (List.map helpers.get) := by
    rw [Set.range_list_map]
    intro helper applied
    rw [Set.range_list_get]
    exact mem_of_mem_order applied
  obtain ⟨order, orderEq⟩ := inRange
  have keysDistinct := keys_schedule_order_nodup helpers available skippedBefore
  rw [← orderEq, keys, List.map_map] at keysDistinct
  exact ⟨order, orderEq.symm, keysDistinct.of_map _⟩

/-- A schedule runs exactly the helpers that can run, each of them once, and skips all others in
registration order. -/
theorem schedule_order_isLeast (distinct : (keys helpers).Nodup) :
    ∃ order : List (Fin helpers.length),
      (schedule helpers available skippedBefore).order = order.map helpers.get ∧
      order.Nodup ∧
      IsLeast {running : Set (Fin helpers.length) |
          ∀ position, CanRun helpers available skippedBefore running position → position ∈ running}
        {position | position ∈ order} ∧
      (schedule helpers available skippedBefore).skipped =
        ((List.finRange helpers.length).filter (· ∉ order)).map helpers.get := by
  obtain ⟨order, orderEq, orderNodup⟩ := exists_order_positions
  have getInjective : Function.Injective helpers.get :=
    List.nodup_iff_injective_get.mp (distinct.of_map Helper.key)
  have get_mem_iff : ∀ position,
      helpers.get position ∈ (schedule helpers available skippedBefore).order ↔
        position ∈ order := by
    intro position
    rw [orderEq, List.mem_map_of_injective getInjective]
  refine ⟨order, orderEq, orderNodup, ⟨?_, ?_⟩, ?_⟩
  · intro position canRun
    change position ∈ order
    rw [← get_mem_iff]
    apply mem_order_of_met distinct (List.get_mem helpers position)
    intro dependency member
    obtain ⟨notSkipped, hasRun, isAvailable⟩ := canRun dependency member
    refine ⟨notSkipped, ?_, ?_⟩
    · intro inStage
      obtain ⟨other, rfl⟩ := mem_keys_iff_get.mp inStage
      exact key_mem_keys ((get_mem_iff other).mpr (hasRun other rfl))
    · intro outside
      apply isAvailable
      intro other otherKeyEq
      exact outside (mem_keys_iff_get.mpr ⟨other, otherKeyEq⟩)
  · intro running closed position applied
    exact order_subset_of_closed distinct closed _ [] (List.append_nil _).symm position
      ((get_mem_iff position).mpr applied)
  · rw [schedule_skipped]
    conv_lhs => rw [← List.map_get_finRange helpers]
    rw [List.filter_map]
    congr 1
    apply List.filter_congr
    intro position _
    rw [List.map_get_finRange]
    simp only [Function.comp_apply, List.contains_eq_mem, ← get_mem_iff position,
      ← key_mem_order_iff distinct (List.get_mem helpers position), decide_not]

end Positions

/-- A stage with a dependency from outside, priorities, a cycle with a dependant, a dependency that
an earlier stage may have skipped, and one that nobody provides. -/
def mixedStage : List (Helper Unit) :=
  [{ key := "late", kind := .builder, dependsOn := ["early", "outside"], action := () },
   { key := "early", kind := .builder, action := () },
   { key := "first", kind := .builder, priority := 5, action := () },
   { key := "left", kind := .builder, dependsOn := ["early", "right"], action := () },
   { key := "right", kind := .builder, dependsOn := ["left"], action := () },
   { key := "beside", kind := .builder, dependsOn := ["left"], action := () },
   { key := "gone", kind := .builder, dependsOn := ["skipped"], action := () },
   { key := "lost", kind := .builder, dependsOn := ["late", "nowhere"], action := () }]

theorem schedule_order_isLeast_mixedStage :
    (keys mixedStage).Nodup ∧
    keys (schedule mixedStage ["outside"] ["skipped"]).order =
      ["first", "early", "late"] ∧
    ∃ order : List (Fin mixedStage.length),
      (schedule mixedStage ["outside"] ["skipped"]).order = order.map mixedStage.get ∧
      order.Nodup ∧
      IsLeast {running : Set (Fin mixedStage.length) |
          ∀ position, CanRun mixedStage ["outside"] ["skipped"] running position →
            position ∈ running}
        {position | position ∈ order} ∧
      (schedule mixedStage ["outside"] ["skipped"]).skipped =
        ((List.finRange mixedStage.length).filter (· ∉ order)).map mixedStage.get := by
  have distinct : (keys mixedStage).Nodup := by decide
  exact ⟨distinct, by decide, schedule_order_isLeast distinct⟩

end RestPlugin.Pipeline
