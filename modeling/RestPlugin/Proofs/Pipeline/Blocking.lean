import Mathlib.Data.List.Nodup
import Mathlib.Logic.Function.Iterate
import Mathlib.Logic.Relation
import RestPlugin.Pipeline.Schedule

/-!
# Obstacles and what they block

A dependency that cannot be met rules its helper out, and with it everything that depends on the
helper, directly or not.  Here this is said by the reflexive transitive closure of the dependency
relation on keys; `blockedKeys`, which computes it in rounds, is exact.

Nothing in this module assumes that the keys of the helpers are distinct.
-/

namespace RestPlugin.Pipeline

open Relation

variable {α : Type}

/-- The keys of a stage are those of its helpers. -/
theorem mem_keys_iff (helpers : List (Helper α)) (key : String) :
    key ∈ keys helpers ↔ ∃ helper ∈ helpers, helper.key = key := by
  simp [keys]

theorem key_mem_keys {helpers : List (Helper α)} {helper : Helper α} (member : helper ∈ helpers) :
    helper.key ∈ keys helpers :=
  (mem_keys_iff helpers helper.key).mpr ⟨helper, member, rfl⟩

/-- Distinct keys tell helpers apart. -/
theorem eq_of_key_eq {helpers : List (Helper α)} (distinct : (keys helpers).Nodup)
    {first second : Helper α} (firstMem : first ∈ helpers) (secondMem : second ∈ helpers)
    (keyEq : first.key = second.key) : first = second :=
  List.inj_on_of_nodup_map distinct firstMem secondMem keyEq

/-! ## First items -/

/-- An item is the first of a list with a property. -/
def IsFirst (Property : String → Prop) (items : List String) (item : String) : Prop :=
  ∃ before after, items = before ++ item :: after ∧ Property item ∧
    ∀ other ∈ before, ¬Property other

/-- A search finds the first item with a property. -/
theorem find?_eq_some_iff_isFirst {test : String → Bool} {items : List String} {item : String} :
    items.find? test = some item ↔ IsFirst (fun other => test other = true) items item := by
  rw [List.find?_eq_some_iff_append]
  constructor
  · rintro ⟨passes, before, after, split, fails⟩
    exact ⟨before, after, split, passes, by simpa using fails⟩
  · rintro ⟨before, after, split, passes, fails⟩
    exact ⟨passes, before, after, split, by simpa using fails⟩

theorem IsFirst.mem {Property : String → Prop} {items : List String} {item : String}
    (first : IsFirst Property items item) : item ∈ items := by
  obtain ⟨before, after, rfl, _, _⟩ := first
  simp

theorem IsFirst.holds {Property : String → Prop} {items : List String} {item : String}
    (first : IsFirst Property items item) : Property item := by
  obtain ⟨_, _, _, holds, _⟩ := first
  exact holds

/-- The first item with a property depends only on what the property says about the items. -/
theorem IsFirst.congr {First Second : String → Prop} {items : List String} {item : String}
    (agree : ∀ item ∈ items, First item ↔ Second item) (first : IsFirst First items item) :
    IsFirst Second items item := by
  obtain ⟨before, after, rfl, holds, fails⟩ := first
  have failsSecond : ∀ other ∈ before, ¬Second other := by
    intro other otherMem holdsOther
    exact fails other otherMem ((agree other (by simp [otherMem])).mpr holdsOther)
  exact ⟨before, after, rfl, (agree item (by simp)).mp holds, failsSecond⟩

/-- Properties that agree on the items have the same first item. -/
theorem isFirst_congr {First Second : String → Prop} {items : List String}
    (agree : ∀ item ∈ items, First item ↔ Second item) (item : String) :
    IsFirst First items item ↔ IsFirst Second items item := by
  constructor
  · exact IsFirst.congr agree
  · exact IsFirst.congr fun other otherMem => (agree other otherMem).symm

/-! ## Obstacles -/

section Obstacles

variable (helpers : List (Helper α)) (available skippedBefore : List String)

/-- A dependency cannot be met: it was skipped in an earlier stage, or it is neither a key of the
stage nor available. -/
def Unmet (dependency : String) : Prop :=
  dependency ∈ skippedBefore ∨ dependency ∉ keys helpers ∧ dependency ∉ available

instance (dependency : String) : Decidable (Unmet helpers available skippedBefore dependency) :=
  inferInstanceAs (Decidable (_ ∨ _ ∧ _))

/-- The obstacle that an unmet dependency is. -/
def obstacleOf (dependency : String) : Obstacle :=
  if dependency ∈ skippedBefore then .skippedBefore else .missing dependency

/-- The obstacle is that of the first dependency that cannot be met. -/
theorem obstacle?_eq_find? (dependencies : List String) :
    obstacle? (keys helpers) available skippedBefore dependencies =
      (dependencies.find? (Unmet helpers available skippedBefore ·)).map
        (obstacleOf skippedBefore) := by
  induction dependencies with
  | nil => rfl
  | cons first rest ih =>
      by_cases skipped : first ∈ skippedBefore
      · simp [obstacle?, Unmet, obstacleOf, skipped]
      · by_cases provided : first ∈ keys helpers ∨ first ∈ available
        · have met : ¬Unmet helpers available skippedBefore first := by
            simp only [Unmet]
            tauto
          rw [List.find?_cons_of_neg (by simpa using met), ← ih]
          simp [obstacle?, skipped, provided]
        · have unmet : Unmet helpers available skippedBefore first := by
            simp only [Unmet]
            tauto
          rw [List.find?_cons_of_pos (by simpa using unmet)]
          simp [obstacle?, skipped, provided, obstacleOf]

/-- A helper has an obstacle exactly if one of its dependencies cannot be met. -/
theorem obstacle?_isSome_iff (dependencies : List String) :
    (obstacle? (keys helpers) available skippedBefore dependencies).isSome = true ↔
      ∃ dependency ∈ dependencies, Unmet helpers available skippedBefore dependency := by
  rw [obstacle?_eq_find?]
  simp

/-- A missing dependency is reported exactly if it is the first one that cannot be met and was not
skipped before. -/
theorem obstacle?_eq_missing_iff (dependencies : List String) (dependency : String) :
    obstacle? (keys helpers) available skippedBefore dependencies = some (.missing dependency) ↔
      IsFirst (Unmet helpers available skippedBefore) dependencies dependency ∧
        dependency ∉ skippedBefore := by
  rw [obstacle?_eq_find?, Option.map_eq_some_iff]
  simp only [find?_eq_some_iff_isFirst, decide_eq_true_eq]
  constructor
  · rintro ⟨found, first, obstacleEq⟩
    by_cases skipped : found ∈ skippedBefore
    · simp [obstacleOf, skipped] at obstacleEq
    · simp only [obstacleOf, skipped, if_false, Obstacle.missing.injEq] at obstacleEq
      subst found
      exact ⟨first, skipped⟩
  · rintro ⟨first, notSkipped⟩
    exact ⟨dependency, first, by simp [obstacleOf, notSkipped]⟩

end Obstacles

/-! ## Blocked keys -/

/-- A helper with the first key depends on the second one. -/
def Depends (helpers : List (Helper α)) (key dependency : String) : Prop :=
  ∃ helper ∈ helpers, helper.key = key ∧ dependency ∈ helper.dependsOn

section Blocked

variable (helpers : List (Helper α)) (available skippedBefore : List String)

/-- A helper with this key has a dependency that cannot be met. -/
def Obstructed (key : String) : Prop :=
  ∃ helper ∈ helpers, helper.key = key ∧
    ∃ dependency ∈ helper.dependsOn, Unmet helpers available skippedBefore dependency

/-- A helper with this key has a dependency that cannot be met, or depends on such a helper through
other helpers of the stage. -/
def Blocked (key : String) : Prop :=
  ∃ source, ReflTransGen (Depends helpers) key source ∧
    Obstructed helpers available skippedBefore source

variable {helpers available skippedBefore}

/-- A helper with a dependency that cannot be met is blocked. -/
theorem Obstructed.blocked {key : String}
    (obstructed : Obstructed helpers available skippedBefore key) :
    Blocked helpers available skippedBefore key :=
  ⟨key, .refl, obstructed⟩

/-- Whatever depends on something blocked is blocked. -/
theorem Blocked.dependant {key dependency : String}
    (blocked : Blocked helpers available skippedBefore dependency)
    (depends : Depends helpers key dependency) : Blocked helpers available skippedBefore key := by
  obtain ⟨source, path, obstructed⟩ := blocked
  exact ⟨source, .head depends path, obstructed⟩

/-- Only keys of the stage are blocked. -/
theorem Blocked.mem_keys {key : String} (blocked : Blocked helpers available skippedBefore key) :
    key ∈ keys helpers := by
  obtain ⟨source, path, helper, helperMem, keyEq, _⟩ := blocked
  rw [mem_keys_iff]
  induction path using ReflTransGen.head_induction_on with
  | refl => exact ⟨helper, helperMem, keyEq⟩
  | head depends _ _ =>
      obtain ⟨first, firstMem, firstKeyEq, _⟩ := depends
      exact ⟨first, firstMem, firstKeyEq⟩

end Blocked

/-- After one round the blocked keys are the old ones of the stage and those of their
dependants. -/
theorem mem_blockDependants_iff (helpers : List (Helper α)) (blocked : List String) (key : String) :
    key ∈ blockDependants helpers blocked ↔
      ∃ helper ∈ helpers, helper.key = key ∧
        (key ∈ blocked ∨ ∃ dependency ∈ helper.dependsOn, dependency ∈ blocked) := by
  simp only [blockDependants, mem_keys_iff, List.mem_filter, Bool.or_eq_true,
    List.contains_iff_mem, List.any_eq_true]
  constructor
  · rintro ⟨helper, ⟨helperMem, reason⟩, rfl⟩
    exact ⟨helper, helperMem, rfl, reason⟩
  · rintro ⟨helper, helperMem, rfl, reason⟩
    exact ⟨helper, ⟨helperMem, reason⟩, rfl⟩

/-- A round keeps the keys of any selection of helpers. -/
theorem sublist_blockDependants (helpers : List (Helper α)) (selected : Helper α → Bool) :
    (keys (helpers.filter selected)).Sublist
      (blockDependants helpers (keys (helpers.filter selected))) := by
  let next := helpers.filter fun helper => (keys (helpers.filter selected)).contains helper.key ||
    helper.dependsOn.any (keys (helpers.filter selected)).contains
  have selectedKept : next.filter selected = helpers.filter selected := by
    rw [List.filter_filter]
    apply List.filter_congr
    intro helper helperMem
    cases isSelected : selected helper with
    | false => rfl
    | true =>
        have keyMem : helper.key ∈ keys (helpers.filter selected) :=
          key_mem_keys (List.mem_filter.mpr ⟨helperMem, isSelected⟩)
        simp [keyMem]
  have nextKept : (next.filter selected).Sublist next := List.filter_sublist
  rw [selectedKept] at nextKept
  exact nextKept.map Helper.key

/-! ## Rounds that come to rest -/

/-- A round that keeps what it is given comes to rest after as many repetitions as the length of the
list can grow. -/
theorem iterate_round_fixed (Holds : List α → Prop) {round : List α → List α} {bound : Nat}
    (keeps : ∀ seen, Holds seen → Holds (round seen))
    (grows : ∀ seen, Holds seen → seen.Sublist (round seen))
    (bounded : ∀ seen, Holds seen → seen.length ≤ bound)
    (rounds : Nat) {seen : List α} (holds : Holds seen) (enough : bound ≤ rounds + seen.length) :
    round (round^[rounds] seen) = round^[rounds] seen := by
  induction rounds generalizing seen with
  | zero =>
      have lengthLe := bounded _ (keeps _ holds)
      exact ((grows _ holds).eq_of_length_le (by omega)).symm
  | succ rounds ih =>
      by_cases rest : round seen = seen
      · rw [Function.iterate_fixed rest]
        exact rest
      · have longer : seen.length < (round seen).length := by
          apply Nat.lt_of_le_of_ne (grows _ holds).length_le
          intro lengthEq
          exact rest ((grows _ holds).eq_of_length lengthEq).symm
        rw [Function.iterate_succ_apply]
        exact ih (keeps _ holds) (by omega)

theorem blockRounds_eq_iterate (helpers : List (Helper α)) (rounds : Nat) (blocked : List String) :
    blockRounds helpers rounds blocked = (blockDependants helpers)^[rounds] blocked := by
  induction rounds generalizing blocked with
  | zero => rfl
  | succ rounds ih => exact ih (blockDependants helpers blocked)

/-- One round for every helper reaches a set of keys that has all its dependants. -/
theorem blockDependants_blockedKeys (helpers : List (Helper α))
    (available skippedBefore : List String) :
    blockDependants helpers (blockedKeys helpers available skippedBefore) =
      blockedKeys helpers available skippedBefore := by
  rw [blockedKeys, blockRounds_eq_iterate]
  refine iterate_round_fixed (fun blocked => ∃ selected, blocked = keys (helpers.filter selected))
    ?_ ?_ ?_ helpers.length ⟨_, rfl⟩ (Nat.le_add_right _ _)
  · intro blocked _
    exact ⟨_, rfl⟩
  · rintro _ ⟨selected, rfl⟩
    exact sublist_blockDependants helpers selected
  · rintro _ ⟨selected, rfl⟩
    rw [keys, List.length_map]
    exact List.length_filter_le _ _

/-- Rounds that start with blocked keys come to blocked keys only. -/
theorem blocked_of_mem_blockRounds {helpers : List (Helper α)}
    {available skippedBefore : List String} {rounds : Nat} {blocked : List String}
    (sound : ∀ key ∈ blocked, Blocked helpers available skippedBefore key)
    {key : String} (member : key ∈ blockRounds helpers rounds blocked) :
    Blocked helpers available skippedBefore key := by
  induction rounds generalizing blocked with
  | zero => exact sound key member
  | succ rounds ih =>
      have soundNext : ∀ other ∈ blockDependants helpers blocked,
          Blocked helpers available skippedBefore other := by
        intro other otherMem
        obtain ⟨helper, helperMem, keyEq, reason⟩ :=
          (mem_blockDependants_iff helpers blocked other).mp otherMem
        rcases reason with old | ⟨dependency, dependencyMem, old⟩
        · exact sound other old
        · exact (sound dependency old).dependant ⟨helper, helperMem, keyEq, dependencyMem⟩
      exact ih soundNext member

theorem mem_blockRounds_of_mem {helpers : List (Helper α)} {rounds : Nat} {blocked : List String}
    {key : String} (inStage : key ∈ keys helpers) (member : key ∈ blocked) :
    key ∈ blockRounds helpers rounds blocked := by
  induction rounds generalizing blocked with
  | zero => exact member
  | succ rounds ih =>
      obtain ⟨helper, helperMem, keyEq⟩ := (mem_keys_iff helpers key).mp inStage
      exact ih ((mem_blockDependants_iff helpers blocked key).mpr
        ⟨helper, helperMem, keyEq, Or.inl member⟩)

/-- The rounds start with the helpers that have an obstacle of their own. -/
theorem mem_keys_filter_obstacle?_iff (helpers : List (Helper α))
    (available skippedBefore : List String) (key : String) :
    key ∈ keys (helpers.filter fun helper =>
        (obstacle? (keys helpers) available skippedBefore helper.dependsOn).isSome) ↔
      Obstructed helpers available skippedBefore key := by
  simp only [mem_keys_iff, List.mem_filter, obstacle?_isSome_iff, Obstructed]
  constructor
  · rintro ⟨helper, ⟨helperMem, unmet⟩, keyEq⟩
    exact ⟨helper, helperMem, keyEq, unmet⟩
  · rintro ⟨helper, helperMem, keyEq, unmet⟩
    exact ⟨helper, ⟨helperMem, unmet⟩, keyEq⟩

/-- The computed keys are exactly the blocked ones. -/
theorem mem_blockedKeys_iff (helpers : List (Helper α)) (available skippedBefore : List String)
    (key : String) :
    key ∈ blockedKeys helpers available skippedBefore ↔
      Blocked helpers available skippedBefore key := by
  have mem_start_iff := mem_keys_filter_obstacle?_iff helpers available skippedBefore
  constructor
  · apply blocked_of_mem_blockRounds
    intro other otherMem
    exact ((mem_start_iff other).mp otherMem).blocked
  · rintro ⟨source, path, obstructed⟩
    induction path using ReflTransGen.head_induction_on with
    | refl =>
        exact mem_blockRounds_of_mem obstructed.blocked.mem_keys
          ((mem_start_iff _).mpr obstructed)
    | head depends _ member =>
        obtain ⟨helper, helperMem, keyEq, dependencyMem⟩ := depends
        rw [← blockDependants_blockedKeys, mem_blockDependants_iff]
        exact ⟨helper, helperMem, keyEq, Or.inr ⟨_, dependencyMem, member⟩⟩

end RestPlugin.Pipeline
