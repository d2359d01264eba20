import RestPlugin.Proofs.Pipeline.Blocking

/-!
# Running orders

What `runOrder` does to pending helpers, whatever their dependencies look like: it applies each of
them at most once, each after the dependencies it has inside the stage, and it stops only when no
helper that is left is ready.
-/

namespace RestPlugin.Pipeline

variable {α : Type}

/-! ## Picking a helper -/

/-- Nothing is picked exactly if there is nothing to pick from. -/
theorem pick_eq_none_iff (helpers : List (Helper α)) : pick helpers = none ↔ helpers = [] := by
  cases helpers with
  | nil => simp [pick]
  | cons helper rest => cases picked : pick rest <;> simp [pick, picked]

theorem mem_of_pick_eq_some {helpers : List (Helper α)} {helper : Helper α}
    (picked : pick helpers = some helper) : helper ∈ helpers := by
  induction helpers generalizing helper with
  | nil => simp [pick] at picked
  | cons first rest ih =>
      cases best : pick rest with
      | none =>
          simp only [pick, best, Option.some.injEq] at picked
          simp [picked]
      | some other =>
          simp only [pick, best, Option.some.injEq] at picked
          split at picked
          · exact List.mem_cons_of_mem first (picked ▸ ih best)
          · simp [picked]

/-- A helper is ready exactly if all its dependencies of the stage are done. -/
theorem isReady_iff (stageKeys done : List String) (helper : Helper α) :
    isReady stageKeys done helper = true ↔
      ∀ dependency ∈ helper.dependsOn, dependency ∈ stageKeys → dependency ∈ done := by
  simp only [isReady, List.all_eq_true, Bool.or_eq_true, Bool.not_eq_true', List.contains_eq_mem,
    decide_eq_true_eq, decide_eq_false_iff_not]
  constructor
  · intro ready dependency member inStage
    exact (ready dependency member).resolve_left (not_not_intro inStage)
  · intro ready dependency member
    by_cases inStage : dependency ∈ stageKeys
    · exact Or.inr (ready dependency member inStage)
    · exact Or.inl inStage

/-! ## One step and whole runs -/

/-- One step either finds nothing ready and stops, or applies a ready helper and goes on without
it. -/
theorem runOrder_succ_cases (stageKeys : List String) (fuel : Nat) (done : List String)
    (pending : List (Helper α)) :
    (runOrder stageKeys (fuel + 1) done pending = [] ∧
        ∀ helper ∈ pending, ¬isReady stageKeys done helper = true) ∨
      ∃ next ∈ pending, isReady stageKeys done next = true ∧
        runOrder stageKeys (fuel + 1) done pending =
          next :: runOrder stageKeys fuel (next.key :: done)
            (pending.filter fun helper => !(helper.key == next.key)) := by
  cases picked : pick (pending.filter (isReady stageKeys done)) with
  | none =>
      left
      refine ⟨by simp [runOrder, picked], ?_⟩
      rw [pick_eq_none_iff] at picked
      exact List.filter_eq_nil_iff.mp picked
  | some next =>
      right
      obtain ⟨nextMem, nextReady⟩ := List.mem_filter.mp (mem_of_pick_eq_some picked)
      exact ⟨next, nextMem, nextReady, by simp [runOrder, picked]⟩

/-- The helpers that remain after one are those with other keys. -/
theorem mem_filter_key_ne {pending : List (Helper α)} {next helper : Helper α} :
    helper ∈ pending.filter (fun other => !(other.key == next.key)) ↔
      helper ∈ pending ∧ helper.key ≠ next.key := by
  simp

/-- Only pending helpers are applied. -/
theorem mem_of_mem_runOrder {stageKeys : List String} {fuel : Nat} {done : List String}
    {pending : List (Helper α)} {helper : Helper α}
    (applied : helper ∈ runOrder stageKeys fuel done pending) : helper ∈ pending := by
  induction fuel generalizing done pending with
  | zero => simp [runOrder] at applied
  | succ fuel ih =>
      rcases runOrder_succ_cases stageKeys fuel done pending with
        ⟨stopped, _⟩ | ⟨next, nextMem, _, goesOn⟩
      · simp [stopped] at applied
      · rw [goesOn, List.mem_cons] at applied
        rcases applied with rfl | later
        · exact nextMem
        · exact (mem_filter_key_ne.mp (ih later)).1

/-- No key is applied twice. -/
theorem keys_runOrder_nodup (stageKeys : List String) (fuel : Nat) (done : List String)
    (pending : List (Helper α)) : (keys (runOrder stageKeys fuel done pending)).Nodup := by
  induction fuel generalizing done pending with
  | zero => simp [runOrder, keys]
  | succ fuel ih =>
      rcases runOrder_succ_cases stageKeys fuel done pending with
        ⟨stopped, _⟩ | ⟨next, _, _, goesOn⟩
      · simp [stopped, keys]
      · rw [goesOn, keys, List.map_cons, List.nodup_cons]
        refine ⟨?_, ih _ _⟩
        intro again
        obtain ⟨helper, later, keyEq⟩ := List.mem_map.mp again
        exact (mem_filter_key_ne.mp (mem_of_mem_runOrder later)).2 keyEq

/-- Whatever a helper depends on inside the stage was done before it. -/
theorem runOrder_dependency {stageKeys : List String} {fuel : Nat} {done : List String}
    {pending before after : List (Helper α)} {helper : Helper α}
    (split : runOrder stageKeys fuel done pending = before ++ helper :: after)
    {dependency : String} (member : dependency ∈ helper.dependsOn)
    (inStage : dependency ∈ stageKeys) : dependency ∈ done ∨ dependency ∈ keys before := by
  induction fuel generalizing done pending before with
  | zero => simp [runOrder] at split
  | succ fuel ih =>
      rcases runOrder_succ_cases stageKeys fuel done pending with
        ⟨stopped, _⟩ | ⟨next, _, nextReady, goesOn⟩
      · simp [stopped] at split
      · rw [goesOn] at split
        cases before with
        | nil =>
            rw [List.nil_append, List.cons.injEq] at split
            rw [split.1, isReady_iff] at nextReady
            exact Or.inl (nextReady dependency member inStage)
        | cons first rest =>
            rw [List.cons_append, List.cons.injEq] at split
            rcases ih split.2 with doneOrNext | earlier
            · rcases List.mem_cons.mp doneOrNext with isNext | old
              · right
                rw [isNext, split.1]
                exact key_mem_keys List.mem_cons_self
              · exact Or.inl old
            · exact Or.inr (List.mem_cons_of_mem first.key earlier)

/-- A run with enough fuel leaves no helper over that is ready after it. -/
theorem mem_keys_runOrder {stageKeys : List String} {fuel : Nat} {done : List String}
    {pending : List (Helper α)} (enough : pending.length ≤ fuel) {helper : Helper α}
    (member : helper ∈ pending)
    (ready : ∀ dependency ∈ helper.dependsOn, dependency ∈ stageKeys →
      dependency ∈ done ∨ dependency ∈ keys (runOrder stageKeys fuel done pending)) :
    helper.key ∈ keys (runOrder stageKeys fuel done pending) := by
  induction fuel generalizing done pending with
  | zero =>
      have noneLeft : pending = [] := List.length_eq_zero_iff.mp (Nat.le_zero.mp enough)
      simp [noneLeft] at member
  | succ fuel ih =>
      rcases runOrder_succ_cases stageKeys fuel done pending with
        ⟨stopped, noneReady⟩ | ⟨next, nextMem, _, goesOn⟩
      · refine absurd ?_ (noneReady helper member)
        rw [isReady_iff]
        intro dependency dependencyMem inStage
        simpa [stopped, keys] using ready dependency dependencyMem inStage
      · rw [goesOn] at ready ⊢
        by_cases keyEq : helper.key = next.key
        · rw [keyEq]
          exact key_mem_keys List.mem_cons_self
        · refine List.mem_cons_of_mem next.key (ih ?_ (mem_filter_key_ne.mpr ⟨member, keyEq⟩) ?_)
          · have shorter : (pending.filter fun other => !(other.key == next.key)).length <
                pending.length :=
              List.length_filter_lt_length_iff_exists.mpr ⟨next, nextMem, by simp⟩
            omega
          · intro dependency dependencyMem inStage
            rcases ready dependency dependencyMem inStage with old | later
            · exact Or.inl (List.mem_cons_of_mem next.key old)
            · rcases List.mem_cons.mp later with isNext | laterStill
              · exact Or.inl (isNext ▸ List.mem_cons_self)
              · exact Or.inr laterStill

end RestPlugin.Pipeline
