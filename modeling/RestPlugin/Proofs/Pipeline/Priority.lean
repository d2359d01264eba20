import RestPlugin.Proofs.Pipeline.Schedule

/-!
# The order in which helpers run

Of the helpers that could run next, the one of highest priority does, and of several such helpers
the one that was registered first.  This determines the order: no other order of the same helpers
has this property.
-/

namespace RestPlugin.Pipeline

variable {α : Type}

/-! ## Picking the best helper -/

/-- The helper that is picked stands before all others of its priority, and none has a higher
one. -/
theorem exists_split_of_pick_eq_some {helpers : List (Helper α)} {best : Helper α}
    (picked : pick helpers = some best) :
    ∃ before after, helpers = before ++ best :: after ∧
      (∀ other ∈ before, other.priority < best.priority) ∧
      ∀ other ∈ after, other.priority ≤ best.priority := by
  induction helpers generalizing best with
  | nil => simp [pick] at picked
  | cons helper rest ih =>
      cases bestOfRest : pick rest with
      | none =>
          simp only [pick, bestOfRest, Option.some.injEq] at picked
          obtain rfl := (pick_eq_none_iff rest).mp bestOfRest
          exact ⟨[], [], by simp [picked], by simp, by simp⟩
      | some other =>
          obtain ⟨before, after, rfl, lower, notHigher⟩ := ih bestOfRest
          simp only [pick, bestOfRest, Option.some.injEq] at picked
          split at picked
          · rename_i higher
            subst picked
            exact ⟨helper :: before, after, rfl, List.forall_mem_cons.mpr ⟨higher, lower⟩,
              notHigher⟩
          · rename_i notLower
            subst picked
            have bound := not_lt.mp notLower
            refine ⟨[], before ++ other :: after, rfl, by simp, ?_⟩
            rw [List.forall_mem_append, List.forall_mem_cons]
            exact ⟨fun earlier member => (lower earlier member).le.trans bound, bound,
              fun later member => (notHigher later member).trans bound⟩

/-- Each helper that is applied is picked among those that are ready and were not applied before. -/
theorem pick_of_runOrder_eq {stageKeys : List String} {fuel : Nat} {done : List String}
    {pending before after : List (Helper α)} {next : Helper α}
    (split : runOrder stageKeys fuel done pending = before ++ next :: after) :
    pick ((pending.filter fun helper => !(keys before).contains helper.key).filter
      (isReady stageKeys ((keys before).reverse ++ done))) = some next := by
  induction before generalizing fuel done pending with
  | nil =>
      cases fuel with
      | zero => simp [runOrder] at split
      | succ fuel =>
          rw [runOrder] at split
          split at split
          · cases split
          · rename_i picked
            rw [List.nil_append, List.cons.injEq] at split
            simpa [keys, split.1] using picked
  | cons first rest ih =>
      cases fuel with
      | zero => simp [runOrder] at split
      | succ fuel =>
          rw [runOrder] at split
          split at split
          · cases split
          · rename_i best _
            rw [List.cons_append, List.cons.injEq] at split
            obtain ⟨rfl, goesOn⟩ := split
            have left : (pending.filter fun helper => !(keys (best :: rest)).contains helper.key) =
                (pending.filter fun helper => !(helper.key == best.key)).filter
                  fun helper => !(keys rest).contains helper.key := by
              rw [List.filter_filter]
              apply List.filter_congr
              intro helper _
              rw [keys, List.map_cons, ← keys, List.contains_cons, Bool.not_or, Bool.and_comm]
            have done_eq : (keys (best :: rest)).reverse ++ done =
                (keys rest).reverse ++ best.key :: done := by
              simp [keys]
            rw [left, done_eq]
            exact ih goesOn

/-! ## Greedy orders -/

section Greedy

variable (helpers : List (Helper α))

/-- Of two helpers that could run, the one of higher priority goes first, and of two with the same
priority the one that was registered first. -/
def GoesBefore (first second : Fin helpers.length) : Prop :=
  (helpers.get second).priority < (helpers.get first).priority ∨
    (helpers.get second).priority = (helpers.get first).priority ∧ first < second

/-- A helper could run once those at certain positions have: they have all the keys of the stage
among its dependencies. -/
def ReadyAfter (ran : List (Fin helpers.length)) (position : Fin helpers.length) : Prop :=
  ∀ dependency ∈ (helpers.get position).dependsOn, ∀ other,
    (helpers.get other).key = dependency → other ∈ ran

/-- Every helper of the order could run when its turn comes, and it goes before all later ones that
could run then. -/
def IsGreedy (order : List (Fin helpers.length)) : Prop :=
  ∀ before next after, order = before ++ next :: after →
    ReadyAfter helpers before next ∧
      ∀ other ∈ after, ReadyAfter helpers before other → GoesBefore helpers next other

variable {helpers}

/-- Of two helpers only one goes before the other. -/
theorem GoesBefore.asymm {first second : Fin helpers.length}
    (goes : GoesBefore helpers first second) : ¬GoesBefore helpers second first := by
  intro back
  rw [GoesBefore] at goes back
  omega

/-- A greedy order is the only one of its helpers. -/
theorem IsGreedy.eq_of_perm {order other : List (Fin helpers.length)}
    (greedy : IsGreedy helpers order) (otherGreedy : IsGreedy helpers other)
    (same : other.Perm order) : other = order := by
  -- The orders agree up to some position; from there on what remains is a permutation.
  suffices agree : ∀ before rest otherRest, order = before ++ rest → other = before ++ otherRest →
      otherRest.Perm rest → otherRest = rest from agree [] order other rfl rfl same
  intro before rest
  induction rest generalizing before with
  | nil => exact fun otherRest _ _ perm => perm.eq_nil
  | cons next rest ih =>
      intro otherRest orderEq otherEq perm
      cases otherRest with
      | nil => exact absurd perm.symm.eq_nil (List.cons_ne_nil next rest)
      | cons otherNext otherRest =>
          obtain ⟨ready, first⟩ := greedy before next rest orderEq
          obtain ⟨otherReady, otherFirst⟩ := otherGreedy before otherNext otherRest otherEq
          have nextEq : otherNext = next := by
            by_contra differ
            have inRest : otherNext ∈ rest :=
              (List.mem_cons.mp (perm.mem_iff.mp List.mem_cons_self)).resolve_left differ
            have inOtherRest : next ∈ otherRest :=
              (List.mem_cons.mp (perm.mem_iff.mpr List.mem_cons_self)).resolve_left
                (Ne.symm differ)
            exact (first otherNext inRest otherReady).asymm (otherFirst next inOtherRest ready)
          subst nextEq
          congr 1
          exact ih (before ++ [otherNext]) otherRest (by simp [orderEq]) (by simp [otherEq])
            (List.perm_cons otherNext |>.mp perm)

/-- Positions in registration order are ascending. -/
theorem lt_of_pair_sublist (distinct : (keys helpers).Nodup) {first second : Fin helpers.length}
    (pair : [helpers.get first, helpers.get second].Sublist helpers) : first < second := by
  have getInjective : Function.Injective helpers.get :=
    List.nodup_iff_injective_get.mp (distinct.of_map Helper.key)
  obtain ⟨positions, pairEq, ascending⟩ := List.sublist_eq_map_getElem pair
  obtain ⟨firstPosition, later, rfl, firstEq, laterEq⟩ := List.map_eq_cons_iff.mp pairEq.symm
  obtain ⟨secondPosition, none, rfl, secondEq, -⟩ := List.map_eq_cons_iff.mp laterEq
  obtain rfl : firstPosition = first := getInjective firstEq
  obtain rfl : secondPosition = second := getInjective secondEq
  exact List.rel_of_pairwise_cons ascending List.mem_cons_self

end Greedy

/-! ## The order of a schedule -/

section Order

variable {helpers : List (Helper α)} {available skippedBefore : List String}

/-- With distinct keys, a helper is ready after others once their keys are done. -/
theorem isReady_of_readyAfter {ran : List (Fin helpers.length)} {position : Fin helpers.length}
    (ready : ReadyAfter helpers ran position) {done : List String}
    (subset : ∀ key ∈ keys (ran.map helpers.get), key ∈ done) :
    isReady (keys helpers) done (helpers.get position) = true := by
  rw [isReady_iff]
  intro dependency member inStage
  obtain ⟨other, otherKeyEq⟩ := mem_keys_iff_get.mp inStage
  apply subset
  rw [← otherKeyEq]
  exact key_mem_keys (List.mem_map_of_mem (ready dependency member other otherKeyEq))

/-- A helper that could run in place of the next one goes after it. -/
theorem goesBefore_of_order_eq (distinct : (keys helpers).Nodup)
    {before after : List (Fin helpers.length)} {next other : Fin helpers.length}
    (split : (schedule helpers available skippedBefore).order =
      (before ++ next :: after).map helpers.get)
    (nodup : (before ++ next :: after).Nodup) (member : other ∈ after)
    (ready : ReadyAfter helpers before other) : GoesBefore helpers next other := by
  have applied : helpers.get other ∈ (schedule helpers available skippedBefore).order := by
    rw [split]
    exact List.mem_map_of_mem (List.mem_append_right _ (List.mem_cons_of_mem _ member))
  have keysDistinct := keys_schedule_order_nodup helpers available skippedBefore
  rw [split, List.map_append, List.map_cons, keys, List.map_append, List.map_cons] at keysDistinct
  rw [schedule_order, List.map_append, List.map_cons] at split
  obtain ⟨earlier, later, candidatesEq, lower, notHigher⟩ :=
    exists_split_of_pick_eq_some (pick_of_runOrder_eq split)
  have candidate : helpers.get other ∈ earlier ++ helpers.get next :: later := by
    rw [← candidatesEq, List.append_nil, List.mem_filter, List.mem_filter]
    refine ⟨⟨mem_unblocked_of_mem_order applied, ?_⟩,
      isReady_of_readyAfter ready fun _ => List.mem_reverse.mpr⟩
    have apart : (helpers.get other).key ∉ keys (before.map helpers.get) := by
      intro again
      exact (List.nodup_append.mp keysDistinct).2.2 _ again _
        (List.mem_cons_of_mem _ (key_mem_keys (List.mem_map_of_mem member))) rfl
    simpa using apart
  rcases List.mem_append.mp candidate with inEarlier | inRest
  · exact Or.inl (lower _ inEarlier)
  · rcases List.mem_cons.mp inRest with same | inLater
    · have getInjective : Function.Injective helpers.get :=
        List.nodup_iff_injective_get.mp (distinct.of_map Helper.key)
      have nextApart := (List.nodup_cons.mp (List.nodup_append.mp nodup).2.1).1
      exact absurd (getInjective same ▸ member) nextApart
    · rcases (notHigher _ inLater).lt_or_eq with higher | equal
      · exact Or.inl higher
      · refine Or.inr ⟨equal, lt_of_pair_sublist distinct ?_⟩
        have pair : [helpers.get next, helpers.get other].Sublist
            (earlier ++ helpers.get next :: later) :=
          List.sublist_append_of_sublist_right
            ((List.singleton_sublist.mpr inLater).cons_cons _)
        rw [← candidatesEq] at pair
        exact ((pair.trans List.filter_sublist).trans List.filter_sublist).trans
          List.filter_sublist

/-- A helper could run when its turn comes. -/
theorem readyAfter_of_order_eq (distinct : (keys helpers).Nodup)
    {before after : List (Fin helpers.length)} {next : Fin helpers.length}
    (split : (schedule helpers available skippedBefore).order =
      (before ++ next :: after).map helpers.get) : ReadyAfter helpers before next := by
  have getInjective : Function.Injective helpers.get :=
    List.nodup_iff_injective_get.mp (distinct.of_map Helper.key)
  rw [List.map_append, List.map_cons] at split
  intro dependency member other otherKeyEq
  have inStage : dependency ∈ keys helpers := mem_keys_iff_get.mpr ⟨other, otherKeyEq⟩
  obtain ⟨helper, ran, keyEq⟩ := (mem_keys_iff _ dependency).mp
    ((met_of_order_eq split member).2.1 inStage)
  obtain ⟨position, positionMem, rfl⟩ := List.mem_map.mp ran
  obtain rfl : position = other := getInjective
    (eq_of_key_eq distinct (List.get_mem helpers position) (List.get_mem helpers other)
      (keyEq.trans otherKeyEq.symm))
  exact positionMem

/-- Of the helpers that are still to come and could run, a schedule takes the one of highest
priority next, and of several such helpers the one that was registered first.  No other order of the
helpers that run does so. -/
theorem schedule_order_isGreedy (available skippedBefore : List String)
    (distinct : (keys helpers).Nodup) :
    ∃ order : List (Fin helpers.length),
      (schedule helpers available skippedBefore).order = order.map helpers.get ∧
      order.Nodup ∧
      IsGreedy helpers order ∧
      ∀ other : List (Fin helpers.length), other.Perm order → IsGreedy helpers other →
        other = order := by
  obtain ⟨order, orderEq, orderNodup⟩ : ∃ order : List (Fin helpers.length),
      (schedule helpers available skippedBefore).order = order.map helpers.get ∧
        order.Nodup := exists_order_positions
  have greedy : IsGreedy helpers order := by
    rintro before next after rfl
    exact ⟨readyAfter_of_order_eq distinct orderEq,
      fun other => goesBefore_of_order_eq distinct orderEq orderNodup⟩
  exact ⟨order, orderEq, orderNodup, greedy, fun other same otherGreedy =>
    greedy.eq_of_perm otherGreedy same⟩

end Order

/-- A stage in which a helper of high priority waits for one of two helpers of the same priority. -/
def rankedStage : List (Helper Unit) :=
  [{ key := "draft", kind := .fragment, action := () },
   { key := "table", kind := .fragment, priority := 1, action := () },
   { key := "page", kind := .fragment, dependsOn := ["table"], priority := 9, action := () },
   { key := "index", kind := .fragment, priority := 1, action := () }]

/-- The positions of the helpers of the stage in the order in which they run. -/
def rankedOrder : List (Fin rankedStage.length) := ([1, 2, 3, 0] : List (Fin 4))

/-- The page goes before the index although it was not ready in the beginning. -/
theorem schedule_order_isGreedy_rankedStage :
    (keys rankedStage).Nodup ∧
    keys (schedule rankedStage [] []).order = ["table", "page", "index", "draft"] ∧
    IsGreedy rankedStage rankedOrder ∧
    ∀ other : List (Fin rankedStage.length), other.Perm rankedOrder →
      IsGreedy rankedStage other → other = rankedOrder := by
  have distinct : (keys rankedStage).Nodup := by decide
  obtain ⟨order, orderEq, -, greedy, only⟩ := schedule_order_isGreedy [] [] distinct
  have getInjective : Function.Injective rankedStage.get :=
    List.nodup_iff_injective_get.mp (distinct.of_map Helper.key)
  obtain rfl : order = rankedOrder :=
    List.map_injective_iff.mpr getInjective (orderEq.symm.trans rfl)
  exact ⟨distinct, by decide, greedy, only⟩

end RestPlugin.Pipeline
