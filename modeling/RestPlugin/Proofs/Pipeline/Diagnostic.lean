import RestPlugin.Proofs.Pipeline.Reach
import RestPlugin.Proofs.Pipeline.Schedule

/-!
# What a schedule reports

A helper is reported when the first of its dependencies that cannot be met is provided by nobody,
or when nothing blocks it and it lies on a cycle.  The second case is found on the helpers that are
left over in the end; the cycles among these are exactly the cycles of the stage that nothing
blocks, so that a helper which only depends on a cycle is skipped in silence.
-/

namespace RestPlugin.Pipeline

open Relation

variable {α : Type} {helpers : List (Helper α)}
  {available skippedBefore : List String}

/-! ## Dependencies and the running order -/

/-- With distinct keys the dependencies of a key are those of its helper. -/
theorem depends_iff (distinct : (keys helpers).Nodup) {helper : Helper α}
    (helperMem : helper ∈ helpers) (dependency : String) :
    Depends helpers helper.key dependency ↔ dependency ∈ helper.dependsOn := by
  constructor
  · rintro ⟨other, otherMem, keyEq, member⟩
    obtain rfl := eq_of_key_eq distinct otherMem helperMem keyEq
    exact member
  · intro member
    exact ⟨helper, helperMem, rfl, member⟩

/-- What depends on something is a helper of the stage. -/
theorem Depends.mem_keys {key dependency : String} (depends : Depends helpers key dependency) :
    key ∈ keys helpers := by
  obtain ⟨helper, helperMem, rfl, _⟩ := depends
  exact key_mem_keys helperMem

/-- Whatever a helper needs inside the stage, directly or not, runs before it. -/
theorem mem_keys_before_of_transGen (distinct : (keys helpers).Nodup)
    {before after : List (Helper α)} {helper : Helper α}
    (split : (schedule helpers available skippedBefore).order = before ++ helper :: after)
    {target : String} (path : TransGen (Depends helpers) helper.key target)
    (inStage : target ∈ keys helpers) : target ∈ keys before := by
  induction path with
  | single depends =>
      have member := (depends_iff distinct (mem_of_order_eq split) _).mp depends
      exact (met_of_order_eq split member).2.1 inStage
  | @tail middle target _ depends ih =>
      obtain ⟨earlier, earlierMem, rfl⟩ := (mem_keys_iff before middle).mp (ih depends.mem_keys)
      obtain ⟨first, second, rfl⟩ := List.append_of_mem earlierMem
      rw [List.append_assoc, List.cons_append] at split
      have member := (depends_iff distinct (mem_of_order_eq split) _).mp depends
      have ranFirst := (met_of_order_eq split member).2.1 inStage
      obtain ⟨other, otherMem, keyEq⟩ := (mem_keys_iff first target).mp ranFirst
      exact (mem_keys_iff _ target).mpr ⟨other, by simp [otherMem], keyEq⟩

/-- Nothing on a cycle runs. -/
theorem not_mem_order_of_cycle (distinct : (keys helpers).Nodup) {key : String}
    (cycle : TransGen (Depends helpers) key key) :
    key ∉ keys (schedule helpers available skippedBefore).order := by
  intro applied
  obtain ⟨helper, helperMem, rfl⟩ := (mem_keys_iff _ key).mp applied
  obtain ⟨before, after, split⟩ := List.append_of_mem helperMem
  have twice := mem_keys_before_of_transGen distinct split cycle
    (key_mem_keys (mem_of_mem_order helperMem))
  have ranOnce := keys_schedule_order_nodup helpers available skippedBefore
  rw [split, keys, List.map_append, List.nodup_append] at ranOnce
  exact ranOnce.2.2 helper.key twice helper.key (by simp) rfl

/-- Nothing runs that needs a helper of the stage which does not. -/
theorem not_mem_order_of_reaches (distinct : (keys helpers).Nodup) {source target : String}
    (path : ReflTransGen (Depends helpers) source target) (inStage : target ∈ keys helpers)
    (skipped : target ∉ keys (schedule helpers available skippedBefore).order) :
    source ∉ keys (schedule helpers available skippedBefore).order := by
  rcases reflTransGen_iff_eq_or_transGen.mp path with rfl | steps
  · exact skipped
  · intro applied
    obtain ⟨helper, helperMem, rfl⟩ := (mem_keys_iff _ source).mp applied
    obtain ⟨before, after, split⟩ := List.append_of_mem helperMem
    obtain ⟨earlier, earlierMem, keyEq⟩ := (mem_keys_iff before target).mp
      (mem_keys_before_of_transGen distinct split steps inStage)
    apply skipped
    exact (mem_keys_iff _ target).mpr ⟨earlier, by simp [split, earlierMem], keyEq⟩

/-! ## Positions and keys -/

section Positions

variable {among : List (Helper α)}

/-- A helper among some helpers has the first key and depends on one with the second key. -/
def DependsAmong (among : List (Helper α)) (key dependency : String) : Prop :=
  Depends among key dependency ∧ dependency ∈ keys among

theorem position_eq_of_key_eq (distinct : (keys among).Nodup) {first second : Fin among.length}
    (keyEq : (among.get first).key = (among.get second).key) : first = second := by
  have same := eq_of_key_eq distinct (List.get_mem among _) (List.get_mem among _) keyEq
  exact (distinct.of_map Helper.key).get_inj_iff.mp same

/-- With distinct keys a key is found at the position where it stands. -/
theorem position?_eq_some_iff (distinct : (keys among).Nodup) {key : String}
    {position : Fin among.length} :
    position? among key = some position ↔ (among.get position).key = key := by
  rw [position?, List.findFinIdx?_eq_some_iff, beq_iff_eq]
  constructor
  · exact And.left
  · intro keyEq
    refine ⟨keyEq, ?_⟩
    intro other earlier sameKey
    rw [beq_iff_eq, ← keyEq] at sameKey
    exact absurd (position_eq_of_key_eq distinct sameKey) (Fin.ne_of_lt earlier)

theorem get_dependencyEdges (position : Fin among.length) :
    (dependencyEdges among).get position =
      (among.get position).dependsOn.filterMap (position? among) :=
  Vector.getElem_ofFn position.isLt

/-- The edges among some helpers are the dependencies between them. -/
theorem edge_dependencyEdges_iff (distinct : (keys among).Nodup)
    {position next : Fin among.length} :
    Edge (dependencyEdges among) position next ↔
      DependsAmong among (among.get position).key (among.get next).key := by
  rw [Edge, get_dependencyEdges, List.mem_filterMap]
  simp only [position?_eq_some_iff distinct, exists_eq_right']
  have depends := depends_iff distinct (List.get_mem among position) (among.get next).key
  exact depends.symm.trans (and_iff_left (key_mem_keys (List.get_mem among next))).symm

/-- Paths along the edges are those along the dependencies. -/
theorem reflTransGen_edge_iff (distinct : (keys among).Nodup) {position target : Fin among.length} :
    ReflTransGen (Edge (dependencyEdges among)) position target ↔
      ReflTransGen (DependsAmong among) (among.get position).key (among.get target).key := by
  constructor
  · apply ReflTransGen.lift fun position : Fin among.length => (among.get position).key
    intro position next edge
    exact (edge_dependencyEdges_iff distinct).mp edge
  · intro path
    generalize keyEq : (among.get position).key = key at path
    induction path using ReflTransGen.head_induction_on generalizing position with
    | refl =>
        rw [position_eq_of_key_eq distinct keyEq]
    | @head key next depends _ ih =>
        obtain ⟨middle, middleEq⟩ := mem_keys_iff_get.mp depends.2
        refine .head ?_ (ih middleEq)
        rw [edge_dependencyEdges_iff distinct, keyEq]
        exact middleEq ▸ depends

/-- The reported dependency is the first one at whose position the search finds a way back. -/
theorem cycleDependency?_eq_find? (distinct : (keys among).Nodup) (own : Fin among.length) :
    cycleDependency? among (among.get own) = (among.get own).dependsOn.find? fun dependency =>
      (position? among dependency).any fun position =>
        reaches (dependencyEdges among) position own := by
  rw [cycleDependency?, (position?_eq_some_iff distinct).mpr rfl, Option.bind_some,
    get_dependencyEdges, List.find?_filterMap]
  cases found : (among.get own).dependsOn.find? fun dependency =>
      (position? among dependency).any fun position =>
        reaches (dependencyEdges among) position own with
  | none => rfl
  | some dependency =>
      have standing := List.find?_some found
      obtain ⟨position, positionEq, -⟩ := (Option.any_eq_true _ _).mp standing
      have keyEq := (position?_eq_some_iff distinct).mp positionEq
      rw [Option.bind_some, positionEq, Option.map_some, keyEq]

end Positions

/-! ## Helpers that are left over -/

/-- The helpers that nothing blocks and that still do not run. -/
def leftOver (helpers : List (Helper α)) (available skippedBefore : List String) :
    List (Helper α) :=
  (unblocked helpers available skippedBefore).filter fun helper =>
    !(keys (schedule helpers available skippedBefore).order).contains helper.key

theorem schedule_diagnostics :
    (schedule helpers available skippedBefore).diagnostics =
      missingDiagnostics helpers available skippedBefore ++
        cycleDiagnostics (leftOver helpers available skippedBefore) :=
  rfl

/-- What is left over is neither blocked nor runs. -/
theorem mem_leftOver_iff (helper : Helper α) :
    helper ∈ leftOver helpers available skippedBefore ↔
      helper ∈ helpers ∧ ¬Blocked helpers available skippedBefore helper.key ∧
        helper.key ∉ keys (schedule helpers available skippedBefore).order := by
  rw [leftOver, List.mem_filter, mem_unblocked_iff, and_assoc]
  simp

theorem leftOver_sublist : (leftOver helpers available skippedBefore).Sublist helpers :=
  List.filter_sublist.trans List.filter_sublist

theorem keys_leftOver_nodup (available skippedBefore : List String)
    (distinct : (keys helpers).Nodup) :
    (keys (leftOver helpers available skippedBefore)).Nodup :=
  distinct.sublist (leftOver_sublist.map Helper.key)

/-- What lies between a helper that is left over and itself is left over too: it is not blocked,
since the helper is not, and it does not run, since the helper does not. -/
theorem mem_keys_leftOver (distinct : (keys helpers).Nodup) {helper : Helper α}
    (left : helper ∈ leftOver helpers available skippedBefore) {key : String}
    (out : ReflTransGen (Depends helpers) helper.key key)
    (back : ReflTransGen (Depends helpers) key helper.key) :
    key ∈ keys (leftOver helpers available skippedBefore) := by
  obtain ⟨helperMem, notBlocked, skipped⟩ := (mem_leftOver_iff helper).mp left
  have inStage : key ∈ keys helpers := by
    rcases back.cases_head with rfl | ⟨_, depends, _⟩
    · exact key_mem_keys helperMem
    · exact depends.mem_keys
  obtain ⟨between, betweenMem, rfl⟩ := (mem_keys_iff helpers key).mp inStage
  refine key_mem_keys ((mem_leftOver_iff between).mpr ⟨betweenMem, ?_, ?_⟩)
  · rintro ⟨source, path, obstructed⟩
    exact notBlocked ⟨source, out.trans path, obstructed⟩
  · exact not_mem_order_of_reaches distinct back (key_mem_keys helperMem) skipped

/-- Every way back to a helper that is left over runs through helpers that are left over. -/
theorem reflTransGen_leftOver (distinct : (keys helpers).Nodup) {helper : Helper α}
    (left : helper ∈ leftOver helpers available skippedBefore) {key : String}
    (out : ReflTransGen (Depends helpers) helper.key key)
    (back : ReflTransGen (Depends helpers) key helper.key) :
    ReflTransGen (DependsAmong (leftOver helpers available skippedBefore)) key
      helper.key := by
  induction back using ReflTransGen.head_induction_on with
  | refl => exact .refl
  | @head key next depends back ih =>
      have outNext : ReflTransGen (Depends helpers) helper.key next := out.tail depends
      refine .head ?_ (ih outNext)
      refine ⟨?_, mem_keys_leftOver distinct left outNext back⟩
      obtain ⟨between, betweenLeft, rfl⟩ := (mem_keys_iff _ key).mp
        (mem_keys_leftOver distinct left out (.head depends back))
      have betweenMem := ((mem_leftOver_iff between).mp betweenLeft).1
      exact ⟨between, betweenLeft, rfl, (depends_iff distinct betweenMem next).mp depends⟩

/-- The search on what is left over finds exactly the ways back to a helper in the whole stage. -/
theorem reaches_leftOver_iff (distinct : (keys helpers).Nodup)
    {own : Fin (leftOver helpers available skippedBefore).length} {dependency : String}
    (member : dependency ∈ ((leftOver helpers available skippedBefore).get own).dependsOn) :
    ((position? (leftOver helpers available skippedBefore) dependency).any fun position =>
        reaches (dependencyEdges (leftOver helpers available skippedBefore)) position own) =
          true ↔
      ReflTransGen (Depends helpers) dependency
        ((leftOver helpers available skippedBefore).get own).key := by
  have leftDistinct := keys_leftOver_nodup available skippedBefore distinct
  have left := List.get_mem (leftOver helpers available skippedBefore) own
  rw [Option.any_eq_true]
  simp only [position?_eq_some_iff leftDistinct, reaches_iff, reflTransGen_edge_iff leftDistinct]
  constructor
  · rintro ⟨position, rfl, path⟩
    refine ReflTransGen.mono ?_ _ _ path
    rintro key next ⟨⟨other, otherLeft, keyEq, otherMember⟩, -⟩
    exact ⟨other, leftOver_sublist.subset otherLeft, keyEq, otherMember⟩
  · intro back
    have out : ReflTransGen (Depends helpers) _ dependency :=
      .single ⟨_, leftOver_sublist.subset left, rfl, member⟩
    obtain ⟨position, keyEq⟩ := mem_keys_iff_get.mp (mem_keys_leftOver distinct left out back)
    refine ⟨position, keyEq, ?_⟩
    exact keyEq ▸ reflTransGen_leftOver distinct left out back

/-- The reported dependency is the first one from which there is a way back to the helper. -/
theorem cycleDependency?_eq_some_iff (distinct : (keys helpers).Nodup) {helper : Helper α}
    (left : helper ∈ leftOver helpers available skippedBefore) (dependency : String) :
    cycleDependency? (leftOver helpers available skippedBefore) helper = some dependency ↔
      IsFirst (fun other => ReflTransGen (Depends helpers) other helper.key) helper.dependsOn
        dependency := by
  obtain ⟨own, rfl⟩ := List.get_of_mem left
  rw [cycleDependency?_eq_find? (keys_leftOver_nodup _ _ distinct), find?_eq_some_iff_isFirst]
  apply isFirst_congr
  intro other member
  exact reaches_leftOver_iff distinct member

/-! ## Reported helpers -/

/-- The first dependency of a helper that cannot be met is one that nobody provides. -/
def Lacks (helpers : List (Helper α)) (available skippedBefore : List String) (helper : Helper α)
    (dependency : String) : Prop :=
  IsFirst (Unmet helpers available skippedBefore) helper.dependsOn dependency ∧
    dependency ∉ skippedBefore

/-- Nothing blocks a helper, and it lies on a cycle of dependencies of the stage. -/
def OnCycle (helpers : List (Helper α)) (available skippedBefore : List String)
    (helper : Helper α) : Prop :=
  ¬Blocked helpers available skippedBefore helper.key ∧
    TransGen (Depends helpers) helper.key helper.key

/-- A dependency is the first one of a helper from which there is a way back to the helper. -/
def FirstBack (helpers : List (Helper α)) (helper : Helper α) (dependency : String) : Prop :=
  IsFirst (fun other => ReflTransGen (Depends helpers) other helper.key) helper.dependsOn dependency

/-- A helper that lacks a dependency is blocked. -/
theorem Lacks.blocked {helper : Helper α} (helperMem : helper ∈ helpers) {dependency : String}
    (lacks : Lacks helpers available skippedBefore helper dependency) :
    Blocked helpers available skippedBefore helper.key :=
  Obstructed.blocked ⟨helper, helperMem, rfl, dependency, lacks.1.mem, lacks.1.holds⟩

theorem FirstBack.transGen {helper : Helper α} (helperMem : helper ∈ helpers) {dependency : String}
    (back : FirstBack helpers helper dependency) :
    TransGen (Depends helpers) helper.key helper.key :=
  .head' ⟨helper, helperMem, rfl, back.mem⟩ back.holds

/-- Every cycle through a helper has a first dependency by which it is entered. -/
theorem exists_firstBack (distinct : (keys helpers).Nodup) {helper : Helper α}
    (helperMem : helper ∈ helpers) (cycle : TransGen (Depends helpers) helper.key helper.key) :
    ∃ dependency, FirstBack helpers helper dependency := by
  classical
  obtain ⟨next, depends, back⟩ := TransGen.head'_iff.mp cycle
  have member := (depends_iff distinct helperMem next).mp depends
  have found : (helper.dependsOn.find? fun other =>
      decide (ReflTransGen (Depends helpers) other helper.key)).isSome = true := by
    rw [List.find?_isSome]
    exact ⟨next, member, by simpa using back⟩
  obtain ⟨dependency, dependencyFound⟩ := Option.isSome_iff_exists.mp found
  rw [find?_eq_some_iff_isFirst] at dependencyFound
  exact ⟨dependency, by simpa [FirstBack] using dependencyFound⟩

/-- A missing dependency is reported exactly for the helpers that lack it. -/
theorem mem_missingDiagnostics_iff (diagnostic : Diagnostic) :
    diagnostic ∈ missingDiagnostics helpers available skippedBefore ↔
      ∃ helper ∈ helpers, ∃ dependency, Lacks helpers available skippedBefore helper dependency ∧
        diagnostic = .missingDependency helper.kind helper.key dependency := by
  rw [missingDiagnostics, List.mem_filterMap]
  refine exists_congr fun helper => and_congr_right fun _ => ?_
  simp only [Lacks, ← obstacle?_eq_missing_iff]
  constructor
  · intro reported
    split at reported
    · rename_i dependency found
      exact ⟨dependency, found, by simpa using reported.symm⟩
    · simp at reported
    · simp at reported
  · rintro ⟨dependency, found, rfl⟩
    simp [found]

/-- A cycle is reported exactly for the helpers on one, with the first dependency that
leads back. -/
theorem mem_cycleDiagnostics_iff (distinct : (keys helpers).Nodup) (diagnostic : Diagnostic) :
    diagnostic ∈ cycleDiagnostics (leftOver helpers available skippedBefore) ↔
      ∃ helper ∈ helpers, OnCycle helpers available skippedBefore helper ∧
        ∃ dependency, FirstBack helpers helper dependency ∧
          diagnostic = .dependencyCycle helper.kind helper.key dependency := by
  rw [cycleDiagnostics, List.mem_filterMap]
  constructor
  · rintro ⟨helper, left, reported⟩
    obtain ⟨dependency, found, rfl⟩ := Option.map_eq_some_iff.mp reported
    obtain ⟨helperMem, notBlocked, _⟩ := (mem_leftOver_iff helper).mp left
    have back := (cycleDependency?_eq_some_iff distinct left dependency).mp found
    have cycle := FirstBack.transGen helperMem back
    exact ⟨helper, helperMem, ⟨notBlocked, cycle⟩, dependency, back, rfl⟩
  · rintro ⟨helper, helperMem, ⟨notBlocked, cycle⟩, dependency, back, rfl⟩
    have left : helper ∈ leftOver helpers available skippedBefore :=
      (mem_leftOver_iff helper).mpr ⟨helperMem, notBlocked, not_mem_order_of_cycle distinct cycle⟩
    exact ⟨helper, left, Option.map_eq_some_iff.mpr
      ⟨dependency, (cycleDependency?_eq_some_iff distinct left dependency).mpr back, rfl⟩⟩

/-- A report on some helpers that names each of them at most once keeps their order. -/
theorem map_key_filterMap_sublist {report : Helper α → Option Diagnostic}
    (names : ∀ helper diagnostic, report helper = some diagnostic → diagnostic.key = helper.key)
    (reported : List (Helper α)) :
    ((reported.filterMap report).map Diagnostic.key).Sublist (keys reported) := by
  induction reported with
  | nil => exact List.Sublist.refl []
  | cons helper rest ih =>
      cases outcome : report helper with
      | none =>
          rw [List.filterMap_cons_none outcome]
          exact ih.cons helper.key
      | some diagnostic =>
          rw [List.filterMap_cons_some outcome, List.map_cons, names helper diagnostic outcome]
          exact ih.cons_cons helper.key

/-- No helper is reported twice. -/
theorem map_key_schedule_diagnostics_nodup (available skippedBefore : List String)
    (distinct : (keys helpers).Nodup) :
    ((schedule helpers available skippedBefore).diagnostics.map Diagnostic.key).Nodup := by
  rw [schedule_diagnostics, List.map_append, List.nodup_append]
  refine ⟨?_, ?_, ?_⟩
  · refine distinct.sublist (map_key_filterMap_sublist ?_ helpers)
    intro helper diagnostic reported
    split at reported <;> simp at reported
    rw [← reported]
    rfl
  · refine (keys_leftOver_nodup _ _ distinct).sublist (map_key_filterMap_sublist ?_ _)
    intro helper diagnostic reported
    obtain ⟨dependency, _, rfl⟩ := Option.map_eq_some_iff.mp reported
    rfl
  · intro first firstMem second secondMem keyEq
    obtain ⟨missing, missingMem, rfl⟩ := List.mem_map.mp firstMem
    obtain ⟨cyclic, cyclicMem, rfl⟩ := List.mem_map.mp secondMem
    obtain ⟨helper, helperMem, dependency, lacks, rfl⟩ :=
      (mem_missingDiagnostics_iff missing).mp missingMem
    obtain ⟨other, _, ⟨notBlocked, _⟩, _, _, rfl⟩ :=
      (mem_cycleDiagnostics_iff distinct cyclic).mp cyclicMem
    apply notBlocked
    have sameKey : helper.key = other.key := keyEq
    exact sameKey ▸ lacks.blocked helperMem

/-- Among diagnostics with distinct keys there is one for each of these keys. -/
theorem filter_key_eq_singleton {diagnostics : List Diagnostic}
    (distinct : (diagnostics.map Diagnostic.key).Nodup) {diagnostic : Diagnostic}
    (member : diagnostic ∈ diagnostics) :
    diagnostics.filter (fun other => other.key == diagnostic.key) = [diagnostic] := by
  induction diagnostics with
  | nil => simp at member
  | cons first rest ih =>
      rw [List.map_cons, List.nodup_cons] at distinct
      rcases List.mem_cons.mp member with rfl | later
      · rw [List.filter_cons_of_pos (by simp), List.cons.injEq, List.filter_eq_nil_iff]
        refine ⟨rfl, ?_⟩
        intro other otherMem keyEq
        exact distinct.1 (List.mem_map.mpr ⟨other, otherMem, beq_iff_eq.mp keyEq⟩)
      · rw [List.filter_cons_of_neg, ih distinct.2 later]
        intro keyEq
        exact distinct.1 (List.mem_map.mpr ⟨diagnostic, later, (beq_iff_eq.mp keyEq).symm⟩)

/-- A diagnostic of a schedule tells about a helper that lacks a dependency, or about
one on a cycle. -/
theorem mem_schedule_diagnostics_iff (distinct : (keys helpers).Nodup) (diagnostic : Diagnostic) :
    diagnostic ∈ (schedule helpers available skippedBefore).diagnostics ↔
      ∃ helper ∈ helpers,
        (∃ dependency, Lacks helpers available skippedBefore helper dependency ∧
          diagnostic = .missingDependency helper.kind helper.key dependency) ∨
        OnCycle helpers available skippedBefore helper ∧
          ∃ dependency, FirstBack helpers helper dependency ∧
            diagnostic = .dependencyCycle helper.kind helper.key dependency := by
  rw [schedule_diagnostics, List.mem_append, mem_missingDiagnostics_iff,
    mem_cycleDiagnostics_iff distinct, ← exists_or]
  simp only [and_or_left]

/-- All diagnostics of a schedule have the code for missing dependencies. -/
theorem code_of_mem_schedule_diagnostics (distinct : (keys helpers).Nodup) :
    ∀ diagnostic ∈ (schedule helpers available skippedBefore).diagnostics,
      diagnostic.code = "missing-dependency" := by
  intro diagnostic reported
  obtain ⟨_, _, ⟨_, _, rfl⟩ | ⟨_, _, _, rfl⟩⟩ :=
    (mem_schedule_diagnostics_iff distinct diagnostic).mp reported
  · rfl
  · rfl

/-- A schedule reports on a helper once or not at all: that a dependency is missing, if the first
one that cannot be met is provided by nobody; that it is on a cycle, if nothing blocks it and it is,
with the first dependency from which there is a way back; and nothing otherwise. -/
theorem schedule_reports_exactly (available skippedBefore : List String)
    (distinct : (keys helpers).Nodup) :
    (∀ diagnostic ∈ (schedule helpers available skippedBefore).diagnostics,
      diagnostic.code = "missing-dependency" ∧
        ∃ helper ∈ helpers, diagnostic.kind = helper.kind ∧ diagnostic.key = helper.key) ∧
    ∀ helper ∈ helpers,
      let reports := (schedule helpers available skippedBefore).diagnostics.filter
        fun diagnostic => diagnostic.key == helper.key
      (∀ dependency, Lacks helpers available skippedBefore helper dependency →
        reports = [.missingDependency helper.kind helper.key dependency]) ∧
      (OnCycle helpers available skippedBefore helper →
        ∃ dependency, FirstBack helpers helper dependency ∧
          reports = [.dependencyCycle helper.kind helper.key dependency]) ∧
      ((∀ dependency, ¬Lacks helpers available skippedBefore helper dependency) →
        ¬OnCycle helpers available skippedBefore helper → reports = []) := by
  have once := map_key_schedule_diagnostics_nodup available skippedBefore distinct
  constructor
  · intro diagnostic reported
    refine ⟨code_of_mem_schedule_diagnostics distinct diagnostic reported, ?_⟩
    obtain ⟨helper, helperMem, ⟨_, _, rfl⟩ | ⟨_, _, _, rfl⟩⟩ :=
      (mem_schedule_diagnostics_iff distinct diagnostic).mp reported
    · exact ⟨helper, helperMem, rfl, rfl⟩
    · exact ⟨helper, helperMem, rfl, rfl⟩
  · intro helper helperMem reports
    refine ⟨?_, ?_, ?_⟩
    · intro dependency lacks
      exact filter_key_eq_singleton once ((mem_schedule_diagnostics_iff distinct _).mpr
        ⟨helper, helperMem, Or.inl ⟨dependency, lacks, rfl⟩⟩)
    · intro onCycle
      obtain ⟨dependency, back⟩ := exists_firstBack distinct helperMem onCycle.2
      exact ⟨dependency, back, filter_key_eq_singleton once
        ((mem_schedule_diagnostics_iff distinct _).mpr
          ⟨helper, helperMem, Or.inr ⟨onCycle, dependency, back, rfl⟩⟩)⟩
    · intro notLacks notOnCycle
      rw [List.filter_eq_nil_iff]
      intro diagnostic reported keyEq
      obtain ⟨other, otherMem, ⟨dependency, lacks, rfl⟩ | ⟨onCycle, _, _, rfl⟩⟩ :=
        (mem_schedule_diagnostics_iff distinct diagnostic).mp reported
      · obtain rfl := eq_of_key_eq distinct otherMem helperMem (beq_iff_eq.mp keyEq)
        exact notLacks dependency lacks
      · obtain rfl := eq_of_key_eq distinct otherMem helperMem (beq_iff_eq.mp keyEq)
        exact notOnCycle onCycle

theorem schedule_reports_exactly_mixedStage :
    (keys mixedStage).Nodup ∧
    Lacks mixedStage ["outside"] ["skipped"] mixedStage[7] "nowhere" ∧
    OnCycle mixedStage ["outside"] ["skipped"] mixedStage[3] ∧
    (schedule mixedStage ["outside"] ["skipped"]).diagnostics.filter
        (fun diagnostic => diagnostic.key == "lost") =
      [.missingDependency .builder "lost" "nowhere"] ∧
    ∃ dependency, FirstBack mixedStage mixedStage[3] dependency ∧
      (schedule mixedStage ["outside"] ["skipped"]).diagnostics.filter
          (fun diagnostic => diagnostic.key == "left") =
        [.dependencyCycle .builder "left" dependency] := by
  have distinct : (keys mixedStage).Nodup := by decide
  have lacks : Lacks mixedStage ["outside"] ["skipped"] mixedStage[7] "nowhere" :=
    ⟨⟨["late"], [], rfl, by decide, by decide⟩, by decide⟩
  have onCycle : OnCycle mixedStage ["outside"] ["skipped"] mixedStage[3] := by
    refine ⟨?_, .tail (.single ⟨mixedStage[3], by simp [mixedStage], rfl, ?_⟩)
      ⟨mixedStage[4], by simp [mixedStage], rfl, ?_⟩⟩
    · rw [← mem_blockedKeys_iff]
      decide
    · simp [mixedStage]
    · simp [mixedStage]
  have reports := (schedule_reports_exactly ["outside"] ["skipped"] distinct).2
  exact ⟨distinct, lacks, onCycle,
    (reports mixedStage[7] (by simp [mixedStage])).1 "nowhere" lacks,
    (reports mixedStage[3] (by simp [mixedStage])).2.1 onCycle⟩

end RestPlugin.Pipeline
