import Mathlib.Data.List.Forall2
import Mathlib.Data.List.Induction
import Mathlib.Data.List.Nodup
import RestPlugin.Pipeline.Run
import RestPlugin.Proofs.Pipeline.Blocking

/-!
# Registration histories

A pipeline is the outcome of a sequence of registrations.  Among the registrations with one stage
and key the first stays, in its place; every later one leaves nothing but a conflict behind, which
names the helper that stays and the one that is turned away.
-/

namespace RestPlugin.Pipeline

/-- The registration of a helper for one of the stages. -/
inductive Registration where
  | fragment (helper : Helper (Config.Loaded → Action Ir.Draft))
  | builder (helper : Helper (Ir → Action Output.Queue))

namespace Registration

/-- The stage a helper is registered for. -/
def stage : Registration → Stage
  | fragment _ => .fragment
  | builder _ => .builder

/-- The key of the helper. -/
def key : Registration → String
  | fragment helper => helper.key
  | builder helper => helper.key

/-- The stage that the helper states for itself. -/
def kind : Registration → Stage
  | fragment helper => helper.kind
  | builder helper => helper.kind

/-- The keys that the helper depends on. -/
def dependsOn : Registration → List String
  | fragment helper => helper.dependsOn
  | builder helper => helper.dependsOn

/-- Whether the helper is not meant to be depended on. -/
def terminal : Registration → Bool
  | fragment helper => helper.terminal
  | builder helper => helper.terminal

/-- Where the helper comes from. -/
def label : Registration → String
  | fragment helper => helper.label
  | builder helper => helper.label

/-- The stage and the key, for which only one helper can stay. -/
def slot (registration : Registration) : Stage × String := (registration.stage, registration.key)

/-- The helper of a registered fragment. -/
def fragment? : Registration → Option (Helper (Config.Loaded → Action Ir.Draft))
  | fragment helper => some helper
  | builder _ => none

/-- The helper of a registered builder. -/
def builder? : Registration → Option (Helper (Ir → Action Output.Queue))
  | fragment _ => none
  | builder helper => some helper

/-- Adds the helper to a pipeline. -/
def applyTo (pipeline : Pipeline) : Registration → Pipeline
  | fragment helper => pipeline.addFragment helper
  | builder helper => pipeline.addBuilder helper

end Registration

/-- The pipeline after a sequence of registrations. -/
def ofRegistrations (registrations : List Registration) : Pipeline :=
  registrations.foldl Registration.applyTo {}

/-- Pairs every item with those before it, when some came before all of them. -/
def withEarlier {α : Type} (earlier : List α) : List α → List (List α × α)
  | [] => []
  | item :: rest => (earlier, item) :: withEarlier (earlier ++ [item]) rest

/-- The registrations that stay: those whose slot was still free. -/
def retained (registrations : List Registration) : List Registration :=
  (withEarlier [] registrations).filterMap fun (earlier, registration) =>
    if registration.slot ∈ earlier.map Registration.slot then none else some registration

/-- The registrations that are turned away: those whose slot was taken. -/
def rejected (registrations : List Registration) : List Registration :=
  (withEarlier [] registrations).filterMap fun (earlier, registration) =>
    if registration.slot ∈ earlier.map Registration.slot then some registration else none

/-- The conflict of a registration with the first one for its slot. -/
def conflict? (earlier : List Registration) (registration : Registration) : Option Diagnostic :=
  (earlier.find? fun first => first.slot == registration.slot).map fun first =>
    .conflict registration.stage registration.key first.label registration.label

/-- The conflicts of the registrations that are turned away. -/
def conflictsOf (registrations : List Registration) : List Diagnostic :=
  (withEarlier [] registrations).filterMap fun (earlier, registration) =>
    conflict? earlier registration

/-! ## One more registration -/

theorem withEarlier_concat {α : Type} (earlier items : List α) (item : α) :
    withEarlier earlier (items ++ [item]) =
      withEarlier earlier items ++ [(earlier ++ items, item)] := by
  induction items generalizing earlier with
  | nil => simp [withEarlier]
  | cons first rest ih => simp [withEarlier, ih]

/-- A registration stays exactly if its slot is free. -/
theorem retained_concat (registrations : List Registration) (registration : Registration) :
    retained (registrations ++ [registration]) =
      retained registrations ++
        if registration.slot ∈ registrations.map Registration.slot then [] else [registration] := by
  by_cases taken : registration.slot ∈ registrations.map Registration.slot
  · simp only [retained, withEarlier_concat, List.filterMap_append, List.nil_append,
      List.filterMap_cons, if_pos taken, List.filterMap_nil]
  · simp only [retained, withEarlier_concat, List.filterMap_append, List.nil_append,
      List.filterMap_cons, if_neg taken, List.filterMap_nil]

/-- A registration is turned away exactly if its slot is taken. -/
theorem rejected_concat (registrations : List Registration) (registration : Registration) :
    rejected (registrations ++ [registration]) =
      rejected registrations ++
        if registration.slot ∈ registrations.map Registration.slot then [registration] else [] := by
  by_cases taken : registration.slot ∈ registrations.map Registration.slot
  · simp only [rejected, withEarlier_concat, List.filterMap_append, List.nil_append,
      List.filterMap_cons, if_pos taken, List.filterMap_nil]
  · simp only [rejected, withEarlier_concat, List.filterMap_append, List.nil_append,
      List.filterMap_cons, if_neg taken, List.filterMap_nil]

theorem conflictsOf_concat (registrations : List Registration) (registration : Registration) :
    conflictsOf (registrations ++ [registration]) =
      conflictsOf registrations ++ (conflict? registrations registration).toList := by
  cases outcome : conflict? registrations registration <;>
    simp [conflictsOf, withEarlier_concat, outcome]

/-- No registration is found for a slot exactly if the slot is free. -/
theorem find?_slot_eq_none_iff (registrations : List Registration) (slot : Stage × String) :
    (registrations.find? fun registration => registration.slot == slot) = none ↔
      slot ∉ registrations.map Registration.slot := by
  simp

/-- The helper that holds a slot is the first one registered for it. -/
theorem find?_retained (registrations : List Registration) (slot : Stage × String) :
    (retained registrations).find? (fun registration => registration.slot == slot) =
      registrations.find? fun registration => registration.slot == slot := by
  induction registrations using List.reverseRecOn with
  | nil => rfl
  | append_singleton registrations registration ih =>
      rw [retained_concat, List.find?_append, List.find?_append, ih]
      split
      · rename_i taken
        by_cases slotEq : registration.slot = slot
        · cases found : registrations.find? fun other => other.slot == slot with
          | none => exact absurd (slotEq ▸ taken) ((find?_slot_eq_none_iff _ slot).mp found)
          | some holder => simp
        · simp [slotEq]
      · rfl

/-- Every slot for which something was registered is held, and no other one. -/
theorem slot_mem_retained_iff (registrations : List Registration) (slot : Stage × String) :
    slot ∈ (retained registrations).map Registration.slot ↔
      slot ∈ registrations.map Registration.slot := by
  rw [← not_iff_not, ← find?_slot_eq_none_iff, ← find?_slot_eq_none_iff, find?_retained]

/-- The registrations that stay have distinct slots. -/
theorem retained_slot_nodup (registrations : List Registration) :
    ((retained registrations).map Registration.slot).Nodup := by
  induction registrations using List.reverseRecOn with
  | nil => exact List.nodup_nil
  | append_singleton registrations registration ih =>
      rw [retained_concat]
      split
      · simpa using ih
      · rename_i free
        rw [← slot_mem_retained_iff] at free
        rw [List.map_append, List.map_singleton, ← List.concat_eq_append]
        exact List.Nodup.concat free ih

/-! ## Conflicts -/

/-- A diagnostic names the helper that holds the slot of a registration, and the registration. -/
def IsConflict (registrations : List Registration) (registration : Registration)
    (diagnostic : Diagnostic) : Prop :=
  ∃ holder ∈ retained registrations, holder.slot = registration.slot ∧
    diagnostic = .conflict registration.stage registration.key holder.label registration.label

theorem conflict?_eq_none {registrations : List Registration} {registration : Registration}
    (free : registration.slot ∉ registrations.map Registration.slot) :
    conflict? registrations registration = none := by
  rw [conflict?, Option.map_eq_none_iff, find?_slot_eq_none_iff]
  exact free

/-- A taken slot gives a conflict with the helper that holds it. -/
theorem conflict?_eq_some {registrations : List Registration} {registration : Registration}
    (taken : registration.slot ∈ registrations.map Registration.slot) :
    ∃ diagnostic, conflict? registrations registration = some diagnostic ∧
      IsConflict registrations registration diagnostic := by
  cases found : registrations.find? fun first => first.slot == registration.slot with
  | none => exact absurd taken ((find?_slot_eq_none_iff _ _).mp found)
  | some holder =>
      have slotEq : holder.slot = registration.slot := by simpa using List.find?_some found
      have conflictEq := congrArg (Option.map fun first => Diagnostic.conflict registration.stage
        registration.key first.label registration.label) found
      rw [← find?_retained] at found
      exact ⟨_, conflictEq, holder, List.mem_of_find?_eq_some found, slotEq, rfl⟩

/-- A conflict stays one when more is registered. -/
theorem IsConflict.concat {registrations : List Registration} {registration : Registration}
    {diagnostic : Diagnostic} (conflict : IsConflict registrations registration diagnostic)
    (next : Registration) : IsConflict (registrations ++ [next]) registration diagnostic := by
  obtain ⟨holder, stays, slotEq, diagnosticEq⟩ := conflict
  have stillStays : holder ∈ retained (registrations ++ [next]) := by
    rw [retained_concat]
    exact List.mem_append_left _ stays
  exact ⟨holder, stillStays, slotEq, diagnosticEq⟩

/-- Every registration that is turned away leaves one conflict, in the same order. -/
theorem forall₂_isConflict (registrations : List Registration) :
    List.Forall₂ (IsConflict registrations) (rejected registrations)
      (conflictsOf registrations) := by
  induction registrations using List.reverseRecOn with
  | nil => exact List.Forall₂.nil
  | append_singleton registrations registration ih =>
      have earlier := ih.imp fun _ _ conflict => IsConflict.concat conflict registration
      rw [rejected_concat, conflictsOf_concat]
      apply List.rel_append earlier
      by_cases taken : registration.slot ∈ registrations.map Registration.slot
      · obtain ⟨diagnostic, conflictEq, conflict⟩ := conflict?_eq_some taken
        rw [if_pos taken, conflictEq]
        exact List.Forall₂.cons (conflict.concat registration) List.Forall₂.nil
      · rw [if_neg taken, conflict?_eq_none taken]
        exact List.Forall₂.nil

theorem code_of_mem_conflictsOf (registrations : List Registration) :
    ∀ diagnostic ∈ conflictsOf registrations, diagnostic.code = "conflict" := by
  intro diagnostic member
  obtain ⟨⟨earlier, registration⟩, _, conflictEq⟩ := List.mem_filterMap.mp member
  obtain ⟨first, _, rfl⟩ := Option.map_eq_some_iff.mp conflictEq
  rfl

/-! ## The helpers of one stage -/

/-- A selection of the registrations for one stage, with their helpers. -/
structure Selects {α : Type} (stage : Stage)
    (helper? : Registration → Option (Helper α)) : Prop where
  slot_eq : ∀ {registration helper}, helper? registration = some helper →
    registration.slot = (stage, helper.key)
  kind_eq : ∀ {registration helper}, helper? registration = some helper →
    registration.kind = helper.kind
  dependsOn_eq : ∀ {registration helper}, helper? registration = some helper →
    registration.dependsOn = helper.dependsOn
  terminal_eq : ∀ {registration helper}, helper? registration = some helper →
    registration.terminal = helper.terminal
  label_eq : ∀ {registration helper}, helper? registration = some helper →
    registration.label = helper.label
  complete : ∀ {registration}, registration.stage = stage →
    ∃ helper, helper? registration = some helper

theorem Registration.eq_fragment {registration : Registration}
    {helper : Helper (Config.Loaded → Action Ir.Draft)}
    (selected : registration.fragment? = some helper) : registration = fragment helper := by
  cases registration <;> cases selected
  rfl

theorem Registration.eq_builder {registration : Registration}
    {helper : Helper (Ir → Action Output.Queue)}
    (selected : registration.builder? = some helper) : registration = builder helper := by
  cases registration <;> cases selected
  rfl

theorem selects_fragment : Selects .fragment Registration.fragment? where
  slot_eq selected := Registration.eq_fragment selected ▸ rfl
  kind_eq selected := Registration.eq_fragment selected ▸ rfl
  dependsOn_eq selected := Registration.eq_fragment selected ▸ rfl
  terminal_eq selected := Registration.eq_fragment selected ▸ rfl
  label_eq selected := Registration.eq_fragment selected ▸ rfl
  complete {registration} stageEq := by
    cases registration with
    | fragment helper => exact ⟨helper, rfl⟩
    | builder helper => cases stageEq

theorem selects_builder : Selects .builder Registration.builder? where
  slot_eq selected := Registration.eq_builder selected ▸ rfl
  kind_eq selected := Registration.eq_builder selected ▸ rfl
  dependsOn_eq selected := Registration.eq_builder selected ▸ rfl
  terminal_eq selected := Registration.eq_builder selected ▸ rfl
  label_eq selected := Registration.eq_builder selected ▸ rfl
  complete {registration} stageEq := by
    cases registration with
    | fragment helper => cases stageEq
    | builder helper => exact ⟨helper, rfl⟩

section Selected

variable {α : Type} {stage : Stage} {helper? : Registration → Option (Helper α)}

theorem Selects.any_key (selects : Selects stage helper?) (registration : Registration)
    (key : String) :
    (helper? registration).any (fun helper => helper.key == key) =
      (registration.slot == (stage, key)) := by
  cases selected : helper? registration with
  | some helper => simp [selects.slot_eq selected]
  | none =>
      have otherStage : registration.slot ≠ (stage, key) := by
        intro slotEq
        obtain ⟨helper, found⟩ := selects.complete (congrArg Prod.fst slotEq)
        rw [selected] at found
        cases found
      simp [otherStage]

/-- The keys of a stage are those for which something was registered. -/
theorem Selects.mem_keys_iff (selects : Selects stage helper?)
    (registrations : List Registration) (key : String) :
    key ∈ keys ((retained registrations).filterMap helper?) ↔
      (stage, key) ∈ registrations.map Registration.slot := by
  rw [← slot_mem_retained_iff, RestPlugin.Pipeline.mem_keys_iff, List.mem_map]
  constructor
  · rintro ⟨helper, helperMem, rfl⟩
    obtain ⟨registration, registrationMem, selected⟩ := List.mem_filterMap.mp helperMem
    exact ⟨registration, registrationMem, selects.slot_eq selected⟩
  · rintro ⟨registration, registrationMem, slotEq⟩
    obtain ⟨helper, selected⟩ := selects.complete (congrArg Prod.fst slotEq)
    refine ⟨helper, List.mem_filterMap.mpr ⟨registration, registrationMem, selected⟩, ?_⟩
    exact congrArg Prod.snd ((selects.slot_eq selected).symm.trans slotEq)

/-- The selected helpers that stay have distinct keys. -/
theorem Selects.keys_nodup (selects : Selects stage helper?) (registrations : List Registration) :
    (keys ((retained registrations).filterMap helper?)).Nodup := by
  have slotsDistinct := retained_slot_nodup registrations
  rw [List.Nodup, List.pairwise_map] at slotsDistinct
  rw [keys, List.Nodup, List.pairwise_map, List.pairwise_filterMap]
  apply slotsDistinct.imp
  intro first second slotsDiffer firstHelper firstSelected secondHelper secondSelected keyEq
  apply slotsDiffer
  rw [selects.slot_eq firstSelected, selects.slot_eq secondSelected, keyEq]

/-- One registration for the stage keeps the helpers that stay and adds the conflict, if any. -/
theorem Selects.register_eq (selects : Selects stage helper?) (registrations : List Registration)
    {registration : Registration} {helper : Helper α}
    (selected : helper? registration = some helper) :
    register stage ((retained registrations).filterMap helper?) helper =
      ((retained (registrations ++ [registration])).filterMap helper?,
       (conflict? registrations registration).toList) := by
  have held : ((retained registrations).filterMap helper?).find?
      (fun registered => registered.key == helper.key) =
      (registrations.find? fun first => first.slot == registration.slot).bind helper? := by
    rw [List.find?_filterMap, selects.slot_eq selected, ← find?_retained]
    simp only [selects.any_key]
  rw [register, held, retained_concat, List.filterMap_append]
  cases found : registrations.find? fun first => first.slot == registration.slot with
  | none =>
      have free := (find?_slot_eq_none_iff registrations registration.slot).mp found
      simp [conflict?, found, free, selected]
  | some first =>
      have slotEq : first.slot = registration.slot := by simpa using List.find?_some found
      have taken : registration.slot ∈ registrations.map Registration.slot :=
        List.mem_map.mpr ⟨first, List.mem_of_find?_eq_some found, slotEq⟩
      have stageEq : registration.stage = stage := congrArg Prod.fst (selects.slot_eq selected)
      have keyEq : registration.key = helper.key := congrArg Prod.snd (selects.slot_eq selected)
      obtain ⟨firstHelper, firstSelected⟩ :=
        selects.complete ((congrArg Prod.fst slotEq).trans stageEq)
      simp [conflict?, found, taken, firstSelected, stageEq, keyEq, selects.label_eq firstSelected,
        selects.label_eq selected]

/-- A registration for another stage leaves the helpers of this one alone. -/
theorem filterMap_retained_concat (registrations : List Registration) {registration : Registration}
    (notSelected : helper? registration = none) :
    (retained (registrations ++ [registration])).filterMap helper? =
      (retained registrations).filterMap helper? := by
  rw [retained_concat, List.filterMap_append]
  split <;> simp [notSelected]

end Selected

/-! ## Whole histories -/

/-- A pipeline holds the first registration of every key, by stage and in registration order, and
one conflict for every other registration. -/
theorem ofRegistrations_eq (registrations : List Registration) :
    ofRegistrations registrations =
      { fragments := (retained registrations).filterMap Registration.fragment?
        builders := (retained registrations).filterMap Registration.builder?
        conflicts := conflictsOf registrations } := by
  induction registrations using List.reverseRecOn with
  | nil => rfl
  | append_singleton registrations registration ih =>
      rw [ofRegistrations, List.foldl_append, ← ofRegistrations, ih, List.foldl_cons,
        List.foldl_nil, conflictsOf_concat]
      cases registration with
      | fragment helper =>
          rw [filterMap_retained_concat registrations
            (show Registration.builder? (.fragment helper) = none from rfl)]
          simp only [Registration.applyTo, addFragment]
          rw [selects_fragment.register_eq registrations
            (show Registration.fragment? (.fragment helper) = some helper from rfl)]
      | builder helper =>
          rw [filterMap_retained_concat registrations
            (show Registration.fragment? (.builder helper) = none from rfl)]
          simp only [Registration.applyTo, addBuilder]
          rw [selects_builder.register_eq registrations
            (show Registration.builder? (.builder helper) = some helper from rfl)]

/-- The fragments of a pipeline are the registered ones that stay. -/
theorem fragments_ofRegistrations (registrations : List Registration) :
    (ofRegistrations registrations).fragments =
      (retained registrations).filterMap Registration.fragment? := by
  rw [ofRegistrations_eq]

/-- The builders of a pipeline are the registered ones that stay. -/
theorem builders_ofRegistrations (registrations : List Registration) :
    (ofRegistrations registrations).builders =
      (retained registrations).filterMap Registration.builder? := by
  rw [ofRegistrations_eq]

theorem conflicts_ofRegistrations (registrations : List Registration) :
    (ofRegistrations registrations).conflicts = conflictsOf registrations := by
  rw [ofRegistrations_eq]

/-- The fragments of a pipeline have distinct keys. -/
theorem keys_fragments_nodup (registrations : List Registration) :
    (keys (ofRegistrations registrations).fragments).Nodup := by
  rw [fragments_ofRegistrations]
  exact selects_fragment.keys_nodup registrations

/-- The builders of a pipeline have distinct keys. -/
theorem keys_builders_nodup (registrations : List Registration) :
    (keys (ofRegistrations registrations).builders).Nodup := by
  rw [builders_ofRegistrations]
  exact selects_builder.keys_nodup registrations

/-- A fragment whose registration stays is in the pipeline. -/
theorem mem_fragments_of_retained {registrations : List Registration}
    {helper : Helper (Config.Loaded → Action Ir.Draft)}
    (stays : .fragment helper ∈ retained registrations) :
    helper ∈ (ofRegistrations registrations).fragments := by
  rw [fragments_ofRegistrations]
  exact List.mem_filterMap.mpr ⟨_, stays, rfl⟩

/-- A builder whose registration stays is in the pipeline. -/
theorem mem_builders_of_retained {registrations : List Registration}
    {helper : Helper (Ir → Action Output.Queue)}
    (stays : .builder helper ∈ retained registrations) :
    helper ∈ (ofRegistrations registrations).builders := by
  rw [builders_ofRegistrations]
  exact List.mem_filterMap.mpr ⟨_, stays, rfl⟩

end RestPlugin.Pipeline
