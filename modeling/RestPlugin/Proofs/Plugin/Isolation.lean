import RestPlugin.Proofs.Controller.Handlers
import RestPlugin.Proofs.Handler.Transients
import RestPlugin.Proofs.Plugin.Controllers

/-!
# Transients of different resources

The names of the transients of a resource are made of the namespace, the snake case of its name and
the identity, with underscores in between.  As a snake case may hold underscores as well, resources
of different names can come to one name: exactly if their snake cases are the same and both or
neither of them have an identity, or if one snake case continues the other one in a way that the
identity of the shorter one can spell.
-/

namespace RestPlugin

open Controller Ir Text Number

namespace Handler.Transient

open Php

/-! ## Resources whose transients can meet -/

/-- Whether the identity of one resource can spell how another snake case goes on. -/
def Reaches (outer inner : Resource) : Prop :=
  ∃ rest, snakeCase inner.name = snakeCase outer.name ++ "_" ++ rest ∧
    (outer.identity.map Identity.kind = some .string ∨
      outer.identity.map Identity.kind = some .number ∧ inner.identity = none ∧
        ∃ number : Int, 0 < number ∧ number ≤ greatestSigned ∧ rest = toString number)

/-- Whether two resources can come to one name of a transient. -/
def Overlap (first second : Resource) : Prop :=
  snakeCase first.name = snakeCase second.name ∧
      first.identity.isSome = second.identity.isSome ∨
    Reaches first second ∨ Reaches second first

theorem suffix_nil : suffix [] = "" := rfl

theorem underscore_mem_suffix {identity : Option Identity} {values : List Value}
    (acceptable : Acceptable identity values) (identified : identity ≠ none) :
    '_' ∈ (suffix values).toList := by
  cases acceptable with
  | single => exact absurd rfl identified
  | number | text => simp [suffix]

/-- There is no suffix exactly if there is no identity. -/
theorem suffix_eq_empty_iff {identity : Option Identity} {values : List Value}
    (acceptable : Acceptable identity values) : suffix values = "" ↔ identity = none := by
  cases acceptable with
  | single => simp [suffix]
  | number | text => simp [suffix, ← String.toList_inj]

theorem not_mem_toString {number : Int} (positive : 0 < number) :
    '_' ∉ (toString number).toList := by
  obtain ⟨value, rfl⟩ := Int.eq_ofNat_of_zero_le positive.le
  intro member
  change '_' ∈ (toString value).toList at member
  rw [Nat.toString_eq_repr, Nat.repr, String.toList_ofList] at member
  have digit : isDigit '_' = true := Json.isDigit_of_mem_toDigits member
  cases digit

/-- An underscore at the beginning of a text stands at the beginning of its first part. -/
theorem exists_eq_underscore_append {text first second : String}
    (same : "_" ++ text = first ++ second) (nonempty : first ≠ "") :
    ∃ rest, first = "_" ++ rest ∧ text = rest ++ second := by
  have underscore : "_".toList = ['_'] := by decide
  have chars := congrArg String.toList same
  rw [String.toList_append, String.toList_append, underscore] at chars
  cases firstEq : first.toList with
  | nil => exact absurd (String.toList_eq_nil_iff.mp firstEq) nonempty
  | cons c rest =>
      rw [firstEq] at chars
      obtain ⟨rfl, restEq⟩ := List.cons.inj chars
      refine ⟨String.ofList rest, ?_, ?_⟩ <;>
        rw [← String.toList_inj, String.toList_append, String.toList_ofList]
      · rw [String.toList_ofList]
        exact firstEq
      · exact restEq

/-- If one snake case goes on where the other one ends, an identity spells how. -/
theorem reaches_of_suffix_eq {first second : Resource} {values others : List Value} {rest : String}
    (acceptable : Acceptable first.identity values)
    (acceptable' : Acceptable second.identity others)
    (continued : snakeCase second.name = snakeCase first.name ++ rest)
    (suffixEq : suffix values = rest ++ suffix others) :
    snakeCase first.name = snakeCase second.name ∧
        first.identity.isSome = second.identity.isSome ∨
      Reaches first second := by
  by_cases empty : rest = ""
  · rw [empty, String.append_empty] at continued
    rw [empty, String.empty_append] at suffixEq
    have noneIff : first.identity = none ↔ second.identity = none := by
      rw [← suffix_eq_empty_iff acceptable, suffixEq, suffix_eq_empty_iff acceptable']
    refine .inl ⟨continued.symm, ?_⟩
    rw [Bool.eq_iff_iff, Option.isSome_iff_ne_none, Option.isSome_iff_ne_none]
    exact not_congr noneIff
  · refine .inr ?_
    generalize firstEq : first.identity = identity at acceptable
    cases acceptable with
    | single =>
        have appended : rest ++ suffix others = "" := suffixEq.symm
        rw [String.append_eq_empty_iff] at appended
        exact absurd appended.1 empty
    | number positive bounded =>
        obtain ⟨spelled, rfl, numberEq⟩ := exists_eq_underscore_append suffixEq empty
        have secondEq : second.identity = none := by
          by_contra identified
          refine not_mem_toString positive ?_
          rw [numberEq, String.toList_append]
          exact List.mem_append_right _ (underscore_mem_suffix acceptable' identified)
        rw [(suffix_eq_empty_iff acceptable').mpr secondEq, String.append_empty] at numberEq
        exact ⟨spelled, by rw [continued, String.append_assoc],
          .inr ⟨by rw [firstEq]; rfl, secondEq, _, positive, bounded, numberEq.symm⟩⟩
    | text =>
        obtain ⟨spelled, rfl, -⟩ := exists_eq_underscore_append suffixEq empty
        exact ⟨spelled, by rw [continued, String.append_assoc], .inl (by rw [firstEq]; rfl)⟩

/-- Two resources with a name in common overlap. -/
theorem overlap_of_names {first second : Resource} {values others : List Value}
    (acceptable : Acceptable first.identity values)
    (acceptable' : Acceptable second.identity others)
    (same : snakeCase first.name ++ suffix values = snakeCase second.name ++ suffix others) :
    Overlap first second := by
  have chars := congrArg String.toList same
  rw [String.toList_append, String.toList_append, List.append_eq_append_iff] at chars
  obtain ⟨rest, continued, suffixEq⟩ | ⟨rest, continued, suffixEq⟩ := chars
  · rw [← String.toList_ofList (l := rest), ← String.toList_append,
      String.toList_inj] at continued suffixEq
    exact (reaches_of_suffix_eq acceptable acceptable' continued suffixEq).imp_right .inl
  · rw [← String.toList_ofList (l := rest), ← String.toList_append,
      String.toList_inj] at continued suffixEq
    obtain ⟨nameEq, identified⟩ | reaches :=
      reaches_of_suffix_eq acceptable' acceptable continued suffixEq
    · exact .inl ⟨nameEq.symm, identified.symm⟩
    · exact .inr (.inr reaches)

/-- An identity can be one, as a number or as a text. -/
theorem exists_acceptable_one (identity : Identity) :
    ∃ values, Acceptable (some identity) values ∧ suffix values = "_1" := by
  obtain ⟨kind, param⟩ := identity
  cases kind with
  | number => exact ⟨_, .number (by decide : (0 : Int) < 1) (by decide), by decide⟩
  | string => exact ⟨_, .text (by decide : trimmed "1" ≠ ""), by decide⟩

/-- Every identity accepts values whose suffix is made of word characters. -/
theorem exists_acceptable (identity : Option Identity) :
    ∃ values, Acceptable identity values ∧ ∀ c ∈ (suffix values).toList, isWord c = true := by
  cases identity with
  | none => exact ⟨_, .single, List.forall_mem_nil _⟩
  | some identity =>
      obtain ⟨values, acceptable, suffixEq⟩ := exists_acceptable_one identity
      have chars : "_1".toList = ['_', '1'] := String.toList_ofList
      refine ⟨values, acceptable, ?_⟩
      rw [suffixEq, chars]
      exact List.forall_mem_cons.mpr ⟨rfl, List.forall_mem_singleton.mpr rfl⟩

theorem trimmed_of_word {text : String} (word : ∀ c ∈ text.toList, isWord c = true) :
    trimmed text = text := by
  have stays : ∀ c, isWord c = true → isTrimmed c = false := by
    intro c isWord
    rw [← Bool.not_eq_true, isTrimmed, List.contains_iff_mem]
    intro blank
    simp only [List.mem_cons, List.not_mem_nil, or_false] at blank
    rcases blank with rfl | rfl | rfl | rfl | rfl | rfl <;> cases isWord
  exact trimmed_eq_self (fun c member => stays c (word c (List.mem_of_head? member)))
    (fun c member => stays c (word c (List.mem_of_getLast? member)))

/-- A resource that reaches into another one comes to one of its names. -/
theorem Reaches.exists_names {outer inner : Resource} (reaches : Reaches outer inner) :
    ∃ values others, Acceptable outer.identity values ∧ Acceptable inner.identity others ∧
      snakeCase outer.name ++ suffix values = snakeCase inner.name ++ suffix others := by
  obtain ⟨rest, continued, isText | ⟨isNumber, innerEq, number, positive, bounded, rfl⟩⟩ := reaches
  · obtain ⟨others, acceptable, word⟩ := exists_acceptable inner.identity
    obtain ⟨⟨kind, param⟩, outerEq, rfl⟩ := Option.map_eq_some_iff.mp isText
    -- The text is what follows in the name of the other resource.
    have spelled : trimmed (rest ++ suffix others) = rest ++ suffix others := by
      refine trimmed_of_word fun c member => ?_
      rw [String.toList_append, List.mem_append] at member
      refine member.elim (fun inRest => ?_) (word c)
      have inName : c ∈ (snakeCase inner.name).toList := by
        rw [continued, String.toList_append]
        exact List.mem_append_right _ inRest
      exact isWord_of_mem_snakeCase c inName
    have nonblank : trimmed (rest ++ suffix others) ≠ "" := by
      rw [spelled]
      intro empty
      rw [String.append_eq_empty_iff] at empty
      rw [empty.1, String.append_empty] at continued
      exact snakeCase_ne_append_underscore _ _ continued
    refine ⟨_, others, by rw [outerEq]; exact .text nonblank, acceptable, ?_⟩
    rw [suffix, spelled, continued]
    simp only [String.append_assoc]
  · obtain ⟨⟨kind, param⟩, outerEq, rfl⟩ := Option.map_eq_some_iff.mp isNumber
    refine ⟨[.int number], [], by rw [outerEq]; exact .number positive bounded,
      by rw [innerEq]; exact .single, ?_⟩
    rw [continued, suffix_nil, String.append_empty, String.append_assoc]
    rfl

/-- Two resources that overlap have a name in common. -/
theorem Overlap.exists_names {first second : Resource} (overlap : Overlap first second) :
    ∃ values others, Acceptable first.identity values ∧ Acceptable second.identity others ∧
      snakeCase first.name ++ suffix values = snakeCase second.name ++ suffix others := by
  obtain ⟨nameEq, identified⟩ | reaches | reaches := overlap
  · cases firstEq : first.identity with
    | none =>
        rw [firstEq, Option.isSome_none, eq_comm, Option.isSome_eq_false_iff,
          Option.isNone_iff_eq_none] at identified
        rw [identified]
        exact ⟨_, _, .single, .single, by rw [nameEq]⟩
    | some identity =>
        rw [firstEq, Option.isSome_some, eq_comm, Option.isSome_iff_exists] at identified
        obtain ⟨other, secondEq⟩ := identified
        obtain ⟨values, acceptable, suffixEq⟩ := exists_acceptable_one identity
        obtain ⟨others, acceptable', suffixEq'⟩ := exists_acceptable_one other
        exact ⟨values, others, acceptable, secondEq ▸ acceptable',
          by rw [nameEq, suffixEq, suffixEq']⟩
  · exact reaches.exists_names
  · obtain ⟨others, values, acceptable', acceptable, same⟩ := reaches.exists_names
    exact ⟨values, others, acceptable, acceptable', same.symm⟩

end Handler.Transient

namespace Plugin

open Handler.Transient Php Pipeline

/-! ## Names of transients -/

/-- A name that the private method of a resource computes from what its handlers take. -/
def TransientName (ir : Ir) (resource : Resource) (name : String) : Prop :=
  ∃ methods method values world,
    Handler.methods resource (pascalCase resource.name) (transientKey ir.info.slug resource) =
      .ok methods ∧
    method ∈ methods ∧ method.name = keyMethod (pascalCase resource.name) ∧
    Takes resource values ∧ method.resultOf world values = some (.string name)

section Names

variable (ir : Ir) {resource : Resource} (named : resource.WellNamed)
  (stored : resource.storage = some .transient)
include named stored

/-- A resource has one private method for its names, which adds the suffix of the values to
the beginning. -/
theorem exists_keyMethod : ∃ method,
    Handler.methods resource (pascalCase resource.name) (transientKey ir.info.slug resource) =
      .ok [method] ∧
    method.name = keyMethod (pascalCase resource.name) ∧
    ∀ world values, Takes resource values → method.resultOf world values =
      some (.string (transientKey ir.info.slug resource ++ suffix values)) := by
  obtain ⟨method, methodsEq, nameEq, results⟩ :=
    exists_method named (transientKey ir.info.slug resource)
  refine ⟨method, ?_, nameEq, fun world values taken =>
    results world values ((takes_iff named values).mp taken)⟩
  rw [Handler.methods, stored]
  exact methodsEq

/-- The names of a resource are its beginning with the suffixes of the accepted values. -/
theorem transientName_iff (name : String) : TransientName ir resource name ↔
    ∃ values, Acceptable resource.identity values ∧
      name = transientKey ir.info.slug resource ++ suffix values := by
  obtain ⟨method, methodsEq, nameEq, results⟩ := exists_keyMethod ir named stored
  constructor
  · rintro ⟨methods, other, values, world, otherEq, member, -, taken, result⟩
    rw [methodsEq] at otherEq
    cases otherEq
    obtain rfl := List.mem_singleton.mp member
    rw [results world values taken] at result
    exact ⟨values, (takes_iff named values).mp taken,
      (Value.string.inj (Option.some.inj result)).symm⟩
  · rintro ⟨values, acceptable, rfl⟩
    have taken := (takes_iff named values).mpr acceptable
    exact ⟨[method], method, values, fun _ _ => .null, methodsEq, List.mem_singleton_self _,
      nameEq, taken, results _ values taken⟩

/-- In a composed controller the names are computed by the method of its class. -/
theorem transientName_iff_of_compose {composed : Composed}
    (done : compose ir resource = .ok composed) :
    ∃ decl method, composed.file.stmts = [.classDecl decl] ∧
      decl.method? (keyMethod (pascalCase resource.name)) = some method ∧
      ∀ name, TransientName ir resource name ↔
        ∃ values world, Takes resource values ∧
          method.resultOf world values = some (.string name) := by
  obtain ⟨method, methodsEq, nameEq, results⟩ := exists_keyMethod ir named stored
  obtain ⟨decl, -, -, stmts, -, lowerNodup, -⟩ := exists_handlers_serving_routes done
  obtain ⟨pieces, rfl⟩ := exists_pieces_of_compose done
  obtain rfl : pieces.decl = decl := by
    rw [pieces.stmts_composed] at stmts
    exact Stmt.classDecl.inj (List.cons.inj stmts).1
  have helpersEq : pieces.helpers = [method] :=
    Except.ok.inj (pieces.helpers_eq.symm.trans methodsEq)
  have nodup : (pieces.decl.methods.map (·.name)).Nodup := by
    apply List.Nodup.of_map lowerString
    rw [List.map_map]
    exact lowerNodup
  have member : method ∈ pieces.decl.methods :=
    List.mem_append_right _ (helpersEq ▸ List.mem_singleton_self _)
  refine ⟨pieces.decl, method, stmts, nameEq ▸ find?_name_eq_some nodup member, fun name => ?_⟩
  constructor
  · rintro ⟨methods, other, values, world, otherEq, otherMem, -, taken, result⟩
    rw [methodsEq] at otherEq
    cases otherEq
    obtain rfl := List.mem_singleton.mp otherMem
    exact ⟨values, world, taken, result⟩
  · rintro ⟨values, world, taken, result⟩
    exact ⟨[method], method, values, world, methodsEq, List.mem_singleton_self _, nameEq, taken,
      result⟩

end Names

/-- What the name of a transient is made of. -/
theorem transientKey_append (slug : String) (resource : Resource) (text : String) :
    transientKey slug resource ++ text =
      underscoreSlug slug ++ "_" ++ (snakeCase resource.name ++ text) := by
  rw [transientKey, String.append_assoc]

/-- Two resources with transient storage share a name exactly if they overlap. -/
theorem exists_shared_name_iff {ir : Ir} {first second : Resource} (named : first.WellNamed)
    (stored : first.storage = some .transient) (named' : second.WellNamed)
    (stored' : second.storage = some .transient) :
    (∃ name, TransientName ir first name ∧ TransientName ir second name) ↔
      Overlap first second := by
  constructor
  · rintro ⟨name, firstName, secondName⟩
    obtain ⟨values, acceptable, nameEq⟩ := (transientName_iff ir named stored name).mp firstName
    obtain ⟨others, acceptable', nameEq'⟩ :=
      (transientName_iff ir named' stored' name).mp secondName
    refine overlap_of_names acceptable acceptable' ?_
    rw [nameEq, transientKey_append, transientKey_append, String.append_right_inj] at nameEq'
    exact nameEq'
  · intro overlap
    obtain ⟨values, others, acceptable, acceptable', same⟩ := overlap.exists_names
    refine ⟨_, (transientName_iff ir named stored _).mpr ⟨values, acceptable, rfl⟩,
      (transientName_iff ir named' stored' _).mpr ⟨others, acceptable', ?_⟩⟩
    rw [transientKey_append, transientKey_append, same]

/-- In an accepted configuration whose representation is built, the names of transients are those
that the methods of the composed controllers compute, every resource with transient storage has
some, and two of these resources share one exactly if they overlap. -/
theorem transients_shared_iff_overlap {format : Config.Format} {source : String} {config : Config}
    {warnings : List Config.Warning} {loaded : Config.Loaded} {ir : Ir}
    (accepted : Config.parse format source = .ok (config, warnings))
    (configured : loaded.config = config) (built : Ir.build loaded = .ok ir) :
    (∀ resource ∈ ir.resources, resource.storage = some .transient →
      (∃ name, TransientName ir resource name) ∧
      ∀ composed, compose ir resource = .ok composed →
        ∃ decl method, composed.file.stmts = [.classDecl decl] ∧
          decl.method? (keyMethod (pascalCase resource.name)) = some method ∧
          ∀ name, TransientName ir resource name ↔
            ∃ values world, Takes resource values ∧
              method.resultOf world values = some (.string name)) ∧
    ∀ first ∈ ir.resources, ∀ second ∈ ir.resources,
      first.storage = some .transient → second.storage = some .transient →
        ((∃ name, TransientName ir first name ∧ TransientName ir second name) ↔
          Overlap first second) := by
  subst configured
  obtain ⟨parts, rfl⟩ := Core.exists_parts_of_build built
  have named := wellNamed_of_parts (Config.checked_of_parse accepted) parts
  refine ⟨fun resource member stored => ⟨?_, fun composed done => ?_⟩,
    fun first firstMem second secondMem stored stored' => ?_⟩
  · obtain ⟨values, acceptable, -⟩ := exists_acceptable resource.identity
    exact ⟨_, (transientName_iff _ (named resource member) stored _).mpr ⟨values, acceptable, rfl⟩⟩
  · exact transientName_iff_of_compose _ (named resource member) stored done
  · exact exists_shared_name_iff (named first firstMem) stored (named second secondMem) stored'

/-- Jobs that are found under their number, and a resource without an identity that is named like
the fifth job. -/
def numbered : List (String × Config.Resource) :=
  [("job",
    { listing "job" "/acme/v1/jobs" with
      routes := { get := some ⟨"/acme/v1/jobs/:id", .get, none⟩ }
      identity := some ⟨.number, none⟩ }),
   ("other", listing "job-5" "/acme/v1/job-5")]

/-- A text that declares these resources. -/
def numberedSource : String :=
  "version = 1\nnamespace = \"acme\"\n[resources.job]\nname = \"job\"\nschema = \"auto\"\n" ++
    "identity.type = \"number\"\nstorage.mode = \"transient\"\n" ++
    "routes.get.path = \"/acme/v1/jobs/:id\"\nroutes.get.method = \"GET\"\n" ++
    "[resources.other]\nname = \"job-5\"\nschema = \"auto\"\nstorage.mode = \"transient\"\n" ++
    "routes.list.path = \"/acme/v1/job-5\"\nroutes.list.method = \"GET\"\n"

theorem parse_numbered : Config.parse .toml numberedSource = .ok ((acme numbered).config, []) := by
  have literal {l : List Char} : (String.ofList l).toList = l := String.toList_ofList
  exact Config.parse_eq_ok_of_toList (toList_append_eq (toList_append_eq (toList_append_eq
    (toList_append_eq literal literal) literal) literal) literal) (by decide +kernel)
    (by decide +kernel)

/-- The two resources in the representation. -/
theorem exists_numbered : ∃ parts : Core.Parts (acme numbered), parts.ir.info.slug = "acme" ∧
    ∃ job ∈ parts.ir.resources, ∃ other ∈ parts.ir.resources,
      job.name = "job" ∧ job.identity = some ⟨.number, "id"⟩ ∧ job.storage = some .transient ∧
      other.name = "job-5" ∧ other.identity = none ∧ other.storage = some .transient := by
  have sorted : numbered.Pairwise fun first second => declarationLe first second = true := by
    decide +kernel
  have resolved : (buildResourceList "acme" { schemas := [] } numbered).toOption.map
      (fun built => built.1.map fun resource =>
        (resource.name, resource.identity, resource.storage)) =
      some [("job", some ⟨.number, "id"⟩, some .transient), ("job-5", none, some .transient)] := by
    decide +kernel
  obtain ⟨⟨built, table⟩, found, described⟩ := Option.map_eq_some_iff.mp resolved
  have builtEq := eq_ok_of_toOption found
  obtain ⟨parts, slugEq⟩ :=
    exists_parts_acme _ sorted ⟨_, builtEq⟩ (exists_eq_ok (by decide +kernel))
  have declaredEq : parts.declared = [] := (Except.ok.inj parts.declared_eq).symm
  obtain ⟨others, othersEq, resourcesEq⟩ := exists_list_of_buildResources parts.resources_eq
  have sortedEq : (acme numbered).config.resources.mergeSort declarationLe = numbered :=
    List.mergeSort_of_pairwise sorted
  have infoEq : parts.info.slug = "acme" := slugEq
  rw [sortedEq, infoEq, declaredEq, builtEq] at othersEq
  obtain ⟨rfl, -⟩ := Prod.mk.inj (Except.ok.inj othersEq)
  have listed {resource : Resource} (member : resource ∈ built) :
      resource ∈ parts.ir.resources :=
    List.mem_mergeSort.mpr (resourcesEq ▸ List.mem_mergeSort.mpr member)
  have find {fact : String × Option Identity × Option Storage}
      (member : fact ∈ [("job", some ⟨.number, "id"⟩, some .transient),
        ("job-5", none, some .transient)]) :
      ∃ resource ∈ built, (resource.name, resource.identity, resource.storage) = fact := by
    rw [← described] at member
    exact List.mem_map.mp member
  obtain ⟨job, jobMem, jobEq⟩ := find List.mem_cons_self
  obtain ⟨other, otherMem, otherEq⟩ := find (List.mem_cons_of_mem _ List.mem_cons_self)
  simp only [Prod.mk.injEq] at jobEq otherEq
  exact ⟨parts, slugEq, job, listed jobMem, other, listed otherMem, jobEq.1, jobEq.2.1, jobEq.2.2,
    otherEq.1, otherEq.2.1, otherEq.2.2⟩

theorem transients_shared_iff_overlap_jobs :
    ∃ ir, Config.parse .toml numberedSource = .ok ((acme numbered).config, []) ∧
      Ir.build (acme numbered) = .ok ir ∧
      ∃ job ∈ ir.resources, ∃ other ∈ ir.resources, job.name = "job" ∧ other.name = "job-5" ∧
        Overlap job other ∧ ∃ name, TransientName ir job name ∧ TransientName ir other name := by
  obtain ⟨parts, -, job, jobMem, other, otherMem, jobName, jobIdentity, jobStored, otherName,
    otherIdentity, otherStored⟩ := exists_numbered
  obtain ⟨-, pairs⟩ := transients_shared_iff_overlap parse_numbered rfl parts.build_eq
  have spelled : snakeCase "job-5" = snakeCase "job" ++ "_" ++ "5" := by decide
  have overlap : Overlap job other := by
    refine .inr (.inl ⟨"5", ?_, .inr ⟨?_, otherIdentity, 5, by decide, by decide, by decide⟩⟩)
    · rw [jobName, otherName, spelled]
    · rw [jobIdentity]
      rfl
  exact ⟨parts.ir, parse_numbered, parts.build_eq, job, jobMem, other, otherMem, jobName, otherName,
    overlap, (pairs job jobMem other otherMem jobStored otherStored).mpr overlap⟩

/-- The names `job` and `job-5` are different, but the fifth job is stored where the other resource
is. -/
theorem transient_shared_of_numbered_name :
    ∃ ir, Config.parse .toml numberedSource = .ok ((acme numbered).config, []) ∧
      Ir.build (acme numbered) = .ok ir ∧
      ∃ job ∈ ir.resources, ∃ other ∈ ir.resources, job.name = "job" ∧ other.name = "job-5" ∧
        job ≠ other ∧ job.storage = some .transient ∧ other.storage = some .transient ∧
        TransientName ir job "acme_job_5" ∧ TransientName ir other "acme_job_5" := by
  obtain ⟨parts, slugEq, job, jobMem, other, otherMem, jobName, jobIdentity, jobStored, otherName,
    otherIdentity, otherStored⟩ := exists_numbered
  have named := wellNamed_of_parts (Config.checked_of_parse parse_numbered) parts
  refine ⟨parts.ir, parse_numbered, parts.build_eq, job, jobMem, other, otherMem, jobName,
    otherName, ?_, jobStored, otherStored, ?_, ?_⟩
  · rintro rfl
    rw [jobName] at otherName
    exact absurd otherName (by decide)
  · rw [transientName_iff _ (named job jobMem) jobStored, jobIdentity]
    refine ⟨[.int 5], .number (by decide) (by decide), ?_⟩
    rw [transientKey, slugEq, jobName]
    decide
  · rw [transientName_iff _ (named other otherMem) otherStored, otherIdentity]
    refine ⟨[], .single, ?_⟩
    rw [transientKey, slugEq, otherName]
    decide

end Plugin

end RestPlugin
