import RestPlugin.Proofs.Ir.Declarations
import RestPlugin.Proofs.Ir.Reordering

/-!
# Post types

An inferred post type consists of the slugs of the namespace and of the resource, cut to what
WordPress allows.  Resources are resolved in the order of their names.  So the first one that comes
to a post type is the one with the smallest name, and every later one is reported along with it.
-/

namespace RestPlugin

open Text

namespace Ir

open Pipeline

/-! ## Inferred post types -/

/-- A text that WordPress takes for a post type. -/
structure IsPostType (text : String) : Prop where
  nonempty : text ≠ ""
  short : text.length ≤ 20
  chars : ∀ c ∈ text.toList, isUnderscoreChar c = true

/-- The slug of a namespace and, behind an underscore, that of a resource name if there is one. -/
def namespacedSlug (resource slug : String) : String :=
  if underscoreSlug resource = "" then underscoreSlug slug
  else underscoreSlug slug ++ "_" ++ underscoreSlug resource

theorem joinedSlugs_eq {resource slug : String} (named : underscoreSlug slug ≠ "") :
    joinedSlugs resource slug = namespacedSlug resource slug := by
  have kept : [underscoreSlug slug, underscoreSlug resource].filter (· != "") =
      underscoreSlug slug :: [underscoreSlug resource].filter (· != "") :=
    List.filter_cons_of_pos (bne_iff_ne.mpr named)
  rw [joinedSlugs, namespacedSlug, kept, List.isEmpty_cons, if_neg Bool.false_ne_true]
  by_cases noSlug : underscoreSlug resource = ""
  · rw [if_pos noSlug, List.filter_cons_of_neg (by simp [noSlug])]
    rfl
  · rw [if_neg noSlug, List.filter_cons_of_pos (by simp [noSlug])]
    rfl

/-- A namespaced slug has small letters, digits and underscores only. -/
theorem isUnderscoreChar_of_mem_namespacedSlug {resource slug : String} :
    ∀ c ∈ (namespacedSlug resource slug).toList, isUnderscoreChar c = true := by
  intro c member
  rw [namespacedSlug] at member
  split at member
  · exact isUnderscoreChar_of_mem_underscoreSlug c member
  · rw [String.toList_append, String.toList_append, List.mem_append, List.mem_append] at member
    rcases member with (inNamespace | between) | inResource
    · exact isUnderscoreChar_of_mem_underscoreSlug c inNamespace
    · obtain rfl : c = '_' := List.mem_singleton.mp between
      rfl
    · exact isUnderscoreChar_of_mem_underscoreSlug c inResource

theorem namespacedSlug_ne_empty {resource slug : String} (named : underscoreSlug slug ≠ "") :
    namespacedSlug resource slug ≠ "" := by
  rw [namespacedSlug]
  split
  · exact named
  · intro isEmpty
    rw [String.append_eq_empty_iff, String.append_eq_empty_iff] at isEmpty
    exact named isEmpty.1.1

theorem utf8Len_of_ascii {chars : List Char} (ascii : ∀ c ∈ chars, c.toNat < 0x80) :
    String.utf8Len chars = chars.length := by
  induction chars with
  | nil => rfl
  | cons c rest ih =>
      rw [List.forall_mem_cons] at ascii
      have single : c.utf8Size = 1 :=
        Char.utf8Size_eq_one_iff.mpr (UInt32.le_iff_toNat_le.mpr (Nat.le_of_lt_succ ascii.1))
      rw [String.utf8Len_cons, ih ascii.2, single, List.length_cons]

/-- It does not matter whether the length of joined slugs is taken in bytes or in characters. -/
theorem utf8ByteSize_namespacedSlug (resource slug : String) :
    (namespacedSlug resource slug).utf8ByteSize = (namespacedSlug resource slug).length := by
  have ascii : String.utf8Len (namespacedSlug resource slug).toList = _ :=
    utf8Len_of_ascii fun c member =>
      toNat_lt_of_isUnderscoreChar (isUnderscoreChar_of_mem_namespacedSlug c member)
  rwa [← String.utf8ByteSize_ofList, String.ofList_toList, String.length_toList] at ascii

/-- An inferred post type is the beginning of the joined slugs, and it is said
if that is not all. -/
theorem inferPostType_eq {resource slug : String} (named : underscoreSlug slug ≠ "") :
    (inferPostType resource slug).1.toList = (namespacedSlug resource slug).toList.take 20 ∧
      (inferPostType resource slug).2.map Warning.code =
        if 20 < (namespacedSlug resource slug).length then some "storage.wpPost.postType.truncated"
        else none := by
  rw [inferPostType, joinedSlugs_eq named]
  dsimp only
  by_cases short : (namespacedSlug resource slug).length ≤ 20
  · rw [if_pos (show _ ≤ maxPostTypeLength from short), if_neg (Nat.not_lt.mpr short)]
    refine ⟨(List.take_of_length_le ?_).symm, rfl⟩
    rwa [String.length_toList]
  · rw [if_neg (show ¬_ ≤ maxPostTypeLength from short), if_pos (Nat.not_le.mp short)]
    exact ⟨String.toList_ofList, rfl⟩

/-- An inferred post type is valid. -/
theorem isPostType_inferPostType {resource slug : String} (named : underscoreSlug slug ≠ "") :
    IsPostType (inferPostType resource slug).1 := by
  have cut : (inferPostType resource slug).1.toList = _ := (inferPostType_eq named).1
  constructor
  · intro isEmpty
    rw [isEmpty, String.toList_empty, eq_comm, List.take_eq_nil_iff,
      String.toList_eq_nil_iff] at cut
    rcases cut with absurdLength | noSlug
    · cases absurdLength
    · exact namespacedSlug_ne_empty named noSlug
  · rw [← String.length_toList, cut]
    exact List.length_take_le _ _
  · intro c member
    rw [cut] at member
    exact isUnderscoreChar_of_mem_namespacedSlug c (List.mem_of_mem_take member)

/-! ## The registry of post types -/

/-- The post type of a resource that is kept in posts. -/
def Resource.postType? (resource : Resource) : Option String :=
  resource.post?.map PostStorage.postType

/-- The code of the warnings about post types that several resources come to. -/
def collisionCode : String := "storage.wpPost.postType.collision"

/-- The warnings of a resource about the use of its post type by another one. -/
def Resource.collisions (resource : Resource) : List Warning :=
  resource.warnings.filter (·.code == collisionCode)

/-- The first of some resources with a given post type. -/
def firstWith (postType : String) (resources : List Resource) : Option Resource :=
  resources.find? (·.postType? == some postType)

/-- The warning about the first of the earlier resources that has the post type of a resource. -/
def collisionWith (label : String) (earlier : List Resource) (resource : Resource) :
    Option Warning :=
  resource.postType?.bind fun postType =>
    (firstWith postType earlier).map fun owner =>
      collisionWarning label postType resource.name owner.name

/-- The registry leads from every post type to the first resource that came to it. -/
def PostTypeRegistry.Knows (registry : PostTypeRegistry) (earlier : List Resource) : Prop :=
  ∀ postType, registry.lookup postType = (firstWith postType earlier).map Resource.name

theorem firstWith_concat (postType : String) (earlier : List Resource) (resource : Resource) :
    firstWith postType (earlier ++ [resource]) = (firstWith postType earlier).or
      (if resource.postType? = some postType then some resource else none) := by
  simp [firstWith, List.find?_append, List.find?_singleton]

/-- A resource without a new post type leaves the registry knowing what it knew. -/
theorem PostTypeRegistry.Knows.concat_of_not_new {registry : PostTypeRegistry}
    {earlier : List Resource} (knows : registry.Knows earlier) {resource : Resource}
    (known : ∀ postType ∈ resource.postType?, (firstWith postType earlier).isSome = true) :
    registry.Knows (earlier ++ [resource]) := by
  intro postType
  rw [knows, firstWith_concat]
  split
  · rename_i same
    rw [Option.or_of_isSome (known postType same)]
  · rw [Option.or_none]

section Record

variable {registry : PostTypeRegistry} {earlier : List Resource} (knows : registry.Knows earlier)
  {resource : Resource} {resolution : StorageResolution}
  (storageEq : resource.storage = resolution.storage)
include knows storageEq

/-- What recording one resource can do: it is not kept in posts, or its post type is new, or an
earlier resource has it. -/
theorem record_cases (fresh : resource.name ∉ earlier.map Resource.name) :
    (resource.postType? = none ∧ registry.record resource.name resolution = (none, registry)) ∨
    (∃ postType, resource.postType? = some postType ∧ firstWith postType earlier = none ∧
      registry.record resource.name resolution =
        (none, registry ++ [(postType, resource.name)])) ∨
    ∃ postType owner label, resource.postType? = some postType ∧
      firstWith postType earlier = some owner ∧ registry.record resource.name resolution =
        (some (collisionWarning label postType resource.name owner.name), registry) := by
  rw [Resource.postType?, Resource.post?, storageEq, PostTypeRegistry.record]
  rcases resolution.storage with _ | _ | _ | _ | post
  case some.post =>
    right
    dsimp only
    rw [knows]
    cases found : firstWith post.postType earlier with
    | none => exact .inl ⟨post.postType, rfl, found, rfl⟩
    | some owner =>
        have ownerMem : owner ∈ earlier := List.mem_of_find?_eq_some found
        have other : ¬(owner.name == resource.name) = true :=
          fun same => fresh (beq_iff_eq.mp same ▸ List.mem_map_of_mem ownerMem)
        exact .inr ⟨post.postType, owner, _, rfl, found, if_neg other⟩
  all_goals exact .inl ⟨rfl, rfl⟩

/-- After recording a resource, the registry knows it too. -/
theorem knows_record (fresh : resource.name ∉ earlier.map Resource.name) :
    (registry.record resource.name resolution).2.Knows (earlier ++ [resource]) := by
  rcases record_cases knows storageEq fresh with ⟨noType, recorded⟩ |
    ⟨postType, typeEq, isNew, recorded⟩ | ⟨postType, owner, label, typeEq, found, recorded⟩
  · rw [recorded]
    exact knows.concat_of_not_new (by simp [noType])
  · rw [recorded]
    intro other
    rw [List.lookup_append, knows, firstWith_concat, typeEq]
    by_cases same : postType = other
    · subst same
      rw [isNew, List.lookup_cons_self, if_pos rfl]
      rfl
    · have notFound : [(postType, resource.name)].lookup other = none := by
        rw [List.lookup_cons, beq_eq_false_iff_ne.mpr (Ne.symm same), List.lookup_nil]
      simp [notFound, same]
  · rw [recorded]
    refine knows.concat_of_not_new fun other otherEq => ?_
    rw [typeEq, Option.mem_some] at otherEq
    rw [← otherEq, found, Option.isSome_some]

theorem exists_collisionWith_of_record (fresh : resource.name ∉ earlier.map Resource.name) :
    ∃ label, (registry.record resource.name resolution).1 =
      collisionWith label earlier resource := by
  rcases record_cases knows storageEq fresh with ⟨noType, recorded⟩ |
    ⟨postType, typeEq, isNew, recorded⟩ | ⟨postType, owner, label, typeEq, found, recorded⟩
  · exact ⟨"", by rw [recorded, collisionWith, noType, Option.bind_none]⟩
  · exact ⟨"", by rw [recorded, collisionWith, typeEq, Option.bind_some, isNew, Option.map_none]⟩
  · exact ⟨label, by rw [recorded, collisionWith, typeEq, Option.bind_some, found, Option.map_some]⟩

end Record

/-! ## Collisions -/

/-- The warning about an identity is not about a collision. -/
theorem code_of_resourceIdentity {resource : Config.Resource} {routes : List Route} :
    ∀ warning ∈ (resourceIdentity resource routes).warning, warning.code ≠ collisionCode := by
  have inferred (name : String) :
      ∀ warning ∈ (inferIdentity name routes).warning, warning.code ≠ collisionCode := by
    intro warning member
    rw [inferIdentity] at member
    split at member
    · cases member
      simp [collisionCode]
    · split at member <;> cases member <;> simp [collisionCode]
  intro warning member
  rw [resourceIdentity] at member
  split at member
  · cases member
  · cases declaredEq : resource.identity with
    | none =>
        rw [declaredEq] at member
        exact inferred _ warning member
    | some declared =>
        rw [declaredEq] at member
        cases member

/-- The warnings about a storage are not about a collision. -/
theorem code_of_resolveStorage {name slug : String} {storage : Option Config.Storage} :
    ∀ warning ∈ (resolveStorage name storage slug).warnings, warning.code ≠ collisionCode := by
  rcases storage with _ | _ | _ | _ | declared
  case some.post =>
    rw [resolveStorage]
    dsimp only
    split
    · exact List.forall_mem_nil _
    · rw [inferPostType]
      dsimp only
      split
      · exact List.forall_mem_nil _
      · exact List.forall_mem_singleton.mpr (by simp [collisionCode])
  all_goals exact List.forall_mem_nil _

/-- A collision names the first earlier resource with the post type. -/
theorem collisionWith_eq_some {label : String} {earlier : List Resource} {resource : Resource}
    {warning : Warning} (reported : collisionWith label earlier resource = some warning) :
    ∃ postType, resource.postType? = some postType ∧
      ∃ owner, firstWith postType earlier = some owner ∧
        warning = collisionWarning label postType resource.name owner.name := by
  simp only [collisionWith, Option.bind_eq_some_iff, Option.map_eq_some_iff] at reported
  obtain ⟨postType, typeEq, owner, found, rfl⟩ := reported
  exact ⟨postType, typeEq, owner, found, rfl⟩

theorem code_of_collisionWith {label : String} {earlier : List Resource} {resource : Resource} :
    ∀ warning ∈ collisionWith label earlier resource, warning.code = collisionCode := by
  intro warning member
  obtain ⟨_, _, _, _, rfl⟩ := collisionWith_eq_some member
  rfl

/-- Sorting only permutes the warnings, and one of them can be chosen by its code. -/
theorem filter_sortWarnings {before after : List Warning} {collision : Option Warning}
    (isBefore : ∀ warning ∈ before, warning.code ≠ collisionCode)
    (isCollision : ∀ warning ∈ collision, warning.code = collisionCode)
    (isAfter : ∀ warning ∈ after, warning.code ≠ collisionCode) :
    (sortWarnings (before ++ collision.toList ++ after)).filter (·.code == collisionCode) =
      collision.toList := by
  have apart {warnings : List Warning} (each : ∀ warning ∈ warnings, warning.code ≠ collisionCode) :
      warnings.filter (·.code == collisionCode) = [] := by
    simpa using each
  have chosen : collision.toList.filter (·.code == collisionCode) = collision.toList := by
    simpa using isCollision
  have sorted := (List.mergeSort_perm (before ++ collision.toList ++ after) Warning.le).filter
    (·.code == collisionCode)
  rw [List.filter_append, List.filter_append, apart isBefore, apart isAfter, chosen,
    List.nil_append, List.append_nil] at sorted
  cases collision with
  | none => exact sorted.eq_nil
  | some warning => exact sorted.eq_singleton

/-- What resolving a resource does to the registry, and the warnings that it collects. -/
theorem buildResource_warnings {slug key : String} {claims after : Claims}
    {resource : Config.Resource} {built : Resource}
    (resolved : buildResource slug claims key resource = .ok (built, after)) :
    after.postTypes = (claims.postTypes.record resource.name
        (resolveStorage resource.name resource.storage slug)).2 ∧
      built.warnings = sortWarnings ((resourceIdentity resource built.routes).warning.toList ++
        (claims.postTypes.record resource.name
          (resolveStorage resource.name resource.storage slug)).1.toList ++
        (resolveStorage resource.name resource.storage slug).warnings) := by
  rw [buildResource] at resolved
  simp only [bind_eq_ok_iff] at resolved
  obtain ⟨routes, -, _, -, _, -, resolved⟩ := resolved
  cases resolved
  exact ⟨rfl, rfl⟩

/-- Resolving a resource records its post type and reports a collision at most once. -/
theorem collisions_of_buildResource {slug key : String} {claims after : Claims}
    {resource : Config.Resource} {built : Resource} {earlier : List Resource}
    (knows : claims.postTypes.Knows earlier) (fresh : resource.name ∉ earlier.map Resource.name)
    (resolved : buildResource slug claims key resource = .ok (built, after)) :
    after.postTypes.Knows (earlier ++ [built]) ∧
      ∃ label, built.collisions = (collisionWith label earlier built).toList := by
  obtain ⟨nameEq, -, storageEq⟩ := buildResource_fields resolved
  obtain ⟨registryEq, warningsEq⟩ := buildResource_warnings resolved
  rw [← nameEq] at fresh storageEq registryEq warningsEq
  obtain ⟨label, collisionEq⟩ := exists_collisionWith_of_record knows storageEq fresh
  refine ⟨registryEq ▸ knows_record knows storageEq fresh, label, ?_⟩
  rw [Resource.collisions, warningsEq, collisionEq]
  exact filter_sortWarnings (by simpa using code_of_resourceIdentity) code_of_collisionWith
    code_of_resolveStorage

/-- Of resources that are resolved one after another, each is reported with the first earlier one
that has its post type. -/
theorem collisions_of_buildResourceList {slug : String} {claims : Claims}
    {declared : List (String × Config.Resource)} {resources earlier : List Resource}
    {table : SchemaTable} (knows : claims.postTypes.Knows earlier)
    (distinct : (earlier.map Resource.name ++ declared.map (·.2.name)).Nodup)
    (resolved : buildResourceList slug claims declared = .ok (resources, table)) :
    ∀ before resource after, resources = before ++ resource :: after →
      ∃ label, resource.collisions = (collisionWith label (earlier ++ before) resource).toList := by
  induction declared generalizing claims earlier resources with
  | nil =>
      cases resolved
      intro before resource after place
      exact absurd place.symm (by simp)
  | cons entry rest ih =>
      rw [buildResourceList] at resolved
      simp only [bind_eq_ok_iff] at resolved
      obtain ⟨⟨built, between⟩, builtEq, ⟨others, last⟩, othersEq, resolved⟩ := resolved
      cases resolved
      rw [List.map_cons, List.nodup_middle, List.nodup_cons] at distinct
      have fresh : entry.2.name ∉ earlier.map Resource.name :=
        fun member => distinct.1 (List.mem_append_left _ member)
      obtain ⟨knowsNext, reported⟩ := collisions_of_buildResource knows fresh builtEq
      intro before resource after place
      cases before with
      | nil =>
          obtain ⟨rfl, -⟩ := List.cons.inj place
          rwa [List.append_nil]
      | cons first before =>
          obtain ⟨rfl, placeLater⟩ := List.cons.inj place
          have nameEq := (buildResource_fields builtEq).1
          have distinctNext :
              ((earlier ++ [built]).map Resource.name ++ rest.map (·.2.name)).Nodup := by
            rw [List.map_append, List.map_singleton, nameEq, List.append_assoc,
              List.singleton_append, List.nodup_middle, List.nodup_cons]
            exact distinct
          have later := ih knowsNext distinctNext othersEq before resource after placeLater
          rwa [List.append_assoc] at later

/-! ## Collisions in a representation -/

/-- Two resources are kept in posts of the same type. -/
def SharePostType (first second : Resource) : Prop :=
  ∃ postType, first.postType? = some postType ∧ second.postType? = some postType

/-- The owner of the post type of a resource has the smallest name of all that share it. -/
structure OwnsPostType (resources : List Resource) (resource owner : Resource) : Prop where
  mem : owner ∈ resources
  shared : SharePostType owner resource
  least : ∀ other ∈ resources, SharePostType other resource → owner.name ≤ other.name

section Ascending

variable {before after : List Resource} {resource : Resource}
  (ascending : (before ++ resource :: after).Pairwise fun first second => first.name < second.name)
include ascending

theorem mem_of_name_lt {other : Resource} (member : other ∈ before ++ resource :: after)
    (smaller : other.name < resource.name) : other ∈ before := by
  obtain ⟨-, below, -⟩ := List.pairwise_append.mp ascending
  rw [List.pairwise_cons] at below
  rcases List.mem_append.mp member with inBefore | inRest
  · exact inBefore
  · rcases List.mem_cons.mp inRest with rfl | inAfter
    · exact absurd smaller (lt_irrefl _)
    · exact absurd smaller (lt_asymm (below.1 other inAfter))

/-- Where names ascend, the first earlier resource with the post type has the smallest name. -/
theorem ownsPostType_of_firstWith {postType : String} {owner : Resource}
    (typeEq : resource.postType? = some postType) (found : firstWith postType before = some owner) :
    OwnsPostType (before ++ resource :: after) resource owner ∧ owner.name < resource.name := by
  obtain ⟨ownerType, above, below, rfl, others⟩ := List.find?_eq_some_iff_append.mp found
  rw [beq_iff_eq] at ownerType
  rw [List.append_assoc, List.cons_append] at ascending ⊢
  obtain ⟨-, fromOwner, -⟩ := List.pairwise_append.mp ascending
  obtain ⟨smaller, -⟩ := List.pairwise_cons.mp fromOwner
  refine ⟨⟨List.mem_append_right _ List.mem_cons_self, ⟨postType, ownerType, typeEq⟩, ?_⟩, ?_⟩
  · rintro other member ⟨shared, otherType, sharedEq⟩
    rw [typeEq, Option.some_inj] at sharedEq
    subst sharedEq
    rcases List.mem_append.mp member with inAbove | fromOwner
    · exact absurd otherType (by simpa using others other inAbove)
    · rcases List.mem_cons.mp fromOwner with rfl | inRest
      · exact le_rfl
      · exact (smaller other inRest).le
  · exact smaller resource (List.mem_append_right _ List.mem_cons_self)

/-- A collision is told exactly if a resource with a smaller name shares the post type. -/
theorem collisionWith_isSome_iff {label : String} :
    (collisionWith label before resource).isSome = true ↔
      ∃ other ∈ before ++ resource :: after,
        SharePostType other resource ∧ other.name < resource.name := by
  constructor
  · intro reported
    obtain ⟨warning, warningEq⟩ := Option.isSome_iff_exists.mp reported
    obtain ⟨postType, typeEq, owner, found, -⟩ := collisionWith_eq_some warningEq
    obtain ⟨owns, smaller⟩ := ownsPostType_of_firstWith ascending typeEq found
    exact ⟨owner, owns.mem, owns.shared, smaller⟩
  · rintro ⟨other, member, ⟨postType, otherType, typeEq⟩, smaller⟩
    have found : (firstWith postType before).isSome = true :=
      List.find?_isSome.mpr ⟨other, mem_of_name_lt ascending member smaller, by simp [otherType]⟩
    obtain ⟨owner, ownerEq⟩ := Option.isSome_iff_exists.mp found
    simp [collisionWith, typeEq, ownerEq]

end Ascending

/-- The names of resources that are resolved in order ascend, if they differ. -/
theorem pairwise_name_lt_of_buildResourceList {slug : String} {claims : Claims}
    {declared : List (String × Config.Resource)} {resources : List Resource} {table : SchemaTable}
    (distinct : ((declared.mergeSort declarationLe).map (·.2.name)).Nodup)
    (resolved : buildResourceList slug claims (declared.mergeSort declarationLe) =
      .ok (resources, table)) :
    resources.Pairwise fun first second => first.name < second.name := by
  have sorted := compares_declarationLe.pairwise_mergeSort declared
  have ascending : (resources.map Resource.name).Pairwise (· < ·) := by
    rw [map_name_of_buildResourceList resolved, List.pairwise_map]
    rw [List.Nodup, List.pairwise_map] at distinct
    refine (sorted.and distinct).imp ?_
    rintro first second ⟨le, ne⟩
    rw [declarationKey, declarationKey, Prod.Lex.toLex_le_toLex] at le
    exact le.resolve_right fun same => ne same.1
  exact List.pairwise_map.mp ascending

/-- In a representation whose names differ, a resource is reported with the first one that has its
post type among those with smaller names. -/
theorem exists_collisionWith_of_parts {loaded : Config.Loaded} (parts : Core.Parts loaded)
    (distinct : (loaded.config.resources.map (·.2.name)).Nodup) {resource : Resource}
    (member : resource ∈ parts.ir.resources) :
    ∃ before after label,
      (before ++ resource :: after).Pairwise (fun first second => first.name < second.name) ∧
      (∀ other, other ∈ parts.ir.resources ↔ other ∈ before ++ resource :: after) ∧
      resource.collisions = (collisionWith label before resource).toList := by
  obtain ⟨resolved, resolvedEq, sortedEq⟩ := exists_list_of_buildResources parts.resources_eq
  have same (other : Resource) : other ∈ parts.ir.resources ↔ other ∈ resolved := by
    change other ∈ parts.resources.mergeSort Resource.le ↔ _
    rw [List.mem_mergeSort, sortedEq, List.mem_mergeSort]
  have apart : ((loaded.config.resources.mergeSort declarationLe).map (·.2.name)).Nodup :=
    ((List.mergeSort_perm _ _).map _).nodup_iff.mpr distinct
  have ascending := pairwise_name_lt_of_buildResourceList apart resolvedEq
  have reports : ∀ before resource after, resolved = before ++ resource :: after →
      ∃ label, resource.collisions = (collisionWith label ([] ++ before) resource).toList :=
    collisions_of_buildResourceList (fun _ => rfl) apart resolvedEq
  obtain ⟨before, after, rfl⟩ := List.append_of_mem ((same resource).mp member)
  obtain ⟨label, reported⟩ := reports before resource after rfl
  exact ⟨before, after, label, ascending, same, reported⟩

/-- An inferred post type is one that WordPress takes: the first twenty characters of the joined
slugs, with a warning exactly if there are more.  In a representation whose names differ, a resource
is reported exactly if one with a smaller name is kept in posts of the same type, and what is
reported names the one of them with the smallest name. -/
theorem postTypes_inferred_and_flagged :
    (∀ declared slug resource, sanitizeNamespace declared = some slug →
      IsPostType (inferPostType resource slug).1 ∧
        (namespacedSlug resource slug).utf8ByteSize = (namespacedSlug resource slug).length ∧
        (inferPostType resource slug).1.toList = (namespacedSlug resource slug).toList.take 20 ∧
        (inferPostType resource slug).2.map Warning.code =
          if 20 < (namespacedSlug resource slug).length then
            some "storage.wpPost.postType.truncated"
          else none) ∧
    ∀ loaded ir, (loaded.config.resources.map (·.2.name)).Nodup → build loaded = .ok ir →
      ∀ resource ∈ ir.resources,
        ((∃ warning ∈ resource.warnings, warning.code = collisionCode) ↔
          ∃ other ∈ ir.resources, SharePostType other resource ∧ other.name < resource.name) ∧
        ∀ warning ∈ resource.warnings, warning.code = collisionCode →
          ∃ postType label owner, resource.postType? = some postType ∧
            OwnsPostType ir.resources resource owner ∧ owner.name < resource.name ∧
            warning = collisionWarning label postType resource.name owner.name := by
  constructor
  · intro declared slug resource sanitised
    have named := underscoreSlug_ne_empty_of_sanitizeNamespace sanitised
    exact ⟨isPostType_inferPostType named, utf8ByteSize_namespacedSlug resource slug,
      inferPostType_eq named⟩
  · intro loaded ir distinct built resource member
    obtain ⟨parts, rfl⟩ := Core.exists_parts_of_build built
    obtain ⟨before, after, label, ascending, same, reported⟩ :=
      exists_collisionWith_of_parts parts distinct member
    have flagged (warning : Warning) : warning ∈ resource.warnings ∧ warning.code = collisionCode ↔
        collisionWith label before resource = some warning := by
      rw [← Option.mem_toList, ← reported, Resource.collisions, List.mem_filter, beq_iff_eq]
    constructor
    · simp only [flagged, same]
      rw [← Option.isSome_iff_exists, collisionWith_isSome_iff ascending]
    · intro warning inWarnings isCollision
      obtain ⟨postType, typeEq, owner, found, warningEq⟩ :=
        collisionWith_eq_some ((flagged warning).mp ⟨inWarnings, isCollision⟩)
      obtain ⟨owns, smaller⟩ := ownsPostType_of_firstWith ascending typeEq found
      refine ⟨postType, label, owner, typeEq, ⟨(same owner).mpr owns.mem, owns.shared, ?_⟩, smaller,
        warningEq⟩
      exact fun other otherMem => owns.least other ((same other).mp otherMem)

/-- Two resources that are kept in posts of the type `note`. -/
def memos : Config.Loaded where
  config :=
    { version := some 1
      declaredNamespace := "acme"
      schemas := []
      resources := [entry "memo" "/memos", entry "note" "/notes"]
      capabilities := none }
  sourcePath := "wpk.config.toml"
where
  /-- A resource with one route. -/
  entry (name path : String) : String × Config.Resource :=
    (name,
      { name
        routes := { list := some ⟨path, .get, none⟩ }
        identity := none
        storage := some (.post ⟨some "note", [], [], [], []⟩)
        schema := none
        cacheKeys := none
        queryParams := none
        capabilities := none })

/-- The second of them is reported. -/
theorem postTypes_inferred_and_flagged_memos :
    (sanitizeNamespace "acme" = some "acme" ∧ IsPostType (inferPostType "memo" "acme").1) ∧
    (memos.config.resources.map (·.2.name)).Nodup ∧
    ∃ ir, build memos = .ok ir ∧ ∃ resource ∈ ir.resources, resource.name = "note" ∧
      ∃ warning ∈ resource.warnings, warning.code = collisionCode := by
  have sanitised : sanitizeNamespace "acme" = some "acme" := by decide +kernel
  have distinct : (memos.config.resources.map (·.2.name)).Nodup := by decide
  have sortedEq : memos.config.resources.mergeSort declarationLe = memos.config.resources :=
    List.mergeSort_of_pairwise (by decide)
  have succeeds : (build memos).isOk = true := by
    rw [build]
    simp only [buildResources, sortedEq]
    decide +kernel
  obtain ⟨ir, built⟩ := exists_eq_ok succeeds
  obtain ⟨parts, rfl⟩ := Core.exists_parts_of_build built
  obtain ⟨memo, memoMem, _, _, memoBuilt⟩ := parts.exists_resource _ List.mem_cons_self
  obtain ⟨note, noteMem, _, _, noteBuilt⟩ :=
    parts.exists_resource _ (List.mem_cons_of_mem _ List.mem_cons_self)
  obtain ⟨memoName, -, memoStorage⟩ := buildResource_fields memoBuilt
  obtain ⟨noteName, -, noteStorage⟩ := buildResource_fields noteBuilt
  have shared : SharePostType memo note := by
    refine ⟨"note", ?_, ?_⟩
    · rw [Resource.postType?, Resource.post?, memoStorage]
      rfl
    · rw [Resource.postType?, Resource.post?, noteStorage]
      rfl
  have smaller : memo.name < note.name := by
    rw [memoName, noteName]
    decide
  refine ⟨⟨sanitised, (postTypes_inferred_and_flagged.1 _ _ _ sanitised).1⟩, distinct, _, built,
    note, noteMem, noteName, ?_⟩
  exact (postTypes_inferred_and_flagged.2 memos _ distinct built note noteMem).1.mpr
    ⟨memo, memoMem, shared, smaller⟩

end Ir

end RestPlugin
