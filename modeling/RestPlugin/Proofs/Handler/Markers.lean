import RestPlugin.Proofs.Handler.Notes
import RestPlugin.Proofs.Handler.Total

/-!
# Audit markers of handlers

Nine markers say what a handler does that writes a post: they stand in one order, whatever the
statuses, features, meta keys and taxonomies of the storage, and in an update behind everything that
can refuse the addressed post.  No other handler has a marker.
-/

namespace RestPlugin

open Controller Ir Php Snippet Text

/-- A resource is not stored as posts exactly if its storage is another one or missing. -/
theorem Ir.Resource.post?_eq_none_iff {resource : Resource} :
    resource.post? = none ↔ ∀ storage, resource.storage ≠ some (.post storage) := by
  rw [Resource.post?]
  constructor
  · intro noPost storage stored
    rw [stored] at noPost
    cases noPost
  · intro apart
    split
    · exact absurd ‹_› (apart _)
    · rfl

namespace Handler.Post

variable {resource : Resource} {pascal : String} {identity : Identity} {metadata : Metadata}

/-- The handlers of a resource that is kept in posts. -/
def composers (resource : Resource) (pascal : String) (identity : Identity) (metadata : Metadata) :
    List Composed :=
  [list resource pascal metadata, get resource pascal identity metadata,
    create resource pascal metadata, update resource pascal identity metadata,
    delete resource pascal identity metadata]

/-- The composers of posts compose nothing exactly for resources that are not stored as posts. -/
theorem eq_none_iff_of_mem_composers {composed : Composed}
    (member : composed ∈ composers resource pascal identity metadata) :
    composed = .ok none ↔ resource.post? = none := by
  simp only [composers, List.mem_cons, List.not_mem_nil, or_false] at member
  cases stored : resource.post? with
  | none =>
      rcases member with rfl | rfl | rfl | rfl | rfl <;>
        simp [list, get, create, update, delete, stored]
  | some storage =>
      rcases member with rfl | rfl | rfl | rfl | rfl <;>
        simp [list, get, create, update, delete, stored, bind_eq_ok_iff]

/-- The composers of posts succeed for well-named resources. -/
theorem succeeds_of_mem_composers (word : IsPascal pascal)
    (checked : isIdentifier identity.param = true) (named : resource.WellNamed)
    {composed : Composed} (member : composed ∈ composers resource pascal identity metadata) :
    Succeeds composed := by
  simp only [composers, List.mem_cons, List.not_mem_nil, or_false] at member
  rcases member with rfl | rfl | rfl | rfl | rfl
  · exact succeeds_list word named metadata
  · exact succeeds_get word checked metadata
  · exact succeeds_create word metadata
  · exact succeeds_update word checked metadata
  · exact succeeds_delete word checked metadata

/-- The statements that find a post: the identity is read and guarded, and what
it leads to has to be there. -/
theorem exists_guard_of_resolvePost {resolved : List Stmt}
    (made : resolvePost resource pascal identity = .ok resolved) :
    ∃ read guarded found, identityGuard identity pascal resource.name = .ok guarded ∧
      resolved = read :: guarded ++ [.blank, .setVar "post" found,
        unlessPost (.var "post") [notFound resource.name pascal], .blank] := by
  rw [resolvePost] at made
  simp only [bind_eq_ok_iff, takeIdentity] at made
  obtain ⟨_, ⟨read, -, guarded, guardedEq, taken⟩, _, -, found, -, made⟩ := made
  cases taken
  cases made
  exact ⟨read, guarded, found, guardedEq, by simp⟩

/-- The handler that updates a post first finds it, and what is marked comes after. -/
theorem exists_found_of_update {handler : Handler}
    (made : update resource pascal identity metadata = .ok (some handler)) :
    ∃ resolved written, resolvePost resource pascal identity = .ok resolved ∧
      handler.body = resolved ++ written ∧ Marked auditMarkers written := by
  rw [update] at made
  split at made
  · cases made
  · obtain ⟨body, bodyEq, made⟩ := bind_eq_ok_iff.mp made
    cases made
    exact exists_found_of_updateBody bodyEq

/-- Each handler exists exactly if the resource is kept in posts, and then it is composed if its
names are identifiers.  One that creates a post carries the nine markers in their order, one that
updates a post carries them behind the guard of the identity and the check that there is such a
post, and the others carry none. -/
theorem composers_marked (resource : Resource) (pascal : String) (identity : Identity)
    (metadata : Metadata) :
    (∀ composed ∈ composers resource pascal identity metadata,
      (composed = .ok none ↔ ∀ storage, resource.storage ≠ some (.post storage)) ∧
      (IsPascal pascal → isIdentifier identity.param = true → resource.WellNamed →
        Succeeds composed)) ∧
    (∀ handler, create resource pascal metadata = .ok (some handler) →
      markersIn handler.body = auditMarkers ∧ countMarkers handler.body = 9) ∧
    (∀ handler, update resource pascal identity metadata = .ok (some handler) →
      markersIn handler.body = auditMarkers ∧ countMarkers handler.body = 9 ∧
      ∃ read guarded found written,
        identityGuard identity pascal resource.name = .ok guarded ∧
        handler.body = read :: guarded ++ [.blank, .setVar "post" found,
          unlessPost (.var "post") [notFound resource.name pascal], .blank] ++ written ∧
        markersIn written = auditMarkers) ∧
    ∀ composed ∈ [list resource pascal metadata, get resource pascal identity metadata,
        delete resource pascal identity metadata],
      ∀ handler, composed = .ok (some handler) →
        markersIn handler.body = [] ∧ countMarkers handler.body = 0 := by
  have count {stmts : List Stmt} (marked : markersIn stmts = auditMarkers) :
      countMarkers stmts = 9 := by
    rw [countMarkers_eq_length, marked]
    rfl
  refine ⟨fun composed member => ⟨?_, ?_⟩, ?_, ?_, ?_⟩
  · rw [eq_none_iff_of_mem_composers member, Resource.post?_eq_none_iff]
  · exact fun word checked named => succeeds_of_mem_composers word checked named member
  · intro handler made
    have marked := (marked_create _ made handler rfl).markers
    exact ⟨marked, count marked⟩
  · intro handler made
    obtain ⟨resolved, written, resolvedEq, bodyEq, marked⟩ := exists_found_of_update made
    have silent := silent_resolvePost resolved resolvedEq
    have all : markersIn handler.body = auditMarkers := by
      rw [bodyEq, markersIn_append, silent.marked.markers, marked.markers, List.nil_append]
    obtain ⟨read, guarded, found, guardedEq, rfl⟩ := exists_guard_of_resolvePost resolvedEq
    exact ⟨all, count all, read, guarded, found, written, guardedEq, bodyEq, marked.markers⟩
  · have silent : ∀ composed ∈
        [list resource pascal metadata, get resource pascal identity metadata,
          delete resource pascal identity metadata], EnsuresBody Silent composed := by
      simp [silent_list, silent_get, silent_delete]
    intro composed member handler made
    have unmarked := (silent composed member _ made handler rfl).marked.markers
    exact ⟨unmarked, by rw [countMarkers_eq_length, unmarked, List.length_nil]⟩

/-- A resource that is kept in posts, with a status, a feature, a meta key and a taxonomy. -/
def leaflet : Resource :=
  { (default : Resource) with
    name := "leaflet"
    storage := some (.post ⟨"leaflet", ["draft"], [.title], [("pages", ⟨.integer, true⟩)],
      [("topic", ⟨"topic", false, false⟩)]⟩) }

theorem composers_marked_leaflet :
    (∃ handler, create leaflet "Leaflet" (.ofResource leaflet) = .ok (some handler) ∧
      countMarkers handler.body = 9) ∧
    (∃ handler, update leaflet "Leaflet" ⟨.number, "id"⟩ (.ofResource leaflet) =
        .ok (some handler) ∧ markersIn handler.body = auditMarkers) ∧
    ∃ handler, delete leaflet "Leaflet" ⟨.number, "id"⟩ (.ofResource leaflet) =
        .ok (some handler) ∧ countMarkers handler.body = 0 := by
  obtain ⟨each, created, updated, others⟩ :=
    composers_marked leaflet "Leaflet" ⟨.number, "id"⟩ (.ofResource leaflet)
  have spelled : pascalCase "leaflet" = "Leaflet" := by decide +kernel
  have word : IsPascal "Leaflet" := spelled ▸ isPascal_pascalCase "leaflet"
  have named : leaflet.WellNamed := by
    constructor
    · exact nofun
    · rintro storage ⟨⟩
      decide +kernel
    · rintro storage ⟨⟩
      decide +kernel
  have composed (made : Composed)
      (member : made ∈ composers leaflet "Leaflet" ⟨.number, "id"⟩ (.ofResource leaflet)) :
      ∃ handler, made = .ok (some handler) := by
    obtain ⟨isNone, succeeds⟩ := each made member
    obtain ⟨found, foundEq⟩ := succeeds word (by decide) named
    cases found with
    | none => exact absurd rfl (isNone.mp foundEq _)
    | some handler => exact ⟨handler, foundEq⟩
  obtain ⟨creator, creatorEq⟩ := composed
    (create leaflet "Leaflet" (.ofResource leaflet)) (by simp [composers])
  obtain ⟨updater, updaterEq⟩ := composed
    (update leaflet "Leaflet" ⟨.number, "id"⟩ (.ofResource leaflet)) (by simp [composers])
  obtain ⟨deleter, deleterEq⟩ := composed
    (delete leaflet "Leaflet" ⟨.number, "id"⟩ (.ofResource leaflet)) (by simp [composers])
  exact ⟨⟨creator, creatorEq, (created creator creatorEq).2⟩,
    ⟨updater, updaterEq, (updated updater updaterEq).1⟩,
    deleter, deleterEq, (others _ (by simp) deleter deleterEq).2⟩

/-- The markers as they are printed. -/
example : (stmtNotes auditMarkers).map Note.line =
    ["// @wp-kernel resource.wpPost.mutation status-validation",
     "// @wp-kernel resource.wpPost.mutation.status normalise",
     "// @wp-kernel resource.wpPost.mutation sync-meta",
     "// @wp-kernel resource.wpPost.mutation.meta update",
     "// @wp-kernel resource.wpPost.mutation sync-taxonomies",
     "// @wp-kernel resource.wpPost.mutation.taxonomies update",
     "// @wp-kernel resource.wpPost.mutation cache-priming",
     "// @wp-kernel resource.wpPost.mutation.cache prime",
     "// @wp-kernel resource.wpPost.mutation.cacheSegment prime"] := by
  decide +kernel

end Handler.Post

end RestPlugin
