import Mathlib.Data.List.FinRange
import RestPlugin.Controller.Kind
import RestPlugin.Proofs.Except
import RestPlugin.Proofs.Ir.Paths
import RestPlugin.Proofs.Keyed

/-!
# Classification of routes

The kind of a route depends on the other routes through the base paths, and of these only which
paths are among them matters.  So the order of the routes does not, and the base paths can be
described without the lists they are computed by.
-/

namespace RestPlugin

open Ir

namespace Controller

/-! ## The rule -/

/-- A part of a path between two slashes. -/
def IsSegment (part : String) : Prop := part ≠ "" ∧ '/' ∉ part.toList

/-- A path that consists of a base without placeholders and of the placeholder `param`, which is one
segment, so that no path addresses an item by a parameter with a slash. -/
def AddressesItem (param base path : String) : Prop :=
  ∃ parts, base = pathOf parts ∧ path = pathOf (parts ++ [":" ++ param]) ∧
    (∀ part ∈ parts, IsSegment part ∧ part.toList.head? ≠ some ':') ∧ IsSegment (":" ++ param)

/-- A route of the list works on the single items below a base. -/
def HasItems (routes : List Route) (param : Option String) (base : String) : Prop :=
  ∃ name ∈ param, ∃ route ∈ routes, AddressesItem name base route.path

/-- The path of a collection: it has items below it or, where there are no items at all, it is a
shortest one of the paths without a colon and has at most one segment. -/
inductive IsCollection (routes : List Route) (param : Option String) (path : String) : Prop where
  | above (items : HasItems routes param path)
  | shortest (noItems : ∀ base, ¬HasItems routes param base) (static : ':' ∉ path.toList)
      (shallow : (segments path).length ≤ 1)
      (least : ∀ other ∈ routes, ':' ∉ other.path.toList →
        (segments path).length ≤ (segments other.path).length)

/-- What a method does to a single item. -/
def itemKind : Method → RouteKind
  | .get => .get
  | .put | .patch => .update
  | .delete => .remove
  | .post => .custom

/-- What a method does to a collection. -/
def collectionKind : Method → RouteKind
  | .get => .list
  | .post => .create
  | .put | .patch | .delete => .custom

/-- The kind that a route has among the routes of a list. -/
inductive KindByRule (routes : List Route) (param : Option String) (route : Route) :
    RouteKind → Prop where
  | onItem {name base : String} (given : param = some name)
      (item : AddressesItem name base route.path) :
      KindByRule routes param route (itemKind route.method)
  | onCollection (noItem : ∀ name ∈ param, ∀ base, ¬AddressesItem name base route.path)
      (collection : IsCollection routes param route.path) :
      KindByRule routes param route (collectionKind route.method)
  | elsewhere (noItem : ∀ name ∈ param, ∀ base, ¬AddressesItem name base route.path)
      (noCollection : ¬IsCollection routes param route.path) :
      KindByRule routes param route .custom

/-! ## Bases -/

theorem startsWith_colon_iff {part : String} :
    Text.startsWith part ":" = true ↔ part.toList.head? = some ':' := by
  rw [Text.startsWith, List.isPrefixOf_iff_prefix]
  cases part.toList <;> simp [eq_comm]

/-- The base of a path is what stands before its last segment, if this is the placeholder and no
other segment is one. -/
theorem identityBase_eq_some_iff {path param base : String} :
    identityBase path param = some base ↔ ∃ parts, base = pathOf parts ∧
      segments path = parts ++ [":" ++ param] ∧ ∀ part ∈ parts, part.toList.head? ≠ some ':' := by
  have static (parts : List String) : (!(parts.any (Text.startsWith · ":"))) = true ↔
      ∀ part ∈ parts, part.toList.head? ≠ some ':' := by
    simp [startsWith_colon_iff]
  rcases List.eq_nil_or_concat' (segments path) with noParts | ⟨parts, last, partsEq⟩
  · simp [identityBase, noParts]
  · rw [identityBase, partsEq, List.reverse_concat]
    dsimp only
    rw [List.any_reverse, List.reverse_reverse, Option.ite_none_right_eq_some, Bool.and_eq_true,
      beq_iff_eq, static, Option.some_inj]
    constructor
    · rintro ⟨⟨rfl, free⟩, rfl⟩
      exact ⟨parts, rfl, rfl, free⟩
    · rintro ⟨above, rfl, sameParts, free⟩
      obtain ⟨rfl, lastEq⟩ := List.append_inj' sameParts rfl
      exact ⟨⟨List.head_eq_of_cons_eq lastEq, free⟩, rfl⟩

/-- A normalised path is made of its segments. -/
theorem eq_pathOf_segments {path normal : String} (normalised : normalisePath path = .ok normal) :
    normal = pathOf (segments normal) := by
  obtain ⟨parts, rfl, each⟩ := (isNormal_of_normalisePath normalised).exists_segments
  rw [segments_of_parts (fun part member => (each part member).1)
    fun part member => (each part member).2.2]
  rfl

/-- In a path that is made of its segments, the base of the identity is what stands before it. -/
theorem identityBase_eq_some_iff_addressesItem {path param base : String}
    (made : path = pathOf (segments path)) :
    identityBase path param = some base ↔ AddressesItem param base path := by
  rw [identityBase_eq_some_iff]
  constructor
  · rintro ⟨parts, rfl, partsEq, free⟩
    have each (part : String) (member : part ∈ parts ++ [":" ++ param]) : IsSegment part := by
      rw [← partsEq] at member
      exact ⟨ne_empty_of_mem_segments member, slash_not_mem_of_mem_segments member⟩
    refine ⟨parts, rfl, partsEq ▸ made, fun part member => ?_, ?_⟩
    · exact ⟨each part (List.mem_append_left _ member), free part member⟩
    · exact each _ (List.mem_append_right _ List.mem_cons_self)
  · rintro ⟨parts, rfl, rfl, free, placeholder⟩
    have each (part : String) (member : part ∈ parts ++ [":" ++ param]) : IsSegment part := by
      rcases List.mem_append.mp member with inParts | isLast
      · exact (free part inParts).1
      · rw [List.mem_singleton.mp isLast]
        exact placeholder
    refine ⟨parts, rfl, ?_, fun part member => (free part member).2⟩
    exact segments_of_parts (fun part member => (each part member).1)
      fun part member => (each part member).2

/-- Sorting texts keeps which texts occur. -/
theorem mem_map_fst_sorted {text : String} {texts : List String} :
    text ∈ (Keyed.sorted (texts.map (·, ()))).map (·.1) ↔ text ∈ texts := by
  rw [← Keyed.get?_isSome_iff, Keyed.get?_sorted, Keyed.get?_isSome_iff, List.map_reverse,
    List.mem_reverse, List.map_map]
  simp

/-- The identity bases are the bases of the paths that end in the placeholder of the identity. -/
theorem mem_identityBases_iff {routes : List Route} {param : Option String} {base : String} :
    base ∈ identityBases routes param ↔
      ∃ name ∈ param, ∃ route ∈ routes, identityBase route.path name = some base := by
  cases param with
  | none => simp [identityBases]
  | some name =>
      change base ∈ (Keyed.sorted (List.map (·, ()) _)).map (·.1) ↔ _
      rw [mem_map_fst_sorted, List.mem_filterMap]
      simp

/-- The static paths are the paths of routes without a colon. -/
theorem mem_staticPaths_iff {routes : List Route} {path : String} :
    path ∈ staticPaths routes ↔ ':' ∉ path.toList ∧ ∃ route ∈ routes, route.path = path := by
  simp [staticPaths, and_comm]

/-- Without identity bases, the base paths are the shortest static paths, if
they are short enough. -/
theorem mem_basePaths_iff {routes : List Route} {param : Option String} {path : String} :
    path ∈ basePaths routes param ↔ path ∈ identityBases routes param ∨
      identityBases routes param = [] ∧ path ∈ staticPaths routes ∧ (segments path).length ≤ 1 ∧
        ∀ other ∈ staticPaths routes, (segments path).length ≤ (segments other).length := by
  rw [basePaths]
  dsimp only
  split
  · rename_i based
    have nonempty : identityBases routes param ≠ [] := by simpa using based
    rw [or_iff_left fun without => nonempty without.1]
  · rename_i unbased
    have isNil : identityBases routes param = [] := by simpa using unbased
    rw [isNil, or_iff_right List.not_mem_nil, and_iff_right rfl]
    split
    · rename_i noStatic
      rw [List.min?_eq_none_iff, List.map_eq_nil_iff] at noStatic
      simp [noStatic]
    · rename_i least leastEq
      rw [List.min?_eq_some_iff, List.mem_map, List.forall_mem_map] at leastEq
      obtain ⟨⟨shortest, shortestMem, rfl⟩, least⟩ := leastEq
      split
      · rename_i deep
        refine iff_of_false List.not_mem_nil ?_
        rintro ⟨member, shallow, -⟩
        exact absurd (least path member) (by omega)
      · rename_i shallow
        rw [mem_map_fst_sorted, List.mem_filter, beq_iff_eq]
        refine and_congr_right fun member => ⟨fun same => ?_, fun short => ?_⟩
        · rw [same]
          exact ⟨Nat.not_lt.mp shallow, least⟩
        · exact Nat.le_antisymm (short.2 shortest shortestMem) (least path member)

/-! ## Kinds -/

section Normal

variable {routes : List Route}
  (normal : ∀ route ∈ routes, ∃ given, normalisePath given = .ok route.path)
include normal

theorem identityBase_eq_some_iff_of_mem {route : Route} (member : route ∈ routes)
    {name base : String} :
    identityBase route.path name = some base ↔ AddressesItem name base route.path := by
  obtain ⟨given, normalised⟩ := normal route member
  exact identityBase_eq_some_iff_addressesItem (eq_pathOf_segments normalised)

/-- A path is an identity base exactly if some route addresses an item below it. -/
theorem mem_identityBases_iff_hasItems {param : Option String} {base : String} :
    base ∈ identityBases routes param ↔ HasItems routes param base := by
  rw [mem_identityBases_iff, HasItems]
  refine exists_congr fun name => and_congr_right fun _ => exists_congr fun route =>
    and_congr_right fun member => ?_
  exact identityBase_eq_some_iff_of_mem normal member

/-- The routes of the list that lie on a base path are those on the path of a collection. -/
theorem mem_basePaths_iff_isCollection {param : Option String} {route : Route}
    (member : route ∈ routes) :
    route.path ∈ basePaths routes param ↔ IsCollection routes param route.path := by
  have noItems : identityBases routes param = [] ↔ ∀ base, ¬HasItems routes param base := by
    rw [List.eq_nil_iff_forall_not_mem]
    exact forall_congr' fun base => not_congr (mem_identityBases_iff_hasItems normal)
  rw [mem_basePaths_iff, mem_identityBases_iff_hasItems normal, noItems]
  simp only [mem_staticPaths_iff]
  constructor
  · rintro (items | ⟨noItems, ⟨static, -⟩, shallow, least⟩)
    · exact .above items
    · exact .shortest noItems static shallow fun other otherMem free =>
        least other.path ⟨free, other, otherMem, rfl⟩
  · rintro (items | ⟨noItems, static, shallow, least⟩)
    · exact .inl items
    · refine .inr ⟨noItems, ⟨static, route, member, rfl⟩, shallow, ?_⟩
      rintro _ ⟨free, other, otherMem, rfl⟩
      exact least other otherMem free

/-- The kind of a route is the one of the rule. -/
theorem kindByRule_routeKind {param : Option String} {route : Route} (member : route ∈ routes) :
    KindByRule routes param route (routeKind param (basePaths routes param) route) := by
  rw [routeKind]
  split
  · rename_i based
    rw [Option.any_eq_true] at based
    obtain ⟨base, found, -⟩ := based
    obtain ⟨name, given, found⟩ := Option.bind_eq_some_iff.mp found
    have item := (identityBase_eq_some_iff_of_mem normal member).mp found
    convert KindByRule.onItem given item using 1
    cases route.method <;> rfl
  · rename_i unbased
    have noItem (name : String) (given : name ∈ param) (base : String) :
        ¬AddressesItem name base route.path := by
      intro item
      have found := (identityBase_eq_some_iff_of_mem normal member).mpr item
      apply unbased
      -- The base is among the base paths, as the route is in the list itself.
      have based : base ∈ basePaths routes param :=
        mem_basePaths_iff.mpr (.inl (mem_identityBases_iff.mpr ⟨name, given, route, member, found⟩))
      obtain rfl : param = some name := given
      rw [Option.bind_some, found, Option.any_some]
      exact List.contains_iff_mem.mpr based
    split
    · rename_i onBase
      rw [List.contains_iff_mem, mem_basePaths_iff_isCollection normal member] at onBase
      convert KindByRule.onCollection noItem onBase using 1
      cases route.method <;> rfl
    · rename_i offBase
      rw [List.contains_iff_mem, mem_basePaths_iff_isCollection normal member] at offBase
      exact .elsewhere noItem offBase

end Normal

/-- The rule gives a route at most one kind. -/
theorem KindByRule.unique {routes : List Route} {param : Option String} {route : Route}
    {kind other : RouteKind} (first : KindByRule routes param route kind)
    (second : KindByRule routes param route other) : kind = other := by
  cases first with
  | onItem given item =>
      cases second with
      | onItem => rfl
      | onCollection noItem => exact absurd item (noItem _ given _)
      | elsewhere noItem => exact absurd item (noItem _ given _)
  | onCollection noItem collection =>
      cases second with
      | onItem given item => exact absurd item (noItem _ given _)
      | onCollection => rfl
      | elsewhere _ noCollection => exact absurd collection noCollection
  | elsewhere noItem noCollection =>
      cases second with
      | onItem given item => exact absurd item (noItem _ given _)
      | onCollection _ collection => exact absurd collection noCollection
      | elsewhere => rfl

/-! ## The order of routes -/

section Perm

variable {first second : List Route} (perm : first.Perm second)
include perm

/-- The identity bases do not depend on the order of the routes. -/
theorem mem_identityBases_iff_of_perm {param : Option String} {base : String} :
    base ∈ identityBases first param ↔ base ∈ identityBases second param := by
  simp only [mem_identityBases_iff, perm.mem_iff]

/-- The base paths do not depend on the order of the routes. -/
theorem mem_basePaths_iff_of_perm {param : Option String} {path : String} :
    path ∈ basePaths first param ↔ path ∈ basePaths second param := by
  simp only [mem_basePaths_iff, List.eq_nil_iff_forall_not_mem, mem_staticPaths_iff,
    mem_identityBases_iff_of_perm perm, perm.mem_iff]

end Perm

/-- Of base paths it only matters which paths are among them. -/
theorem routeKind_congr {param : Option String} {first second : List String}
    (same : ∀ path, path ∈ first ↔ path ∈ second) :
    routeKind param first = routeKind param second := by
  have contained : first.contains = second.contains := by
    funext path
    rw [Bool.eq_iff_iff, List.contains_iff_mem, List.contains_iff_mem, same]
  funext route
  rw [routeKind, routeKind, contained]

theorem length_classify (routes : List Route) (param : Option String) :
    (classify routes param).length = routes.length := List.length_map _

theorem get_classify (routes : List Route) (param : Option String) (i : Fin routes.length) :
    (classify routes param).get (i.cast (length_classify routes param).symm) =
      routeKind param (basePaths routes param) (routes.get i) := by
  simp only [classify, List.get_eq_getElem, List.getElem_map]
  rfl

/-- Reordering the routes reorders their kinds in the same way. -/
theorem classify_ofFn (routes : List Route) (param : Option String)
    (order : Equiv.Perm (Fin routes.length)) :
    classify (List.ofFn fun i => routes.get (order i)) param =
      List.ofFn fun i =>
        (classify routes param).get ((order i).cast (length_classify routes param).symm) := by
  have perm : (List.ofFn fun i => routes.get (order i)).Perm routes := by
    have shuffled := Equiv.Perm.ofFn_comp_perm order routes.get
    rwa [List.ofFn_get] at shuffled
  rw [classify, routeKind_congr fun path => mem_basePaths_iff_of_perm perm, List.map_ofFn]
  congr 1
  funext i
  rw [get_classify]
  rfl

/-- Another order of the routes gives the same kinds in that order, and every route has the kind of
the rule and no other. -/
theorem classify_by_rule (routes : List Route) (param : Option String)
    (normal : ∀ route ∈ routes, ∃ given, normalisePath given = .ok route.path) :
    (∀ order : Equiv.Perm (Fin routes.length),
      classify (List.ofFn fun i => routes.get (order i)) param =
        List.ofFn fun i =>
          (classify routes param).get ((order i).cast (length_classify routes param).symm)) ∧
    ∀ i kind, (classify routes param).get (i.cast (length_classify routes param).symm) = kind ↔
      KindByRule routes param (routes.get i) kind := by
  refine ⟨classify_ofFn routes param, fun i kind => ?_⟩
  have ruled : KindByRule routes param (routes.get i)
      (routeKind param (basePaths routes param) (routes.get i)) :=
    kindByRule_routeKind normal (routes.get_mem i)
  rw [get_classify]
  constructor
  · rintro rfl
    exact ruled
  · exact ruled.unique

/-- Routes that list jobs and read one of them. -/
def jobRoutes : List Route :=
  [⟨.get, "/acme/v1/jobs/:id", none, ""⟩, ⟨.get, "/acme/v1/jobs", none, ""⟩]

theorem classify_by_rule_jobRoutes :
    (∀ route ∈ jobRoutes, ∃ given, normalisePath given = .ok route.path) ∧
      KindByRule jobRoutes (some "id") ⟨.get, "/acme/v1/jobs/:id", none, ""⟩ .get ∧
      KindByRule jobRoutes (some "id") ⟨.get, "/acme/v1/jobs", none, ""⟩ .list := by
  have normal : ∀ route ∈ jobRoutes, ∃ given, normalisePath given = .ok route.path := by
    rw [jobRoutes, List.forall_mem_cons, List.forall_mem_singleton]
    exact ⟨⟨"acme/v1/jobs/:id", eq_ok_of_toOption (by decide +kernel)⟩,
      ⟨"/acme//v1/jobs/", eq_ok_of_toOption (by decide +kernel)⟩⟩
  have kinds := (classify_by_rule jobRoutes (some "id") normal).2
  refine ⟨normal, (kinds ⟨0, by decide⟩ .get).mp ?_, (kinds ⟨1, by decide⟩ .list).mp ?_⟩
  · decide +kernel
  · decide +kernel

end Controller

end RestPlugin
