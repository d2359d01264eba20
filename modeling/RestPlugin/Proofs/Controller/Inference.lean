import RestPlugin.Ir.Identity
import RestPlugin.Proofs.Controller.Classification
import RestPlugin.Proofs.Controller.Handlers
import RestPlugin.Proofs.Controller.Patterns

/-!
# Inferred identities

An identity is inferred from the placeholders of all routes without regard to ASCII case, and named
in lower case.  Everything that later asks for its parameter reads placeholders as they are written:
so an inferred identity stands in a route only if one of the placeholders that suggest it has no
capital letter.  Otherwise no route is taken for one that works on a single item.
-/

namespace RestPlugin.Controller

open Ir Text

/-! ## Placeholders up to case -/

/-- Whether a placeholder of some route reads `name` up to ASCII case. -/
def Mentions (routes : List Route) (name : String) : Prop :=
  ∃ route ∈ routes, ∃ param ∈ route.params, lowerString param = name

/-- The identity that routes suggest: that of the best placeholder they mention. -/
inductive Suggests (routes : List Route) : Identity → Prop where
  | id (mentioned : Mentions routes "id") : Suggests routes ⟨.number, "id"⟩
  | slug (noId : ¬Mentions routes "id") (mentioned : Mentions routes "slug") :
      Suggests routes ⟨.string, "slug"⟩
  | uuid (noId : ¬Mentions routes "id") (noSlug : ¬Mentions routes "slug")
      (mentioned : Mentions routes "uuid") : Suggests routes ⟨.string, "uuid"⟩

section Tokens

variable {routes : List Route} {name : String}

/-- Dropping repetitions loses no member. -/
theorem mem_distinct {items : List String} : name ∈ distinct items ↔ name ∈ items := by
  have fold (seen : List String) : name ∈ items.foldl
      (fun seen item => if seen.contains item then seen else seen ++ [item]) seen ↔
        name ∈ seen ∨ name ∈ items := by
    induction items generalizing seen with
    | nil => simp
    | cons item items ih =>
        rw [List.foldl_cons, ih, List.mem_cons, ← or_assoc]
        split
        · rename_i repeated
          rw [List.contains_iff_mem] at repeated
          have absorbed : name ∈ seen ∨ name = item ↔ name ∈ seen :=
            or_iff_left_of_imp fun same => same ▸ repeated
          rw [absorbed]
        · rw [List.mem_append, List.mem_singleton]
  rw [distinct, fold, or_iff_right List.not_mem_nil]

/-- The tokens of routes are the placeholders that some path mentions. -/
theorem mem_placeholderTokens_iff : name ∈ placeholderTokens routes ↔ Mentions routes name := by
  simp only [placeholderTokens, mem_distinct, List.mem_map, List.mem_flatMap, Mentions]
  constructor
  · rintro ⟨param, ⟨route, routeMem, paramMem⟩, lowerEq⟩
    exact ⟨route, routeMem, param, paramMem, lowerEq⟩
  · rintro ⟨route, routeMem, param, paramMem, lowerEq⟩
    exact ⟨param, ⟨route, routeMem, paramMem⟩, lowerEq⟩

/-- Some route uses a name in lower case exactly if a placeholder without capitals reads it. -/
theorem exists_usesParam_iff (small : name.toList.any isUpper = false) :
    (∃ route ∈ routes, route.usesParam name = true) ↔
      ∃ route ∈ routes, ∃ param ∈ route.params,
        lowerString param = name ∧ param.toList.any isUpper = false := by
  have unchanged {text : String} (small : text.toList.any isUpper = false) :
      lowerString text = text :=
    lowerString_eq_self fun c member =>
      Bool.eq_false_iff.mpr (List.any_eq_false.mp small c member)
  simp only [Route.usesParam, List.contains_iff_mem]
  constructor
  · rintro ⟨route, routeMem, used⟩
    exact ⟨route, routeMem, name, used, unchanged small, small⟩
  · rintro ⟨route, routeMem, param, paramMem, lowerEq, paramSmall⟩
    rw [unchanged paramSmall] at lowerEq
    exact ⟨route, routeMem, lowerEq ▸ paramMem⟩

end Tokens

/-! ## The inferred identity -/

theorem identityOfPlaceholder_eq_none {placeholder : String} (other : placeholder ∉ inferable) :
    identityOfPlaceholder placeholder = none := by
  simp only [inferable, List.mem_cons, List.not_mem_nil, or_false, not_or] at other
  simp [identityOfPlaceholder, other]

/-- Where no inferable placeholder is mentioned, the first one yields no identity. -/
theorem identity_inferIdentity (resource : String) (routes : List Route) :
    (inferIdentity resource routes).identity =
      (inferable.find? (placeholderTokens routes).contains).bind identityOfPlaceholder := by
  have identityEq : (inferIdentity resource routes).identity =
      (pickPlaceholder routes).bind identityOfPlaceholder := by
    rw [inferIdentity]
    split
    · rename_i noPlaceholder
      rw [noPlaceholder, Option.bind_none]
    · rename_i placeholder picked
      rw [picked, Option.bind_some]
      split
      · rename_i unsupported
        exact unsupported.symm
      · rename_i identity found
        exact found.symm
  rw [identityEq, pickPlaceholder]
  cases best : inferable.find? (placeholderTokens routes).contains with
  | some placeholder => rw [Option.some_or]
  | none =>
      rw [Option.none_or, Option.bind_none]
      cases tokens : (placeholderTokens routes).head? with
      | none => rw [Option.bind_none]
      | some token =>
          rw [Option.bind_some]
          apply identityOfPlaceholder_eq_none
          intro known
          have absent := List.find?_eq_none.mp best token known
          exact absent (List.contains_iff_mem.mpr (List.mem_of_mem_head? tokens))

open Classical in
/-- An identity is inferred exactly if the routes suggest it. -/
theorem identity_inferIdentity_eq_some_iff {resource : String} {routes : List Route}
    {identity : Identity} :
    (inferIdentity resource routes).identity = some identity ↔ Suggests routes identity := by
  have contained (name : String) :
      (placeholderTokens routes).contains name = decide (Mentions routes name) := by
    rw [List.contains_eq_mem]
    exact decide_eq_decide.mpr mem_placeholderTokens_iff
  rw [identity_inferIdentity, inferable, List.find?_cons, List.find?_cons, List.find?_cons,
    List.find?_nil, contained, contained, contained]
  constructor
  · intro found
    by_cases idMentioned : Mentions routes "id"
    · rw [decide_eq_true idMentioned] at found
      cases found
      exact .id idMentioned
    rw [decide_eq_false idMentioned] at found
    by_cases slugMentioned : Mentions routes "slug"
    · rw [decide_eq_true slugMentioned] at found
      cases found
      exact .slug idMentioned slugMentioned
    rw [decide_eq_false slugMentioned] at found
    by_cases uuidMentioned : Mentions routes "uuid"
    · rw [decide_eq_true uuidMentioned] at found
      cases found
      exact .uuid idMentioned slugMentioned uuidMentioned
    · rw [decide_eq_false uuidMentioned] at found
      cases found
  · rintro (mentioned | ⟨noId, mentioned⟩ | ⟨noId, noSlug, mentioned⟩)
    · rw [decide_eq_true mentioned]
      rfl
    · rw [decide_eq_false noId, decide_eq_true mentioned]
      rfl
    · rw [decide_eq_false noId, decide_eq_false noSlug, decide_eq_true mentioned]
      rfl

/-! ## Routes on single items -/

/-- A path with an identity base has the identity for a placeholder. -/
theorem mem_placeholders_of_identityBase {path param base : String} (nonempty : param.toList ≠ [])
    (word : ∀ c ∈ param.toList, isWord c = true) (found : identityBase path param = some base) :
    param ∈ placeholders path := by
  have lastMem : ":" ++ param ∈ segments path := by
    obtain ⟨parts, -, partsEq, -⟩ := identityBase_eq_some_iff.mp found
    rw [partsEq]
    exact List.mem_append_right _ List.mem_cons_self
  have textEq : ":" ++ param = String.ofList (':' :: param.toList) := by
    rw [← String.toList_inj]
    simp
  rw [← placeholders_segments, List.mem_flatMap]
  refine ⟨_, lastMem, ?_⟩
  rw [textEq, placeholders_placeholder nonempty word, String.ofList_toList]
  exact List.mem_singleton_self param

/-- A route that works on one item has the placeholder of the identity. -/
theorem usesParam_of_usesIdentity {param : String} {bases : List String} {route : Route}
    (nonempty : param.toList ≠ []) (word : ∀ c ∈ param.toList, isWord c = true)
    (single : (routeKind (some param) bases route).usesIdentity = true) :
    route.usesParam param = true := by
  rw [Route.usesParam, Route.params, List.contains_iff_mem]
  rw [routeKind] at single
  split at single
  · rename_i based
    rw [Option.bind_some, Option.any_eq_true] at based
    obtain ⟨base, baseEq, -⟩ := based
    exact mem_placeholders_of_identityBase nonempty word baseEq
  · split at single
    · cases methodEq : route.method <;> rw [methodEq] at single <;> cases single
    · cases single

theorem Suggests.param_mem {routes : List Route} {identity : Identity}
    (suggested : Suggests routes identity) : identity.param ∈ inferable := by
  cases suggested <;> decide

/-- The identity inferred from routes is exactly the one they suggest up to case.  A route supplies
its parameter if and only if one of the placeholders that suggest it has no capital letter, and
every route that is taken for one on a single item does. -/
theorem inferred_identity_addressable_iff (resource : String) (routes : List Route) :
    (∀ identity, (resolveIdentity resource none routes).identity = some identity ↔
      Suggests routes identity) ∧
    ∀ identity, Suggests routes identity →
      ((∃ route ∈ routes, route.usesParam identity.param = true) ↔
        ∃ route ∈ routes, ∃ param ∈ route.params,
          lowerString param = identity.param ∧ param.toList.any isUpper = false) ∧
      ∀ route ∈ routes,
        (routeKind (some identity.param) (basePaths routes (some identity.param))
          route).usesIdentity = true → route.usesParam identity.param = true := by
  constructor
  · exact fun _ => identity_inferIdentity_eq_some_iff
  · intro identity suggested
    have plain : ∀ name ∈ inferable, name.toList ≠ [] ∧ name.toList.all isWord = true ∧
        name.toList.any isUpper = false := by decide
    obtain ⟨nonempty, word, small⟩ := plain _ suggested.param_mem
    exact ⟨exists_usesParam_iff small, fun _ _ =>
      usesParam_of_usesIdentity nonempty (List.all_eq_true.mp word)⟩

/-- A route on one job, with its placeholder as given. -/
def jobRoute (placeholder : String) : Route :=
  ⟨.get, "/acme/v1/jobs/:" ++ placeholder, none, ""⟩

/-- Of two spellings of the placeholder, the one in lower case makes the identity addressable. -/
theorem inferred_identity_addressable_iff_jobs :
    Suggests [jobRoute "ID", jobRoute "id"] ⟨.number, "id"⟩ ∧
      ∃ route ∈ [jobRoute "ID", jobRoute "id"], route.usesParam "id" = true := by
  obtain ⟨inferred, addressable⟩ :=
    inferred_identity_addressable_iff "job" [jobRoute "ID", jobRoute "id"]
  have suggested := (inferred ⟨.number, "id"⟩).mp (by decide)
  have placeholder : "id" ∈ (jobRoute "id").params := by decide
  exact ⟨suggested, (addressable _ suggested).1.mpr
    ⟨jobRoute "id", List.mem_cons_of_mem _ List.mem_cons_self, "id", placeholder, by decide,
      by decide⟩⟩

/-- A placeholder in capitals suggests an identity that no route has. -/
theorem inferred_identity_in_no_route :
    (resolveIdentity "job" none [jobRoute "ID"]).identity = some ⟨.number, "id"⟩ ∧
      ∀ route ∈ [jobRoute "ID"], route.usesParam "id" = false := by
  decide

end RestPlugin.Controller
