import RestPlugin.Config.Model
import RestPlugin.Ir.Basic

/-!
# Resolving identities

A resource that declares no identity takes it from the placeholders of its routes: `id` is a number,
`slug` and `uuid` are strings, in this order of preference.
-/

namespace RestPlugin.Ir

/-- An identity, if there is one, and the warning about how it was found. -/
structure IdentityResolution where
  identity : Option Identity
  warning : Option Warning
deriving Repr, Inhabited

/-- The placeholders from which an identity can be inferred, best first. -/
def inferable : List String := ["id", "slug", "uuid"]

/-- The members of a list without repetitions, in the order of their first occurrence. -/
def distinct (items : List String) : List String :=
  items.foldl (fun seen item => if seen.contains item then seen else seen ++ [item]) []

/-- The placeholders of routes in ASCII lower case, each once. -/
def placeholderTokens (routes : List Route) : List String :=
  distinct ((routes.flatMap Route.params).map Text.lowerString)

/-- The placeholder from which to infer an identity: the best inferable one, or else the first. -/
def pickPlaceholder (routes : List Route) : Option String :=
  let tokens := placeholderTokens routes
  (inferable.find? tokens.contains).or tokens.head?

/-- The identity that belongs to a placeholder. -/
def identityOfPlaceholder (placeholder : String) : Option Identity :=
  if placeholder == "id" then some ⟨.number, placeholder⟩
  else if placeholder == "slug" || placeholder == "uuid" then some ⟨.string, placeholder⟩
  else none

/-- Infers an identity from routes. -/
def inferIdentity (resource : String) (routes : List Route) : IdentityResolution :=
  match pickPlaceholder routes with
  | none =>
      { identity := none
        warning := some
          { code := "identity.inference.missing"
            message := s!"Unable to infer identity for resource \"{resource}\". " ++
              "Define resource.identity explicitly."
            context := some (.obj [("resource", .str resource)]) } }
  | some placeholder =>
      let context : Json := .obj [("resource", .str resource), ("placeholder", .str placeholder)]
      match identityOfPlaceholder placeholder with
      | none =>
          { identity := none
            warning := some
              { code := "identity.inference.unsupported"
                message := s!"Resource \"{resource}\" routes reference :{placeholder} " ++
                  "but no default identity mapping exists."
                context := some context } }
      | some identity =>
          { identity := some identity
            warning := some
              { code := "identity.inference.applied"
                message := s!"Resource \"{resource}\" missing identity; inferred " ++
                  identity.kind.text ++ " parameter \"" ++ identity.param ++ "\" from routes."
                context := some context } }

/-- The identity of a resource: the declared one, or one inferred from its routes. -/
def resolveIdentity (resource : String) (declared : Option Config.Identity)
    (routes : List Route) : IdentityResolution :=
  match declared with
  | some identity => { identity := some ⟨identity.kind, identity.param⟩, warning := none }
  | none => inferIdentity resource routes

end RestPlugin.Ir
