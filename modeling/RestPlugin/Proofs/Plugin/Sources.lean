import RestPlugin.Proofs.Except
import RestPlugin.Proofs.Php.Regular
import RestPlugin.Plugin.Policy

/-!
# Sources around the controllers

Building the base class, the capability checks or the loader fails only for the names that go into
them.  Once these are built, the source is known.
-/

namespace RestPlugin.Plugin

open Controller Ir Php

variable {space : String}

/-- A base file that is made has a valid namespace, and the base class. -/
theorem exists_name_of_baseSource {base : Php.File} (made : baseSource space = .ok base) :
    ∃ name, Name.of space = .ok name ∧ base =
      { strictTypes := true
        doc := some [generatedNote]
        space := some name
        stmts := [.classDecl baseClass] } := by
  obtain ⟨name, nameEq, result⟩ := bind_eq_ok_iff.mp made
  exact ⟨name, nameEq, (Except.ok.inj result).symm⟩

/-- A policy file that is made has a valid namespace, and the policy class. -/
theorem exists_name_of_policySource {map : CapabilityMap} {policy : Php.File}
    (made : policySource space map = .ok policy) :
    ∃ name, Name.of space = .ok name ∧ policy =
      { strictTypes := true
        doc := some [generatedNote]
        space := some name
        uses := [⟨["WP_Error"]⟩, ⟨["WP_REST_Request"]⟩]
        stmts := [.classDecl (policyClass map)] } := by
  obtain ⟨name, nameEq, result⟩ := bind_eq_ok_iff.mp made
  exact ⟨name, nameEq, (Except.ok.inj result).symm⟩

/-- The statement that registers the routes of the controller with a given name. -/
def registrationOf (controller : Name) : Stmt :=
  .expression ((Expr.new controller []).send "register_routes" [])

theorem registration_eq (controller : String) :
    registration controller = (Name.of controller).map registrationOf := by
  rw [registration, Expr.create]
  cases Name.of controller <;> rfl

/-- The statements by which the loader announces its functions. -/
def loaderHooks : List Stmt :=
  [.expression (.fn "spl_autoload_register" [ownFunction "autoload"]),
   .expression (.fn "add_action" [.string "rest_api_init", ownFunction "register_routes"])]

/-- The loader of a namespace with the statements that register its controllers. -/
def loaderOf (name : Name) (registrations : List Stmt) : Php.File where
  strictTypes := true
  doc := some [generatedNote, "", "Include this file from the plugin bootstrap."]
  space := some name
  stmts := [autoloadFunction, .blank,
    .function { name := "register_routes", body := registrations }, .blank] ++ loaderHooks

/-- A loader that is made has valid names and registers them in order. -/
theorem exists_names_of_loaderSource {controllers : List String} {loader : Php.File}
    (made : loaderSource space controllers = .ok loader) :
    ∃ name names, Name.of space = .ok name ∧ controllers.mapM Name.of = .ok names ∧
      loader = loaderOf name (names.map registrationOf) := by
  obtain ⟨registrations, registered, rest⟩ := bind_eq_ok_iff.mp made
  obtain ⟨name, nameEq, result⟩ := bind_eq_ok_iff.mp rest
  rw [mapM_eq_map_mapM registration_eq] at registered
  obtain ⟨names, namesEq, rfl⟩ := map_eq_ok_iff.mp registered
  exact ⟨name, names, nameEq, namesEq, (Except.ok.inj result).symm⟩

end RestPlugin.Plugin
