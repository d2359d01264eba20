import RestPlugin.Controller.Class
import RestPlugin.Proofs.Handler.Total
import RestPlugin.Proofs.Json.Number

/-!
# When a controller is composed

The handlers of a well-named resource are always composed, and the names of its handlers are
identifiers.  What is left to be refused is the namespace and the name of the class, and both only
for a digit at the beginning of a part.
-/

namespace RestPlugin.Controller

open Ir Php Text

/-! ## Names of handlers -/

theorem isWord_of_mem_toString {n : Nat} : ∀ c ∈ (toString n).toList, isWord c = true := by
  intro c member
  have digit : isDigit c = true :=
    Json.isDigit_of_mem_toDigits (by simpa [Nat.toString_eq_repr] using member)
  simp [isWord, isAlnum, digit]

theorem isIdentifier_handlerName (earlier : List RouteKind) (kind : RouteKind) :
    isIdentifier (handlerName earlier kind) = true := by
  have plain : isIdentifier ("handle_" ++ kind.text) = true := by cases kind <;> decide
  rw [handlerName]
  split
  · exact plain
  · apply isIdentifier_append _ isWord_of_mem_toString
    exact isIdentifier_append plain (List.all_eq_true.mp (by decide))

theorem isIdentifier_handler {resource : Resource} {endpoint : Endpoint}
    (member : endpoint ∈ endpoints resource) : isIdentifier endpoint.handler = true := by
  have each (classified : List (Route × RouteKind)) (earlier : List RouteKind) :
      ∀ found ∈ endpointsFrom earlier classified, isIdentifier found.handler = true := by
    induction classified generalizing earlier with
    | nil => simp [endpointsFrom]
    | cons first rest ih =>
        rw [endpointsFrom, List.forall_mem_cons]
        exact ⟨isIdentifier_handlerName earlier first.2, ih _⟩
  exact each _ _ endpoint member

/-! ## Names of classes -/

/-- The name of a controller class has letters and digits only. -/
theorem alphanumeric_className (resource : Resource) : Alphanumeric (className resource) := by
  constructor
  · simp [className]
  · rw [className, String.toList_append]
    intro c member
    rcases List.mem_append.mp member with inName | inSuffix
    · exact isAlnum_of_mem_pascalCase _ c inName
    · exact List.all_eq_true.mp (by decide : "Controller".toList.all isAlnum = true) c inSuffix

/-- The name of a controller class begins with a digit exactly if that of its resource does in
pascal case. -/
theorem startsWithDigit_className (resource : Resource) :
    startsWithDigit (className resource) = startsWithDigit (pascalCase resource.name) := by
  rw [className, startsWithDigit, startsWithDigit, String.toList_append]
  cases (pascalCase resource.name).toList with
  | nil => decide
  | cons c rest => rfl

/-- A controller class can be named exactly if the pascal case of its resource does not begin
with a digit. -/
theorem succeeds_class_iff (resource : Resource) :
    Succeeds (Php.Class.of (className resource)) ↔
      startsWithDigit (pascalCase resource.name) = false := by
  rw [← startsWithDigit_className, ← isIdentifier_iff (alphanumeric_className resource)]
  constructor
  · rintro ⟨decl, made⟩
    obtain ⟨name, checked, -⟩ := map_eq_ok_iff.mp made
    obtain ⟨rfl, identifier⟩ := eq_of_identifier_eq_ok checked
    exact identifier
  · intro identifier
    exact ⟨{ name := className resource }, by rw [Php.Class.of, identifier_eq_ok identifier]; rfl⟩

/-! ## Controllers -/

/-- The global classes that controllers use. -/
def globalClasses : List String := ["WP_Error", "WP_REST_Request", "WP_Post", "WP_Query", "WP_Term"]

theorem succeeds_globalClass : ∀ used ∈ globalClasses, Succeeds (Name.of used) := by
  have checked : ∀ used ∈ globalClasses, (Name.of used).isOk = true := by decide +kernel
  exact fun used member => exists_eq_ok (checked used member)

theorem succeeds_uses {php : PhpProject} {resource : Resource}
    (policy : Succeeds (Name.of (policyNamespace php ++ "\\Policy"))) :
    Succeeds ((usedClasses php resource).mapM Name.of) := by
  have globals : ["WP_Error", "WP_REST_Request"] ++ storageClasses resource.storage ⊆
      globalClasses := by
    rcases resource.storage with _ | _ | _ | _ | _ <;> simp [storageClasses, globalClasses]
  rw [succeeds_mapM_iff, usedClasses]
  intro used member
  rw [List.mem_mergeSort, List.cons_append, List.mem_cons] at member
  rcases member with rfl | member
  · exact policy
  · exact succeeds_globalClass used (globals member)

/-- The controller of a well-named resource is refused only because of the name of its class. -/
theorem succeeds_compose_iff {ir : Ir} {resource : Resource} (named : resource.WellNamed)
    (space : Succeeds (Name.of (restNamespace ir.php)))
    (policy : Succeeds (Name.of (policyNamespace ir.php ++ "\\Policy"))) :
    Succeeds (compose ir resource) ↔ startsWithDigit (pascalCase resource.name) = false := by
  rw [← succeeds_class_iff]
  constructor
  · rintro ⟨composed, done⟩
    simp only [compose, bind_eq_ok_iff] at done
    obtain ⟨_, -, decl, made, -⟩ := done
    exact ⟨decl, made⟩
  · intro made
    have word := isPascal_pascalCase resource.name
    have method (endpoint : Endpoint) (member : endpoint ∈ endpoints resource) :
        Succeeds (endpoint.method resource (Metadata.ofResource resource)) :=
      (Handler.succeeds_ofRoute word named _ _ _).bind fun _ =>
        Succeeds.bind ⟨_, method_eq_ok (isIdentifier_handler member)⟩ fun _ => succeeds_ok _
    exact (succeeds_mapM_iff.mpr method).bind fun _ => made.bind fun _ =>
      (Handler.succeeds_methods word named _).bind fun _ => space.bind fun _ =>
        (succeeds_uses policy).bind fun _ => succeeds_ok _

end RestPlugin.Controller
