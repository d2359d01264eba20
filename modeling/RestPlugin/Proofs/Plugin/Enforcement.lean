import RestPlugin.Proofs.Php.Execution
import RestPlugin.Proofs.Plugin.Capabilities

/-!
# Running the capability check

What the generated policy asks its surroundings when the key of a definition is checked.  The user
is asked about once.  The object is taken from the request if the definition has a binding; without
one no object is passed on, whatever the definition targets.
-/

namespace RestPlugin.Plugin

open Controller Ir Php Pipeline

/-! ## Constants -/

/-- What the table of capabilities says about a definition. -/
def entryValue (capability : String) (appliesTo : AppliesTo) (binding : Option String) : Value :=
  .array [("capability", .string capability), ("appliesTo", .string appliesTo.text),
    ("binding", (binding.map Value.string).getD .null)]

/-- An entry of the table evaluates to what it says about its definition. -/
theorem eval_capabilityEntry (world : World) (capability : String) (appliesTo : AppliesTo)
    (binding : Option String) :
    eval world [] false (capabilityEntry capability appliesTo binding) =
      pure (entryValue capability appliesTo binding) := by
  have bound : eval world [] false ((binding.map Expr.string).getD .null) =
      pure ((binding.map Value.string).getD .null) := by
    cases binding with
    | none => exact eval_null
    | some param => exact eval_string param
  funext state
  exact eval_record
    [("capability", Expr.string capability, Value.string capability),
     ("appliesTo", .string appliesTo.text, .string appliesTo.text),
     ("binding", (binding.map Expr.string).getD .null, (binding.map Value.string).getD .null)]
    (·.1) (·.2.1) (·.2.2) state (by simp [eval_string, bound])

/-- The value of the table of capabilities. -/
def tableValue (definitions : List Definition) : List (String × Value) :=
  definitions.map fun definition =>
    (definition.key, entryValue definition.capability definition.appliesTo definition.binding)

/-- The constants of a policy class while it runs. -/
def policyConsts (map : CapabilityMap) : List (String × Value) :=
  [("CAPABILITIES", .array (tableValue map.definitions)),
   ("FALLBACK", entryValue map.fallback.capability map.fallback.appliesTo none)]

theorem values_policyClass (world : World) (map : CapabilityMap) :
    (policyClass map).values world = pure (policyConsts map) := by
  have table : eval world [] false (capabilityTable map.definitions) =
      pure (.array (tableValue map.definitions)) := by
    funext state
    exact eval_record map.definitions Definition.key _ _ state fun definition _ =>
      eval_capabilityEntry world definition.capability definition.appliesTo definition.binding
  rw [Class.values, policyClass, List.mapM_cons, List.mapM_cons, List.mapM_nil, table,
    eval_capabilityEntry]
  rfl

/-- The table has the entry of each definition under its key. -/
theorem at?_tableValue {definitions : List Definition}
    (ascending : definitions.Pairwise fun first second => first.key < second.key)
    {definition : Definition} (member : definition ∈ definitions) :
    (Value.array (tableValue definitions)).at? definition.key =
      some (entryValue definition.capability definition.appliesTo definition.binding) := by
  have distinct : Keyed.Distinct (tableValue definitions) :=
    Keyed.Ascending.distinct (List.pairwise_map.mpr ascending)
  rw [Value.at?, ← distinct.get?_eq_of_perm (List.reverse_perm _).symm,
    distinct.get?_eq_some_iff]
  exact List.mem_map_of_mem member

/-! ## The body of the check -/

/-- The request parameter that a check passes on: the binding of a capability of objects. -/
def passedParam (appliesTo : AppliesTo) (binding : Option String) : Option String :=
  if appliesTo = .object then binding else none

/-- The calls that read the parameter. -/
def readCalls (request : Value) (param : Option String) : List Call :=
  param.toList.map fun param => .method request "get_param" [.string param]

/-- The question whether the user has the capability, about the parameter if there is one. -/
def askCall (world : World) (request : Value) (capability : String) (param : Option String) :
    Call :=
  .function "current_user_can"
    (.string capability :: (readCalls request param).map (world []))

/-- The error for a user without the capability. -/
def forbiddenValue (status : Value) (key : String) : Value :=
  .object "WP_Error"
    [.string "wpk_forbidden", .string "You are not allowed to perform this action.",
     .array [("status", status), ("capability", .string key)]]

/-- What the answer about a user leads to, after the calls made so far. -/
def verdict (world : World) (key : String) (calls : List Call) (allowed : Value) :
    Value × List Call :=
  if allowed.truthy then (.bool true, calls)
  else
    let status := Call.function "rest_authorization_required_code" []
    (forbiddenValue (world calls status) key, calls ++ [status])

/-- What a check results in, and the calls that it makes. -/
def enforced (world : World) (request : Value) (key capability : String) (param : Option String) :
    Value × List Call :=
  let asked := askCall world request capability param
  verdict world key (readCalls request param ++ [asked]) (world (readCalls request param) asked)

section Body

variable (world : World) {consts entries : List (String × Value)} {key capability : String}
  {appliesTo : AppliesTo} {binding : Option String} (request : Value)

/-- The variables once the definition was looked up. -/
def lookedUp (key capability : String) (appliesTo : AppliesTo) (binding : Option String)
    (request : Value) : List (String × Value) :=
  [("key", .string key), ("request", request),
   ("definition", entryValue capability appliesTo binding), ("capability", .string capability),
   ("binding", (binding.map Value.string).getD .null)]

/-- The first statements look up the definition. -/
theorem execAll_lookup (tableEq : Keyed.get? "CAPABILITIES" consts = some (.array entries))
    (found : (Value.array entries).at? key = some (entryValue capability appliesTo binding)) :
    execAll world consts enforceBody ⟨[("key", .string key), ("request", request)], []⟩ =
      execAll world consts (enforceBody.drop 4)
        ⟨lookedUp key capability appliesTo binding request, []⟩ := by
  have table (state : State) : eval world consts true (.classConstant ⟨["self"]⟩ "CAPABILITIES")
      state = some (.array entries, state) := by
    rw [eval_selfConstant tableEq]
    rfl
  have bound (state : State) (variableEq : Keyed.get? "definition" state.vars =
      some (entryValue capability appliesTo binding)) :
      eval world consts false (.binary .coalesce ((Expr.var "definition").entry "binding") .null)
        state = some ((binding.map Value.string).getD .null, state) := by
    cases binding with
    | none =>
        rw [eval_coalesce_right (eval_entry variableEq rfl)]
        rfl
    | some param => exact eval_coalesce_left (eval_entry variableEq rfl) nofun
  refine (execAll_cons_next (exec_setVar (eval_coalesce_left
    (eval_dim (table _) (eval_var rfl) found) nofun))).trans ?_
  refine (execAll_cons_next (exec_setVar (eval_entry rfl rfl))).trans ?_
  refine (execAll_cons_next (exec_setVar (bound _ rfl))).trans ?_
  exact execAll_cons_next exec_blank

/-- Whether a parameter is passed on. -/
theorem eval_bound (consts : List (String × Value)) (key capability : String)
    (appliesTo : AppliesTo) (binding : Option String) :
    eval world consts false (.binary .booleanAnd
      (.binary .identical (.string "object") ((Expr.var "definition").entry "appliesTo"))
      (Expr.var "binding").notNull) ⟨lookedUp key capability appliesTo binding request, []⟩ =
        some (.bool (passedParam appliesTo binding).isSome,
          ⟨lookedUp key capability appliesTo binding request, []⟩) := by
  have target : eval world consts false
      (.binary .identical (.string "object") ((Expr.var "definition").entry "appliesTo"))
      ⟨lookedUp key capability appliesTo binding request, []⟩ =
        some (.bool ("object" == appliesTo.text),
          ⟨lookedUp key capability appliesTo binding request, []⟩) :=
    eval_identical rfl (eval_entry rfl rfl) rfl
  have present : eval world consts false (Expr.var "binding").notNull
      ⟨lookedUp key capability appliesTo binding request, []⟩ =
        some (.bool binding.isSome, ⟨lookedUp key capability appliesTo binding request, []⟩) := by
    have compared : Value.null.identical ((binding.map Value.string).getD .null) =
        some !binding.isSome := by
      cases binding <;> rfl
    rw [eval_notNull (eval_var rfl) compared, Bool.not_not]
  rw [eval_and target present]
  cases appliesTo <;> cases binding <;> rfl

/-- The user is asked about, with the parameter if one is passed on. -/
theorem execAll_ask {className : String} {fields : List Value}
    (isObject : request = .object className fields) :
    execAll world consts (enforceBody.drop 4)
        ⟨lookedUp key capability appliesTo binding request, []⟩ =
      execAll world consts (enforceBody.drop 6)
        ⟨lookedUp key capability appliesTo binding request ++
            [("allowed", world (readCalls request (passedParam appliesTo binding))
              (askCall world request capability (passedParam appliesTo binding)))],
          readCalls request (passedParam appliesTo binding) ++
            [askCall world request capability (passedParam appliesTo binding)]⟩ := by
  have condition := eval_bound world request consts key capability appliesTo binding
  cases passed : passedParam appliesTo binding with
  | none =>
      rw [passed] at condition
      refine (execAll_cons_next ((exec_cond condition).trans ?_)).trans
        (execAll_cons_next exec_blank)
      refine (execAll_cons_next (exec_setVar
        (eval_fn (evalAll_singleton (eval_var rfl))))).trans
        execAll_nil
  | some param =>
      obtain rfl : binding = some param := by
        cases appliesTo with
        | object => exact passed
        | resource => cases passed
      subst isObject
      rw [passed] at condition
      refine (execAll_cons_next ((exec_cond condition).trans ?_)).trans
        (execAll_cons_next exec_blank)
      refine (execAll_cons_next (exec_setVar (eval_fn (evalAll_cons (eval_var rfl)
        (evalAll_singleton (eval_send (eval_var rfl) (evalAll_singleton (eval_var rfl)))))))).trans
          ?_
      rw [execAll]
      rfl

/-- The last statements answer with what the surroundings said about the user. -/
theorem execAll_answer {vars : List (String × Value)} (calls : List Call) {allowed : Value}
    (allowedEq : Keyed.get? "allowed" vars = some allowed)
    (keyEq : Keyed.get? "key" vars = some (.string key)) :
    execAll world consts (enforceBody.drop 6) ⟨vars, calls⟩ =
      some (.returned (verdict world key calls allowed).1,
        ⟨vars, (verdict world key calls allowed).2⟩) := by
  have asked : exec world consts (.when (.var "allowed") [.returning (.bool true)]) ⟨vars, calls⟩ =
      if allowed.truthy then some (.returned (.bool true), ⟨vars, calls⟩)
      else some (.next, ⟨vars, calls⟩) := by
    rw [exec_when (eval_var allowedEq), execAll_cons_returned (exec_returning rfl)]
  rw [verdict]
  split at asked
  · rename_i isAllowed
    rw [if_pos isAllowed]
    exact execAll_cons_returned asked
  · rename_i isDenied
    rw [if_neg isDenied]
    refine (execAll_cons_next asked).trans ((execAll_cons_next exec_blank).trans ?_)
    exact execAll_cons_returned (exec_returning (eval_newOf (evalAll_cons rfl (evalAll_cons rfl
      (evalAll_singleton (eval_array (evalItems_cons (eval_fn evalAll_nil)
        (evalItems_cons (eval_var keyEq) evalItems_nil))))))))

/-- The check of a defined key answers with the verdict about the user. -/
theorem execAll_enforceBody (tableEq : Keyed.get? "CAPABILITIES" consts = some (.array entries))
    (found : (Value.array entries).at? key = some (entryValue capability appliesTo binding))
    {className : String} {fields : List Value} (isObject : request = .object className fields) :
    ∃ vars, execAll world consts enforceBody ⟨[("key", .string key), ("request", request)], []⟩ =
      some (.returned (enforced world request key capability (passedParam appliesTo binding)).1,
        ⟨vars, (enforced world request key capability (passedParam appliesTo binding)).2⟩) := by
  exact ⟨_, (execAll_lookup world request tableEq found).trans
    ((execAll_ask world request isObject).trans (execAll_answer world _ rfl rfl))⟩

/-- The check of a key that is defined. -/
theorem callStatic_enforce {map : CapabilityMap}
    (ascending : map.definitions.Pairwise fun first second => first.key < second.key)
    {definition : Definition} (member : definition ∈ map.definitions) (className : String)
    (fields : List Value) :
    let request := Value.object className fields
    (policyClass map).callStatic world "enforce" [.string definition.key, request] =
      some (enforced world request definition.key definition.capability
        (passedParam definition.appliesTo definition.binding)) := by
  intro request
  have found : (policyClass map).method? "enforce" = some enforceMethod := rfl
  have constsEq : (policyClass map).values world {} = some (policyConsts map, {}) := by
    rw [values_policyClass]
    rfl
  have tableEq : Keyed.get? "CAPABILITIES" (policyConsts map) =
      some (.array (tableValue map.definitions)) := rfl
  obtain ⟨vars, done⟩ := execAll_enforceBody world request tableEq
    (at?_tableValue ascending member) rfl
  exact Class.callStatic_eq_some [.string definition.key, request] found rfl rfl constsEq done

end Body

/-! ## Checks of objects -/

/-- Every definition of a map is checked by one question to the surroundings.  For an object with a
binding it is about the parameter of that name.  For an object without one it is about no
parameter, although the map warns that the check would take `id`. -/
theorem object_checked_iff_bound {loaded : Config.Loaded} {resources : List Resource}
    {map : CapabilityMap} (distinct : Keyed.Distinct (loaded.config.capabilities.getD []))
    (built : buildCapabilityMap loaded resources = .ok map) {space : String} {policy : Php.File}
    (made : policySource space map = .ok policy) :
    ∃ decl : Php.Class, policy.stmts = [.classDecl decl] ∧ decl.name = "Policy" ∧
      ∀ definition ∈ map.definitions, ∀ (world : World) (fields : List Value),
        let request := Value.object "WP_REST_Request" fields
        let check := decl.callStatic world "enforce" [.string definition.key, request]
        (∀ param, definition.appliesTo = .object → definition.binding = some param →
          let read := Call.method request "get_param" [.string param]
          let ask := Call.function "current_user_can"
            [.string definition.capability, world [] read]
          check = some (verdict world definition.key [read, ask] (world [read] ask))) ∧
        (definition.appliesTo = .resource ∨ definition.binding = none →
          let ask := Call.function "current_user_can" [.string definition.capability]
          check = some (verdict world definition.key [ask] (world [] ask))) ∧
        (definition.appliesTo = .object → definition.binding = none →
          ∃ warning ∈ map.warnings, warning.code = "capability-map.binding.missing" ∧
            warning.message = "Capability \"" ++ definition.key ++ "\" targets an object but " ++
              "no request parameter could be inferred. The helper will default to \"id\".") := by
  have ascending := (describes_of_buildCapabilityMap distinct built).ascending
  refine ⟨policyClass map, stmts_policySource made, rfl, fun definition member world fields => ?_⟩
  have check := callStatic_enforce world ascending member "WP_REST_Request" fields
  refine ⟨fun param isObject bound => ?_, fun unbound => ?_, fun isObject unbound => ?_⟩
  · rw [isObject, bound] at check
    exact check
  · have passed : passedParam definition.appliesTo definition.binding = none := by
      rcases unbound with isResource | unbound
      · rw [isResource]
        rfl
      · rw [unbound, passedParam, ite_self]
    rw [passed] at check
    exact check
  · have raised : ∃ warning, bindingWarning definition = some warning ∧
        warning.code = "capability-map.binding.missing" ∧
        warning.message = "Capability \"" ++ definition.key ++ "\" targets an object but " ++
          "no request parameter could be inferred. The helper will default to \"id\"." := by
      rw [bindingWarning, if_pos (by rw [isObject, unbound]; rfl)]
      exact ⟨_, rfl, rfl, by simp only [String.append_assoc]; rfl⟩
    obtain ⟨warning, raised, described⟩ := raised
    exact ⟨warning, mem_warnings_of_bindingWarning built member raised, described⟩

/-! ### A capability without a parameter -/

theorem inferIdentity_eq_none {name : String} {routes : List Route}
    (plain : ∀ route ∈ routes, route.params = []) :
    (inferIdentity name routes).identity = none := by
  have nothing : routes.flatMap Route.params = [] := List.flatMap_eq_nil_iff.mpr plain
  rw [inferIdentity, pickPlaceholder, placeholderTokens, nothing]
  rfl

/-- Resources without an identity leave a capability without a binding. -/
theorem deriveBinding_eq_none {key : String} {appliesTo : AppliesTo} {references : References}
    {resources : List Resource} (anonymous : ∀ resource ∈ resources, resource.identity = none) :
    deriveBinding key appliesTo references resources = none := by
  rw [deriveBinding]
  split
  · rfl
  · split
    · rfl
    · rename_i names _
      have nothing : ((resources.filter fun resource => names.contains resource.name).filterMap
          fun resource => resource.identity.map (·.param)) = [] := by
        rw [List.filterMap_eq_nil_iff]
        intro resource member
        rw [anonymous resource (List.mem_of_mem_filter member)]
        rfl
      simp only [nothing]
      rfl

/-- The path of the profile has no parameters, so nothing says which object is meant. -/
theorem identity_profile {key : String} (parts : Core.Parts (acme (profile key))) :
    ∀ resource ∈ parts.resources, resource.identity = none := by
  intro resource member
  obtain ⟨entry, entryMem, before, after, built⟩ :=
    exists_origin_of_buildResources parts.resources_eq resource member
  obtain rfl := List.mem_singleton.mp entryMem
  rw [(buildResource_fields built).2.1]
  refine inferIdentity_eq_none fun route routeMem => ?_
  have path : (Except.ok route.path : Except PathFault String) ∈
      [normalisePath "/acme/v1/profile"] :=
    (resolvedFrom_of_buildResource built).paths.mem_iff.mp (List.mem_map_of_mem routeMem)
  rw [normalisePath_profile, List.mem_singleton, Except.ok.injEq] at path
  rw [Route.params, path]
  decide

/-- The definition of the capability to edit a profile. -/
def profileEdit : Definition where
  key := "profile.edit"
  capability := "edit_profile"
  appliesTo := .object
  binding := none
  source := .map

theorem profileEdit_mem {key : String} (parts : Core.Parts (acme (profile key))) :
    profileEdit ∈ parts.capabilityMap.definitions := by
  have distinct : Keyed.Distinct ((acme (profile key)).config.capabilities.getD []) :=
    List.Pairwise.nil
  have describes := describes_of_buildCapabilityMap distinct parts.capabilityMap_eq
  have declared : ("profile.edit", .detailed "edit_profile" .object none) ∈
      declaredCapabilities (acme (profile key)).config := List.mem_singleton.mpr rfl
  obtain ⟨definition, member, keyEq⟩ := (describes.keys "profile.edit").mpr (.inl ⟨_, declared⟩)
  have definitionEq := describes.declared definition member _ (keyEq ▸ declared)
  have trimmed : Text.trim "edit_profile" = "edit_profile" := by decide
  rw [keyEq, Definition.ofDeclaration,
    deriveBinding_eq_none (identity_profile parts)] at definitionEq
  simp only [Config.Capability.capability, trimmed] at definitionEq
  obtain rfl : definition = profileEdit := definitionEq
  exact member

theorem object_checked_iff_bound_profile :
    ∃ (ir : Ir) (policy : Php.File) (decl : Php.Class),
      Ir.build (acme (profile "profile.edit")) = .ok ir ∧
      policySource (policyNamespace ir.php) ir.capabilityMap = .ok policy ∧
      policy.stmts = [.classDecl decl] ∧ profileEdit ∈ ir.capabilityMap.definitions ∧
      ∀ (world : World) (fields : List Value),
        let ask := Call.function "current_user_can" [.string "edit_profile"]
        decl.callStatic world "enforce"
            [.string "profile.edit", .object "WP_REST_Request" fields] =
          some (verdict world "profile.edit" [ask] (world [] ask)) := by
  obtain ⟨parts, ⟨sources⟩⟩ := exists_sources_profile
  have distinct : Keyed.Distinct ((acme (profile "profile.edit")).config.capabilities.getD []) :=
    List.Pairwise.nil
  obtain ⟨decl, stmtsEq, -, checks⟩ :=
    object_checked_iff_bound distinct parts.capabilityMap_eq sources.policy_eq
  refine ⟨parts.ir, sources.policy, decl, parts.build_eq, sources.policy_eq, stmtsEq,
    profileEdit_mem parts, fun world fields => ?_⟩
  exact (checks profileEdit (profileEdit_mem parts) world fields).2.1 (.inr rfl)

/-- Editing the profile asks for a capability of an object.  The configuration is accepted, with the
promise that the check takes `id`, but the check is not about any object. -/
theorem object_checked_without_param :
    Config.check (acme (profile "profile.edit")).config = .ok [] ∧
    ∃ (ir : Ir) (policy : Php.File) (decl : Php.Class),
      Ir.build (acme (profile "profile.edit")) = .ok ir ∧
      policySource (policyNamespace ir.php) ir.capabilityMap = .ok policy ∧
      policy.stmts = [.classDecl decl] ∧
      (∃ definition ∈ ir.capabilityMap.definitions, definition.key = "profile.edit" ∧
        definition.appliesTo = .object) ∧
      (∃ warning ∈ ir.capabilityMap.warnings, warning.message =
        "Capability \"profile.edit\" targets an object but no request parameter could be " ++
          "inferred. The helper will default to \"id\".") ∧
      decl.callStatic (fun _ _ => .bool true) "enforce"
          [.string "profile.edit", .object "WP_REST_Request" []] =
        some (.bool true, [.function "current_user_can" [.string "edit_profile"]]) := by
  obtain ⟨parts, ⟨sources⟩⟩ := exists_sources_profile
  have member := profileEdit_mem parts
  have distinct : Keyed.Distinct ((acme (profile "profile.edit")).config.capabilities.getD []) :=
    List.Pairwise.nil
  have ascending := (describes_of_buildCapabilityMap distinct parts.capabilityMap_eq).ascending
  refine ⟨check_profile, parts.ir, sources.policy, policyClass parts.capabilityMap, parts.build_eq,
    sources.policy_eq, stmts_policySource sources.policy_eq, ⟨profileEdit, member, rfl, rfl⟩,
    ⟨_, mem_warnings_of_bindingWarning parts.capabilityMap_eq member rfl, ?_⟩, ?_⟩
  · decide
  · exact callStatic_enforce (fun _ _ => .bool true) ascending member "WP_REST_Request" []

end RestPlugin.Plugin
