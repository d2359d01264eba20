import RestPlugin.Terms

/-!
# Errors of the representation

The causes for which no representation can be built from a configuration.
-/

namespace RestPlugin.Ir

/-- What is wrong with the path of a route. -/
inductive PathFault where
  | empty
  | absoluteUrl (path : String)
  | parentSegment (path : String)
  | reserved (path beginning : String)
deriving DecidableEq, Repr

/-- The message of a path fault. -/
def PathFault.message : PathFault → String
  | empty => "route path must not be empty"
  | absoluteUrl path => s!"route path '{path}' must be relative, not an absolute URL"
  | parentSegment path => s!"route path '{path}' must not contain '../' segments"
  | reserved path beginning =>
      s!"route path '{path}' uses the reserved WordPress prefix '{beginning}'"

/-- What is wrong with the declaration of a resource. -/
inductive Problem where
  | badPath (operation : Operation) (fault : PathFault)
  | routeTaken (operation : Operation) (method : Method) (path owner : String)
  | optionIdentity
  | optionItemRoute (method : Method) (path : String)
  | numericTermParam (param : String)
  | textTermParam (param : String)
  | schemaMissing (key : String)
  | schemaUndeclared (schema : String)
  | capabilityConflict (key : String) (owner : Option String)
deriving DecidableEq, Repr

/-- The field of the declaration that a problem is about. -/
def Problem.field : Problem → String
  | badPath operation _ => "routes." ++ operation.text ++ ".path"
  | routeTaken operation _ _ _ => "routes." ++ operation.text
  | optionIdentity => "identity"
  | optionItemRoute _ _ => "routes"
  | numericTermParam _ | textTermParam _ => "identity.param"
  | schemaMissing _ | schemaUndeclared _ => "schema"
  | capabilityConflict key _ => s!"capabilities.{key}"

/-- The message of a problem. -/
def Problem.message : Problem → String
  | badPath _ fault => fault.message
  | routeTaken _ method path owner =>
      method.text ++ s!" {path} is already declared by resource '{owner}'"
  | optionIdentity => "wp-option storage holds a single value and cannot declare an identity"
  | optionItemRoute method path =>
      "wp-option storage holds a single value; route " ++ method.text ++
        s!" {path} must not address an item"
  | numericTermParam param => s!"wp-taxonomy terms are addressed by numeric 'id', not '{param}'"
  | textTermParam param => s!"wp-taxonomy terms are addressed by 'slug' strings, not '{param}'"
  | schemaMissing key => s!"resource \"{key}\" must declare a schema reference or use 'auto'"
  | schemaUndeclared schema => s!"schema '{schema}' is not declared"
  | capabilityConflict _ none =>
      "conflicts with the definition declared by the capability map"
  | capabilityConflict _ (some owner) =>
      s!"conflicts with the definition declared by resource '{owner}'"

/-- The slots of a draft. -/
inductive Slot where
  | info
  | schemas
  | resources
  | capabilityMap
  | php
deriving DecidableEq, Repr

/-- The name of a slot in messages. -/
def Slot.text : Slot → String
  | info => "meta"
  | schemas => "schemas"
  | resources => "resources"
  | capabilityMap => "capability map"
  | php => "php project"

/-- Why no representation could be built. -/
inductive Error where
  | developer (resource : String) (problem : Problem)
  | unusableNamespace (text : String)
  | schemaNotLoaded (key path : String)
  | missingSlot (slot : Slot)
deriving DecidableEq, Repr

/-- The message of an error. -/
def Error.message : Error → String
  | developer resource problem =>
      s!"resource '{resource}' has an invalid " ++ problem.field ++ ": " ++ problem.message
  | unusableNamespace text =>
      s!"namespace '{text}' cannot be sanitised into a valid plugin namespace"
  | schemaNotLoaded key path => s!"schema '{key}' ({path}) was declared but never loaded"
  | missingSlot slot => "IR draft is missing its " ++ slot.text

/-- The code of an error. -/
def Error.code : Error → String
  | developer _ _ => "wpk::ir::developer"
  | unusableNamespace _ | schemaNotLoaded _ _ | missingSlot _ => "wpk::ir::validation"

/-- A hint on how to mend the error. -/
def Error.help : Error → Option String
  | developer _ _ =>
      some ("fix the resource declaration in the kernel config and run the generator again")
  | unusableNamespace _ | schemaNotLoaded _ _ | missingSlot _ => none

end RestPlugin.Ir
