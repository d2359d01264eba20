import RestPlugin.Controller.Class
import RestPlugin.Output.File
import RestPlugin.Php.Printer

/-!
# Sources around the controllers

The base class of the controllers, the table of classes, and the file that loads the plugin.
-/

namespace RestPlugin.Plugin

open Controller Ir Php

/-- The path of the base class. -/
def basePath : String := "Rest/BaseController.php"

/-- The path of the capability checks. -/
def policyPath : String := "Policy/Policy.php"

/-- The path of the table of classes. -/
def indexPath : String := "index.php"

/-- The path of the file that loads the plugin. -/
def loaderPath : String := "plugin.php"

/-- The path of the manifest. -/
def manifestPath : String := "wpk-manifest.json"

/-- The path of a controller. -/
def controllerPath (className : String) : String := "Rest/" ++ className ++ ".php"

/-- A source file below the output directory. -/
def sourceFile (directory path : String) (file : Php.File) : Output.File where
  path := Output.below directory path
  content := file.print

/-- The statement that registers one route. -/
def registerRoute : Stmt :=
  let field (key : String) : Expr := (Expr.var "route").entry key
  .expression (.fn "register_rest_route"
    [field "namespace", field "route",
     .record
       [("methods", field "methods"),
        ("callback", .array [.plain .this, .plain (field "callback")]),
        ("permission_callback", .string "__return_true"),
        ("args", Expr.this.send "get_rest_args" [])]])

/-- The abstract class that registers the routes of a controller. -/
def baseClass : Php.Class where
  name := "BaseController"
  isAbstract := true
  doc := some ["Registers the routes a resource controller declares."]
  methods :=
    [answering "get_routes" "array" (.array []),
     answering "get_rest_args" "array" (.array []),
     { name := "register_routes"
       returnType := some "void"
       body :=
         [.foreach (Expr.this.send "get_routes" []) none (.var "route") [registerRoute]] }]

/-- The source of the base class in a namespace. -/
def baseSource (space : String) : Build Php.File := do
  let name ← Name.of space
  .ok
    { strictTypes := true
      doc := some [generatedNote]
      space := some name
      stmts := [.classDecl baseClass] }

/-- Order of class entries, by class and then by path. -/
def entryLe (a b : String × String) : Bool := a.1 < b.1 || (a.1 == b.1 && !(b.2 < a.2))

/-- The source of the table of classes.  An entry is a class with its path below the output
directory. -/
def indexSource (entries : List (String × String)) : Php.File where
  strictTypes := true
  doc := some [generatedNote]
  stmts :=
    [.returning (.record ((entries.mergeSort entryLe).map fun (className, path) =>
      (className, .binary .concat (.constant ⟨["__DIR__"]⟩) (.string ("/" ++ path)))))]

/-- The function that loads a class from its file. -/
def autoloadFunction : Stmt :=
  let entry := Expr.dim (.var "class_map") (.var "class")
  .function
    { name := "autoload"
      params := [.known "string" "class"]
      body :=
        [.setVar "class_map" (.fn "require"
          [.binary .concat (.constant ⟨["__DIR__"]⟩) (.string ("/" ++ indexPath))]),
         .when (.isset [entry]) [.expression (.fn "require_once" [entry])]] }

/-- The statement that registers the routes of a controller. -/
def registration (className : String) : Build Stmt := do
  let controller ← Expr.create className []
  .ok (.expression (controller.send "register_routes" []))

/-- The full name of a function of the plugin. -/
def ownFunction (name : String) : Expr :=
  .binary .concat (.constant ⟨["__NAMESPACE__"]⟩) (.string ("\\" ++ name))

/-- The source that loads the plugin.  Class names are relative to the namespace. -/
def loaderSource (space : String) (controllers : List String) : Build Php.File := do
  let registrations ← controllers.mapM registration
  let name ← Name.of space
  .ok
    { strictTypes := true
      doc := some [generatedNote, "", "Include this file from the plugin bootstrap."]
      space := some name
      stmts :=
        [autoloadFunction,
         .blank,
         .function { name := "register_routes", body := registrations },
         .blank,
         .expression (.fn "spl_autoload_register" [ownFunction "autoload"]),
         .expression (.fn "add_action"
           [.string "rest_api_init", ownFunction "register_routes"])] }

/-- The classes of a project with their paths. -/
def classEntries (ir : Ir) : List (String × String) :=
  let rest := restNamespace ir.php
  [(rest ++ "\\BaseController", basePath), (policyNamespace ir.php ++ "\\Policy", policyPath)] ++
    ir.resources.map fun resource =>
      (rest ++ "\\" ++ className resource, controllerPath (className resource))

/-- The controllers of a project, relative to its namespace. -/
def controllerNames (ir : Ir) : List String :=
  ir.resources.map fun resource => "Rest\\" ++ className resource

end RestPlugin.Plugin
