import RestPlugin.Php.Build

/-!
# Audit markers

Generated statements are preceded by comments of a fixed form, so that what a handler does can be
checked without parsing PHP.
-/

namespace RestPlugin.Php

/-- The beginning of every marker. -/
def markerStart : String := "// @wp-kernel"

/-- The marker with a key and a value. -/
def marker (key value : String) : Stmt := .comment (markerStart ++ " " ++ key ++ " " ++ value)

/-- Whether a statement is a marker. -/
def Stmt.isMarker : Stmt → Bool
  | .nop comments => comments.any (Text.startsWith · markerStart)
  | _ => false

mutual

/-- The number of markers in a statement, counting nested blocks. -/
def Stmt.countMarkers : Stmt → Nat
  | .cond _ yes none => Php.countMarkers yes
  | .cond _ yes (some no) => Php.countMarkers yes + Php.countMarkers no
  | .foreach _ _ _ body => Php.countMarkers body
  | .function ⟨_, _, _, _, _, body, _⟩ => Php.countMarkers body
  | .nop comments => if (Stmt.nop comments).isMarker then 1 else 0
  | _ => 0
termination_by structural stmt => stmt

/-- The number of markers in statements. -/
def countMarkers : List Stmt → Nat
  | [] => 0
  | stmt :: rest => stmt.countMarkers + countMarkers rest
termination_by structural stmts => stmts

end

end RestPlugin.Php
