import RestPlugin.Proofs.Php.Notes

/-!
# Markers of a syntax tree

The markers in statements, in the order in which they are printed.  Their number is what is counted,
and where there are no comments there are no markers.
-/

namespace RestPlugin.Php

mutual

/-- The markers in a statement. -/
def Stmt.markers : Stmt → List Stmt
  | .cond _ yes none => markersIn yes
  | .cond _ yes (some no) => markersIn yes ++ markersIn no
  | .foreach _ _ _ body => markersIn body
  | .function ⟨_, _, _, _, _, body, _⟩ => markersIn body
  | .nop comments => if (Stmt.nop comments).isMarker then [.nop comments] else []
  | _ => []
termination_by structural stmt => stmt

/-- The markers in statements. -/
def markersIn : List Stmt → List Stmt
  | [] => []
  | stmt :: rest => stmt.markers ++ markersIn rest
termination_by structural stmts => stmts

end

@[simp]
theorem markersIn_nil : markersIn [] = [] := rfl

@[simp]
theorem markersIn_cons (stmt : Stmt) (rest : List Stmt) :
    markersIn (stmt :: rest) = stmt.markers ++ markersIn rest := rfl

@[simp]
theorem markersIn_append (stmts more : List Stmt) :
    markersIn (stmts ++ more) = markersIn stmts ++ markersIn more := by
  induction stmts with
  | nil => rfl
  | cons stmt rest ih =>
      rw [List.cons_append, markersIn_cons, ih, markersIn_cons, List.append_assoc]

mutual

/-- The counted markers of a statement are as many as it has. -/
theorem Stmt.countMarkers_eq_length : ∀ stmt : Stmt, stmt.countMarkers = stmt.markers.length
  | .expression _ | .ret _ | .next | .classDecl _ => rfl
  | .cond _ yes none => countMarkers_eq_length yes
  | .cond _ yes (some no) => by
      rw [Stmt.countMarkers, Stmt.markers, List.length_append, countMarkers_eq_length yes,
        countMarkers_eq_length no]
  | .foreach _ _ _ body => countMarkers_eq_length body
  | .nop comments => by
      rw [Stmt.countMarkers, Stmt.markers]
      split <;> rfl
  | .function ⟨_, _, _, _, _, body, _⟩ => countMarkers_eq_length body
termination_by structural stmt => stmt

/-- The markers that are counted are the ones listed. -/
theorem countMarkers_eq_length : ∀ stmts : List Stmt,
    countMarkers stmts = (markersIn stmts).length
  | [] => rfl
  | stmt :: rest => by
      rw [countMarkers, markersIn, List.length_append, stmt.countMarkers_eq_length,
        countMarkers_eq_length rest]
termination_by structural stmts => stmts

end

mutual

/-- A statement without comments has no markers. -/
theorem Stmt.markers_of_notes_eq_nil : ∀ stmt : Stmt, stmt.notes = [] → stmt.markers = []
  | .expression _, _ | .ret _, _ | .next, _ | .classDecl _, _ => rfl
  | .cond _ yes none, silent => markersIn_of_stmtNotes_eq_nil yes silent
  | .cond _ yes (some no), silent => by
      obtain ⟨yesSilent, noSilent⟩ := List.append_eq_nil_iff.mp silent
      rw [Stmt.markers, markersIn_of_stmtNotes_eq_nil yes yesSilent,
        markersIn_of_stmtNotes_eq_nil no noSilent, List.append_nil]
  | .foreach _ _ _ body, silent => markersIn_of_stmtNotes_eq_nil body silent
  | .nop comments, silent => by
      obtain rfl : comments = [] := List.map_eq_nil_iff.mp silent
      rfl
  | .function ⟨_, _, _, _, _, body, _⟩, silent =>
      markersIn_of_stmtNotes_eq_nil body (List.append_eq_nil_iff.mp silent).2
termination_by structural stmt => stmt

/-- Every marker is a comment. -/
theorem markersIn_of_stmtNotes_eq_nil : ∀ stmts : List Stmt,
    stmtNotes stmts = [] → markersIn stmts = []
  | [], _ => rfl
  | stmt :: rest, silent => by
      obtain ⟨first, later⟩ := List.append_eq_nil_iff.mp silent
      rw [markersIn, stmt.markers_of_notes_eq_nil first, markersIn_of_stmtNotes_eq_nil rest later,
        List.append_nil]
termination_by structural stmts => stmts

end

@[simp]
theorem markers_marker (key value : String) : (marker key value).markers = [marker key value] := by
  have begins : Text.startsWith (markerStart ++ " " ++ key ++ " " ++ value) markerStart = true := by
    rw [Text.startsWith, List.isPrefixOf_iff_prefix]
    simp only [String.toList_append, List.append_assoc]
    exact List.prefix_append _ _
  have isMarker : (marker key value).isMarker = true := by
    rw [marker, Stmt.comment, Stmt.isMarker, List.any_cons, begins, Bool.true_or]
  exact if_pos isMarker

end RestPlugin.Php
