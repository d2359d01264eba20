import RestPlugin.Php.Marker
import RestPlugin.Php.Shape
import RestPlugin.Proofs.Php.Printed

/-!
# Comments of a syntax tree

The lines of documentation comments and the comments between statements, in the order in which they
are printed.  A text has to stay inside of its comment: what would end the comment must not stand in
it.
-/

namespace RestPlugin

namespace Text

/-- A text without a character lies on one side of it or on the other. -/
theorem infix_append_cons_iff {c : Char} {piece before after : List Char} (nonempty : piece ≠ [])
    (apart : c ∉ piece) :
    piece <:+: before ++ c :: after ↔ piece <:+: before ∨ piece <:+: after := by
  constructor
  · rintro ⟨start, rest, whole⟩
    rw [List.append_assoc, List.append_eq_append_iff] at whole
    rcases whole with ⟨middle, beforeEq, laterEq⟩ | ⟨middle, startEq, laterEq⟩
    · rcases List.append_eq_append_iff.mp laterEq with ⟨later, middleEq, -⟩ | ⟨cut, pieceEq, cutEq⟩
      · exact .inl ⟨start, later, by rw [beforeEq, middleEq, List.append_assoc]⟩
      · cases cut with
        | nil => exact .inl ⟨start, [], by simp [beforeEq, pieceEq]⟩
        | cons d cut =>
            obtain ⟨rfl, -⟩ := List.cons.inj cutEq
            exact absurd (pieceEq ▸ List.mem_append_right _ List.mem_cons_self) apart
    · cases middle with
      | nil =>
          cases piece with
          | nil => exact absurd rfl nonempty
          | cons d piece =>
              obtain ⟨rfl, -⟩ := List.cons.inj laterEq
              exact absurd List.mem_cons_self apart
      | cons d middle =>
          obtain ⟨rfl, afterEq⟩ := List.cons.inj laterEq
          refine .inr ⟨middle, rest, ?_⟩
          rw [List.append_assoc]
          exact afterEq.symm
  · rintro (inBefore | inAfter)
    · exact List.infix_append_of_infix_left inBefore
    · exact List.infix_append_of_infix_right (List.infix_cons inAfter)

end Text

namespace Php

open Code Text

/-! ## Notes -/

/-- A line of a documentation comment, or a comment of its own. -/
inductive Note where
  | doc (line : String)
  | comment (text : String)
deriving DecidableEq, Repr

/-- The text of a note. -/
def Note.text : Note → String
  | doc line => line
  | comment text => text

/-- The line a note is printed as. -/
def Note.line : Note → String
  | doc line => docLine line
  | comment text => text

/-- The notes of a documentation comment, if there is one. -/
def docNotes (doc : Option Doc) : List Note := (doc.getD []).map .doc

mutual

/-- The notes in a statement. -/
def Stmt.notes : Stmt → List Note
  | .expression _ | .ret _ | .next => []
  | .cond _ yes none => stmtNotes yes
  | .cond _ yes (some no) => stmtNotes yes ++ stmtNotes no
  | .foreach _ _ _ body => stmtNotes body
  | .nop comments => comments.map .comment
  | .function ⟨_, _, _, _, _, body, doc⟩ => docNotes doc ++ stmtNotes body
  | .classDecl ⟨_, _, _, _, _, methods, doc⟩ => docNotes doc ++ methodNotes methods
termination_by structural stmt => stmt

/-- The notes in statements. -/
def stmtNotes : List Stmt → List Note
  | [] => []
  | stmt :: rest => stmt.notes ++ stmtNotes rest
termination_by structural stmts => stmts

/-- The notes in methods. -/
def methodNotes : List (FunctionOf Stmt) → List Note
  | [] => []
  | ⟨_, _, _, _, _, body, doc⟩ :: rest => docNotes doc ++ stmtNotes body ++ methodNotes rest
termination_by structural methods => methods

end

/-- The notes of a function. -/
def FunctionOf.notes (decl : FunctionOf Stmt) : List Note :=
  docNotes decl.doc ++ stmtNotes decl.body

/-- The notes of a file. -/
def File.notes (file : File) : List Note := docNotes file.doc ++ stmtNotes file.stmts

/-! ## Parts -/

theorem stmtNotes_eq_flatMap (stmts : List Stmt) : stmtNotes stmts = stmts.flatMap Stmt.notes := by
  induction stmts with
  | nil => rfl
  | cons stmt rest ih => rw [stmtNotes, ih, List.flatMap_cons]

@[simp]
theorem stmtNotes_nil : stmtNotes [] = [] := rfl

@[simp]
theorem stmtNotes_cons (stmt : Stmt) (rest : List Stmt) :
    stmtNotes (stmt :: rest) = stmt.notes ++ stmtNotes rest := rfl

@[simp]
theorem stmtNotes_append (stmts more : List Stmt) :
    stmtNotes (stmts ++ more) = stmtNotes stmts ++ stmtNotes more := by
  simp only [stmtNotes_eq_flatMap, List.flatMap_append]

theorem methodNotes_eq_flatMap (methods : List (FunctionOf Stmt)) :
    methodNotes methods = methods.flatMap FunctionOf.notes := by
  induction methods with
  | nil => rfl
  | cons method rest ih =>
      rw [methodNotes, ih, List.flatMap_cons]
      rfl

theorem methodNotes_append (methods more : List (FunctionOf Stmt)) :
    methodNotes (methods ++ more) = methodNotes methods ++ methodNotes more := by
  simp only [methodNotes_eq_flatMap, List.flatMap_append]

@[simp]
theorem notes_expression (value : Expr) : (Stmt.expression value).notes = [] := rfl

@[simp]
theorem notes_returning (value : Expr) : (Stmt.returning value).notes = [] := rfl

@[simp]
theorem notes_set (target value : Expr) : (Stmt.set target value).notes = [] := rfl

@[simp]
theorem notes_setVar (name : String) (value : Expr) : (Stmt.setVar name value).notes = [] := rfl

@[simp]
theorem notes_next : Stmt.next.notes = [] := rfl

@[simp]
theorem notes_blank : Stmt.blank.notes = [] := rfl

@[simp]
theorem notes_when (condition : Expr) (body : List Stmt) :
    (Stmt.when condition body).notes = stmtNotes body := rfl

@[simp]
theorem notes_foreach (subject value : Expr) (key : Option Expr) (body : List Stmt) :
    (Stmt.foreach subject key value body).notes = stmtNotes body := rfl

/-! ## Printing -/

/-- A note stands on a line of fragments. -/
def Note.Printed (note : Note) (fragments : List Fragment) : Prop :=
  ∀ base, ∃ depth, indented Indent.tab.unit depth note.line ∈
    linesOf Indent.tab.unit base fragments

namespace Note.Printed

variable {note : Note} {fragments : List Fragment} {header : String} {close : Option String}

theorem append (printed : note.Printed fragments) (after : List Fragment) :
    note.Printed (fragments ++ after) := by
  intro base
  obtain ⟨depth, member⟩ := printed base
  rw [linesOf_append]
  exact ⟨depth, List.mem_append_left _ member⟩

theorem prepend (before : List Fragment) (printed : note.Printed fragments) :
    note.Printed (before ++ fragments) := by
  intro base
  obtain ⟨depth, member⟩ := printed base
  rw [linesOf_append]
  exact ⟨depth, List.mem_append_right _ member⟩

/-- A comment in the body of a block is in the block. -/
theorem inBlock (printed : note.Printed fragments) :
    note.Printed [.block header fragments close] := by
  intro base
  obtain ⟨depth, member⟩ := printed (base + 1)
  rw [linesOf, Fragment.lines]
  exact ⟨depth, List.mem_append_left _
    (List.mem_cons_of_mem _ (List.mem_append_left _ member))⟩

/-- A comment in a body is in the fragments of the body with its braces. -/
theorem inBody (printed : note.Printed fragments) :
    note.Printed (blockFragments header fragments close) := by
  rw [blockFragments]
  split
  · exact printed.inBlock
  · exact printed.inBlock.prepend _

/-- A comment of a docblock is printed with it. -/
theorem ofDoc {doc : Option Doc} (member : note ∈ docNotes doc) :
    note.Printed (docFragments doc) := by
  cases doc with
  | none => cases member
  | some lines =>
      obtain ⟨line, lineMem, rfl⟩ := List.mem_map.mp member
      intro base
      refine ⟨base, ?_⟩
      simp only [docFragments, Option.toList_some, List.map_singleton, linesOf, Fragment.lines,
        docLines, List.append_nil]
      apply List.mem_map_of_mem
      exact List.mem_cons_of_mem _ (List.mem_append_left _ (List.mem_map_of_mem lineMem))

theorem ofNop {comments : List String} (member : note ∈ comments.map Note.comment) :
    note.Printed (comments.map .line) := by
  obtain ⟨text, textMem, rfl⟩ := List.mem_map.mp member
  intro base
  rw [linesOf_line]
  exact ⟨base, List.mem_map_of_mem textMem⟩

/-- A comment in one of the methods is in the methods with blank lines between them. -/
theorem inSeparated {methods : List (List Fragment)} (member : fragments ∈ methods)
    (printed : note.Printed fragments) (afterConsts : Bool) :
    note.Printed (separated afterConsts methods) := by
  induction methods generalizing afterConsts with
  | nil => cases member
  | cons method methods ih =>
      rw [separated]
      rcases List.mem_cons.mp member with rfl | later
      · exact (printed.prepend _).append _
      · exact (ih later true).prepend _

end Note.Printed

mutual

/-- Every comment of a statement is printed with the statement. -/
theorem Stmt.printed_of_mem_notes (keyword : String) : ∀ (stmt : Stmt),
    ∀ note ∈ stmt.notes, note.Printed (stmt.fragmentsFrom keyword)
  | .expression _, _, member | .ret _, _, member | .next, _, member => by cases member
  | .cond _ yes none, note, member => (printed_of_mem_stmtNotes yes note member).inBody
  | .cond _ yes (some no), note, member => by
      rcases List.mem_append.mp member with inYes | inNo
      · exact (printed_of_mem_stmtNotes yes note inYes).inBody.append _
      · exact (printed_of_mem_elseNotes no note inNo).prepend _
  | .foreach _ _ _ body, note, member => (printed_of_mem_stmtNotes body note member).inBody
  | .nop comments, note, member => by
      cases comments with
      | nil => cases member
      | cons comment comments => exact .ofNop member
  | .function ⟨_, _, _, _, _, body, doc⟩, note, member => by
      rcases List.mem_append.mp member with inDoc | inBody
      · exact (Note.Printed.ofDoc inDoc).append _
      · exact (printed_of_mem_stmtNotes body note inBody).inBody.prepend _
  | .classDecl ⟨_, _, _, _, _, methods, doc⟩, note, member => by
      rcases List.mem_append.mp member with inDoc | inMethods
      · exact (Note.Printed.ofDoc inDoc).append _
      · obtain ⟨fragments, fragmentsMem, printed⟩ :=
          exists_printed_of_mem_methodNotes methods note inMethods
        exact ((printed.inSeparated fragmentsMem _).prepend _).inBlock.prepend _
termination_by structural stmt => stmt

/-- Every comment of some statements is printed with them. -/
theorem printed_of_mem_stmtNotes : ∀ (stmts : List Stmt),
    ∀ note ∈ stmtNotes stmts, note.Printed (stmtFragments stmts)
  | [], _, member => by cases member
  | stmt :: rest, note, member => by
      rcases List.mem_append.mp member with first | later
      · exact (stmt.printed_of_mem_notes "if" note first).append _
      · exact (printed_of_mem_stmtNotes rest note later).prepend _
termination_by structural stmts => stmts

/-- Every comment of an alternative is printed with it. -/
theorem printed_of_mem_elseNotes : ∀ (stmts : List Stmt),
    ∀ note ∈ stmtNotes stmts, note.Printed (elseFragments stmts)
  | [], _, member => by cases member
  | stmt :: rest, note, member => by
      rw [elseFragments]
      split
      · rename_i chained
        obtain rfl : rest = [] := by simpa using (Bool.and_eq_true_iff.mp chained).2
        rw [stmtNotes, stmtNotes_nil, List.append_nil] at member
        exact stmt.printed_of_mem_notes _ note member
      · rcases List.mem_append.mp member with first | later
        · exact ((stmt.printed_of_mem_notes "if" note first).append _).inBlock
        · exact ((printed_of_mem_stmtNotes rest note later).prepend _).inBlock
termination_by structural stmts => stmts

/-- Every comment of the methods of a class is printed with one of them. -/
theorem exists_printed_of_mem_methodNotes : ∀ (methods : List (FunctionOf Stmt)),
    ∀ note ∈ methodNotes methods, ∃ fragments ∈ methodFragments methods, note.Printed fragments
  | [], _, member => by cases member
  | ⟨_, _, _, _, _, body, doc⟩ :: rest, note, member => by
      rw [methodNotes, List.append_assoc] at member
      rcases List.mem_append.mp member with inDoc | member
      · exact ⟨_, List.mem_cons_self, (Note.Printed.ofDoc inDoc).append _⟩
      rcases List.mem_append.mp member with inBody | later
      · exact ⟨_, List.mem_cons_self,
          (printed_of_mem_stmtNotes body note inBody).inBody.prepend _⟩
      · obtain ⟨fragments, fragmentsMem, printed⟩ :=
          exists_printed_of_mem_methodNotes rest note later
        exact ⟨fragments, List.mem_cons_of_mem _ fragmentsMem, printed⟩
termination_by structural methods => methods

end

/-- Every note of a file stands on one of the lines the file is printed as. -/
theorem File.printed_of_mem_notes {file : File} {note : Note} (member : note ∈ file.notes) :
    note.Printed file.fragments := by
  rw [File.fragments]
  rcases List.mem_append.mp member with inDoc | inStmts
  · exact ((((((Note.Printed.ofDoc inDoc).prepend _).append _).append _).append _).append _)
  · have nonempty : file.stmts.isEmpty = false := by
      cases stmtsEq : file.stmts with
      | nil => simp [stmtsEq] at inStmts
      | cons => rfl
    rw [nonempty]
    exact ((printed_of_mem_stmtNotes _ note inStmts).prepend [.blank]).prepend _

/-! ## Endings -/

/-- What ends a comment: the first a documentation comment, the others a comment of one line. -/
def endings : List String := ["*/", "?>", "\n", "\r"]

/-- A text in which no ending begins. -/
def Plain (text : String) : Prop := ∀ c ∈ text.toList, c ∉ ['*', '?', '\n', '\r']

instance (text : String) : Decidable (Plain text) :=
  List.decidableBAll _ _

/-- The characters of a literal are known, so that they need not be computed. -/
theorem plain_ofList {l : List Char}
    (plain : (l.any fun c => ['*', '?', '\n', '\r'].contains c) = false) :
    Plain (String.ofList l) := by
  intro c member ending
  rw [String.toList_ofList] at member
  exact List.any_eq_false.mp plain c member (List.contains_iff_mem.mpr ending)

/-- A text is plain exactly if both of its parts are. -/
theorem plain_append {text more : String} : Plain (text ++ more) ↔ Plain text ∧ Plain more := by
  simp only [Plain, String.toList_append, List.forall_mem_append]

theorem Plain.of_within {piece text : String} (plain : Plain text) (within : Within piece text) :
    Plain piece :=
  fun c member => plain c (List.IsInfix.subset within member)

section Endings

variable {ending : String} (member : ending ∈ endings)
include member

/-- The end of a comment does not stand in a plain text. -/
theorem not_within_of_plain {text : String} (plain : Plain text) : ¬Within ending text := by
  have lively : ∀ ending ∈ endings, ¬Plain ending := by decide
  exact fun within => lively ending member (plain.of_within within)

/-- A text between two signs that belong to no ending holds an ending exactly if it does so without
what stands around it. -/
theorem within_framed_iff {left right : Char}
    (sides : ∀ ending ∈ endings, left ∉ ending.toList ∧ right ∉ ending.toList)
    {before after : String} (plainBefore : Plain before) (plainAfter : Plain after)
    (text : String) :
    Within ending
        (before ++ String.singleton left ++ text ++ String.singleton right ++ after) ↔
      Within ending text := by
  have nonempty : ∀ ending ∈ endings, ending.toList ≠ [] := by decide
  obtain ⟨leftApart, rightApart⟩ := sides ending member
  have notBefore := not_within_of_plain member plainBefore
  have notAfter := not_within_of_plain member plainAfter
  rw [Within] at notBefore notAfter
  simp only [Within, String.toList_append, String.toList_singleton, List.append_assoc,
    List.cons_append, List.nil_append]
  rw [infix_append_cons_iff (nonempty ending member) leftApart,
    infix_append_cons_iff (nonempty ending member) rightApart]
  simp only [notBefore, notAfter, false_or, or_false]

end Endings

end Php

end RestPlugin
