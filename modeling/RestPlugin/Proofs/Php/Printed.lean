import RestPlugin.Proofs.Php.Literals

/-!
# Text literals in printed files

Fragments are written line by line, each line after the tabs of its depth.  So a text that is cut
into lines stands in the printed file with these tabs after its line breaks, and a text literal in
it is found there as the literal of the text with the same tabs: the file holds the text itself if
and only if laying it out changes nothing.
-/

namespace RestPlugin

open Text

namespace Code

theorem toList_indented (depth : Nat) (text : String) :
    (indented Indent.tab.unit depth text).toList = List.replicate depth '\t' ++ text.toList := by
  induction depth with
  | zero => rfl
  | succ depth ih =>
      rw [indented, String.toList_append, ih]
      rfl

/-- The lines of some fragments come one after another. -/
theorem linesOf_append (unit : String) (depth : Nat) (fragments more : List Fragment) :
    linesOf unit depth (fragments ++ more) =
      linesOf unit depth fragments ++ linesOf unit depth more := by
  induction fragments with
  | nil => rfl
  | cons fragment fragments ih => rw [List.cons_append, linesOf, linesOf, ih, List.append_assoc]

theorem linesOf_line (unit : String) (depth : Nat) (texts : List String) :
    linesOf unit depth (texts.map .line) = texts.map (indented unit depth) := by
  induction texts with
  | nil => rfl
  | cons text texts ih =>
      rw [List.map_cons, linesOf, ih]
      rfl

theorem toList_unlines_indented (depth : Nat) (lines : List String) :
    (unlines (lines.map (indented Indent.tab.unit depth))).toList =
      Php.spread depth (lines.map String.toList) := by
  induction lines with
  | nil => rfl
  | cons line lines ih =>
      rw [unlines] at ih ⊢
      simp only [List.map_cons, String.join_cons, String.toList_append, ih, toList_indented,
        Php.spread, List.append_assoc]
      rfl

theorem unlines_append (lines more : List String) :
    unlines (lines ++ more) = unlines lines ++ unlines more := by
  rw [unlines, List.map_append, String.join_append]
  rfl

end Code

namespace Php

open Code

/-! ## Expressions in fragments -/

/-- The fragments of a method. -/
def methodBlock (method : FunctionOf Stmt) : List Fragment :=
  docFragments method.doc ++
    blockFragments
      (modifiers method.visibility method.isStatic ++
        functionHeader method.name method.params method.returnType)
      (stmtFragments method.body) (some "\x7d")

theorem methodFragments_eq_map (methods : List (FunctionOf Stmt)) :
    methodFragments methods = methods.map methodBlock := by
  induction methods with
  | nil => rfl
  | cons method methods ih =>
      rw [methodFragments, ih]
      rfl

/-- A text with an expression in it stands among the lines of fragments, at a depth below them. -/
def Shows (depth : Nat) (expr : Expr) (fragments : List Fragment) : Prop :=
  ∃ text : String, Within expr.text text ∧ ∀ base,
    (Text.lines text).map (indented Indent.tab.unit (base + depth)) <:+:
      linesOf Indent.tab.unit base fragments

section Shows

variable {depth : Nat} {expr : Expr} {fragments : List Fragment} {header text : String}
  {close : Option String}

theorem Shows.append (shown : Shows depth expr fragments) (after : List Fragment) :
    Shows depth expr (fragments ++ after) := by
  obtain ⟨text, within, among⟩ := shown
  refine ⟨text, within, fun base => ?_⟩
  rw [linesOf_append]
  exact List.infix_append_of_infix_left (among base)

theorem Shows.prepend (before : List Fragment) (shown : Shows depth expr fragments) :
    Shows depth expr (before ++ fragments) := by
  obtain ⟨text, within, among⟩ := shown
  refine ⟨text, within, fun base => ?_⟩
  rw [linesOf_append]
  exact List.infix_append_of_infix_right (among base)

/-- An expression in the body of a block is shown one level deeper. -/
theorem Shows.inBlock (shown : Shows depth expr fragments) :
    Shows (1 + depth) expr [.block header fragments close] := by
  obtain ⟨text, within, among⟩ := shown
  refine ⟨text, within, fun base => ?_⟩
  rw [linesOf, Fragment.lines, ← Nat.add_assoc]
  exact List.infix_append_of_infix_left
    (List.infix_cons (List.infix_append_of_infix_left (among (base + 1))))

/-- An expression in a body is shown one level deeper than the braces. -/
theorem Shows.inBody (shown : Shows depth expr fragments) :
    Shows (1 + depth) expr (blockFragments header fragments close) := by
  rw [blockFragments]
  split
  · exact shown.inBlock
  · exact shown.inBlock.prepend _

theorem shows_text (within : Within expr.text text) : Shows 0 expr (textFragments text) := by
  refine ⟨text, within, fun base => ?_⟩
  rw [textFragments, linesOf_line]
  exact List.infix_refl _

theorem shows_header (within : Within expr.text header) :
    Shows 0 expr (blockFragments header fragments close) := by
  refine ⟨header, within, fun base => ?_⟩
  rw [blockFragments]
  split
  · rename_i noLines
    rw [List.reverse_eq_nil_iff.mp noLines]
    exact List.nil_infix
  · rename_i last above linesEq
    rw [List.reverse_eq_cons_iff.mp linesEq, linesOf_append, linesOf_line, List.map_append,
      linesOf, Fragment.lines]
    exact (List.prefix_append_right_inj _).mpr (List.prefix_append [_] _) |>.isInfix

theorem shows_flatMap {α : Type} {pieces : α → List Fragment} {found : α} {all : List α}
    (member : found ∈ all) (shown : Shows depth expr (pieces found)) :
    Shows depth expr (all.flatMap pieces) := by
  obtain ⟨before, after, rfl⟩ := List.append_of_mem member
  rw [List.flatMap_append, List.flatMap_cons]
  exact (shown.append _).prepend _

/-- An expression in one of the methods is shown by the methods with blank lines between them. -/
theorem Shows.inSeparated {methods : List (List Fragment)} (member : fragments ∈ methods)
    (shown : Shows depth expr fragments) (afterConsts : Bool) :
    Shows depth expr (separated afterConsts methods) := by
  induction methods generalizing afterConsts with
  | nil => cases member
  | cons method methods ih =>
      rw [separated]
      rcases List.mem_cons.mp member with rfl | later
      · exact (shown.prepend _).append _
      · exact (ih later true).prepend _

/-- An expression of one statement is shown by the statements that it is one of. -/
theorem Shows.inStmts {stmt : Stmt} {stmts : List Stmt} (member : stmt ∈ stmts)
    (shown : Shows depth expr (stmt.fragmentsFrom "if")) :
    Shows depth expr (stmtFragments stmts) := by
  induction stmts with
  | nil => cases member
  | cons first later ih =>
      rw [stmtFragments]
      rcases List.mem_cons.mp member with rfl | inLater
      · exact shown.append _
      · exact (ih inLater).prepend _

end Shows

/-! ## Expressions in statements -/

namespace Stmt

variable {depth blocks : Nat} {expr : Expr} {stmt : Stmt}

theorem within_functionHeader {decl : FunctionOf Stmt} (member : expr ∈ decl.defaults) :
    Within expr.text (functionHeader decl.name decl.params decl.returnType) :=
  (((within_paramList member).prepend _).append _).append _

/-- Every expression of a statement is shown at its level in the statement. -/
theorem shows_of_mem_exprs (member : (blocks, expr) ∈ stmt.exprs) (keyword : String) :
    Shows blocks expr (stmt.fragmentsFrom keyword) := by
  cases stmt with
  | next | nop => cases member
  | expression value =>
      obtain ⟨rfl, rfl⟩ := Prod.mk.inj (List.mem_singleton.mp member)
      exact shows_text ((Within.refl _).append _)
  | ret value =>
      cases value with
      | none => cases member
      | some value =>
          obtain ⟨rfl, rfl⟩ := Prod.mk.inj (List.mem_singleton.mp member)
          exact shows_text (((Within.refl _).prepend _).append _)
  | cond condition yes no =>
      obtain ⟨rfl, rfl⟩ := Prod.mk.inj (List.mem_singleton.mp member)
      have within : Within expr.text (keyword ++ " " ++ enclose expr.text ++ " \x7b") :=
        ((within_enclose (.refl _)).prepend _).append _
      cases no with
      | none => exact shows_header within
      | some no => exact (shows_header within).append _
  | foreach subject key value body =>
      obtain ⟨rfl, foundMem⟩ := mem_map_pair.mp member
      refine shows_header ?_
      rcases List.mem_cons.mp foundMem with rfl | inBinding
      · exact ((((Within.refl _).prepend _).append _).append _).append _
      · refine (Within.prepend _ ?_).append _
        cases key with
        | none =>
            obtain rfl := List.mem_singleton.mp inBinding
            exact .refl _
        | some key =>
            rcases List.mem_pair.mp inBinding with rfl | rfl
            · exact (Within.refl _).prepend _
            · exact ((Within.refl _).append _).append _
  | function decl =>
      obtain ⟨rfl, foundMem⟩ := mem_map_pair.mp member
      exact (shows_header (within_functionHeader foundMem)).prepend _
  | classDecl decl =>
      obtain ⟨rfl, foundMem⟩ := mem_map_pair.mp member
      refine Shows.prepend _ (@Shows.inBlock 0 _ _ _ _ ?_)
      rcases List.mem_append.mp foundMem with inConsts | inMethods
      · obtain ⟨const, constMem, rfl⟩ := List.mem_map.mp inConsts
        exact (shows_flatMap constMem (shows_text (((Within.refl _).prepend _).append _))).append _
      · obtain ⟨method, methodMem, inDefaults⟩ := List.mem_flatMap.mp inMethods
        rw [methodFragments_eq_map]
        refine (Shows.inSeparated (List.mem_map_of_mem methodMem) ?_ _).prepend _
        exact (shows_header ((within_functionHeader inDefaults).prepend _)).prepend _

/-- What a statement of an alternative shows is shown by the alternative. -/
theorem shows_alternative {part : Stmt} {stmts : List Stmt}
    (member : (blocks, part) ∈ alternatives stmts)
    (shown : ∀ keyword, Shows depth expr (part.fragmentsFrom keyword)) :
    Shows (blocks + depth) expr (elseFragments stmts) := by
  cases stmts with
  | nil => cases member
  | cons first later =>
      rw [alternatives] at member
      rw [elseFragments]
      split at member
      · rename_i chained
        obtain ⟨rfl, rfl⟩ := Prod.mk.inj (List.mem_singleton.mp member)
        rw [if_pos chained, Nat.zero_add]
        exact shown _
      · rename_i apart
        obtain ⟨rfl, foundMem⟩ := mem_map_pair.mp member
        rw [if_neg apart]
        exact (Shows.inStmts foundMem (shown _)).inBlock

/-- What a child of a statement shows is shown by the statement, as many levels deeper as the
child stands. -/
theorem shows_of_mem_children {part : Stmt} (member : (blocks, part) ∈ stmt.children)
    (shown : ∀ keyword, Shows depth expr (part.fragmentsFrom keyword)) (keyword : String) :
    Shows (blocks + depth) expr (stmt.fragmentsFrom keyword) := by
  cases stmt with
  | expression | ret | next | nop => cases member
  | cond condition yes no =>
      rcases List.mem_append.mp member with inYes | inNo
      · obtain ⟨rfl, foundMem⟩ := mem_map_pair.mp inYes
        cases no with
        | none => exact (Shows.inStmts foundMem (shown _)).inBody
        | some no => exact (Shows.inStmts foundMem (shown _)).inBody.append _
      · cases no with
        | none => cases inNo
        | some no => exact (shows_alternative inNo shown).prepend _
  | foreach subject key value body =>
      obtain ⟨rfl, foundMem⟩ := mem_map_pair.mp member
      exact (Shows.inStmts foundMem (shown _)).inBody
  | function decl =>
      obtain ⟨rfl, foundMem⟩ := mem_map_pair.mp member
      exact (Shows.inStmts foundMem (shown _)).inBody.prepend _
  | classDecl decl =>
      obtain ⟨method, methodMem, inMethod⟩ := List.mem_flatMap.mp member
      obtain ⟨rfl, foundMem⟩ := mem_map_pair.mp inMethod
      have inBody : Shows (1 + depth) expr (methodBlock method) :=
        (Shows.inStmts foundMem (shown _)).inBody.prepend _
      have inClass := (Shows.inSeparated (List.mem_map_of_mem methodMem) inBody
        (!decl.consts.isEmpty)).prepend
          (decl.consts.flatMap fun const => textFragments (constText const))
      have levels : 2 + depth = 1 + (1 + depth) := Nat.add_assoc 1 1 depth
      rw [← methodFragments_eq_map] at inClass
      rw [levels]
      exact inClass.inBlock.prepend _

/-- An expression of a statement is shown by every statement that contains it. -/
theorem Inside.shows {inner outer : Stmt} (inside : inner.Inside depth outer)
    (member : (blocks, expr) ∈ inner.exprs) (keyword : String) :
    Shows (depth + blocks) expr (outer.fragmentsFrom keyword) := by
  induction inside generalizing keyword with
  | here =>
      rw [Nat.zero_add]
      exact shows_of_mem_exprs member keyword
  | inChild childMem _ ih =>
      rw [Nat.add_assoc]
      exact shows_of_mem_children childMem ih keyword

end Stmt

/-! ## Literals in files -/

/-- A text literal is in a file, inside of a number of blocks and of a number of array literals. -/
inductive File.Holds (file : File) (value : String) : Nat → Nat → Prop
  | inStmt {outer inner : Stmt} {depth blocks arrays : Nat} {expr : Expr}
      (member : outer ∈ file.stmts) (inside : inner.Inside depth outer)
      (exprMem : (blocks, expr) ∈ inner.exprs)
      (holds : expr.Holds value arrays) : Holds file value (depth + blocks) arrays

/-- An expression of a statement in a file is shown by the file. -/
theorem File.shows {file : File} {outer inner : Stmt} {depth blocks : Nat} {expr : Expr}
    (member : outer ∈ file.stmts) (inside : inner.Inside depth outer)
    (exprMem : (blocks, expr) ∈ inner.exprs) : Shows (depth + blocks) expr file.fragments := by
  have nonempty : file.stmts.isEmpty = false := by
    cases stmtsEq : file.stmts with
    | nil => simp [stmtsEq] at member
    | cons => rfl
  rw [File.fragments, nonempty]
  exact (Shows.prepend [.blank] (Shows.inStmts member (inside.shows exprMem _))).prepend _

/-- An expression that some fragments show stands in what is printed, indented to its level. -/
theorem Shows.among_print {depth : Nat} {expr : Expr} {fragments : List Fragment}
    (shown : Shows depth expr fragments) :
    ∃ text : String, Within expr.text text ∧
      spread depth (breakLines text.toList) <:+: (print fragments).toList := by
  obtain ⟨text, within, among⟩ := shown
  refine ⟨text, within, ?_⟩
  obtain ⟨before, after, linesEq⟩ := among 0
  rw [breakLines_eq, ← toList_unlines_indented, print, render, ← linesEq, unlines_append,
    unlines_append, Nat.zero_add, String.toList_append, String.toList_append]
  exact List.infix_append _ _ _

/-- A text literal is printed, contiguously, as the literal of its text laid out. -/
theorem File.Holds.within {file : File} {value : String} {depth arrays : Nat}
    (holds : file.Holds value depth arrays) :
    Within (quote (laidOut (arrays + depth) (arrays + 1) value)) file.print := by
  obtain ⟨member, inside, exprMem, exprHolds⟩ := holds
  obtain ⟨text, within, among⟩ := (File.shows member inside exprMem).among_print
  have inText := exprHolds.within.trans within
  rw [Within, toList_quote] at inText
  have nonempty : text.toList ≠ [] := by
    intro isNil
    rw [isNil] at inText
    exact absurd (List.infix_nil.mp inText) (List.cons_ne_nil _ _)
  rw [spread_breakLines _ nonempty] at among
  rw [Within, toList_quote, ← laidOut_laidOut]
  exact (List.infix_append_of_infix_right (List.infix_append_of_infix_left
    (quoteChars_infix_deeper inText _))).trans among

/-- Every text literal of a file is printed contiguously, as a literal that reads back as its text
laid out.  This is the text itself if it has no line break, and otherwise only outside of all blocks
and arrays and without a carriage return before a line break. -/
theorem File.literal_printed {file : File} {value : String} {depth arrays : Nat}
    (holds : file.Holds value depth arrays) :
    (∃ before after : List Char,
      file.print.toList =
        before ++ (quote (laidOut (arrays + depth) (arrays + 1) value)).toList ++ after ∧
      Reader.quoted ((quote (laidOut (arrays + depth) (arrays + 1) value)).toList.tail ++ after) =
        some ((laidOut (arrays + depth) (arrays + 1) value).toList, after)) ∧
    (laidOut (arrays + depth) (arrays + 1) value = value ↔
      '\n' ∉ value.toList ∨ arrays + depth = 0 ∧ ¬['\r', '\n'] <:+: value.toList) := by
  refine ⟨?_, laidOut_eq_self_iff⟩
  obtain ⟨before, after, printEq⟩ := holds.within
  refine ⟨before, after, printEq.symm, ?_⟩
  rw [toList_quote, quoteChars, List.tail_cons, List.append_assoc, List.singleton_append]
  exact Reader.quoted_append _ after

/-- A function that returns an array with a text of two lines. -/
def labelFile : File where
  stmts := [.function {
    name := "label"
    body := [.ret (some (.array [.mk (some (.string "label")) (.string "First\nSecond")]))] }]

theorem labelFile_holds : labelFile.Holds "First\nSecond" 1 1 := by
  change labelFile.Holds "First\nSecond" (1 + 0 + 0) (0 + 1)
  apply File.Holds.inStmt
  · exact List.mem_cons_self
  · exact .inChild (mem_map_pair.mpr ⟨rfl, List.mem_cons_self⟩) .here
  · exact mem_map_pair.mpr ⟨rfl, List.mem_cons_self⟩
  · exact .inArray List.mem_cons_self List.mem_cons_self .here

theorem labelFile_print :
    labelFile.print =
      "<?php\n\nfunction label() \x7b\n\treturn array(\n" ++
        "\t\t'label' => 'First\n\t\tSecond',\n\t);\n\x7d\n" := by
  decide +kernel

theorem File.literal_printed_label :
    labelFile.Holds "First\nSecond" 1 1 ∧
      laidOut 2 2 "First\nSecond" = "First\n\t\tSecond" ∧
      ∃ before after : List Char,
        labelFile.print.toList = before ++ (quote (laidOut 2 2 "First\nSecond")).toList ++ after ∧
        Reader.quoted ((quote (laidOut 2 2 "First\nSecond")).toList.tail ++ after) =
          some ((laidOut 2 2 "First\nSecond").toList, after) :=
  ⟨labelFile_holds, by decide +kernel, (File.literal_printed labelFile_holds).1⟩

theorem File.literal_not_printed :
    labelFile.Holds "First\nSecond" 1 1 ∧ ¬Within (quote "First\nSecond") labelFile.print := by
  refine ⟨labelFile_holds, ?_⟩
  rw [Within, labelFile_print]
  decide +kernel

end Php

end RestPlugin
