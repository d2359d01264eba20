import Mathlib.Logic.Function.Iterate
import RestPlugin.Proofs.Php.Everywhere
import RestPlugin.Proofs.Php.Tokens

/-!
# Text literals in printed files

The text of every expression is a piece of the text of the expressions and statements around it, up
to the line breaks in it: an array on several lines and every block put tabs after them.  So a text
literal is printed as it stands, contiguously and at every depth, as long as it has no line break.
The file has one with line breaks as the literal of another text, the one with the tabs.

A literal is read back as PHP reads it: a backslash stands for itself unless a backslash or a quote
follows, and the first quote without one ends the literal.  Whatever a text consists of, reading its
literal gives the text and stops behind the closing quote, so nothing in a text can reach the code
around it.
-/

namespace RestPlugin

namespace Text

/-- One text is a contiguous piece of another one. -/
def Within (piece text : String) : Prop := piece.toList <:+: text.toList

instance (piece text : String) : Decidable (Within piece text) :=
  inferInstanceAs (Decidable (piece.toList <:+: text.toList))

namespace Within

variable {piece text : String}

theorem refl (text : String) : Within text text := List.infix_refl _

theorem trans {whole : String} (first : Within piece text) (second : Within text whole) :
    Within piece whole := List.IsInfix.trans first second

theorem append (within : Within piece text) (after : String) : Within piece (text ++ after) := by
  rw [Within, String.toList_append]
  exact List.infix_append_of_infix_left within

theorem prepend (before : String) (within : Within piece text) : Within piece (before ++ text) := by
  rw [Within, String.toList_append]
  exact List.infix_append_of_infix_right within

theorem join (separator : String) {texts : List String} (member : text ∈ texts) :
    Within text (Text.join separator texts) := by
  induction texts with
  | nil => cases member
  | cons first later ih =>
      cases later with
      | nil => exact List.mem_singleton.mp member ▸ refl _
      | cons second later =>
          rw [join_cons_of_ne_nil _ _ (List.cons_ne_nil second later)]
          rcases List.mem_cons.mp member with rfl | inLater
          · exact ((refl _).append _).append _
          · exact (ih inLater).prepend _

theorem concat {texts : List String} (member : text ∈ texts) : Within text (String.join texts) := by
  induction texts with
  | nil => cases member
  | cons first later ih =>
      rw [String.join_cons]
      rcases List.mem_cons.mp member with rfl | inLater
      · exact (refl _).append _
      · exact (ih inLater).prepend _

end Within

end Text

namespace Php

open Text

variable {piece text : String}

/-! ## Pieces of expressions -/

theorem within_enclose (within : Within piece text) : Within piece (enclose text) :=
  (within.prepend _).append _

theorem within_encloseIf (condition : Bool) (within : Within piece text) :
    Within piece (encloseIf condition text) := by
  cases condition with
  | false => exact within
  | true => exact within_enclose within

theorem within_callList {texts : List String} (within : Within piece text) (member : text ∈ texts) :
    Within piece (callList texts) := by
  cases texts with
  | nil => cases member
  | cons first later => exact within_enclose (within.trans (.join _ member))

theorem within_operandText (least : Nat) (expr : Expr) :
    Within expr.text (operandText least expr) := within_encloseIf _ (.refl _)

theorem within_argList {arg : Expr} {args : List Expr} (member : arg ∈ args) :
    Within arg.text (callList (argTexts args)) := by
  rw [argTexts_eq_map]
  exact within_callList (within_operandText _ arg) (List.mem_map_of_mem member)

theorem within_itemText {item : ArrayItem} {part : Expr} (member : part ∈ item.parts) :
    Within part.text (itemText item) := by
  rcases item with ⟨_ | key, value⟩
  · obtain rfl := List.mem_singleton.mp member
    exact within_operandText _ _
  · rcases List.mem_pair.mp member with rfl | rfl
    · exact (within_operandText _ _).prepend _
    · exact ((Within.refl _).append _).append _

theorem within_paramText {param : Param} {part : Expr} (member : part ∈ param.parts) :
    Within part.text (paramText param) := by
  rcases param with ⟨name, type, _ | value⟩
  · cases member
  · obtain rfl := List.mem_singleton.mp member
    exact (Within.refl _).prepend _

theorem within_paramList {part : Expr} {params : List Param}
    (member : part ∈ params.flatMap Param.parts) :
    Within part.text (callList (paramTexts params)) := by
  obtain ⟨param, paramMem, partMem⟩ := List.mem_flatMap.mp member
  rw [paramTexts_eq_map]
  exact within_callList (within_paramText partMem) (List.mem_map_of_mem paramMem)

theorem within_armText {arm : MatchArm} {part : Expr} (member : part ∈ arm.parts) :
    Within part.text (armText arm) := by
  rcases arm with ⟨_ | ⟨condition, conditions⟩, body⟩
  · obtain rfl := List.mem_singleton.mp member
    exact (Within.refl _).prepend _
  · rcases List.mem_cons.mp member with rfl | inConditions
    · exact (Within.refl _).prepend _
    · exact ((Within.join _ (List.mem_map_of_mem inConditions)).append _).append _

namespace Expr

/-- Whether an expression is an array literal. -/
def isArray : Expr → Bool
  | .array _ => true
  | _ => false

/-- Array literals apart, the text of a part of an expression is a piece of the text of the
expression. -/
theorem within_of_mem_parts {expr part : Expr} (notArray : expr.isArray = false)
    (member : part ∈ expr.parts) : Within part.text expr.text := by
  cases expr with
  | var | string | int | constant | classConstant => cases member
  | array items => cases notArray
  | element base key =>
      cases key with
      | none =>
          obtain rfl := List.mem_singleton.mp member
          exact (within_encloseIf _ (.refl _)).append _
      | some key =>
          rcases List.mem_pair.mp member with rfl | rfl
          · exact (within_encloseIf _ (.refl _)).append _
          · refine Within.prepend _ ?_
            split <;> exact ((Within.refl _).prepend _).append _
  | property base name =>
      obtain rfl := List.mem_singleton.mp member
      exact ((within_encloseIf _ (.refl _)).append _).append _
  | call name args => exact (within_argList member).prepend _
  | methodCall base name args =>
      rcases List.mem_cons.mp member with rfl | inArgs
      · exact (((within_encloseIf _ (.refl _)).append _).append _).append _
      · exact (within_argList inArgs).prepend _
  | staticCall className name args => exact (within_argList member).prepend _
  | new className args => exact (within_argList member).prepend _
  | assign target value =>
      rcases List.mem_pair.mp member with rfl | rfl
      · exact ((Within.refl _).append _).append _
      · exact (within_encloseIf _ (.refl _)).prepend _
  | binary op left right =>
      rcases List.mem_pair.mp member with rfl | rfl
      · exact ((((within_encloseIf _ (.refl _)).append _).append _).append _).append _
      · exact (within_encloseIf _ (.refl _)).prepend _
  | not operand =>
      obtain rfl := List.mem_singleton.mp member
      exact (within_encloseIf _ (.refl _)).prepend _
  | instanceOf operand className =>
      obtain rfl := List.mem_singleton.mp member
      exact ((within_encloseIf _ (.refl _)).append _).append _
  | cast kind operand =>
      obtain rfl := List.mem_singleton.mp member
      exact (within_encloseIf _ (.refl _)).prepend _
  | ternary condition yes no =>
      cases yes with
      | none =>
          rcases List.mem_pair.mp member with rfl | rfl
          · exact ((within_encloseIf _ (.refl _)).append _).append _
          · exact (within_encloseIf _ (.refl _)).prepend _
      | some yes =>
          rcases List.mem_cons.mp member with rfl | member
          · exact ((((within_encloseIf _ (.refl _)).append _).append _).append _).append _
          · rcases List.mem_pair.mp member with rfl | rfl
            · exact (within_encloseIf _ (.refl _)).prepend _
            · exact (((within_encloseIf _ (.refl _)).prepend _).append _).append _
  | isset args => exact (within_argList member).prepend _
  | arrow isStatic params body =>
      rcases List.mem_cons.mp member with rfl | inParams
      · exact (Within.refl _).prepend _
      · exact (((within_paramList inParams).prepend _).append _).append _
  | matching subject arms =>
      rcases List.mem_cons.mp member with rfl | inArms
      · exact ((((Within.refl _).prepend _).append _).append _).append _
      · obtain ⟨arm, armMem, partMem⟩ := List.mem_flatMap.mp inArms
        rw [Expr.text, armTexts_eq_map]
        exact (((within_armText partMem).trans (.join _ (List.mem_map_of_mem armMem))).prepend
          _).append _

end Expr

/-! ## Quoted texts in lines -/

/-- The characters of a quoted text. -/
def quoteChars (value : List Char) : List Char := '\'' :: (value.flatMap quoteChar ++ ['\''])

theorem toList_quote (value : String) : (quote value).toList = quoteChars value.toList := by
  rw [quote, String.toList_ofList, quoteChars]

theorem getLast?_quoteChars (value : List Char) : (quoteChars value).getLast? = some '\'' := by
  rw [quoteChars, ← List.cons_append, List.getLast?_concat]

theorem mem_quoteChars {c : Char} {value : List Char} (member : c ∈ value) :
    c ∈ quoteChars value := by
  refine List.mem_cons_of_mem _ (List.mem_append_left _ (List.mem_flatMap.mpr ⟨c, member, ?_⟩))
  rw [quoteChar]
  split <;> simp

theorem deeper_quoteChars (depth : Nat) (value : List Char) :
    deeper depth (quoteChars value) = quoteChars (deeper depth value) := by
  have inner : deeper depth (value.flatMap quoteChar) = (deeper depth value).flatMap quoteChar := by
    induction value with
    | nil => rfl
    | cons c value ih =>
        rw [List.flatMap_cons, deeper_append, ih, deeper_cons, List.flatMap_append]
        congr 1
        by_cases isBreak : c = '\n'
        · subst isBreak
          have tabs :
              (List.replicate depth '\t').flatMap quoteChar = List.replicate depth '\t' := by
            simp [List.flatMap_replicate, quoteChar]
          simp [quoteChar, deeper_cons, tabs]
        · rw [if_neg isBreak, List.flatMap_singleton, quoteChar]
          split <;> simp [deeper_cons, isBreak]
  simp [quoteChars, deeper_cons, inner]

/-- The escaped value begins with a line feed exactly if the value does. -/
theorem head?_quoted_eq_break {value : List Char} :
    (value.flatMap quoteChar).head? = some '\n' ↔ value.head? = some '\n' := by
  cases value with
  | nil => rfl
  | cons c value =>
      rw [List.flatMap_cons, quoteChar]
      split
      · rename_i escaped
        have notBreak : c ≠ '\n' := by
          rintro rfl
          exact absurd escaped (by decide)
        simp [notBreak]
      · rfl

/-- Dropping carriage returns acts on a quoted text as it acts on the value. -/
theorem dropReturns_quoteChars (value : List Char) :
    dropReturns (quoteChars value) = quoteChars (dropReturns value) := by
  have inner : dropReturns (value.flatMap quoteChar) = (dropReturns value).flatMap quoteChar := by
    induction value with
    | nil => rfl
    | cons c value ih =>
        rw [List.flatMap_cons, quoteChar]
        split
        · rename_i escaped
          have notReturn : c ≠ '\r' := by
            rintro rfl
            exact absurd escaped (by decide)
          have stays (text : List Char) : ¬(c = '\r' ∧ text.head? = some '\n') :=
            fun ends => notReturn ends.1
          rw [dropReturns_cons (stays value), List.flatMap_cons, quoteChar, if_pos escaped, ← ih,
            List.cons_append, List.singleton_append, dropReturns_cons (by simp),
            dropReturns_cons (stays _)]
          rfl
        · rename_i plain
          rw [List.singleton_append]
          by_cases ends : c = '\r' ∧ value.head? = some '\n'
          · rw [dropReturns, if_pos ⟨ends.1, head?_quoted_eq_break.mpr ends.2⟩, ih, dropReturns,
              if_pos ends]
          · rw [dropReturns_cons fun both => ends ⟨both.1, head?_quoted_eq_break.mp both.2⟩, ih,
              dropReturns_cons ends, List.flatMap_cons, quoteChar, if_neg plain,
              List.singleton_append]
  rw [quoteChars, dropReturns_cons (by simp), dropReturns_append (.inr (by simp)), inner]
  rfl

/-- A quoted text in a text that is cut into lines. -/
theorem quoteChars_infix_deeper {value text : List Char} (within : quoteChars value <:+: text)
    (depth : Nat) :
    quoteChars (deeper depth (dropReturns value)) <:+: deeper depth (chop (dropReturns text)) := by
  obtain ⟨before, after, rfl⟩ := within
  refine ⟨deeper depth (dropReturns before), deeper depth (chop (dropReturns after)), ?_⟩
  have last : (before ++ quoteChars value).getLast? = some '\'' := by
    rw [List.getLast?_append, getLast?_quoteChars]
    rfl
  have lastKept : (dropReturns before ++ quoteChars (dropReturns value)).getLast? = some '\'' := by
    rw [List.getLast?_append, getLast?_quoteChars]
    rfl
  rw [dropReturns_append (.inl (by simp [last])), dropReturns_append (.inr (by simp [quoteChars])),
    dropReturns_quoteChars, ← deeper_quoteChars, ← deeper_append, ← deeper_append]
  congr 1
  by_cases isNil : after = []
  · subst isNil
    have closed : chop (dropReturns before ++ quoteChars (dropReturns value)) =
        dropReturns before ++ quoteChars (dropReturns value) :=
      chop_of_ne (by rw [lastKept]; decide)
    rw [dropReturns, List.append_nil, closed]
    exact List.append_nil _
  · rw [chop_append (dropReturns_ne_nil isNil)]

/-! ## Laid out texts -/

/-- A text after some rounds of being cut into lines, with tabs after its line breaks. -/
def laidOut (depth rounds : Nat) (value : String) : String :=
  String.ofList (deeper depth (dropReturns^[rounds] value.toList))

theorem toList_laidOut (depth rounds : Nat) (value : String) :
    (laidOut depth rounds value).toList = deeper depth (dropReturns^[rounds] value.toList) :=
  String.toList_ofList

/-- A value that is laid out inside of a text is laid out again with the text. -/
theorem laidOut_laidOut (depth more rounds : Nat) (value : String) :
    deeper depth (dropReturns (laidOut more rounds value).toList) =
      (laidOut (more + depth) (rounds + 1) value).toList := by
  rw [toList_laidOut, toList_laidOut, dropReturns_deeper, deeper_deeper,
    Function.iterate_succ_apply', Nat.add_comm depth]

theorem dropReturns_of_unbroken {text : List Char} (unbroken : '\n' ∉ text) :
    dropReturns text = text :=
  dropReturns_eq_self_iff.mpr fun within => unbroken (within.subset (by simp))

theorem laidOut_of_unbroken {value : String} (unbroken : '\n' ∉ value.toList)
    (depth rounds : Nat) : laidOut depth rounds value = value := by
  rw [← String.toList_inj, toList_laidOut,
    Function.iterate_fixed (dropReturns_of_unbroken unbroken), deeper_of_unbroken unbroken]

/-- The layout neither adds nor removes line breaks. -/
theorem break_mem_laidOut {depth rounds : Nat} {value : String} :
    '\n' ∈ (laidOut depth rounds value).toList ↔ '\n' ∈ value.toList := by
  rw [toList_laidOut, break_mem_deeper]
  induction rounds with
  | zero => rfl
  | succ rounds ih => rw [Function.iterate_succ_apply', break_mem_dropReturns, ih]

theorem count_tab_laidOut (depth rounds : Nat) (value : String) :
    (laidOut depth rounds value).toList.count '\t' =
      value.toList.count '\t' + depth * (dropReturns^[rounds] value.toList).count '\n' := by
  have rounded : (dropReturns^[rounds] value.toList).count '\t' = value.toList.count '\t' := by
    induction rounds with
    | zero => rfl
    | succ rounds ih => rw [Function.iterate_succ_apply', count_tab_dropReturns, ih]
  rw [toList_laidOut, count_tab_deeper, rounded]

theorem iterate_dropReturns_sublist (rounds : Nat) (text : List Char) :
    (dropReturns^[rounds] text).Sublist text := by
  induction rounds with
  | zero => exact List.Sublist.refl text
  | succ rounds ih =>
      rw [Function.iterate_succ_apply']
      exact (dropReturns_sublist _).trans ih

/-- Laying out changes nothing without a line break, and with one only outside of all blocks and
arrays and without a carriage return before a line break. -/
theorem laidOut_eq_self_iff {depth rounds : Nat} {value : String} :
    laidOut depth (rounds + 1) value = value ↔
      '\n' ∉ value.toList ∨ depth = 0 ∧ ¬['\r', '\n'] <:+: value.toList := by
  constructor
  · intro same
    by_cases unbroken : '\n' ∉ value.toList
    · exact .inl unbroken
    · refine .inr ?_
      have isBroken : '\n' ∈ dropReturns^[rounds + 1] value.toList := by
        rw [← @break_mem_deeper depth, ← toList_laidOut, same]
        exact not_not.mp unbroken
      have tabs := count_tab_laidOut depth (rounds + 1) value
      have isZero : depth = 0 := by
        rw [same, Nat.left_eq_add, Nat.mul_eq_zero] at tabs
        exact tabs.resolve_right (List.count_pos_iff.mpr isBroken).ne'
      rw [← String.toList_inj, toList_laidOut, isZero, deeper_zero,
        Function.iterate_succ_apply] at same
      have shorter := iterate_dropReturns_sublist rounds (dropReturns value.toList)
      rw [same] at shorter
      exact ⟨isZero, dropReturns_eq_self_iff.mp ((dropReturns_sublist _).antisymm shorter)⟩
  · rintro (unbroken | ⟨rfl, apart⟩)
    · exact laidOut_of_unbroken unbroken _ _
    · rw [← String.toList_inj, toList_laidOut, deeper_zero,
        Function.iterate_fixed (dropReturns_eq_self_iff.mpr apart)]

/-! ## Literals in expressions -/

namespace Expr

/-- A text literal is in an expression, inside of a number of array literals. -/
inductive Holds (value : String) : Nat → Expr → Prop
  | here : Holds value 0 (.string value)
  | inArray {arrays : Nat} {items : List ArrayItem} {item : ArrayItem} {part : Expr}
      (itemMem : item ∈ items) (member : part ∈ item.parts) (holds : Holds value arrays part) :
      Holds value (arrays + 1) (.array items)
  | inPart {arrays : Nat} {part expr : Expr} (notArray : expr.isArray = false)
      (member : part ∈ expr.parts) (holds : Holds value arrays part) : Holds value arrays expr

/-- An item of an array literal. -/
theorem Holds.within_array {value : String} {arrays : Nat} {items : List ArrayItem}
    {item : ArrayItem} (itemMem : item ∈ items)
    (within : Within (quote (laidOut arrays arrays value)) (itemText item)) :
    Within (quote (laidOut (arrays + 1) (arrays + 1) value)) (Expr.array items).text := by
  have textMem : itemText item ∈ items.map itemText := List.mem_map_of_mem itemMem
  rw [Expr.text, itemTexts_eq_map, arrayText]
  · split
    · rename_i single
      simp only [Bool.and_eq_true, Bool.not_eq_true', List.any_eq_false] at single
      have unbroken : '\n' ∉ (itemText item).toList := by simpa using single.2 _ textMem
      have valueUnbroken : '\n' ∉ value.toList := fun isBreak =>
        unbroken (within.subset (toList_quote _ ▸ mem_quoteChars (break_mem_laidOut.mpr isBreak)))
      rw [laidOut_of_unbroken valueUnbroken] at within ⊢
      exact ((within.trans (.join _ textMem)).prepend _).append _
    · have nonempty : (itemText item).toList ≠ [] := by
        intro isNil
        rw [Within, isNil, toList_quote] at within
        exact absurd (List.infix_nil.mp within) (List.cons_ne_nil _ _)
      have inLines : Within (quote (laidOut (arrays + 1) (arrays + 1) value))
          (itemLines (itemText item)) := by
        rw [Within, toList_quote] at within
        rw [Within, toList_itemLines_eq nonempty, toList_quote, ← laidOut_laidOut]
        exact List.infix_cons (List.infix_append_of_infix_left (quoteChars_infix_deeper within 1))
      exact ((inLines.trans (.concat (List.mem_map_of_mem textMem))).prepend _).append _
  · intro isNil
    rw [isNil] at textMem
    cases textMem

/-- A literal in some arrays of an expression is printed with the layout of these arrays. -/
theorem Holds.within {value : String} {arrays : Nat} {expr : Expr}
    (holds : expr.Holds value arrays) :
    Within (quote (laidOut arrays arrays value)) expr.text := by
  induction holds with
  | here =>
      rw [Expr.text, laidOut, Function.iterate_zero_apply, deeper_zero, String.ofList_toList]
      exact .refl _
  | inArray itemMem member _ ih => exact within_array itemMem (ih.trans (within_itemText member))
  | inPart notArray member _ ih => exact ih.trans (within_of_mem_parts notArray member)

end Expr

/-! ## Reading literals -/

/-- Reads a single-quoted literal behind its opening quote.  Gives its value and what follows its
closing quote; there is nothing to give if it is not closed. -/
def literalBody : List Char → Option (List Char × List Char)
  | [] => none
  | '\'' :: rest => some ([], rest)
  | '\\' :: '\\' :: rest => (literalBody rest).map fun found => ('\\' :: found.1, found.2)
  | '\\' :: '\'' :: rest => (literalBody rest).map fun found => ('\'' :: found.1, found.2)
  | c :: rest => (literalBody rest).map fun found => (c :: found.1, found.2)

/-- Reads the single-quoted literal at the beginning of a text. -/
def literal? (text : String) : Option (String × String) :=
  match text.toList with
  | '\'' :: rest =>
      (literalBody rest).map fun found => (String.ofList found.1, String.ofList found.2)
  | _ => none

/-- A backslash before another character is one of the value. -/
example : literal? "'C:\\new \\\\\\'x'; echo '" = some ("C:\\new \\'x", "; echo '") := by decide

/-- The spelling of one character is read as that character, whatever follows. -/
theorem literalBody_quoteChar (c : Char) (rest : List Char) :
    literalBody (quoteChar c ++ rest) =
      (literalBody rest).map fun found => (c :: found.1, found.2) := by
  by_cases special : c = '\\' ∨ c = '\''
  · rcases special with rfl | rfl
    · rfl
    · rfl
  · obtain ⟨notSlash, notQuote⟩ := not_or.mp special
    have plain : quoteChar c = [c] := by simp [quoteChar, notSlash, notQuote]
    rw [plain, List.singleton_append, literalBody]
    · exact notQuote
    · exact fun _ isSlash => absurd isSlash notSlash
    · exact fun _ isSlash => absurd isSlash notSlash

theorem literalBody_quoted (value rest : List Char) :
    literalBody (value.flatMap quoteChar ++ '\'' :: rest) = some (value, rest) := by
  induction value with
  | nil => rfl
  | cons c value ih =>
      rw [List.flatMap_cons, List.append_assoc, literalBody_quoteChar, ih, Option.map_some]

theorem toList_quote_append (value following : String) :
    (quote value ++ following).toList =
      '\'' :: (value.toList.flatMap quoteChar ++ '\'' :: following.toList) := by
  rw [String.toList_append, toList_quote, quoteChars, List.cons_append, List.append_assoc,
    List.singleton_append]

/-- Reading a quoted text with any text behind it gives the quoted text, and leaves exactly the text
behind it. -/
theorem literal?_quote_append (value following : String) :
    literal? (quote value ++ following) = some (value, following) := by
  rw [literal?, toList_quote_append]
  change (literalBody (value.toList.flatMap quoteChar ++ '\'' :: following.toList)).map _ = _
  rw [literalBody_quoted, Option.map_some, String.ofList_toList, String.ofList_toList]

/-- Two quoted texts with something behind them are the same only part by part, so no quoted text is
the beginning of another one. -/
theorem quote_append_inj {first second after after' : String}
    (same : quote first ++ after = quote second ++ after') : first = second ∧ after = after' := by
  have chars := congrArg String.toList same
  rw [toList_quote_append, toList_quote_append, List.cons.injEq] at chars
  have read := literalBody_quoted first.toList after.toList
  rw [chars.2, literalBody_quoted, Option.some_inj, Prod.mk.injEq, String.toList_inj,
    String.toList_inj] at read
  exact ⟨read.1.symm, read.2.symm⟩

end Php

end RestPlugin
