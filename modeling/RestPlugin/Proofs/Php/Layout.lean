import RestPlugin.Php.Printer
import RestPlugin.Proofs.Path
import RestPlugin.Proofs.Php.Lines

/-!
# Layout of expressions

The lists inside an expression are printed item by item.  An array on several lines puts each item
one level deeper, which changes nothing but the number of tabs after the line breaks of the item, so
the text of an expression at any depth is its text with that many tabs after every line break.
-/

namespace RestPlugin

namespace Text

/-- A character of joined texts comes from the separator or from a text. -/
theorem mem_join {c : Char} {separator : String} {texts : List String}
    (member : c ∈ (join separator texts).toList) :
    c ∈ separator.toList ∨ ∃ text ∈ texts, c ∈ text.toList := by
  induction texts with
  | nil => simp [join] at member
  | cons text texts ih =>
      cases texts with
      | nil => exact Or.inr ⟨text, List.mem_cons_self, member⟩
      | cons second texts =>
          rw [join_cons_of_ne_nil _ _ (List.cons_ne_nil second texts), String.toList_append,
            String.toList_append, List.mem_append, List.mem_append] at member
          rcases member with (here | between) | later
          · exact Or.inr ⟨text, List.mem_cons_self, here⟩
          · exact Or.inl between
          · rcases ih later with between | ⟨other, otherMem, inOther⟩
            · exact Or.inl between
            · exact Or.inr ⟨other, List.mem_cons_of_mem _ otherMem, inOther⟩

theorem not_mem_join {c : Char} {separator : String} {texts : List String}
    (between : c ∉ separator.toList) (each : ∀ text ∈ texts, c ∉ text.toList) :
    c ∉ (join separator texts).toList := by
  intro member
  rcases mem_join member with inSeparator | ⟨text, textMem, inText⟩
  · exact between inSeparator
  · exact each text textMem inText

end Text

namespace Php

/-! ## Texts of lists -/

/-- The text of an operand in a place that asks for a binding strength. -/
def operandText (least : Nat) (expr : Expr) : String :=
  encloseIf (expr.precedence < least) expr.text

/-- The text of an array item. -/
def itemText : ArrayItem → String
  | .mk none value => operandText (Precedence.assign + 1) value
  | .mk (some key) value => key.text ++ " => " ++ operandText (Precedence.assign + 1) value

/-- The text of a parameter. -/
def paramText : Param → String
  | .mk name type none => typeText type ++ "$" ++ name
  | .mk name type (some value) => typeText type ++ "$" ++ name ++ " = " ++ value.text

/-- The text of a match arm. -/
def armText : MatchArm → String
  | .mk [] body => "default => " ++ body.text
  | .mk (condition :: conditions) body =>
      Text.join ", " ((condition :: conditions).map Expr.text) ++ " => " ++ body.text

@[simp]
theorem operandText_zero (expr : Expr) : operandText 0 expr = expr.text := rfl

theorem argTexts_eq_map (args : List Expr) :
    argTexts args = args.map (operandText (Precedence.assign + 1)) := by
  induction args with
  | nil => rfl
  | cons arg args ih => rw [argTexts, ih, List.map_cons, operandText]

theorem exprTexts_eq_map (exprs : List Expr) : exprTexts exprs = exprs.map Expr.text := by
  induction exprs with
  | nil => rfl
  | cons expr exprs ih => rw [exprTexts, ih, List.map_cons]

theorem itemTexts_eq_map (items : List ArrayItem) : itemTexts items = items.map itemText := by
  induction items with
  | nil => rfl
  | cons item items ih =>
      rcases item with ⟨_ | key, value⟩ <;> rw [itemTexts, ih, List.map_cons] <;> rfl

theorem paramTexts_eq_map (params : List Param) : paramTexts params = params.map paramText := by
  induction params with
  | nil => rfl
  | cons param params ih =>
      rcases param with ⟨name, type, _ | value⟩ <;> rw [paramTexts, ih, List.map_cons] <;> rfl

theorem armTexts_eq_map (arms : List MatchArm) : armTexts arms = arms.map armText := by
  induction arms with
  | nil => rfl
  | cons arm arms ih =>
      rcases arm with ⟨_ | ⟨condition, conditions⟩, body⟩ <;>
        rw [armTexts, ih, List.map_cons]
      · rfl
      · rw [exprTexts_eq_map]
        rfl

/-! ## Line breaks -/

/-- Whether a text ends in something else than a line break and has no carriage return. -/
def Finished (text : List Char) : Prop :=
  text.getLast?.any (· != '\n') = true ∧ '\r' ∉ text

instance : DecidablePred Finished := fun text =>
  inferInstanceAs (Decidable (text.getLast?.any (· != '\n') = true ∧ '\r' ∉ text))

theorem Finished.append {text more : List Char} (returns : '\r' ∉ text) (finished : Finished more) :
    Finished (text ++ more) := by
  obtain ⟨last, moreReturns⟩ := finished
  constructor
  · cases lastEq : more.getLast? with
    | none => simp [lastEq] at last
    | some c =>
        rw [lastEq] at last
        rw [List.getLast?_append, lastEq]
        exact last
  · simp [returns, moreReturns]

/-- Lines after a tab each. -/
theorem toList_join_tabbed {lines : List String} (nonempty : lines ≠ []) :
    (Text.join "\n" (lines.map ("\t" ++ ·))).toList ++ ['\n'] =
      spread 1 (lines.map String.toList) := by
  induction lines with
  | nil => exact absurd rfl nonempty
  | cons line lines ih =>
      by_cases isNil : lines = []
      · subst isNil
        simp [Text.join, spread]
      · rw [List.map_cons, Text.join_cons_of_ne_nil _ _ (by simpa using isNil), List.map_cons,
          spread, ← ih isNil]
        simp

/-- An array item on its own lines. -/
theorem toList_itemLines_eq {item : String} (nonempty : item.toList ≠ []) :
    (itemLines item).toList =
      '\t' :: deeper 1 (chop (dropReturns item.toList)) ++ [',', '\n'] := by
  have someLines : Text.lines item ≠ [] := by
    simpa [breakLines_eq] using breakLines_ne_nil nonempty
  have tabbed := toList_join_tabbed someLines
  rw [← breakLines_eq, spread_breakLines 1 nonempty, ← List.append_assoc] at tabbed
  rw [itemLines, String.toList_append, List.append_cancel_right tabbed]
  rfl

/-- The line of a finished item is the item after a tab, with a comma. -/
theorem toList_itemLines {item : String} (finished : Finished item.toList) :
    (itemLines item).toList = '\t' :: deeper 1 item.toList ++ [',', '\n'] := by
  obtain ⟨last, returns⟩ := finished
  have nonempty : item.toList ≠ [] := fun isNil => by simp [isNil] at last
  have closed : item.toList.getLast? ≠ some '\n' := fun isBreak => by simp [isBreak] at last
  rw [toList_itemLines_eq nonempty, dropReturns_of_no_returns returns, chop_of_ne closed]

/-! ## Texts at a depth -/

/-- The characters of a text inside of arrays on several lines. -/
def atDepth (depth : Nat) (text : String) : List Char := deeper depth text.toList

@[simp]
theorem atDepth_append (depth : Nat) (text more : String) :
    atDepth depth (text ++ more) = atDepth depth text ++ atDepth depth more := by
  simp [atDepth]

theorem atDepth_of_unbroken (depth : Nat) {text : String} (unbroken : '\n' ∉ text.toList) :
    atDepth depth text = text.toList :=
  deeper_of_unbroken unbroken depth

theorem atDepth_zero (text : String) : atDepth 0 text = text.toList := deeper_zero _

theorem atDepth_itemLines (depth : Nat) {item : String} (finished : Finished item.toList) :
    atDepth depth (itemLines item) =
      '\t' :: (atDepth (depth + 1) item ++ ',' :: '\n' :: List.replicate depth '\t') := by
  rw [atDepth, toList_itemLines finished, List.cons_append, deeper_cons, deeper_append,
    deeper_deeper]
  simp [deeper_cons, atDepth]

end Php

end RestPlugin
