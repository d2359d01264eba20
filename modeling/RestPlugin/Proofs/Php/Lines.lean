import RestPlugin.Code.Fragment
import RestPlugin.Text.Lines

/-!
# Lines at a depth

A text that is cut into lines and written out again, each line after some tabs, comes back with
these tabs after every line break.  It loses the line break at its end, and before every other one
the carriage return that counts as part of it.
-/

namespace RestPlugin.Php

/-! ## Tabs after line breaks -/

/-- A text with tabs after each of its line breaks. -/
def deeper (depth : Nat) (text : List Char) : List Char :=
  text.flatMap fun c => if c = '\n' then '\n' :: List.replicate depth '\t' else [c]

@[simp]
theorem deeper_nil (depth : Nat) : deeper depth [] = [] := rfl

theorem deeper_cons (depth : Nat) (c : Char) (text : List Char) :
    deeper depth (c :: text) =
      (if c = '\n' then '\n' :: List.replicate depth '\t' else [c]) ++ deeper depth text := rfl

@[simp]
theorem deeper_append (depth : Nat) (text more : List Char) :
    deeper depth (text ++ more) = deeper depth text ++ deeper depth more :=
  List.flatMap_append

/-- A text without line breaks is not changed by indentation. -/
theorem deeper_of_unbroken {text : List Char} (unbroken : '\n' ∉ text) (depth : Nat) :
    deeper depth text = text := by
  induction text with
  | nil => rfl
  | cons c text ih =>
      rw [List.mem_cons, not_or] at unbroken
      rw [deeper_cons, if_neg (Ne.symm unbroken.1), ih unbroken.2, List.singleton_append]

theorem deeper_zero (text : List Char) : deeper 0 text = text := by
  induction text with
  | nil => rfl
  | cons c text ih =>
      rw [deeper_cons, ih]
      by_cases isBreak : c = '\n' <;> simp [isBreak]

/-- Indentation neither adds nor removes line breaks. -/
theorem break_mem_deeper {depth : Nat} {text : List Char} :
    '\n' ∈ deeper depth text ↔ '\n' ∈ text := by
  induction text with
  | nil => rfl
  | cons c text ih =>
      rw [deeper_cons, List.mem_append, ih, List.mem_cons]
      by_cases isBreak : c = '\n'
      · simp [isBreak]
      · simp [isBreak, Ne.symm isBreak]

/-- Indentation adds its depth in tabs for every line break. -/
theorem count_tab_deeper (depth : Nat) (text : List Char) :
    (deeper depth text).count '\t' = text.count '\t' + depth * text.count '\n' := by
  induction text with
  | nil => rfl
  | cons c text ih =>
      rw [deeper_cons, List.count_append, ih, List.count_cons, List.count_cons]
      by_cases isBreak : c = '\n'
      · subst isBreak
        simp [List.count_replicate_self, Nat.mul_add]
        omega
      · by_cases isTab : c = '\t'
        · simp [isTab]
          omega
        · simp [isBreak, isTab]

/-- Indentations add up. -/
theorem deeper_deeper (depth more : Nat) (text : List Char) :
    deeper depth (deeper more text) = deeper (depth + more) text := by
  induction text with
  | nil => rfl
  | cons c text ih =>
      rw [deeper_cons, deeper_append, ih, deeper_cons]
      by_cases isBreak : c = '\n'
      · have tabs : '\n' ∉ List.replicate more '\t' := by simp
        rw [if_pos isBreak, if_pos isBreak, deeper_cons, if_pos rfl, deeper_of_unbroken tabs,
          List.cons_append, List.replicate_append_replicate]
      · rw [if_neg isBreak, if_neg isBreak, deeper_cons, if_neg isBreak]
        rfl

/-! ## Carriage returns and the last line break -/

/-- A text without the carriage returns directly before its line breaks; of several in a row the
last one goes. -/
def dropReturns : List Char → List Char
  | [] => []
  | c :: text =>
      if c = '\r' ∧ text.head? = some '\n' then dropReturns text else c :: dropReturns text

theorem dropReturns_return (text : List Char) :
    dropReturns ('\r' :: '\n' :: text) = dropReturns ('\n' :: text) := if_pos ⟨rfl, rfl⟩

theorem dropReturns_cons {c : Char} {text : List Char}
    (stays : ¬(c = '\r' ∧ text.head? = some '\n')) :
    dropReturns (c :: text) = c :: dropReturns text := if_neg stays

/-- A text without carriage returns keeps all of its characters. -/
theorem dropReturns_of_no_returns {text : List Char} (returns : '\r' ∉ text) :
    dropReturns text = text := by
  induction text with
  | nil => rfl
  | cons c text ih =>
      rw [List.mem_cons, not_or] at returns
      rw [dropReturns_cons fun ends => returns.1 ends.1.symm, ih returns.2]

theorem dropReturns_ne_nil {text : List Char} (nonempty : text ≠ []) : dropReturns text ≠ [] := by
  induction text with
  | nil => exact absurd rfl nonempty
  | cons c text ih =>
      rw [dropReturns]
      split
      · rename_i ends
        exact ih fun isNil => by simp [isNil] at ends
      · exact List.cons_ne_nil _ _

/-- The carriage returns of two texts are dropped separately, unless the cut falls between a
carriage return and its line feed. -/
theorem dropReturns_append {text more : List Char}
    (apart : text.getLast? ≠ some '\r' ∨ more.head? ≠ some '\n') :
    dropReturns (text ++ more) = dropReturns text ++ dropReturns more := by
  induction text with
  | nil => rfl
  | cons c text ih =>
      cases text with
      | nil =>
          have stays : ¬(c = '\r' ∧ more.head? = some '\n') := by
            rcases apart with notReturn | notBreak
            · exact fun ends => notReturn (congrArg some ends.1)
            · exact fun ends => notBreak ends.2
          rw [List.singleton_append, dropReturns_cons stays, dropReturns_cons (by simp)]
          rfl
      | cons d text =>
          rw [List.getLast?_cons_cons] at apart
          rw [List.cons_append, dropReturns, dropReturns, ih apart]
          by_cases ends : c = '\r' ∧ d = '\n' <;> simp [ends]

/-- No line break is dropped with the carriage returns. -/
theorem break_mem_dropReturns {text : List Char} : '\n' ∈ dropReturns text ↔ '\n' ∈ text := by
  induction text with
  | nil => rfl
  | cons c text ih =>
      rw [dropReturns]
      split
      · rename_i ends
        simp [ih, ends.1]
      · simp [ih]

/-- No tab is dropped with the carriage returns. -/
theorem count_tab_dropReturns (text : List Char) :
    (dropReturns text).count '\t' = text.count '\t' := by
  induction text with
  | nil => rfl
  | cons c text ih =>
      rw [dropReturns]
      split
      · rename_i ends
        rw [ih, List.count_cons_of_ne (by simp [ends.1])]
      · rw [List.count_cons, List.count_cons, ih]

theorem dropReturns_sublist (text : List Char) : (dropReturns text).Sublist text := by
  induction text with
  | nil => exact .slnil
  | cons c text ih =>
      rw [dropReturns]
      split
      · exact ih.cons c
      · exact ih.cons_cons c

/-- A text stays as it is exactly if no carriage return in it stands before a line feed. -/
theorem dropReturns_eq_self_iff {text : List Char} :
    dropReturns text = text ↔ ¬['\r', '\n'] <:+: text := by
  induction text with
  | nil => simp [dropReturns]
  | cons c text ih =>
      have opens : ['\n'] <+: text ↔ text.head? = some '\n' := by
        cases text with
        | nil => simp
        | cons d text => simp [List.cons_prefix_cons, eq_comm]
      rw [List.infix_cons_iff, not_or, List.cons_prefix_cons, opens]
      by_cases ends : c = '\r' ∧ text.head? = some '\n'
      · obtain ⟨rfl, headEq⟩ := ends
        have longer : dropReturns text ≠ '\r' :: text := fun same =>
          absurd (same ▸ (dropReturns_sublist text).length_le) (by simp)
        rw [dropReturns, if_pos ⟨rfl, headEq⟩]
        simp [longer, headEq]
      · rw [dropReturns_cons ends, List.cons_inj_right, ih]
        simp only [eq_comm (a := '\r'), ends, not_false_eq_true, true_and]

theorem head?_deeper (depth : Nat) (text : List Char) : (deeper depth text).head? = text.head? := by
  cases text with
  | nil => rfl
  | cons c text =>
      rw [deeper_cons]
      by_cases isBreak : c = '\n' <;> simp [isBreak]

/-- Indenting a text and dropping its carriage returns commute. -/
theorem dropReturns_deeper (depth : Nat) (text : List Char) :
    dropReturns (deeper depth text) = deeper depth (dropReturns text) := by
  induction text with
  | nil => rfl
  | cons c text ih =>
      rw [deeper_cons]
      by_cases isBreak : c = '\n'
      · subst isBreak
        have tabs : '\r' ∉ '\n' :: List.replicate depth '\t' := by simp
        have apart : ('\n' :: List.replicate depth '\t').getLast? ≠ some '\r' := fun isReturn =>
          tabs (List.mem_of_getLast? isReturn)
        rw [if_pos rfl, dropReturns_append (.inl apart), dropReturns_of_no_returns tabs, ih,
          dropReturns_cons (by simp), deeper_cons, if_pos rfl]
      · rw [if_neg isBreak, List.singleton_append, dropReturns, dropReturns, head?_deeper, ih]
        split
        · rfl
        · rw [deeper_cons, if_neg isBreak]
          rfl

/-- A text without a line break at its end. -/
def chop (text : List Char) : List Char :=
  if text.getLast? = some '\n' then text.dropLast else text

theorem chop_of_ne {text : List Char} (last : text.getLast? ≠ some '\n') : chop text = text :=
  if_neg last

theorem chop_cons {c : Char} {text : List Char} (nonempty : text ≠ []) :
    chop (c :: text) = c :: chop text := by
  obtain ⟨d, text, rfl⟩ := List.exists_cons_of_ne_nil nonempty
  rw [chop, chop, List.getLast?_cons_cons, apply_ite (List.cons c)]
  rfl

theorem chop_append {text more : List Char} (nonempty : more ≠ []) :
    chop (text ++ more) = text ++ chop more := by
  induction text with
  | nil => rfl
  | cons c text ih =>
      rw [List.cons_append, chop_cons (List.append_ne_nil_of_right_ne_nil _ nonempty), ih]
      rfl

/-! ## Lines -/

/-- The lines of a text, as characters. -/
def breakLines (text : List Char) : List (List Char) :=
  (Text.lineChunks text).map Text.stripBreak

/-- The lines of a text are those of its characters. -/
theorem breakLines_eq (text : String) :
    breakLines text.toList = (Text.lines text).map String.toList := by
  simp [breakLines, Text.lines]

theorem breakLines_ne_nil {text : List Char} (nonempty : text ≠ []) : breakLines text ≠ [] := by
  cases text with
  | nil => exact absurd rfl nonempty
  | cons c text =>
      rw [breakLines, Text.lineChunks]
      split
      · simp
      · split <;> simp

theorem breakLines_break (text : List Char) :
    breakLines ('\n' :: text) = [] :: breakLines text := rfl

theorem breakLines_return (text : List Char) :
    breakLines ('\r' :: '\n' :: text) = breakLines ('\n' :: text) := rfl

theorem head?_of_lineChunks {text chunk : List Char} {chunks : List (List Char)}
    (chunksEq : Text.lineChunks text = chunk :: chunks) : chunk.head? = text.head? := by
  cases text with
  | nil => cases chunksEq
  | cons c text =>
      rw [Text.lineChunks] at chunksEq
      split at chunksEq
      · cases chunksEq
        rfl
      · split at chunksEq <;> cases chunksEq <;> rfl

theorem stripBreak_cons {c : Char} {chunk : List Char} (notBreak : c ≠ '\n')
    (stays : ¬(c = '\r' ∧ chunk.head? = some '\n')) :
    Text.stripBreak (c :: chunk) = c :: Text.stripBreak chunk := by
  obtain ⟨back, rfl⟩ : ∃ back : List Char, chunk = back.reverse :=
    ⟨_, (List.reverse_reverse chunk).symm⟩
  simp only [Text.stripBreak, List.reverse_cons, List.reverse_reverse]
  rcases back with _ | ⟨x, _ | ⟨y, back⟩⟩
  · simp [notBreak]
  · by_cases xBreak : x = '\n'
    · simp_all
    · simp [xBreak]
  · by_cases xBreak : x = '\n' <;> by_cases yReturn : y = '\r' <;> simp [xBreak, yReturn]

/-- A character that neither is nor belongs to a line break stands at the beginning of the first
line. -/
theorem breakLines_cons {c : Char} {text line : List Char} {later : List (List Char)}
    (notBreak : c ≠ '\n') (stays : ¬(c = '\r' ∧ text.head? = some '\n'))
    (linesEq : breakLines text = line :: later) :
    breakLines (c :: text) = (c :: line) :: later := by
  obtain ⟨chunk, chunks, chunksEq, rfl, rfl⟩ := List.map_eq_cons_iff.mp linesEq
  rw [← head?_of_lineChunks chunksEq] at stays
  rw [breakLines, Text.lineChunks, if_neg (by simpa using notBreak), chunksEq, List.map_cons,
    stripBreak_cons notBreak stays]

/-- Lines at a depth, each with its line break. -/
def spread (depth : Nat) : List (List Char) → List Char
  | [] => []
  | line :: later => List.replicate depth '\t' ++ (line ++ '\n' :: spread depth later)

/-- The lines of a text at a depth are the text with tabs after its line breaks, of which it loses
the carriage returns and the last one. -/
theorem spread_breakLines (depth : Nat) {text : List Char} (nonempty : text ≠ []) :
    spread depth (breakLines text) =
      List.replicate depth '\t' ++ (deeper depth (chop (dropReturns text)) ++ ['\n']) := by
  induction text with
  | nil => exact absurd rfl nonempty
  | cons c text ih =>
      by_cases isNil : text = []
      · subst isNil
        by_cases isBreak : c = '\n'
        · subst isBreak
          rfl
        · simp [spread, breakLines, Text.lineChunks, Text.stripBreak, dropReturns, chop, isBreak,
            deeper_cons]
      specialize ih isNil
      have more := dropReturns_ne_nil isNil
      by_cases isBreak : c = '\n'
      · subst isBreak
        rw [breakLines_break, spread, ih, dropReturns_cons (by simp), chop_cons more,
          deeper_cons, if_pos rfl]
        simp
      by_cases ends : c = '\r' ∧ text.head? = some '\n'
      · obtain ⟨rfl, headEq⟩ := ends
        obtain ⟨later, rfl⟩ := List.head?_eq_some_iff.mp headEq
        rw [breakLines_return, dropReturns_return, ih]
      · obtain ⟨line, later, linesEq⟩ := List.exists_cons_of_ne_nil (breakLines_ne_nil isNil)
        rw [linesEq, spread] at ih
        rw [breakLines_cons isBreak ends linesEq, spread, List.cons_append,
          List.append_cancel_left ih, dropReturns_cons ends, chop_cons more, deeper_cons,
          if_neg isBreak]
        rfl

end RestPlugin.Php
