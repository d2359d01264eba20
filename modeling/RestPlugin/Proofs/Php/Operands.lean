import RestPlugin.Proofs.Php.Tokens

/-!
# Operands read back

An expression is readable if reading its text, with anything after it that may follow it, comes to
the point where the expression has been read and a suffix may make it a part of a larger one.  Then
an operand is read as itself in its place, enclosed or not, because what follows does not bind it
more strongly than its place does.  So operators, members, elements and calls with readable parts
are readable.
-/

namespace RestPlugin.Php

open Reader

/-! ## Operands -/

/-- How strongly an expression holds against what follows it. -/
def Expr.grip (expr : Expr) : Nat :=
  if expr.isDereferenceable then Precedence.atom + 1 else expr.precedence

/-- What can be dereferenced binds as tightly as an atom. -/
theorem Expr.precedence_of_isDereferenceable {expr : Expr}
    (dereferenceable : expr.isDereferenceable = true) : expr.precedence = Precedence.atom := by
  cases expr <;> first | rfl | cases dereferenceable

theorem Expr.precedence_le_grip (expr : Expr) : expr.precedence ≤ expr.grip := by
  rw [grip]
  split
  next dereferenceable =>
    rw [precedence_of_isDereferenceable dereferenceable]
    exact Nat.le_succ _
  next => exact le_rfl

theorem Expr.strength_le_precedence {expr : Expr} {suffix : Suffix}
    (held : suffix.leftStrength ≤ expr.grip) : suffix.strength ≤ expr.precedence := by
  rw [grip] at held
  split at held
  next dereferenceable =>
    rw [precedence_of_isDereferenceable dereferenceable]
    exact suffix.strength_le_atom
  next => exact suffix.strength_le_leftStrength.trans held

/-- Whether reading the text of an expression comes to the point where the expression has been read,
at any depth and before any text that may follow the expression. -/
def Readable (expr : Expr) : Prop :=
  ∀ depth least rest, least ≤ expr.precedence → Follows expr.grip rest →
    result (expression least (atDepth depth expr.text ++ rest)) = result (climb least expr rest)

/-- Reading ends at an expression if no suffix after it is strong enough. -/
theorem climb_of_stops {least : Nat} {expr : Expr} {rest : List Char}
    (stops : ∀ suffix later, suffix? rest = some (suffix, later) → suffix.strength < least) :
    result (climb least expr rest) = some (expr, rest) := by
  rw [climb]
  cases found : suffix? rest with
  | none => rfl
  | some pair =>
      obtain ⟨suffix, later⟩ := pair
      simp only
      rw [if_pos (stops suffix later found), result_pure]

/-- Reading ends at an expression before what may follow an operand. -/
theorem climb_of_follows {strength least : Nat} {expr : Expr} {rest : List Char}
    (small : strength ≤ Precedence.ternary) (follows : Follows strength rest) :
    result (climb least expr rest) = some (expr, rest) := by
  refine climb_of_stops fun suffix later found => ?_
  have := follows.weaker suffix later found
  have := suffix.ternary_lt_leftStrength
  omega

section Operands

variable {expr : Expr} {depth least : Nat} {rest : List Char}

/-- An expression whose head is read is read as far as the suffixes after it go. -/
theorem read_of_head
    (headEq : result (head (atDepth depth expr.text ++ rest)) = some (expr, rest)) :
    result (expression least (atDepth depth expr.text ++ rest)) =
      result (climb least expr rest) := by
  rw [expression, result_bind, result_ask, Phrase.reading, headEq]
  exact result_ask _ _

/-- An expression in parentheses where these are needed is read back. -/
theorem read_encloseIf (readable : Readable expr) {condition : Bool}
    (bare : condition = false → least ≤ expr.precedence ∧ Follows expr.grip rest) :
    result (expression least (atDepth depth (encloseIf condition expr.text) ++ rest)) =
      result (climb least expr rest) := by
  cases condition with
  | false => exact readable depth least rest (bare rfl).1 (bare rfl).2
  | true =>
      have opened : atDepth depth (encloseIf true expr.text) ++ rest =
          '(' :: ' ' :: (atDepth depth expr.text ++ ([' ', ')'] ++ rest)) := by
        simp [encloseIf, enclose, atDepth, deeper_cons]
      have closed : Follows 0 ([' ', ')'] ++ rest) := follows_closer (by decide) rest
      have inner : result (expression 0 (atDepth depth expr.text ++ ([' ', ')'] ++ rest))) =
          some (expr, [' ', ')'] ++ rest) := by
        rw [readable depth 0 _ (Nat.zero_le _) (closed.mono (Nat.zero_le _))]
        exact climb_of_follows (by decide) closed
      rw [opened, expression, result_bind, result_ask, Phrase.reading, head]
      simp only [result_bind, result_ask, Phrase.reading, inner, Option.bind_some, result_liftM,
        after_append, result_pure]

/-- An operand is read back before what may follow it. -/
theorem read_operand (readable : Readable expr) {asked strength : Nat} (le : least ≤ asked)
    (follows : Follows strength rest)
    (holds : ∀ suffix : Suffix, suffix.leftStrength ≤ strength →
      suffix.leftStrength ≤ asked ∧ suffix.strength < least) :
    result (expression least (atDepth depth (operandText asked expr) ++ rest)) =
      some (expr, rest) := by
  rw [operandText, read_encloseIf readable]
  · exact climb_of_stops fun suffix later found => (holds suffix (follows.weaker _ _ found)).2
  · -- A bare operand binds as its place asks, so what follows the place may follow the operand.
    intro notEnclosed
    have strong : asked ≤ expr.precedence := by simpa using notEnclosed
    refine ⟨le.trans strong, follows.delimited, fun suffix later found => ?_⟩
    have held : suffix.leftStrength ≤ asked := (holds suffix (follows.weaker _ _ found)).1
    exact (held.trans strong).trans expr.precedence_le_grip

/-- An operand is read back before what may follow a weak construct. -/
theorem read_operand_of_le (readable : Readable expr) {asked strength : Nat} (le : least ≤ asked)
    (small : strength ≤ Precedence.ternary) (follows : Follows strength rest) :
    result (expression least (atDepth depth (operandText asked expr) ++ rest)) =
      some (expr, rest) := by
  refine read_operand readable le follows fun suffix held => ?_
  have := suffix.ternary_lt_leftStrength
  omega

/-- An expression with a suffix is read back if its base is, whether or not this has
parentheses. -/
theorem read_suffixed {base : Expr} (readable : Readable base) {condition : Bool} {suffix : Suffix}
    {tail : List Char} (strong : least ≤ suffix.strength)
    (held : condition = false → suffix.leftStrength ≤ base.grip)
    (plain : suffix = .plainKey → ∃ c later, tail = c :: later ∧ c ∉ gaps)
    (attached : result (attach base suffix tail) = some (expr, rest)) :
    result (expression least (atDepth depth (encloseIf condition base.text) ++
      (suffix.text.toList ++ tail))) = result (climb least expr rest) := by
  rw [read_encloseIf readable, climb, suffix?_text plain]
  · simp only
    rw [if_neg (not_lt.mpr strong), result_bind, result_ask, Phrase.reading, attached]
    exact result_ask _ _
  · intro notEnclosed
    exact ⟨strong.trans (Expr.strength_le_precedence (held notEnclosed)),
      (follows_suffix plain).mono (held notEnclosed)⟩

/-- An expression with an infix is read back if its left side is and the infix is attached. -/
theorem read_infix {base : Expr} (readable : Readable base) (suffix : Suffix) {tail : List Char}
    (strong : least ≤ suffix.strength) (notKey : suffix ≠ .plainKey)
    (attached : result (attach base suffix tail) = some (expr, rest)) :
    result (expression least (atDepth depth (operandText suffix.leftStrength base) ++
      (suffix.text.toList ++ tail))) = result (climb least expr rest) := by
  refine read_suffixed readable strong ?_ (fun isKey => absurd isKey notKey) attached
  intro bare
  have asked : suffix.leftStrength ≤ base.precedence := by simpa using bare
  exact asked.trans base.precedence_le_grip

/-- An expression with a postfix is read back if its base is and the postfix is attached. -/
theorem read_postfix {base : Expr} (readable : Readable base) (suffix : Suffix)
    {tail : List Char} (strong : least ≤ suffix.strength)
    (direct : suffix.leftStrength = Precedence.atom + 1)
    (plain : suffix = .plainKey → ∃ c later, tail = c :: later ∧ c ∉ gaps)
    (attached : result (attach base suffix tail) = some (expr, rest)) :
    result (expression least (atDepth depth (encloseIf (!base.isDereferenceable) base.text) ++
      (suffix.text.toList ++ tail))) = result (climb least expr rest) := by
  refine read_suffixed readable strong ?_ plain attached
  intro bare
  have dereferenceable : base.isDereferenceable = true := by simpa using bare
  rw [direct, Expr.grip, if_pos dereferenceable]

end Operands

/-! ## Operators -/

theorem BinaryOp.precedence_le_rightStrength (op : BinaryOp) :
    op.precedence ≤ op.rightStrength := by
  cases op <;> decide

/-- A binary operation can be read back if its sides can. -/
theorem readable_binary (op : BinaryOp) {left right : Expr} (leftReadable : Readable left)
    (rightReadable : Readable right) : Readable (.binary op left right) := by
  intro depth least rest strong follows
  have symbol : deeper depth op.symbol.toList = op.symbol.toList :=
    deeper_of_unbroken (by cases op <;> decide) depth
  have opened : atDepth depth (Expr.binary op left right).text ++ rest =
      atDepth depth (operandText op.leftStrength left) ++ ((Suffix.binary op).text.toList ++
        (atDepth depth (operandText op.rightStrength right) ++ rest)) := by
    simp [Expr.text, operandText, Suffix.text, atDepth, deeper_cons, symbol]
  rw [opened]
  refine read_infix leftReadable (.binary op) strong (by rintro ⟨⟩) ?_
  rw [attach, result_bind, result_ask, Phrase.reading, read_operand rightReadable le_rfl follows]
  · rfl
  · intro suffix held
    exact ⟨held.trans op.precedence_le_rightStrength, Suffix.strength_lt_rightStrength held⟩

/-- A test for a class can be read back if its operand can. -/
theorem readable_instanceOf {operand : Expr} {className : Name} (readable : Readable operand)
    (nonempty : className.parts ≠ [])
    (identifiers : ∀ part ∈ className.parts, isIdentifier part = true) :
    Readable (.instanceOf operand className) := by
  intro depth least rest strong follows
  have unbroken := deeper_name identifiers depth
  have opened : atDepth depth (Expr.instanceOf operand className).text ++ rest =
      atDepth depth (operandText (Precedence.instanceOf + 1) operand) ++
        (Suffix.instanceOf.text.toList ++ (className.text.toList ++ rest)) := by
    simp [Expr.text, operandText, Suffix.text, atDepth, deeper_cons, unbroken]
  have stops : ∀ c ∈ rest.head?, isNameChar c = false := follows.stops (by decide)
  rw [opened]
  refine read_infix readable .instanceOf strong (by rintro ⟨⟩) ?_
  rw [attach, nameOf_append nonempty identifiers stops, afterName_append identifiers stops,
    result_pure]

/-- A choice can be read back if its parts can. -/
theorem readable_ternary {condition no : Expr} {yes : Option Expr}
    (conditionReadable : Readable condition) (yesReadable : ∀ expr ∈ yes, Readable expr)
    (noReadable : Readable no) : Readable (.ternary condition yes no) := by
  intro depth least rest strong follows
  have noRead : result (expression (Precedence.ternary + 1)
      (atDepth depth (operandText (Precedence.ternary + 1) no) ++ rest)) = some (no, rest) :=
    read_operand_of_le noReadable le_rfl (le_refl Precedence.ternary) follows
  cases yes with
  | none =>
      have opened : atDepth depth (Expr.ternary condition none no).text ++ rest =
          atDepth depth (operandText (Precedence.ternary + 1) condition) ++
            (Suffix.short.text.toList ++
              (atDepth depth (operandText (Precedence.ternary + 1) no) ++ rest)) := by
        simp [Expr.text, operandText, Suffix.text, atDepth, deeper_cons]
      rw [opened]
      refine read_infix conditionReadable .short strong (by rintro ⟨⟩) ?_
      rw [attach, result_bind, result_ask, Phrase.reading, noRead]
      rfl
  | some yes =>
      have opened : atDepth depth (Expr.ternary condition (some yes) no).text ++ rest =
          atDepth depth (operandText (Precedence.ternary + 1) condition) ++
            (Suffix.choice.text.toList ++
              (atDepth depth (operandText (Precedence.ternary + 1) yes) ++ ([' ', ':', ' '] ++
                (atDepth depth (operandText (Precedence.ternary + 1) no) ++ rest)))) := by
        simp [Expr.text, operandText, Suffix.text, atDepth, deeper_cons]
      rw [opened]
      refine read_infix conditionReadable .choice strong (by rintro ⟨⟩) ?_
      rw [attach, result_bind, result_ask, Phrase.reading,
        read_operand_of_le (yesReadable yes rfl) le_rfl (by decide) (follows_closer (by decide) _)]
      simp only [result_bind, result_ask, Phrase.reading, Option.bind_some, result_liftM,
        after_append, noRead, result_pure]

/-- An assignment can be read back if its sides can. -/
theorem readable_assign {target value : Expr} (targetReadable : Readable target)
    (valueReadable : Readable value) (assignable : target.isAssignable = true) :
    Readable (.assign target value) := by
  intro depth least rest strong follows
  have opened : atDepth depth (Expr.assign target value).text ++ rest =
      atDepth depth (encloseIf (!target.isDereferenceable) target.text) ++
        (Suffix.assign.text.toList ++
          (atDepth depth (operandText Precedence.assign value) ++ rest)) := by
    have dereferenceable : target.isDereferenceable = true := by
      cases target <;> first | rfl | cases assignable
    simp [Expr.text, dereferenceable, encloseIf, operandText, Suffix.text, atDepth, deeper_cons]
  rw [opened]
  refine read_postfix targetReadable .assign strong rfl (by rintro ⟨⟩) ?_
  rw [attach, result_bind, result_ask, Phrase.reading, read_operand_of_le valueReadable le_rfl
    (show Precedence.assign ≤ Precedence.ternary by decide) follows]
  rfl

theorem readable_not {operand : Expr} (readable : Readable operand) : Readable (.not operand) := by
  intro depth least rest strong follows
  refine read_of_head ?_
  have opened : atDepth depth (Expr.not operand).text ++ rest =
      '!' :: ' ' :: (atDepth depth (operandText Precedence.not operand) ++ rest) := by
    simp [Expr.text, operandText, atDepth, deeper_cons]
  rw [opened, head, result_bind, result_ask, Phrase.reading, read_operand readable le_rfl follows]
  · rfl
  · exact fun suffix held => ⟨held, Suffix.strength_lt_of_leftStrength_le (by decide) held⟩

/-- A cast can be read back if its operand can. -/
theorem readable_cast (kind : CastKind) {operand : Expr} (readable : Readable operand) :
    Readable (.cast kind operand) := by
  intro depth least rest strong follows
  refine read_of_head ?_
  have unbroken : deeper depth kind.keyword.toList = kind.keyword.toList :=
    deeper_of_unbroken (by cases kind <;> decide) depth
  have opened : atDepth depth (Expr.cast kind operand).text ++ rest =
      '(' :: (kind.keyword.toList ++ ([')', ' '] ++
        (atDepth depth (operandText Precedence.cast operand) ++ rest))) := by
    simp [Expr.text, operandText, atDepth, deeper_cons, unbroken]
  have operandRead : result (expression Precedence.cast
      (atDepth depth (operandText Precedence.cast operand) ++ rest)) = some (operand, rest) :=
    read_operand readable le_rfl follows fun suffix held =>
      ⟨held, Suffix.strength_lt_of_leftStrength_le (by decide) held⟩
  have identifier : isIdentifier kind.keyword = true := by cases kind <;> decide
  have found : CastKind.all.find? (fun other => other.keyword == kind.keyword) = some kind := by
    cases kind <;> decide
  have stops : ∀ c ∈ ([')', ' '] ++ (atDepth depth (operandText Precedence.cast operand) ++
      rest)).head?, Text.isWord c = false := by
    rintro c ⟨⟩
    decide
  rw [opened, head, wordOf_append identifier stops, afterWord_append identifier stops, found]
  · simp only [result_bind, result_liftM, Option.bind_some, after_append, result_ask,
      Phrase.reading, operandRead, result_pure]
  · cases kind <;> simp [CastKind.keyword]

/-! ## Lists -/

/-- Whether a reader finds something in its text before a comma and before a closing mark. -/
def ReadsBefore {α : Type} (close : List Char) (one : Reads α) (text : α → String) (depth : Nat)
    (x : α) : Prop :=
  ∀ mark ∈ [[',', ' '], close], ∀ rest,
    result (one (atDepth depth (text x) ++ (mark ++ rest))) = some (x, mark ++ rest)

/-- A list with commas between its members is read back if each member is, before a comma and
before the end. -/
theorem read_join {α : Type} {close : List Char} {one : Reads α} {many : Reads (List α)}
    {text : α → String} {depth : Nat} {xs : List α}
    (step : ∀ input, result (many input) = result (listed close one many input))
    (apart : ∀ rest, after [',', ' '] (close ++ rest) = none) (nonempty : xs ≠ [])
    (each : ∀ x ∈ xs, ReadsBefore close one text depth x) (rest : List Char) :
    result (many (atDepth depth (Text.join ", " (xs.map text)) ++ (close ++ rest))) =
      some (xs, rest) := by
  cases xs with
  | nil => exact absurd rfl nonempty
  | cons x xs =>
      induction xs generalizing x with
      | nil =>
          have read := each x List.mem_cons_self close (by simp) rest
          rw [step, List.map_singleton, Text.join, listed, result_bind, read]
          simp [apart]
      | cons second xs ih =>
          obtain ⟨first, later⟩ := List.forall_mem_cons.mp each
          have opened : atDepth depth (Text.join ", " ((x :: second :: xs).map text)) ++
              (close ++ rest) = atDepth depth (text x) ++ ([',', ' '] ++
                (atDepth depth (Text.join ", " ((second :: xs).map text)) ++ (close ++ rest))) := by
            simp [Text.join, atDepth, deeper_cons]
          rw [step, opened, listed, result_bind, first _ (by simp)]
          simp only [Option.bind_some, after_append, result_bind]
          rw [ih second (by simp) later]
          rfl

/-- An operand is read back before a comma and before every closing sign. -/
theorem readsBefore_operand {expr : Expr} (readable : Readable expr) {close : List Char}
    (isCloser : close ∈ closers) (least depth : Nat) :
    ReadsBefore close (ask (.expression least)) (operandText least) depth expr := by
  intro mark isMark rest
  have markCloser : mark ∈ closers := by
    rcases List.mem_pair.mp isMark with rfl | rfl
    · decide
    · exact isCloser
  rw [result_ask]
  exact read_operand_of_le readable le_rfl (by decide) (follows_closer markCloser rest)

/-! ## Calls -/

theorem atDepth_callList_nil (depth : Nat) : atDepth depth (callList []) = ['(', ')'] := by
  simp [callList, atDepth, deeper_cons]

theorem atDepth_callList {texts : List String} (nonempty : texts ≠ []) (depth : Nat) :
    atDepth depth (callList texts) =
      ['(', ' '] ++ (atDepth depth (Text.join ", " texts) ++ [' ', ')']) := by
  cases texts with
  | nil => exact absurd rfl nonempty
  | cons text texts =>
      rw [callList]
      · simp [enclose, atDepth, deeper_cons]
      · simp

theorem exists_atDepth_callList (texts : List String) (depth : Nat) :
    ∃ later, atDepth depth (callList texts) = '(' :: later := by
  cases texts with
  | nil => exact ⟨_, atDepth_callList_nil depth⟩
  | cons text texts => exact ⟨_, atDepth_callList (by simp) depth⟩

theorem stops_callList {p : Char → Bool} (other : p '(' = false) (texts : List String) (depth : Nat)
    (rest : List Char) : ∀ c ∈ (atDepth depth (callList texts) ++ rest).head?, p c = false := by
  obtain ⟨later, opened⟩ := exists_atDepth_callList texts depth
  rw [opened]
  rintro c ⟨⟩
  exact other

/-- A list in parentheses is read if a reader tells an empty list from others and reads the others
step by step. -/
theorem read_callList {α : Type} {enclosed : Reads (List α)} {one : Reads α}
    {many : Reads (List α)} {text : α → String} {depth : Nat} {xs : List α}
    (empty : ∀ rest, result (enclosed ('(' :: ')' :: rest)) = some ([], rest))
    (filled : ∀ rest, result (enclosed (['(', ' '] ++ rest)) = result (many rest))
    (step : ∀ input, result (many input) = result (listed [' ', ')'] one many input))
    (each : ∀ x ∈ xs, ReadsBefore [' ', ')'] one text depth x) (rest : List Char) :
    result (enclosed (atDepth depth (callList (xs.map text)) ++ rest)) = some (xs, rest) := by
  cases xs with
  | nil =>
      rw [List.map_nil, atDepth_callList_nil]
      exact empty rest
  | cons x xs =>
      rw [atDepth_callList (by simp), List.append_assoc, List.append_assoc, filled]
      exact read_join step (fun _ => rfl) (List.cons_ne_nil x xs) each rest

section Calls

variable {args : List Expr} {depth : Nat} {rest : List Char}

/-- Arguments in parentheses are read back if each of them can be. -/
theorem arguments_append (readable : ∀ arg ∈ args, Readable arg) :
    result (arguments (atDepth depth (callList (argTexts args)) ++ rest)) = some (args, rest) := by
  rw [argTexts_eq_map]
  refine read_callList (fun rest => by rw [arguments, result_pure]) ?_
    (result_ask (.exprs (Precedence.assign + 1) [' ', ')']))
    (fun arg member => readsBefore_operand (readable arg member) (by decide) _ _) rest
  intro rest
  rw [arguments, after_append]
  · rfl
  · simp

/-- Arguments that may be missing are read back if they are there. -/
theorem arguments?_append (readable : ∀ arg ∈ args, Readable arg) :
    result (arguments? (atDepth depth (callList (argTexts args)) ++ rest)) =
      some (some args, rest) := by
  obtain ⟨later, opened⟩ := exists_atDepth_callList (argTexts args) depth
  have found : result (arguments (atDepth depth (callList (argTexts args)) ++ rest)) =
      some (args, rest) := arguments_append readable
  rw [opened, List.cons_append] at found ⊢
  rw [arguments?, result_bind, result_ask, Phrase.reading, found]
  rfl

/-- No arguments are read before what may follow an operand. -/
theorem arguments?_of_follows {strength : Nat} (follows : Follows strength rest) :
    result (arguments? rest) = some (none, rest) := by
  cases rest with
  | nil =>
      rw [arguments?]
      · rfl
      · simp
  | cons c rest =>
      have isDelimiter := follows.delimited c rfl
      rw [arguments?]
      · rfl
      · rintro later ⟨⟩
        exact absurd isDelimiter (by decide)

end Calls

/-! ## Postfix forms -/

theorem readable_property {base : Expr} {name : String} (readable : Readable base)
    (identifier : isIdentifier name = true) : Readable (.property base name) := by
  intro depth least rest strong follows
  have opened : atDepth depth (Expr.property base name).text ++ rest =
      atDepth depth (encloseIf (!base.isDereferenceable) base.text) ++
        (Suffix.member.text.toList ++ (name.toList ++ rest)) := by
    simp [Expr.text, Suffix.text, atDepth, deeper_cons, deeper_identifier identifier]
  have stops : ∀ c ∈ rest.head?, Text.isWord c = false := follows.stops (by decide)
  rw [opened]
  refine read_postfix readable .member strong rfl (by rintro ⟨⟩) ?_
  rw [attach, wordOf_append identifier stops, afterWord_append identifier stops, result_bind,
    result_ask, Phrase.reading, arguments?_of_follows follows]
  rfl

/-- A call of a method can be read back if its base and its arguments can. -/
theorem readable_methodCall {base : Expr} {name : String} {args : List Expr}
    (readable : Readable base) (identifier : isIdentifier name = true)
    (argsReadable : ∀ arg ∈ args, Readable arg) : Readable (.methodCall base name args) := by
  intro depth least rest strong follows
  have opened : atDepth depth (Expr.methodCall base name args).text ++ rest =
      atDepth depth (encloseIf (!base.isDereferenceable) base.text) ++
        (Suffix.member.text.toList ++
          (name.toList ++ (atDepth depth (callList (argTexts args)) ++ rest))) := by
    simp [Expr.text, Suffix.text, atDepth, deeper_cons, deeper_identifier identifier]
  have stops : ∀ c ∈ (atDepth depth (callList (argTexts args)) ++ rest).head?,
      Text.isWord c = false := stops_callList (by decide) _ _ _
  rw [opened]
  refine read_postfix readable .member strong rfl (by rintro ⟨⟩) ?_
  rw [attach, wordOf_append identifier stops, afterWord_append identifier stops, result_bind,
    result_ask, Phrase.reading, arguments?_append argsReadable]
  rfl

theorem readable_append {base : Expr} (readable : Readable base) :
    Readable (.element base none) := by
  intro depth least rest strong follows
  have opened : atDepth depth (Expr.element base none).text ++ rest =
      atDepth depth (encloseIf (!base.isDereferenceable) base.text) ++
        (Suffix.append.text.toList ++ rest) := by
    simp [Expr.text, Suffix.text, atDepth, deeper_cons]
  rw [opened]
  refine read_postfix readable .append strong rfl (by rintro ⟨⟩) ?_
  rw [attach, result_pure]

/-- An element of an array can be read back if its base and its key can. -/
theorem readable_element {base key : Expr} (readable : Readable base) (keyReadable : Readable key)
    (keyFramed : Framed key.text) : Readable (.element base (some key)) := by
  intro depth least rest strong follows
  cases plain : key.isPlainKey with
  | false =>
      have opened : atDepth depth (Expr.element base (some key)).text ++ rest =
          atDepth depth (encloseIf (!base.isDereferenceable) base.text) ++
            (Suffix.key.text.toList ++
              (atDepth depth (operandText 0 key) ++ ([' ', ']'] ++ rest))) := by
        simp [Expr.text, Suffix.text, atDepth, deeper_cons, plain]
      rw [opened]
      refine read_postfix readable .key strong rfl (by rintro ⟨⟩) ?_
      rw [attach, result_bind, result_ask, Phrase.reading,
        read_operand_of_le keyReadable le_rfl (by decide) (follows_closer (by decide) _)]
      simp only [Option.bind_some, result_bind, result_liftM, after_append, result_pure]
  | true =>
      have opened : atDepth depth (Expr.element base (some key)).text ++ rest =
          atDepth depth (encloseIf (!base.isDereferenceable) base.text) ++
            (Suffix.plainKey.text.toList ++
              (atDepth depth (operandText 0 key) ++ ([']'] ++ rest))) := by
        simp [Expr.text, Suffix.text, atDepth, deeper_cons, plain]
      rw [opened]
      refine read_postfix readable .plainKey strong rfl (fun _ => ?_) ?_
      · obtain ⟨c, later, opened, visible⟩ := exists_start_atDepth depth keyFramed
        exact ⟨c, _, by rw [operandText_zero, opened]; rfl, visible⟩
      · rw [attach, result_bind, result_ask, Phrase.reading,
          read_operand_of_le keyReadable le_rfl (by decide) (follows_closer (by decide) _)]
        simp only [Option.bind_some, result_bind, result_liftM, after_append, result_pure]

end RestPlugin.Php
