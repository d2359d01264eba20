import RestPlugin.Proofs.Php.Chains
import RestPlugin.Proofs.Php.Everywhere
import RestPlugin.Proofs.Php.Operands

/-!
# Comparisons in comparisons

The printer knows two kinds of grouping, to the left and to the right, and comparisons have neither.
They are printed as if they grouped to the left: a comparison on the right of one of its kind is
enclosed, but on the left it is not.  So the text has a comparison chain exactly if somewhere in the
tree a comparison has another one of its kind for its left operand.
-/

namespace RestPlugin.Php

open Chains Text

/-! ## Properties of some expression -/

namespace Expr

/-- A property of an expression or of one below it. -/
inductive Somewhere (p : Expr → Prop) : Expr → Prop
  | here {expr : Expr} (holds : p expr) : Somewhere p expr
  | inPart {part expr : Expr} (member : part ∈ expr.parts) (found : Somewhere p part) :
      Somewhere p expr

/-- A property holds somewhere in an expression exactly if it holds of it or
somewhere in a part. -/
theorem somewhere_iff {p : Expr → Prop} {expr : Expr} :
    expr.Somewhere p ↔ p expr ∨ ∃ part ∈ expr.parts, part.Somewhere p := by
  constructor
  · rintro (holds | ⟨member, found⟩)
    · exact .inl holds
    · exact .inr ⟨_, member, found⟩
  · rintro (holds | ⟨part, member, found⟩)
    · exact .here holds
    · exact .inPart member found

end Expr

/-! ## Comparisons -/

/-- The comparison that an operator makes. -/
def BinaryOp.comparison? : BinaryOp → Option Comparison
  | .identical | .notIdentical | .equal | .notEqual => some .equality
  | .smaller | .smallerOrEqual | .greater | .greaterOrEqual => some .ordering
  | _ => none

/-- An operator binds as strongly as a comparison exactly if it is that comparison or
one like it. -/
theorem BinaryOp.precedence_eq_strength_iff {op : BinaryOp} {comparison : Comparison} :
    op.precedence = comparison.strength ↔ op.comparison? = some comparison := by
  cases op <;> cases comparison <;> decide

theorem BinaryOp.ofSign?_symbol (op : BinaryOp) :
    Comparison.ofSign? op.symbol.toList = op.comparison? := by
  cases op <;> decide

theorem BinaryOp.isUnmarked_symbol (op : BinaryOp) : isUnmarked op.symbol.toList = true := by
  cases op <;> decide

/-- Whether a text is written like a type: in characters of names and the signs that make types
optional or join them. -/
structure IsTypeText (text : String) : Prop where
  chars : ∀ c ∈ text.toList, isNameChar c = true ∨ c ∈ ['?', '|', '&']
  named : text.toList.any isWord = true

namespace Expr

/-- The comparison that an expression makes. -/
def comparison? : Expr → Option Comparison
  | .binary op _ _ => op.comparison?
  | _ => none

/-- Whether an expression is a comparison whose left operand is one of the same kind. -/
def ChainsLeft : Expr → Prop
  | .binary op left _ => ∃ comparison, op.comparison? = some comparison ∧
      left.comparison? = some comparison
  | _ => False

/-- Whether a comparison follows another one of its kind somewhere in an expression. -/
abbrev Chained (expr : Expr) : Prop := expr.Somewhere ChainsLeft

/-- An expression binds as strongly as a comparison exactly if it is one of that kind. -/
theorem precedence_eq_strength_iff {expr : Expr} {comparison : Comparison} :
    expr.precedence = comparison.strength ↔ expr.comparison? = some comparison := by
  cases expr with
  | binary op left right => exact op.precedence_eq_strength_iff
  | _ =>
      cases comparison <;>
        simp [precedence, Expr.comparison?, Comparison.strength, BinaryOp.precedence,
          Precedence.atom, Precedence.assign, Precedence.not, Precedence.instanceOf,
          Precedence.cast, Precedence.ternary]

/-- Whether the types of parameters are written like types. -/
def IsTyped : Expr → Prop
  | .arrow _ params _ => ∀ param ∈ params, ∀ type ∈ param.type?, IsTypeText type
  | _ => True

/-- A tree of the checked constructors, with types that are written like types. -/
abbrev Checked (expr : Expr) : Prop := expr.Everywhere fun node => node.IsChecked ∧ node.IsTyped

/-- An expression that does not chain to its left is chained exactly if a part of it is. -/
theorem chained_iff {expr : Expr} (other : ¬expr.ChainsLeft) :
    expr.Chained ↔ ∃ part ∈ expr.parts, part.Chained := by
  rw [Chained, somewhere_iff, or_iff_right other]

end Expr

/-! ## What expressions leave open -/

/-- Whether nothing is open that binds as strongly as asked. -/
def Admits (least : Nat) (before : Open) : Prop :=
  ∀ comparison, least ≤ comparison.strength → before comparison = false

theorem Admits.eq_fresh {least : Nat} {before : Open} (admits : Admits least before)
    (weak : least ≤ Comparison.equality.strength) : before = fresh := by
  funext comparison
  exact admits comparison (weak.trans comparison.equality_le)

theorem admits_fresh (least : Nat) : Admits least fresh := fun _ _ => rfl

/-- What a comparison of some strength leaves open: itself, and what was open and binds less. -/
structure Opens (strength : Nat) (before after : Open) : Prop where
  kept : ∀ comparison, comparison.strength < strength → after comparison = before comparison
  opened : ∀ comparison, comparison.strength = strength → after comparison = true

/-- What watching the text of an expression comes to, provided that nothing is open before it that
binds as strongly. -/
def Watched (expr : Expr) : Prop :=
  ∀ before, Admits expr.precedence before →
    ∃ after, Carries expr.text expr.Chained before after ∧ Opens expr.precedence before after

section Watched

variable {expr : Expr}

theorem watched_of_settles (weak : expr.precedence < Comparison.equality.strength)
    (settles : Settles expr.text expr.Chained) : Watched expr := by
  intro before admits
  obtain ⟨after, carries⟩ := settles
  have above (comparison : Comparison) : expr.precedence < comparison.strength :=
    weak.trans_le comparison.equality_le
  refine ⟨after, admits.eq_fresh weak.le ▸ carries, ?_, ?_⟩
  · exact fun comparison below => absurd below (above comparison).not_gt
  · exact fun comparison same => absurd same (above comparison).ne'

theorem watched_of_steady (strong : Comparison.ordering.strength < expr.precedence)
    (steady : Steady expr.text expr.Chained) : Watched expr := by
  intro before _
  refine ⟨before, steady before, fun _ _ => rfl, ?_⟩
  exact fun comparison same => absurd same (comparison.le_ordering.trans_lt strong).ne

/-- A watched expression can stand where nothing is open. -/
theorem Watched.settles (watched : Watched expr) : Settles expr.text expr.Chained := by
  obtain ⟨after, carries, -⟩ := watched fresh (admits_fresh _)
  exact ⟨after, carries⟩

/-- A watched expression that binds more strongly than comparisons leaves open what is. -/
theorem Watched.steady (watched : Watched expr)
    (strong : Comparison.ordering.strength < expr.precedence) : Steady expr.text expr.Chained := by
  intro before
  have below (comparison : Comparison) : comparison.strength < expr.precedence :=
    comparison.le_ordering.trans_lt strong
  obtain ⟨after, carries, opens⟩ := watched before fun comparison least =>
    absurd least (below comparison).not_ge
  have afterEq : after = before := funext fun comparison => opens.kept _ (below comparison)
  exact afterEq ▸ carries

/-- An operand that is not enclosed leaves its own comparison open; apart from that, what is open
after an operand was open before it. -/
theorem Watched.operand (watched : Watched expr) (least : Nat) (before : Open)
    (admits : Admits least before) :
    ∃ after, Carries (operandText least expr) expr.Chained before after ∧
      ∀ comparison, comparison.strength ≤ least → (after comparison = true ↔
        before comparison = true ∨
          comparison.strength = least ∧ expr.comparison? = some comparison) := by
  by_cases weak : expr.precedence < least
  · refine ⟨before, ?_, ?_⟩
    · rw [operandText, encloseIf, if_pos (decide_eq_true weak)]
      exact steady_enclose watched.settles before
    · intro comparison _
      refine (or_iff_left ?_).symm
      rintro ⟨strengthEq, compares⟩
      exact weak.ne ((Expr.precedence_eq_strength_iff.mpr compares).trans strengthEq)
  · rw [not_lt] at weak
    obtain ⟨after, carries, opens⟩ :=
      watched before fun comparison held => admits comparison (weak.trans held)
    refine ⟨after, ?_, ?_⟩
    · rw [operandText, encloseIf, if_neg (by simpa using weak)]
      exact carries
    · intro comparison le
      rw [← Expr.precedence_eq_strength_iff]
      rcases (le.trans weak).lt_or_eq with below | same
      · rw [opens.kept comparison below]
        exact (or_iff_left fun both => below.ne both.2.symm).symm
      · have leastEq : comparison.strength = least := le_antisymm le (same ▸ weak)
        exact iff_of_true (opens.opened comparison same) (.inr ⟨leastEq, same.symm⟩)

theorem Watched.operand_settles (watched : Watched expr) (least : Nat) :
    Settles (operandText least expr) expr.Chained := by
  obtain ⟨after, carries, -⟩ := watched.operand least fresh (admits_fresh least)
  exact ⟨after, carries⟩

/-- A watched expression can stand as an operand of what binds more strongly than comparisons. -/
theorem Watched.operand_steady (watched : Watched expr) {least : Nat}
    (strong : Comparison.ordering.strength < least) :
    Steady (operandText least expr) expr.Chained := by
  intro before
  have below (comparison : Comparison) : comparison.strength < least :=
    comparison.le_ordering.trans_lt strong
  obtain ⟨after, carries, openEq⟩ := watched.operand least before fun comparison held =>
    absurd held (below comparison).not_ge
  have afterEq : after = before := by
    funext comparison
    rw [Bool.eq_iff_iff, openEq comparison (below comparison).le]
    exact or_iff_left fun both => (below comparison).ne both.1
  exact afterEq ▸ carries

/-- What members and elements are written after. -/
theorem Watched.base (watched : Watched expr) :
    Steady (encloseIf (!expr.isDereferenceable) expr.text) expr.Chained := by
  cases dereferenceable : expr.isDereferenceable with
  | true =>
      refine watched.steady ?_
      rw [expr.precedence_of_isDereferenceable dereferenceable]
      decide
  | false => exact steady_enclose watched.settles

end Watched

/-! ## Binary operators -/

section Binary

variable {op : BinaryOp} {left right : Expr}

theorem text_binary (op : BinaryOp) (left right : Expr) : (Expr.binary op left right).text =
    operandText op.leftStrength left ++ (" " ++ op.symbol ++ " ") ++
      operandText op.rightStrength right := by
  rw [Expr.text, operandText, operandText, ← String.append_assoc, ← String.append_assoc]

/-- An operation is chained exactly if it compares a comparison of its kind, or an
operand is chained. -/
theorem chained_binary : (Expr.binary op left right).Chained ↔
    (∃ comparison, op.comparison? = some comparison ∧ left.comparison? = some comparison) ∨
      left.Chained ∨ right.Chained := by
  rw [Expr.Chained, Expr.somewhere_iff]
  simp [Expr.ChainsLeft, Expr.parts]

theorem strengths_of_comparison {comparison : Comparison}
    (compares : op.comparison? = some comparison) :
    op.precedence = comparison.strength ∧ op.leftStrength = comparison.strength ∧
      op.rightStrength = comparison.strength + 1 := by
  have strengthEq := BinaryOp.precedence_eq_strength_iff.mpr compares
  have leftGroups : op ≠ .coalesce := by
    rintro rfl
    cases compares
  rw [BinaryOp.leftStrength, BinaryOp.rightStrength, if_neg leftGroups, if_neg leftGroups,
    strengthEq]
  exact ⟨rfl, rfl, rfl⟩

/-- After a comparison, it is open itself, with those before it that bind less. -/
theorem compare_eq_true_iff {seen : Open} {comparison other : Comparison} :
    seen.compare comparison other = true ↔
      other = comparison ∨ seen other = true ∧ other.strength < comparison.strength := by
  simp [Open.compare]

/-- After its sign, a comparison asks for an operand that binds more strongly. -/
theorem admits_compare (seen : Open) (comparison : Comparison) :
    Admits (comparison.strength + 1) (seen.compare comparison) := by
  intro other above
  rw [← Bool.not_eq_true, compare_eq_true_iff]
  rintro (rfl | ⟨_, below⟩)
  · exact absurd above (Nat.not_succ_le_self _)
  · omega

/-- A left operand of the same kind leaves its comparison open, so that the sign makes a chain; one
of another kind does not, and a right operand never does. -/
theorem watched_comparison {comparison : Comparison} (compares : op.comparison? = some comparison)
    (leftWatched : Watched left) (rightWatched : Watched right) :
    Watched (.binary op left right) := by
  obtain ⟨strengthEq, leftEq, rightEq⟩ := strengths_of_comparison compares
  intro before admits
  change Admits op.precedence before at admits
  rw [strengthEq] at admits
  have closed : before comparison = false := admits comparison le_rfl
  obtain ⟨between, leftCarries, leftOpen⟩ :=
    leftWatched.operand op.leftStrength before (leftEq ▸ admits)
  have signCarries : Carries (" " ++ op.symbol ++ " ") (between comparison = true) between
      (between.compare comparison) :=
    carries_comparison op.isUnmarked_symbol (op.ofSign?_symbol.trans compares)
  obtain ⟨after, rightCarries, rightOpen⟩ := rightWatched.operand op.rightStrength
    (between.compare comparison) (rightEq ▸ admits_compare between comparison)
  rw [leftEq] at leftOpen
  rw [rightEq] at rightOpen
  -- The right operand leaves open what the sign does.
  have afterOpen (other : Comparison) (le : other.strength ≤ comparison.strength) :
      after other = true ↔ between.compare comparison other = true := by
    rw [rightOpen other (le.trans (Nat.le_succ _))]
    exact or_iff_left fun both => by omega
  refine ⟨after, ?_, ?_, ?_⟩
  · rw [text_binary]
    have sameKind : between comparison = true ↔ ∃ comparison, op.comparison? = some comparison ∧
        left.comparison? = some comparison := by
      rw [leftOpen comparison le_rfl, closed, compares]
      simp
    refine ((leftCarries.append signCarries).append rightCarries).congr ?_
    rw [chained_binary, sameKind, or_assoc, or_left_comm]
  · intro other below
    change other.strength < op.precedence at below
    rw [strengthEq] at below
    have apart : other ≠ comparison := fun same => below.ne (congrArg _ same)
    rw [Bool.eq_iff_iff, afterOpen other below.le, compare_eq_true_iff, leftOpen other below.le]
    simp [apart, below, below.ne]
  · intro other same
    change other.strength = op.precedence at same
    rw [afterOpen other (same.trans strengthEq).le, compare_eq_true_iff]
    exact .inl (Comparison.strength_injective (same.trans strengthEq))

/-- A sign that binds less than comparisons closes everything before the right operand. -/
theorem watched_parting (isParting : op.symbol.toList ∈ partings)
    (noComparison : op.comparison? = none) (weak : op.precedence < Comparison.equality.strength)
    (leftWatched : Watched left) (rightWatched : Watched right) :
    Watched (.binary op left right) := by
  refine watched_of_settles weak ?_
  rw [text_binary]
  refine ((leftWatched.operand_settles op.leftStrength).append_parts
    (parts_sign _ ⟨_, isParting, by simp⟩) (rightWatched.operand_settles op.rightStrength)).congr ?_
  simp [chained_binary, noComparison]

/-- Arithmetic and concatenation bind more strongly than comparisons. -/
theorem watched_strong (noParting : partings.contains op.symbol.toList = false)
    (noComparison : op.comparison? = none)
    (leftStrong : Comparison.ordering.strength < op.leftStrength)
    (rightStrong : Comparison.ordering.strength < op.rightStrength)
    (strong : Comparison.ordering.strength < op.precedence) (leftWatched : Watched left)
    (rightWatched : Watched right) : Watched (.binary op left right) := by
  refine watched_of_steady strong ?_
  have sign : Steady (" " ++ op.symbol ++ " ") False := by
    rw [String.append_assoc]
    exact (steady_space.append (steady_sign op.symbol rfl op.isUnmarked_symbol
      (op.ofSign?_symbol.trans noComparison) noParting)).congr (by simp)
  rw [text_binary]
  refine (((leftWatched.operand_steady leftStrong).append sign).append
    (rightWatched.operand_steady rightStrong)).congr ?_
  simp [chained_binary, noComparison]

theorem watched_binary (op : BinaryOp) (leftWatched : Watched left) (rightWatched : Watched right) :
    Watched (.binary op left right) := by
  cases op with
  | identical | notIdentical | equal | notEqual | smaller | smallerOrEqual | greater
  | greaterOrEqual => exact watched_comparison rfl leftWatched rightWatched
  | booleanAnd | booleanOr | coalesce =>
      exact watched_parting (by decide) rfl (by decide) leftWatched rightWatched
  | plus | minus | mul | div | concat =>
      exact watched_strong (by decide) rfl (by decide) (by decide) (by decide) leftWatched
        rightWatched

end Binary

/-! ## Names and lists -/

section Names

variable {word : String} {name : Name}

theorem not_mem_marks_of_isNameChar {c : Char} (nameChar : isNameChar c = true) : c ∉ marks := by
  have unnamed : marks.any isNameChar = false := by decide
  exact fun isMark => List.any_eq_false.mp unnamed c isMark nameChar

theorem not_mem_marks_of_isWord {c : Char} (isWordChar : isWord c = true) : c ∉ marks :=
  not_mem_marks_of_isNameChar (by rw [isNameChar, isWordChar, Bool.true_or])

/-- An identifier, maybe after signs. -/
theorem steady_identifier {beginning : String} (unmarked : isUnmarked beginning.toList = true)
    (identifier : isIdentifier word = true) : Steady (beginning ++ word) False := by
  have letters := isWord_of_mem_identifier identifier
  obtain ⟨c, rest, charsEq, -⟩ := exists_start_of_isIdentifier identifier
  have first : c ∈ word.toList := charsEq ▸ List.mem_cons_self
  apply steady_word
  · rw [String.toList_append, isUnmarked_iff, List.forall_mem_append]
    exact ⟨isUnmarked_iff.mp unmarked, fun d member => not_mem_marks_of_isWord (letters d member)⟩
  · rw [String.toList_append, List.any_eq_true]
    exact ⟨c, List.mem_append_right _ first, letters c first⟩

theorem steady_name (nonempty : name.parts ≠ [])
    (identifiers : ∀ part ∈ name.parts, isIdentifier part = true) : Steady name.text False := by
  apply steady_word
  · rw [isUnmarked_iff]
    exact fun c member => not_mem_marks_of_isNameChar (isNameChar_of_mem_text identifiers c member)
  · obtain ⟨c, rest, charsEq, start⟩ := exists_start_of_name nonempty identifiers
    rw [isIdentifierStart, Bool.or_eq_true] at start
    rw [charsEq, List.any_cons, Bool.or_eq_true]
    rcases start with isUnderscore | letter
    · simp [isWord, isUnderscore]
    · simp [isWord, isAlnum, letter]

/-- An integer leaves everything open and makes no chain. -/
theorem steady_int (value : Int) : Steady (toString value) False := by
  have isWord_digit {n : Nat} {c : Char} (member : c ∈ Nat.toDigits 10 n) : isWord c = true := by
    simp [isWord, isAlnum, Json.isDigit_of_mem_toDigits member]
  have exists_digit (n : Nat) : ∃ c ∈ Nat.toDigits 10 n, isWord c = true := by
    obtain ⟨c, member⟩ := List.exists_mem_of_ne_nil _ (Nat.toDigits_ne_nil (n := n) (b := 10))
    exact ⟨c, member, isWord_digit member⟩
  apply steady_word
  · rw [isUnmarked_iff]
    intro c member
    have numeric := isNumeric_of_mem_toString value c member
    rw [isNumeric, Bool.or_eq_true, beq_iff_eq] at numeric
    rcases numeric with rfl | isDigitChar
    · decide
    · exact not_mem_marks_of_isWord (by simp [isWord, isAlnum, isDigitChar])
  · rw [List.any_eq_true]
    cases value with
    | ofNat n =>
        rw [toList_toString_ofNat]
        exact exists_digit n
    | negSucc n =>
        obtain ⟨c, member, isWordChar⟩ := exists_digit (n + 1)
        rw [toList_toString_negSucc]
        exact ⟨c, List.mem_cons_of_mem _ member, isWordChar⟩

end Names

section Lists

theorem settles_itemText {item : ArrayItem} (watched : ∀ part ∈ item.parts, Watched part) :
    Settles (itemText item) (∃ part ∈ item.parts, part.Chained) := by
  obtain ⟨key, value⟩ := item
  have valueSettles :=
    (watched value List.mem_cons_self).operand_settles (Precedence.assign + 1)
  cases key with
  | none => exact valueSettles.congr (by simp [ArrayItem.parts])
  | some key =>
      have keySettles := (watched key (by simp [ArrayItem.parts])).settles
      exact (keySettles.append_parts (parts_sign " => " (by decide)) valueSettles).congr
        (by simp [ArrayItem.parts, or_comm])

theorem steady_typeText {type : Option String} (typed : ∀ text ∈ type, IsTypeText text) :
    Steady (typeText type) False := by
  cases type with
  | none => exact steady_empty
  | some type =>
      obtain ⟨chars, named⟩ := typed type rfl
      refine ((steady_word ?_ named).append steady_space).congr (by simp)
      have signs : isUnmarked ['?', '|', '&'] = true := by decide
      rw [isUnmarked_iff]
      intro c member
      rcases chars c member with nameChar | isSign
      · exact not_mem_marks_of_isNameChar nameChar
      · exact isUnmarked_iff.mp signs c isSign

/-- A parameter is chained exactly if its default is. -/
theorem settles_paramText {param : Param} (identifier : isIdentifier param.name = true)
    (typed : ∀ text ∈ param.type?, IsTypeText text)
    (watched : ∀ part ∈ param.parts, Watched part) :
    Settles (paramText param) (∃ part ∈ param.parts, part.Chained) := by
  obtain ⟨name, type, default⟩ := param
  have named : Steady (typeText type ++ "$" ++ name) False := by
    rw [String.append_assoc]
    exact ((steady_typeText typed).append (steady_identifier (by decide) identifier)).congr
      (by simp)
  cases default with
  | none => exact named.settles.congr (by simp [Param.parts])
  | some value =>
      have valueSettles := (watched value (by simp [Param.parts])).settles
      exact (named.settles.append_parts (parts_sign " = " (by decide)) valueSettles).congr
        (by simp [Param.parts])

theorem settles_armText {arm : MatchArm} (watched : ∀ part ∈ arm.parts, Watched part) :
    Settles (armText arm) (∃ part ∈ arm.parts, part.Chained) := by
  obtain ⟨conditions, body⟩ := arm
  obtain ⟨bodyWatched, conditionsWatched⟩ := List.forall_mem_cons.mp watched
  cases conditions with
  | nil =>
      have word : Steady "default" False := steady_word (by decide) (by decide)
      exact (word.settles.append_parts (parts_sign " => " (by decide)) bodyWatched.settles).congr
        (by simp [MatchArm.parts])
  | cons condition conditions =>
      have joined := settles_join fun part member => (conditionsWatched part member).settles
      exact (joined.append_parts (parts_sign " => " (by decide)) bodyWatched.settles).congr
        (by simp [MatchArm.parts, or_comm])

theorem steady_args {args : List Expr} (watched : ∀ arg ∈ args, Watched arg) :
    Steady (callList (argTexts args)) (∃ arg ∈ args, arg.Chained) := by
  rw [argTexts_eq_map]
  exact steady_callList fun arg member => (watched arg member).operand_settles _

end Lists

/-! ## All expressions -/

section Nodes

variable {expr : Expr}

theorem exists_mem_flatMap {α β : Type} {items : List α} {partsOf : α → List β} {p : β → Prop} :
    (∃ part ∈ items.flatMap partsOf, p part) ↔ ∃ item ∈ items, ∃ part ∈ partsOf item, p part := by
  constructor
  · rintro ⟨part, member, holds⟩
    obtain ⟨item, itemMem, partMem⟩ := List.mem_flatMap.mp member
    exact ⟨item, itemMem, part, partMem, holds⟩
  · rintro ⟨item, itemMem, part, partMem, holds⟩
    exact ⟨part, List.mem_flatMap.mpr ⟨item, itemMem, partMem⟩, holds⟩

theorem watched_of_atom (atom : expr.precedence = Precedence.atom) (other : ¬expr.ChainsLeft)
    (steady : Steady expr.text (∃ part ∈ expr.parts, part.Chained)) : Watched expr := by
  refine watched_of_steady ?_ (steady.congr (Expr.chained_iff other).symm)
  rw [atom]
  decide

theorem watched_element {base : Expr} {key : Option Expr} (baseWatched : Watched base)
    (keyWatched : ∀ part ∈ key, Watched part) : Watched (.element base key) := by
  refine watched_of_atom rfl id ?_
  cases key with
  | none =>
      have brackets : Steady "[]" False :=
        steady_bracket '[' ']' (by decide) (by decide) (by decide) steady_empty.settles
      exact (baseWatched.base.append brackets).congr (by simp [Expr.parts])
  | some key =>
      have settles := (keyWatched key rfl).settles
      have brackets : Steady
          (if key.isPlainKey then "[" ++ key.text ++ "]" else "[ " ++ key.text ++ " ]")
          key.Chained := by
        split
        · exact steady_bracket '[' ']' (by decide) (by decide) (by simp) settles
        · exact steady_bracket '[' ']' (by decide) (by decide) (by simp) settles.padded
      exact (baseWatched.base.append brackets).congr (by simp [Expr.parts])

theorem steady_member {base : Expr} {name : String} (identifier : isIdentifier name = true)
    (baseWatched : Watched base) :
    Steady (encloseIf (!base.isDereferenceable) base.text ++ "->" ++ name) base.Chained := by
  rw [String.append_assoc]
  exact (baseWatched.base.append (steady_identifier (by decide) identifier)).congr (by simp)

theorem steady_static {className : Name} {name : String} (shaped : className.parts ≠ [])
    (identifiers : ∀ word ∈ name :: className.parts, isIdentifier word = true) :
    Steady (className.text ++ "::" ++ name) False := by
  obtain ⟨identifier, areIdentifiers⟩ := List.forall_mem_cons.mp identifiers
  rw [String.append_assoc]
  exact ((steady_name shaped areIdentifiers).append
    (steady_identifier (by decide) identifier)).congr (by simp)

theorem watched_ternary {condition no : Expr} {yes : Option Expr}
    (conditionWatched : Watched condition) (yesWatched : ∀ part ∈ yes, Watched part)
    (noWatched : Watched no) : Watched (.ternary condition yes no) := by
  have weak : Precedence.ternary < Comparison.equality.strength := by decide
  refine watched_of_settles weak (.congr ?_ (Expr.chained_iff id).symm)
  have conditionSettles := conditionWatched.operand_settles (Precedence.ternary + 1)
  have noSettles := noWatched.operand_settles (Precedence.ternary + 1)
  cases yes with
  | none =>
      exact (conditionSettles.append_parts (parts_sign " ?: " (by decide)) noSettles).congr
        (by simp [Expr.parts])
  | some yes =>
      have yesSettles := (yesWatched yes rfl).operand_settles (Precedence.ternary + 1)
      have chosen := conditionSettles.append_parts (parts_sign " ? " (by decide)) yesSettles
      exact (chosen.append_parts (parts_sign " : " (by decide)) noSettles).congr
        (by simp [Expr.parts, or_comm, or_left_comm])

/-- An arrow function is watched if its parts are. -/
theorem watched_arrow {isStatic : Bool} {params : List Param} {body : Expr}
    (identifiers : ∀ param ∈ params, isIdentifier param.name = true)
    (typed : (Expr.arrow isStatic params body).IsTyped)
    (defaultsWatched : ∀ param ∈ params, ∀ part ∈ param.parts, Watched part)
    (bodyWatched : Watched body) : Watched (.arrow isStatic params body) := by
  have weak : Precedence.ternary < Comparison.equality.strength := by decide
  refine watched_of_settles weak (.congr ?_ (Expr.chained_iff id).symm)
  have opening : Steady ((if isStatic then "static " else "") ++ "fn") False := by
    cases isStatic with
    | false => exact steady_word (by decide) (by decide)
    | true =>
        have opened : (if true then "static " else "") ++ "fn" = "static" ++ (" " ++ "fn") := by
          decide
        have keyword : Steady "static" False := steady_word (by decide) (by decide)
        have function : Steady "fn" False := steady_word (by decide) (by decide)
        rw [opened]
        exact (keyword.append (steady_space.append function)).congr (by simp)
  have paramsSteady : Steady (callList (paramTexts params))
      (∃ param ∈ params, ∃ part ∈ param.parts, part.Chained) := by
    rw [paramTexts_eq_map]
    exact steady_callList fun param member => settles_paramText (identifiers param member)
      (typed param member) (defaultsWatched param member)
  refine ((opening.append paramsSteady).settles.append_parts (parts_sign " => " (by decide))
    bodyWatched.settles).congr ?_
  rw [Expr.parts, List.exists_mem_cons_iff, exists_mem_flatMap, false_or, or_comm]

/-- A match is watched if its parts are. -/
theorem watched_matching {subject : Expr} {arms : List MatchArm} (subjectWatched : Watched subject)
    (armsWatched : ∀ arm ∈ arms, ∀ part ∈ arm.parts, Watched part) :
    Watched (.matching subject arms) := by
  refine watched_of_atom rfl id ?_
  have keyword : Steady "match" False := steady_word (by decide) (by decide)
  have armsSettle : Settles (Text.join ", " (armTexts arms))
      (∃ arm ∈ arms, ∃ part ∈ arm.parts, part.Chained) := by
    rw [armTexts_eq_map]
    exact settles_join fun arm member => settles_armText (armsWatched arm member)
  have regrouped (subject arms : String) :
      "match ( " ++ subject ++ " ) \x7b " ++ arms ++ " \x7d" =
        "match" ++ " " ++ enclose subject ++ " " ++ ("\x7b" ++ (" " ++ arms ++ " ") ++ "\x7d") := by
    rw [← String.toList_inj]
    simp [enclose]
  have brackets : Steady ("\x7b" ++ (" " ++ Text.join ", " (armTexts arms) ++ " ") ++ "\x7d")
      (∃ arm ∈ arms, ∃ part ∈ arm.parts, part.Chained) :=
    steady_bracket '\x7b' '\x7d' (by decide) (by decide) (by simp) armsSettle.padded
  rw [Expr.text, regrouped]
  refine ((((keyword.append steady_space).append (steady_enclose subjectWatched.settles)).append
    steady_space).append brackets).congr ?_
  rw [Expr.parts, List.exists_mem_cons_iff, exists_mem_flatMap]
  simp only [false_or, or_false]

theorem watched_array {items : List ArrayItem}
    (itemsWatched : ∀ item ∈ items, ∀ part ∈ item.parts, Watched part) :
    Watched (.array items) := by
  refine watched_of_atom rfl id ?_
  rw [Expr.text, itemTexts_eq_map, Expr.parts, exists_mem_flatMap]
  exact steady_arrayText _ fun item member => settles_itemText (itemsWatched item member)

theorem watched_assign {target value : Expr} (targetWatched : Watched target)
    (valueWatched : Watched value) : Watched (.assign target value) := by
  have weak : Precedence.assign < Comparison.equality.strength := by decide
  refine watched_of_settles weak (.congr ?_ (Expr.chained_iff id).symm)
  exact (targetWatched.settles.append_parts (parts_sign " = " (by decide))
    (valueWatched.operand_settles Precedence.assign)).congr (by simp [Expr.parts])

theorem watched_not {operand : Expr} (watched : Watched operand) : Watched (.not operand) := by
  have strong : Comparison.ordering.strength < Precedence.not := by decide
  refine watched_of_steady strong (.congr ?_ (Expr.chained_iff id).symm)
  have sign : Steady "! " False :=
    steady_sign "!" (by decide) (by decide) (by decide) (by decide)
  exact (sign.append (watched.operand_steady strong)).congr (by simp [Expr.parts])

theorem watched_instanceOf {operand : Expr} {className : Name} (shaped : className.parts ≠ [])
    (identifiers : ∀ part ∈ className.parts, isIdentifier part = true)
    (watched : Watched operand) : Watched (.instanceOf operand className) := by
  have strong : Comparison.ordering.strength < Precedence.instanceOf := by decide
  refine watched_of_steady strong (.congr ?_ (Expr.chained_iff id).symm)
  have keyword : Steady "instanceof " False :=
    steady_sign "instanceof" (by decide) (by decide) (by decide) (by decide)
  have spaced : " instanceof " = " " ++ "instanceof " := by decide
  rw [Expr.text, spaced]
  exact (((watched.operand_steady (strong.trans (Nat.lt_succ_self _))).append
    (steady_space.append keyword)).append (steady_name shaped identifiers)).congr
      (by simp [Expr.parts])

theorem watched_cast (kind : CastKind) {operand : Expr} (watched : Watched operand) :
    Watched (.cast kind operand) := by
  have strong : Comparison.ordering.strength < Precedence.cast := by decide
  refine watched_of_steady strong (.congr ?_ (Expr.chained_iff id).symm)
  have keyword : Steady kind.keyword False := by
    cases kind <;> exact steady_word (by decide) (by decide)
  have brackets : Steady ("(" ++ kind.keyword ++ ")") False :=
    steady_bracket '(' ')' (by decide) (by decide) (by simp) keyword.settles
  have regrouped : "(" ++ kind.keyword ++ ") " = "(" ++ kind.keyword ++ ")" ++ " " := by
    rw [← String.toList_inj]
    simp
  rw [Expr.text, regrouped]
  exact ((brackets.append steady_space).append (watched.operand_steady strong)).congr
    (by simp [Expr.parts])

/-- Watching the text of an expression finds the chains that the tree has. -/
theorem watched_of_checked (checked : expr.Checked) : Watched expr := by
  induction checked with
  | node here below ih =>
      rename_i expr
      obtain ⟨⟨identifiers, shaped⟩, typed⟩ := here
      cases expr with
      | var name =>
          exact watched_of_atom rfl id ((steady_identifier (by decide)
            (identifiers name List.mem_cons_self)).congr (by simp [Expr.parts]))
      | string value =>
          exact watched_of_atom rfl id ((steady_quote value).congr (by simp [Expr.parts]))
      | int value =>
          exact watched_of_atom rfl id ((steady_int value).congr (by simp [Expr.parts]))
      | constant name =>
          exact watched_of_atom rfl id ((steady_name (Expr.IsShaped.parts_ne_nil shaped)
            identifiers).congr (by simp [Expr.parts]))
      | classConstant className name =>
          exact watched_of_atom rfl id ((steady_static shaped identifiers).congr
            (by simp [Expr.parts]))
      | array items =>
          exact watched_array fun item itemMem part partMem =>
            ih part (List.mem_flatMap.mpr ⟨item, itemMem, partMem⟩)
      | element base key =>
          obtain ⟨baseWatched, keyWatched⟩ := List.forall_mem_cons.mp ih
          exact watched_element baseWatched fun part isKey =>
            keyWatched part (Option.mem_toList.mpr isKey)
      | property base name =>
          exact watched_of_atom rfl id ((steady_member (identifiers name List.mem_cons_self)
            (ih base List.mem_cons_self)).congr (by simp [Expr.parts]))
      | call name args =>
          exact watched_of_atom rfl id (((steady_name shaped identifiers).append
            (steady_args ih)).congr (by simp [Expr.parts]))
      | methodCall base name args =>
          obtain ⟨baseWatched, argsWatched⟩ := List.forall_mem_cons.mp ih
          exact watched_of_atom rfl id (((steady_member (identifiers name List.mem_cons_self)
            baseWatched).append (steady_args argsWatched)).congr (by simp [Expr.parts]))
      | staticCall className name args =>
          exact watched_of_atom rfl id (((steady_static shaped identifiers).append
            (steady_args ih)).congr (by simp [Expr.parts]))
      | new className args =>
          have keyword : Steady "new " False :=
            steady_sign "new" (by decide) (by decide) (by decide) (by decide)
          exact watched_of_atom rfl id (((keyword.append (steady_name shaped identifiers)).append
            (steady_args ih)).congr (by simp [Expr.parts]))
      | assign target value =>
          exact watched_assign (ih target (by simp [Expr.parts])) (ih value (by simp [Expr.parts]))
      | binary op left right =>
          exact watched_binary op (ih left (by simp [Expr.parts])) (ih right (by simp [Expr.parts]))
      | not operand => exact watched_not (ih operand List.mem_cons_self)
      | instanceOf operand className =>
          exact watched_instanceOf shaped identifiers (ih operand List.mem_cons_self)
      | cast kind operand => exact watched_cast kind (ih operand List.mem_cons_self)
      | ternary condition yes no =>
          obtain ⟨conditionWatched, laterWatched⟩ := List.forall_mem_cons.mp ih
          obtain ⟨noWatched, yesWatched⟩ := List.forall_mem_cons.mp laterWatched
          exact watched_ternary conditionWatched
            (fun part isYes => yesWatched part (Option.mem_toList.mpr isYes)) noWatched
      | isset args =>
          have keyword : Steady "isset" False := steady_word (by decide) (by decide)
          exact watched_of_atom rfl id ((keyword.append (steady_args ih)).congr
            (by simp [Expr.parts]))
      | arrow isStatic params body =>
          obtain ⟨bodyWatched, defaultsWatched⟩ := List.forall_mem_cons.mp ih
          exact watched_arrow (List.forall_mem_map.mp identifiers) typed
            (fun param paramMem part partMem => defaultsWatched part
              (List.mem_flatMap.mpr ⟨param, paramMem, partMem⟩)) bodyWatched
      | matching subject arms =>
          obtain ⟨subjectWatched, armsWatched⟩ := List.forall_mem_cons.mp ih
          exact watched_matching subjectWatched fun arm armMem part partMem =>
            armsWatched part (List.mem_flatMap.mpr ⟨arm, armMem, partMem⟩)

/-- Watching the text of a checked expression tells whether it is chained. -/
theorem isChained_text_iff (checked : expr.Checked) :
    isChained expr.text = true ↔ expr.Chained := by
  obtain ⟨after, carries⟩ := (watched_of_checked checked).settles
  rw [isChained, (carries Watch.start Watch.rests_start rfl).chained]
  simp [Watch.start]

example : isChained "$a < $b === ( $c === $d ) && $a === 'b === c'" = false := by decide

/-- On the right of a comparison, another one of its kind is enclosed; on the left it is not.  So
the text of a checked expression has a comparison chain if and only if somewhere in the expression,
at any depth, a comparison has one of its kind for its left operand. -/
theorem comparison_chain_printed_iff (expr : Expr) :
    (∀ op left right comparison, expr = .binary op left right →
      op.comparison? = some comparison →
        (right.comparison? = some comparison → expr.text =
          operandText op.leftStrength left ++ (" " ++ op.symbol ++ " ") ++ enclose right.text) ∧
        (left.comparison? = some comparison → expr.text =
          left.text ++ (" " ++ op.symbol ++ " ") ++ operandText op.rightStrength right)) ∧
    (expr.Checked → (isChained expr.text = true ↔ expr.Chained)) := by
  refine ⟨?_, isChained_text_iff⟩
  rintro op left right comparison rfl compares
  obtain ⟨-, leftEq, rightEq⟩ := strengths_of_comparison compares
  rw [text_binary]
  refine ⟨fun rightCompares => ?_, fun leftCompares => ?_⟩
  · have strengthEq := Expr.precedence_eq_strength_iff.mpr rightCompares
    have enclosed : operandText op.rightStrength right = enclose right.text := by
      rw [operandText, encloseIf, if_pos (by simp [strengthEq, rightEq])]
    rw [enclosed]
  · have strengthEq := Expr.precedence_eq_strength_iff.mpr leftCompares
    have bare : operandText op.leftStrength left = left.text := by
      rw [operandText, encloseIf, if_neg (by simp [strengthEq, leftEq])]
    rw [bare]

/-- Three values that are compared for identity, the first two first. -/
def firstTwo : Expr := .binary .identical (.binary .identical (.var "a") (.var "b")) (.var "c")

/-- Three values that are compared for identity, the last two first. -/
def lastTwo : Expr := .binary .identical (.var "a") (.binary .identical (.var "b") (.var "c"))

theorem checked_var {name : String} (identifier : isIdentifier name = true) :
    (Expr.var name).Checked :=
  .node ⟨⟨by simpa [Expr.words] using identifier, trivial⟩, trivial⟩ (by simp [Expr.parts])

theorem checked_binary (op : BinaryOp) {left right : Expr} (leftChecked : left.Checked)
    (rightChecked : right.Checked) : (Expr.binary op left right).Checked :=
  .node ⟨⟨by simp [Expr.words], trivial⟩, trivial⟩ (by simp [Expr.parts, leftChecked, rightChecked])

theorem not_chained_var (name : String) : ¬(Expr.var name).Chained := by
  rw [Expr.chained_iff id]
  simp [Expr.parts]

/-- The same three values make a chain in one grouping, and none in the other. -/
theorem comparison_chain_printed_iff_values :
    lastTwo.text = "$a === ( $b === $c )" ∧ isChained firstTwo.text = true ∧
      isChained lastTwo.text = false := by
  have a : (Expr.var "a").Checked := checked_var (by decide)
  have b : (Expr.var "b").Checked := checked_var (by decide)
  have c : (Expr.var "c").Checked := checked_var (by decide)
  refine ⟨?_, ?_, ?_⟩
  · obtain ⟨enclosed, -⟩ := (comparison_chain_printed_iff lastTwo).1 .identical (.var "a")
      (.binary .identical (.var "b") (.var "c")) .equality rfl rfl
    exact (enclosed rfl).trans (by decide)
  · have checked := checked_binary .identical (checked_binary .identical a b) c
    exact ((comparison_chain_printed_iff firstTwo).2 checked).mpr (.here ⟨.equality, rfl, rfl⟩)
  · have checked := checked_binary .identical a (checked_binary .identical b c)
    have unchained : ¬lastTwo.Chained := by
      simp [lastTwo, chained_binary, not_chained_var, Expr.comparison?]
    rw [← Bool.not_eq_true]
    exact fun isChained =>
      unchained (((comparison_chain_printed_iff lastTwo).2 checked).mp isChained)

/-- The comparison on the left is printed without parentheses. -/
theorem chain_printed_of_left_comparison :
    firstTwo.text = "$a === $b === $c" ∧ isChained firstTwo.text = true := by
  decide

end Nodes

end RestPlugin.Php
