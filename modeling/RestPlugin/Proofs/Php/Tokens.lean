import RestPlugin.Proofs.Php.Reader

/-!
# Tokens of expressions

What the reader finds at the beginning of a text: words, names, numbers, quoted texts, keywords and
suffixes.  A suffix is found where it is written, and what may follow an expression is either no
suffix or one that does not bind more strongly than the expression.
-/

namespace RestPlugin.Php.Reader

/-! ## What is left of a text -/

@[simp]
theorem after_append (beginning rest : List Char) :
    after beginning (beginning ++ rest) = some rest := by
  induction beginning with
  | nil => rfl
  | cons c beginning ih => simp [after, ih]

/-- A run of characters that is ended by another one is taken whole. -/
theorem takeWhile_append {p : Char → Bool} {run rest : List Char} (all : ∀ c ∈ run, p c = true)
    (stops : ∀ c ∈ rest.head?, p c = false) : (run ++ rest).takeWhile p = run := by
  rw [List.takeWhile_append_of_pos all]
  cases rest with
  | nil => simp
  | cons c rest => simp [stops c rfl]

/-- A run of characters that is ended by another one is dropped whole. -/
theorem dropWhile_append {p : Char → Bool} {run rest : List Char} (all : ∀ c ∈ run, p c = true)
    (stops : ∀ c ∈ rest.head?, p c = false) : (run ++ rest).dropWhile p = rest := by
  rw [List.dropWhile_append_of_pos all]
  cases rest with
  | nil => rfl
  | cons c rest => simp [stops c rfl]

/-- A quoted value is read back, and what follows is left. -/
theorem quoted_append (value rest : List Char) :
    quoted (value.flatMap quoteChar ++ '\'' :: rest) = some (value, rest) := by
  induction value with
  | nil => simp [quoted]
  | cons c value ih =>
      rw [List.flatMap_cons, List.append_assoc, quoteChar]
      split
      · simp [quoted, ih]
      · rename_i plain
        rw [Bool.or_eq_true, beq_iff_eq, beq_iff_eq, not_or] at plain
        rw [List.singleton_append, quoted, ih]
        · rfl
        · exact plain.2
        · exact fun _ _ isSlash => absurd isSlash plain.1

/-! ## Words and names -/

section Words

variable {word : String} {name : Name} {rest : List Char}

/-- An identifier is read back before a character that is in no word. -/
theorem wordOf_append (identifier : isIdentifier word = true)
    (stops : ∀ c ∈ rest.head?, Text.isWord c = false) : wordOf (word.toList ++ rest) = word := by
  rw [wordOf, takeWhile_append (isWord_of_mem_identifier identifier) stops, String.ofList_toList]

/-- After an identifier, the reading goes on with what follows it. -/
theorem afterWord_append (identifier : isIdentifier word = true)
    (stops : ∀ c ∈ rest.head?, Text.isWord c = false) : afterWord (word.toList ++ rest) = rest :=
  dropWhile_append (isWord_of_mem_identifier identifier) stops

theorem slash_not_mem_identifier {word : String} (identifier : isIdentifier word = true) :
    '\\' ∉ word.toList :=
  fun slash => absurd (isWord_of_mem_identifier identifier _ slash) (by decide)

theorem splitOnChar_text (nonempty : name.parts ≠ [])
    (identifiers : ∀ part ∈ name.parts, isIdentifier part = true) :
    Text.splitOnChar '\\' name.text = name.parts :=
  Text.splitOnChar_join nonempty fun part member =>
    slash_not_mem_identifier (identifiers part member)

/-- A name is read back before a character that is in no name. -/
theorem nameOf_append (nonempty : name.parts ≠ [])
    (identifiers : ∀ part ∈ name.parts, isIdentifier part = true)
    (stops : ∀ c ∈ rest.head?, isNameChar c = false) :
    nameOf (name.text.toList ++ rest) = name := by
  rw [nameOf, takeWhile_append (isNameChar_of_mem_text identifiers) stops, String.ofList_toList,
    splitOnChar_text nonempty identifiers]

/-- After a name, the reading goes on with what follows it. -/
theorem afterName_append (identifiers : ∀ part ∈ name.parts, isIdentifier part = true)
    (stops : ∀ c ∈ rest.head?, isNameChar c = false) :
    afterName (name.text.toList ++ rest) = rest :=
  dropWhile_append (isNameChar_of_mem_text identifiers) stops

end Words

theorem keyword?_text (keyword : Keyword) : keyword? keyword.text = some keyword := by
  cases keyword <;> decide

theorem keyword?_eq_none {word : String} (free : ∀ keyword : Keyword, keyword.text ≠ word) :
    keyword? word = none := by
  rw [keyword?, List.find?_eq_none]
  intro keyword _ same
  exact free keyword (beq_iff_eq.mp same)

/-! ## Suffixes -/

/-- Every suffix is found by its text. -/
theorem suffix?_text {suffix : Suffix} {rest : List Char}
    (plain : suffix = .plainKey → ∃ c later, rest = c :: later ∧ c ∉ gaps) :
    suffix? (suffix.text.toList ++ rest) = some (suffix, rest) := by
  cases suffix with
  | binary op => cases op <;> rfl
  | plainKey =>
      obtain ⟨c, later, rfl, visible⟩ := plain rfl
      have notBracket : ']' ≠ c := by
        rintro rfl
        exact visible (by decide)
      have notBlank : ' ' ≠ c := by
        rintro rfl
        exact visible (by decide)
      simp [suffix?, Suffix.all, Suffix.text, after, notBracket, notBlank]
  | _ => rfl

namespace Suffix

theorem ternary_lt_leftStrength (suffix : Suffix) :
    Precedence.ternary < suffix.leftStrength := by
  cases suffix with
  | binary op => cases op <;> decide
  | _ => decide

theorem strength_le_atom (suffix : Suffix) : suffix.strength ≤ Precedence.atom := by
  cases suffix with
  | binary op => cases op <;> decide
  | _ => decide

/-- Every suffix asks for a left side at least as tight as it binds itself. -/
theorem strength_le_leftStrength (suffix : Suffix) : suffix.strength ≤ suffix.leftStrength := by
  cases suffix with
  | binary op => cases op <;> decide
  | _ => decide

/-- The strengths that ask as much of their last operand as they bind themselves. -/
def groupingStrengths : List Nat :=
  [BinaryOp.coalesce.precedence, Precedence.not, Precedence.cast]

/-- No suffix binds an expression of such a strength and its last operand alike. -/
theorem strength_lt_of_leftStrength_le {suffix : Suffix} {least : Nat}
    (groups : least ∈ groupingStrengths) (weaker : suffix.leftStrength ≤ least) :
    suffix.strength < least := by
  have table : ∀ least ∈ groupingStrengths,
      suffix.leftStrength ≤ least → suffix.strength < least := by
    cases suffix with
    | binary op => cases op <;> decide
    | _ => decide
  exact table least groups weaker

/-- A suffix that takes an operation as its left side is too weak to take the right side of it. -/
theorem strength_lt_rightStrength {suffix : Suffix} {op : BinaryOp}
    (weaker : suffix.leftStrength ≤ op.precedence) : suffix.strength < op.rightStrength := by
  rw [BinaryOp.rightStrength]
  split
  next isCoalesce =>
    rw [isCoalesce] at weaker ⊢
    exact strength_lt_of_leftStrength_le (by decide) weaker
  next =>
    have := suffix.strength_le_leftStrength
    omega

end Suffix

/-! ## What may follow an expression -/

/-- The characters that may stand after an expression. -/
def delimiters : List Char := [' ', ',', '[', ']', '-']

/-- Whether a text may follow an expression that binds with a given strength. -/
structure Follows (strength : Nat) (rest : List Char) : Prop where
  delimited : ∀ c ∈ rest.head?, c ∈ delimiters
  weaker : ∀ suffix later, suffix? rest = some (suffix, later) → suffix.leftStrength ≤ strength

theorem Follows.mono {strength more : Nat} {rest : List Char} (follows : Follows strength rest)
    (le : strength ≤ more) : Follows more rest :=
  ⟨follows.delimited, fun suffix later found => (follows.weaker suffix later found).trans le⟩

/-- A run without delimiters ends where something may follow. -/
theorem Follows.stops {strength : Nat} {rest : List Char} (follows : Follows strength rest)
    {p : Char → Bool} (others : delimiters.any p = false) : ∀ c ∈ rest.head?, p c = false := by
  intro c isHead
  have other := List.any_eq_false.mp others c (follows.delimited c isHead)
  exact eq_false_of_ne_true other

/-- A suffix may follow the left side that it asks for. -/
theorem follows_suffix {suffix : Suffix} {rest : List Char}
    (plain : suffix = .plainKey → ∃ c later, rest = c :: later ∧ c ∉ gaps) :
    Follows suffix.leftStrength (suffix.text.toList ++ rest) := by
  constructor
  · have starts : ∃ c later, suffix.text.toList = c :: later ∧ c ∈ delimiters := by
      cases suffix with
      | binary op => exact ⟨' ', op.symbol.toList ++ [' '], by simp [Suffix.text], by decide⟩
      | _ => exact ⟨_, _, rfl, by decide⟩
    obtain ⟨c, later, textEq, isDelimiter⟩ := starts
    intro d isHead
    rw [textEq, List.cons_append, List.head?_cons, Option.mem_some_iff] at isHead
    exact isHead ▸ isDelimiter
  · intro found later foundEq
    rw [suffix?_text plain] at foundEq
    cases foundEq
    exact le_rfl

/-- The marks that end an expression inside a larger one. -/
def closers : List (List Char) :=
  [[',', ' '], [' ', ')'], [' ', ']'], [']'], [' ', '=', '>', ' '], [' ', ':', ' '],
   [',', '\n'], [' ', '\x7d']]

/-- A closing sign may follow every operand. -/
theorem follows_closer {closer : List Char} (isCloser : closer ∈ closers) (rest : List Char) :
    Follows 0 (closer ++ rest) := by
  have noSuffix : suffix? (closer ++ rest) = none := by
    simp only [closers, List.mem_cons, List.not_mem_nil, or_false] at isCloser
    rcases isCloser with rfl | rfl | rfl | rfl | rfl | rfl | rfl | rfl <;> rfl
  constructor
  · have starts : ∀ closer ∈ closers, closer.head?.any (· ∈ delimiters) = true := by decide
    have start := starts closer isCloser
    cases closer with
    | nil => cases start
    | cons c closer => simpa using start
  · intro suffix later found
    rw [noSuffix] at found
    cases found

end RestPlugin.Php.Reader
