import RestPlugin.Proofs.Php.Frame

/-!
# Comparison chains in texts

PHP does not group comparison operators of one strength: an expression in which two of them follow
each other without parentheses is rejected.  A text is watched for such chains one character at a
time, with its brackets and single-quoted texts.  What watching a piece of a text comes to is said
as one relation, and the pieces of a text are put together by it.  Cutting a text into lines and
writing them at another depth changes nothing.
-/

namespace RestPlugin.Php.Chains

open Text

/-! ## Signs -/

/-- The two kinds of comparison, each of a strength of its own. -/
inductive Comparison where
  | equality
  | ordering
deriving DecidableEq

namespace Comparison

/-- The binding strength of a kind of comparison. -/
def strength : Comparison → Nat
  | equality => BinaryOp.identical.precedence
  | ordering => BinaryOp.smaller.precedence

theorem strength_injective {comparison other : Comparison}
    (same : comparison.strength = other.strength) : comparison = other := by
  cases comparison <;> cases other <;> first | rfl | cases same

theorem equality_le (comparison : Comparison) : equality.strength ≤ comparison.strength := by
  cases comparison <;> decide

theorem le_ordering (comparison : Comparison) : comparison.strength ≤ ordering.strength := by
  cases comparison <;> decide

/-- The signs of a kind of comparison. -/
def signs : Comparison → List (List Char)
  | equality => ["===", "!==", "==", "!="].map String.toList
  | ordering => ["<", "<=", ">", ">="].map String.toList

/-- The comparison that a word is a sign of. -/
def ofSign? (word : List Char) : Option Comparison :=
  [equality, ordering].find? fun comparison => comparison.signs.contains word

end Comparison

/-- The signs that bind less than every comparison and so part what is before from what is after. -/
def partings : List (List Char) :=
  ["&&", "||", "??", "?", "?:", ":", "=", "=>"].map String.toList

/-- The characters between words. -/
def blanks : List Char := [' ', '\t', '\n', '\r']

/-- The brackets that open. -/
def openings : List Char := ['(', '[', '\x7b']

/-- The brackets that close. -/
def closings : List Char := [')', ']', '\x7d']

/-- The characters that do not belong to words. -/
def marks : List Char := '\'' :: ',' :: (blanks ++ openings ++ closings)

/-- Whether a text belongs to one word. -/
def isUnmarked (text : List Char) : Bool := !text.any marks.contains

/-- A text is unmarked if none of its characters is a mark. -/
theorem isUnmarked_iff {text : List Char} : isUnmarked text = true ↔ ∀ c ∈ text, c ∉ marks := by
  simp [isUnmarked]

/-! ## Watching a text -/

/-- Where a text is with respect to single-quoted texts. -/
inductive Quoting where
  | outside
  | inside
  | escaped

/-- The comparisons that are open to the left, where no parenthesis and no weaker sign comes
between. -/
abbrev Open : Type := Comparison → Bool

/-- No comparison is open. -/
def fresh : Open := fun _ => false

/-- What is open after a comparison: the comparison itself, and what binds less. -/
def Open.compare (seen : Open) (comparison : Comparison) : Open := fun other =>
  other = comparison || (seen other && decide (other.strength < comparison.strength))

/-- How far a text has been watched: what is open in the brackets around and in the innermost one,
the word that has begun, and whether there has been a chain. -/
structure Watch where
  outer : List Open
  seen : Open
  word : List Char
  quoting : Quoting
  chained : Bool

namespace Watch

/-- The beginning of a text. -/
def start : Watch where
  outer := []
  seen := fresh
  word := []
  quoting := .outside
  chained := false

/-- A comparison makes a chain if one of its kind is open. -/
def compare (state : Watch) (comparison : Comparison) : Watch :=
  { state with
    seen := state.seen.compare comparison
    chained := state.chained || state.seen comparison }

/-- Everything that is open is closed. -/
def part (state : Watch) : Watch := { state with seen := fresh }

/-- A word is over, which may have been a sign. -/
def endWord (state : Watch) : Watch :=
  let ended := { state with word := [] }
  match Comparison.ofSign? state.word with
  | some comparison => ended.compare comparison
  | none => if partings.contains state.word then ended.part else ended

/-- A bracket opens. -/
def enter (state : Watch) : Watch :=
  { state with outer := state.seen :: state.outer, seen := fresh }

/-- A bracket closes. -/
def leave (state : Watch) : Watch :=
  match state.outer with
  | [] => state
  | seen :: outer => { state with outer, seen }

/-- One character is watched. -/
def step (state : Watch) (c : Char) : Watch :=
  match state.quoting with
  | .inside =>
      if c = '\\' then { state with quoting := .escaped }
      else if c = '\'' then { state with quoting := .outside }
      else state
  | .escaped => { state with quoting := .inside }
  | .outside =>
      if c = '\'' then { state.endWord with quoting := .inside }
      else if c ∈ blanks then state.endWord
      else if c = ',' then state.endWord.part
      else if c ∈ openings then state.endWord.enter
      else if c ∈ closings then state.endWord.leave
      else { state with word := state.word ++ [c] }

/-- A text is watched. -/
def read (state : Watch) (text : List Char) : Watch := text.foldl step state

@[simp]
theorem read_nil (state : Watch) : state.read [] = state := rfl

@[simp]
theorem read_cons (state : Watch) (c : Char) (text : List Char) :
    state.read (c :: text) = (state.step c).read text := rfl

@[simp]
theorem read_append (state : Watch) (text more : List Char) :
    state.read (text ++ more) = (state.read text).read more := List.foldl_append

end Watch

/-- Whether two comparisons of one kind follow each other in a text without parentheses. -/
def isChained (text : String) : Bool := (Watch.start.read text.toList).chained

/-! ## Words -/

/-- Whether a word, however it goes on, is no sign. -/
def Inert (word : List Char) : Prop := word = [] ∨ word.any isWord = true

/-- Inert words make an inert word. -/
theorem Inert.append {word more : List Char} (inert : Inert word) (moreInert : Inert more) :
    Inert (word ++ more) := by
  rcases moreInert with rfl | named
  · rwa [List.append_nil]
  · exact .inr (by rw [List.any_append, named, Bool.or_true])

theorem any_isWord_of_mem_signs (comparison : Comparison) :
    ∀ sign ∈ comparison.signs, sign.any isWord = false := by
  cases comparison <;> decide

theorem any_isWord_of_mem_partings : ∀ sign ∈ partings, sign.any isWord = false := by
  decide

/-- A word that has a letter is neither a comparison nor a weaker sign. -/
theorem no_sign_of_named {word : List Char} (named : word.any isWord = true) :
    Comparison.ofSign? word = none ∧ partings.contains word = false := by
  constructor
  · rw [Comparison.ofSign?, List.find?_eq_none]
    intro comparison _ isSign
    have unnamed := any_isWord_of_mem_signs comparison word (List.contains_iff_mem.mp isSign)
    exact absurd (named.symm.trans unnamed) Bool.false_ne_true.symm
  · rw [List.contains_eq_mem, decide_eq_false_iff_not]
    intro isParting
    have unnamed := any_isWord_of_mem_partings word isParting
    exact absurd (named.symm.trans unnamed) Bool.false_ne_true.symm

namespace Watch

variable {state : Watch}

theorem endWord_of_no_sign (noSign : Comparison.ofSign? state.word = none)
    (noParting : partings.contains state.word = false) :
    state.endWord = { state with word := [] } := by
  rw [endWord, noSign, noParting]
  rfl

theorem endWord_of_inert (inert : Inert state.word) :
    state.endWord = { state with word := [] } := by
  rcases inert with isNil | named
  · apply endWord_of_no_sign <;> rw [isNil] <;> rfl
  · obtain ⟨noSign, noParting⟩ := no_sign_of_named named
    exact endWord_of_no_sign noSign noParting

theorem word_endWord (state : Watch) : state.endWord.word = [] := by
  rw [endWord]
  split
  · rfl
  · split <;> rfl

theorem quoting_endWord (state : Watch) : state.endWord.quoting = state.quoting := by
  rw [endWord]
  split
  · rfl
  · split <;> rfl

theorem endWord_eq_self (ended : state.word = []) : state.endWord = state := by
  rw [endWord_of_inert (.inl ended)]
  obtain ⟨_, _, _, _, _⟩ := state
  cases ended
  rfl

theorem endWord_endWord (state : Watch) : state.endWord.endWord = state.endWord :=
  endWord_eq_self (word_endWord state)

/-! ## Steps -/

section Steps

variable {c : Char}

theorem step_blank (outside : state.quoting = .outside) (blank : c ∈ blanks) :
    state.step c = state.endWord := by
  have noQuote : c ≠ '\'' := by
    rintro rfl
    exact absurd blank (by decide)
  simp only [step, outside, if_neg noQuote, if_pos blank]

theorem step_comma (outside : state.quoting = .outside) : state.step ',' = state.endWord.part := by
  simp only [step, outside]
  rfl

theorem step_comma_step_blank (outside : state.quoting = .outside) (blank : c ∈ blanks) :
    (state.step ',').step c = state.endWord.part := by
  have parted : state.endWord.part.quoting = .outside := (quoting_endWord state).trans outside
  rw [step_comma outside, step_blank parted blank]
  exact endWord_eq_self (word_endWord state)

theorem step_opening (outside : state.quoting = .outside) (opening : c ∈ openings) :
    state.step c = state.endWord.enter := by
  simp only [openings, List.mem_cons, List.not_mem_nil, or_false] at opening
  simp only [step, outside]
  rcases opening with rfl | rfl | rfl <;> rfl

theorem step_closing (outside : state.quoting = .outside) (closing : c ∈ closings) :
    state.step c = state.endWord.leave := by
  simp only [closings, List.mem_cons, List.not_mem_nil, or_false] at closing
  simp only [step, outside]
  rcases closing with rfl | rfl | rfl <;> rfl

theorem step_word (outside : state.quoting = .outside) (noMark : c ∉ marks) :
    state.step c = { state with word := state.word ++ [c] } := by
  simp only [marks, List.mem_cons, List.mem_append, not_or] at noMark
  obtain ⟨noQuote, noComma, ⟨noBlank, noOpening⟩, noClosing⟩ := noMark
  simp only [step, outside, if_neg noQuote, if_neg noComma, if_neg noBlank, if_neg noOpening,
    if_neg noClosing]

/-- Unmarked text outside of quotes goes on with the word. -/
theorem read_word (state : Watch) (outside : state.quoting = .outside) {word : List Char}
    (unmarked : isUnmarked word = true) :
    state.read word = { state with word := state.word ++ word } := by
  induction word generalizing state with
  | nil => simp
  | cons c word ih =>
      rw [isUnmarked_iff, List.forall_mem_cons, ← isUnmarked_iff] at unmarked
      rw [read_cons, step_word outside unmarked.1,
        ih { state with word := state.word ++ [c] } outside unmarked.2]
      simp

/-- In a single-quoted text nothing is seen. -/
theorem read_quoted (inside : state.quoting = .inside) (value : List Char) :
    state.read (value.flatMap quoteChar) = state := by
  induction value with
  | nil => rfl
  | cons c value ih =>
      have kept : state.read (quoteChar c) = state := by
        rw [quoteChar]
        obtain ⟨_, _, _, _, _⟩ := state
        cases inside
        split
        · rfl
        · rename_i plain
          rw [Bool.or_eq_true, beq_iff_eq, beq_iff_eq, not_or] at plain
          simp [step, plain]
      rw [List.flatMap_cons, read_append, kept, ih]

/-! ## Lines -/

/-- Tabs after a line break are not noticed. -/
theorem step_tab_step_break (state : Watch) : (state.step '\n').step '\t' = state.step '\n' := by
  cases quotingEq : state.quoting with
  | outside =>
      have outside : state.endWord.quoting = .outside := (quoting_endWord state).trans quotingEq
      rw [step_blank quotingEq (by decide), step_blank outside (by decide), endWord_endWord]
  | inside | escaped =>
      obtain ⟨_, _, _, _, _⟩ := state
      cases quotingEq
      rfl

/-- A carriage return before a line break is not noticed. -/
theorem step_break_step_return (state : Watch) :
    (state.step '\r').step '\n' = state.step '\n' := by
  cases quotingEq : state.quoting with
  | outside =>
      have outside : state.endWord.quoting = .outside := (quoting_endWord state).trans quotingEq
      rw [step_blank quotingEq (by decide), step_blank quotingEq (by decide),
        step_blank outside (by decide), endWord_endWord]
  | inside | escaped =>
      obtain ⟨_, _, _, _, _⟩ := state
      cases quotingEq
      rfl

theorem read_tabs (state : Watch) (depth : Nat) :
    (state.step '\n').read (List.replicate depth '\t') = state.step '\n' := by
  induction depth with
  | zero => rfl
  | succ depth ih => rw [List.replicate_succ, read_cons, step_tab_step_break, ih]

theorem read_deeper (state : Watch) (depth : Nat) (text : List Char) :
    state.read (deeper depth text) = state.read text := by
  induction text generalizing state with
  | nil => rfl
  | cons c text ih =>
      rw [deeper_cons, read_append, ih, read_cons]
      by_cases isBreak : c = '\n'
      · rw [if_pos isBreak, isBreak, read_cons, read_tabs]
      · rw [if_neg isBreak]
        rfl

/-- Carriage returns before line breaks change nothing. -/
theorem read_dropReturns (state : Watch) (text : List Char) :
    state.read (dropReturns text) = state.read text := by
  induction text generalizing state with
  | nil => rfl
  | cons c text ih =>
      by_cases ends : c = '\r' ∧ text.head? = some '\n'
      · obtain ⟨rfl, headEq⟩ := ends
        obtain ⟨later, rfl⟩ := List.head?_eq_some_iff.mp headEq
        rw [dropReturns_return, ih, read_cons, read_cons, read_cons, step_break_step_return]
      · rw [dropReturns_cons ends, read_cons, read_cons, ih]

/-- A line break before a comma is not noticed. -/
theorem read_chop (text : List Char) (outside : (state.read text).quoting = .outside) :
    (state.read (chop text)).step ',' = (state.read text).step ',' := by
  rw [chop]
  split
  · rename_i last
    obtain ⟨before, rfl⟩ := List.getLast?_eq_some_iff.mp last
    rw [List.dropLast_concat]
    rw [read_append, read_cons, read_nil] at outside ⊢
    generalize state.read before = state at outside ⊢
    have before : state.quoting = .outside := by
      cases quotingEq : state.quoting with
      | outside => rfl
      | inside | escaped =>
          obtain ⟨_, _, _, _, _⟩ := state
          cases quotingEq
          cases outside
    have ended : state.endWord.quoting = .outside := (quoting_endWord state).trans before
    have atBreak : state.step '\n' = state.endWord := step_blank before (by decide)
    rw [atBreak, step_comma before, step_comma ended, endWord_endWord]
  · rfl

end Steps

/-- Whether a text may go on with anything: it is outside of quotes, and no sign has begun. -/
structure Rests (state : Watch) : Prop where
  outside : state.quoting = .outside
  inert : Inert state.word

/-- What has become of a state, apart from the word that has begun: no bracket is open that was not,
and there has been a new chain exactly if `chains` holds. -/
structure Passes (state : Watch) (chains : Prop) (after : Open) (done : Watch) : Prop where
  rests : done.Rests
  outer : done.outer = state.outer
  seen : done.seen = after
  chained : done.chained = true ↔ state.chained = true ∨ chains

theorem Rests.endWord (rests : state.Rests) : state.endWord = { state with word := [] } :=
  endWord_of_inert rests.inert

theorem rests_start : start.Rests := ⟨rfl, .inl rfl⟩

end Watch

/-! ## Pieces of texts -/

/-- What watching a text comes to, whatever is before it: with `before` open at its beginning,
`after` is open at its end, and there is a chain in it exactly if `chains` holds. -/
def Carries (text : String) (chains : Prop) (before after : Open) : Prop :=
  ∀ state : Watch, state.Rests → state.seen = before →
    state.Passes chains after (state.read text.toList)

/-- A text that leaves everything open that was. -/
def Steady (text : String) (chains : Prop) : Prop := ∀ seen, Carries text chains seen seen

/-- A text for places where nothing is open. -/
def Settles (text : String) (chains : Prop) : Prop := ∃ after, Carries text chains fresh after

/-- A text that closes everything that is open before it. -/
def Parts (text : String) : Prop := ∀ before, Carries text False before fresh

section Pieces

variable {text more : String} {chains other : Prop} {before between after : Open}

/-- A text after another one goes on from what that leaves open. -/
theorem Carries.append (first : Carries text chains before between)
    (second : Carries more other between after) :
    Carries (text ++ more) (chains ∨ other) before after := by
  intro state rests seen
  have halfway := first state rests seen
  have done := second _ halfway.rests halfway.seen
  rw [String.toList_append, Watch.read_append]
  refine ⟨done.rests, done.outer.trans halfway.outer, done.seen, ?_⟩
  rw [done.chained, halfway.chained, or_assoc]

theorem Carries.congr (carries : Carries text chains before after) (same : chains ↔ other) :
    Carries text other before after := by
  rwa [← propext same]

/-- Two steady texts after one another are steady. -/
theorem Steady.append (first : Steady text chains) (second : Steady more other) :
    Steady (text ++ more) (chains ∨ other) := fun seen => (first seen).append (second seen)

theorem Steady.congr (steady : Steady text chains) (same : chains ↔ other) : Steady text other :=
  fun seen => (steady seen).congr same

/-- A steady text can stand where nothing is open. -/
theorem Steady.settles (steady : Steady text chains) : Settles text chains := ⟨fresh, steady fresh⟩

theorem Settles.congr (settles : Settles text chains) (same : chains ↔ other) :
    Settles text other := by
  rwa [← propext same]

theorem Steady.append_settles (first : Steady text chains) (second : Settles more other) :
    Settles (text ++ more) (chains ∨ other) := by
  obtain ⟨after, carries⟩ := second
  exact ⟨after, (first fresh).append carries⟩

/-- Texts with a parting sign between them can stand where nothing is open. -/
theorem Settles.append_parts {between : String} (first : Settles text chains)
    (parts : Parts between) (second : Settles more other) :
    Settles (text ++ between ++ more) (chains ∨ other) := by
  obtain ⟨seen, firstCarries⟩ := first
  obtain ⟨after, secondCarries⟩ := second
  exact ⟨after, ((firstCarries.append (parts seen)).append secondCarries).congr (by simp)⟩

theorem steady_empty : Steady "" False := by
  intro seen state rests seenEq
  exact ⟨rests, rfl, seenEq, by simp⟩

/-! ## Words and signs -/

/-- A word with a letter, or the rest of one. -/
theorem steady_word (unmarked : isUnmarked text.toList = true)
    (named : text.toList.any isWord = true) : Steady text False := by
  intro seen state rests seenEq
  rw [Watch.read_word state rests.outside unmarked]
  exact ⟨⟨rests.outside, rests.inert.append (.inr named)⟩, rfl, seenEq, by simp⟩

theorem steady_blank (blank : Char) (isBlank : blank ∈ blanks) :
    Steady (String.singleton blank) False := by
  intro seen state rests seenEq
  have ended : state.read (String.singleton blank).toList = state.endWord := by
    rw [String.toList_singleton, Watch.read_cons, Watch.read_nil]
    exact Watch.step_blank rests.outside isBlank
  rw [ended, rests.endWord]
  exact ⟨⟨rests.outside, .inl rfl⟩, rfl, seenEq, by simp⟩

theorem steady_space : Steady " " False := steady_blank ' ' (by decide)

theorem read_sign (state : Watch) (rests : state.Rests) {sign : String}
    (unmarked : isUnmarked sign.toList = true) :
    state.read (sign ++ " ").toList = { state with word := state.word ++ sign.toList }.endWord := by
  rw [String.toList_append, Watch.read_append, Watch.read_word state rests.outside unmarked]
  exact Watch.step_blank rests.outside (by decide)

/-- A word or sign that does not matter. -/
theorem steady_sign (sign : String) (textEq : text = sign ++ " ")
    (unmarked : isUnmarked sign.toList = true) (noSign : Comparison.ofSign? sign.toList = none)
    (noParting : partings.contains sign.toList = false) : Steady text False := by
  intro seen state rests seenEq
  have ended : { state with word := state.word ++ sign.toList }.endWord =
      { state with word := [] } := by
    rcases rests.inert with isNil | named
    · exact Watch.endWord_of_no_sign (by rw [isNil]; exact noSign) (by rw [isNil]; exact noParting)
    · exact Watch.endWord_of_inert (.inr (by rw [List.any_append, named, Bool.true_or]))
  rw [textEq, read_sign state rests unmarked, ended]
  exact ⟨⟨rests.outside, .inl rfl⟩, rfl, seenEq, by simp⟩

/-- A sign with spaces around it is a word of its own. -/
theorem read_spaced (state : Watch) (rests : state.Rests) {sign : String}
    (unmarked : isUnmarked sign.toList = true) :
    state.read (" " ++ sign ++ " ").toList = { state with word := sign.toList }.endWord := by
  have ended : state.read " ".toList = { state with word := [] } := by
    rw [← rests.endWord]
    exact Watch.step_blank rests.outside (by decide)
  rw [String.append_assoc, String.toList_append, Watch.read_append, ended,
    read_sign { state with word := [] } ⟨rests.outside, .inl rfl⟩ unmarked]
  rfl

/-- The sign of a comparison makes a chain if such a comparison is open. -/
theorem carries_comparison {sign : String} (unmarked : isUnmarked sign.toList = true)
    {comparison : Comparison} (isSign : Comparison.ofSign? sign.toList = some comparison) :
    Carries (" " ++ sign ++ " ") (before comparison = true) before (before.compare comparison) := by
  intro state rests seenEq
  have ended : { state with word := sign.toList }.endWord =
      { state with word := [] }.compare comparison := by
    rw [Watch.endWord, isSign]
  rw [read_spaced state rests unmarked, ended, ← seenEq]
  refine ⟨⟨rests.outside, .inl rfl⟩, rfl, rfl, ?_⟩
  rw [Watch.compare, Bool.or_eq_true]

/-- A sign that binds less than comparisons closes everything that is open before it. -/
theorem parts_sign (text : String)
    (spaced : ∃ sign ∈ partings, text.toList = ' ' :: sign ++ [' ']) : Parts text := by
  have plain : ∀ sign ∈ partings, isUnmarked sign = true ∧ Comparison.ofSign? sign = none := by
    decide
  obtain ⟨chars, isParting, textEq⟩ := spaced
  obtain ⟨sign, rfl⟩ : ∃ sign : String, sign.toList = chars := ⟨.ofList chars, by simp⟩
  obtain rfl : text = " " ++ sign ++ " " := by
    rw [← String.toList_inj, textEq]
    simp
  obtain ⟨unmarked, noSign⟩ := plain _ isParting
  intro before state rests seenEq
  have ended : { state with word := sign.toList }.endWord = { state with word := [] }.part := by
    rw [Watch.endWord, noSign, List.contains_iff_mem.mpr isParting]
    rfl
  rw [read_spaced state rests unmarked, ended]
  exact ⟨⟨rests.outside, .inl rfl⟩, rfl, rfl, by simp [Watch.part]⟩

theorem parts_comma : Parts ", " := by
  intro before state rests seenEq
  have ended : state.read ", ".toList = { state with word := [] }.part := by
    rw [← rests.endWord]
    exact Watch.step_comma_step_blank rests.outside (by decide)
  rw [ended]
  exact ⟨⟨rests.outside, .inl rfl⟩, rfl, rfl, by simp [Watch.part]⟩

/-- A literal leaves everything open and makes no chain. -/
theorem steady_quote (value : String) : Steady (quote value) False := by
  intro seen state rests seenEq
  have readEq : state.read (quote value).toList = { state with word := [] } := by
    have opened : state.step '\'' = { state with word := [], quoting := .inside } := by
      rw [Watch.step, rests.outside, rests.endWord]
      rfl
    rw [quote, String.toList_ofList, Watch.read_cons, opened, Watch.read_append,
      Watch.read_quoted rfl, rests.outside]
    rfl
  rw [readEq]
  exact ⟨⟨rests.outside, .inl rfl⟩, rfl, seenEq, by simp⟩

/-! ## Brackets -/

/-- Brackets keep what is open outside of them, and nothing of it is open inside. -/
theorem steady_bracket (opening closing : Char) (opens : opening ∈ openings)
    (closes : closing ∈ closings)
    (textEq : text.toList = opening :: (more.toList ++ [closing])) (settles : Settles more chains) :
    Steady text chains := by
  intro seen state rests seenEq
  obtain ⟨after, carries⟩ := settles
  have entered : state.step opening = { state with word := [] }.enter := by
    rw [Watch.step_opening rests.outside opens, rests.endWord]
  have inside := carries ({ state with word := [] }.enter) ⟨rests.outside, .inl rfl⟩ rfl
  rw [textEq, Watch.read_cons, entered, Watch.read_append, Watch.read_cons, Watch.read_nil]
  generalize Watch.read _ more.toList = done at inside
  have left : done.step closing =
      { done with outer := state.outer, seen := state.seen, word := [] } := by
    rw [Watch.step_closing inside.rests.outside closes, inside.rests.endWord, Watch.leave]
    simp only [inside.outer, Watch.enter]
  rw [left]
  exact ⟨⟨inside.rests.outside, .inl rfl⟩, rfl, seenEq, inside.chained⟩

/-- A text with spaces around it can stand where it can stand by itself. -/
theorem Settles.padded (settles : Settles text chains) : Settles (" " ++ text ++ " ") chains := by
  obtain ⟨after, carries⟩ := settles
  exact ⟨after, (((steady_space fresh).append carries).append (steady_space after)).congr (by simp)⟩

/-- A text in parentheses leaves open what is open around them. -/
theorem steady_enclose (settles : Settles text chains) : Steady (enclose text) chains :=
  steady_bracket '(' ')' (by decide) (by decide) (by simp [enclose]) settles.padded

/-! ## Lists -/

section Lists

variable {α : Type} {items : List α} {textOf : α → String} {chainsIn : α → Prop}

/-- Texts with commas between them can stand where nothing is open. -/
theorem settles_join (settles : ∀ item ∈ items, Settles (textOf item) (chainsIn item)) :
    Settles (Text.join ", " (items.map textOf)) (∃ item ∈ items, chainsIn item) := by
  induction items with
  | nil => exact steady_empty.settles.congr (by simp)
  | cons item items ih =>
      rw [List.forall_mem_cons] at settles
      obtain ⟨first, later⟩ := settles
      by_cases isNil : items = []
      · subst isNil
        exact first.congr (by simp)
      · rw [List.map_cons, join_cons_of_ne_nil _ _ (by simpa using isNil)]
        exact (first.append_parts parts_comma (ih later)).congr (by simp)

theorem steady_callList (settles : ∀ item ∈ items, Settles (textOf item) (chainsIn item)) :
    Steady (callList (items.map textOf)) (∃ item ∈ items, chainsIn item) := by
  cases items with
  | nil =>
      exact steady_bracket '(' ')' (by decide) (by decide) (by simp [callList])
        (steady_empty.settles.congr (by simp))
  | cons item items => exact steady_enclose (settles_join settles)

/-! ## Arrays -/

/-- An item on its own lines is watched like one before a comma. -/
theorem read_itemLines {state : Watch} (rests : state.Rests) {item : String}
    (outside : (state.endWord.read item.toList).quoting = .outside) :
    state.read (itemLines item).toList = (state.endWord.read item.toList).endWord.part := by
  by_cases isNil : item.toList = []
  · have linesEq : (itemLines item).toList = [',', '\n'] := by
      rw [String.toList_eq_nil_iff.mp isNil]
      decide
    rw [linesEq, isNil, Watch.read_nil, Watch.endWord_endWord]
    exact Watch.step_comma_step_blank rests.outside (by decide)
  · have tab : state.step '\t' = state.endWord := Watch.step_blank rests.outside (by decide)
    have chopped := Watch.read_chop (dropReturns item.toList)
      (by rw [Watch.read_dropReturns]; exact outside)
    rw [Watch.read_dropReturns] at chopped
    rw [toList_itemLines_eq isNil, List.cons_append, Watch.read_cons, tab, Watch.read_append,
      Watch.read_deeper, Watch.read_cons, chopped]
    exact Watch.step_comma_step_blank outside (by decide)

/-- A line of an array begins and ends with nothing open. -/
theorem carries_itemLines {item : String} (settles : Settles item chains) :
    Carries (itemLines item) chains fresh fresh := by
  intro state rests seenEq
  obtain ⟨after, carries⟩ := settles
  have done := carries { state with word := [] } ⟨rests.outside, .inl rfl⟩ seenEq
  rw [← rests.endWord] at done
  rw [read_itemLines rests done.rests.outside, done.rests.endWord]
  refine ⟨⟨done.rests.outside, .inl rfl⟩, ?_, rfl, ?_⟩
  · have outer := done.outer
    rw [rests.endWord] at outer ⊢
    exact outer
  · have chained := done.chained
    rw [rests.endWord] at chained ⊢
    exact chained

theorem carries_itemsLines (settles : ∀ item ∈ items, Settles (textOf item) (chainsIn item)) :
    Carries (String.join ((items.map textOf).map itemLines)) (∃ item ∈ items, chainsIn item) fresh
      fresh := by
  induction items with
  | nil => exact (steady_empty fresh).congr (by simp)
  | cons item items ih =>
      rw [List.forall_mem_cons] at settles
      obtain ⟨first, later⟩ := settles
      rw [List.map_cons, List.map_cons, String.join_cons]
      exact ((carries_itemLines first).append (ih later)).congr (by simp)

/-- How an array is laid out does not matter. -/
theorem steady_arrayText (keyed : Nat)
    (settles : ∀ item ∈ items, Settles (textOf item) (chainsIn item)) :
    Steady (arrayText keyed (items.map textOf)) (∃ item ∈ items, chainsIn item) := by
  have word : Steady "array" False := steady_word (by decide) (by decide)
  cases items with
  | nil =>
      have opened : arrayText keyed (([] : List α).map textOf) = "array" ++ "()" := by
        rw [List.map_nil, arrayText]
        decide
      have brackets : Steady "()" False :=
        steady_bracket '(' ')' (by decide) (by decide) (by decide) steady_empty.settles
      rw [opened]
      exact (word.append brackets).congr (by simp)
  | cons item items =>
      rw [List.map_cons, arrayText]
      · split
        · have opened (middle : String) :
              "array( " ++ middle ++ " )" = "array" ++ enclose middle := by
            rw [← String.toList_inj]
            simp [enclose]
          rw [opened, ← List.map_cons]
          exact (word.append (steady_enclose (settles_join settles))).congr (by simp)
        · have opened (middle : String) :
              "array(\n" ++ middle ++ ")" = "array" ++ ("(\n" ++ middle ++ ")") := by
            rw [← String.toList_inj]
            simp
          have lineBreak : Steady "\n" False := steady_blank '\n' (by decide)
          have inside := lineBreak.append_settles ⟨fresh, carries_itemsLines settles⟩
          rw [opened, ← List.map_cons]
          refine (word.append (steady_bracket '(' ')' (by decide) (by decide) ?_ inside)).congr
            (by simp)
          simp
      · simp

end Lists

end Pieces

end RestPlugin.Php.Chains
