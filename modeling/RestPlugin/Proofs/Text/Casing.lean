import Mathlib.Data.List.Chain
import Mathlib.Data.List.DropRight
import RestPlugin.Proofs.Text.Naming

/-!
# Case conversions

Slugs are words of small letters and digits with one separator between neighbours, hence none at the
ends and no two in a row.  These last conditions are all there is to it, so a text made of such
letters and separators is a slug once no two separators meet and its ends are trimmed.

Snake case is the underscore slug of a text in which the words are marked: an underscore is put
before each capital letter behind a small letter or digit.  So what holds of underscore slugs holds
of snake case: the result follows the grammar, has the letters and digits of the text and no others,
and is not changed when it is converted again.  Pascal case keeps the letters and digits as they
are, up to those that begin a run of them.
-/

namespace RestPlugin.Text

/-! ## Words with separators between them -/

/-- The characters of the words of a slug, `[a-z0-9]`. -/
def isSlugLetter (c : Char) : Bool := isLower c || isDigit c

/-- The grammar `[a-z0-9]+(sep[a-z0-9]+)*`. -/
inductive Separated (sep : Char) : List Char → Prop
  | single {c : Char} (letter : isSlugLetter c = true) : Separated sep [c]
  | letter {c : Char} {rest : List Char} (letter : isSlugLetter c = true)
      (later : Separated sep rest) : Separated sep (c :: rest)
  | separator {c : Char} {rest : List Char} (letter : isSlugLetter c = true)
      (later : Separated sep rest) : Separated sep (c :: sep :: rest)

/-- A separated word has letters and the separator only. -/
theorem Separated.mem {sep c : Char} {l : List Char} (separated : Separated sep l)
    (member : c ∈ l) : isSlugLetter c = true ∨ c = sep := by
  induction separated with
  | single letter => exact .inl (List.mem_singleton.mp member ▸ letter)
  | letter letter _ ih =>
      rcases List.mem_cons.mp member with rfl | later
      · exact .inl letter
      · exact ih later
  | separator letter _ ih =>
      rcases List.mem_cons.mp member with rfl | later
      · exact .inl letter
      · rcases List.mem_cons.mp later with rfl | later
        · exact .inr rfl
        · exact ih later

/-! ## Letters of slugs -/

theorem isAlnum_of_isSlugLetter {c : Char} (letter : isSlugLetter c = true) :
    isAlnum c = true := by
  rcases Bool.or_eq_true_iff.mp letter with isLower | isDigit
  · simp [isAlnum, isLetter, isLower]
  · simp [isAlnum, isDigit]

theorem lower_of_isSlugLetter {c : Char} (letter : isSlugLetter c = true) : lower c = c :=
  forall_isAlnum (p := fun c => isSlugLetter c = true → lower c = c) (by decide +kernel)
    (isAlnum_of_isSlugLetter letter) letter

theorem isUpper_of_isSlugLetter {c : Char} (letter : isSlugLetter c = true) : isUpper c = false :=
  forall_isAlnum (p := fun c => isSlugLetter c = true → isUpper c = false) (by decide +kernel)
    (isAlnum_of_isSlugLetter letter) letter

theorem isSlugLetter_lower {c : Char} (alnum : isAlnum c = true) : isSlugLetter (lower c) = true :=
  forall_isAlnum (p := fun c => isSlugLetter (lower c) = true) (by decide +kernel) alnum

theorem ne_of_isSlugLetter {c sep : Char} (letter : isSlugLetter c = true)
    (notLetter : isSlugLetter sep = false) : c ≠ sep := by
  rintro rfl
  rw [letter] at notLetter
  cases notLetter

/-! ## Slugs by their neighbours -/

variable {sep c : Char} {out l : List Char} {p : Char → Bool}

/-- No two separators stand next to each other. -/
def SingleSeparators (sep : Char) (l : List Char) : Prop :=
  l.IsChain fun first second => first = sep → second ≠ sep

theorem SingleSeparators.cons_of_ne {c : Char} (single : SingleSeparators sep l) (other : c ≠ sep) :
    SingleSeparators sep (c :: l) :=
  List.isChain_cons.mpr ⟨fun _ _ isSep => absurd isSep other, single⟩

theorem SingleSeparators.cons_of_head? {c : Char} (single : SingleSeparators sep l)
    (first : l.head? ≠ some sep) : SingleSeparators sep (c :: l) := by
  refine List.isChain_cons.mpr ⟨fun second isFirst _ isSep => ?_, single⟩
  rw [isSep] at isFirst
  exact first isFirst

/-- Separators are single in either direction. -/
theorem SingleSeparators.reverse (single : SingleSeparators sep l) :
    SingleSeparators sep l.reverse := by
  refine List.isChain_reverse.mpr (List.IsChain.imp ?_ single)
  exact fun first second apart isSecond isFirst => apart isFirst isSecond

theorem SingleSeparators.dropWhile (single : SingleSeparators sep l) (p : Char → Bool) :
    SingleSeparators sep (l.dropWhile p) :=
  List.IsChain.suffix single (List.dropWhile_suffix p)

/-- Trimming keeps separators single. -/
theorem SingleSeparators.trimBy (single : SingleSeparators sep l) (p : Char → Bool) :
    SingleSeparators sep (trimBy p l) :=
  ((single.dropWhile p).reverse.dropWhile p).reverse

/-- What is written in letters and single separators is a slug if it begins and ends with a
letter. -/
theorem separated_of_singleSeparators {sep : Char} {l : List Char} (nonempty : l ≠ [])
    (chars : ∀ c ∈ l, isSlugLetter c = true ∨ c = sep) (single : SingleSeparators sep l)
    (first : l.head? ≠ some sep) (last : l.getLast? ≠ some sep) : Separated sep l := by
  -- A letter is taken together with the separator behind it, so that the rest begins with a letter.
  match l with
  | [] => exact absurd rfl nonempty
  | [c] =>
      rw [List.forall_mem_singleton] at chars
      exact .single (chars.resolve_right fun isSep => first (congrArg some isSep))
  | c :: d :: rest =>
      obtain ⟨charC, charD, chars⟩ :=
        And.imp_right List.forall_mem_cons.mp (List.forall_mem_cons.mp chars)
      have letter : isSlugLetter c = true :=
        charC.resolve_right fun isSep => first (congrArg some isSep)
      have later : SingleSeparators sep (d :: rest) := List.IsChain.tail single
      by_cases isSep : d = sep
      · subst isSep
        cases rest with
        | nil => exact absurd rfl last
        | cons e rest =>
            have apart : e ≠ d := (List.isChain_cons_cons.mp later).1 rfl
            have rest := separated_of_singleSeparators (List.cons_ne_nil e rest) chars
              (List.IsChain.tail later) (by simpa using apart) (by simpa using last)
            exact .separator letter rest
      · have rest := separated_of_singleSeparators (List.cons_ne_nil d rest)
          (List.forall_mem_cons.mpr ⟨charD, chars⟩) later (by simpa using isSep)
          (by simpa using last)
        exact .letter letter rest

/-! ## Trimming -/

theorem of_head?_dropWhile (first : (l.dropWhile p).head? = some c) : p c = false := by
  have stops := List.head?_dropWhile_not p l
  rw [first] at stops
  exact stops

theorem of_getLast?_trimBy (last : (trimBy p l).getLast? = some c) : p c = false := by
  rw [trimBy, List.getLast?_reverse] at last
  exact of_head?_dropWhile last

theorem of_head?_trimBy (first : (trimBy p l).head? = some c) : p c = false := by
  obtain ⟨rest, trimmedEq⟩ := List.head?_eq_some_iff.mp first
  have kept : c :: rest <+: l.dropWhile p := by
    rw [← trimmedEq]
    exact List.rdropWhile_prefix p (l.dropWhile p)
  obtain ⟨after, keptEq⟩ := kept
  exact of_head?_dropWhile (by rw [← keptEq]; rfl)

/-- What is written in letters and single separators is a slug once its ends are trimmed, unless it
has no letters. -/
theorem separated_trimBy (chars : ∀ c ∈ l, isSlugLetter c = true ∨ c = sep)
    (single : SingleSeparators sep l) :
    trimBy (· == sep) l = [] ∨ Separated sep (trimBy (· == sep) l) := by
  by_cases isNil : trimBy (· == sep) l = []
  · exact .inl isNil
  · right
    refine separated_of_singleSeparators isNil (fun c member => chars c (mem_of_mem_trimBy member))
      (single.trimBy _) ?_ ?_
    · intro first
      simpa using of_head?_trimBy first
    · intro last
      simpa using of_getLast?_trimBy last

theorem Separated.exists_cons (separated : Separated sep l) :
    ∃ c rest, l = c :: rest ∧ isSlugLetter c = true := by
  cases separated with
  | single letter => exact ⟨_, _, rfl, letter⟩
  | letter letter _ => exact ⟨_, _, rfl, letter⟩
  | separator letter _ => exact ⟨_, _, rfl, letter⟩

theorem Separated.exists_concat (separated : Separated sep l) :
    ∃ before c, l = before ++ [c] ∧ isSlugLetter c = true := by
  induction separated with
  | @single c letter => exact ⟨[], c, rfl, letter⟩
  | @letter c _ _ _ ih =>
      obtain ⟨before, last, rfl, lastLetter⟩ := ih
      exact ⟨c :: before, last, rfl, lastLetter⟩
  | @separator c _ _ _ ih =>
      obtain ⟨before, last, rfl, lastLetter⟩ := ih
      exact ⟨c :: sep :: before, last, rfl, lastLetter⟩

/-- Trimming takes nothing from a slug. -/
theorem Separated.trimBy_eq (separated : Separated sep l)
    (kept : ∀ c, isSlugLetter c = true → p c = false) : Text.trimBy p l = l := by
  have start : l.dropWhile p = l := by
    obtain ⟨c, rest, rfl, letter⟩ := separated.exists_cons
    exact List.dropWhile_cons_of_neg (by simp [kept c letter])
  have stop : l.reverse.dropWhile p = l.reverse := by
    obtain ⟨before, c, rfl, letter⟩ := separated.exists_concat
    rw [List.reverse_append, List.reverse_singleton, List.singleton_append]
    exact List.dropWhile_cons_of_neg (by simp [kept c letter])
  rw [Text.trimBy, start, stop, List.reverse_reverse]

/-! ## Writing slugs -/

/-- A scan that writes letters as they are, and a separator behind a letter, writes a slug as it
stands. -/
theorem foldl_of_separated {write : List Char → Char → List Char}
    (letters : ∀ out c, isSlugLetter c = true → write out c = c :: out)
    (separators : ∀ out c, isSlugLetter c = true → write (c :: out) sep = sep :: c :: out)
    (separated : Separated sep l) (out : List Char) : l.foldl write out = l.reverse ++ out := by
  induction separated generalizing out with
  | single letter => exact letters out _ letter
  | letter letter _ ih =>
      rw [List.foldl_cons, letters out _ letter, ih, List.reverse_cons, List.append_assoc,
        List.singleton_append]
  | separator letter _ ih =>
      rw [List.foldl_cons, List.foldl_cons, letters out _ letter, separators out _ letter, ih]
      simp

/-! ## Underscore slugs -/

/-- What the scan for an underscore slug does with one character. -/
def underscoreStep (out : List Char) (c : Char) : List Char :=
  if isAlnum c then lower c :: out
  else if out.isEmpty || out.head? == some '_' then out else '_' :: out

/-- The scan takes one step for each character. -/
theorem slugScan_eq_foldl (out l : List Char) : slugScan out l = l.foldl underscoreStep out := by
  induction l generalizing out with
  | nil => rfl
  | cons c rest ih =>
      rw [slugScan, List.foldl_cons, underscoreStep]
      split
      · exact ih _
      · exact ih _

theorem underscoreStep_of_isAlnum (alnum : isAlnum c = true) (out : List Char) :
    underscoreStep out c = lower c :: out :=
  if_pos alnum

/-- Behind a letter or digit, any other character is written as an underscore. -/
theorem underscoreStep_of_head? (other : isAlnum c = false) (nonempty : out ≠ [])
    (first : out.head? ≠ some '_') : underscoreStep out c = '_' :: out := by
  rw [underscoreStep, if_neg (by simp [other]), if_neg (by simp [nonempty, first])]

theorem lower_ne_underscore (alnum : isAlnum c = true) : lower c ≠ '_' :=
  ne_of_isSlugLetter (isSlugLetter_lower alnum) (by decide)

theorem singleSeparators_underscoreStep (single : SingleSeparators '_' out) (c : Char) :
    SingleSeparators '_' (underscoreStep out c) := by
  rw [underscoreStep]
  split
  · rename_i alnum
    exact single.cons_of_ne (lower_ne_underscore alnum)
  · split
    · exact single
    · rename_i apart
      rw [Bool.or_eq_true, beq_iff_eq, not_or] at apart
      exact single.cons_of_head? apart.2

/-- Nothing but a letter or digit is written first. -/
theorem getLast?_underscoreStep_ne (last : out.getLast? ≠ some '_') (c : Char) :
    (underscoreStep out c).getLast? ≠ some '_' := by
  rw [underscoreStep]
  split
  · rename_i alnum
    cases out with
    | nil => simpa using lower_ne_underscore alnum
    | cons d out => simpa using last
  · split
    · exact last
    · rename_i apart
      cases out with
      | nil => simp at apart
      | cons d out => simpa using last

theorem singleSeparators_slugScan (l : List Char) : SingleSeparators '_' (slugScan [] l) := by
  rw [slugScan_eq_foldl]
  exact List.foldlRecOn l _ List.isChain_nil fun _ single c _ =>
    singleSeparators_underscoreStep single c

theorem getLast?_slugScan_ne (l : List Char) : (slugScan [] l).getLast? ≠ some '_' := by
  rw [slugScan_eq_foldl]
  exact List.foldlRecOn (motive := fun out : List Char => out.getLast? ≠ some '_') l _ (by simp)
    fun _ last c _ => getLast?_underscoreStep_ne last c

/-- As nothing is to be trimmed at its beginning, the slug is what was written with both ends
trimmed. -/
theorem slugChars_eq_trimBy (l : List Char) :
    slugChars l = trimBy (· == '_') (slugScan [] l).reverse := by
  have start : (slugScan [] l).reverse.dropWhile (· == '_') = (slugScan [] l).reverse := by
    have first := getLast?_slugScan_ne l
    rw [← List.head?_reverse] at first
    generalize (slugScan [] l).reverse = written at first
    cases written with
    | nil => rfl
    | cons c rest => exact List.dropWhile_cons_of_neg (by simpa using first)
  rw [slugChars, trimBy, start, List.reverse_reverse]

theorem separated_slugChars (l : List Char) : slugChars l = [] ∨ Separated '_' (slugChars l) := by
  rw [slugChars_eq_trimBy]
  refine separated_trimBy ?_ (singleSeparators_slugScan l).reverse
  intro c member
  simpa [isUnderscoreChar, isSlugLetter] using
    isUnderscoreChar_of_mem_slugScan (List.forall_mem_nil _) c (List.mem_reverse.mp member)

/-- The letters and digits that are written are those of the text. -/
theorem filter_slugScan (out l : List Char) :
    (slugScan out l).filter (· != '_') =
      ((l.filter isAlnum).map lower).reverse ++ out.filter (· != '_') := by
  induction l generalizing out with
  | nil => rfl
  | cons c rest ih =>
      rw [slugScan]
      split
      · rename_i alnum
        rw [ih, List.filter_cons_of_pos (by simpa using lower_ne_underscore alnum),
          List.filter_cons_of_pos alnum, List.map_cons, List.reverse_cons, List.append_assoc,
          List.singleton_append]
      · rename_i other
        rw [List.filter_cons_of_neg other, ih]
        split
        · rfl
        · rw [List.filter_cons_of_neg (by simp)]

theorem filter_dropWhile_underscore (l : List Char) :
    (l.dropWhile (· == '_')).filter (· != '_') = l.filter (· != '_') := by
  induction l with
  | nil => rfl
  | cons c rest ih =>
      by_cases isUnderscore : c = '_'
      · subst isUnderscore
        rw [List.dropWhile_cons_of_pos (by simp), ih, List.filter_cons_of_neg (by simp)]
      · rw [List.dropWhile_cons_of_neg (by simpa using isUnderscore)]

theorem filter_slugChars (l : List Char) :
    (slugChars l).filter (· != '_') = (l.filter isAlnum).map lower := by
  rw [slugChars, List.filter_reverse, filter_dropWhile_underscore, filter_slugScan, List.filter_nil,
    List.append_nil, List.reverse_reverse]

/-- Letters with single underscores between them are their own slug. -/
theorem slugChars_of_separated (separated : Separated '_' l) : slugChars l = l := by
  have letters (out : List Char) (c : Char) (letter : isSlugLetter c = true) :
      underscoreStep out c = c :: out := by
    rw [underscoreStep_of_isAlnum (isAlnum_of_isSlugLetter letter), lower_of_isSlugLetter letter]
  have separators (out : List Char) (c : Char) (letter : isSlugLetter c = true) :
      underscoreStep (c :: out) '_' = '_' :: c :: out :=
    underscoreStep_of_head? (by decide) (List.cons_ne_nil _ _)
      (by simpa using ne_of_isSlugLetter letter (by decide))
  rw [slugChars_eq_trimBy, slugScan_eq_foldl, foldl_of_separated letters separators separated,
    List.append_nil, List.reverse_reverse, separated.trimBy_eq fun c letter =>
      beq_eq_false_iff_ne.mpr (ne_of_isSlugLetter letter (by decide))]

/-! ## Snake case -/

/-- Whether a capital letter starts a word inside of a run. -/
def startsWord (previous : Option Char) (c : Char) : Bool :=
  isUpper c && previous.any fun p => isLower p || isDigit p

/-- Puts an underscore before each capital letter that starts a word inside of a run. -/
def markWords : Option Char → List Char → List Char
  | _, [] => []
  | previous, c :: rest =>
      if isAlnum c then
        if startsWord previous c then '_' :: c :: markWords (some c) rest
        else c :: markWords (some c) rest
      else c :: markWords none rest

theorem markWords_of_forall (previous : Option Char) (small : ∀ c ∈ l, isUpper c = false) :
    markWords previous l = l := by
  induction l generalizing previous with
  | nil => rfl
  | cons c rest ih =>
      rw [List.forall_mem_cons] at small
      rw [markWords, startsWord, small.1, ih _ small.2, ih _ small.2]
      split
      · rfl
      · rfl

/-- Marking words keeps the letters and digits. -/
theorem filter_markWords (previous : Option Char) (l : List Char) :
    (markWords previous l).filter isAlnum = l.filter isAlnum := by
  have dropped : ¬isAlnum '_' = true := by decide
  induction l generalizing previous with
  | nil => rfl
  | cons c rest ih =>
      rw [markWords]
      split
      · rename_i alnum
        split
        · rw [List.filter_cons_of_neg dropped, List.filter_cons_of_pos alnum, ih,
            List.filter_cons_of_pos alnum]
        · rw [List.filter_cons_of_pos alnum, ih, List.filter_cons_of_pos alnum]
      · rename_i other
        rw [List.filter_cons_of_neg other, ih, List.filter_cons_of_neg other]

/-- A letter or digit is written in lower case, behind an underscore if it starts a word. -/
theorem snakeScan_cons_of_isAlnum (alnum : isAlnum c = true) (previous : Option Char)
    (rest : List Char) : snakeScan out previous (c :: rest) =
      snakeScan
        (lower c :: if startsWord previous c && out.head? != some '_' then '_' :: out else out)
        (some c) rest := by
  rw [snakeScan, if_pos alnum]
  rfl

/-- The scan writes the slug of the marked text.  Where a word starts inside of a run something was
written before, so its underscore is not the first character. -/
theorem snakeScan_eq_slugScan {previous : Option Char}
    (written : previous.isSome = true → out ≠ []) :
    snakeScan out previous l = slugScan out (markWords previous l) := by
  induction l generalizing out previous with
  | nil => rfl
  | cons c rest ih =>
      by_cases alnum : isAlnum c = true
      · have letter (out : List Char) : slugScan out (c :: markWords (some c) rest) =
            slugScan (lower c :: out) (markWords (some c) rest) := by
          rw [slugScan, if_pos alnum]
        rw [snakeScan_cons_of_isAlnum alnum, markWords, if_pos alnum,
          ih fun _ => List.cons_ne_nil _ _]
        by_cases starts : startsWord previous c = true
        · have nonempty : out ≠ [] := by
            refine written ?_
            cases previous with
            | none => simp [startsWord] at starts
            | some p => rfl
          have underscore : ¬isAlnum '_' = true := by decide
          rw [starts, if_pos rfl, Bool.true_and, slugScan, if_neg underscore, letter]
          by_cases first : out.head? = some '_'
          · rw [if_neg (by simp [first]), if_pos (by simp [first])]
          · rw [if_pos (by simpa using first), if_neg (by simp [nonempty, first])]
        · rw [if_neg (by simp [starts]), if_neg starts, letter]
      · rw [snakeScan, if_neg alnum, markWords, if_neg alnum, slugScan, if_neg alnum]
        exact ih (by simp)

theorem snakeChars_eq (l : List Char) : snakeChars l = slugChars (markWords none l) := by
  rw [snakeChars, slugChars, snakeScan_eq_slugScan (by simp)]

theorem snakeChars_of_separated (separated : Separated '_' l) : snakeChars l = l := by
  have small : ∀ c ∈ l, isUpper c = false := by
    intro c member
    rcases separated.mem member with letter | rfl
    · exact isUpper_of_isSlugLetter letter
    · decide
  rw [snakeChars_eq, markWords_of_forall none small, slugChars_of_separated separated]

/-! ## Pascal case -/

/-- The characters of a text, each with the one before it. -/
def withPrevious (previous : Option Char) (l : List Char) : List (Option Char × Char) :=
  (previous :: l.map some).zip l

/-- The letters and digits of a text that stands behind `previous`.  The first of each run is in
upper case. -/
def capitalRuns (previous : Option Char) (l : List Char) : List Char :=
  ((withPrevious previous l).filter fun entry => isAlnum entry.2).map fun entry =>
    if entry.1.any isAlnum then entry.2 else upper entry.2

theorem capitalRuns_cons_of_isAlnum (alnum : isAlnum c = true) (previous : Option Char)
    (rest : List Char) : capitalRuns previous (c :: rest) =
      (if previous.any isAlnum then c else upper c) :: capitalRuns (some c) rest := by
  simp [capitalRuns, withPrevious, alnum]

theorem capitalRuns_cons_of_not_isAlnum (other : ¬isAlnum c = true) (previous : Option Char)
    (rest : List Char) : capitalRuns previous (c :: rest) = capitalRuns (some c) rest := by
  simp [capitalRuns, withPrevious, other]

/-- The pieces between the other characters are the runs of letters and digits.  At the beginning of
a run the first piece is capitalised, and inside of one it is kept. -/
theorem flatMap_capitalise_splitBy (l : List Char) :
    (∀ previous : Option Char, previous.any isAlnum = false →
      (splitBy (fun c => !isAlnum c) l).flatMap capitalise = capitalRuns previous l) ∧
    ∀ previous : Option Char, previous.any isAlnum = true → ∀ first later,
      splitBy (fun c => !isAlnum c) l = first :: later →
        first ++ later.flatMap capitalise = capitalRuns previous l := by
  induction l with
  | nil => exact ⟨fun _ _ => rfl, by rintro _ _ first later ⟨⟩; rfl⟩
  | cons c rest ih =>
      by_cases alnum : isAlnum c = true
      · obtain ⟨piece, pieces, piecesEq⟩ :=
          List.exists_cons_of_ne_nil (splitBy_ne_nil (fun c => !isAlnum c) rest)
        have inside := ih.2 (some c) alnum piece pieces piecesEq
        have pieceFirst : splitBy (fun c => !isAlnum c) (c :: rest) = (c :: piece) :: pieces := by
          rw [splitBy, if_neg (by simp [alnum]), piecesEq]
        refine ⟨fun previous starts => ?_, fun previous within first later split => ?_⟩
        · rw [pieceFirst, List.flatMap_cons, capitalise_cons alnum, List.cons_append, inside,
            capitalRuns_cons_of_isAlnum alnum, if_neg (by simp [starts])]
        · obtain ⟨rfl, rfl⟩ := List.cons.inj (pieceFirst.symm.trans split)
          rw [List.cons_append, inside, capitalRuns_cons_of_isAlnum alnum, if_pos within]
      · have emptyFirst : splitBy (fun c => !isAlnum c) (c :: rest) =
            [] :: splitBy (fun c => !isAlnum c) rest := by
          rw [splitBy, if_pos (by simpa using alnum)]
        have between := ih.1 (some c) (by simpa using alnum)
        refine ⟨fun previous _ => ?_, fun previous _ first later split => ?_⟩
        · rw [emptyFirst, List.flatMap_cons, between, capitalRuns_cons_of_not_isAlnum alnum]
          rfl
        · obtain ⟨rfl, rfl⟩ := List.cons.inj (emptyFirst.symm.trans split)
          rw [between, capitalRuns_cons_of_not_isAlnum alnum, List.nil_append]

theorem toList_pascalCase (s : String) : (pascalCase s).toList = capitalRuns none s.toList := by
  have filled (pieces : List (List Char)) :
      (pieces.filter fun word => !word.isEmpty).flatMap capitalise = pieces.flatMap capitalise := by
    induction pieces with
    | nil => rfl
    | cons piece pieces ih =>
        cases piece with
        | nil => rw [List.filter_cons_of_neg (by simp), ih, List.flatMap_cons]; rfl
        | cons c piece => rw [List.filter_cons_of_pos (by simp), List.flatMap_cons, ih,
            List.flatMap_cons]
  rw [pascalCase, String.toList_ofList, words, filled]
  exact (flatMap_capitalise_splitBy s.toList).1 none rfl

/-! ## The conversions -/

/-- A conversion of any text into words with underscores between them.  It follows the grammar,
keeps the letters and digits, and leaves what it has converted as it is. -/
structure UnderscoreConversion (convert : String → String) : Prop where
  grammar (s : String) : convert s = "" ∨ Separated '_' (convert s).toList
  letters (s : String) :
    (convert s).toList.filter (· != '_') = (s.toList.filter isAlnum).map lower
  fixed (s : String) : convert (convert s) = convert s

/-- A conversion by characters that follows the grammar and leaves words with underscores as they
are. -/
theorem underscoreConversion_of_chars {convert : List Char → List Char} (empty : convert [] = [])
    (grammar : ∀ l, convert l = [] ∨ Separated '_' (convert l))
    (letters : ∀ l, (convert l).filter (· != '_') = (l.filter isAlnum).map lower)
    (fixed : ∀ l, Separated '_' l → convert l = l) :
    UnderscoreConversion fun s => String.ofList (convert s.toList) where
  grammar s := by
    rw [String.toList_ofList]
    exact (grammar s.toList).imp_left fun isNil => by rw [isNil]
  letters s := by rw [String.toList_ofList, letters]
  fixed s := by
    rw [String.toList_ofList]
    rcases grammar s.toList with isNil | separated
    · rw [isNil, empty]
    · rw [fixed _ separated]

/-- Snake case and underscore slugs are words of small letters and digits with single underscores,
have the letters and digits of the text in lower case, and are left as they are when they are
converted again.  Pascal case is the letters and digits of the text, each as it was but for the
first of every run, which is in upper case. -/
theorem conversions_regular :
    UnderscoreConversion snakeCase ∧ UnderscoreConversion underscoreSlug ∧
      ∀ s : String, (pascalCase s).toList =
        ((withPrevious none s.toList).filter fun entry => isAlnum entry.2).map fun entry =>
          if entry.1.any isAlnum then entry.2 else upper entry.2 := by
  refine ⟨underscoreConversion_of_chars rfl ?_ ?_ fun _ => snakeChars_of_separated,
    underscoreConversion_of_chars rfl separated_slugChars filter_slugChars
      fun _ => slugChars_of_separated,
    toList_pascalCase⟩
  · intro l
    rw [snakeChars_eq]
    exact separated_slugChars _
  · intro l
    rw [snakeChars_eq, filter_slugChars, filter_markWords]

end RestPlugin.Text
