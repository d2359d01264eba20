import Mathlib.Data.List.TakeWhile
import RestPlugin.Proofs.Path
import RestPlugin.Text.Slug

/-!
# Characters of generated names

Pascal case keeps ASCII letters and digits only, and so do the segments of a namespace.  Putting the
first letter into upper case makes no digit of it and no digit of anything else, so a generated name
begins with a digit exactly if what it is made from does.
-/

namespace RestPlugin.Text

/-- Whether a text begins with a digit. -/
def startsWithDigit (text : String) : Bool := text.toList.head?.any isDigit

/-! ## Upper case -/

theorem forall_ascii {p : Char → Prop} (each : ∀ n < 0x80, p (Char.ofNat n)) {c : Char}
    (ascii : c.toNat < 0x80) : p c := by
  rw [← Char.ofNat_toNat c]
  exact each c.toNat ascii

theorem toNat_lt_of_isAlnum {c : Char} (alnum : isAlnum c = true) : c.toNat < 0x80 := by
  simp only [isAlnum, isLetter, isUpper, isLower, isDigit, Bool.or_eq_true, Bool.and_eq_true,
    decide_eq_true_eq, Char.le_def, UInt32.le_iff_toNat_le] at alnum
  have upperEnd : 'Z'.val.toNat = 90 := rfl
  have lowerEnd : 'z'.val.toNat = 122 := rfl
  have digitEnd : '9'.val.toNat = 57 := rfl
  change c.val.toNat < 128
  omega

/-- What is seen of each ASCII letter and digit by looking at it. -/
theorem forall_isAlnum {p : Char → Prop}
    (each : ∀ n < 0x80, isAlnum (Char.ofNat n) = true → p (Char.ofNat n)) {c : Char}
    (alnum : isAlnum c = true) : p c :=
  forall_ascii (p := fun c => isAlnum c = true → p c) each (toNat_lt_of_isAlnum alnum) alnum

theorem isBlank_of_isAlnum {c : Char} (alnum : isAlnum c = true) : isBlank c = false :=
  forall_isAlnum (p := fun c => isBlank c = false) (by decide +kernel) alnum

theorem isAlnum_upper {c : Char} (alnum : isAlnum c = true) : isAlnum (upper c) = true :=
  forall_isAlnum (p := fun c => isAlnum (upper c) = true) (by decide +kernel) alnum

theorem isDigit_upper {c : Char} (alnum : isAlnum c = true) : isDigit (upper c) = isDigit c :=
  forall_isAlnum (p := fun c => isDigit (upper c) = isDigit c) (by decide +kernel) alnum

theorem capitalise_cons {c : Char} {rest : List Char} (alnum : isAlnum c = true) :
    capitalise (c :: rest) = upper c :: rest := by
  rw [capitalise, fullUpper, if_pos (toNat_lt_of_isAlnum alnum), List.singleton_append]

theorem isAlnum_of_mem_capitalise {word : List Char} (alnum : ∀ c ∈ word, isAlnum c = true) :
    ∀ c ∈ capitalise word, isAlnum c = true := by
  cases word with
  | nil => simp [capitalise]
  | cons c rest =>
      rw [List.forall_mem_cons] at alnum
      rw [capitalise_cons alnum.1, List.forall_mem_cons]
      exact ⟨isAlnum_upper alnum.1, alnum.2⟩

theorem startsWithDigit_capitalise {word : List Char} (alnum : ∀ c ∈ word, isAlnum c = true) :
    startsWithDigit (String.ofList (capitalise word)) = startsWithDigit (String.ofList word) := by
  cases word with
  | nil => rfl
  | cons c rest =>
      have first := alnum c List.mem_cons_self
      simp [startsWithDigit, capitalise_cons first, isDigit_upper first]

/-! ## Pascal case -/

/-- Pascal case has letters and digits only. -/
theorem isAlnum_of_mem_pascalCase (name : String) :
    ∀ c ∈ (pascalCase name).toList, isAlnum c = true := by
  intro c member
  rw [pascalCase, String.toList_ofList, List.mem_flatMap] at member
  obtain ⟨word, wordMem, inWord⟩ := member
  refine isAlnum_of_mem_capitalise ?_ c inWord
  intro d inWord
  simpa using not_of_mem_splitBy (List.mem_of_mem_filter wordMem) d inWord

/-! ## Snake case -/

theorem isWord_lower {c : Char} (alnum : isAlnum c = true) : isWord (lower c) = true :=
  forall_isAlnum (p := fun c => isWord (lower c) = true) (by decide +kernel) alnum

theorem isWord_of_mem_snakeScan {out rest : List Char} {previous : Option Char}
    (word : ∀ c ∈ out, isWord c = true) : ∀ c ∈ snakeScan out previous rest, isWord c = true := by
  induction rest generalizing out previous with
  | nil => exact word
  | cons c rest ih =>
      have underscored : ∀ d ∈ '_' :: out, isWord d = true := List.forall_mem_cons.mpr ⟨rfl, word⟩
      rw [snakeScan]
      split
      · rename_i alnum
        refine ih (List.forall_mem_cons.mpr ⟨isWord_lower alnum, ?_⟩)
        split
        · exact underscored
        · exact word
      · refine ih ?_
        split
        · exact word
        · exact underscored

theorem isWord_of_mem_snakeCase {name : String} :
    ∀ c ∈ (snakeCase name).toList, isWord c = true := by
  intro c member
  rw [snakeCase, String.toList_ofList, snakeChars, List.mem_reverse] at member
  exact isWord_of_mem_snakeScan (List.forall_mem_nil _) c ((List.dropWhile_sublist _).mem member)

/-- A snake case does not end with an underscore. -/
theorem snakeCase_ne_append_underscore (name before : String) : snakeCase name ≠ before ++ "_" := by
  intro same
  have last : (snakeCase name).toList.getLast? = some '_' := by
    rw [same, String.toList_append]
    exact List.getLast?_concat
  rw [snakeCase, String.toList_ofList, snakeChars, List.getLast?_reverse] at last
  have first := List.head?_dropWhile_not (· == '_') (snakeScan [] none name.toList)
  rw [last] at first
  cases first

/-! ## Underscore slugs -/

/-- The characters of an underscore slug. -/
def isUnderscoreChar (c : Char) : Bool := isLower c || isDigit c || c == '_'

theorem isUnderscoreChar_lower {c : Char} (alnum : isAlnum c = true) :
    isUnderscoreChar (lower c) = true :=
  forall_isAlnum (p := fun c => isUnderscoreChar (lower c) = true) (by decide +kernel) alnum

theorem toNat_lt_of_isUnderscoreChar {c : Char} (underscored : isUnderscoreChar c = true) :
    c.toNat < 0x80 := by
  simp only [isUnderscoreChar, Bool.or_eq_true, beq_iff_eq] at underscored
  rcases underscored with (isLower | isDigit) | rfl
  · exact toNat_lt_of_isAlnum (by simp [isAlnum, isLetter, isLower])
  · exact toNat_lt_of_isAlnum (by simp [isAlnum, isDigit])
  · decide

theorem isUnderscoreChar_of_mem_slugScan {out rest : List Char}
    (written : ∀ c ∈ out, isUnderscoreChar c = true) :
    ∀ c ∈ slugScan out rest, isUnderscoreChar c = true := by
  induction rest generalizing out with
  | nil => exact written
  | cons c rest ih =>
      rw [slugScan]
      split
      · rename_i alnum
        exact ih (List.forall_mem_cons.mpr ⟨isUnderscoreChar_lower alnum, written⟩)
      · refine ih ?_
        split
        · exact written
        · exact List.forall_mem_cons.mpr ⟨rfl, written⟩

theorem isUnderscoreChar_of_mem_underscoreSlug {name : String} :
    ∀ c ∈ (underscoreSlug name).toList, isUnderscoreChar c = true := by
  intro c member
  rw [underscoreSlug, String.toList_ofList, slugChars, List.mem_reverse] at member
  exact isUnderscoreChar_of_mem_slugScan (List.forall_mem_nil _) c
    ((List.dropWhile_sublist _).mem member)

/-- Nothing that was written is taken back. -/
theorem suffix_slugScan (out rest : List Char) : out <:+ slugScan out rest := by
  induction rest generalizing out with
  | nil => exact List.suffix_rfl
  | cons c rest ih =>
      rw [slugScan]
      split
      · exact (List.suffix_cons _ _).trans (ih _)
      · refine List.IsSuffix.trans ?_ (ih _)
        split
        · exact List.suffix_rfl
        · exact List.suffix_cons _ _

/-- The slug of a text that begins with a letter or digit is not empty. -/
theorem underscoreSlug_ne_empty {name : String} {c : Char} (first : name.toList.head? = some c)
    (alnum : isAlnum c = true) : underscoreSlug name ≠ "" := by
  obtain ⟨rest, charsEq⟩ := List.head?_eq_some_iff.mp first
  have written : lower c ∈ slugScan [] name.toList := by
    rw [charsEq, slugScan, if_pos alnum]
    exact (suffix_slugScan [lower c] rest).mem List.mem_cons_self
  have notUnderscore : lower c ≠ '_' :=
    forall_isAlnum (p := fun c => lower c ≠ '_') (by decide +kernel) alnum
  intro isEmpty
  rw [underscoreSlug, ← String.toList_inj, String.toList_ofList, slugChars] at isEmpty
  have allUnderscores := List.dropWhile_eq_nil_iff.mp (List.reverse_eq_nil_iff.mp isEmpty)
  exact notUnderscore (by simpa using allUnderscores _ written)

/-! ## Namespaces -/

/-- The characters of a slug. -/
def isSlugChar (c : Char) : Bool := isLower c || isDigit c || c == '-'

theorem isAlnum_of_isSlugChar {c : Char} (slug : isSlugChar c = true) (notDash : c ≠ '-') :
    isAlnum c = true := by
  simp only [isSlugChar, Bool.or_eq_true, beq_iff_eq] at slug
  rcases slug with (isLower | isDigit) | isDash
  · simp [isAlnum, isLetter, isLower]
  · simp [isAlnum, isDigit]
  · exact absurd isDash notDash

theorem mem_of_mem_trimBy {p : Char → Bool} {l : List Char} {c : Char}
    (member : c ∈ trimBy p l) : c ∈ l := by
  rw [trimBy, List.mem_reverse] at member
  have kept := (List.dropWhile_suffix p).subset member
  rw [List.mem_reverse] at kept
  exact (List.dropWhile_suffix p).subset kept

theorem isSlugChar_of_mem_foldl {l out : List Char} (slug : ∀ c ∈ out, isSlugChar c = true) :
    ∀ c ∈ l.foldl slugStep out, isSlugChar c = true := by
  induction l generalizing out with
  | nil => exact slug
  | cons c rest ih =>
      rw [List.foldl_cons]
      apply ih
      rw [slugStep]
      split
      · rename_i kept
        rw [List.forall_mem_cons]
        exact ⟨by rw [isSlugChar, kept, Bool.true_or], slug⟩
      · split
        · split
          · exact slug
          · rw [List.forall_mem_cons]
            exact ⟨rfl, slug⟩
        · exact slug

/-- A namespace is a dashed slug that begins with a letter, is not reserved, and has 3 to 50
characters. -/
theorem sanitizeNamespace_eq_some_iff {text slug : String} :
    sanitizeNamespace text = some slug ↔
      slug = String.ofList (dashSlug text.toList) ∧ slug ∉ reservedNamespaces ∧
        slug.toList.head?.any isLower = true ∧ 3 ≤ slug.length ∧ slug.length ≤ 50 := by
  rw [sanitizeNamespace]
  constructor
  · intro sanitised
    split at sanitised
    · cases sanitised
    split at sanitised
    · cases sanitised
    split at sanitised
    · cases sanitised
    rename_i free letterFirst bounded
    obtain rfl := Option.some.inj sanitised
    rw [Bool.or_eq_true, decide_eq_true_eq, decide_eq_true_eq, not_or, not_lt, not_lt] at bounded
    rw [String.toList_ofList, String.length_ofList]
    exact ⟨rfl, by simpa using free, by simpa using letterFirst, bounded⟩
  · rintro ⟨rfl, free, letterFirst, atLeast, atMost⟩
    rw [String.toList_ofList] at letterFirst
    rw [String.length_ofList] at atLeast atMost
    rw [if_neg (by simpa using free), if_neg (by simp [letterFirst]),
      if_neg (by simp [atLeast, atMost])]

theorem sanitizeNamespace_eq_some {text slug : String}
    (sanitised : sanitizeNamespace text = some slug) :
    slug = String.ofList (dashSlug text.toList) ∧ slug.toList.head?.any isLower = true :=
  have ⟨slugEq, _, letterFirst, _⟩ := sanitizeNamespace_eq_some_iff.mp sanitised
  ⟨slugEq, letterFirst⟩

/-- What is sanitised has characters of slugs only. -/
theorem isSlugChar_of_sanitizeNamespace {text slug : String}
    (sanitised : sanitizeNamespace text = some slug) :
    ∀ c ∈ slug.toList, isSlugChar c = true := by
  obtain ⟨rfl, -⟩ := sanitizeNamespace_eq_some sanitised
  intro c member
  rw [String.toList_ofList] at member
  have written := mem_of_mem_trimBy member
  rw [List.mem_reverse] at written
  exact isSlugChar_of_mem_foldl (by simp) c written

theorem underscoreSlug_ne_empty_of_sanitizeNamespace {text slug : String}
    (sanitised : sanitizeNamespace text = some slug) : underscoreSlug slug ≠ "" := by
  obtain ⟨-, letterFirst⟩ := sanitizeNamespace_eq_some sanitised
  obtain ⟨c, first, letter⟩ := (Option.any_eq_true _ _).mp letterFirst
  exact underscoreSlug_ne_empty first (by simp [isAlnum, isLetter, letter])

/-- The parts of a PHP namespace. -/
def namespaceParts (slug : String) : List String :=
  match phpSegments ((splitOnChar '-' slug).filter (· != "")) with
  | [] => [defaultPhpNamespace]
  | segments => segments

/-- The namespace of a project is made of its parts. -/
theorem phpNamespace_eq (slug : String) :
    phpNamespace slug = join "\\" (namespaceParts slug) := by
  rw [phpNamespace, namespaceParts]
  cases phpSegments ((splitOnChar '-' slug).filter (· != "")) <;> rfl

/-- A text of ASCII letters and digits that is not empty. -/
structure Alphanumeric (text : String) : Prop where
  nonempty : text.toList ≠ []
  alnum : ∀ c ∈ text.toList, isAlnum c = true

/-- A text is alphanumeric if it is not empty and has letters and digits only. -/
theorem alphanumeric_iff {text : String} :
    Alphanumeric text ↔ (!text.toList.isEmpty && text.toList.all isAlnum) = true := by
  rw [Bool.and_eq_true, Bool.not_eq_true', List.isEmpty_eq_false_iff, List.all_eq_true]
  exact ⟨fun word => ⟨word.nonempty, word.alnum⟩, fun word => ⟨word.1, word.2⟩⟩

instance (text : String) : Decidable (Alphanumeric text) :=
  decidable_of_iff _ alphanumeric_iff.symm

theorem startsWithDigit_lowerString (text : String) :
    startsWithDigit (lowerString text) = startsWithDigit text := by
  have digit (c : Char) : isDigit (lower c) = isDigit c := by
    by_cases upper : isUpper c = true
    · have alnum : isAlnum c = true := by simp [isAlnum, isLetter, upper]
      exact forall_isAlnum (p := fun c => isDigit (lower c) = isDigit c) (by decide +kernel) alnum
    · rw [lower, if_neg upper]
  rw [startsWithDigit, startsWithDigit, lowerString, String.toList_ofList, List.head?_map,
    Option.any_map]
  exact congrFun (congrArg Option.any (funext digit)) _

theorem startsWithDigit_of_eqIgnoreCase {text word : String}
    (same : eqIgnoreCase text word = true) :
    startsWithDigit text = startsWithDigit word := by
  rw [← startsWithDigit_lowerString text, beq_iff_eq.mp same, startsWithDigit_lowerString]

theorem alphanumeric_phpSegment {segment : String} (word : Alphanumeric segment) :
    Alphanumeric (phpSegments.phpSegment segment) := by
  rw [phpSegments.phpSegment]
  split
  · decide
  · obtain ⟨nonempty, alnum⟩ := word
    constructor
    · obtain ⟨c, rest, charsEq⟩ := List.exists_cons_of_ne_nil nonempty
      rw [charsEq, capitalise_cons (alnum c (charsEq ▸ List.mem_cons_self)), String.toList_ofList]
      exact List.cons_ne_nil _ _
    · rw [String.toList_ofList]
      exact isAlnum_of_mem_capitalise alnum

theorem startsWithDigit_phpSegment {segment : String} (word : Alphanumeric segment) :
    startsWithDigit (phpSegments.phpSegment segment) = startsWithDigit segment := by
  rw [phpSegments.phpSegment]
  split
  · rename_i isWp
    rw [startsWithDigit_of_eqIgnoreCase isWp]
    decide
  · rw [startsWithDigit_capitalise word.alnum, String.ofList_toList]

/-- Segments of letters and digits stay so in a namespace. -/
theorem alphanumeric_phpSegments {segments : List String}
    (words : ∀ segment ∈ segments, Alphanumeric segment) :
    ∀ part ∈ phpSegments segments, Alphanumeric part := by
  induction segments using phpSegments.induct with
  | case1 => simp [phpSegments]
  | case2 segment =>
      rw [phpSegments, List.forall_mem_singleton]
      exact alphanumeric_phpSegment (words segment List.mem_cons_self)
  | case3 segment next rest isPair ih =>
      rw [phpSegments, if_pos isPair, List.forall_mem_cons]
      exact ⟨by decide, ih fun other member =>
        words other (List.mem_cons_of_mem _ (List.mem_cons_of_mem _ member))⟩
  | case4 segment next rest apart ih =>
      rw [phpSegments, if_neg apart, List.forall_mem_cons]
      exact ⟨alphanumeric_phpSegment (words segment List.mem_cons_self), ih fun other member =>
        words other (List.mem_cons_of_mem _ member)⟩

/-- A part of a namespace begins with a digit exactly if its segment does. -/
theorem any_startsWithDigit_phpSegments {segments : List String}
    (words : ∀ segment ∈ segments, Alphanumeric segment) :
    (phpSegments segments).any startsWithDigit = segments.any startsWithDigit := by
  induction segments using phpSegments.induct with
  | case1 => rfl
  | case2 segment =>
      rw [phpSegments, List.any_cons, List.any_cons,
        startsWithDigit_phpSegment (words segment List.mem_cons_self)]
  | case3 segment next rest isPair ih =>
      have later := ih fun other member =>
        words other (List.mem_cons_of_mem _ (List.mem_cons_of_mem _ member))
      obtain ⟨isWp, isKernel⟩ := Bool.and_eq_true_iff.mp isPair
      rw [phpSegments, if_pos isPair, List.any_cons, List.any_cons, List.any_cons, later,
        startsWithDigit_of_eqIgnoreCase isWp, startsWithDigit_of_eqIgnoreCase isKernel]
      rfl
  | case4 segment next rest apart ih =>
      have later := ih fun other member => words other (List.mem_cons_of_mem _ member)
      rw [phpSegments, if_neg apart, List.any_cons, later,
        startsWithDigit_phpSegment (words segment List.mem_cons_self)]
      rfl

/-- The segments of a slug, without the empty ones. -/
theorem alphanumeric_of_mem_segments {slug segment : String}
    (slugChars : ∀ c ∈ slug.toList, isSlugChar c = true)
    (member : segment ∈ (splitOnChar '-' slug).filter (· != "")) : Alphanumeric segment := by
  rw [List.mem_filter, splitOnChar, List.mem_map] at member
  obtain ⟨⟨piece, pieceMem, rfl⟩, nonempty⟩ := member
  constructor
  · simpa [← String.toList_inj] using nonempty
  · rw [String.toList_ofList]
    intro c inPiece
    apply isAlnum_of_isSlugChar (slugChars c (mem_of_mem_splitBy pieceMem c inPiece))
    simpa using not_of_mem_splitBy pieceMem c inPiece

theorem namespaceParts_ne_nil (slug : String) : namespaceParts slug ≠ [] := by
  rw [namespaceParts]
  split
  · exact List.cons_ne_nil _ _
  · assumption

/-- The parts of a namespace have letters and digits only. -/
theorem alphanumeric_of_mem_namespaceParts {slug : String}
    (slugChars : ∀ c ∈ slug.toList, isSlugChar c = true) :
    ∀ part ∈ namespaceParts slug, Alphanumeric part := by
  rw [namespaceParts]
  split
  · rw [List.forall_mem_singleton]
    decide
  · exact alphanumeric_phpSegments fun segment member =>
      alphanumeric_of_mem_segments slugChars member

/-- A part of a namespace begins with a digit exactly if a piece of its slug does. -/
theorem any_startsWithDigit_namespaceParts {slug : String}
    (slugChars : ∀ c ∈ slug.toList, isSlugChar c = true) :
    (namespaceParts slug).any startsWithDigit = (splitOnChar '-' slug).any startsWithDigit := by
  have filled : ((splitOnChar '-' slug).filter (· != "")).any startsWithDigit =
      (splitOnChar '-' slug).any startsWithDigit := by
    rw [List.any_filter]
    congr 1
    funext segment
    by_cases isEmpty : segment = ""
    · subst isEmpty
      decide
    · simp [isEmpty]
  rw [← filled, ← any_startsWithDigit_phpSegments fun segment member =>
    alphanumeric_of_mem_segments slugChars member, namespaceParts]
  split
  · rename_i noSegments
    rw [noSegments]
    decide
  · rfl

end RestPlugin.Text
