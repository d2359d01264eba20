import Mathlib.Data.List.Basic
import RestPlugin.Path

/-!
# Joined paths

Joining a path to a base puts the components of the base before those of the path, provided the path
starts with a name or with `..`.  So joining to one base keeps different paths apart, and joining in
two steps gives the same text as joining at once.
-/

namespace RestPlugin

namespace Text

theorem splitBy_ne_nil (p : Char → Bool) (l : List Char) : splitBy p l ≠ [] := by
  cases l with
  | nil => exact List.cons_ne_nil _ _
  | cons c rest =>
      rw [splitBy]
      split
      · exact List.cons_ne_nil _ _
      · split
        · exact List.cons_ne_nil _ _
        · exact List.cons_ne_nil _ _

/-- A separator divides the pieces before it from the pieces after it. -/
theorem splitBy_append (p : Char → Bool) {c : Char} (separates : p c = true) (l r : List Char) :
    splitBy p (l ++ c :: r) = splitBy p l ++ splitBy p r := by
  induction l with
  | nil => simp [splitBy, separates]
  | cons d l ih =>
      rw [List.cons_append, splitBy, splitBy, ih]
      cases p d with
      | true => rfl
      | false =>
          cases pieces : splitBy p l with
          | nil => exact absurd pieces (splitBy_ne_nil p l)
          | cons piece later => rfl

theorem splitBy_of_forall {p : Char → Bool} {l : List Char} (none : ∀ c ∈ l, p c = false) :
    splitBy p l = [l] := by
  induction l with
  | nil => rfl
  | cons c rest ih =>
      rw [List.forall_mem_cons] at none
      rw [splitBy, none.1, ih none.2]
      rfl

/-- Texts with a separator between them are cut there and each by itself. -/
theorem splitOnChar_append (separator : Char) (l r : String) :
    splitOnChar separator (l ++ String.singleton separator ++ r) =
      splitOnChar separator l ++ splitOnChar separator r := by
  simp [splitOnChar, splitBy_append]

/-- A text without the separator is not cut. -/
theorem splitOnChar_of_not_mem {separator : Char} {text : String}
    (free : separator ∉ text.toList) : splitOnChar separator text = [text] := by
  rw [splitOnChar, splitBy_of_forall, List.map_singleton, String.ofList_toList]
  intro c member
  rw [beq_eq_false_iff_ne]
  rintro rfl
  exact free member

theorem join_cons_of_ne_nil (separator first : String) {later : List String}
    (nonempty : later ≠ []) :
    join separator (first :: later) = first ++ separator ++ join separator later := by
  cases later with
  | nil => exact absurd rfl nonempty
  | cons second later => rfl

/-- Parts without the separator come back when they are joined with it and cut. -/
theorem splitOnChar_join {separator : Char} {parts : List String} (nonempty : parts ≠ [])
    (free : ∀ part ∈ parts, separator ∉ part.toList) :
    splitOnChar separator (join (String.singleton separator) parts) = parts := by
  induction parts with
  | nil => exact absurd rfl nonempty
  | cons part parts ih =>
      rw [List.forall_mem_cons] at free
      cases parts with
      | nil => exact splitOnChar_of_not_mem free.1
      | cons second parts =>
          rw [join_cons_of_ne_nil _ _ (List.cons_ne_nil second parts), splitOnChar_append,
            splitOnChar_of_not_mem free.1, ih (List.cons_ne_nil _ _) free.2]
          rfl

/-- Cutting a text gives at least one piece. -/
theorem splitOnChar_ne_nil (separator : Char) (text : String) :
    splitOnChar separator text ≠ [] := by
  rw [splitOnChar, Ne, List.map_eq_nil_iff]
  exact splitBy_ne_nil _ _

/-- The pieces of a text, joined with the separator, are the text. -/
theorem join_splitOnChar (separator : Char) (text : String) :
    join (String.singleton separator) (splitOnChar separator text) = text := by
  have rejoined (l : List Char) : (join (String.singleton separator)
      ((splitBy (· == separator) l).map String.ofList)).toList = l := by
    induction l with
    | nil => rfl
    | cons c rest ih =>
        obtain ⟨piece, pieces, piecesEq⟩ :=
          List.exists_cons_of_ne_nil (splitBy_ne_nil (· == separator) rest)
        rw [piecesEq] at ih
        by_cases separates : c = separator
        · have apart : splitBy (· == separator) (c :: rest) = [] :: piece :: pieces := by
            rw [splitBy, if_pos (by simpa using separates), piecesEq]
          have joined (first : String) (later : List String) :
              join (String.singleton separator) ("" :: first :: later) = "" ++
                String.singleton separator ++ join (String.singleton separator) (first :: later) :=
            rfl
          rw [List.map_cons] at ih
          rw [apart, List.map_cons, List.map_cons, String.ofList_nil, joined, String.toList_append,
            ih, separates, String.empty_append, String.toList_singleton, List.singleton_append]
        · have together : splitBy (· == separator) (c :: rest) = (c :: piece) :: pieces := by
            rw [splitBy, if_neg (by simpa using separates), piecesEq]
          rw [together]
          cases pieces with
          | nil => simpa [join] using ih
          | cons second pieces => simpa [join] using ih
  exact String.toList_inj.mp (rejoined text.toList)

/-- No piece contains a separator. -/
theorem not_of_mem_splitBy {p : Char → Bool} {l piece : List Char} (member : piece ∈ splitBy p l) :
    ∀ c ∈ piece, p c = false := by
  induction l generalizing piece with
  | nil =>
      obtain rfl := List.mem_singleton.mp member
      simp
  | cons c rest ih =>
      rw [splitBy] at member
      split at member
      · rcases List.mem_cons.mp member with rfl | later
        · simp
        · exact ih later
      · rename_i stays
        split at member
        · obtain rfl := List.mem_singleton.mp member
          simpa using stays
        · rename_i first later piecesEq
          rcases List.mem_cons.mp member with rfl | inLater
          · rw [List.forall_mem_cons]
            exact ⟨by simpa using stays, ih (piecesEq ▸ List.mem_cons_self)⟩
          · exact ih (piecesEq ▸ List.mem_cons_of_mem _ inLater)

/-- The pieces have only characters of the text. -/
theorem mem_of_mem_splitBy {p : Char → Bool} {l piece : List Char} (member : piece ∈ splitBy p l) :
    ∀ c ∈ piece, c ∈ l := by
  induction l generalizing piece with
  | nil =>
      obtain rfl := List.mem_singleton.mp member
      simp
  | cons c rest ih =>
      have inRest {piece : List Char} (later : piece ∈ splitBy p rest) :
          ∀ d ∈ piece, d ∈ c :: rest :=
        fun d inPiece => List.mem_cons_of_mem _ (ih later d inPiece)
      rw [splitBy] at member
      split at member
      · rcases List.mem_cons.mp member with rfl | later
        · simp
        · exact inRest later
      · split at member
        · obtain rfl := List.mem_singleton.mp member
          simp
        · rename_i first later piecesEq
          rcases List.mem_cons.mp member with rfl | inLater
          · rw [List.forall_mem_cons]
            exact ⟨List.mem_cons_self, inRest (piecesEq ▸ List.mem_cons_self)⟩
          · exact inRest (piecesEq ▸ List.mem_cons_of_mem _ inLater)

theorem replaceChar_of_not_mem {c : Char} (by' : String) {text : String}
    (free : c ∉ text.toList) : replaceChar c by' text = text := by
  have kept : (text.toList.flatMap fun d => if d == c then by'.toList else [d]) =
      text.toList.flatMap fun d => [d] := by
    apply List.flatMap_congr
    intro d member
    rw [if_neg]
    rw [beq_iff_eq]
    rintro rfl
    exact free member
  rw [replaceChar, kept, List.flatMap_singleton', String.ofList_toList]

end Text

namespace Path

/-! ## Sameness -/

/-- Paths are the same exactly if they have the same components. -/
theorem same_iff {p q : String} : same p q = true ↔ components p = components q := by
  rw [same, beq_iff_eq]

@[simp]
theorem same_self (p : String) : same p p = true := same_iff.mpr rfl

theorem same_comm (p q : String) : same p q = same q p := by
  rw [Bool.eq_iff_iff, same_iff, same_iff]
  exact eq_comm

/-- In a comparison, a path may be replaced by one that is the same. -/
theorem same_congr {p q : String} (alike : same p q = true) (path : String) :
    same p path = same q path := by
  rw [same, same, same_iff.mp alike]

/-! ## What sameness looks at -/

/-- The parts of a path that are components wherever they stand: its names and every `..`. -/
def loudParts (path : String) : List String :=
  (Text.splitOnChar '/' path).filter fun part => !isSilent part

/-- Whether a path begins with the part `.`. -/
def startsHere (path : String) : Bool := (Text.splitOnChar '/' path).head? == some "."

/-- A path starts at the root if nothing stands before its first separator. -/
theorem isAbsolute_eq_true_iff {path first : String} {rest : List String}
    (parts : Text.splitOnChar '/' path = first :: rest) :
    isAbsolute path = true ↔ first = "" ∧ rest ≠ [] := by
  rw [isAbsolute, Text.startsWith]
  rw [Text.splitOnChar] at parts
  cases charsEq : path.toList with
  | nil =>
      rw [charsEq] at parts
      cases parts
      simp
  | cons c chars =>
      obtain ⟨piece, pieces, piecesEq⟩ :=
        List.exists_cons_of_ne_nil (Text.splitBy_ne_nil (· == '/') chars)
      rw [charsEq, Text.splitBy, piecesEq] at parts
      by_cases slash : c = '/'
      · simp only [slash, beq_self_eq_true, if_true, List.map_cons, List.cons.injEq] at parts
        simp [slash, ← parts.1, ← parts.2]
      · simp only [beq_eq_false_iff_ne.mpr slash, Bool.false_eq_true, if_false, List.map_cons,
          List.cons.injEq] at parts
        simp [← parts.1, Ne.symm slash]

/-- The component that the part of a path stands for. -/
def component (part : String) : Component := if part == ".." then .up else .name part

theorem innerComponents_eq (parts : List String) :
    innerComponents parts = (parts.filter fun part => !isSilent part).map component := rfl

theorem component_injective : Function.Injective component := by
  intro part other same
  rw [component, component] at same
  split at same <;> split at same
  · rename_i up up'
    rw [beq_iff_eq] at up up'
    rw [up, up']
  · cases same
  · cases same
  · exact Component.name.inj same

/-- The components of a path are where it starts and what its loud parts stand for. -/
theorem components_eq (path : String) : components path =
    (if isAbsolute path then [.root] else if startsHere path then [.current] else []) ++
      (loudParts path).map component := by
  obtain ⟨first, rest, parts⟩ := List.exists_cons_of_ne_nil (Text.splitOnChar_ne_nil '/' path)
  have absolute := isAbsolute_eq_true_iff parts
  rw [components, loudParts, startsHere, parts]
  dsimp only
  by_cases empty : first = ""
  · have later : isAbsolute path = !rest.isEmpty := by
      rw [Bool.eq_iff_iff, absolute]
      simp [empty]
    rw [later, innerComponents_eq]
    cases rest <;> simp [empty, isSilent]
  · have relative : isAbsolute path = false := by simpa [empty] using absolute
    rw [relative, innerComponents_eq, innerComponents_eq]
    by_cases here : first = "." <;> simp [empty, here, isSilent]

/-- The root is a component of the absolute paths. -/
theorem root_mem_components_iff {path : String} :
    Component.root ∈ components path ↔ isAbsolute path = true := by
  have apart (part : String) : component part ≠ .root := by
    rw [component]
    split <;> exact nofun
  rw [components_eq]
  split
  · simp [*]
  · split <;> simp [*]

theorem not_startsHere_of_isAbsolute {path : String} (absolute : isAbsolute path = true) :
    startsHere path = false := by
  obtain ⟨first, rest, parts⟩ := List.exists_cons_of_ne_nil (Text.splitOnChar_ne_nil '/' path)
  rw [startsHere, parts, ((isAbsolute_eq_true_iff parts).mp absolute).1]
  rfl

/-- The current directory is a component of the paths that start there. -/
theorem current_mem_components_iff {path : String} :
    Component.current ∈ components path ↔ startsHere path = true := by
  have apart (part : String) : component part ≠ .current := by
    rw [component]
    split <;> exact nofun
  rw [components_eq]
  split
  · simp [apart, not_startsHere_of_isAbsolute ‹_›]
  · split <;> simp [*]

/-- Two paths are the same exactly if both or neither start at the root, both or neither begin with
`.`, and their other parts agree without the empty ones and every further `.`. -/
theorem same_iff_parts {p q : String} : same p q = true ↔
    isAbsolute p = isAbsolute q ∧ startsHere p = startsHere q ∧ loudParts p = loudParts q := by
  rw [same_iff]
  constructor
  · intro alike
    have absolute : isAbsolute p = isAbsolute q := by
      rw [Bool.eq_iff_iff, ← root_mem_components_iff, alike, root_mem_components_iff]
    have here : startsHere p = startsHere q := by
      rw [Bool.eq_iff_iff, ← current_mem_components_iff, alike, current_mem_components_iff]
    rw [components_eq, components_eq, absolute, here, List.append_cancel_left_eq] at alike
    exact ⟨absolute, here, List.map_injective_iff.mpr component_injective alike⟩
  · rintro ⟨absolute, here, parts⟩
    rw [components_eq, components_eq, absolute, here, parts]

/-! ## Joining -/

theorem innerComponents_append (parts parts' : List String) :
    innerComponents (parts ++ parts') = innerComponents parts ++ innerComponents parts' := by
  simp [innerComponents]

/-- A path whose first part is a name or `..`. -/
def Nested (path : String) : Prop :=
  ∃ first rest, Text.splitOnChar '/' path = first :: rest ∧ isSilent first = false

/-- The components of a text with parts after it. -/
def leading (base : String) : List Component :=
  match Text.splitOnChar '/' base with
  | [] => []
  | first :: rest =>
      if first == "" then .root :: innerComponents rest
      else if first == "." then .current :: innerComponents rest
      else innerComponents (first :: rest)

/-- The components of a nested path are those of its parts, without a beginning of their own. -/
theorem Nested.components_eq {path : String} (nested : Nested path) :
    components path = innerComponents (Text.splitOnChar '/' path) := by
  obtain ⟨first, rest, partsEq, loud⟩ := nested
  simp only [isSilent, Bool.or_eq_false_iff] at loud
  simp [components, partsEq, loud]

theorem splitOnChar_slash (base path : String) : Text.splitOnChar '/' (base ++ "/" ++ path) =
    Text.splitOnChar '/' base ++ Text.splitOnChar '/' path := Text.splitOnChar_append '/' base path

/-- A nested path adds its components to those of a base. -/
theorem Nested.components_append {path : String} (nested : Nested path) (base : String) :
    components (base ++ "/" ++ path) = leading base ++ components path := by
  have pathParts := Text.splitOnChar_ne_nil '/' path
  rw [nested.components_eq, components, leading, splitOnChar_slash]
  cases baseParts : Text.splitOnChar '/' base with
  | nil => exact absurd baseParts (Text.splitOnChar_ne_nil '/' base)
  | cons first rest =>
      have laterParts : (rest ++ Text.splitOnChar '/' path).isEmpty = false := by
        simp [pathParts]
      simp only [List.cons_append, laterParts, Bool.false_eq_true, if_false]
      split
      · rw [innerComponents_append, List.cons_append]
      · split
        · rw [innerComponents_append, List.cons_append]
        · rw [← List.cons_append, innerComponents_append]

theorem Nested.isAbsolute_eq {path : String} (nested : Nested path) : isAbsolute path = false := by
  obtain ⟨first, rest, partsEq, loud⟩ := nested
  rw [Bool.eq_false_iff]
  intro absolute
  have starts : ['/'] <+: path.toList := List.isPrefixOf_iff_prefix.mp absolute
  obtain ⟨later, pathEq⟩ := starts
  rw [Text.splitOnChar, ← pathEq, List.singleton_append, Text.splitBy] at partsEq
  simp only [beq_self_eq_true, if_true, List.map_cons, List.cons.injEq] at partsEq
  rw [← partsEq.1] at loud
  cases loud

/-- A relative path is joined with a slash, unless there is nothing to join it to or the
slash is there. -/
theorem join_eq (base : String) {path : String} (relative : isAbsolute path = false) :
    join base path =
      if base = "" then path
      else if base.toList.getLast? = some '/' then base ++ path
      else base ++ "/" ++ path := by
  simp [join, relative]

/-- Below one base, the components of a joined path end in those of the path. -/
theorem exists_components_join (base : String) :
    ∃ lead, ∀ path, Nested path → components (join base path) = lead ++ components path := by
  by_cases empty : base = ""
  · refine ⟨[], fun path nested => ?_⟩
    rw [join_eq base nested.isAbsolute_eq, if_pos empty, List.nil_append]
  · by_cases slash : base.toList.getLast? = some '/'
    · obtain ⟨above, aboveEq⟩ : ∃ above : String, base = above ++ "/" := by
        obtain ⟨chars, charsEq⟩ := List.getLast?_eq_some_iff.mp slash
        refine ⟨String.ofList chars, String.toList_inj.mp ?_⟩
        simp [charsEq]
      refine ⟨leading above, fun path nested => ?_⟩
      rw [join_eq base nested.isAbsolute_eq, if_neg empty, if_pos slash, aboveEq,
        nested.components_append]
    · refine ⟨leading base, fun path nested => ?_⟩
      rw [join_eq base nested.isAbsolute_eq, if_neg empty, if_neg slash,
        nested.components_append]

/-- Nested paths below a base are the same exactly if they are the same by themselves. -/
theorem same_join {p q : String} (base : String) (nestedP : Nested p) (nestedQ : Nested q) :
    same (join base p) (join base q) = same p q := by
  obtain ⟨lead, componentsEq⟩ := exists_components_join base
  rw [Bool.eq_iff_iff, same_iff, same_iff, componentsEq p nestedP, componentsEq q nestedQ,
    List.append_cancel_left_eq]

/-- Joining keeps the name of the file. -/
theorem fileName_join (base : String) {path : String} (nested : Nested path) :
    fileName (join base path) = fileName path := by
  obtain ⟨lead, componentsEq⟩ := exists_components_join base
  have nonempty : components path ≠ [] := by
    have componentsEq := nested.components_eq
    obtain ⟨first, rest, partsEq, loud⟩ := nested
    rw [componentsEq, partsEq]
    simp [innerComponents, loud]
  rw [fileName, fileName, componentsEq path nested, List.getLast?_append_of_ne_nil _ nonempty]

theorem extension_join (base : String) {path : String} (nested : Nested path) :
    extension (join base path) = extension path := by
  rw [extension, extension, fileName_join base nested]

/-- The extension of a file named by a stem and a suffix without a dot. -/
theorem extension_eq {path stem suffix : String}
    (named : fileName path = some (stem ++ "." ++ suffix))
    (nonempty : stem.toList ≠ []) (free : '.' ∉ suffix.toList) : extension path = some suffix := by
  have reversed : (stem ++ "." ++ suffix).toList.reverse =
      suffix.toList.reverse ++ '.' :: stem.toList.reverse := by
    simp
  have noDot : ∀ c ∈ suffix.toList.reverse, (c != '.') = true := by
    intro c member
    rw [bne_iff_ne]
    rintro rfl
    exact free (List.mem_reverse.mp member)
  have last : (suffix.toList.reverse ++ '.' :: stem.toList.reverse).takeWhile (· != '.') =
      suffix.toList.reverse := by
    rw [List.takeWhile_append_of_pos noDot, List.takeWhile_cons_of_neg (by decide),
      List.append_nil]
  have before : (suffix.toList.reverse ++ '.' :: stem.toList.reverse).drop
      (suffix.toList.reverse.length + 1) = stem.toList.reverse := by
    rw [List.drop_length_add_append, List.drop_one, List.tail_cons]
  rw [extension, named]
  simp only [Option.bind_eq_bind, Option.bind_some, reversed, last, before]
  rw [if_neg]
  · rw [List.reverse_reverse, String.ofList_toList]
  · simp only [List.length_append, List.length_cons, List.isEmpty_iff, List.reverse_eq_nil_iff,
      Bool.or_eq_true, beq_iff_eq, not_or]
    exact ⟨by omega, nonempty⟩

theorem isAbsolute_append {path : String} (nonempty : path ≠ "") (later : String) :
    isAbsolute (path ++ later) = isAbsolute path := by
  have chars : path.toList ≠ [] := fun nil => nonempty (String.toList_inj.mp nil)
  rw [isAbsolute, isAbsolute, Text.startsWith, Text.startsWith, String.toList_append]
  cases charsEq : path.toList with
  | nil => exact absurd charsEq chars
  | cons c rest => rfl

/-- Joining a file to a directory below a base is joining both at once. -/
theorem join_join (base : String) {directory file : String}
    (relative : isAbsolute directory = false)
    (nonempty : directory ≠ "") (noSlash : directory.toList.getLast? ≠ some '/')
    (relativeFile : isAbsolute file = false) :
    join (join base directory) file = join base (join directory file) := by
  have inner : join directory file = directory ++ "/" ++ file := by
    rw [join_eq directory relativeFile, if_neg nonempty, if_neg noSlash]
  have relativeInner : isAbsolute (directory ++ "/" ++ file) = false := by
    rw [String.append_assoc, isAbsolute_append nonempty, relative]
  have chars : directory.toList ≠ [] := fun nil => nonempty (String.toList_inj.mp nil)
  -- Whatever stands before the directory, its last character decides about a separator.
  have outer : ∀ above : String,
      join (above ++ directory) file = above ++ directory ++ "/" ++ file := by
    intro above
    have last : (above ++ directory).toList.getLast? ≠ some '/' := by
      rw [String.toList_append, List.getLast?_append_of_ne_nil _ chars]
      exact noSlash
    have notEmpty : above ++ directory ≠ "" := by
      intro empty
      have noChars := congrArg String.toList empty
      rw [String.toList_append, String.toList_empty, List.append_eq_nil_iff] at noChars
      exact chars noChars.2
    rw [join_eq _ relativeFile, if_neg notEmpty, if_neg last]
  rw [inner, join_eq base relative, join_eq base relativeInner]
  split
  · have alone := outer ""
    rw [String.empty_append] at alone
    exact alone
  · split
    · rw [outer]
      simp only [String.append_assoc]
    · rw [outer]
      simp only [String.append_assoc]

/-! ## Paths below a base -/

/-- A path that consists of names with a separator between each two of them. -/
def Clean (path : String) : Prop :=
  ∀ part ∈ Text.splitOnChar '/' path, part ∉ ["", ".", ".."]

instance (path : String) : Decidable (Clean path) :=
  inferInstanceAs (Decidable (∀ part ∈ Text.splitOnChar '/' path, part ∉ ["", ".", ".."]))

section Clean

variable {base path other : String}

theorem Clean.not_isSilent (clean : Clean path) :
    ∀ part ∈ Text.splitOnChar '/' path, isSilent part = false := by
  intro part member
  have named := clean part member
  simp only [List.mem_cons, List.not_mem_nil, or_false, not_or] at named
  simp [isSilent, named.1, named.2.1]

theorem Clean.nested (clean : Clean path) : Nested path := by
  obtain ⟨first, rest, partsEq⟩ :=
    List.exists_cons_of_ne_nil (Text.splitOnChar_ne_nil '/' path)
  exact ⟨first, rest, partsEq, clean.not_isSilent first (partsEq ▸ List.mem_cons_self)⟩

/-- The components of a clean path are the names between its slashes. -/
theorem Clean.components_eq (clean : Clean path) :
    components path = (Text.splitOnChar '/' path).map .name := by
  have loud := clean.not_isSilent
  rw [clean.nested.components_eq, innerComponents, List.filter_eq_self.mpr (by simpa using loud)]
  apply List.map_congr_left
  intro part member
  have notUp : part ≠ ".." := fun same => clean part member (by simp [same])
  simp [notUp]

/-- Clean paths are the same only if they are written alike. -/
theorem Clean.eq_of_same (first : Clean path) (second : Clean other)
    (alike : same path other = true) : path = other := by
  rw [same_iff, first.components_eq, second.components_eq] at alike
  have parts := List.map_injective_iff.mpr (fun _ _ => Component.name.inj) alike
  rw [← Text.join_splitOnChar '/' path, parts, Text.join_splitOnChar]

/-- Clean paths with a slash between them make a clean path. -/
theorem Clean.append (first : Clean base) (second : Clean path) : Clean (base ++ "/" ++ path) := by
  rw [Clean, splitOnChar_slash, List.forall_mem_append]
  exact ⟨first, second⟩

theorem dropComponents_append {parts : List String} (loud : ∀ part ∈ parts, isSilent part = false)
    (later : List String) : dropComponents parts.length (parts ++ later) = later := by
  induction parts with
  | nil => rw [List.length_nil, List.nil_append, dropComponents]
  | cons part parts ih =>
      rw [List.forall_mem_cons] at loud
      rw [List.length_cons, List.cons_append, dropComponents, loud.1]
      exact ih loud.2

theorem dropWhile_isSilent {parts : List String} (loud : ∀ part ∈ parts, isSilent part = false) :
    parts.dropWhile isSilent = parts := by
  cases parts with
  | nil => rfl
  | cons part parts => rw [List.dropWhile_cons_of_neg (by simp [loud part List.mem_cons_self])]

/-- A clean path is what stands after the components of the base before it. -/
theorem afterComponents_append (first : Clean base) (second : Clean path) :
    afterComponents (components base).length (base ++ "/" ++ path) = path := by
  have loudPath := second.not_isSilent
  have left : dropComponents (components base).length (Text.splitOnChar '/' (base ++ "/" ++ path)) =
      Text.splitOnChar '/' path := by
    rw [first.components_eq, List.length_map, splitOnChar_slash,
      dropComponents_append first.not_isSilent]
  have kept : dropSilentEnd (Text.splitOnChar '/' path) = Text.splitOnChar '/' path := by
    rw [dropSilentEnd, dropWhile_isSilent (by simpa using loudPath), List.reverse_reverse]
  obtain ⟨head, rest, parts⟩ :=
    List.exists_cons_of_ne_nil (Text.splitOnChar_ne_nil '/' (base ++ "/" ++ path))
  have loud := (first.append second).not_isSilent head (parts ▸ List.mem_cons_self)
  rw [parts] at left
  rw [afterComponents, parts]
  simp only [loud, Bool.false_eq_true, if_false]
  rw [left, dropWhile_isSilent loudPath, kept]
  exact Text.join_splitOnChar '/' path

/-- What is left of a path below a base is the path again. -/
theorem relativeTo_append (first : Clean base) (second : Clean path) :
    relativeTo base (base ++ "/" ++ path) = path := by
  have below : (components base).isPrefixOf (components (base ++ "/" ++ path)) = true := by
    rw [(first.append second).components_eq, first.components_eq, splitOnChar_slash,
      List.map_append, List.isPrefixOf_iff_prefix]
    exact List.prefix_append _ _
  have some : (components base).isEmpty = false := by
    rw [first.components_eq, List.isEmpty_map, List.isEmpty_eq_false_iff]
    exact Text.splitOnChar_ne_nil '/' base
  rw [relativeTo, if_pos below, some, if_neg Bool.false_ne_true,
    afterComponents_append first second]

end Clean

end Path

end RestPlugin
