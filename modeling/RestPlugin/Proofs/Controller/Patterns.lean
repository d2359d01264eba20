import RestPlugin.Controller.Kind
import RestPlugin.Proofs.Ir.Paths
import RestPlugin.Proofs.Plugin.Misnamed

/-!
# Route patterns

The placeholders of a path are read in two ways.  One reader goes through the characters and finds a
placeholder after each colon; with it a configuration is checked, and identities are inferred.  The
other one cuts off the segments of the namespace and turns each remaining segment that begins with a
colon into a named group of the pattern under which the route is registered.  Both agree, whatever
the identity, exactly if no placeholder stands in the namespace, and each segment below is either a
placeholder as a whole or has none, and no group either.
-/

namespace RestPlugin.Controller

open Ir Text

/-! ## Named groups -/

/-- A named group of a pattern, and whether it takes digits only. -/
structure Group where
  name : String
  numeric : Bool
deriving DecidableEq, Repr

/-- What stands before the name of a group. -/
def groupOpening : List Char := ['(', '?', 'P', '<']

/-- What stands after the name of a group that takes digits only. -/
def digitsOnly : List Char := ['>', '\\', 'd', '+', ')']

/-- The named group with which a text begins.  Its name consists of letters, digits and underscores
and ends with an angle bracket. -/
def openingGroup? (text : List Char) : Option Group :=
  let name := (text.drop groupOpening.length).takeWhile isWord
  let rest := (text.drop groupOpening.length).dropWhile isWord
  if groupOpening.isPrefixOf text && !name.isEmpty && ['>'].isPrefixOf rest then
    some ⟨String.ofList name, digitsOnly.isPrefixOf rest⟩
  else none

/-- The named groups that begin somewhere in a text, in order. -/
def groupsIn : List Char → List Group
  | [] => []
  | c :: rest => (openingGroup? (c :: rest)).toList ++ groupsIn rest

/-- The named groups of a pattern, in order. -/
def groups (pattern : String) : List Group := groupsIn pattern.toList

section Cut

variable {p : Char → Bool} {c : Char} (stops : p c = false) (l r : List Char)
include stops

theorem takeWhile_append_cons : (l ++ c :: r).takeWhile p = l.takeWhile p := by
  induction l with
  | nil => simp [stops]
  | cons d l ih => simp only [List.cons_append, List.takeWhile_cons, ih]

theorem dropWhile_append_cons : (l ++ c :: r).dropWhile p = l.dropWhile p ++ c :: r := by
  induction l with
  | nil => simp [stops]
  | cons d l ih =>
      simp only [List.cons_append, List.dropWhile_cons, ih]
      split <;> rfl

end Cut

theorem isPrefixOf_append_slash {word : List Char} (absent : '/' ∉ word) (l r : List Char) :
    word.isPrefixOf (l ++ '/' :: r) = word.isPrefixOf l := by
  induction word generalizing l with
  | nil => simp
  | cons d word ih =>
      rw [List.mem_cons, not_or] at absent
      cases l with
      | nil =>
          rw [List.nil_append, List.isPrefixOf_cons_cons, beq_false_of_ne (Ne.symm absent.1)]
          rfl
      | cons e l => simp only [List.cons_append, List.isPrefixOf_cons_cons, ih absent.2]

theorem openingGroup?_of_not_isPrefixOf {text : List Char}
    (unopened : groupOpening.isPrefixOf text = false) : openingGroup? text = none := by
  simp [openingGroup?, unopened]

/-- What begins like a group opens one, if a name in angle brackets follows. -/
theorem openingGroup?_opening (text : List Char) :
    openingGroup? (groupOpening ++ text) =
      if (!(text.takeWhile isWord).isEmpty && ['>'].isPrefixOf (text.dropWhile isWord)) = true then
        some ⟨String.ofList (text.takeWhile isWord), digitsOnly.isPrefixOf (text.dropWhile isWord)⟩
      else none := by
  have opened : groupOpening.isPrefixOf (groupOpening ++ text) = true :=
    List.isPrefixOf_iff_prefix.mpr (List.prefix_append _ _)
  simp only [openingGroup?, List.drop_left, opened, Bool.true_and]

/-- A group that a text begins with is opened before the next slash. -/
theorem openingGroup?_append (l r : List Char) :
    openingGroup? (l ++ '/' :: r) = openingGroup? l := by
  have noWord : isWord '/' = false := by decide
  have opening := isPrefixOf_append_slash (by decide : '/' ∉ groupOpening) l r
  cases opened : groupOpening.isPrefixOf l with
  | false =>
      rw [openingGroup?_of_not_isPrefixOf opened,
        openingGroup?_of_not_isPrefixOf (opening.trans opened)]
  | true =>
      obtain ⟨text, rfl⟩ := List.isPrefixOf_iff_prefix.mp opened
      simp only [List.append_assoc, openingGroup?_opening, takeWhile_append_cons noWord,
        dropWhile_append_cons noWord, isPrefixOf_append_slash (by decide : '/' ∉ ['>']),
        isPrefixOf_append_slash (by decide : '/' ∉ digitsOnly)]

theorem groupsIn_append (l r : List Char) :
    groupsIn (l ++ '/' :: r) = groupsIn l ++ groupsIn r := by
  induction l with
  | nil => rfl
  | cons c l ih =>
      rw [List.cons_append, groupsIn, groupsIn, ih, ← List.cons_append, openingGroup?_append,
        List.append_assoc]

/-- Without an opening bracket there are no groups. -/
theorem groupsIn_eq_nil {text : List Char} (unopened : '(' ∉ text) : groupsIn text = [] := by
  induction text with
  | nil => rfl
  | cons c rest ih =>
      rw [List.mem_cons, not_or] at unopened
      have notPrefix : groupOpening.isPrefixOf (c :: rest) = false := by
        rw [groupOpening, List.isPrefixOf_cons_cons, beq_false_of_ne unopened.1, Bool.false_and]
      rw [groupsIn, ih unopened.2, openingGroup?_of_not_isPrefixOf notPrefix]
      rfl

theorem groups_append_slash (first second : String) :
    groups (first ++ "/" ++ second) = groups first ++ groups second := by
  simp only [groups, String.toList_append, List.append_assoc, ← groupsIn_append]
  rfl

theorem groups_empty : groups "" = [] := rfl

/-- The groups of joined segments are those of the segments. -/
theorem groups_join (parts : List String) : groups (join "/" parts) = parts.flatMap groups := by
  induction parts with
  | nil => rfl
  | cons part parts ih =>
      cases parts with
      | nil => rw [join, List.flatMap_singleton]
      | cons second parts =>
          change groups (part ++ "/" ++ join "/" (second :: parts)) =
            groups part ++ (second :: parts).flatMap groups
          rw [groups_append_slash, ih]

theorem groups_pathOf (parts : List String) : groups (pathOf parts) = parts.flatMap groups := by
  rw [pathOf, ← groups_join, ← String.empty_append (s := "/"), groups_append_slash, groups_empty,
    List.nil_append]

/-! ## Segments -/

/-- Whether a segment is a placeholder as a whole. -/
def IsPlaceholder (segment : String) : Prop :=
  ∃ name : List Char, segment = String.ofList (':' :: name) ∧ name ≠ [] ∧
    ∀ c ∈ name, isWord c = true

/-- Whether a segment has neither a placeholder nor, whatever the identity, a group. -/
structure IsPlain (segment : String) : Prop where
  placeholders_eq : placeholders segment = []
  groups_eq (identity : Option Identity) : groups (segmentPattern identity segment) = []

/-- Whether a parameter is that of a numeric identity. -/
def isNumericParam (identity : Option Identity) (param : String) : Bool :=
  identity.any fun known => known.param == param && known.isNumeric

theorem takeWhile_word {name : List Char} (word : ∀ c ∈ name, isWord c = true)
    {c : Char} (stops : isWord c = false) (rest : List Char) :
    (name ++ c :: rest).takeWhile isWord = name := by
  rw [takeWhile_append_cons stops, List.takeWhile_eq_self_iff.mpr word]

theorem dropWhile_word {name : List Char} (word : ∀ c ∈ name, isWord c = true)
    {c : Char} (stops : isWord c = false) (rest : List Char) :
    (name ++ c :: rest).dropWhile isWord = c :: rest := by
  rw [dropWhile_append_cons stops, List.dropWhile_eq_nil_iff.mpr word, List.nil_append]

theorem groupsIn_opening (rest : List Char) (unopened : '(' ∉ rest) :
    groupsIn (groupOpening ++ rest) = (openingGroup? (groupOpening ++ rest)).toList := by
  have later : groupsIn ('?' :: 'P' :: '<' :: rest) = [] :=
    groupsIn_eq_nil (by simpa using unopened)
  change (openingGroup? (groupOpening ++ rest)).toList ++ groupsIn ('?' :: 'P' :: '<' :: rest) = _
  rw [later, List.append_nil]

/-- A group is written with its name and what it takes. -/
theorem groupsIn_group {name : List Char} (nonempty : name ≠ [])
    (word : ∀ c ∈ name, isWord c = true) {body : List Char} (unopened : '(' ∉ body) {numeric : Bool}
    (digits : digitsOnly.isPrefixOf ('>' :: body) = numeric) :
    groupsIn (groupOpening ++ (name ++ '>' :: body)) = [⟨String.ofList name, numeric⟩] := by
  have noWord : isWord '>' = false := by decide
  have nameUnopened : '(' ∉ name := fun member => absurd (word _ member) (by decide)
  have nonempty' : name.isEmpty = false := List.isEmpty_eq_false_iff.mpr nonempty
  rw [groupsIn_opening _ (by simp [nameUnopened, unopened]), openingGroup?_opening,
    takeWhile_word word noWord, dropWhile_word word noWord, nonempty', digits]
  rfl

/-- What a group takes, with its closing bracket. -/
def groupBody (numeric : Bool) : List Char :=
  if numeric then ['\\', 'd', '+', ')'] else ['[', '^', '/', ']', '+', ')']

theorem not_mem_groupBody (numeric : Bool) : '(' ∉ groupBody numeric := by
  cases numeric <;> decide

theorem digitsOnly_isPrefixOf_groupBody (numeric : Bool) :
    digitsOnly.isPrefixOf ('>' :: groupBody numeric) = numeric := by
  cases numeric <;> rfl

/-- The pattern of a placeholder is a group under its name. -/
theorem toList_segmentPattern (identity : Option Identity) (param : List Char) :
    (segmentPattern identity (String.ofList (':' :: param))).toList = groupOpening ++
      (param ++ '>' :: groupBody (isNumericParam identity (String.ofList param))) := by
  rw [segmentPattern, String.toList_ofList]
  change ("(?P<" ++ String.ofList param ++ ">" ++
    (if isNumericParam identity (String.ofList param) = true then "\\d+" else "[^/]+") ++
      ")").toList = _
  cases isNumericParam identity (String.ofList param) <;> simp [groupOpening, groupBody]

/-- The pattern of a placeholder is one group. -/
theorem groups_segmentPattern (identity : Option Identity) {name : List Char} (nonempty : name ≠ [])
    (word : ∀ c ∈ name, isWord c = true) :
    groups (segmentPattern identity (String.ofList (':' :: name))) =
      [⟨String.ofList name, isNumericParam identity (String.ofList name)⟩] := by
  rw [groups, toList_segmentPattern]
  exact groupsIn_group nonempty word (not_mem_groupBody _) (digitsOnly_isPrefixOf_groupBody _)

theorem placeholderChars_of_word {name : List Char} (word : ∀ c ∈ name, isWord c = true) :
    placeholderChars name = [] := by
  induction name with
  | nil => rfl
  | cons c name ih =>
      rw [List.forall_mem_cons] at word
      have noColon : (c == ':') = false :=
        beq_false_of_ne fun colon => absurd (colon ▸ word.1) (by decide)
      rw [placeholderChars, noColon, if_neg Bool.false_ne_true, ih word.2]

/-- A colon with a word after it is one placeholder, named by the word. -/
theorem placeholders_placeholder {name : List Char} (nonempty : name ≠ [])
    (word : ∀ c ∈ name, isWord c = true) :
    placeholders (String.ofList (':' :: name)) = [String.ofList name] := by
  have nonempty' : name.isEmpty = false := List.isEmpty_eq_false_iff.mpr nonempty
  rw [placeholders, String.toList_ofList, placeholderChars, if_pos (beq_self_eq_true ':')]
  simp only [List.takeWhile_eq_self_iff.mpr word, nonempty', placeholderChars_of_word word]
  rfl

/-- The pattern of a segment depends on the identity only where its parameter follows the colon. -/
theorem segmentPattern_eq_none {identity : Option Identity} {segment : String}
    (other : ∀ param, segment = String.ofList (':' :: param) →
      isNumericParam identity (String.ofList param) = false) :
    segmentPattern identity segment = segmentPattern none segment := by
  rw [segmentPattern, segmentPattern]
  split
  · rename_i param textEq
    have notNumeric := other param (by rw [← textEq, String.ofList_toList])
    rw [isNumericParam] at notNumeric
    simp only [notNumeric]
    rfl
  · rfl

theorem word_of_openingGroup? {text : List Char} {group : Group}
    (opened : openingGroup? text = some group) :
    group.name.toList ≠ [] ∧ ∀ c ∈ group.name.toList, isWord c = true := by
  rw [openingGroup?] at opened
  split at opened
  · rename_i named
    cases opened
    rw [String.toList_ofList]
    simp only [Bool.and_eq_true, Bool.not_eq_true', List.isEmpty_eq_false_iff] at named
    exact ⟨named.1.2, fun c member => List.mem_takeWhile_imp member⟩
  · cases opened

theorem word_of_mem_groupsIn {text : List Char} {group : Group} (member : group ∈ groupsIn text) :
    group.name.toList ≠ [] ∧ ∀ c ∈ group.name.toList, isWord c = true := by
  induction text with
  | nil => cases member
  | cons c rest ih =>
      rw [groupsIn, List.mem_append, Option.mem_toList] at member
      exact member.elim word_of_openingGroup? ih

/-! ## Routes -/

/-- How many segments the namespace of a path has. -/
def namespaceLength (path : String) : Nat :=
  if 2 < (segments path).length then 2 else min (segments path).length 1

/-- The segments of the namespace. -/
def namespaceSegments (path : String) : List String := (segments path).take (namespaceLength path)

/-- The segments below the namespace. -/
def routeSegments (path : String) : List String := (segments path).drop (namespaceLength path)

theorem placeholders_eq (path : String) : placeholders path =
    (namespaceSegments path).flatMap placeholders ++ (routeSegments path).flatMap placeholders := by
  rw [← List.flatMap_append, namespaceSegments, routeSegments, List.take_append_drop,
    placeholders_segments]

theorem groups_restRoute (path : String) (identity : Option Identity) :
    groups (restRoute path identity).2 =
      (routeSegments path).flatMap fun segment => groups (segmentPattern identity segment) := by
  rw [← List.flatMap_map, ← groups_pathOf]
  rfl

/-- Whether the placeholders of a path are exposed to an identity: they are the named groups of the
pattern, in order, and the group of its parameter takes digits only exactly if it is a number. -/
structure Exposes (path : String) (identity : Option Identity) : Prop where
  names : (groups (restRoute path identity).2).map Group.name = placeholders path
  numeric : ∀ known, identity = some known → ∀ group ∈ groups (restRoute path identity).2,
    group.name = known.param → group.numeric = known.isNumeric

/-- Whether the placeholders of a path are whole segments below the namespace. -/
structure Exposable (path : String) : Prop where
  space : ∀ segment ∈ namespaceSegments path, placeholders segment = []
  route : ∀ segment ∈ routeSegments path, IsPlaceholder segment ∨ IsPlain segment

/-- The route of an exposable path has a group for every placeholder, whatever the identity. -/
theorem Exposable.exposes {path : String} (exposable : Exposable path)
    (identity : Option Identity) : Exposes path identity := by
  constructor
  · rw [groups_restRoute, placeholders_eq, List.flatMap_eq_nil_iff.mpr exposable.space,
      List.nil_append, List.map_flatMap]
    refine List.flatMap_congr fun segment member => ?_
    obtain ⟨name, rfl, nonempty, word⟩ | plain := exposable.route segment member
    · rw [groups_segmentPattern identity nonempty word, placeholders_placeholder nonempty word]
      rfl
    · rw [plain.groups_eq, plain.placeholders_eq]
      rfl
  · rintro known rfl group member named
    rw [groups_restRoute, List.mem_flatMap] at member
    obtain ⟨segment, segmentMem, member⟩ := member
    obtain ⟨name, rfl, nonempty, word⟩ | plain := exposable.route segment segmentMem
    · rw [groups_segmentPattern _ nonempty word, List.mem_singleton] at member
      subst member
      have named : String.ofList name = known.param := named
      change isNumericParam (some known) (String.ofList name) = known.isNumeric
      rw [named, isNumericParam, Option.any_some, beq_self_eq_true, Bool.true_and]
    · rw [plain.groups_eq] at member
      cases member

/-- A segment that is no placeholder has no group, as it would be numeric for one identity and not
for another one of the same parameter. -/
theorem groups_eq_nil_of_exposes {path : String} (exposes : ∀ identity, Exposes path identity)
    {segment : String} (member : segment ∈ routeSegments path) (other : ¬IsPlaceholder segment) :
    groups (segmentPattern none segment) = [] := by
  rw [List.eq_nil_iff_forall_not_mem]
  intro group groupMem
  obtain ⟨nonempty, word⟩ := word_of_mem_groupsIn groupMem
  have unnamed (kind : IdentityKind) (param : List Char)
      (segmentEq : segment = String.ofList (':' :: param)) :
      isNumericParam (some ⟨kind, group.name⟩) (String.ofList param) = false := by
    rw [isNumericParam, Option.any_some, Bool.and_eq_false_iff, beq_eq_false_iff_ne]
    refine .inl fun same => other ⟨param, segmentEq, ?_⟩
    have same : group.name = String.ofList param := same
    rw [same, String.toList_ofList] at nonempty word
    exact ⟨nonempty, word⟩
  have numericIff (kind : IdentityKind) :
      group.numeric = Identity.isNumeric ⟨kind, group.name⟩ := by
    refine (exposes (some ⟨kind, group.name⟩)).numeric _ rfl group ?_ rfl
    rw [groups_restRoute, List.mem_flatMap]
    exact ⟨segment, member, segmentPattern_eq_none (unnamed kind) ▸ groupMem⟩
  exact Bool.noConfusion ((numericIff .number).symm.trans (numericIff .string))

theorem length_flatMap_le {α β γ : Type} {first : α → List β} {second : α → List γ} {items : List α}
    (le : ∀ item ∈ items, (first item).length ≤ (second item).length) :
    (items.flatMap first).length ≤ (items.flatMap second).length := by
  induction items with
  | nil => exact Nat.le_refl 0
  | cons item items ih =>
      rw [List.forall_mem_cons] at le
      rw [List.flatMap_cons, List.flatMap_cons, List.length_append, List.length_append]
      exact Nat.add_le_add le.1 (ih le.2)

/-- Lists that are as long together as others that are nowhere longer are as long as they. -/
theorem length_eq_of_flatMap_le {α β γ : Type} {first : α → List β} {second : α → List γ}
    {items : List α} (le : ∀ item ∈ items, (first item).length ≤ (second item).length)
    (total : (items.flatMap second).length ≤ (items.flatMap first).length) :
    ∀ item ∈ items, (first item).length = (second item).length := by
  induction items with
  | nil => exact fun item member => nomatch member
  | cons item items ih =>
      rw [List.forall_mem_cons] at le
      have others := length_flatMap_le le.2
      rw [List.flatMap_cons, List.flatMap_cons, List.length_append, List.length_append] at total
      rw [List.forall_mem_cons]
      exact ⟨by omega, ih le.2 (by omega)⟩

section Names

variable {path : String} {identity : Option Identity}

theorem length_groups_of_isPlaceholder {segment : String} (whole : IsPlaceholder segment) :
    (groups (segmentPattern identity segment)).length = (placeholders segment).length := by
  obtain ⟨name, rfl, nonempty, word⟩ := whole
  rw [groups_segmentPattern identity nonempty word, placeholders_placeholder nonempty word]
  rfl

theorem length_groups_of_names
    (names : (groups (restRoute path identity).2).map Group.name = placeholders path) :
    ((routeSegments path).flatMap fun segment => groups (segmentPattern identity segment)).length =
      ((namespaceSegments path).flatMap placeholders).length +
        ((routeSegments path).flatMap placeholders).length := by
  rw [← groups_restRoute, ← List.length_map Group.name, names, placeholders_eq, List.length_append]

/-- If only whole placeholders bring groups, no other placeholder can have one. -/
theorem placeholders_eq_nil_of_names
    (names : (groups (restRoute path identity).2).map Group.name = placeholders path)
    (groupless : ∀ segment ∈ routeSegments path, ¬IsPlaceholder segment →
      groups (segmentPattern identity segment) = []) :
    (∀ segment ∈ namespaceSegments path, placeholders segment = []) ∧
      ∀ segment ∈ routeSegments path, ¬IsPlaceholder segment → placeholders segment = [] := by
  have total := length_groups_of_names names
  have atMost : ∀ segment ∈ routeSegments path,
      (groups (segmentPattern identity segment)).length ≤ (placeholders segment).length := by
    intro segment member
    by_cases whole : IsPlaceholder segment
    · exact (length_groups_of_isPlaceholder whole).le
    · rw [groupless segment member whole]
      exact Nat.zero_le _
  have bounded := length_flatMap_le atMost
  have spaceNil : (namespaceSegments path).flatMap placeholders = [] :=
    List.eq_nil_of_length_eq_zero (by omega)
  refine ⟨List.flatMap_eq_nil_iff.mp spaceNil, fun segment member other => ?_⟩
  have same := length_eq_of_flatMap_le atMost (by omega) segment member
  rw [groupless segment member other] at same
  exact List.eq_nil_of_length_eq_zero same.symm

/-- If all placeholders are whole segments, no other segment can bring a group. -/
theorem groups_eq_nil_of_names
    (names : (groups (restRoute path identity).2).map Group.name = placeholders path)
    (space : ∀ segment ∈ namespaceSegments path, placeholders segment = [])
    (others : ∀ segment ∈ routeSegments path, ¬IsPlaceholder segment → placeholders segment = []) :
    ∀ segment ∈ routeSegments path, ¬IsPlaceholder segment →
      groups (segmentPattern identity segment) = [] := by
  intro segment member other
  have total := length_groups_of_names names
  rw [List.flatMap_eq_nil_iff.mpr space, List.length_nil, Nat.zero_add] at total
  have atLeast : ∀ segment ∈ routeSegments path,
      (placeholders segment).length ≤ (groups (segmentPattern identity segment)).length := by
    intro segment member
    by_cases whole : IsPlaceholder segment
    · exact (length_groups_of_isPlaceholder whole).ge
    · rw [others segment member whole]
      exact Nat.zero_le _
  have same := length_eq_of_flatMap_le atLeast total.le segment member
  rw [others segment member other] at same
  exact List.eq_nil_of_length_eq_zero same.symm

end Names

theorem exposable_of_forall_exposes {path : String} (exposes : ∀ identity, Exposes path identity) :
    Exposable path := by
  obtain ⟨space, others⟩ := placeholders_eq_nil_of_names (exposes none).names
    fun segment => groups_eq_nil_of_exposes exposes
  refine ⟨space, fun segment member => ?_⟩
  by_cases whole : IsPlaceholder segment
  · exact .inl whole
  · exact .inr ⟨others segment member whole, fun identity =>
      groups_eq_nil_of_names (exposes identity).names space others segment member whole⟩

/-- No group is opened by what is neither empty nor a name. -/
theorem openingGroup?_eq_none {param : List Char}
    (other : param ≠ [] → ¬∀ c ∈ param, isWord c = true) (unclosed : '>' ∉ param)
    (body : List Char) :
    openingGroup? (groupOpening ++ (param ++ '>' :: body)) = none := by
  have noWord : isWord '>' = false := by decide
  rw [openingGroup?_opening, takeWhile_append_cons noWord, dropWhile_append_cons noWord, if_neg]
  rw [Bool.and_eq_true, not_and]
  intro named closed
  cases restEq : param.dropWhile isWord with
  | nil =>
      refine other ?_ (List.dropWhile_eq_nil_iff.mp restEq)
      rintro rfl
      cases named
  | cons c rest =>
      have member : c ∈ param := (List.dropWhile_sublist _).mem (restEq ▸ List.mem_cons_self)
      rw [restEq, List.cons_append, List.isPrefixOf_cons_cons, Bool.and_eq_true,
        beq_iff_eq] at closed
      exact unclosed (closed.1 ▸ member)

/-- A segment brings no group if it neither is a placeholder nor has the signs of a group. -/
theorem groups_eq_nil_of_not_mem {segment : String} (other : ¬IsPlaceholder segment)
    (unopened : '(' ∉ segment.toList) (unclosed : '>' ∉ segment.toList)
    (identity : Option Identity) : groups (segmentPattern identity segment) = [] := by
  cases textEq : segment.toList with
  | nil => rw [segmentPattern, textEq, groups, groupsIn_eq_nil unopened]
  | cons c param =>
      by_cases colon : c = ':'
      · subst colon
        have segmentEq : segment = String.ofList (':' :: param) := by
          rw [← textEq, String.ofList_toList]
        rw [textEq, List.mem_cons, not_or] at unopened unclosed
        rw [segmentEq, groups, toList_segmentPattern, groupsIn_opening _
          (by simp [unopened.2, not_mem_groupBody]), openingGroup?_eq_none _ unclosed.2]
        · rfl
        · exact fun nonempty word => other ⟨param, segmentEq, nonempty, word⟩
      · rw [segmentPattern, textEq]
        split
        · rename_i rest consEq
          exact absurd (List.cons.inj consEq).1 colon
        · rw [groups, groupsIn_eq_nil unopened]

theorem not_mem_toList_of_mem_segments {path segment : String} {c : Char} (absent : c ∉ path.toList)
    (member : segment ∈ segments path) : c ∉ segment.toList := by
  obtain ⟨piece, pieceMem, rfl⟩ := List.mem_map.mp (List.mem_of_mem_filter member)
  rw [String.toList_ofList]
  exact fun inPiece => absent (mem_of_mem_splitBy pieceMem c inPiece)

/-- Without parentheses and angle brackets of its own, an exposed path is exposable. -/
theorem Exposes.exposable {path : String} {identity : Option Identity}
    (exposes : Exposes path identity) (unopened : '(' ∉ path.toList)
    (unclosed : '>' ∉ path.toList) : Exposable path := by
  have groupless : ∀ segment ∈ routeSegments path, ¬IsPlaceholder segment →
      ∀ identity, groups (segmentPattern identity segment) = [] := by
    intro segment member other
    have member := List.mem_of_mem_drop member
    exact groups_eq_nil_of_not_mem other (not_mem_toList_of_mem_segments unopened member)
      (not_mem_toList_of_mem_segments unclosed member)
  obtain ⟨space, others⟩ := placeholders_eq_nil_of_names exposes.names
    fun segment member other => groupless segment member other identity
  refine ⟨space, fun segment member => ?_⟩
  by_cases whole : IsPlaceholder segment
  · exact .inl whole
  · exact .inr ⟨others segment member whole, groupless segment member whole⟩

/-- The pattern of a route has the placeholders of its path as named groups, with digits only for a
numeric identity, whatever the identity, exactly if they are whole segments below the namespace and
no other segment there brings a group of its own.  For a path without the signs of a group a single
identity decides. -/
theorem exposes_iff_exposable (path : String) :
    ((∀ identity, Exposes path identity) ↔ Exposable path) ∧
      ('(' ∉ path.toList → '>' ∉ path.toList →
        ∀ identity, Exposes path identity ↔ Exposable path) :=
  ⟨⟨exposable_of_forall_exposes, Exposable.exposes⟩, fun unopened unclosed identity =>
    ⟨fun exposes => exposes.exposable unopened unclosed,
      fun exposable => exposable.exposes identity⟩⟩

theorem exposes_iff_exposable_jobs :
    Exposable "/acme/v1/jobs/:id" ∧ Exposes "/acme/v1/jobs/:id" (some ⟨.number, "id"⟩) := by
  have exposes : Exposes "/acme/v1/jobs/:id" (some ⟨.number, "id"⟩) :=
    ⟨by decide, fun known same => Option.some.inj same ▸ by decide⟩
  have single := (exposes_iff_exposable "/acme/v1/jobs/:id").2 (by decide) (by decide)
  exact ⟨(single _).mp exposes, exposes⟩

/-- A resource whose items are found under paths that end in `job-` and a number. -/
def tagged : List (String × Config.Resource) :=
  [("job",
    { Plugin.listing "job" "/acme/v1/jobs" with
      routes := { get := some ⟨"/acme/v1/job-:id", .get, none⟩ }
      identity := some ⟨.number, none⟩ })]

/-- A text that declares the resource. -/
def taggedSource : String :=
  "version = 1\nnamespace = \"acme\"\n[resources.job]\nname = \"job\"\nschema = \"auto\"\n" ++
    "identity.type = \"number\"\nstorage.mode = \"transient\"\n" ++
    "routes.get.path = \"/acme/v1/job-:id\"\nroutes.get.method = \"GET\"\n"

/-- The route of the accepted resource holds its parameter, and its pattern exposes nothing. -/
theorem placeholder_lost_within_segment :
    Config.parse .toml taggedSource = .ok ((Plugin.acme tagged).config, []) ∧
      normalisePath "/acme/v1/job-:id" = .ok "/acme/v1/job-:id" ∧
      placeholders "/acme/v1/job-:id" = ["id"] ∧
      restRoute "/acme/v1/job-:id" (some ⟨.number, "id"⟩) = ("acme/v1", "/job-:id") ∧
      ¬Exposes "/acme/v1/job-:id" (some ⟨.number, "id"⟩) := by
  have literal {l : List Char} : (String.ofList l).toList = l := String.toList_ofList
  have accepted : Config.parse .toml taggedSource = .ok ((Plugin.acme tagged).config, []) :=
    Config.parse_eq_ok_of_toList (toList_append_eq (toList_append_eq literal literal) literal)
      (by decide +kernel) (by decide +kernel)
  have normal : normalisePath "/acme/v1/job-:id" = .ok "/acme/v1/job-:id" :=
    eq_ok_of_toOption (by decide)
  refine ⟨accepted, normal, by decide, by decide, fun exposes => ?_⟩
  exact absurd exposes.names (by decide)

end RestPlugin.Controller
