import Mathlib.Data.List.DropRight
import RestPlugin.Ir.Route
import RestPlugin.Proofs.Text.Naming

/-!
# Normalised paths

A path that is normalised is a slash followed by segments with single slashes between them, and it
keeps its placeholders.  Trimming and moving the segments together only takes away white space and
slashes, at which no placeholder begins and every placeholder ends.
-/

namespace RestPlugin

/-! ## Placeholders of the pieces of a text -/

/-- No placeholder begins at this character, and none goes on across it. -/
def EndsPlaceholder (c : Char) : Prop := c ≠ ':' ∧ Text.isWord c = false

theorem endsPlaceholder_slash : EndsPlaceholder '/' := by
  rw [EndsPlaceholder]
  decide

theorem endsPlaceholder_of_isBlank {c : Char} (blank : Text.isBlank c = true) :
    EndsPlaceholder c := by
  constructor
  · rintro rfl
    exact absurd blank (by decide)
  · rw [Text.isWord, Bool.or_eq_false_iff, beq_eq_false_iff_ne]
    constructor
    · rw [← Bool.not_eq_true]
      intro alnum
      rw [Text.isBlank_of_isAlnum alnum] at blank
      cases blank
    · rintro rfl
      exact absurd blank (by decide)

theorem placeholderChars_cons {c : Char} (ends : EndsPlaceholder c) (rest : List Char) :
    placeholderChars (c :: rest) = placeholderChars rest := by
  rw [placeholderChars, if_neg (by simpa using ends.1)]

/-- A character at which placeholders end divides those before it from those after it. -/
theorem placeholderChars_append {c : Char} (ends : EndsPlaceholder c) (l r : List Char) :
    placeholderChars (l ++ c :: r) = placeholderChars l ++ placeholderChars r := by
  induction l with
  | nil => exact placeholderChars_cons ends r
  | cons d l ih =>
      have name : (l ++ c :: r).takeWhile Text.isWord = l.takeWhile Text.isWord := by
        rw [List.takeWhile_append, List.takeWhile_cons_of_neg (by simp [ends.2])]
        split
        · rename_i all
          rw [List.append_nil]
          exact ((List.takeWhile_prefix _).eq_of_length all).symm
        · rfl
      rw [List.cons_append, placeholderChars, placeholderChars, name, ih]
      split
      · dsimp only
        split <;> rfl
      · rfl

section Trimmed

variable {p : Char → Bool} (ends : ∀ c, p c = true → EndsPlaceholder c)
include ends

theorem placeholderChars_dropWhile (l : List Char) :
    placeholderChars (l.dropWhile p) = placeholderChars l := by
  induction l with
  | nil => rfl
  | cons c rest ih =>
      rw [List.dropWhile_cons]
      split
      · rename_i drops
        rw [placeholderChars_cons (ends c drops), ih]
      · rfl

theorem placeholderChars_rdropWhile (l : List Char) :
    placeholderChars (l.rdropWhile p) = placeholderChars l := by
  induction l using List.reverseRecOn with
  | nil => rfl
  | append_singleton l c ih =>
      rw [List.rdropWhile_concat]
      split
      · rename_i drops
        rw [ih, placeholderChars_append (ends c drops), placeholderChars, List.append_nil]
      · rfl

end Trimmed

theorem placeholders_trim (path : String) : placeholders (Text.trim path) = placeholders path := by
  have ends (c : Char) : Text.isBlank c = true → EndsPlaceholder c := endsPlaceholder_of_isBlank
  rw [placeholders, Text.trim, String.toList_ofList]
  change (placeholderChars (List.rdropWhile Text.isBlank _)).map _ = _
  rw [placeholderChars_rdropWhile ends, placeholderChars_dropWhile ends, placeholders]

theorem placeholders_empty : placeholders "" = [] := rfl

theorem placeholders_append_slash (first second : String) :
    placeholders (first ++ "/" ++ second) = placeholders first ++ placeholders second := by
  simp only [placeholders, String.toList_append, List.append_assoc, ← List.map_append,
    ← placeholderChars_append endsPlaceholder_slash]
  rfl

/-- The placeholders of joined segments are those of the segments. -/
theorem placeholders_join (parts : List String) :
    placeholders (Text.join "/" parts) = parts.flatMap placeholders := by
  induction parts with
  | nil => rfl
  | cons part parts ih =>
      cases parts with
      | nil => rw [Text.join, List.flatMap_singleton]
      | cons second parts =>
          rw [Text.join_cons_of_ne_nil _ _ (List.cons_ne_nil second parts), List.flatMap_cons,
            placeholders_append_slash, ih]

namespace Ir

/-! ## Segments -/

theorem segments_append_slash (first second : String) :
    segments (first ++ "/" ++ second) = segments first ++ segments second := by
  have apart : Text.splitOnChar '/' (first ++ "/" ++ second) =
      Text.splitOnChar '/' first ++ Text.splitOnChar '/' second :=
    Text.splitOnChar_append '/' first second
  rw [segments, apart, List.filter_append]
  rfl

theorem segments_of_not_mem {part : String} (free : '/' ∉ part.toList) :
    segments part = [part].filter (· != "") := by
  rw [segments, Text.splitOnChar_of_not_mem free]

/-- The segments of joined pieces are the pieces that are not empty. -/
theorem segments_join {parts : List String} (free : ∀ part ∈ parts, '/' ∉ part.toList) :
    segments (Text.join "/" parts) = parts.filter (· != "") := by
  induction parts with
  | nil => rfl
  | cons part parts ih =>
      rw [List.forall_mem_cons] at free
      cases parts with
      | nil => exact segments_of_not_mem free.1
      | cons second parts =>
          rw [Text.join_cons_of_ne_nil _ _ (List.cons_ne_nil second parts), segments_append_slash,
            segments_of_not_mem free.1, ih free.2, ← List.filter_append, List.singleton_append]

/-- Parts without slashes are the segments of the path that they are joined to. -/
theorem segments_slash_join {parts : List String} (free : ∀ part ∈ parts, '/' ∉ part.toList) :
    segments ("/" ++ Text.join "/" parts) = parts.filter (· != "") := by
  have apart := segments_append_slash "" (Text.join "/" parts)
  rw [String.empty_append, segments_join free] at apart
  rw [apart]
  rfl

/-- Segments have no slashes. -/
theorem slash_not_mem_of_mem_segments {path part : String} (member : part ∈ segments path) :
    '/' ∉ part.toList := by
  obtain ⟨piece, pieceMem, rfl⟩ := List.mem_map.mp (List.mem_of_mem_filter member)
  rw [String.toList_ofList]
  intro slash
  exact absurd (Text.not_of_mem_splitBy pieceMem _ slash) (by decide)

/-- Segments are not empty. -/
theorem ne_empty_of_mem_segments {path part : String} (member : part ∈ segments path) :
    part ≠ "" := by
  simpa using List.of_mem_filter member

/-- A path that is made of segments has these segments. -/
theorem segments_of_parts {parts : List String} (filled : ∀ part ∈ parts, part ≠ "")
    (free : ∀ part ∈ parts, '/' ∉ part.toList) : segments ("/" ++ Text.join "/" parts) = parts := by
  rw [segments_slash_join free]
  exact List.filter_eq_self.mpr fun part member => bne_iff_ne.mpr (filled part member)

/-- The placeholders of a path are those of its segments. -/
theorem placeholders_segments (path : String) :
    (segments path).flatMap placeholders = placeholders path := by
  have kept (parts : List String) :
      (parts.filter (· != "")).flatMap placeholders = parts.flatMap placeholders := by
    induction parts with
    | nil => rfl
    | cons part parts ih =>
        rw [List.filter_cons, List.flatMap_cons, ← ih]
        split
        · rw [List.flatMap_cons]
        · rename_i isEmpty
          obtain rfl : part = "" := by simpa using isEmpty
          rw [placeholders_empty, List.nil_append]
  calc (segments path).flatMap placeholders
      = (Text.splitOnChar '/' path).flatMap placeholders := kept _
    _ = placeholders (Text.join "/" (Text.splitOnChar '/' path)) := (placeholders_join _).symm
    _ = placeholders path := congrArg placeholders (Text.join_splitOnChar '/' path)

/-! ## Normalising -/

/-- A path is normal if it is a slash followed by segments with single slashes between them, none of
which goes up, and if it lies outside of what belongs to WordPress.  The path of no segments is the
slash alone. -/
structure IsNormal (path : String) : Prop where
  exists_segments : ∃ parts, path = "/" ++ Text.join "/" parts ∧
    ∀ part ∈ parts, part ≠ "" ∧ part ≠ ".." ∧ '/' ∉ part.toList
  not_reserved : ∀ beginning ∈ reservedBeginnings,
    path ≠ beginning ∧ ∀ rest, path ≠ beginning ++ "/" ++ rest

/-- A path is within another one if it is this path or goes on after it with a slash. -/
theorem isWithin_iff (beginning path : String) :
    isWithin beginning path = true ↔
      path = beginning ∨ ∃ rest, path = beginning ++ "/" ++ rest := by
  rw [isWithin, Bool.or_eq_true, beq_iff_eq, Text.startsWith, List.isPrefixOf_iff_prefix]
  refine or_congr Iff.rfl ⟨?_, ?_⟩
  · rintro ⟨rest, restEq⟩
    refine ⟨String.ofList rest, String.toList_inj.mp ?_⟩
    rw [String.toList_append (s := beginning ++ "/"), String.toList_ofList, restEq]
  · rintro ⟨rest, rfl⟩
    exact ⟨rest.toList, String.toList_append.symm⟩

/-- A normalised path consists of the segments of the trimmed one. -/
theorem normalisePath_eq_ok {path normal : String} (normalised : normalisePath path = .ok normal) :
    normal = "/" ++ Text.join "/" (segments (Text.trim path)) ∧ ".." ∉ segments (Text.trim path) ∧
      ∀ beginning ∈ reservedBeginnings, isWithin beginning normal = false := by
  rw [normalisePath] at normalised
  dsimp only at normalised
  split at normalised
  · cases normalised
  · split at normalised
    · cases normalised
    · split at normalised
      · cases normalised
      · rename_i noParent
        split at normalised
        · cases normalised
        · rename_i outside
          cases normalised
          exact ⟨rfl, by simpa using noParent, by simpa using outside⟩

/-- What is normalised is normal. -/
theorem isNormal_of_normalisePath {path normal : String}
    (normalised : normalisePath path = .ok normal) : IsNormal normal := by
  obtain ⟨normalEq, noParent, outside⟩ := normalisePath_eq_ok normalised
  constructor
  · refine ⟨_, normalEq, fun part member =>
      ⟨ne_empty_of_mem_segments member, ?_, slash_not_mem_of_mem_segments member⟩⟩
    rintro rfl
    exact noParent member
  · intro beginning member
    have apart := (isWithin_iff beginning normal).not.mp
      (by simp [outside beginning member])
    exact ⟨fun same => apart (.inl same), fun rest below => apart (.inr ⟨rest, below⟩)⟩

/-- Normalising a path keeps its placeholders. -/
theorem placeholders_of_normalisePath {path normal : String}
    (normalised : normalisePath path = .ok normal) : placeholders normal = placeholders path := by
  obtain ⟨rfl, -, -⟩ := normalisePath_eq_ok normalised
  generalize trimmedEq : Text.trim path = trimmed
  calc placeholders ("/" ++ Text.join "/" (segments trimmed))
      = placeholders "" ++ placeholders (Text.join "/" (segments trimmed)) := by
        rw [← placeholders_append_slash, String.empty_append]
    _ = (segments trimmed).flatMap placeholders := by
        rw [placeholders_empty, List.nil_append, placeholders_join]
    _ = placeholders trimmed := placeholders_segments trimmed
    _ = placeholders path := by rw [← trimmedEq, placeholders_trim]

end Ir

end RestPlugin
