import RestPlugin.Proofs.Except
import RestPlugin.Proofs.Ir.Paths

/-!
# Normalising a path again

A path is trimmed before its segments are moved together.  So white space that stands before the
slashes at the end of a path is kept, and it is only taken off when the result is normalised again.
The paths that normalising leaves as they are, are the normal ones that do not end in white space.
-/

namespace RestPlugin

namespace Text

/-! ## White space at the end -/

/-- A text that ends in white space. -/
def EndsBlank (text : String) : Prop := ∃ c ∈ text.toList.getLast?, isBlank c = true

/-- Drops white space from the end of a text. -/
def trimEnd (text : String) : String := String.ofList (text.toList.rdropWhile isBlank)

/-- Trimming the end changes nothing exactly if the text does not end in white space. -/
theorem trimEnd_eq_self_iff {text : String} : trimEnd text = text ↔ ¬EndsBlank text := by
  rw [trimEnd, ← String.toList_inj, String.toList_ofList, List.rdropWhile_eq_self_iff, EndsBlank]
  cases last : text.toList.getLast? with
  | none => simp [List.getLast?_eq_none_iff.mp last]
  | some c =>
      have nonempty : text.toList ≠ [] := by
        intro isNil
        rw [isNil] at last
        cases last
      have lastEq : text.toList.getLast nonempty = c := by
        rwa [List.getLast?_eq_some_getLast nonempty, Option.some_inj] at last
      simp [nonempty, lastEq]

theorem prefix_trimEnd (text : String) : (trimEnd text).toList <+: text.toList := by
  rw [trimEnd, String.toList_ofList]
  exact List.rdropWhile_prefix _ _

/-- Behind a slash, white space is dropped from the rest only. -/
theorem trimEnd_append_slash (before after : String) :
    trimEnd (before ++ "/" ++ after) = before ++ "/" ++ trimEnd after := by
  have slash : isBlank '/' = false := by decide
  rw [← String.toList_inj, trimEnd, String.toList_ofList]
  simp only [String.toList_append, trimEnd, String.toList_ofList, List.append_assoc]
  change List.rdropWhile isBlank (before.toList ++ '/' :: after.toList) = _
  rw [List.rdropWhile, List.reverse_append, List.reverse_cons, List.append_assoc,
    List.dropWhile_append]
  split
  · rename_i allBlank
    rw [List.isEmpty_iff] at allBlank
    rw [List.singleton_append, List.dropWhile_cons_of_neg (by simp [slash]), List.rdropWhile,
      allBlank]
    simp
  · simp [List.rdropWhile]

theorem trim_slash_append (text : String) : trim ("/" ++ text) = "/" ++ trimEnd text := by
  have ends := trimEnd_append_slash "" text
  rw [String.empty_append] at ends
  have start : ("/" ++ text).toList.dropWhile isBlank = ("/" ++ text).toList := by
    rw [String.toList_append]
    rfl
  rw [← ends, trim, trimBy, start]
  rfl

/-! ## Joined pieces -/

/-- What stands before the last of joined pieces does not depend on it. -/
theorem exists_join_concat (separator : String) (pieces : List String) :
    ∃ before, ∀ last, join separator (pieces ++ [last]) = before ++ last := by
  induction pieces with
  | nil => exact ⟨"", fun last => String.empty_append.symm⟩
  | cons piece pieces ih =>
      obtain ⟨before, joined⟩ := ih
      refine ⟨piece ++ separator ++ before, fun last => ?_⟩
      rw [List.cons_append, join_cons_of_ne_nil _ _ (List.append_ne_nil_of_right_ne_nil _
        (List.cons_ne_nil _ _)), joined, ← String.append_assoc]

/-- Trimming the end of joined pieces trims the last piece. -/
theorem trimEnd_join_concat (pieces : List String) (last : String) :
    trimEnd (join "/" (pieces ++ [last])) = join "/" (pieces ++ [trimEnd last]) := by
  induction pieces with
  | nil => rfl
  | cons piece pieces ih =>
      have nonempty (last : String) : pieces ++ [last] ≠ [] :=
        List.append_ne_nil_of_right_ne_nil _ (List.cons_ne_nil _ _)
      rw [List.cons_append, List.cons_append, join_cons_of_ne_nil _ _ (nonempty _),
        join_cons_of_ne_nil _ _ (nonempty _), trimEnd_append_slash, ih]

/-- Joining fewer pieces gives a beginning of joining more. -/
theorem prefix_join (separator : String) (pieces later : List String) :
    (join separator pieces).toList <+: (join separator (pieces ++ later)).toList := by
  induction pieces with
  | nil => exact List.nil_prefix
  | cons piece pieces ih =>
      cases pieces with
      | nil =>
          cases later with
          | nil => exact List.prefix_rfl
          | cons next later =>
              rw [List.singleton_append, join_cons_of_ne_nil _ _ (List.cons_ne_nil _ _),
                String.append_assoc, String.toList_append]
              exact List.prefix_append _ _
      | cons second pieces =>
          have more : second :: pieces ++ later ≠ [] := List.cons_ne_nil _ _
          rw [List.cons_append, join_cons_of_ne_nil _ _ (List.cons_ne_nil second pieces),
            join_cons_of_ne_nil _ _ more, String.toList_append (s := piece ++ separator),
            String.toList_append (s := piece ++ separator), List.prefix_append_right_inj]
          exact ih

/-- Joined pieces end in white space if the last one does. -/
theorem endsBlank_join_concat_iff {pieces : List String} {last : String} :
    EndsBlank ("/" ++ join "/" (pieces ++ [last])) ↔ EndsBlank last := by
  obtain ⟨before, joined⟩ := exists_join_concat "/" pieces
  have ends := trimEnd_append_slash "" (join "/" (pieces ++ [last]))
  rw [String.empty_append, trimEnd_join_concat] at ends
  rw [← not_iff_not, ← trimEnd_eq_self_iff, ← trimEnd_eq_self_iff, ends,
    String.append_right_inj, joined, joined, String.append_right_inj]

end Text

namespace Ir

open Text

/-! ## Paths that stay as they are -/

/-- A path that begins with a slash is neither empty nor absolute, so two tests are left. -/
theorem normalisePath_of_trim_eq {path rest : String} (trimmed : trim path = "/" ++ rest) :
    normalisePath path =
      if (segments ("/" ++ rest)).contains ".." then .error (.parentSegment ("/" ++ rest))
      else
        match reservedBeginnings.find?
            (isWithin · ("/" ++ join "/" (segments ("/" ++ rest)))) with
        | some beginning =>
            .error (.reserved ("/" ++ join "/" (segments ("/" ++ rest))) beginning)
        | none => .ok ("/" ++ join "/" (segments ("/" ++ rest))) := by
  have chars : ("/" ++ rest).toList = '/' :: rest.toList := String.toList_append
  have nonempty : "/" ++ rest ≠ "" := by
    intro isEmpty
    rw [isEmpty] at chars
    cases chars
  have relative : isAbsoluteUrl ("/" ++ rest) = false := by
    simp only [isAbsoluteUrl, startsWith, lowerString, String.toList_ofList, chars]
    rfl
  rw [normalisePath, trimmed]
  have filled : ¬("/" ++ rest == "") = true := fun isEmpty => nonempty (beq_iff_eq.mp isEmpty)
  exact (if_neg filled).trans ((if_neg (Bool.not_eq_true _ ▸ relative)).trans rfl)

/-- A normal path is refused by no test, so nothing but trimming can change it. -/
theorem normalisePath_of_isNormal {path : String} (normal : IsNormal path)
    (trimmed : trim path = path) : normalisePath path = .ok path := by
  obtain ⟨parts, rfl, each⟩ := normal.exists_segments
  have partsEq : segments ("/" ++ join "/" parts) = parts :=
    segments_of_parts (fun part member => (each part member).1)
      fun part member => (each part member).2.2
  have noParent : ¬parts.contains ".." := by
    rw [List.contains_iff_mem]
    exact fun member => (each ".." member).2.1 rfl
  have outside : reservedBeginnings.find? (isWithin · ("/" ++ join "/" parts)) = none := by
    rw [List.find?_eq_none]
    intro beginning member
    rw [isWithin_iff]
    rintro (same | ⟨rest, below⟩)
    · exact (normal.not_reserved beginning member).1 same
    · exact (normal.not_reserved beginning member).2 rest below
  rw [normalisePath_of_trim_eq trimmed, partsEq, if_neg noParent, outside]

/-- What normalising makes of the segments of a normal path: the last one loses the white space at
its end, and is left out if nothing else is in it. -/
theorem segments_trim_concat {parts : List String} {last : String}
    (filled : ∀ part ∈ parts, part ≠ "") (free : ∀ part ∈ parts ++ [last], '/' ∉ part.toList) :
    segments (trim ("/" ++ join "/" (parts ++ [last]))) =
      if trimEnd last = "" then parts else parts ++ [trimEnd last] := by
  have freeEnd : ∀ part ∈ parts ++ [trimEnd last], '/' ∉ part.toList := by
    intro part member
    rcases List.mem_append.mp member with inParts | isLast
    · exact free part (List.mem_append_left _ inParts)
    · rw [List.mem_singleton.mp isLast]
      intro slash
      exact free last (List.mem_append_right _ List.mem_cons_self)
        ((prefix_trimEnd last).subset slash)
  have kept : parts.filter (· != "") = parts :=
    List.filter_eq_self.mpr fun part member => bne_iff_ne.mpr (filled part member)
  rw [trim_slash_append, trimEnd_join_concat, segments_slash_join freeEnd, List.filter_append, kept]
  split
  · rename_i gone
    rw [gone]
    exact List.append_nil parts
  · rename_i there
    rw [List.filter_cons_of_pos (by simpa using there), List.filter_nil]

/-- Normalising leaves a path as it is exactly if it is normal and does not end in white space. -/
theorem normalisePath_eq_self_iff {path : String} :
    normalisePath path = .ok path ↔ IsNormal path ∧ ¬EndsBlank path := by
  constructor
  · intro settled
    have normal := isNormal_of_normalisePath settled
    refine ⟨normal, ?_⟩
    have kept := congrArg segments (normalisePath_eq_ok settled).1
    rw [segments_of_parts (fun _ => ne_empty_of_mem_segments)
      (fun _ => slash_not_mem_of_mem_segments)] at kept
    obtain ⟨parts, rfl, each⟩ := normal.exists_segments
    have filled (part : String) (member : part ∈ parts) := (each part member).1
    have free (part : String) (member : part ∈ parts) := (each part member).2.2
    rw [segments_of_parts filled free] at kept
    rcases List.eq_nil_or_concat' parts with rfl | ⟨above, last, rfl⟩
    · rw [← trimEnd_eq_self_iff]
      rfl
    · rw [segments_trim_concat (fun part member => filled part (List.mem_append_left _ member))
        free] at kept
      rw [endsBlank_join_concat_iff, ← trimEnd_eq_self_iff]
      split at kept
      · simp at kept
      · exact (List.cons.inj (List.append_cancel_left kept)).1.symm
  · rintro ⟨normal, notBlank⟩
    obtain ⟨parts, rfl, -⟩ := normal.exists_segments
    refine normalisePath_of_isNormal normal ?_
    have ends := trimEnd_append_slash "" (join "/" parts)
    rw [String.empty_append] at ends
    rw [trim_slash_append, ← ends, trimEnd_eq_self_iff]
    exact notBlank

/-- Normalising a path again only takes something off its end. -/
theorem prefix_of_normalisePath {path again : String} (normal : IsNormal path)
    (normalised : normalisePath path = .ok again) : again.toList <+: path.toList := by
  obtain ⟨parts, rfl, each⟩ := normal.exists_segments
  obtain ⟨rfl, -, -⟩ := normalisePath_eq_ok normalised
  rcases List.eq_nil_or_concat' parts with rfl | ⟨above, last, rfl⟩
  · exact List.prefix_rfl
  · rw [segments_trim_concat (fun part member => (each part (List.mem_append_left _ member)).1)
      (fun part member => (each part member).2.2), String.toList_append, String.toList_append,
      List.prefix_append_right_inj]
    split
    · exact prefix_join "/" above [last]
    · obtain ⟨before, joined⟩ := exists_join_concat "/" above
      rw [joined, joined, String.toList_append, String.toList_append, List.prefix_append_right_inj]
      exact prefix_trimEnd last

/-- A normal path is refused only if, without the white space at its end, it goes up or comes to lie
in what belongs to WordPress. -/
theorem fault_of_isNormal {path : String} {fault : PathFault} (normal : IsNormal path)
    (refused : normalisePath path = .error fault) :
    fault = .parentSegment (trimEnd path) ∨
      ∃ shorter, ∃ beginning ∈ reservedBeginnings, fault = .reserved shorter beginning := by
  obtain ⟨parts, rfl, -⟩ := normal.exists_segments
  have ends := trimEnd_append_slash "" (join "/" parts)
  rw [String.empty_append] at ends
  rw [normalisePath_of_trim_eq (trim_slash_append _)] at refused
  split at refused
  · cases refused
    exact .inl (by rw [ends])
  · split at refused
    · rename_i beginning found
      cases refused
      exact .inr ⟨_, beginning, List.mem_of_find?_eq_some found, rfl⟩
    · cases refused

/-- A normalised path stays as it is when it is normalised again, exactly if it does not end in
white space, that is unless white space stands before the slashes at the end of the path that was
given.  Otherwise the result is a beginning of it, or it is refused after all. -/
theorem normalised_again_iff {path normal : String} (normalised : normalisePath path = .ok normal) :
    (normalisePath normal = .ok normal ↔ ¬EndsBlank normal) ∧
    (EndsBlank normal ↔ ∃ last ∈ (segments (trim path)).getLast?, EndsBlank last) ∧
    (∀ again, normalisePath normal = .ok again → again.toList <+: normal.toList) ∧
    ∀ fault, normalisePath normal = .error fault →
      fault = .parentSegment (trimEnd normal) ∨
        ∃ shorter, ∃ beginning ∈ reservedBeginnings, fault = .reserved shorter beginning := by
  have isNormal := isNormal_of_normalisePath normalised
  refine ⟨?_, ?_, fun again => prefix_of_normalisePath isNormal, fun fault =>
    fault_of_isNormal isNormal⟩
  · rw [normalisePath_eq_self_iff, and_iff_right isNormal]
  · rw [(normalisePath_eq_ok normalised).1]
    rcases List.eq_nil_or_concat' (segments (trim path)) with noParts | ⟨parts, last, partsEq⟩
    · rw [noParts]
      exact iff_of_false (trimEnd_eq_self_iff.mp rfl) (by simp)
    · rw [partsEq, endsBlank_join_concat_iff, List.getLast?_concat]
      simp

/-- A path with white space in its middle is left alone. -/
theorem normalised_again_iff_shelves :
    normalisePath " acme//v1/my books/ " = .ok "/acme/v1/my books" ∧
      normalisePath "/acme/v1/my books" = .ok "/acme/v1/my books" := by
  have normalised : normalisePath " acme//v1/my books/ " = .ok "/acme/v1/my books" :=
    eq_ok_of_toOption (by decide +kernel)
  refine ⟨normalised, (normalised_again_iff normalised).1.mpr ?_⟩
  rw [← trimEnd_eq_self_iff]
  decide +kernel

/-- White space before the last slash is taken off in the second round only, and what is accepted in
the first round can be refused in the second. -/
theorem normalised_again_differs :
    normalisePath "/acme/v1/jobs /" = .ok "/acme/v1/jobs " ∧
      normalisePath "/acme/v1/jobs " = .ok "/acme/v1/jobs" ∧
      normalisePath "/wp-json /" = .ok "/wp-json " ∧
      normalisePath "/wp-json " = .error (.reserved "/wp-json" "/wp-json") := by
  refine ⟨eq_ok_of_toOption (by decide +kernel), eq_ok_of_toOption (by decide +kernel),
    eq_ok_of_toOption (by decide +kernel), ?_⟩
  have trimmed : trim "/wp-json " = "/" ++ "wp-json" := by decide +kernel
  rw [normalisePath_of_trim_eq trimmed]
  rfl

end Ir

end RestPlugin
