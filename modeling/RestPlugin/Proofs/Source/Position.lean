import RestPlugin.Proofs.Text.Bytes
import RestPlugin.Source.Position

/-!
# Spans and offsets

The span of a key is found by the text around the key, yet covers the key alone.  A line and a
column are turned back into the offset at which they were counted; lines are counted by their line
feeds and columns by bytes, so that an offset inside of a character has a line and a column as well.
-/

namespace RestPlugin.Source

open Text

/-! ## Keys -/

/-- A pattern by which a key is found has one byte in front of the key. -/
theorem of_mem_keyPatterns {key pattern : String} (member : pattern ∈ keyPatterns key) :
    ∃ opening closing : Char, opening.utf8Size = 1 ∧
      pattern.toList = opening :: (key.toList ++ [closing]) := by
  simp only [keyPatterns, List.mem_cons, List.not_mem_nil, or_false] at member
  rcases member with rfl | rfl | rfl
  · exact ⟨'.', ']', rfl, by simp⟩
  · exact ⟨'.', '.', rfl, by simp⟩
  · exact ⟨'"', '"', rfl, by simp⟩

/-- The span of a key covers an occurrence of the key. -/
theorem of_findKeySpan_eq_some {text key : String} {span : Span}
    (found : findKeySpan text key = some span) :
    ∃ before later : String, text = before ++ key ++ later ∧
      before.utf8ByteSize = span.offset ∧ key.utf8ByteSize = span.length := by
  obtain ⟨pattern, member, found⟩ := List.exists_of_findSome?_eq_some found
  obtain ⟨offset, searched, rfl⟩ := Option.map_eq_some_iff.mp found
  obtain ⟨before, later, charsEq, offsetEq⟩ := of_findFrom_eq_some searched
  obtain ⟨opening, closing, narrow, patternEq⟩ := of_mem_keyPatterns member
  refine ⟨String.ofList (before ++ [opening]), String.ofList (closing :: later), ?_, ?_, rfl⟩
  · rw [← String.toList_inj, charsEq, patternEq]
    simp
  · rw [← byteLength_toList, String.toList_ofList, byteLength_append, byteLength, byteLength,
      narrow]
    change byteLength before + 1 = offset + 1
    rw [← offsetEq, Nat.zero_add]

/-- No span is found exactly if the text contains none of the patterns for the key. -/
theorem findKeySpan_eq_none_iff {text key : String} :
    findKeySpan text key = none ↔
      ∀ pattern ∈ keyPatterns key, ¬pattern.toList <:+: text.toList := by
  rw [findKeySpan, List.findSome?_eq_none_iff]
  simp only [Option.map_eq_none_iff, find?_eq_none_iff]

/-! ## Lines -/

variable {line rest : List Char}

/-- The lines of a text, put together, are the text. -/
theorem flatten_lineChunks (l : List Char) : (lineChunks l).flatten = l := by
  induction l with
  | nil => rfl
  | cons c rest ih =>
      rw [lineChunks]
      split
      · rw [List.flatten_cons, ih, List.singleton_append]
      · split
        · rename_i noChunk
          rw [noChunk] at ih
          simp [← ih]
        · rename_i chunk chunks chunksEq
          rw [chunksEq] at ih
          simp [← ih]

theorem lineChunks_append (unbroken : '\n' ∉ line) (rest : List Char) :
    lineChunks (line ++ '\n' :: rest) = (line ++ ['\n']) :: lineChunks rest := by
  induction line with
  | nil => rfl
  | cons c line ih =>
      rw [List.mem_cons, not_or] at unbroken
      rw [List.cons_append, lineChunks, if_neg (by simpa using Ne.symm unbroken.1),
        ih unbroken.2]
      rfl

theorem lineChunks_unbroken (unbroken : '\n' ∉ line) (filled : line ≠ []) :
    lineChunks line = [line] := by
  induction line with
  | nil => exact absurd rfl filled
  | cons c line ih =>
      rw [List.mem_cons, not_or] at unbroken
      rw [lineChunks, if_neg (by simpa using Ne.symm unbroken.1)]
      by_cases last : line = []
      · rw [last]
        rfl
      · rw [ih unbroken.2 last]

/-- What holds of a text without line feeds, and of a text whenever it holds of the part behind the
first line, holds of every text. -/
theorem lineInduction {motive : List Char → Prop}
    (last : ∀ line, '\n' ∉ line → motive line)
    (broken : ∀ line rest, '\n' ∉ line → motive rest → motive (line ++ '\n' :: rest))
    (l : List Char) : motive l := by
  by_cases lines : '\n' ∈ l
  · obtain ⟨line, rest, rfl, unbroken⟩ := List.eq_append_cons_of_mem lines
    exact broken line rest unbroken (lineInduction last broken rest)
  · exact last l lines
termination_by l.length
decreasing_by
  simp only [*, List.length_append, List.length_cons]
  omega

/-! ## Offsets -/

/-- The byte of a line feed. -/
def lineFeedByte : UInt8 := UInt8.ofNat '\n'.toNat

/-- The number of bytes behind the last line feed. -/
def sinceLineFeed (before : List UInt8) : Nat :=
  (before.reverse.takeWhile (· != lineFeedByte)).length

/-- The position of the byte at an offset, by the bytes before it: there is one line more than line
feeds, and one column more than bytes behind the last line feed. -/
def positionOf (text : String) (offset : Nat) : Position :=
  ⟨((bytes text).take offset).count lineFeedByte + 1,
    sinceLineFeed ((bytes text).take offset) + 1⟩

theorem lineFeedByte_not_mem (unbroken : '\n' ∉ line) : lineFeedByte ∉ charBytes line := by
  intro member
  obtain ⟨c, inLine, inChar⟩ := List.mem_flatMap.mp member
  have other : c ≠ '\n' := by
    rintro rfl
    exact unbroken inLine
  exact ofNat_not_mem_utf8EncodeChar (by decide) other inChar

theorem charBytes_broken (line rest : List Char) :
    charBytes (line ++ '\n' :: rest) = charBytes line ++ lineFeedByte :: charBytes rest := by
  rw [charBytes_append, charBytes_cons, utf8EncodeChar_of_ascii (by decide)]
  rfl

theorem sinceLineFeed_unbroken {before : List UInt8} (unbroken : lineFeedByte ∉ before) :
    sinceLineFeed before = before.length := by
  have all : ∀ b ∈ before.reverse, (b != lineFeedByte) = true := by
    intro b member
    rw [bne_iff_ne]
    rintro rfl
    exact unbroken (List.mem_reverse.mp member)
  rw [sinceLineFeed, List.takeWhile_eq_self_iff.mpr all, List.length_reverse]

/-- What stands before a line feed does not count for the bytes behind the last one. -/
theorem sinceLineFeed_broken (before more : List UInt8) :
    sinceLineFeed (before ++ lineFeedByte :: more) = sinceLineFeed more := by
  rw [sinceLineFeed, sinceLineFeed, List.reverse_append, List.reverse_cons, List.append_assoc,
    List.takeWhile_append]
  split
  · rename_i whole
    rw [whole]
    simp
  · rfl

/-- An offset on the first line is found there. -/
theorem offsetIn_first {offset base : Nat} {chunk : List Char} {chunks : List (List Char)}
    (unbroken : '\n' ∉ line) (onLine : offset ≤ byteLength line)
    (inChunk : offset ≤ byteLength chunk) :
    offsetIn (sinceLineFeed ((charBytes line).take offset) + 1) base
      (((charBytes line).take offset).count lineFeedByte) (chunk :: chunks) =
        some (base + offset) := by
  have before : lineFeedByte ∉ (charBytes line).take offset := fun member =>
    lineFeedByte_not_mem unbroken (List.mem_of_mem_take member)
  have reached : ((charBytes line).take offset).length = offset := by
    rw [List.length_take, length_charBytes, Nat.min_eq_left onLine]
  rw [List.count_eq_zero.mpr before, sinceLineFeed_unbroken before, reached, offsetIn,
    Nat.add_sub_cancel, Nat.min_eq_left inChunk]

/-- An offset behind the first line is found where the rest of the text has it. -/
theorem offsetIn_behind {more base : Nat} {chunk : List Char} {chunks : List (List Char)}
    (unbroken : '\n' ∉ line) (rest : List Char) :
    offsetIn
        (sinceLineFeed ((charBytes (line ++ '\n' :: rest)).take (byteLength line + 1 + more)) + 1)
        base (((charBytes (line ++ '\n' :: rest)).take (byteLength line + 1 + more)).count
          lineFeedByte) (chunk :: chunks) =
      offsetIn (sinceLineFeed ((charBytes rest).take more) + 1) (base + byteLength chunk)
        (((charBytes rest).take more).count lineFeedByte) chunks := by
  have takeEq : (charBytes (line ++ '\n' :: rest)).take (byteLength line + 1 + more) =
      charBytes line ++ lineFeedByte :: (charBytes rest).take more := by
    rw [charBytes_broken, ← length_charBytes line, Nat.add_assoc, Nat.add_comm 1,
      List.take_length_add_append, List.take_succ_cons]
  rw [takeEq, sinceLineFeed_broken, List.count_append,
    List.count_eq_zero.mpr (lineFeedByte_not_mem unbroken), List.count_cons_self, Nat.zero_add,
    offsetIn]

/-- Counting lines and columns up to an offset and going back gives the offset. -/
theorem offsetIn_take (l : List Char) {offset : Nat} (inside : offset < byteLength l) (base : Nat) :
    offsetIn (sinceLineFeed ((charBytes l).take offset) + 1) base
      (((charBytes l).take offset).count lineFeedByte) (lineChunks l) = some (base + offset) := by
  induction l using lineInduction generalizing offset base with
  | last line unbroken =>
      have filled : line ≠ [] := by
        rintro rfl
        exact absurd inside (Nat.not_lt_zero _)
      rw [lineChunks_unbroken unbroken filled]
      exact offsetIn_first unbroken inside.le inside.le
  | broken line rest unbroken ih =>
      have chunkLength : byteLength (line ++ ['\n']) = byteLength line + 1 := byteLength_append _ _
      rw [lineChunks_append unbroken]
      by_cases onLine : offset ≤ byteLength line
      · rw [charBytes_broken, List.take_append_of_le_length (length_charBytes line ▸ onLine)]
        exact offsetIn_first unbroken onLine (chunkLength ▸ Nat.le_succ_of_le onLine)
      · obtain ⟨more, rfl⟩ := Nat.exists_eq_add_of_le (Nat.succ_le_of_lt (not_le.mp onLine))
        have moreInside : more < byteLength rest := by
          rw [← List.singleton_append, ← List.append_assoc, byteLength_append,
            chunkLength] at inside
          exact Nat.lt_of_add_lt_add_left inside
        rw [offsetIn_behind unbroken, ih moreInside, chunkLength, Nat.add_assoc]

theorem offsetFor_positionOf {text : String} {offset : Nat} (inside : offset < text.utf8ByteSize) :
    offsetFor text (positionOf text offset) = some offset := by
  rw [← byteLength_toList] at inside
  have back := offsetIn_take text.toList inside 0
  rw [← bytes_eq, Nat.zero_add] at back
  exact back

/-- An offset lies in the text or at its end. -/
theorem le_of_offsetIn_eq_some {column index base offset : Nat} {chunks : List (List Char)}
    (found : offsetIn column base index chunks = some offset) :
    offset ≤ base + byteLength chunks.flatten := by
  induction chunks generalizing index base with
  | nil =>
      rw [offsetIn] at found
      cases found
  | cons chunk chunks ih =>
      rw [List.flatten_cons, byteLength_append]
      cases index with
      | zero =>
          cases found
          omega
      | succ index =>
          have bounded := ih found
          omega

theorem offsetFor_le {text : String} {position : Position} {offset : Nat}
    (found : offsetFor text position = some offset) : offset ≤ text.utf8ByteSize := by
  rw [offsetFor] at found
  split at found
  · cases found
  · have bounded := le_of_offsetIn_eq_some found
    rwa [flatten_lineChunks, byteLength_toList, Nat.zero_add] at bounded

/-- Places are exact.  The span of a key begins and ends between characters and covers an occurrence
of the key, and there is one exactly if the key occurs as the last or an inner part of a dotted name
or between quotes.  The line and column of every byte lead back to its offset, and no line and
column lead beyond the end of the text. -/
theorem keySpan_exact_and_offsetFor_inverse (text key : String) :
    (∀ span, findKeySpan text key = some span →
      ∃ before later : String, text = before ++ key ++ later ∧
        before.utf8ByteSize = span.offset ∧ key.utf8ByteSize = span.length) ∧
    (findKeySpan text key = none ↔
      ∀ pattern ∈ ["." ++ key ++ "]", "." ++ key ++ ".", "\"" ++ key ++ "\""],
        ¬pattern.toList <:+: text.toList) ∧
    (∀ offset < text.utf8ByteSize, offsetFor text (positionOf text offset) = some offset) ∧
    ∀ position offset, offsetFor text position = some offset → offset ≤ text.utf8ByteSize := by
  refine ⟨?_, findKeySpan_eq_none_iff, ?_, ?_⟩
  · intro span found
    exact of_findKeySpan_eq_some found
  · intro offset inside
    exact offsetFor_positionOf inside
  · intro position offset found
    exact offsetFor_le found

/-- Two lines with characters of two bytes. -/
def umlauts : String := "[ü.a].ä]\nö = 1\n"

/-- The key has brackets and dots of its own, the offset lies inside of a character, and the column
is too great for its line. -/
theorem keySpan_exact_and_offsetFor_inverse_umlauts :
    findKeySpan umlauts "a].ä" = some ⟨4, 5⟩ ∧
    (∃ before later : String, umlauts = before ++ "a].ä" ++ later ∧
      before.utf8ByteSize = 4 ∧ "a].ä".utf8ByteSize = 5) ∧
    12 < umlauts.utf8ByteSize ∧ positionOf umlauts 12 = ⟨2, 2⟩ ∧
    offsetFor umlauts (positionOf umlauts 12) = some 12 ∧
    offsetFor umlauts ⟨2, 99⟩ = some 18 ∧ 18 ≤ umlauts.utf8ByteSize := by
  have found : findKeySpan umlauts "a].ä" = some ⟨4, 5⟩ := by decide +kernel
  have inside : 12 < umlauts.utf8ByteSize := by decide +kernel
  have beyond : offsetFor umlauts ⟨2, 99⟩ = some 18 := by decide +kernel
  have exact := keySpan_exact_and_offsetFor_inverse umlauts "a].ä"
  exact ⟨found, exact.1 _ found, inside, by decide +kernel, exact.2.2.1 12 inside, beyond,
    exact.2.2.2 _ _ beyond⟩

end RestPlugin.Source
