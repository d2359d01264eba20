import RestPlugin.Proofs.Text.Naming

/-!
# Texts as bytes

The UTF-8 bytes of a text, and the pieces of a text between two places counted in bytes.  A piece
exists only if both places lie between characters.  The bytes of a character outside ASCII are all
different from those of the characters inside, so a byte of such a character tells where it stands.
A search for a pattern gives the place at which an occurrence of it begins, if there is one.
-/

namespace RestPlugin.Text

variable {c : Char} {l : List Char}

/-- The bytes of a text. -/
def bytes (text : String) : List UInt8 := text.toByteArray.data.toList

/-- The bytes of a list of characters. -/
def charBytes (l : List Char) : List UInt8 := l.flatMap String.utf8EncodeChar

/-- The bytes of a text are those of its characters. -/
theorem bytes_eq (text : String) : bytes text = charBytes text.toList := by
  rw [← String.ofList_toList (s := text), bytes, String.toByteArray_ofList, List.utf8Encode,
    String.ofList_toList, List.toList_data_toByteArray, charBytes]

theorem charBytes_cons (c : Char) (rest : List Char) :
    charBytes (c :: rest) = String.utf8EncodeChar c ++ charBytes rest := List.flatMap_cons

theorem charBytes_append (first later : List Char) :
    charBytes (first ++ later) = charBytes first ++ charBytes later := List.flatMap_append

/-- Characters have as many bytes as their length in bytes says. -/
theorem length_charBytes (l : List Char) : (charBytes l).length = byteLength l := by
  induction l with
  | nil => rfl
  | cons c rest ih =>
      rw [charBytes_cons, List.length_append, String.length_utf8EncodeChar, ih, byteLength]

theorem byteLength_append (first later : List Char) :
    byteLength (first ++ later) = byteLength first + byteLength later := by
  rw [← length_charBytes, charBytes_append, List.length_append, length_charBytes, length_charBytes]

theorem length_bytes (text : String) : (bytes text).length = text.utf8ByteSize := by
  rw [bytes, Array.length_toList]
  rfl

theorem byteLength_toList (text : String) : byteLength text.toList = text.utf8ByteSize := by
  rw [← length_charBytes, ← bytes_eq, length_bytes]

theorem drop_charBytes (before after : List Char) :
    (charBytes (before ++ after)).drop (byteLength before) = charBytes after := by
  rw [charBytes_append, ← length_charBytes, List.drop_left]

/-! ## Bytes of ASCII characters -/

/-- An ASCII character is one byte, its code. -/
theorem utf8EncodeChar_of_ascii (ascii : c.toNat < 0x80) :
    String.utf8EncodeChar c = [UInt8.ofNat c.toNat] :=
  if_pos (Nat.le_of_lt_succ ascii)

/-- No byte of a character outside ASCII is the byte of a character inside. -/
theorem le_toNat_of_mem_utf8EncodeChar (wide : 0x80 ≤ c.toNat) :
    ∀ b ∈ String.utf8EncodeChar c, 0x80 ≤ b.toNat := by
  have code : c.val.toNat = c.toNat := rfl
  have high {n : Nat} (low : 0x80 ≤ n) (small : n < 0x100) : 0x80 ≤ (UInt8.ofNat n).toNat := by
    rw [UInt8.toNat_ofNat']
    omega
  simp only [String.utf8EncodeChar, code]
  split
  · omega
  · split
    · simp only [List.forall_mem_cons]
      exact ⟨high (by omega) (by omega), high (by omega) (by omega), List.forall_mem_nil _⟩
    · split
      · simp only [List.forall_mem_cons]
        exact ⟨high (by omega) (by omega), high (by omega) (by omega), high (by omega) (by omega),
          List.forall_mem_nil _⟩
      · simp only [List.forall_mem_cons]
        exact ⟨high (by omega) (by omega), high (by omega) (by omega), high (by omega) (by omega),
          high (by omega) (by omega), List.forall_mem_nil _⟩

/-- The byte of an ASCII character is in no other character. -/
theorem ofNat_not_mem_utf8EncodeChar {d : Char} (ascii : d.toNat < 0x80) (other : c ≠ d) :
    UInt8.ofNat d.toNat ∉ String.utf8EncodeChar c := by
  intro member
  have small : (UInt8.ofNat d.toNat).toNat = d.toNat := by
    rw [UInt8.toNat_ofNat', Nat.mod_eq_of_lt (by omega)]
  by_cases narrow : c.toNat < 0x80
  · rw [utf8EncodeChar_of_ascii narrow, List.mem_singleton] at member
    have same := congrArg UInt8.toNat member
    rw [small, UInt8.toNat_ofNat', Nat.mod_eq_of_lt (by omega)] at same
    exact other (Char.toNat_inj.mp same.symm)
  · have wide := le_toNat_of_mem_utf8EncodeChar (not_lt.mp narrow) _ member
    omega

/-- The character that a byte stands for, if it stands for one. -/
def charOfByte (b : UInt8) : Char := Char.ofNat b.toNat

theorem charOfByte_of_ascii (ascii : c.toNat < 0x80) : charOfByte (UInt8.ofNat c.toNat) = c := by
  rw [charOfByte, UInt8.toNat_ofNat', Nat.mod_eq_of_lt (by omega), Char.ofNat_toNat]

theorem toNat_charOfByte (b : UInt8) : (charOfByte b).toNat = b.toNat := by
  have small := b.toNat_lt
  have valid : b.toNat.isValidChar := Or.inl (by omega)
  rw [charOfByte, Char.ofNat, dif_pos valid]
  rfl

/-! ## Pieces between places -/

/-- The characters of the first `count` bytes, if they end with a character. -/
def takeBytes : Nat → List Char → Option (List Char)
  | 0, _ => some []
  | _ + 1, [] => none
  | count + 1, c :: rest =>
      if c.utf8Size ≤ count + 1 then
        (takeBytes (count + 1 - c.utf8Size) rest).map (c :: ·)
      else none

/-- The characters behind the first `count` bytes, if these end with a character. -/
def dropBytes : Nat → List Char → Option (List Char)
  | 0, l => some l
  | _ + 1, [] => none
  | count + 1, c :: rest =>
      if c.utf8Size ≤ count + 1 then dropBytes (count + 1 - c.utf8Size) rest else none

/-- The piece of a text from one place up to another, if both are places between characters. -/
def slice? (text : String) (start stop : Nat) : Option String :=
  if start ≤ stop then
    ((dropBytes start text.toList).bind (takeBytes (stop - start))).map String.ofList
  else none

theorem byteLength_cons_eq (c : Char) (rest : List Char) :
    ∃ count, byteLength (c :: rest) = count + 1 ∧ c.utf8Size ≤ count + 1 ∧
      count + 1 - c.utf8Size = byteLength rest := by
  have positive := c.utf8Size_pos
  refine ⟨byteLength (c :: rest) - 1, ?_⟩
  rw [byteLength]
  omega

theorem takeBytes_byteLength (piece later : List Char) :
    takeBytes (byteLength piece) (piece ++ later) = some piece := by
  induction piece with
  | nil => cases later <;> rfl
  | cons c rest ih =>
      obtain ⟨count, lengthEq, fits, left⟩ := byteLength_cons_eq c rest
      rw [lengthEq, List.cons_append, takeBytes, if_pos fits, left, ih, Option.map_some]

theorem dropBytes_byteLength (before later : List Char) :
    dropBytes (byteLength before) (before ++ later) = some later := by
  induction before with
  | nil => cases later <;> rfl
  | cons c rest ih =>
      obtain ⟨count, lengthEq, fits, left⟩ := byteLength_cons_eq c rest
      rw [lengthEq, List.cons_append, dropBytes, if_pos fits, left, ih]

theorem of_takeBytes_eq_some {count : Nat} {piece : List Char}
    (taken : takeBytes count l = some piece) :
    ∃ later, l = piece ++ later ∧ byteLength piece = count := by
  fun_induction takeBytes count l generalizing piece with
  | case1 l =>
      cases taken
      exact ⟨l, rfl, rfl⟩
  | case2 => cases taken
  | case3 count c rest fits ih =>
      obtain ⟨piece, restTaken, rfl⟩ := Option.map_eq_some_iff.mp taken
      obtain ⟨later, rfl, lengthEq⟩ := ih restTaken
      exact ⟨later, rfl, by rw [byteLength, lengthEq]; omega⟩
  | case4 => cases taken

theorem of_dropBytes_eq_some {count : Nat} {later : List Char}
    (dropped : dropBytes count l = some later) :
    ∃ before, l = before ++ later ∧ byteLength before = count := by
  fun_induction dropBytes count l with
  | case1 l =>
      cases dropped
      exact ⟨[], rfl, rfl⟩
  | case2 => cases dropped
  | case3 count c rest fits ih =>
      obtain ⟨before, rfl, lengthEq⟩ := ih dropped
      exact ⟨c :: before, rfl, by rw [byteLength, lengthEq]; omega⟩
  | case4 => cases dropped

/-- A piece can be taken exactly between the ends of characters. -/
theorem slice?_eq_some_iff {text piece : String} {start stop : Nat} :
    slice? text start stop = some piece ↔
      ∃ before later, text.toList = before ++ (piece.toList ++ later) ∧
        byteLength before = start ∧ start + byteLength piece.toList = stop := by
  rw [slice?]
  constructor
  · intro sliced
    split at sliced
    · rename_i ordered
      obtain ⟨chars, taken, rfl⟩ := Option.map_eq_some_iff.mp sliced
      obtain ⟨rest, dropped, taken⟩ := Option.bind_eq_some_iff.mp taken
      obtain ⟨before, charsEq, startEq⟩ := of_dropBytes_eq_some dropped
      obtain ⟨later, rfl, lengthEq⟩ := of_takeBytes_eq_some taken
      rw [String.toList_ofList]
      exact ⟨before, later, charsEq, startEq, by omega⟩
    · cases sliced
  · rintro ⟨before, later, charsEq, rfl, rfl⟩
    rw [if_pos (Nat.le_add_right _ _), charsEq, dropBytes_byteLength, Nat.add_sub_cancel_left,
      Option.bind_some, takeBytes_byteLength, Option.map_some, String.ofList_toList]

/-! ## Searching -/

/-- What a search finds is an occurrence of the pattern. -/
theorem of_findFrom_eq_some {pattern : List Char} {offset found : Nat}
    (searched : findFrom pattern offset l = some found) :
    ∃ before later, l = before ++ (pattern ++ later) ∧ offset + byteLength before = found := by
  induction l generalizing offset with
  | nil =>
      rw [findFrom] at searched
      split at searched
      · rename_i empty
        cases searched
        exact ⟨[], [], by simpa using empty, rfl⟩
      · cases searched
  | cons c rest ih =>
      rw [findFrom] at searched
      split at searched
      · rename_i here
        cases searched
        obtain ⟨later, charsEq⟩ := List.isPrefixOf_iff_prefix.mp here
        exact ⟨[], later, charsEq.symm, rfl⟩
      · obtain ⟨before, later, rfl, foundEq⟩ := ih searched
        exact ⟨c :: before, later, rfl, by rw [byteLength, ← Nat.add_assoc, foundEq]⟩

/-- A search fails only if the pattern does not occur. -/
theorem findFrom_eq_none_iff {pattern : List Char} {offset : Nat} :
    findFrom pattern offset l = none ↔ ¬pattern <:+: l := by
  induction l generalizing offset with
  | nil => simp [findFrom]
  | cons c rest ih =>
      rw [findFrom, List.infix_cons_iff, not_or, ← List.isPrefixOf_iff_prefix]
      by_cases here : pattern.isPrefixOf (c :: rest) = true
      · simp [here]
      · rw [if_neg here, ih, and_iff_right here]

/-- A pattern is not found exactly if the text does not contain it. -/
theorem find?_eq_none_iff {text pattern : String} :
    find? text pattern = none ↔ ¬pattern.toList <:+: text.toList :=
  findFrom_eq_none_iff

end RestPlugin.Text
