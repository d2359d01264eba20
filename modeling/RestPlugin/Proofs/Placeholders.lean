import RestPlugin.Proofs.Text.Bytes
import RestPlugin.Terms

/-!
# Scanning for placeholders

The placeholders of a path are found in three ways.  One scan goes from byte to byte: at a colon it
looks for the end of the word behind it, takes that word out of the path and goes on behind it.
Another goes from character to character and never jumps.  And one can cut the path at its colons
and take the word at the beginning of each piece but the first.  All three give the same, so the
scan by bytes never takes a piece that begins or ends inside of a character.
-/

namespace RestPlugin

open Text

/-! ## The scan by bytes -/

/-- Whether a byte is an ASCII letter or digit or an underscore. -/
def isWordByte (b : UInt8) : Bool := isWord (charOfByte b)

/-- The byte of a colon. -/
def colonByte : UInt8 := UInt8.ofNat ':'.toNat

/-- The place behind the run of word bytes that begins at a place. -/
def runEnd (input : List UInt8) (stop : Nat) : Nat :=
  if inside : stop < input.length then
    if isWordByte input[stop] then runEnd input (stop + 1) else stop
  else stop
termination_by input.length - stop

/-- Scans the bytes of a path from a place on, with the placeholders found so far.  There is no
result if a piece is asked for that begins or ends inside of a character. -/
def scanBytes (path : String) (index : Nat) (found : List String) : Option (List String) :=
  if inside : index < (bytes path).length then
    if (bytes path)[index] = colonByte then
      let start := index + 1
      let stop := runEnd (bytes path) start
      if start < stop then
        (slice? path start stop).bind fun name => scanBytes path (max stop start) (found ++ [name])
      else scanBytes path (max stop start) found
    else scanBytes path (index + 1) found
  else some found
termination_by (bytes path).length - index

/-! ## Bytes and characters -/

variable {c : Char} {path : String} {index : Nat} {found : List String} {input tail : List UInt8}

theorem toNat_lt_of_isWord (word : isWord c = true) : c.toNat < 0x80 := by
  rcases Bool.or_eq_true_iff.mp word with alnum | isUnderscore
  · exact toNat_lt_of_isAlnum alnum
  · rw [beq_iff_eq.mp isUnderscore]
    decide

theorem isWordByte_of_le {b : UInt8} (wide : 0x80 ≤ b.toNat) : isWordByte b = false := by
  rw [← Bool.not_eq_true]
  intro word
  have ascii := toNat_lt_of_isWord word
  rw [toNat_charOfByte] at ascii
  omega

/-- The run of word bytes at the beginning of a text is that of its word characters. -/
theorem takeWhile_charBytes (l : List Char) :
    (charBytes l).takeWhile isWordByte = charBytes (l.takeWhile isWord) := by
  induction l with
  | nil => rfl
  | cons c rest ih =>
      rw [charBytes_cons]
      by_cases ascii : c.toNat < 0x80
      · rw [utf8EncodeChar_of_ascii ascii, List.singleton_append]
        by_cases word : isWord c = true
        · have wordByte : isWordByte (UInt8.ofNat c.toNat) = true := by
            rwa [isWordByte, charOfByte_of_ascii ascii]
          rw [List.takeWhile_cons_of_pos wordByte, List.takeWhile_cons_of_pos word, ih,
            charBytes_cons, utf8EncodeChar_of_ascii ascii, List.singleton_append]
        · have otherByte : ¬isWordByte (UInt8.ofNat c.toNat) = true := by
            rwa [isWordByte, charOfByte_of_ascii ascii]
          rw [List.takeWhile_cons_of_neg otherByte, List.takeWhile_cons_of_neg word]
          rfl
      · have other : ¬isWord c = true := fun word => ascii (toNat_lt_of_isWord word)
        obtain ⟨b, later, bytesEq⟩ :=
          List.exists_cons_of_ne_nil (String.utf8EncodeChar_ne_nil (c := c))
        have wide := le_toNat_of_mem_utf8EncodeChar (not_lt.mp ascii) b
          (bytesEq ▸ List.mem_cons_self)
        rw [bytesEq, List.cons_append, List.takeWhile_cons_of_neg (by simp [isWordByte_of_le wide]),
          List.takeWhile_cons_of_neg other]
        rfl

/-- Only the colon has its byte. -/
theorem ne_colonByte_of_mem (other : c ≠ ':') : ∀ b ∈ String.utf8EncodeChar c, b ≠ colonByte := by
  rintro b member rfl
  exact ofNat_not_mem_utf8EncodeChar (by decide) other member

/-! ## Steps of the scan -/

theorem getElem_of_drop_eq {b : UInt8} {rest : List UInt8} (dropEq : input.drop index = b :: rest) :
    ∃ inside : index < input.length, input[index] = b ∧ input.drop (index + 1) = rest := by
  have inside : index < input.length := by
    rw [← not_le, ← List.drop_eq_nil_iff, dropEq]
    exact List.cons_ne_nil _ _
  rw [List.drop_eq_getElem_cons inside, List.cons.injEq] at dropEq
  exact ⟨inside, dropEq⟩

theorem runEnd_eq (input : List UInt8) (stop : Nat) :
    runEnd input stop = stop + ((input.drop stop).takeWhile isWordByte).length := by
  fun_induction runEnd input stop with
  | case1 stop inside word ih =>
      rw [ih, List.drop_eq_getElem_cons inside, List.takeWhile_cons_of_pos word, List.length_cons]
      omega
  | case2 stop inside other =>
      rw [List.drop_eq_getElem_cons inside, List.takeWhile_cons_of_neg other, List.length_nil]
      rfl
  | case3 stop outside =>
      rw [List.drop_eq_nil_of_le (not_lt.mp outside)]
      rfl

/-- Bytes that are not that of a colon are passed one by one. -/
theorem scanBytes_skip {rest : List UInt8} (found : List String)
    (others : ∀ b ∈ tail, b ≠ colonByte) (dropEq : (bytes path).drop index = tail ++ rest) :
    scanBytes path index found = scanBytes path (index + tail.length) found := by
  induction tail generalizing index with
  | nil => rfl
  | cons b tail ih =>
      rw [List.forall_mem_cons] at others
      obtain ⟨inside, byteEq, laterEq⟩ := getElem_of_drop_eq dropEq
      rw [scanBytes, dif_pos inside, if_neg (byteEq ▸ others.1), ih others.2 laterEq,
        List.length_cons, Nat.add_assoc, Nat.add_comm 1]

/-- The word behind a colon, if there is one. -/
def wordBehind (rest : List Char) : List String :=
  if rest.takeWhile isWord = [] then [] else [String.ofList (rest.takeWhile isWord)]

theorem placeholderChars_colon (rest : List Char) :
    (placeholderChars (':' :: rest)).map String.ofList =
      wordBehind rest ++ (placeholderChars rest).map String.ofList := by
  rw [placeholderChars, if_pos (beq_self_eq_true ':'), wordBehind]
  by_cases noWord : rest.takeWhile isWord = []
  · simp [noWord]
  · simp [noWord]

variable {before after rest : List Char}

theorem drop_bytes (charsEq : path.toList = before ++ after) :
    (bytes path).drop (byteLength before) = charBytes after := by
  rw [bytes_eq, charsEq, drop_charBytes]

theorem slice?_part {part : List Char} (charsEq : path.toList = before ++ (part ++ rest)) :
    slice? path (byteLength before) (byteLength before + byteLength part) =
      some (String.ofList part) :=
  slice?_eq_some_iff.mpr ⟨_, _, by rw [String.toList_ofList, charsEq], rfl,
    by rw [String.toList_ofList]⟩

theorem ne_colonByte_of_mem_word (rest : List Char) :
    ∀ b ∈ charBytes (rest.takeWhile isWord), b ≠ colonByte := by
  intro b member
  obtain ⟨c, inWord, inChar⟩ := List.mem_flatMap.mp member
  refine ne_colonByte_of_mem ?_ b inChar
  rintro rfl
  exact absurd (List.mem_takeWhile_imp inWord) (by decide)

/-- At a colon the word behind it is found.  The scan jumps over the word, but as there is no colon
in it, the scan that goes on directly behind the colon gives the same. -/
theorem scanBytes_colon (charsEq : path.toList = before ++ ':' :: rest) :
    scanBytes path (byteLength before) found =
      scanBytes path (byteLength (before ++ [':'])) (found ++ wordBehind rest) := by
  have startEq : byteLength (before ++ [':']) = byteLength before + 1 := byteLength_append _ _
  have behind : path.toList = (before ++ [':']) ++ rest := by
    rw [charsEq, List.append_assoc, List.singleton_append]
  have colonFirst : (bytes path).drop (byteLength before) = colonByte :: charBytes rest := by
    rw [drop_bytes charsEq, charBytes_cons, utf8EncodeChar_of_ascii (by decide)]
    rfl
  obtain ⟨inside, byteEq, -⟩ := getElem_of_drop_eq colonFirst
  have stopEq : runEnd (bytes path) (byteLength before + 1) =
      byteLength before + 1 + byteLength (rest.takeWhile isWord) := by
    rw [runEnd_eq, ← startEq, drop_bytes behind, takeWhile_charBytes, length_charBytes]
  rw [scanBytes, dif_pos inside, if_pos byteEq]
  simp only [stopEq]
  rw [max_eq_left (Nat.le_add_right _ _)]
  by_cases noWord : rest.takeWhile isWord = []
  · have empty : byteLength (rest.takeWhile isWord) = 0 := by rw [noWord, byteLength]
    rw [empty, if_neg (lt_irrefl _), wordBehind, if_pos noWord, List.append_nil, startEq]
  · have filled : 0 < byteLength (rest.takeWhile isWord) := by
      obtain ⟨c, later, wordEq⟩ := List.exists_cons_of_ne_nil noWord
      rw [wordEq, byteLength]
      exact Nat.add_pos_left c.utf8Size_pos _
    have word : path.toList =
        (before ++ [':']) ++ (rest.takeWhile isWord ++ rest.dropWhile isWord) := by
      rw [List.takeWhile_append_dropWhile, behind]
    have passed := scanBytes_skip (found ++ wordBehind rest) (ne_colonByte_of_mem_word rest)
      ((drop_bytes word).trans (charBytes_append _ _))
    rw [length_charBytes] at passed
    rw [if_pos (Nat.lt_add_of_pos_right filled), ← startEq, slice?_part word, Option.bind_some,
      passed, wordBehind, if_neg noWord]

/-- From a place between characters on, the scan finds the placeholders of what follows. -/
theorem scanBytes_eq (charsEq : path.toList = before ++ after) :
    scanBytes path (byteLength before) found =
      some (found ++ (placeholderChars after).map String.ofList) := by
  induction after generalizing before found with
  | nil =>
      have outside : ¬byteLength before < (bytes path).length := by
        rw [bytes_eq, charsEq, List.append_nil, length_charBytes]
        exact lt_irrefl _
      rw [scanBytes, dif_neg outside, placeholderChars, List.map_nil, List.append_nil]
  | cons c rest ih =>
      have later : path.toList = (before ++ [c]) ++ rest := by
        rw [charsEq, List.append_assoc, List.singleton_append]
      by_cases isColon : c = ':'
      · subst isColon
        rw [scanBytes_colon charsEq, ih later, placeholderChars_colon, List.append_assoc]
      · have passed := scanBytes_skip found (ne_colonByte_of_mem isColon)
          ((drop_bytes charsEq).trans (charBytes_cons c rest))
        have placeEq : byteLength before + (String.utf8EncodeChar c).length =
            byteLength (before ++ [c]) := by
          rw [byteLength_append, String.length_utf8EncodeChar]
          rfl
        rw [passed, placeEq, ih later, placeholderChars, if_neg (by simpa using isColon)]

/-! ## Cutting at the colons -/

theorem takeWhile_of_splitBy_eq {l first : List Char} {later : List (List Char)}
    (split : splitBy (· == ':') l = first :: later) :
    first.takeWhile isWord = l.takeWhile isWord := by
  induction l generalizing first later with
  | nil =>
      cases split
      rfl
  | cons c rest ih =>
      by_cases isColon : c = ':'
      · subst isColon
        rw [splitBy, if_pos (beq_self_eq_true ':')] at split
        cases split
        rfl
      · obtain ⟨piece, pieces, piecesEq⟩ :=
          List.exists_cons_of_ne_nil (splitBy_ne_nil (· == ':') rest)
        rw [splitBy, if_neg (by simpa using isColon), piecesEq] at split
        cases split
        rw [List.takeWhile_cons, List.takeWhile_cons, ih piecesEq]

/-- The placeholders of a text are the words at the beginnings of the pieces between its colons. -/
theorem placeholderChars_eq (l : List Char) :
    placeholderChars l =
      ((splitBy (· == ':') l).tail.map (·.takeWhile isWord)).filter (· != []) := by
  induction l with
  | nil => rfl
  | cons c rest ih =>
      obtain ⟨piece, pieces, piecesEq⟩ :=
        List.exists_cons_of_ne_nil (splitBy_ne_nil (· == ':') rest)
      by_cases isColon : c = ':'
      · subst isColon
        have word := takeWhile_of_splitBy_eq piecesEq
        rw [placeholderChars, if_pos (beq_self_eq_true ':'), splitBy,
          if_pos (beq_self_eq_true ':'), List.tail_cons, piecesEq, List.map_cons, word, ih,
          piecesEq, List.tail_cons]
        by_cases noWord : rest.takeWhile isWord = []
        · simp [noWord]
        · simp [noWord]
      · rw [placeholderChars, if_neg (by simpa using isColon), splitBy,
          if_neg (by simpa using isColon), ih, piecesEq]
        rfl

/-- The scan by bytes ends on every path, takes no piece that begins or ends inside of a character,
and gives the placeholders.  These are the words at the beginning of the pieces behind the colons,
in order and without the empty ones. -/
theorem placeholders_by_bytes_and_pieces (path : String) :
    scanBytes path 0 [] = some (placeholders path) ∧
      placeholders path = ((splitOnChar ':' path).tail.map fun piece =>
        String.ofList (piece.toList.takeWhile isWord)).filter (· != "") := by
  constructor
  · exact scanBytes_eq (List.nil_append path.toList).symm
  · have filled : (fun name => name != "") ∘ String.ofList = (· != []) := by
      funext name
      rw [Bool.eq_iff_iff, Function.comp_apply, bne_iff_ne, bne_iff_ne, ne_eq,
        ← String.toList_inj, String.toList_ofList]
      rfl
    have word : (fun piece : String => String.ofList (piece.toList.takeWhile isWord)) ∘
        String.ofList = String.ofList ∘ (·.takeWhile isWord) := by
      funext piece
      rw [Function.comp_apply, String.toList_ofList, Function.comp_apply]
    rw [placeholders, placeholderChars_eq, ← filled, ← List.filter_map, splitOnChar,
      ← List.map_tail, List.map_map, List.map_map, word]

end RestPlugin
