import RestPlugin.Source.Node

/-!
# Fitting trees into types

Decoders take a tree apart in the order of its text, so that the earliest problem decides.  A
record may be written as a table or as the list of its fields; a word of a closed set may be
written as a text or as a table with the word as its only key.
-/

namespace RestPlugin.Source

/-- How a tree is held while it is decoded.  `stream` reads a JSON text as it goes, `document` has a
whole TOML document, and `held` and `lent` look at a part that was collected first. -/
inductive Access where
  | stream
  | document
  | held
  | lent
deriving DecidableEq, Repr, Inhabited

/-- A flaw as it is seen under an access.  Only a text that is read as it goes has a place. -/
def Access.sees : Access → Flaw → Flaw
  | .stream, flaw => flaw
  | _, _ => .unfit

/-- A decoder of trees that start at a given offset. -/
abbrev Decoder (α : Type) : Type := Access → Nat → Node → Except Flaw α

namespace Decode

variable {α σ : Type}

/-- The flaw of a tree of another shape than expected. -/
def mismatch : Node → Flaw
  | .broken flaw _ => flaw
  | _ => .unfit

/-- A text. -/
def text : Decoder String
  | _, _, .scalar (.str value) => .ok value
  | _, _, node => .error (mismatch node)

/-- A truth value. -/
def flag : Decoder Bool
  | _, _, .scalar (.bool value) => .ok value
  | _, _, node => .error (mismatch node)

/-- A natural number below `bound`. -/
def natBelow (bound : Nat) : Decoder Nat
  | _, _, .scalar (.int value) =>
      if 0 ≤ value && value < bound then .ok value.toNat else .error .unfit
  | _, _, node => .error (mismatch node)

/-- A part that may be null. -/
def optional (decode : Decoder α) : Decoder (Option α)
  | _, _, .scalar .null => .ok none
  | access, start, node => (decode access start node).map some

/-- The decoded items of a list. -/
def items (decode : Decoder α) (access : Access) : List (Nat × Node) → Except Flaw (List α)
  | [] => .ok []
  | (start, node) :: rest => do
      let value ← decode access start node
      let values ← items decode access rest
      .ok (value :: values)

/-- A list. -/
def list (decode : Decoder α) : Decoder (List α)
  | access, _, .list parts stop => do
      let values ← items decode access parts
      Flaw.check stop
      .ok values
  | _, _, node => .error (mismatch node)

/-- The decoded entries of a table. -/
def entries (decode : Decoder α) (access : Access) :
    List (String × Nat × Node) → Except Flaw (List (String × α))
  | [] => .ok []
  | (key, start, node) :: rest => do
      let value ← decode access start node
      let values ← entries decode access rest
      .ok ((key, value) :: values)

/-- A table with free keys.  A repeated key keeps its first place and takes its last value. -/
def keyed (decode : Decoder α) : Decoder (List (String × α))
  | access, _, .table parts stop _ => do
      let values ← entries decode access parts
      Flaw.check stop
      .ok (Keyed.inOrder values)
  | _, _, node => .error (mismatch node)

/-- Whether a tree can stand for "nothing more" under the only key of a table that names a word. -/
def isUnit : Access → Node → Bool
  | .document, .list parts _ => parts.isEmpty
  | .document, .table parts _ _ => parts.isEmpty
  | .document, _ => false
  | .held, .table parts _ _ => parts.isEmpty
  | _, .scalar .null => true
  | _, _ => false

/-- A word of a closed set. -/
def word (words : List (String × α)) : Decoder α
  | _, _, .scalar (.str value) => (Keyed.get? value words).elim (.error .unfit) .ok
  | access, _, .table [] _ alone => .error (access.sees (alone.getD .unfit))
  | access, _, .table ((key, _, node) :: _) _ alone =>
      match Keyed.get? key words with
      | none => .error .unfit
      | some value =>
          if !isUnit access node then .error (mismatch node)
          else do
            Flaw.check (alone.map access.sees)
            .ok value
  | _, _, .broken _ flaw => .error flaw
  | access, start, _ => .error (access.sees (.malformed (start + 1)))

/-- Sets the field with a given name from a tree. -/
abbrev Setter (σ : Type) : Type := String → σ → Decoder σ

/-- Reads the entries of a record.  A name must not repeat; an unknown name is refused by a strict
record and passed over by another one. -/
def recordEntries (names : List String) (strict : Bool) (set : Setter σ) (access : Access) :
    List String → σ → List (String × Nat × Node) → Except Flaw σ
  | _, state, [] => .ok state
  | seen, state, (key, start, node) :: rest =>
      if !names.contains key then
        if strict then .error .unfit
        else recordEntries names strict set access seen state rest
      else if seen.contains key then .error .unfit
      else do
        let state ← set key state access start node
        recordEntries names strict set access (key :: seen) state rest

/-- Reads the fields of a record that is written as a list. -/
def recordItems (set : Setter σ) (access : Access) (stop : Option Flaw) :
    List String → σ → List (Nat × Node) → Except Flaw σ
  | _, state, [] => do
      Flaw.check stop
      .ok state
  | [], state, (start, _) :: _ =>
      match access with
      | .stream => .error (.malformed (start + 1))
      | .document => .ok state
      | .held | .lent => .error .unfit
  | name :: names, state, (start, node) :: rest => do
      let state ← set name state access start node
      recordItems set access stop names state rest

/-- A record with the given field names, in the order of its list form. -/
def record (names : List String) (strict : Bool) (set : Setter σ) (initial : σ) : Decoder σ
  | access, _, .table parts stop _ => do
      let state ← recordEntries names strict set access [] initial parts
      Flaw.check stop
      .ok state
  | access, _, .list parts stop => recordItems set access stop names initial parts
  | _, _, node => .error (mismatch node)

/-- A field that has to be there. -/
def required : Option α → Except Flaw α
  | none => .error .unfit
  | some value => .ok value

/-- Splits the entries of a tagged table into the value of the tag and the other entries. -/
def splitTag (tag : String) (words : List (String × α)) :
    Option α → List (String × Nat × Node) → Except Flaw (Option α × List (String × Nat × Node))
  | found, [] => .ok (found, [])
  | found, (key, start, node) :: rest =>
      if key == tag then
        if found.isSome then .error .unfit
        else
          match node with
          | .scalar (.str value) =>
              match Keyed.get? value words with
              | none => .error .unfit
              | some value => splitTag tag words (some value) rest
          | node => .error (mismatch node)
      else do
        node.force
        let (found, others) ← splitTag tag words found rest
        .ok (found, (key, start, node) :: others)

/-- A tree with a tag: the word under the key `tag` or at the head of a list, and the rest of the
tree, which is well formed. -/
def tagged (tag : String) (words : List (String × α)) : Decoder (α × Node)
  | _, _, .table parts stop _ => do
      let (found, others) ← splitTag tag words none parts
      Flaw.check stop
      let value ← required found
      .ok (value, .closedTable others)
  | _, _, .list ((_, .scalar (.str value)) :: rest) stop => do
      let value ← required (Keyed.get? value words)
      Node.forceItems rest
      Flaw.check stop
      .ok (value, .list rest none)
  | _, _, .list ((_, node) :: _) _ => .error (mismatch node)
  | _, _, .list [] stop => do
      Flaw.check stop
      .error .unfit
  | _, _, node => .error (mismatch node)

/-- Decodes a whole document. -/
def document (decode : Decoder α) (access : Access) (source : Document) : Except Flaw α := do
  let value ← decode access source.start source.root
  Flaw.check source.trailing
  .ok value

end Decode

end RestPlugin.Source
