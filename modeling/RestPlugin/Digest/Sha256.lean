/-!
# SHA-256

The 256-bit secure hash of a byte sequence, written in lower-case hexadecimal.  Content hashes of
schemas, routes, resources and whole projects are digests of canonical text.
-/

namespace RestPlugin.Digest

/-- The round constants: the first 32 bits of the fractional parts of the cube roots of the first
64 primes. -/
def roundConstants : List UInt32 :=
  [0x428a2f98, 0x71374491, 0xb5c0fbcf, 0xe9b5dba5, 0x3956c25b, 0x59f111f1, 0x923f82a4, 0xab1c5ed5,
   0xd807aa98, 0x12835b01, 0x243185be, 0x550c7dc3, 0x72be5d74, 0x80deb1fe, 0x9bdc06a7, 0xc19bf174,
   0xe49b69c1, 0xefbe4786, 0x0fc19dc6, 0x240ca1cc, 0x2de92c6f, 0x4a7484aa, 0x5cb0a9dc, 0x76f988da,
   0x983e5152, 0xa831c66d, 0xb00327c8, 0xbf597fc7, 0xc6e00bf3, 0xd5a79147, 0x06ca6351, 0x14292967,
   0x27b70a85, 0x2e1b2138, 0x4d2c6dfc, 0x53380d13, 0x650a7354, 0x766a0abb, 0x81c2c92e, 0x92722c85,
   0xa2bfe8a1, 0xa81a664b, 0xc24b8b70, 0xc76c51a3, 0xd192e819, 0xd6990624, 0xf40e3585, 0x106aa070,
   0x19a4c116, 0x1e376c08, 0x2748774c, 0x34b0bcb5, 0x391c0cb3, 0x4ed8aa4a, 0x5b9cca4f, 0x682e6ff3,
   0x748f82ee, 0x78a5636f, 0x84c87814, 0x8cc70208, 0x90befffa, 0xa4506ceb, 0xbef9a3f7, 0xc67178f2]

/-- The eight working words of the hash. -/
structure State where
  a : UInt32
  b : UInt32
  c : UInt32
  d : UInt32
  e : UInt32
  f : UInt32
  g : UInt32
  h : UInt32

/-- The state before the first block: the first 32 bits of the fractional parts of the square roots
of the first eight primes. -/
def State.initial : State :=
  ⟨0x6a09e667, 0xbb67ae85, 0x3c6ef372, 0xa54ff53a, 0x510e527f, 0x9b05688c, 0x1f83d9ab, 0x5be0cd19⟩

/-- Rotation to the right. -/
def rotr (x : UInt32) (n : UInt32) : UInt32 := (x >>> n) ||| (x <<< (32 - n))

/-- One round with its schedule word and constant. -/
def State.round (s : State) (word constant : UInt32) : State :=
  let sum1 := rotr s.e 6 ^^^ rotr s.e 11 ^^^ rotr s.e 25
  let choice := (s.e &&& s.f) ^^^ ((~~~ s.e) &&& s.g)
  let temp1 := s.h + sum1 + choice + constant + word
  let sum0 := rotr s.a 2 ^^^ rotr s.a 13 ^^^ rotr s.a 22
  let majority := (s.a &&& s.b) ^^^ (s.a &&& s.c) ^^^ (s.b &&& s.c)
  ⟨temp1 + (sum0 + majority), s.a, s.b, s.c, s.d + temp1, s.e, s.f, s.g⟩

/-- Wordwise sum of two states. -/
def State.add (s t : State) : State :=
  ⟨s.a + t.a, s.b + t.b, s.c + t.c, s.d + t.d, s.e + t.e, s.f + t.f, s.g + t.g, s.h + t.h⟩

/-- The words of a state in order. -/
def State.words (s : State) : List UInt32 := [s.a, s.b, s.c, s.d, s.e, s.f, s.g, s.h]

/-- Extends the message schedule by `count` words. -/
def extendSchedule : Nat → Array UInt32 → Array UInt32
  | 0, w => w
  | count + 1, w =>
      let t := w.size
      let w15 := w.getD (t - 15) 0
      let w2 := w.getD (t - 2) 0
      let small0 := rotr w15 7 ^^^ rotr w15 18 ^^^ (w15 >>> 3)
      let small1 := rotr w2 17 ^^^ rotr w2 19 ^^^ (w2 >>> 10)
      extendSchedule count (w.push (w.getD (t - 16) 0 + small0 + w.getD (t - 7) 0 + small1))

/-- Runs the rounds of one block of sixteen words. -/
def State.block (s : State) (words : List UInt32) : State :=
  let schedule := (extendSchedule 48 words.toArray).toList
  s.add ((schedule.zip roundConstants).foldl (fun t pair => t.round pair.1 pair.2) s)

/-- Big-endian words of a byte sequence, four bytes at a time. -/
def toWords : List UInt8 → List UInt32
  | b0 :: b1 :: b2 :: b3 :: rest =>
      ((b0.toUInt32 <<< 24) ||| (b1.toUInt32 <<< 16) ||| (b2.toUInt32 <<< 8) ||| b3.toUInt32) ::
        toWords rest
  | _ => []

/-- The bytes that fill up the last block: a one bit, zeros, and the length in bits. -/
def padding (length : Nat) : List UInt8 :=
  let zeros := (119 - length % 64) % 64
  let bits := 8 * length
  0x80 :: (List.replicate zeros 0 ++
    (List.range 8).map fun i => (bits / Nat.pow 256 (7 - i) % 256).toUInt8)

/-- Hashes complete blocks, at most `count` of them. -/
def State.blocks : Nat → State → List UInt32 → State
  | 0, s, _ => s
  | count + 1, s, words => State.blocks count (s.block (words.take 16)) (words.drop 16)

/-- The eight hexadecimal digits of a word. -/
def hexWord (word : UInt32) : List Char :=
  (List.range 8).map fun i => Nat.digitChar (word.toNat / Nat.pow 16 (7 - i) % 16)

/-- The digest of a byte sequence in hexadecimal. -/
def sha256Bytes (bytes : List UInt8) : String :=
  let words := toWords (bytes ++ padding bytes.length)
  String.ofList ((State.blocks (words.length / 16) .initial words).words.flatMap hexWord)

/-- The digest of the UTF-8 encoding of a text in hexadecimal. -/
def sha256 (text : String) : String := sha256Bytes text.toUTF8.toList

end RestPlugin.Digest
