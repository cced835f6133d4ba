/-
`hashlib.sha256`.

A message is a list of bytes.  It is padded to whole blocks of 64, each block is spread
out to 64 words, and the compression works them into a chaining value of eight words one
after the other.
-/
import Mathlib.Init

namespace Sha256

abbrev Word := BitVec 32

/-- The fractional parts of the cube roots of the first 64 primes. -/
def roundConstants : List Word :=
  [0x428a2f98, 0x71374491, 0xb5c0fbcf, 0xe9b5dba5, 0x3956c25b, 0x59f111f1, 0x923f82a4, 0xab1c5ed5,
    0xd807aa98, 0x12835b01, 0x243185be, 0x550c7dc3, 0x72be5d74, 0x80deb1fe, 0x9bdc06a7, 0xc19bf174,
    0xe49b69c1, 0xefbe4786, 0x0fc19dc6, 0x240ca1cc, 0x2de92c6f, 0x4a7484aa, 0x5cb0a9dc, 0x76f988da,
    0x983e5152, 0xa831c66d, 0xb00327c8, 0xbf597fc7, 0xc6e00bf3, 0xd5a79147, 0x06ca6351, 0x14292967,
    0x27b70a85, 0x2e1b2138, 0x4d2c6dfc, 0x53380d13, 0x650a7354, 0x766a0abb, 0x81c2c92e, 0x92722c85,
    0xa2bfe8a1, 0xa81a664b, 0xc24b8b70, 0xc76c51a3, 0xd192e819, 0xd6990624, 0xf40e3585, 0x106aa070,
    0x19a4c116, 0x1e376c08, 0x2748774c, 0x34b0bcb5, 0x391c0cb3, 0x4ed8aa4a, 0x5b9cca4f, 0x682e6ff3,
    0x748f82ee, 0x78a5636f, 0x84c87814, 0x8cc70208, 0x90befffa, 0xa4506ceb, 0xbef9a3f7, 0xc67178f2]

/-- The chaining value. -/
structure Chain where
  a : Word
  b : Word
  c : Word
  d : Word
  e : Word
  f : Word
  g : Word
  h : Word

/-- The fractional parts of the square roots of the first eight primes. -/
def initial : Chain :=
  ⟨0x6a09e667, 0xbb67ae85, 0x3c6ef372, 0xa54ff53a, 0x510e527f, 0x9b05688c, 0x1f83d9ab, 0x5be0cd19⟩

def Chain.words (s : Chain) : List Word := [s.a, s.b, s.c, s.d, s.e, s.f, s.g, s.h]

def Chain.add (s t : Chain) : Chain :=
  ⟨s.a + t.a, s.b + t.b, s.c + t.c, s.d + t.d, s.e + t.e, s.f + t.f, s.g + t.g, s.h + t.h⟩

/-! ### Padding -/

/-- A number as `k` bytes, the most significant first. -/
def bigEndian (k n : Nat) : List UInt8 :=
  (List.range k).map fun i => UInt8.ofNat (n >>> (8 * (k - 1 - i)))

/-- One bit, zeros, and the length of the message in bits. -/
def pad (message : List UInt8) : List UInt8 :=
  message ++ 0x80 :: List.replicate ((119 - message.length % 64) % 64) 0 ++
    bigEndian 8 (8 * message.length)

/-- Four bytes make a word. -/
def wordOf (bytes : List UInt8) : Word :=
  BitVec.ofNat 32 (bytes.foldl (fun n byte => 256 * n + byte.toNat) 0)

/-- The 16 words of the block at `i`. -/
def blockAt (bytes : List UInt8) (i : Nat) : List Word :=
  (List.range 16).map fun j => wordOf ((bytes.drop (64 * i + 4 * j)).take 4)

/-! ### Compression -/

/-- The next word of a schedule, whose words so far are given from the last to the first. -/
def nextWord (ws : List Word) : Word :=
  let w2 := ws.getD 1 0
  let w15 := ws.getD 14 0
  (w2.rotateRight 17 ^^^ w2.rotateRight 19 ^^^ w2 >>> 10) + ws.getD 6 0 +
    (w15.rotateRight 7 ^^^ w15.rotateRight 18 ^^^ w15 >>> 3) + ws.getD 15 0

/-- A block spread out to 64 words. -/
def schedule (block : List Word) : List Word :=
  ((List.range 48).foldl (fun ws _ => nextWord ws :: ws) block.reverse).reverse

def round (s : Chain) (kw : Word × Word) : Chain :=
  let t1 := s.h + (s.e.rotateRight 6 ^^^ s.e.rotateRight 11 ^^^ s.e.rotateRight 25) +
    (s.e &&& s.f ^^^ ~~~s.e &&& s.g) + kw.1 + kw.2
  let t2 := (s.a.rotateRight 2 ^^^ s.a.rotateRight 13 ^^^ s.a.rotateRight 22) +
    (s.a &&& s.b ^^^ s.a &&& s.c ^^^ s.b &&& s.c)
  ⟨t1 + t2, s.a, s.b, s.c, s.d + t1, s.e, s.f, s.g⟩

def compress (s : Chain) (block : List Word) : Chain :=
  s.add ((roundConstants.zip (schedule block)).foldl round s)

/-! ### The digest -/

def digest (message : List UInt8) : List UInt8 :=
  let bytes := pad message
  let blocks := (List.range (bytes.length / 64)).map (blockAt bytes)
  (blocks.foldl compress initial).words.flatMap fun w => bigEndian 4 w.toNat

/-- `hexdigest()`: two lower-case hexadecimal digits for each byte. -/
def hexdigest (message : List UInt8) : List Char :=
  (digest message).flatMap fun byte =>
    [Nat.digitChar (byte.toNat / 16), Nat.digitChar (byte.toNat % 16)]

end Sha256
