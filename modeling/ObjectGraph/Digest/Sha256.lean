/-!
# SHA-256

The 256-bit hash function of the SHA-2 family on lists of bytes: the message is padded to whole blocks of 64 bytes,
each block is spread out to 64 words, and the state is stirred by one round for each word.
-/

set_option autoImplicit false

namespace ObjectGraph.Sha256

/-- The eight words of the state, which are also the hash in the end. -/
structure Words where
  a : UInt32
  b : UInt32
  c : UInt32
  d : UInt32
  e : UInt32
  f : UInt32
  g : UInt32
  h : UInt32
deriving DecidableEq, Repr, Inhabited

/-- Rotation to the right; the amount is between 1 and 31. -/
def rotateRight (x : UInt32) (n : UInt32) : UInt32 := x >>> n ||| x <<< (32 - n)

def choose (x y z : UInt32) : UInt32 := (x &&& y) ^^^ (~~~x &&& z)

def majority (x y z : UInt32) : UInt32 := (x &&& y) ^^^ (x &&& z) ^^^ (y &&& z)

def bigSigma0 (x : UInt32) : UInt32 := rotateRight x 2 ^^^ rotateRight x 13 ^^^ rotateRight x 22

def bigSigma1 (x : UInt32) : UInt32 := rotateRight x 6 ^^^ rotateRight x 11 ^^^ rotateRight x 25

def smallSigma0 (x : UInt32) : UInt32 := rotateRight x 7 ^^^ rotateRight x 18 ^^^ x >>> 3

def smallSigma1 (x : UInt32) : UInt32 := rotateRight x 17 ^^^ rotateRight x 19 ^^^ x >>> 10

def initial : Words :=
  ⟨0x6a09e667, 0xbb67ae85, 0x3c6ef372, 0xa54ff53a, 0x510e527f, 0x9b05688c, 0x1f83d9ab, 0x5be0cd19⟩

/-- One constant for each round. -/
def roundConstants : List UInt32 := [
  0x428a2f98, 0x71374491, 0xb5c0fbcf, 0xe9b5dba5, 0x3956c25b, 0x59f111f1, 0x923f82a4, 0xab1c5ed5,
  0xd807aa98, 0x12835b01, 0x243185be, 0x550c7dc3, 0x72be5d74, 0x80deb1fe, 0x9bdc06a7, 0xc19bf174,
  0xe49b69c1, 0xefbe4786, 0x0fc19dc6, 0x240ca1cc, 0x2de92c6f, 0x4a7484aa, 0x5cb0a9dc, 0x76f988da,
  0x983e5152, 0xa831c66d, 0xb00327c8, 0xbf597fc7, 0xc6e00bf3, 0xd5a79147, 0x06ca6351, 0x14292967,
  0x27b70a85, 0x2e1b2138, 0x4d2c6dfc, 0x53380d13, 0x650a7354, 0x766a0abb, 0x81c2c92e, 0x92722c85,
  0xa2bfe8a1, 0xa81a664b, 0xc24b8b70, 0xc76c51a3, 0xd192e819, 0xd6990624, 0xf40e3585, 0x106aa070,
  0x19a4c116, 0x1e376c08, 0x2748774c, 0x34b0bcb5, 0x391c0cb3, 0x4ed8aa4a, 0x5b9cca4f, 0x682e6ff3,
  0x748f82ee, 0x78a5636f, 0x84c87814, 0x8cc70208, 0x90befffa, 0xa4506ceb, 0xbef9a3f7, 0xc67178f2]

/-- A word from its bytes, most significant first. -/
def wordOfBytes (b3 b2 b1 b0 : UInt8) : UInt32 :=
  b3.toUInt32 <<< 24 ||| b2.toUInt32 <<< 16 ||| b1.toUInt32 <<< 8 ||| b0.toUInt32

/-- The bytes of a word, most significant first. -/
def bytesOfWord (w : UInt32) : List UInt8 :=
  [(w >>> 24).toUInt8, (w >>> 16).toUInt8, (w >>> 8).toUInt8, w.toUInt8]

/-- A byte string as words; up to three bytes at the end are left out. -/
def words : List UInt8 → List UInt32
  | b3 :: b2 :: b1 :: b0 :: rest => wordOfBytes b3 b2 b1 b0 :: words rest
  | _ => []

/-- The number of zero bytes that bring a message of some length, with one byte before them and eight
after them, to whole blocks. -/
def paddingZeros (length : Nat) : Nat := (119 - length % 64) % 64

/-- The length of a message in bits, as eight bytes, most significant first. -/
def lengthBytes (length : Nat) : List UInt8 :=
  let bits := UInt64.ofNat (8 * length)
  bytesOfWord (bits >>> 32).toUInt32 ++ bytesOfWord bits.toUInt32

/-- A message, one bit, zeros, and the length of the message. -/
def pad (message : List UInt8) : List UInt8 :=
  message ++ 0x80 :: (List.replicate (paddingZeros message.length) 0 ++ lengthBytes message.length)

/-- The words of a block and those derived from them: each new word comes from four of the sixteen
words before it. The window holds the sixteen words that come next. -/
def schedule : Nat → List UInt32 → List UInt32
  | rounds + 1, w :: window =>
    let next := w + smallSigma0 (window.getD 0 0) + window.getD 8 0 + smallSigma1 (window.getD 13 0)
    w :: schedule rounds (window ++ [next])
  | _, _ => []

/-- One round, with a word of the schedule and the constant of the round. -/
def round (s : Words) (w k : UInt32) : Words :=
  let t1 := s.h + bigSigma1 s.e + choose s.e s.f s.g + k + w
  let t2 := bigSigma0 s.a + majority s.a s.b s.c
  ⟨t1 + t2, s.a, s.b, s.c, s.d + t1, s.e, s.f, s.g⟩

/-- The state after a block of sixteen words. -/
def compress (s : Words) (block : List UInt32) : Words :=
  let t := ((schedule 64 block).zip roundConstants).foldl (fun s wk => round s wk.1 wk.2) s
  ⟨s.a + t.a, s.b + t.b, s.c + t.c, s.d + t.d, s.e + t.e, s.f + t.f, s.g + t.g, s.h + t.h⟩

def absorb : Nat → Words → List UInt32 → Words
  | 0, s, _ => s
  | blocks + 1, s, ws => absorb blocks (compress s (ws.take 16)) (ws.drop 16)

/-- The hash of a byte string. -/
def hash (message : List UInt8) : Words :=
  let ws := words (pad message)
  absorb (ws.length / 16) initial ws

/-- The two digits of a byte in base sixteen, in lower case. -/
def hexOfByte (b : UInt8) : List Char := [Nat.digitChar (b.toNat / 16), Nat.digitChar (b.toNat % 16)]

def Words.hex (s : Words) : String :=
  String.ofList ((([s.a, s.b, s.c, s.d, s.e, s.f, s.g, s.h]).flatMap bytesOfWord).flatMap hexOfByte)

end ObjectGraph.Sha256
