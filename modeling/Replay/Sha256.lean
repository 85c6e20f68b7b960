set_option autoImplicit false

/-!
The SHA-256 digest of a sequence of bytes, on 32-bit words: `digest` pads the message, folds the
compression function over its 64-byte blocks and writes the state in hexadecimal.
-/

namespace Replay.Sha256

/-- First 32 bits of the fractional parts of the cube roots of the first 64 primes. -/
def roundConstants : Array UInt32 := #[
  0x428a2f98, 0x71374491, 0xb5c0fbcf, 0xe9b5dba5, 0x3956c25b, 0x59f111f1, 0x923f82a4, 0xab1c5ed5,
  0xd807aa98, 0x12835b01, 0x243185be, 0x550c7dc3, 0x72be5d74, 0x80deb1fe, 0x9bdc06a7, 0xc19bf174,
  0xe49b69c1, 0xefbe4786, 0x0fc19dc6, 0x240ca1cc, 0x2de92c6f, 0x4a7484aa, 0x5cb0a9dc, 0x76f988da,
  0x983e5152, 0xa831c66d, 0xb00327c8, 0xbf597fc7, 0xc6e00bf3, 0xd5a79147, 0x06ca6351, 0x14292967,
  0x27b70a85, 0x2e1b2138, 0x4d2c6dfc, 0x53380d13, 0x650a7354, 0x766a0abb, 0x81c2c92e, 0x92722c85,
  0xa2bfe8a1, 0xa81a664b, 0xc24b8b70, 0xc76c51a3, 0xd192e819, 0xd6990624, 0xf40e3585, 0x106aa070,
  0x19a4c116, 0x1e376c08, 0x2748774c, 0x34b0bcb5, 0x391c0cb3, 0x4ed8aa4a, 0x5b9cca4f, 0x682e6ff3,
  0x748f82ee, 0x78a5636f, 0x84c87814, 0x8cc70208, 0x90befffa, 0xa4506ceb, 0xbef9a3f7, 0xc67178f2]

structure State where
  a : UInt32
  b : UInt32
  c : UInt32
  d : UInt32
  e : UInt32
  f : UInt32
  g : UInt32
  h : UInt32

/-- First 32 bits of the fractional parts of the square roots of the first 8 primes. -/
def State.initial : State :=
  ⟨0x6a09e667, 0xbb67ae85, 0x3c6ef372, 0xa54ff53a, 0x510e527f, 0x9b05688c, 0x1f83d9ab, 0x5be0cd19⟩

def State.add (s t : State) : State :=
  ⟨s.a + t.a, s.b + t.b, s.c + t.c, s.d + t.d, s.e + t.e, s.f + t.f, s.g + t.g, s.h + t.h⟩

def State.words (s : State) : List UInt32 := [s.a, s.b, s.c, s.d, s.e, s.f, s.g, s.h]

def rotateRight (x n : UInt32) : UInt32 := (x >>> n) ||| (x <<< (32 - n))

def State.round (s : State) (k : UInt32) : State :=
  let s1 := rotateRight s.e 6 ^^^ rotateRight s.e 11 ^^^ rotateRight s.e 25
  let choice := (s.e &&& s.f) ^^^ ((~~~ s.e) &&& s.g)
  let t1 := s.h + s1 + choice + k
  let s0 := rotateRight s.a 2 ^^^ rotateRight s.a 13 ^^^ rotateRight s.a 22
  let majority := (s.a &&& s.b) ^^^ (s.a &&& s.c) ^^^ (s.b &&& s.c)
  ⟨t1 + s0 + majority, s.a, s.b, s.c, s.d + t1, s.e, s.f, s.g⟩

def schedule (block : Array UInt32) : Array UInt32 :=
  (List.range 48).foldl (fun w i =>
    let x := w.getD (i + 1) 0
    let y := w.getD (i + 14) 0
    let s0 := rotateRight x 7 ^^^ rotateRight x 18 ^^^ (x >>> 3)
    let s1 := rotateRight y 17 ^^^ rotateRight y 19 ^^^ (y >>> 10)
    w.push (w.getD i 0 + s0 + w.getD (i + 9) 0 + s1)) block

def compress (s : State) (block : Array UInt32) : State :=
  let w := schedule block
  s.add ((List.range 64).foldl (fun t i => t.round (roundConstants.getD i 0 + w.getD i 0)) s)

/-- The `width` bytes of `n`, most significant first. -/
def bytesOf (width n : Nat) : List UInt8 :=
  (List.range width).reverse.map fun i => UInt8.ofNat (n >>> (8 * i))

def padded (message : ByteArray) : ByteArray :=
  let tail := 0x80 :: List.replicate ((119 - message.size % 64) % 64) 0
  (tail ++ bytesOf 8 (8 * message.size)).foldl ByteArray.push message

def byteAt (bytes : ByteArray) (i : Nat) : UInt32 := if h : i < bytes.size then bytes[i].toUInt32 else 0

def wordAt (bytes : ByteArray) (i : Nat) : UInt32 :=
  (byteAt bytes i <<< 24) ||| (byteAt bytes (i + 1) <<< 16) ||| (byteAt bytes (i + 2) <<< 8) |||
    byteAt bytes (i + 3)

def blockAt (bytes : ByteArray) (i : Nat) : Array UInt32 :=
  ((List.range 16).map fun j => wordAt bytes (64 * i + 4 * j)).toArray

def hexDigits (x : UInt32) : List Char :=
  (List.range 8).reverse.map fun i => Nat.digitChar ((x.toNat >>> (4 * i)) % 16)

def digest (message : ByteArray) : String :=
  let bytes := padded message
  let final := (List.range (bytes.size / 64)).foldl (fun s i => compress s (blockAt bytes i)) .initial
  String.ofList (final.words.flatMap hexDigits)

theorem length_hexDigits (x : UInt32) : (hexDigits x).length = 8 := by simp [hexDigits]

theorem length_digest (message : ByteArray) : (digest message).length = 64 := by
  simp [digest, State.words, length_hexDigits]

end Replay.Sha256
