import PluginBroker.Digest

/-! SHA-256: a message is padded to whole blocks of sixteen 32-bit words, each block is expanded to
sixty-four words, and these are mixed, one a round, into a state of eight words.  The widths of the
state, of the block and of the schedule are part of their types. -/

namespace PluginBroker.Sha256

/-- `x` with its bits turned right by `n` places, for `0 < n < 32`. -/
def rotateRight (x n : UInt32) : UInt32 := (x >>> n) ||| (x <<< (32 - n))

/-- The mixing of schedule word `t - 15`. -/
def smallSigma0 (x : UInt32) : UInt32 := rotateRight x 7 ^^^ rotateRight x 18 ^^^ (x >>> 3)

/-- The mixing of schedule word `t - 2`. -/
def smallSigma1 (x : UInt32) : UInt32 := rotateRight x 17 ^^^ rotateRight x 19 ^^^ (x >>> 10)

/-- The mixing of the state's first word. -/
def bigSigma0 (x : UInt32) : UInt32 := rotateRight x 2 ^^^ rotateRight x 13 ^^^ rotateRight x 22

/-- The mixing of the state's fifth word. -/
def bigSigma1 (x : UInt32) : UInt32 := rotateRight x 6 ^^^ rotateRight x 11 ^^^ rotateRight x 25

/-- Each bit of `x` chooses between the bits of `y` and `z`. -/
def choose (x y z : UInt32) : UInt32 := (x &&& y) ^^^ (~~~x &&& z)

/-- Each bit is the one that most of `x`, `y` and `z` have there. -/
def majority (x y z : UInt32) : UInt32 := (x &&& y) ^^^ (x &&& z) ^^^ (y &&& z)

abbrev State := Vector UInt32 8

/-- One block of the padded message, read as big-endian words. -/
abbrev Block := Vector UInt32 16

/-- The first 32 bits of the fractional parts of the square roots of the first eight primes. -/
def initial : State :=
  #v[0x6a09e667, 0xbb67ae85, 0x3c6ef372, 0xa54ff53a, 0x510e527f, 0x9b05688c, 0x1f83d9ab, 0x5be0cd19]

/-- The first 32 bits of the fractional parts of the cube roots of the first sixty-four primes. -/
def roundConstants : Vector UInt32 64 :=
  #v[0x428a2f98, 0x71374491, 0xb5c0fbcf, 0xe9b5dba5, 0x3956c25b, 0x59f111f1, 0x923f82a4, 0xab1c5ed5,
    0xd807aa98, 0x12835b01, 0x243185be, 0x550c7dc3, 0x72be5d74, 0x80deb1fe, 0x9bdc06a7, 0xc19bf174,
    0xe49b69c1, 0xefbe4786, 0x0fc19dc6, 0x240ca1cc, 0x2de92c6f, 0x4a7484aa, 0x5cb0a9dc, 0x76f988da,
    0x983e5152, 0xa831c66d, 0xb00327c8, 0xbf597fc7, 0xc6e00bf3, 0xd5a79147, 0x06ca6351, 0x14292967,
    0x27b70a85, 0x2e1b2138, 0x4d2c6dfc, 0x53380d13, 0x650a7354, 0x766a0abb, 0x81c2c92e, 0x92722c85,
    0xa2bfe8a1, 0xa81a664b, 0xc24b8b70, 0xc76c51a3, 0xd192e819, 0xd6990624, 0xf40e3585, 0x106aa070,
    0x19a4c116, 0x1e376c08, 0x2748774c, 0x34b0bcb5, 0x391c0cb3, 0x4ed8aa4a, 0x5b9cca4f, 0x682e6ff3,
    0x748f82ee, 0x78a5636f, 0x84c87814, 0x8cc70208, 0x90befffa, 0xa4506ceb, 0xbef9a3f7, 0xc67178f2]

/-- A block followed by `n` further words, each made from the words 2, 7, 15 and 16 places back. -/
def expand (block : Block) : (n : Nat) → Vector UInt32 (16 + n)
  | 0 => block
  | n + 1 =>
    let w := expand block n
    w.push (smallSigma1 w[n + 14] + w[n + 9] + smallSigma0 w[n + 1] + w[n])

def schedule (block : Block) : Vector UInt32 64 := expand block 48

/-- One round: the state moves down by one word, with a new first and a changed fifth word. -/
def round (s : State) (constant word : UInt32) : State :=
  let t1 := s[7] + bigSigma1 s[4] + choose s[4] s[5] s[6] + constant + word
  let t2 := bigSigma0 s[0] + majority s[0] s[1] s[2]
  #v[t1 + t2, s[0], s[1], s[2], s[3] + t1, s[4], s[5], s[6]]

/-- The state after the rounds of one block, added word by word to the state before them. -/
def compress (s : State) (block : Block) : State :=
  let rounds := roundConstants.zip (schedule block)
  let mixed := rounds.toList.foldl (fun s r => round s r.1 r.2) s
  s.zipWith (· + ·) mixed

/-- The number of zero bytes that, after a delimiter and before the length, complete a block. -/
def paddingZeros (size : Nat) : Nat := (119 - size % 64) % 64

/-- Byte `i` of the big-endian 64-bit length, in bits, of a message of `size` bytes. -/
def lengthByte (size : Nat) (i : Fin 8) : UInt8 := UInt8.ofNat ((size * 8) >>> (8 * (7 - i.val)))

/-- The message, a delimiter, zeros, and the length, together whole blocks of sixty-four bytes. -/
def pad (message : ByteArray) : Array UInt8 :=
  message.data ++ #[0x80] ++ Array.replicate (paddingZeros message.size) 0 ++
    Array.ofFn (lengthByte message.size)

theorem size_pad_mod (message : ByteArray) : (pad message).size % 64 = 0 := by
  simp only [pad, Array.size_append, Array.size_replicate, Array.size_ofFn, List.size_toArray,
    List.length_singleton, paddingZeros]
  have : message.data.size = message.size := rfl
  omega

/-- The big-endian word whose first byte is at position `i`. -/
def wordAt (bytes : Array UInt8) (i : Nat) : UInt32 :=
  let byte (j : Nat) : UInt32 := (bytes.getD (i + j) 0).toUInt32
  (byte 0 <<< 24) ||| (byte 1 <<< 16) ||| (byte 2 <<< 8) ||| byte 3

def blockAt (bytes : Array UInt8) (i : Nat) : Block :=
  Vector.ofFn fun j => wordAt bytes (64 * i + 4 * j.val)

def finalState (bytes : Array UInt8) : State :=
  (List.range (bytes.size / 64)).foldl (fun s i => compress s (blockAt bytes i)) initial

/-- Byte `i` of the state, each word written with its most significant byte first. -/
def stateByte (s : State) (i : Fin 32) : UInt8 :=
  (s[i.val / 4] >>> (UInt32.ofNat (8 * (3 - i.val % 4)))).toUInt8

def hash (message : ByteArray) : Digest := ⟨Vector.ofFn (stateByte (finalState (pad message)))⟩

/-- The digest of the UTF-8 bytes of a text. -/
def hashText (text : String) : Digest := hash text.toUTF8

end PluginBroker.Sha256
