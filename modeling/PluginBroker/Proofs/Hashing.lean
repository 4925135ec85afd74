import Mathlib.Data.List.Basic
import Mathlib.Data.List.OfFn
import Mathlib.Data.Nat.Digits.Defs
import Mathlib.Tactic.IntervalCases
import PluginBroker.Digest.Sha256

/-! What SHA-256 does with a message of any length, told in bytes: the padded message is a row of whole
blocks, every block is mixed in once and in order, and the digest is the bytes of the words of the last
state. -/

namespace PluginBroker.Sha256

/-- The bytes of a word, the most significant one first. -/
def wordBytes (w : UInt32) : List UInt8 :=
  [(w >>> 24).toUInt8, (w >>> 16).toUInt8, (w >>> 8).toUInt8, w.toUInt8]

def blockBytes (block : Block) : List UInt8 := block.toList.flatMap wordBytes

/-- The number that the bytes are in base 256, the most significant one first. -/
def bigEndian (bytes : List UInt8) : Nat := Nat.ofDigits 256 (bytes.reverse.map UInt8.toNat)

/-- The blocks hold the message, a byte of which only the first bit is set, fewer zero bytes than would
make a further block, and the length of the message in bits as eight bytes. -/
def Framed (message : List UInt8) (blocks : List Block) : Prop :=
  ∃ (zeros : Nat) (length : List UInt8), zeros < 64 ∧ length.length = 8 ∧
    bigEndian length = 8 * message.length % 2 ^ 64 ∧
    blocks.flatMap blockBytes = message ++ 0x80 :: (List.replicate zeros 0 ++ length)

/-- The digest is what is left of the initial state after the blocks that the message makes. -/
def Hashes (message : List UInt8) (d : Digest) : Prop :=
  ∃ blocks, Framed message blocks ∧
    d.bytes.toList = (blocks.foldl compress initial).toList.flatMap wordBytes

/-! ### Bytes and words -/

theorem wordBytes_join (a b c d : UInt8) :
    wordBytes ((a.toUInt32 <<< 24) ||| (b.toUInt32 <<< 16) ||| (c.toUInt32 <<< 8) ||| d.toUInt32) =
      [a, b, c, d] := by
  simp only [wordBytes, List.cons.injEq, and_true]
  refine ⟨?_, ?_, ?_, ?_⟩
  all_goals
    refine UInt8.eq_of_toBitVec_eq (BitVec.eq_of_getElem_eq fun i hi => ?_)
    interval_cases i
  all_goals simp

theorem wordBytes_wordAt {bytes : Array UInt8} {i : Nat} (h : i + 4 ≤ bytes.size) :
    wordBytes (wordAt bytes i) = (bytes.toList.drop i).take 4 := by
  have front : (bytes.toList.drop i).take 4 = [bytes[i], bytes[i + 1], bytes[i + 2], bytes[i + 3]] := by
    apply List.ext_getElem
    · simp only [List.length_take, List.length_drop, Array.length_toList, List.length_cons,
        List.length_nil]
      omega
    · intro k h1 h2
      match k with
      | 0 | 1 | 2 | 3 => simp
      | k + 4 => simp at h2
  rw [front, wordAt, wordBytes_join]
  simp [Array.getD, show i < bytes.size by omega, show i + 1 < bytes.size by omega,
    show i + 2 < bytes.size by omega, show i + 3 < bytes.size by omega]

/-- Pieces of one size, one after the other, are the front of the list. -/
theorem flatMap_pieces {α : Type} (l : List α) (size n : Nat) :
    (List.range n).flatMap (fun i => (l.drop (size * i)).take size) = l.take (size * n) := by
  induction n with
  | zero => simp
  | succ n ih => simp [List.range_succ, ih, Nat.mul_succ, List.take_add]

theorem blockBytes_blockAt {bytes : Array UInt8} {i : Nat} (h : 64 * i + 64 ≤ bytes.size) :
    blockBytes (blockAt bytes i) = (bytes.toList.drop (64 * i)).take 64 := by
  have words : (blockAt bytes i).toList =
      (List.range 16).map fun j => wordAt bytes (64 * i + 4 * j) := by
    rw [blockAt, Vector.toList_ofFn]
    rfl
  calc blockBytes (blockAt bytes i)
      = (List.range 16).flatMap fun j => wordBytes (wordAt bytes (64 * i + 4 * j)) := by
        rw [blockBytes, words, List.flatMap_map]
    _ = (List.range 16).flatMap fun j => ((bytes.toList.drop (64 * i)).drop (4 * j)).take 4 := by
        refine List.flatMap_congr fun j hj => ?_
        have := List.mem_range.mp hj
        rw [wordBytes_wordAt (by omega), List.drop_drop]
    _ = (bytes.toList.drop (64 * i)).take 64 := flatMap_pieces _ 4 16

/-! ### The padded message -/

theorem bigEndian_lengthByte (size : Nat) :
    bigEndian (List.ofFn (lengthByte size)) = 8 * size % 2 ^ 64 := by
  simp [bigEndian, List.ofFn_succ, lengthByte, Nat.ofDigits, Nat.shiftRight_eq_div_pow]
  omega

theorem toList_pad (message : ByteArray) : (pad message).toList = message.data.toList ++
    0x80 :: (List.replicate (paddingZeros message.size) 0 ++ List.ofFn (lengthByte message.size)) := by
  simp [pad]

def blocksOf (bytes : Array UInt8) : List Block := (List.range (bytes.size / 64)).map (blockAt bytes)

theorem flatMap_blocksOf {bytes : Array UInt8} (h : bytes.size % 64 = 0) :
    (blocksOf bytes).flatMap blockBytes = bytes.toList := by
  calc (blocksOf bytes).flatMap blockBytes
      = (List.range (bytes.size / 64)).flatMap fun i => blockBytes (blockAt bytes i) := by
        rw [blocksOf, List.flatMap_map]
    _ = (List.range (bytes.size / 64)).flatMap fun i => (bytes.toList.drop (64 * i)).take 64 := by
        refine List.flatMap_congr fun i hi => blockBytes_blockAt ?_
        have := List.mem_range.mp hi
        omega
    _ = bytes.toList.take (64 * (bytes.size / 64)) := flatMap_pieces _ 64 _
    _ = bytes.toList := List.take_of_length_le (by rw [Array.length_toList]; omega)

theorem framed_blocksOf_pad (message : ByteArray) :
    Framed message.data.toList (blocksOf (pad message)) := by
  refine ⟨paddingZeros message.size, List.ofFn (lengthByte message.size), Nat.mod_lt _ (by decide),
    List.length_ofFn, bigEndian_lengthByte _, ?_⟩
  rw [flatMap_blocksOf (size_pad_mod message), toList_pad]

/-! ### The digest -/

theorem finalState_eq (bytes : Array UInt8) :
    finalState bytes = (blocksOf bytes).foldl compress initial := by
  rw [finalState, blocksOf, List.foldl_map]

theorem ofFn_stateByte (s : State) :
    List.ofFn (stateByte s) = s.toList.flatMap wordBytes := by
  have word (i : Fin 8) : (List.ofFn fun j : Fin 4 => stateByte s ⟨i * 4 + j, by omega⟩) =
      wordBytes s[i] := by
    have byte (j : Nat) (hj : j < 4) : (i.val * 4 + j) / 4 = i := by omega
    simp [List.ofFn_succ, stateByte, wordBytes, byte]
  have words : s.toList = List.ofFn fun i : Fin 8 => s[i] := by
    rw [← Vector.toList_ofFn]
    exact congrArg Vector.toList Vector.ofFn_getElem.symm
  rw [List.ofFn_mul (m := 8) (n := 4), words, List.flatMap, List.map_ofFn]
  exact congrArg List.flatten (congrArg List.ofFn (funext word))

theorem hash_hashes (message : ByteArray) : Hashes message.data.toList (hash message) := by
  refine ⟨blocksOf (pad message), framed_blocksOf_pad message, ?_⟩
  rw [hash, Vector.toList_ofFn, ofFn_stateByte, finalState_eq]

-- Known answers: no text, a short one, and one whose padding takes a second block.
example : (hashText "").hex =
    "E3B0C44298FC1C149AFBF4C8996FB92427AE41E4649B934CA495991B7852B855" := by
  decide +kernel

example : (hashText "abc").hex =
    "BA7816BF8F01CFEA414140DE5DAE2223B00361A396177A9CB410FF61F20015AD" := by
  decide +kernel

example : (hashText "abcdbcdecdefdefgefghfghighijhijkijkljklmklmnlmnomnopnopq").hex =
    "248D6A61D20638B8E5C026930C3E6039A33CE45964FF2167F6ECEDD419DB06C1" := by
  decide +kernel

end PluginBroker.Sha256
