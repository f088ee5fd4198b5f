import Sha3Kernel.KeccakBits
import Sha3Kernel.StateSpec
/-!
# The sponge, bit by bit

The code never builds the padded message. `paddedMessage` does, `hashOf` steps
over its blocks, and the bit string of the result is the `KECCAK[1024]` of the
bit string of the message: bytes spell their bits least significant first, and
lane `i` holds bits `64*i` to `64*i + 63` of the state. With the permutation
read bit by bit, that is SHA3-512.
-/

namespace Sha3Kernel

open HashLib HashLib.Arrays HashLib.Bits HashLib.Blocks HashLib.Checked

/-! ## The padded message -/

/-- The message with the padding that fills its last block. -/
def paddedMessage (m : List U8) : List U8 := m ++ padTo (m.length % 72)

theorem length_paddedMessage (m : List U8) : (paddedMessage m).length = (m.length / 72 + 1) * 72 := by
  rw [paddedMessage, List.length_append, length_padTo]
  omega

/-- The digest of a message: the sponge over the blocks of the padded message. -/
def hashOf (m : List U8) : Sha3_512Hash :=
  digest (run blockStep 72 (m.length / 72 + 1) (Vector.replicate 25 0) (paddedMessage m))

/-- Feeding the whole message and finishing is hashing it. -/
theorem finish_feed (m : List U8) : digest (finish (fresh.feed blockStep m)) = hashOf m := by
  have hle : m.length / 72 * 72 ≤ m.length := Nat.div_mul_le_self _ _
  have htail : (m.drop (m.length / 72 * 72)).length = m.length % 72 := by
    rw [List.length_drop, Nat.mul_comm, ← Nat.mod_eq_sub]
  have hlast : (m.drop (m.length / 72 * 72) ++ padTo (m.length % 72)).length = 72 := by
    rw [List.length_append, htail, length_padTo]
    omega
  refine congrArg digest ?_
  unfold paddedMessage finish
  simp only [Buffered.feed, fresh, List.nil_append]
  rw [run_add, run_append _ _ _ _ _ _ hle, run_succ, run_zero, List.drop_append_of_le_length hle,
    List.take_of_length_le (Nat.le_of_eq hlast), htail]

/-! ## States as bit strings -/

/-- Bit `64*i + z` is bit `z` of lane `i`. -/
def stateString (s : Lanes) : List Bool := bits s.toList

/-- The lanes of a 1600-bit string. -/
def ofStateString (S : List Bool) : Lanes :=
  Vector.ofFn fun i => ofBits fun z => S.getD (64 * i.val + z.val) false

/-- `keccak_f1600` on bit strings. -/
def keccakString (S : List Bool) : List Bool := stateString (keccak_f1600 (ofStateString S))

@[simp] theorem length_stateString (s : Lanes) : (stateString s).length = 1600 := by simp [stateString]

theorem getElem?_stateString (s : Lanes) (i : Fin 25) (z : Fin 64) :
    (stateString s)[64 * i.val + z.val]? = some ((s.get i).getLsbD z.val) := by
  have hdiv : (64 * i.val + z.val) / 64 = i.val := by omega
  have hmod : (64 * i.val + z.val) % 64 = z.val := by omega
  rw [stateString, getElem?_bits (by decide), hdiv, hmod, List.getElem?_eq_getElem (by simp)]
  simp [Vector.get_eq_getElem]

theorem ofStateString_stateString (s : Lanes) : ofStateString (stateString s) = s := by
  refine Vector.ext fun i hi => BitVec.eq_of_getLsbD_eq fun z hz => ?_
  have h := getElem?_stateString s ⟨i, hi⟩ ⟨z, hz⟩
  have hbit := getLsbD_ofBits (fun z : Fin 64 => (stateString s).getD (64 * i + z.val) false) ⟨z, hz⟩
  rw [ofStateString, Vector.getElem_ofFn, hbit, List.getD_eq_getElem?_getD, h]
  rfl

/-! ## One block -/

theorem stateString_xorWords (s : Lanes) {block : List U8} (h : block.length = 72) :
    stateString (xorWords 9 block s) =
      Sponge.xorBits (stateString s) (bits block ++ List.replicate 1024 false) := by
  refine List.ext_getElem? fun n => ?_
  rcases Nat.lt_or_ge n 1600 with hn | hn
  · obtain ⟨i, z, rfl⟩ : ∃ (i : Fin 25) (z : Fin 64), n = 64 * i.val + z.val :=
      ⟨⟨n / 64, by omega⟩, ⟨n % 64, by omega⟩, by dsimp only; omega⟩
    rw [Sponge.xorBits, List.getElem?_zipWith, getElem?_stateString, getElem?_stateString, Vector.get_eq_getElem,
      Vector.get_eq_getElem, xorWords, getElem_mapFirst]
    by_cases hi : i.val < 9
    · -- a lane of the rate takes the word of the block with its number
      have hbyte : (64 * i.val + z.val) / 8 = 8 * i.val + z.val / 8 := by omega
      have hbit : (64 * i.val + z.val) % 8 = z.val % 8 := by omega
      have hin : 8 * i.val + z.val / 8 < block.length := by omega
      rw [if_pos hi, List.getElem?_append_left (by rw [length_bits]; omega), getElem?_bits (by decide), hbyte, hbit,
        BitVec.getLsbD_xor, getLsbD_leWord _ _ _ z.isLt, List.getD_eq_getElem?_getD, List.getElem?_eq_getElem hin]
      rfl
    · -- a lane of the capacity takes nothing
      rw [if_neg hi, List.getElem?_append_right (by rw [length_bits]; omega),
        List.getElem?_replicate_of_lt (by rw [length_bits]; omega)]
      simp
  · rw [List.getElem?_eq_none (by simpa using hn), List.getElem?_eq_none]
    simp only [Sponge.xorBits, List.length_zipWith, length_stateString]
    omega

theorem stateString_blockStep (s : Lanes) (block : List U8) (h : block.length = 72) :
    Sponge.absorbStep keccakString 1024 (stateString s) (bits block) = stateString (blockStep s block) := by
  rw [Sponge.absorbStep, ← stateString_xorWords s h, keccakString, ofStateString_stateString]
  rfl

/-! ## Padding -/

theorem padTo_short {n : Nat} (h : n < 71) : padTo n = 0x06 :: List.replicate (70 - n) 0 ++ [0x80] := by
  have hk : 72 - 1 - n = 70 - n + 1 := by omega
  unfold padTo padAt
  rw [hk, List.modify_succ_cons, List.modify_eq_take_cons_drop (by simp), List.take_replicate,
    Nat.min_eq_left (Nat.le_succ _), List.getElem_replicate, List.drop_eq_nil_of_le (by simp)]
  rfl

/-- The bytes of the padding spell the suffix `01` and `pad10*1`, also where the
two meet in one byte. -/
theorem bits_padTo (len : Nat) :
    bits (padTo (len % 72)) = [false, true] ++ Sponge.pad10star1 576 (len * 8 + 2) := by
  have hn : len % 72 < 72 := Nat.mod_lt _ (by decide)
  have hzeros : (576 - (len * 8 + 2 + 2) % 576) % 576 = 572 - 8 * (len % 72) := by omega
  rw [Sponge.pad10star1_eq _ _ (by decide), hzeros]
  generalize len % 72 = n at hn ⊢
  by_cases h71 : n = 71
  · -- the domain byte is the last byte too
    subst h71
    decide
  · have hdomain : wordBits (0x06 : U8) = [false, true, true] ++ List.replicate 5 false := by decide
    have hlast : bits [(0x80 : U8)] = List.replicate 7 false ++ [true] := by decide
    have hsplit : 572 - 8 * n = 5 + (70 - n) * 8 + 7 := by omega
    rw [padTo_short (by omega), bits_append, bits_cons, bits_replicate_zero, hsplit, List.replicate_add,
      List.replicate_add, hdomain, hlast]
    simp

theorem bits_paddedMessage (m : List U8) :
    bits (paddedMessage m) =
      bits m ++ [false, true] ++ Sponge.pad10star1 576 (bits m ++ [false, true]).length := by
  rw [paddedMessage, bits_append, bits_padTo, List.length_append, length_bits, List.append_assoc]
  rfl

/-! ## The hash -/

theorem bits_digest (s : Lanes) : bits (digest s).toList = (stateString s).take 512 := by
  have hbits : ∀ xs : List U64, bits (xs.flatMap fun x => (to_le_bytes x).toList) = bits xs := by
    intro xs
    induction xs with
    | nil => rfl
    | cons x xs ih => rw [List.flatMap_cons, bits_append, bits_cons, ih, bits_to_le_bytes]
  rw [toList_digest, hbits, stateString]
  exact (take_bits s.toList 8).symm

/-- The digest is the bit-level sponge of the message. -/
theorem bits_hashOf (m : List U8) :
    bits (hashOf m).toList = Fips202.keccak keccakString 1024 (bits m ++ [false, true]) 512 := by
  have hblocks : (bits (paddedMessage m)).length / 576 = m.length / 72 + 1 := by
    rw [length_bits, length_paddedMessage]
    omega
  have hzero : stateString (Vector.replicate 25 0) = List.replicate 1600 false := by
    rw [stateString, Vector.toList_replicate, bits_replicate_zero]
  have hrun := run_sim blockStep 72 stateString bits (fun xs => take_bits xs 72) (fun xs => drop_bits xs 72)
    stateString_blockStep (m.length / 72 + 1) (Vector.replicate 25 0) (paddedMessage m)
    (Nat.le_of_eq (length_paddedMessage m).symm)
  unfold Fips202.keccak Sponge.sponge
  simp only [Nat.reduceSub]
  rw [← bits_paddedMessage, hblocks, ← hzero, hrun,
    Sponge.squeezeFrom_one _ _ _ (by decide) (by simp), ← bits_digest]
  rfl

/-! ## SHA3-512 -/

theorem stateArray_ofStateString (S : List Bool) : stateArray (ofStateString S) = Fips202.ofString S := by
  funext x y z
  have hlane : (lane x y).val = 5 * y.val + x.val := Nat.add_comm _ _
  rw [stateArray, ofStateString, Vector.get_ofFn, getLsbD_ofBits, hlane]
  rfl

/-- Lane by lane, row by row. -/
theorem toList_lanes (s : Lanes) :
    s.toList = (List.finRange 5).flatMap fun y => (List.finRange 5).map fun x => s.get (lane x y) := by
  have hindices : List.finRange 25 = (List.finRange 5).flatMap fun y => (List.finRange 5).map fun x => lane x y := by
    decide
  have hget : s.toList = (List.finRange 25).map s.get := by
    refine List.ext_getElem (by simp) fun i h₁ h₂ => ?_
    simp [Vector.get_eq_getElem]
  rw [hget, hindices, List.map_flatMap]
  simp only [List.map_map, Function.comp_def]

theorem stateString_eq (s : Lanes) : stateString s = Fips202.toString (stateArray s) := by
  have hword : ∀ x : U64, wordBits x = (List.finRange 64).map fun z => x.getLsbD z.val := by
    intro x
    rw [wordBits, ← List.map_coe_finRange_eq_range, List.map_map]
    rfl
  unfold stateString bits Fips202.toString stateArray
  rw [toList_lanes, List.flatMap_assoc]
  simp only [List.flatMap_map, hword]

/-- On bit strings `keccak_f1600` is the standard's permutation. -/
theorem keccakString_eq : keccakString = fun S => Fips202.toString (Fips202.keccakF (Fips202.ofString S)) := by
  funext S
  rw [keccakString, stateString_eq, keccak_f1600_bits, stateArray_ofStateString]

/-- The digest of a message is its SHA3-512. -/
theorem hashOf_sha3_512 (m : List U8) : bits (hashOf m).toList = Fips202.sha3_512 (bits m) := by
  rw [bits_hashOf, keccakString_eq]
  rfl

end Sha3Kernel
