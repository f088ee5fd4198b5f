import Sha3Kernel.HashLib.Blocks
import Sha3Kernel.HashLib.Checked
import Sha3Kernel.SimdAvx512
/-!
# The sponge (`Sha3_512State` in `lib.rs`)

`absorb` and `finalize` as the code runs them, with every range, index and
`usize` operation checked: each one that would panic in the source is a fault
here. The permutation is chosen by the build, the CPU and a flag, and every
choice computes `keccak_f1600`.
-/

namespace Sha3Kernel

open HashLib HashLib.Bits HashLib.Checked HashLib.Blocks

/-! ## Platform -/

/-- The build (`std` on x86_64, or `kernel`/another target) and the answers of
`is_x86_feature_detected!`. -/
structure Platform where
  std_x86_64 : Bool
  avx512f : Bool
  avx512bw : Bool
  avx512dq : Bool
  avx2 : Bool
  bmi2 : Bool
  sse42 : Bool
  deriving DecidableEq, Repr

/-- The permutation the sponge calls; builds without the vector module ignore
the flag. -/
def permute (p : Platform) (state : Lanes) (use_avx512 : Bool) : Lanes :=
  if p.std_x86_64 then keccak_f1600_dispatch p.avx512f state use_avx512 else keccak_f1600 state

@[simp] theorem permute_eq (p : Platform) (state : Lanes) (use_avx512 : Bool) :
    permute p state use_avx512 = keccak_f1600 state := by
  unfold permute
  split
  · exact dispatch_eq_scalar p.avx512f state use_avx512
  · rfl

/-! ## The state -/

/-- The rate in bytes. -/
def SHA3_512_RATE : Nat := 72

def SHA3_DOMAIN_BYTE : U8 := 0x06

abbrev Sha3_512Hash := Vector U8 64

structure Sha3_512State where
  state : Lanes
  pos : Nat
  rate : Nat
  buffer : Vector U8 200
  deriving DecidableEq

namespace Sha3_512State

def new : Sha3_512State where
  state := Vector.replicate 25 0
  pos := 0
  rate := SHA3_512_RATE
  buffer := Vector.replicate 200 0

/-- `rate` is not touched. -/
def reset (self : Sha3_512State) : Sha3_512State :=
  { self with state := Vector.replicate 25 0, pos := 0, buffer := Vector.replicate 200 0 }

end Sha3_512State

/-! ## Absorbing words -/

/-- `u64::from_le_bytes([b0, .., b7])` -/
def word_from (b0 b1 b2 b3 b4 b5 b6 b7 : U8) : U64 := from_le_bytes #v[b0, b1, b2, b3, b4, b5, b6, b7]

/-- `u64::from_le_bytes([block[off], .., block[off + 7]])` -/
def read_word (block : List U8) (off : Nat) : Result U64 := do
  let b0 ← index block off
  let b1 ← index block (off + 1)
  let b2 ← index block (off + 2)
  let b3 ← index block (off + 3)
  let b4 ← index block (off + 4)
  let b5 ← index block (off + 5)
  let b6 ← index block (off + 6)
  let b7 ← index block (off + 7)
  pure (word_from b0 b1 b2 b3 b4 b5 b6 b7)

/-- The loop that XORs `words` words of a block into the lanes, one by one. -/
def xor_words (words : Nat) (block : List U8) (state : Lanes) : Result Lanes :=
  forRange 0 words (fun i state => do
    let off := i * 8
    let word ← read_word block off
    let lane ← index state.toList i
    store state i (lane ^^^ word)) state

namespace Sha3_512State

/-- XOR the block in the buffer into the lanes. -/
def xor_block_into_state (self : Sha3_512State) : Result Sha3_512State := do
  let words := self.rate / 8
  let state ← xor_words words self.buffer.toList self.state
  pure { self with state }

/-! ## `absorb` -/

/-- First phase: complete the block in the buffer. Returns the offset of the
first byte of `data` that is not used up. -/
def absorb_fill (p : Platform) (self : Sha3_512State) (data : Slice U8) (use_avx512 : Bool) :
    Result (Sha3_512State × Nat) :=
  if 0 < self.pos then do
    let remaining ← usize_sub self.rate self.pos
    let to_copy := min remaining data.len
    let src ← slice data.val 0 to_copy
    let pos ← usize_add self.pos to_copy
    let buffer ← copy_from_slice self.buffer self.pos pos src
    let self := { self with buffer, pos }
    let offset ← usize_add 0 to_copy
    if self.pos = self.rate then
      let self ← self.xor_block_into_state
      pure ({ self with state := permute p self.state use_avx512, pos := 0 }, offset)
    else
      pure (self, offset)
  else
    pure (self, 0)

/-- Second phase, one pass: a full block straight from `data`. -/
def absorb_block (p : Platform) (data : Slice U8) (use_avx512 : Bool) :
    Sha3_512State × Nat → Result (Flow (Sha3_512State × Nat) (Sha3_512State × Nat))
  | (self, offset) => do
    let block_end ← usize_add offset self.rate
    if block_end ≤ data.len then
      let block ← slice data.val offset block_end
      let words := self.rate / 8
      let state ← xor_words words block self.state
      let offset ← usize_add offset self.rate
      pure (.next ({ self with state := permute p state use_avx512 }, offset))
    else
      pure (.done (self, offset))

/-- Third phase: keep the bytes of the last, short block. -/
def absorb_tail (self : Sha3_512State) (data : Slice U8) (offset : Nat) : Result Sha3_512State := do
  let tail ← usize_sub data.len offset
  if 0 < tail then
    let src ← slice data.val offset data.len
    let buffer ← copy_from_slice self.buffer 0 tail src
    pure { self with buffer, pos := tail }
  else
    pure self

/-- The block loop makes progress in every pass unless `rate` is 0, so a pass
for each byte and one to leave are all it can need. -/
def absorb (p : Platform) (self : Sha3_512State) (data : Slice U8) (use_avx512 : Bool) : Result Sha3_512State := do
  let (self, offset) ← self.absorb_fill p data use_avx512
  let (self, offset) ← loop (absorb_block p data use_avx512) (data.len + 1) (self, offset)
  self.absorb_tail data offset

end Sha3_512State

/-! ## `finalize` -/

/-- Write lanes 0 to 7 out as 64 bytes (the loop that ends `finalize`, a
function of its own in the batch code). -/
def squeeze (state : Lanes) : Result Sha3_512Hash :=
  forRange 0 8 (fun i hash => do
    let lane ← index state.toList i
    copy_from_slice hash (i * 8) ((i + 1) * 8) (to_le_bytes lane).toList) (Vector.replicate 64 0)

namespace Sha3_512State

/-- Pad the buffer in place, absorb it and read the digest; `pos` stays. -/
def finalize (p : Platform) (self : Sha3_512State) (use_avx512 : Bool) : Result (Sha3_512State × Sha3_512Hash) := do
  let buffer ← forRange self.pos self.rate (fun i buffer => store buffer i 0) self.buffer
  let buffer ← store buffer self.pos SHA3_DOMAIN_BYTE
  let last ← usize_sub self.rate 1
  let byte ← index buffer.toList last
  let buffer ← store buffer last (byte ||| 0x80)
  let self := { self with buffer }
  let self ← self.xor_block_into_state
  let self := { self with state := permute p self.state use_avx512 }
  let hash ← squeeze self.state
  pure (self, hash)

end Sha3_512State

end Sha3Kernel
