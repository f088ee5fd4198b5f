import Sha3Kernel.HashLib.Erase
import Sha3Kernel.State
/-!
# The blocks that reach the lanes

The code of `absorb` and `finalize` once more, writing down the bytes of every
block as it XORs them into the lanes. Leaving the record out gives the code
back, so what is proved here of the recording code holds of the code itself.
-/

namespace Sha3Kernel

open HashLib HashLib.Bits HashLib.Checked HashLib.Blocks HashLib.Erase

/-! ## The code, with a record -/

/-- Blocks in the order they are XORed into the lanes. -/
abbrev Trace := List (List U8)

/-- `xor_words`, recording the bytes of the words. -/
def xor_words_traced (words : Nat) (block : List U8) (state : Lanes) : Result (Lanes × Trace) := do
  let state ← xor_words words block state
  pure (state, [block.take (words * 8)])

namespace Sha3_512State

def xor_block_into_state_traced (self : Sha3_512State) : Result (Sha3_512State × Trace) := do
  let words := self.rate / 8
  let (state, trace) ← xor_words_traced words self.buffer.toList self.state
  pure ({ self with state }, trace)

def absorb_fill_traced (p : Platform) (self : Sha3_512State) (data : Slice U8) (use_avx512 : Bool) :
    Result ((Sha3_512State × Nat) × Trace) :=
  if 0 < self.pos then do
    let remaining ← usize_sub self.rate self.pos
    let to_copy := min remaining data.len
    let src ← slice data.val 0 to_copy
    let pos ← usize_add self.pos to_copy
    let buffer ← copy_from_slice self.buffer self.pos pos src
    let self := { self with buffer, pos }
    let offset ← usize_add 0 to_copy
    if self.pos = self.rate then
      let (self, trace) ← self.xor_block_into_state_traced
      pure (({ self with state := permute p self.state use_avx512, pos := 0 }, offset), trace)
    else
      pure ((self, offset), [])
  else
    pure ((self, 0), [])

def absorb_block_traced (p : Platform) (data : Slice U8) (use_avx512 : Bool) :
    (Sha3_512State × Nat) × Trace → Result (Flow ((Sha3_512State × Nat) × Trace) ((Sha3_512State × Nat) × Trace))
  | ((self, offset), trace) => do
    let block_end ← usize_add offset self.rate
    if block_end ≤ data.len then
      let block ← slice data.val offset block_end
      let words := self.rate / 8
      let (state, block_trace) ← xor_words_traced words block self.state
      let offset ← usize_add offset self.rate
      pure (.next (({ self with state := permute p state use_avx512 }, offset), trace ++ block_trace))
    else
      pure (.done ((self, offset), trace))

def absorb_traced (p : Platform) (self : Sha3_512State) (data : Slice U8) (use_avx512 : Bool) :
    Result (Sha3_512State × Trace) := do
  let r ← self.absorb_fill_traced p data use_avx512
  let ((self, offset), trace) ← loop (absorb_block_traced p data use_avx512) (data.len + 1) r
  let self ← self.absorb_tail data offset
  pure (self, trace)

def finalize_traced (p : Platform) (self : Sha3_512State) (use_avx512 : Bool) :
    Result ((Sha3_512State × Sha3_512Hash) × Trace) := do
  let buffer ← forRange self.pos self.rate (fun i buffer => store buffer i 0) self.buffer
  let buffer ← store buffer self.pos SHA3_DOMAIN_BYTE
  let last ← usize_sub self.rate 1
  let byte ← index buffer.toList last
  let buffer ← store buffer last (byte ||| 0x80)
  let self := { self with buffer }
  let (self, trace) ← self.xor_block_into_state_traced
  let self := { self with state := permute p self.state use_avx512 }
  let hash ← squeeze self.state
  pure ((self, hash), trace)

end Sha3_512State

/-! ## Leaving the record out -/

theorem xor_words_erases (words : Nat) (block : List U8) (state : Lanes) :
    Erases Prod.fst (xor_words_traced words block state) (xor_words words block state) :=
  .pair _ _

namespace Sha3_512State

theorem xor_block_into_state_erases (self : Sha3_512State) :
    Erases Prod.fst self.xor_block_into_state_traced self.xor_block_into_state :=
  (xor_words_erases _ _ _).bind fun _ => .ret _

theorem absorb_fill_erases (p : Platform) (self : Sha3_512State) (data : Slice U8) (use_avx512 : Bool) :
    Erases Prod.fst (self.absorb_fill_traced p data use_avx512) (self.absorb_fill p data use_avx512) := by
  unfold absorb_fill_traced absorb_fill
  split
  · refine .step fun remaining => .step fun src => .step fun pos => .step fun buffer => .step fun offset => ?_
    split
    · exact (xor_block_into_state_erases _).bind fun _ => .ret _
    · exact .ret _
  · exact .ret _

theorem absorb_block_erases (p : Platform) (data : Slice U8) (use_avx512 : Bool)
    (r : (Sha3_512State × Nat) × Trace) :
    Erases (mapFlow Prod.fst Prod.fst) (absorb_block_traced p data use_avx512 r)
      (absorb_block p data use_avx512 r.1) := by
  obtain ⟨⟨self, offset⟩, trace⟩ := r
  unfold absorb_block_traced absorb_block
  refine .step fun block_end => ?_
  split
  · refine .step fun block => ?_
    refine (xor_words_erases _ _ _).bind fun _ => ?_
    exact .step fun offset => .ret _
  · exact .ret _

theorem absorb_erases (p : Platform) (self : Sha3_512State) (data : Slice U8) (use_avx512 : Bool) :
    Erases Prod.fst (self.absorb_traced p data use_avx512) (self.absorb p data use_avx512) := by
  unfold absorb_traced absorb
  refine (absorb_fill_erases p self data use_avx512).bind fun r => ?_
  refine (Erases.loop (absorb_block_erases p data use_avx512) _ r).bind fun r => ?_
  exact .pair _ r.2

theorem finalize_erases (p : Platform) (self : Sha3_512State) (use_avx512 : Bool) :
    Erases Prod.fst (self.finalize_traced p use_avx512) (self.finalize p use_avx512) := by
  unfold finalize_traced finalize
  refine .step fun buffer => .step fun buffer => .step fun last => .step fun byte => .step fun buffer => ?_
  refine (xor_block_into_state_erases _).bind fun r => ?_
  exact .step fun hash => .ret _

end Sha3_512State

end Sha3Kernel
