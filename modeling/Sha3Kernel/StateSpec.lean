import Sha3Kernel.HashLib.Blocks
import Sha3Kernel.StateEffect
/-!
# What the sponge has absorbed

`HoldsAt` ties a sponge to a block consumer: the lanes are its accumulator over
the whole blocks, and the first `pos` bytes of the buffer are the block that is
still short. The other bytes of the buffer are stale and nothing here
constrains them. `absorb` feeds the consumer, whatever the length of the data,
and `finalize` steps it over the padded last block. `Holds` is the same for the
blocks of SHA3-512.
-/

namespace Sha3Kernel

open HashLib HashLib.Bits HashLib.Checked HashLib.Blocks

/-! ## The consumer a sponge stands for -/

/-- The sponge has absorbed what a consumer of blocks of `r` was fed. -/
structure HoldsAt {r : Nat} (b : Buffered Lanes U8 r) (s : Sha3_512State) : Prop where
  rate : s.rate = r
  state : s.state = b.acc
  pos : s.pos = b.tail.length
  live : s.live = b.tail

theorem Fits.holds {s : Sha3_512State} (h : Fits s) (hpos : s.pos < s.rate) :
    ∃ b : Buffered Lanes U8 s.rate, HoldsAt b s := by
  have hlen : s.live.length = s.pos := length_live (Nat.le_of_lt h.pos_lt)
  exact ⟨⟨s.state, s.live, hlen ▸ hpos⟩, rfl, rfl, hlen.symm, rfl⟩

/-- The lanes after the last block. -/
def finishAt {r : Nat} (b : Buffered Lanes U8 r) : Lanes := stepAt r b.acc (lastBlock r b.tail)

/-! ## The operations -/

section Refine
variable {r : Nat} {b : Buffered Lanes U8 r} {s s' : Sha3_512State}

theorem HoldsAt.fits (h : HoldsAt b s) (hr : r ≤ 200) : Fits s := by
  have hrate := h.rate
  have hpos := h.pos
  have hlt := b.tail_lt
  constructor
  · omega
  · omega
  · omega
  · omega

/-- What a sponge takes, the consumer is fed. -/
theorem Takes.holds {bytes : List U8} {trace : Trace} (h : HoldsAt b s) (ht : Takes s.rate s bytes s' trace)
    (hr : r ≤ 200) : HoldsAt (b.feed (stepAt r) bytes) s' := by
  obtain ⟨hrate, hstate, hpos, hlive⟩ := h
  subst hrate
  obtain ⟨hrate', hpos', blocks, -, hwhole, hspells, hlanes⟩ := ht
  have hlen : s'.live.length = s'.pos := length_live (by omega)
  rw [hlive] at hspells
  rw [Buffered.feed_of_blocks (stepAt s.rate) b hwhole (by omega) hspells]
  refine ⟨hrate', ?_, hlen.symm, rfl⟩
  rw [hlanes, hstate]

theorem Finalizes.holds {hash : Sha3_512Hash} (h : HoldsAt b s) (hf : Finalizes s.rate s s' hash) :
    HoldsAt { b with acc := finishAt b } s' ∧ hash = digest (finishAt b) := by
  obtain ⟨hrate, hstate, hpos, hlive⟩ := h
  subst hrate
  have hlanes : s'.state = finishAt b := by
    rw [hf.lanes, hstate, hlive]
    rfl
  refine ⟨⟨hf.rate, hlanes, hf.pos.trans hpos, ?_⟩, ?_⟩
  · rw [hf.live, hlive, hpos, lastBlock_eq b.tail_lt, List.take_left' rfl]
  · rw [hf.hash, hlanes]

variable (p : Platform) (use_avx512 : Bool)

theorem absorb_holds (hr : r ≤ 200) (h : HoldsAt b s) (data : Slice U8) :
    Returns (s.absorb p data use_avx512) (HoldsAt (b.feed (stepAt r) data.val)) := by
  apply (absorb_takes p use_avx512 data (h.fits hr)).mono
  rintro s' ⟨trace, ht⟩
  exact ht.holds h hr

theorem finalize_holds (hr : r ≤ 200) (h : HoldsAt b s) :
    Returns (s.finalize p use_avx512) (fun out =>
      HoldsAt { b with acc := finishAt b } out.1 ∧ out.2 = digest (finishAt b)) :=
  (finalize_finalizes p use_avx512 (h.fits hr)).mono fun _ hf => hf.holds h

end Refine

/-! ## The sponge of SHA3-512 -/

/-- Input that a sponge takes 72 bytes at a time. -/
abbrev Consumer := Buffered Lanes U8 72

/-- `s` has absorbed what `b` was fed. -/
abbrev Holds (s : Sha3_512State) (b : Consumer) : Prop := HoldsAt b s

theorem Holds.inv {s : Sha3_512State} {b : Consumer} (h : Holds s b) : Inv s :=
  ⟨h.rate, h.pos ▸ b.tail_lt⟩

/-- A sponge with the invariant has absorbed something. -/
theorem Inv.holds {s : Sha3_512State} (h : Inv s) : ∃ b, Holds s b := by
  obtain ⟨state, pos, rate, buffer⟩ := s
  obtain rfl : rate = 72 := h.rate
  exact h.fits.holds h.pos

/-- The consumer that was fed nothing. -/
def fresh : Consumer := ⟨Vector.replicate 25 0, [], by decide⟩

theorem holds_new : Holds .new fresh := ⟨rfl, rfl, rfl, rfl⟩

theorem holds_reset {s : Sha3_512State} (h : s.rate = 72) : Holds s.reset fresh := ⟨h, rfl, rfl, rfl⟩

/-- `absorb` feeds its data to the consumer, however it falls across blocks. -/
theorem absorb_spec (p : Platform) (use_avx512 : Bool) {s : Sha3_512State} {b : Consumer} (data : Slice U8)
    (h : Holds s b) : Returns (s.absorb p data use_avx512) (Holds · (b.feed blockStep data.val)) :=
  absorb_holds p use_avx512 (by decide) h data

/-- The lanes after the last block, padded. -/
def finish (b : Consumer) : Lanes := blockStep b.acc (b.tail ++ padTo b.tail.length)

theorem finishAt_eq (b : Consumer) : finishAt b = finish b := by
  rw [finishAt, lastBlock_eq b.tail_lt]
  rfl

/-- `finalize` absorbs the last block and reads the digest; `pos` and the live
bytes are as they were, so a second call hashes on from there. -/
theorem finalize_spec (p : Platform) (use_avx512 : Bool) {s : Sha3_512State} {b : Consumer} (h : Holds s b) :
    Returns (s.finalize p use_avx512) (fun r => Holds r.1 { b with acc := finish b } ∧ r.2 = digest (finish b)) := by
  rw [← finishAt_eq]
  exact finalize_holds p use_avx512 (by decide) h

end Sha3Kernel
