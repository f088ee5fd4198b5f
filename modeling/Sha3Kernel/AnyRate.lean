import Sha3Kernel.HashLib.Machine
import Sha3Kernel.StateSpec
/-!
# A sponge as it comes

The fields of a sponge are public and stored sponges are not checked, so `pos` and
`rate` can hold anything. `Fits` says for which values `absorb` and `finalize`
return, and every call keeps it. The blocks are then `rate` bytes long, of which the
lanes take whole words.
-/

namespace Sha3Kernel

open HashLib HashLib.Bits HashLib.Checked HashLib.Blocks

/-! ## The calls of a sponge -/

inductive SpongeCall where
  | reset
  | absorb (data : Slice U8) (use_avx512 : Bool)
  | finalize (use_avx512 : Bool)

def sponge_step (p : Platform) (s : Sha3_512State) : SpongeCall → Result (Sha3_512State × Option Sha3_512Hash)
  | .reset => pure (s.reset, none)
  | .absorb data use_avx512 => do
    let s ← s.absorb p data use_avx512
    pure (s, none)
  | .finalize use_avx512 => do
    let (s, hash) ← s.finalize p use_avx512
    pure (s, some hash)

def run_sponge (p : Platform) (s : Sha3_512State) (calls : List SpongeCall) :
    Result (Sha3_512State × List (Option Sha3_512Hash)) :=
  Machine.run (sponge_step p) s calls

/-! ## Which sponges are usable -/

theorem fits_of_takes {s s' : Sha3_512State} {bytes : List U8} {trace : Trace} (h : Fits s)
    (ht : Takes s.rate s bytes s' trace) : Fits s' where
  rate_pos := ht.rate ▸ h.rate_pos
  rate_le := ht.rate ▸ h.rate_le
  pos_le := by
    rw [ht.rate]
    exact Nat.le_of_lt ht.pos
  pos_lt := Nat.lt_of_lt_of_le ht.pos h.rate_le

theorem fits_of_finalizes {s s' : Sha3_512State} {hash : Sha3_512Hash} (h : Fits s)
    (hf : Finalizes s.rate s s' hash) : Fits s' where
  rate_pos := hf.rate ▸ h.rate_pos
  rate_le := hf.rate ▸ h.rate_le
  pos_le := by
    rw [hf.rate, hf.pos]
    exact h.pos_le
  pos_lt := hf.pos ▸ h.pos_lt

theorem sponge_step_fits (p : Platform) {s : Sha3_512State} (h : Fits s) (call : SpongeCall) :
    Returns (sponge_step p s call) (fun out => Fits out.1) := by
  cases call with
  | reset => exact .ret ⟨h.rate_pos, h.rate_le, Nat.zero_le _, Nat.succ_pos 199⟩
  | absorb data use_avx512 =>
    apply (absorb_takes p use_avx512 data h).bind
    rintro s' ⟨trace, hs'⟩
    exact .ret (fits_of_takes h hs')
  | finalize use_avx512 =>
    apply (finalize_finalizes p use_avx512 h).bind
    intro out hout
    exact .ret (fits_of_finalizes h hout)

/-- `absorb` of nothing needs `pos` in range, unless nothing waits. -/
theorem pos_le_of_absorb {p : Platform} {use_avx512 : Bool} {s : Sha3_512State}
    (h : Returns (s.absorb p ⟨[], Nat.zero_le _⟩ use_avx512) fun _ => True) : s.pos ≤ s.rate := by
  by_contra hlt
  obtain ⟨s', hs', -⟩ := h
  unfold Sha3_512State.absorb Sha3_512State.absorb_fill usize_sub at hs'
  rw [if_pos (by omega), if_neg (by omega)] at hs'
  cases hs'

/-- `finalize` writes at `pos` and at `rate - 1`. -/
theorem ranges_of_finalize {p : Platform} {use_avx512 : Bool} {s : Sha3_512State}
    (h : Returns (s.finalize p use_avx512) fun _ => True) : 0 < s.rate ∧ s.rate ≤ 200 ∧ s.pos < 200 := by
  unfold Sha3_512State.finalize at h
  obtain ⟨cleared, -, h⟩ := h.of_bind
  obtain ⟨marked, hmarked, h⟩ := h.of_bind
  obtain ⟨last, hlast, h⟩ := h.of_bind
  obtain ⟨byte, -, h⟩ := h.of_bind
  obtain ⟨padded, hpadded, -⟩ := h.of_bind
  obtain ⟨hrate, rfl⟩ := usize_sub_ok hlast
  have hend := store_lt hpadded
  exact ⟨hrate, by omega, store_lt hmarked⟩

/-- `absorb` and `finalize` return on a sponge, whatever the data, exactly when it
fits. -/
theorem fits_iff (p : Platform) (s : Sha3_512State) :
    Fits s ↔ (∀ (data : Slice U8) (use_avx512 : Bool), Returns (s.absorb p data use_avx512) fun _ => True) ∧
      ∀ use_avx512 : Bool, Returns (s.finalize p use_avx512) fun _ => True := by
  constructor
  · intro h
    refine ⟨?_, ?_⟩
    · intro data use_avx512
      exact (absorb_takes p use_avx512 data h).mono fun _ _ => trivial
    · intro use_avx512
      exact (finalize_finalizes p use_avx512 h).mono fun _ _ => trivial
  · intro h
    obtain ⟨habsorb, hfinalize⟩ := h
    obtain ⟨hrate, hrate', hpos'⟩ := ranges_of_finalize (hfinalize false)
    exact ⟨hrate, hrate', pos_le_of_absorb (habsorb _ false), hpos'⟩

/-! ## What a usable sponge computes -/

/-- The calls, on a consumer. -/
def consumer_step {r : Nat} (b : Buffered Lanes U8 r) : SpongeCall → Buffered Lanes U8 r × Option Sha3_512Hash
  | .reset => (⟨Vector.replicate 25 0, [], Nat.zero_lt_of_lt b.tail_lt⟩, none)
  | .absorb data _ => (b.feed (stepAt r) data.val, none)
  | .finalize _ => ({ b with acc := finishAt b }, some (digest (finishAt b)))

section Refine
variable {r : Nat} {b : Buffered Lanes U8 r} {s : Sha3_512State}

theorem sponge_step_spec (p : Platform) (hr : r ≤ 200) (h : HoldsAt b s) (call : SpongeCall) :
    Returns (sponge_step p s call) (fun out =>
      HoldsAt (consumer_step b call).1 out.1 ∧ out.2 = (consumer_step b call).2) := by
  cases call with
  | reset => exact .ret ⟨⟨h.rate, rfl, rfl, rfl⟩, rfl⟩
  | absorb data use_avx512 =>
    apply (absorb_holds p use_avx512 hr h data).bind
    intro s' hs'
    exact .ret ⟨hs', rfl⟩
  | finalize use_avx512 =>
    apply (finalize_holds p use_avx512 hr h).bind
    intro out hout
    exact .ret ⟨hout.1, congrArg some hout.2⟩

/-- A sponge answers any calls as the consumer does. -/
theorem run_sponge_spec (p : Platform) (hr : r ≤ 200) (h : HoldsAt b s) (calls : List SpongeCall) :
    Returns (run_sponge p s calls) (fun out =>
      HoldsAt (Machine.modelRun consumer_step b calls).1 out.1 ∧
        out.2 = (Machine.modelRun consumer_step b calls).2) :=
  Machine.run_refines HoldsAt (fun _ _ call hs => sponge_step_spec p hr hs call) b s calls h

end Refine

/-- A sponge that comes from outside, with any `pos` and `rate`, is usable exactly
when it fits; then every run of its calls returns, whatever the data and their
order, and leaves a sponge that fits. With less than a block waiting it answers as
a consumer of blocks of `rate` bytes does. -/
theorem sponge_law (p : Platform) :
    (∀ s : Sha3_512State, Fits s ↔
      (∀ (data : Slice U8) (use_avx512 : Bool), Returns (s.absorb p data use_avx512) fun _ => True) ∧
        ∀ use_avx512 : Bool, Returns (s.finalize p use_avx512) fun _ => True) ∧
    (∀ (s : Sha3_512State) (calls : List SpongeCall), Fits s →
      Returns (run_sponge p s calls) (fun out => Fits out.1)) ∧
    ∀ (s : Sha3_512State) (calls : List SpongeCall), Fits s → s.pos < s.rate →
      ∃ b : Buffered Lanes U8 s.rate, HoldsAt b s ∧ Returns (run_sponge p s calls) (fun out =>
        HoldsAt (Machine.modelRun consumer_step b calls).1 out.1 ∧
          out.2 = (Machine.modelRun consumer_step b calls).2) := by
  refine ⟨fits_iff p, ?_, ?_⟩
  · intro s calls h
    have hrun := Machine.run_spec (fun (_ : Unit) (_ : SpongeCall) => ()) (fun _ s => Fits s) (fun _ _ _ => True)
      (fun _ s call hs => (sponge_step_fits p hs call).mono fun _ hout => ⟨hout, trivial⟩) () s calls h
    exact hrun.mono fun out hout => hout.1
  · intro s calls h hpos
    obtain ⟨b, hb⟩ := h.holds hpos
    exact ⟨b, hb, run_sponge_spec p h.rate_le hb calls⟩

/-- A sponge of another rate, with a full block waiting. -/
theorem sponge_law_full :
    let p : Platform := ⟨true, true, true, true, true, true, true⟩
    let s := { Sha3_512State.new with rate := 136, pos := 136 }
    let calls : List SpongeCall := [.finalize false, .absorb ⟨[1, 2], by decide⟩ true, .reset, .finalize true]
    Returns (run_sponge p s calls) (fun out => Fits out.1) := by
  intro p s calls
  apply (sponge_law p).2.1 s calls
  exact ⟨by decide, by decide, by decide, by decide⟩

end Sha3Kernel
