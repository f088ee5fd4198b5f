import Sha3Kernel.Merging
/-!
# Where collisions come from

A block reaches the first `rate / 8` lanes only; the others, the capacity, are not
the caller's to choose. Different data from one sponge ends in the same lanes only
when the whole blocks before the end already collided in the capacity. A
collision there is all it takes, too: it goes on to collisions behind any block.
-/

namespace Sha3Kernel

open HashLib HashLib.Arrays HashLib.Bits HashLib.Checked HashLib.Blocks

/-! ## The capacity -/

/-- The lanes that no block of `r` bytes reaches. -/
def capacity (r : Nat) (state : Lanes) : List U64 := state.toList.drop (r / 8)

theorem capacity_eq_iff {r : Nat} {s t : Lanes} :
    capacity r s = capacity r t ↔ ∀ j, (hj : j < 25) → r / 8 ≤ j → s[j] = t[j] := by
  unfold capacity
  constructor
  · intro h j hj hle
    have hlane := congrArg (·[j - r / 8]?) h
    simpa [List.getElem?_drop, Nat.add_sub_cancel' hle, hj] using hlane
  · intro h
    refine List.ext_getElem (by simp) fun k hk _ => ?_
    rw [List.length_drop, Vector.length_toList] at hk
    simpa using h (r / 8 + k) (by omega) (Nat.le_add_right _ _)

theorem capacity_xorWords (r : Nat) (block : List U8) (state : Lanes) :
    capacity r (xorWords (r / 8) block state) = capacity r state := by
  rw [capacity_eq_iff]
  intro j hj hle
  rw [xorWords, getElem_mapFirst, if_neg (Nat.not_lt.2 hle)]

/-- The bytes of `n` words. -/
def bytesOf (word : Nat → U64) (n : Nat) : List U8 :=
  List.ofFn fun k : Fin (n * 8) => (to_le_bytes (word (k.val / 8))).get ⟨k.val % 8, Nat.mod_lt _ (by decide)⟩

theorem leWord_bytesOf (word : Nat → U64) {n i : Nat} (hi : i < n) : leWord (bytesOf word n) i = word i := by
  refine BitVec.eq_of_getLsbD_eq fun z hz => ?_
  have hk : 8 * i + z / 8 < n * 8 := by omega
  have hdiv : (8 * i + z / 8) / 8 = i := by omega
  have hmod : (8 * i + z / 8) % 8 = z / 8 := by omega
  rw [getLsbD_leWord _ _ _ hz, bytesOf, List.getD_eq_getElem _ _ (by simpa using hk), List.getElem_ofFn]
  simp only [hdiv, hmod, Vector.get_eq_getElem]
  rw [getLsbD_to_le_bytes _ _ _ (by omega) (Nat.mod_lt z (by decide)), Nat.div_add_mod]

/-- A block can bring any lanes to any other lanes with that capacity. -/
theorem xorWords_counterpart {r : Nat} {s t : Lanes} (h : capacity r s = capacity r t) :
    xorWords (r / 8) (bytesOf (fun i => s.toList.getD i 0 ^^^ t.toList.getD i 0) (r / 8)) s = t := by
  refine Vector.ext fun j hj => ?_
  rw [xorWords, getElem_mapFirst]
  by_cases hw : j < r / 8
  · rw [if_pos hw, leWord_bytesOf _ hw]
    simp [hj]
  · rw [if_neg hw]
    exact capacity_eq_iff.1 h j hj (Nat.not_lt.1 hw)

/-- With whole words, the lanes behind the rate are what a step hides. -/
theorem stepAt_hides {r : Nat} (hr : r ≤ 200) (hwords : 8 ∣ r) : Hides (stepAt r) (capacity r) r where
  block_eq := by
    intro s x y hx hy h
    have hfull : r / 8 * 8 = r := Nat.div_mul_cancel hwords
    have htake := (stepAt_eq_iff hr (hx.trans hy.symm) (by omega)).1 h
    rwa [hfull, List.take_of_length_le hx.le, List.take_of_length_le hy.le] at htake
  hidden_eq := by
    intro s t x y h
    have hlanes := congrArg (capacity r) (keccak_f1600_injective h)
    rwa [capacity_xorWords, capacity_xorWords] at hlanes
  counterpart := by
    intro s t x h hx
    have hcapacity : capacity r t = capacity r (xorWords (r / 8) x s) := by rw [capacity_xorWords, h]
    refine ⟨_, ?_, (congrArg keccak_f1600 (xorWords_counterpart hcapacity)).symm⟩
    rw [bytesOf, List.length_ofFn, Nat.div_mul_cancel hwords]

/-! ## The sponges -/

/-- Two short blocks are padded to one only if they are one, of whatever lengths. -/
theorem lastBlock_injective {r : Nat} {xs ys : List U8} (hx : xs.length < r) (hy : ys.length < r)
    (h : lastBlock r xs = lastBlock r ys) : xs = ys := by
  rw [lastBlock_eq hx, lastBlock_eq hy] at h
  exact append_padAt_inj h

/-- From a sponge of whole words with less than a block waiting. Different data ends
in the same lanes only if it has different whole blocks and absorbing these leaves
one capacity. And wherever two pieces of data of whole blocks leave one capacity,
every next block has a counterpart, so that both runs answer alike whatever is
called after it. -/
theorem collision_law (p p' : Platform) {s : Sha3_512State} (hs : Fits s) (hpos : s.pos < s.rate)
    (hwords : 8 ∣ s.rate) :
    (∀ (data data' : Slice U8) (flags flags' : Bool × Bool),
      Returns (s.absorb p data flags.1) (fun mid => Returns (s.absorb p' data' flags'.1) (fun mid' =>
        Returns (mid.finalize p flags.2) (fun out => Returns (mid'.finalize p' flags'.2) (fun out' =>
          out.1.state = out'.1.state →
            capacity s.rate mid.state = capacity s.rate mid'.state ∧
              (data.val ≠ data'.val →
                whole s.rate (s.live ++ data.val) ≠ whole s.rate (s.live ++ data'.val))))))) ∧
    ∀ (data data' : Slice U8) (flags flags' : Bool × Bool),
      s.rate ∣ s.pos + data.len → s.rate ∣ s.pos + data'.len →
      Returns (s.absorb p data flags.1) (fun mid => Returns (s.absorb p' data' flags'.1) (fun mid' =>
        capacity s.rate mid.state = capacity s.rate mid'.state →
          ∀ block : Slice U8, block.len = s.rate → ∃ block' : Slice U8, block'.len = s.rate ∧
            ∀ calls, Returns (run_sponge p mid (.absorb block flags.2 :: calls)) (fun out =>
              Returns (run_sponge p' mid' (.absorb block' flags'.2 :: calls)) (fun out' =>
                out.1.state = out'.1.state ∧ out.2 = out'.2)))) := by
  have hr := hs.rate_le
  have hhides := stepAt_hides hr hwords
  obtain ⟨b, hb⟩ := hs.holds hpos
  constructor
  · intro data data' flags flags'
    apply (absorb_holds p flags.1 hr hb data).mono
    intro mid hmid
    apply (absorb_holds p' flags'.1 hr hb data').mono
    intro mid' hmid'
    apply (finalize_holds p flags.2 hr hmid).mono
    intro out hout
    apply (finalize_holds p' flags'.2 hr hmid').mono
    intro out' hout' hsame
    rw [hout.1.state, hout'.1.state] at hsame
    rw [hmid.state, hmid'.state, hb.live]
    exact hhides.hidden_of_last_eq (fun _ => length_lastBlock) (fun _ _ => lastBlock_injective) hsame
  · intro data data' flags flags' hdata hdata'
    apply (absorb_holds p flags.1 hr hb data).mono
    intro mid hmid
    apply (absorb_holds p' flags'.1 hr hb data').mono
    intro mid' hmid' hcapacity block hblock
    rw [hmid.state, hmid'.state] at hcapacity
    have hwhole : ∀ d : Slice U8, s.rate ∣ s.pos + d.len → (b.feed (stepAt s.rate) d.val).tail = [] := by
      intro d hd
      apply Buffered.feed_tail_of_dvd
      rwa [List.length_append, ← hb.pos]
    obtain ⟨block', hlen, hfeed⟩ :=
      hhides.feed_eq_of_hidden (hwhole data hdata) (hwhole data' hdata') hcapacity hblock
    refine ⟨⟨block', by rw [hlen, isizeMax]; omega⟩, hlen, fun calls => ?_⟩
    apply (run_sponge_spec p hr hmid (.absorb block flags.2 :: calls)).mono
    intro out hout
    apply (run_sponge_spec p' hr hmid' (.absorb ⟨block', _⟩ flags'.2 :: calls)).mono
    intro out' hout'
    -- one consumer from there on
    rw [← Buffered.feed_append, ← Buffered.feed_append] at hfeed
    rw [hout.1.state, hout'.1.state, hout.2, hout'.2]
    simp only [Machine.modelRun, consumer_step, hfeed, and_self]

theorem zeros_le : (List.replicate 200 (0 : U8)).length ≤ isizeMax := by
  rw [List.length_replicate]
  decide

/-- At a rate of 200 bytes there is no capacity left: nothing collides with a block
of zeros. -/
theorem collision_law_full :
    let p : Platform := ⟨false, false, false, false, false, false, false⟩
    let s := { Sha3_512State.new with rate := 200 }
    let zeros : Slice U8 := ⟨List.replicate 200 0, zeros_le⟩
    Returns (s.absorb p ⟨[], by simp⟩ false) (fun mid => Returns (s.absorb p zeros false) (fun mid' =>
      ∃ block' : Slice U8, block'.len = 200 ∧
        ∀ calls, Returns (run_sponge p mid (.absorb zeros false :: calls)) (fun out =>
          Returns (run_sponge p mid' (.absorb block' false :: calls)) (fun out' =>
            out.1.state = out'.1.state ∧ out.2 = out'.2)))) := by
  intro p s zeros
  have hfits : Fits s := ⟨by decide, by decide, by decide, by decide⟩
  have hlaw := collision_law p p hfits (by decide) (by decide)
  have hnone : ∀ state, capacity 200 state = [] := fun state => List.drop_of_length_le (by simp)
  have hzeros : zeros.len = 200 := List.length_replicate
  apply (hlaw.2 ⟨[], by simp⟩ zeros (false, false) (false, false) (by decide) (by rw [hzeros]; decide)).mono
  intro mid hmid
  apply hmid.mono
  intro mid' hmid'
  exact hmid' ((hnone _).trans (hnone _).symm) zeros hzeros

end Sha3Kernel
