import Sha3Kernel.StateSpec
/-!
# Stale bytes never leak

The buffer behind the live bytes depends on how the data was split. Two sponges
are equivalent when they agree on everything else, that is, when they hold the
same consumer, and every operation takes equivalent sponges to equivalent ones.
-/

namespace Sha3Kernel

open HashLib HashLib.Bits HashLib.Checked HashLib.Blocks

/-- Two sponges that agree on the lanes, on `pos` and on the live bytes. -/
structure Equivalent (s t : Sha3_512State) : Prop where
  left : Inv s
  right : Inv t
  state : s.state = t.state
  pos : s.pos = t.pos
  live : s.live = t.live

theorem Equivalent.of_holds {s t : Sha3_512State} {b : Consumer} (hs : Holds s b) (ht : Holds t b) : Equivalent s t where
  left := hs.inv
  right := ht.inv
  state := hs.state.trans ht.state.symm
  pos := hs.pos.trans ht.pos.symm
  live := hs.live.trans ht.live.symm

/-- Equivalent sponges hold the same consumer. -/
theorem Equivalent.holds {s t : Sha3_512State} (h : Equivalent s t) : ∃ b, Holds s b ∧ Holds t b := by
  obtain ⟨b, hb⟩ := h.left.holds
  refine ⟨b, hb, h.right.rate, ?_, ?_, ?_⟩
  · rw [← h.state, hb.state]
  · rw [← h.pos, hb.pos]
  · exact h.live.symm.trans hb.live

theorem Equivalent.refl {s : Sha3_512State} (h : Inv s) : Equivalent s s := ⟨h, h, rfl, rfl, rfl⟩

theorem Equivalent.symm {s t : Sha3_512State} (h : Equivalent s t) : Equivalent t s :=
  ⟨h.right, h.left, h.state.symm, h.pos.symm, h.live.symm⟩

theorem Equivalent.trans {s t u : Sha3_512State} (h : Equivalent s t) (h' : Equivalent t u) : Equivalent s u :=
  ⟨h.left, h'.right, h.state.trans h'.state, h.pos.trans h'.pos, h.live.trans h'.live⟩

/-- On the sponges with the invariant it is an equivalence. -/
theorem equivalent_equivalence : Equivalence fun s t : { s // Inv s } => Equivalent s.val t.val where
  refl s := .refl s.property
  symm h := h.symm
  trans h h' := h.trans h'

/-- On equivalent sponges, absorbing `a` and then `b` is absorbing `a ++ b`, up to
stale bytes, and `finalize` returns one digest and leaves the same lanes.
Neither run need be on the same machine or path as the other. -/
theorem stale_bytes_never_leak (p q : Platform) {s t : Sha3_512State} (h : Equivalent s t) :
    (∀ (a b ab : Slice U8), ab.val = a.val ++ b.val → ∀ (f₁ f₂ f₃ : Bool),
      Returns (do let s ← s.absorb p a f₁; s.absorb p b f₂) (fun s' =>
        Returns (t.absorb q ab f₃) (fun t' => Equivalent s' t'))) ∧
    ∀ (f₁ f₂ : Bool), Returns (s.finalize p f₁) (fun r => Returns (t.finalize q f₂) (fun r' =>
      r.2 = r'.2 ∧ r.1.state = r'.1.state ∧ Equivalent r.1 r'.1)) := by
  obtain ⟨c, hs, ht⟩ := h.holds
  constructor
  · intro a b ab hab f₁ f₂ f₃
    refine (absorb_spec p f₁ a hs).bind fun s₁ hs₁ => ?_
    refine (absorb_spec p f₂ b hs₁).mono fun s₂ hs₂ => ?_
    refine (absorb_spec q f₃ ab ht).mono fun t' ht' => ?_
    rw [Buffered.feed_append, ← hab] at hs₂
    exact .of_holds hs₂ ht'
  · intro f₁ f₂
    refine (finalize_spec p f₁ hs).mono ?_
    rintro ⟨s', d⟩ ⟨hs', rfl⟩
    refine (finalize_spec q f₂ ht).mono ?_
    rintro ⟨t', d'⟩ ⟨ht', rfl⟩
    exact ⟨rfl, hs'.state.trans ht'.state.symm, .of_holds hs' ht'⟩

/-- A byte is buffered, and what lies behind it differs. -/
theorem stale_bytes_never_leak_buffered :
    Returns (do
      let s ← Sha3_512State.absorb ⟨true, true, true, true, true, true, true⟩
        { Sha3_512State.new with pos := 1, buffer := Vector.replicate 200 7 } ⟨[1], by decide⟩ true
      s.absorb ⟨true, true, true, true, true, true, true⟩ ⟨[2], by decide⟩ false) (fun s' =>
        Returns (Sha3_512State.absorb ⟨false, false, false, false, false, false, false⟩
          { Sha3_512State.new with pos := 1, buffer := (Vector.replicate 200 0).set 0 7 } ⟨[1, 2], by decide⟩ false)
          (fun t' => Equivalent s' t')) := by
  have h : Equivalent { Sha3_512State.new with pos := 1, buffer := Vector.replicate 200 7 }
      { Sha3_512State.new with pos := 1, buffer := (Vector.replicate 200 0).set 0 7 } :=
    ⟨⟨rfl, by decide⟩, ⟨rfl, by decide⟩, rfl, rfl, by decide +kernel⟩
  exact (stale_bytes_never_leak _ _ h).1 _ _ _ rfl _ _ _

end Sha3Kernel
