import Sha3Kernel.HashLib.Observe
import Sha3Kernel.Hex
/-!
# What the hex encoder shows

`encode_hex` with the places it reads. It has no branch, but the places of the
table are the digits of the digest: whoever sees them has read it.
-/

namespace Sha3Kernel

open HashLib HashLib.Ascii HashLib.Bits HashLib.Checked HashLib.Observe

/-! ## The code, with its events -/

/-- The body of the loop. -/
def push_hex_observed (table : Vector U8 16) (out : String) (b : U8) : Observed Empty String := do
  let hi ← Observe.index table.toList (b >>> 4).toNat
  let out := out.push (as_char hi)
  let lo ← Observe.index table.toList (b &&& 0x0f).toNat
  pure (out.push (as_char lo))

def encode_hex_observed (bytes : List U8) (table : Vector U8 16) : Observed Empty String :=
  bytes.foldlM (push_hex_observed table) ""

theorem value_push_hex (table : Vector U8 16) (out : String) (b : U8) :
    (push_hex_observed table out b).value = push_hex table out b := by
  simp only [push_hex_observed, push_hex, value_bind, value_index, value_pure, pure_eq_ok]

theorem value_encode_hex (bytes : List U8) (table : Vector U8 16) :
    (encode_hex_observed bytes table).value = encode_hex bytes table := by
  simp only [encode_hex_observed, encode_hex, value_foldlM, value_push_hex]

/-! ## The digits show -/

/-- The places of the table that the digits name. -/
def shownOf (ns : List (BitVec 4)) : List (Event Empty) := ns.map fun n => .at n.toNat

theorem shownOf_injective {ns ns' : List (BitVec 4)} (h : shownOf ns = shownOf ns') : ns = ns' := by
  refine List.map_injective_iff.2 ?_ h
  intro n n' hat
  exact BitVec.eq_of_toNat_eq (Event.at.inj hat)

theorem push_hex_shows (table : Vector U8 16) (out : String) (b : U8) :
    (∃ out', (push_hex_observed table out b).value = .ok out') ∧
    (push_hex_observed table out b).events = shownOf (nibbles b) := by
  constructor
  · rw [value_push_hex, push_hex_eq]
    exact ⟨_, rfl⟩
  · unfold push_hex_observed
    rw [events_bind, value_index, index_digit table (hi_digit b)]
    dsimp only
    rw [events_bind, value_index, index_digit table (lo_digit b), hi_digit, lo_digit]
    rfl

theorem encode_hex_shows (bytes : List U8) (table : Vector U8 16) :
    (encode_hex_observed bytes table).events = shownOf (bytes.flatMap nibbles) := by
  unfold encode_hex_observed shownOf
  rw [events_foldlM (push_hex_shows table), List.map_flatMap]
  rfl

theorem encode_hex_branch_free (bytes : List U8) (table : Vector U8 16) :
    BranchFree (encode_hex_observed bytes table) := by
  apply BranchFree.foldlM
  intro out b
  exact (BranchFree.index _ _).bind fun hi => (BranchFree.index _ _).bind fun lo => .ret _

/-- The encoder with its events computes `encode_hex` and takes no branch. It is no
code for secrets, though: with either table, two inputs show the same only if they
are the same bytes. -/
theorem encode_hex_view :
    (∀ bytes table, (encode_hex_observed bytes table).value = encode_hex bytes table) ∧
    (∀ bytes table, BranchFree (encode_hex_observed bytes table)) ∧
    ∀ bytes bytes' table table',
      (encode_hex_observed bytes table).events = (encode_hex_observed bytes' table').events ↔ bytes = bytes' := by
  refine ⟨value_encode_hex, encode_hex_branch_free, fun bytes bytes' table table' => ?_⟩
  rw [encode_hex_shows, encode_hex_shows]
  constructor
  · intro h
    exact nibbles_injective (shownOf_injective h)
  · rintro rfl
    rfl

end Sha3Kernel
