import Mathlib
/-!
# Mixing a ring of values with their neighbours

`mix a σ c` adds to every value `c x` its neighbour on one side and, moved by
`σ`, its neighbour on the other. Where every value is its own negative, mixing
twice is mixing once with neighbours twice as far (`mix_mix`): the cross terms
cancel. So enough doublings bring `σ` back to the identity, and what is left is
a map on rings of values whose inverse is short. On a ring of five this makes
every such mixing injective, whatever the group of values is.
-/

namespace HashLib.ColumnMix

variable {I G : Type*} [AddCommGroup I] [AddCommGroup G]

/-- `c x + c (x - a) + σ (c (x + a))` -/
def mix (a : I) (σ : G →+ G) (c : I → G) : I → G := fun x => c x + c (x - a) + σ (c (x + a))

section Char2
variable (h2 : ∀ g : G, g + g = 0)
include h2

/-- In characteristic two the terms that occur twice cancel. -/
theorem mix_mix (a : I) (σ : G →+ G) (c : I → G) : mix a σ (mix a σ c) = mix (a + a) (σ.comp σ) c := by
  funext x
  have e₁ : x - a + a = x := sub_add_cancel x a
  have e₂ : x + a - a = x := add_sub_cancel_right x a
  have e₃ : x - a - a = x - (a + a) := sub_sub x a a
  have e₄ : x + a + a = x + (a + a) := add_assoc x a a
  simp only [mix, map_add, AddMonoidHom.comp_apply, e₁, e₂, e₃, e₄]
  have cancel : ∀ g h : G, g + g + h = h := fun g h => by rw [h2 g, zero_add]
  calc c x + c (x - a) + σ (c (x + a)) + (c (x - a) + c (x - (a + a)) + σ (c x))
        + (σ (c (x + a)) + σ (c x) + σ (σ (c (x + (a + a)))))
      = c (x - a) + c (x - a) + (σ (c (x + a)) + σ (c (x + a)) + (σ (c x) + σ (c x)
        + (c x + c (x - (a + a)) + σ (σ (c (x + (a + a))))))) := by abel
    _ = c x + c (x - (a + a)) + σ (σ (c (x + (a + a)))) := by rw [cancel, cancel, cancel]

/-- Injectivity passes down from the doubled mixing. -/
theorem injective_of_doubled (a : I) (σ : G →+ G) (h : Function.Injective (mix (a + a) (σ.comp σ))) :
    Function.Injective (mix a σ) := by
  intro c d hcd
  apply h
  rw [← mix_mix h2, ← mix_mix h2, hcd]

/-- With no `σ` left and five values in the ring, the mixing has an inverse. -/
theorem mix_id_injective (a : I) (h5 : a + a + a + a + a = 0) :
    Function.Injective (mix a (AddMonoidHom.id G)) := by
  have hinv : ∀ (c : I → G) (x : I),
      mix a (.id G) c x + mix a (.id G) c (x + (a + a)) + mix a (.id G) c (x + (a + a + a)) = c x := by
    intro c x
    have e₁ : x - a = x + (a + a + a + a) := by
      rw [sub_eq_iff_eq_add, add_assoc, h5, add_zero]
    have e₂ : x + (a + a) - a = x + a := by abel
    have e₃ : x + (a + a + a) - a = x + (a + a) := by abel
    have e₄ : x + (a + a) + a = x + (a + a + a) := by abel
    have e₅ : x + (a + a + a) + a = x + (a + a + a + a) := by abel
    simp only [mix, AddMonoidHom.id_apply, e₁, e₂, e₃, e₄, e₅]
    have cancel : ∀ g h : G, g + g + h = h := fun g h => by rw [h2 g, zero_add]
    calc c x + c (x + (a + a + a + a)) + c (x + a) + (c (x + (a + a)) + c (x + a) + c (x + (a + a + a)))
          + (c (x + (a + a + a)) + c (x + (a + a)) + c (x + (a + a + a + a)))
        = c (x + a) + c (x + a) + (c (x + (a + a)) + c (x + (a + a)) + (c (x + (a + a + a)) + c (x + (a + a + a))
          + (c (x + (a + a + a + a)) + c (x + (a + a + a + a)) + c x))) := by abel
      _ = c x := by rw [cancel, cancel, cancel, cancel]
  intro c d hcd
  funext x
  rw [← hinv c x, ← hinv d x, hcd]

/-- A mixing whose `σ` is the identity after `2^n` applications is injective
on a ring of five. -/
theorem mix_injective (n : Nat) : ∀ (a : I) (σ : G →+ G), a + a + a + a + a = 0 →
    (∀ g, σ^[2 ^ n] g = g) → Function.Injective (mix a σ) := by
  induction n with
  | zero =>
    intro a σ h5 hσ
    obtain rfl : σ = AddMonoidHom.id G := AddMonoidHom.ext hσ
    exact mix_id_injective h2 a h5
  | succ n ih =>
    intro a σ h5 hσ
    apply injective_of_doubled h2
    refine ih (a + a) (σ.comp σ) ?_ fun g => ?_
    · calc a + a + (a + a) + (a + a) + (a + a) + (a + a) = (a + a + a + a + a) + (a + a + a + a + a) := by abel
        _ = 0 := by rw [h5, add_zero]
    · have hσ' : σ^[2 ^ n * 2] g = g := by rw [← Nat.pow_succ]; exact hσ g
      rwa [Nat.mul_comm, Function.iterate_mul] at hσ'

end Char2

end HashLib.ColumnMix
