import Mathlib
import Sha3Kernel.HashLib.ColumnMix
import Sha3Kernel.HashLib.Fips202
/-!
# Keccak-f[1600] is a bijection

Each step mapping is injective, and there are finitely many state arrays. θ is
the only dense one: on column parities it is a `ColumnMix.mix` whose `σ` turns
a lane by one bit, and the parities determine what θ added everywhere.
-/

namespace HashLib.Fips202

open ColumnMix

/-! ## θ -/

/-- Turning a lane of bits by one place. -/
def turn : (Fin 64 → Bool) →+ (Fin 64 → Bool) where
  toFun g z := g (z - 1)
  map_zero' := rfl
  map_add' _ _ := rfl

theorem turn_iterate (n : Nat) (g : Fin 64 → Bool) (z : Fin 64) : turn^[n] g z = g (z - Fin.ofNat 64 n) := by
  induction n generalizing z with
  | zero => simp
  | succ n ih =>
    rw [Function.iterate_succ_apply']
    show turn^[n] g (z - 1) = _
    rw [ih]
    congr 1
    ext
    simp only [Fin.val_sub, Fin.val_ofNat, Fin.val_one]
    omega

/-- θ acts on the column parities as a mixing of neighbours. -/
theorem parity_theta (A : StateArray) : parity (theta A) = mix 1 turn (parity A) := by
  funext x z
  have h : ∀ a b c d e t : Bool,
      ((a ^^ t) ^^ (b ^^ t) ^^ (c ^^ t) ^^ (d ^^ t) ^^ (e ^^ t)) = ((a ^^ b ^^ c ^^ d ^^ e) ^^ t) := by decide
  calc parity (theta A) x z = (parity A x z ^^ thetaEffect (parity A) x z) := h _ _ _ _ _ _
    _ = mix 1 turn (parity A) x z := (Bool.xor_assoc _ _ _).symm

theorem theta_injective : Function.Injective theta := by
  intro A B h
  have h2 : ∀ g : Fin 64 → Bool, g + g = 0 := fun g => funext fun z => Bool.xor_self (g z)
  have hturn : ∀ g, turn^[2 ^ 6] g = g := fun g => funext fun z => by
    rw [turn_iterate, show Fin.ofNat 64 (2 ^ 6) = 0 from rfl, sub_zero]
  -- equal images have equal parities, and θ adds the same to both
  have hp : parity A = parity B := by
    apply mix_injective h2 6 (1 : Fin 5) turn (by decide) hturn
    rw [← parity_theta, ← parity_theta, h]
  funext x y z
  have hxyz := congrFun (congrFun (congrFun h x) y) z
  simp only [theta, hp] at hxyz
  exact Bool.xor_left_inj.1 hxyz

/-! ## The other steps -/

theorem rho_injective : Function.Injective rho := by
  intro A B h
  funext x y z
  have hz := congrFun (congrFun (congrFun h x) y) (z + Fin.ofNat 64 (rhoOffset x y))
  simpa only [rho, add_sub_cancel_right] using hz

theorem pi_injective : Function.Injective pi := by
  intro A B h
  funext u v z
  -- the destination of lane `(u, v)` is `(v, 2(u - v))`, as `3 * 2 = 1` modulo 5
  have hsrc : ∀ u v : Fin 5, v + 3 * (2 * (u - v)) = u := by decide
  have hz := congrFun (congrFun (congrFun h v) (2 * (u - v))) z
  simpa only [pi, hsrc] using hz

/-- Every bit of a row, from the row after χ. -/
theorem chi_row (A : StateArray) (x y : Fin 5) (z : Fin 64) :
    A x y z = (chi A x y z ^^ (!chi A (x + 1) y z &&
      (chi A (x + 2) y z ^^ (!chi A (x + 3) y z && chi A (x + 4) y z)))) := by
  have hrow : ∀ a b c d e : Bool,
      a = ((a ^^ (!b && c)) ^^ (!(b ^^ (!c && d)) &&
        ((c ^^ (!d && e)) ^^ (!(d ^^ (!e && a)) && (e ^^ (!a && b)))))) := by decide
  have h := hrow (A x y z) (A (x + 1) y z) (A (x + 2) y z) (A (x + 3) y z) (A (x + 4) y z)
  simpa only [chi, add_assoc, show (1 : Fin 5) + 1 = 2 from rfl, show (1 : Fin 5) + 2 = 3 from rfl,
    show (2 : Fin 5) + 1 = 3 from rfl, show (2 : Fin 5) + 2 = 4 from rfl, show (3 : Fin 5) + 1 = 4 from rfl,
    show (3 : Fin 5) + 2 = 0 from rfl, show (4 : Fin 5) + 1 = 0 from rfl, show (4 : Fin 5) + 2 = 1 from rfl,
    add_zero] using h

theorem chi_injective : Function.Injective chi := by
  intro A B h
  funext x y z
  rw [chi_row A, chi_row B, h]

theorem iota_injective (ir : Nat) : Function.Injective (iota · ir) := by
  intro A B h
  funext x y z
  have hz := congrFun (congrFun (congrFun h x) y) z
  simp only [iota] at hz
  split at hz
  · exact Bool.xor_left_inj.1 hz
  · exact hz

/-! ## Rounds -/

theorem rnd_injective (ir : Nat) : Function.Injective (rnd · ir) := fun _ _ h =>
  theta_injective (rho_injective (pi_injective (chi_injective (iota_injective ir h))))

theorem keccakF_injective : Function.Injective keccakF := by
  have hrun : ∀ l : List Nat, Function.Injective (l.foldl rnd) := by
    intro l
    induction l with
    | nil => exact fun _ _ h => h
    | cons ir l ih => exact fun A B h => rnd_injective ir (ih h)
  exact hrun _

theorem keccakF_bijective : Function.Bijective keccakF :=
  Finite.injective_iff_bijective.1 keccakF_injective

end HashLib.Fips202
