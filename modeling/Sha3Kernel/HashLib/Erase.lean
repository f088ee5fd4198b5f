import Sha3Kernel.HashLib.Checked
/-!
# Instrumented computations

Code that keeps a record beside its values erases to code that does not: it
faults where the other faults, and where it returns, leaving the record out
gives the other's value. The rules follow the shape of the code, so an erasure
is proved by walking both bodies side by side.
-/

namespace HashLib.Erase

open Checked

variable {α α' β β' σ σ' ι : Type}

/-- `m` is `m'` with every value seen through `e`. -/
def Erases (e : α' → α) (m' : Result α') (m : Result α) : Prop := e <$> m' = m

namespace Erases
variable {e : α' → α}

theorem ret (x : α') : Erases e (.ok x) (.ok (e x)) := rfl

theorem bind {eb : β' → β} {m' : Result α'} {m : Result α} {k' : α' → Result β'} {k : α → Result β}
    (h : Erases e m' m) (hk : ∀ x, Erases eb (k' x) (k (e x))) : Erases eb (m' >>= k') (m >>= k) := by
  subst h
  cases m' with
  | ok x => exact hk x
  | error f => rfl

/-- The step keeps no record of its own. -/
theorem step {eb : β' → β} {m : Result α} {k' : α → Result β'} {k : α → Result β} (hk : ∀ x, Erases eb (k' x) (k x)) :
    Erases eb (m >>= k') (m >>= k) := by
  cases m with
  | ok x => exact hk x
  | error f => rfl

/-- A value with a record beside it. -/
theorem pair {τ : Type} (m : Result α) (t : τ) : Erases Prod.fst (m >>= fun x => .ok (x, t)) m := by
  cases m with
  | ok x => rfl
  | error f => rfl

/-- What is proved of the instrumented code holds of the code. -/
theorem returns {m' : Result α'} {m : Result α} {P : α → Prop} (h : Erases e m' m)
    (hm : Returns m' fun x => P (e x)) : Returns m P := by
  subst h
  obtain ⟨x, rfl, hx⟩ := hm
  exact .ret hx

theorem foldlM {body' : σ' → ι → Result σ'} {body : σ → ι → Result σ} {e : σ' → σ}
    (h : ∀ s x, Erases e (body' s x) (body (e s) x)) (xs : List ι) (s : σ') :
    Erases e (xs.foldlM body' s) (xs.foldlM body (e s)) := by
  induction xs generalizing s with
  | nil => exact .ret s
  | cons x xs ih =>
    rw [List.foldlM_cons, List.foldlM_cons]
    exact (h s x).bind ih

end Erases

/-- `Flow` on both ways a pass can end. -/
def mapFlow (e : σ' → σ) (eb : β' → β) : Flow σ' β' → Flow σ β
  | .next s => .next (e s)
  | .done b => .done (eb b)

theorem Erases.loop {e : σ' → σ} {eb : β' → β} {body' : σ' → Result (Flow σ' β')} {body : σ → Result (Flow σ β)}
    (h : ∀ s, Erases (mapFlow e eb) (body' s) (body (e s))) (fuel : Nat) (s : σ') :
    Erases eb (Checked.loop body' fuel s) (Checked.loop body fuel (e s)) := by
  induction fuel generalizing s with
  | zero => rfl
  | succ fuel ih =>
    refine (h s).bind fun r => ?_
    cases r with
    | next s' => exact ih s'
    | done b => rfl

end HashLib.Erase
