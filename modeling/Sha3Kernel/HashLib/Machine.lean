import Sha3Kernel.HashLib.Checked
/-!
# Runs of a checked machine

An object and the calls made on it: `step` takes the object and a call to the
object after it and what the call returned, or to a fault. A run makes a list
of calls, one after another. `run_spec` proves things of whole runs from one
call, against a ghost state that follows the calls alone.
-/

namespace HashLib.Machine

open Checked

variable {σ ι ω γ : Type}

/-- The calls of a list, one after another, with what they returned. -/
def run (step : σ → ι → Result (σ × ω)) : σ → List ι → Result (σ × List ω)
  | s, [] => pure (s, [])
  | s, op :: ops => do
    let (s, out) ← step s op
    let (s, outs) ← run step s ops
    pure (s, out :: outs)

/-- Each of `outs` satisfies `Out` of the ghost state its call started from. -/
inductive Outputs (upd : γ → ι → γ) (Out : γ → ι → ω → Prop) : γ → List ι → List ω → Prop where
  | nil {g} : Outputs upd Out g [] []
  | cons {g op out ops outs} : Out g op out → Outputs upd Out (upd g op) ops outs →
      Outputs upd Out g (op :: ops) (out :: outs)

/-- What one call keeps and returns, the calls of a run keep and return. -/
theorem run_ends {step : σ → ι → Result (σ × ω)} {F : Fault → Prop} (upd : γ → ι → γ) (I : γ → σ → Prop)
    (Out : γ → ι → ω → Prop)
    (hstep : ∀ g s op, I g s → Ends F (step s op) (fun r => I (upd g op) r.1 ∧ Out g op r.2))
    (g : γ) (s : σ) (ops : List ι) (h : I g s) :
    Ends F (run step s ops) (fun r => I (ops.foldl upd g) r.1 ∧ Outputs upd Out g ops r.2) := by
  induction ops generalizing g s with
  | nil => exact ⟨h, .nil⟩
  | cons op ops ih =>
    unfold run
    refine (hstep g s op h).bind ?_
    rintro ⟨s', out⟩ ⟨hs, hout⟩
    refine (ih (upd g op) s' hs).bind ?_
    rintro ⟨s'', outs⟩ ⟨hs', houts⟩
    exact ⟨hs', .cons hout houts⟩

theorem run_spec {step : σ → ι → Result (σ × ω)} (upd : γ → ι → γ) (I : γ → σ → Prop) (Out : γ → ι → ω → Prop)
    (hstep : ∀ g s op, I g s → Returns (step s op) (fun r => I (upd g op) r.1 ∧ Out g op r.2))
    (g : γ) (s : σ) (ops : List ι) (h : I g s) :
    Returns (run step s ops) (fun r => I (ops.foldl upd g) r.1 ∧ Outputs upd Out g ops r.2) :=
  Ends.returns (run_ends upd I Out (fun g s op h => (hstep g s op h).ends) g s ops h) fun _ => not_false

/-- What a call somewhere in a run returned. -/
theorem Outputs.at_call {upd : γ → ι → γ} {Out : γ → ι → ω → Prop} {g : γ} {pre post : List ι} {op : ι}
    {outs : List ω} (h : Outputs upd Out g (pre ++ op :: post) outs) :
    ∃ out, outs[pre.length]? = some out ∧ Out (pre.foldl upd g) op out := by
  induction pre generalizing g outs with
  | nil =>
    obtain _ | ⟨hout, _⟩ := h
    exact ⟨_, rfl, hout⟩
  | cons op' pre ih =>
    obtain _ | ⟨_, hrest⟩ := h
    exact ih hrest

/-- Outputs that depend on the call alone. -/
theorem Outputs.eq_map {upd : γ → ι → γ} {f : ι → ω} {g : γ} {ops : List ι} {outs : List ω}
    (h : Outputs upd (fun _ op out => out = f op) g ops outs) : outs = ops.map f := by
  induction h with
  | nil => rfl
  | cons hout _ ih => rw [hout, ih, List.map_cons]

/-! ## Models that cannot fault -/

/-- The calls of a list on a model of the object. -/
def modelRun (model : γ → ι → γ × ω) : γ → List ι → γ × List ω
  | g, [] => (g, [])
  | g, op :: ops => ((modelRun model (model g op).1 ops).1, (model g op).2 :: (modelRun model (model g op).1 ops).2)

/-- An object that answers each call as the model does answers every run as the
model does. -/
theorem run_refines {step : σ → ι → Result (σ × ω)} {model : γ → ι → γ × ω} (I : γ → σ → Prop)
    (hstep : ∀ g s op, I g s → Returns (step s op) (fun r => I (model g op).1 r.1 ∧ r.2 = (model g op).2))
    (g : γ) (s : σ) (ops : List ι) (h : I g s) :
    Returns (run step s ops) (fun r => I (modelRun model g ops).1 r.1 ∧ r.2 = (modelRun model g ops).2) := by
  induction ops generalizing g s with
  | nil => exact .ret ⟨h, rfl⟩
  | cons op ops ih =>
    unfold run
    refine (hstep g s op h).bind ?_
    rintro ⟨s', out⟩ ⟨hs, hout⟩
    refine (ih _ s' hs).bind ?_
    rintro ⟨s'', outs⟩ ⟨hs', houts⟩
    dsimp only at hout houts
    rw [hout, houts]
    exact .ret ⟨hs', rfl⟩

/-- Two models that answer related calls with related outputs, and stay related,
answer related runs with related outputs. -/
theorem modelRun_related {γ' : Type} {model : γ → ι → γ × ω} {model' : γ' → ι → γ' × ω} {R : γ → γ' → Prop}
    {A : ι → ι → Prop} {O : ω → ω → Prop}
    (hstep : ∀ g g' op op', R g g' → A op op' →
      R (model g op).1 (model' g' op').1 ∧ O (model g op).2 (model' g' op').2)
    {g : γ} {g' : γ'} {ops ops' : List ι} (h : R g g') (hops : List.Forall₂ A ops ops') :
    List.Forall₂ O (modelRun model g ops).2 (modelRun model' g' ops').2 := by
  induction hops generalizing g g' with
  | nil => exact .nil
  | cons hop _ ih =>
    obtain ⟨hnext, hout⟩ := hstep g g' _ _ h hop
    exact .cons hout (ih hnext)

end HashLib.Machine
