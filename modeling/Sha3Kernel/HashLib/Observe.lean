import Sha3Kernel.HashLib.Machine
/-!
# Code and what it shows

Someone who times a program, or shares its caches, sees which branches it takes,
which places of memory it touches and which routines it calls. `Observed` is
checked code that emits these as events while it runs; what it showed before a
fault stays shown. `value` leaves the events out again. `SameView` is the rule
set for two runs that show the same, `Calls` the one for the routines that one
run calls.
-/

namespace HashLib.Observe

open Checked

/-- What is seen of a step. `ρ` names the routines. -/
inductive Event (ρ : Type) where
  | branch (taken : Bool)
  | at (i : Nat)
  | range (lo hi : Nat)
  | call (routine : ρ)
  deriving DecidableEq, Repr

/-- Checked code that emits events. -/
abbrev Observed (ρ α : Type) := ExceptT Fault (Writer (List (Event ρ))) α

variable {ρ α β σ : Type}

namespace Observed

/-- What the code shows. -/
def events (m : Observed ρ α) : List (Event ρ) := m.run.run.2

/-- The code with the events left out. -/
def value (m : Observed ρ α) : Result α := m.run.run.1

end Observed

open Observed

/-! ## Steps -/

def see (e : Event ρ) : Observed ρ Unit := ExceptT.lift (tell [e])

/-- A step that shows nothing. -/
def lift (m : Result α) : Observed ρ α := ExceptT.mk (pure m)

/-- A condition that the code branches on. -/
def branch (b : Bool) : Observed ρ Bool := do
  see (.branch b)
  pure b

/-- `xs[i]` -/
def index (xs : List α) (i : Nat) : Observed ρ α := do
  see (.at i)
  lift (Checked.index xs i)

/-- `&xs[lo..hi]` -/
def slice (xs : List α) (lo hi : Nat) : Observed ρ (List α) := do
  see (.range lo hi)
  lift (Checked.slice xs lo hi)

/-- `xs[i] = x` -/
def store {n : Nat} (xs : Vector α n) (i : Nat) (x : α) : Observed ρ (Vector α n) := do
  see (.at i)
  lift (Checked.store xs i x)

/-- `xs[lo..hi].copy_from_slice(src)` -/
def copy_from_slice {n : Nat} (xs : Vector α n) (lo hi : Nat) (src : List α) : Observed ρ (Vector α n) := do
  see (.range lo hi)
  lift (Checked.copy_from_slice xs lo hi src)

def forRange (lo hi : Nat) (body : Nat → σ → Observed ρ σ) (s : σ) : Observed ρ σ :=
  (List.range' lo (hi - lo)).foldlM (fun s i => body i s) s

def loop (body : σ → Observed ρ (Flow σ β)) : Nat → σ → Observed ρ β
  | 0, _ => lift (.error .diverges)
  | fuel + 1, s => do
    match ← body s with
    | .next s => loop body fuel s
    | .done b => pure b

def mapM (f : α → Observed ρ β) : List α → Observed ρ (List β)
  | [] => pure []
  | x :: xs => do
    let y ← f x
    let ys ← mapM f xs
    pure (y :: ys)

/-- The calls of a list on an object, one after another. -/
def run {ι ω : Type} (step : σ → ι → Observed ρ (σ × ω)) : σ → List ι → Observed ρ (σ × List ω)
  | s, [] => pure (s, [])
  | s, op :: ops => do
    let (s, out) ← step s op
    let (s, outs) ← run step s ops
    pure (s, out :: outs)

/-! ## Leaving the events out -/

section Value

@[simp] theorem value_pure (x : α) : (pure x : Observed ρ α).value = .ok x := rfl

@[simp] theorem events_pure (x : α) : (pure x : Observed ρ α).events = [] := rfl

@[simp] theorem value_lift (m : Result α) : (lift m : Observed ρ α).value = m := rfl

@[simp] theorem events_lift (m : Result α) : (lift m : Observed ρ α).events = [] := rfl

@[simp] theorem value_see (e : Event ρ) : (see e).value = .ok () := rfl

@[simp] theorem events_see (e : Event ρ) : (see e).events = [e] := rfl

@[simp] theorem value_bind (m : Observed ρ α) (k : α → Observed ρ β) :
    (m >>= k).value = m.value >>= fun x => (k x).value := by
  obtain ⟨x | x, t⟩ := m
  · rfl
  · rfl

/-- A fault shows nothing more. -/
theorem events_bind (m : Observed ρ α) (k : α → Observed ρ β) :
    (m >>= k).events = m.events ++ match m.value with
      | .ok x => (k x).events
      | .error _ => [] := by
  obtain ⟨x | x, t⟩ := m
  · rfl
  · rfl

@[simp] theorem value_branch (b : Bool) : (branch b : Observed ρ Bool).value = .ok b := rfl

@[simp] theorem value_index (xs : List α) (i : Nat) : (index xs i : Observed ρ α).value = Checked.index xs i := rfl

@[simp] theorem value_slice (xs : List α) (lo hi : Nat) :
    (slice xs lo hi : Observed ρ _).value = Checked.slice xs lo hi := rfl

@[simp] theorem value_store {n : Nat} (xs : Vector α n) (i : Nat) (x : α) :
    (store xs i x : Observed ρ _).value = Checked.store xs i x := rfl

@[simp] theorem value_copy_from_slice {n : Nat} (xs : Vector α n) (lo hi : Nat) (src : List α) :
    (copy_from_slice xs lo hi src : Observed ρ _).value = Checked.copy_from_slice xs lo hi src := rfl

@[simp] theorem value_foldlM {ι : Type} (body : σ → ι → Observed ρ σ) (xs : List ι) (s : σ) :
    (xs.foldlM body s).value = xs.foldlM (fun s x => (body s x).value) s := by
  induction xs generalizing s with
  | nil => rfl
  | cons x xs ih => simp only [List.foldlM_cons, value_bind, ih]

@[simp] theorem value_forRange (lo hi : Nat) (body : Nat → σ → Observed ρ σ) (s : σ) :
    (forRange lo hi body s).value = Checked.forRange lo hi (fun i s => (body i s).value) s :=
  value_foldlM _ _ s

@[simp] theorem value_loop (body : σ → Observed ρ (Flow σ β)) (fuel : Nat) (s : σ) :
    (loop body fuel s).value = Checked.loop (fun s => (body s).value) fuel s := by
  induction fuel generalizing s with
  | zero => rfl
  | succ fuel ih =>
    unfold loop Checked.loop
    rw [value_bind]
    congr 1
    funext r
    cases r with
    | next s' => exact ih s'
    | done b => rfl

@[simp] theorem value_mapM (f : α → Observed ρ β) (xs : List α) :
    (mapM f xs).value = xs.mapM fun x => (f x).value := by
  induction xs with
  | nil => rfl
  | cons x xs ih =>
    unfold mapM
    simp only [List.mapM_cons, value_bind, value_pure, ih, pure_eq_ok]

@[simp] theorem value_run {ι ω : Type} (step : σ → ι → Observed ρ (σ × ω)) (s : σ) (ops : List ι) :
    (run step s ops).value = Machine.run (fun s op => (step s op).value) s ops := by
  induction ops generalizing s with
  | nil => rfl
  | cons op ops ih =>
    unfold run Machine.run
    simp only [value_bind, value_pure, ih, pure_eq_ok]

@[simp] theorem value_ite (b : Bool) (m m' : Observed ρ α) :
    (if b = true then m else m').value = if b = true then m.value else m'.value := apply_ite value _ _ _

end Value

/-! ## Two runs -/

/-- Both return, with related values, or both stop at the same fault. -/
inductive SameEnd (R : α → β → Prop) : Result α → Result β → Prop where
  | ok {x y} (h : R x y) : SameEnd R (.ok x) (.ok y)
  | error (f : Fault) : SameEnd R (.error f) (.error f)

/-- The two runs show the same and end alike. -/
structure SameView (R : α → β → Prop) (m : Observed ρ α) (m' : Observed ρ β) : Prop where
  events : m.events = m'.events
  ends : SameEnd R m.value m'.value

namespace SameView
variable {γ δ : Type} {R : α → β → Prop} {m : Observed ρ α} {m' : Observed ρ β}

theorem ret {x : α} {y : β} (h : R x y) : SameView R (pure x : Observed ρ α) (pure y) := ⟨rfl, .ok h⟩

theorem mono {S : α → β → Prop} (h : SameView R m m') (hRS : ∀ x y, R x y → S x y) : SameView S m m' := by
  obtain ⟨hevents, hends⟩ := h
  refine ⟨hevents, ?_⟩
  generalize m.value = r, m'.value = r' at hends ⊢
  cases hends with
  | ok h => exact .ok (hRS _ _ h)
  | error f => exact .error f

/-- Whatever the first step returns in the two runs, the rest goes on alike. -/
theorem bind {S : γ → δ → Prop} {k : α → Observed ρ γ} {k' : β → Observed ρ δ} (h : SameView R m m')
    (hk : ∀ x y, R x y → SameView S (k x) (k' y)) : SameView S (m >>= k) (m' >>= k') := by
  obtain ⟨hevents, hends⟩ := h
  constructor
  · rw [events_bind, events_bind, hevents]
    generalize m.value = r, m'.value = r' at hends ⊢
    congr 1
    cases hends with
    | ok h => exact (hk _ _ h).events
    | error f => rfl
  · rw [value_bind, value_bind]
    generalize m.value = r, m'.value = r' at hends ⊢
    cases hends with
    | ok h => exact (hk _ _ h).ends
    | error f => exact .error f

/-- A step that is the same in both runs. -/
theorem same (m : Observed ρ α) : SameView Eq m m := by
  refine ⟨rfl, ?_⟩
  cases m.value with
  | ok x => exact .ok rfl
  | error f => exact .error f

theorem bind_same {S : γ → δ → Prop} (m : Observed ρ α) {k : α → Observed ρ γ} {k' : α → Observed ρ δ}
    (hk : ∀ x, SameView S (k x) (k' x)) : SameView S (m >>= k) (m >>= k') := by
  apply (same m).bind
  intro x y hxy
  subst hxy
  exact hk x

theorem lift {r : Result α} {r' : Result β} (h : SameEnd R r r') :
    SameView R (Observe.lift r : Observed ρ α) (Observe.lift r') := ⟨rfl, h⟩

/-- The event of a step, and then the step. -/
theorem seen (e : Event ρ) {r : Result α} {r' : Result β} (h : SameEnd R r r') :
    SameView R (see e >>= fun _ => Observe.lift r) (see e >>= fun _ => Observe.lift r') :=
  bind_same (see e) fun _ => lift h

theorem index {xs : List α} {ys : List β} (h : xs.length = ys.length) (i : Nat) :
    SameView (fun _ _ => True) (Observe.index xs i : Observed ρ α) (Observe.index ys i) := by
  refine seen _ ?_
  unfold Checked.index
  rcases Nat.lt_or_ge i xs.length with hi | hi
  · rw [List.getElem?_eq_getElem hi, List.getElem?_eq_getElem (h ▸ hi)]
    exact .ok trivial
  · rw [List.getElem?_eq_none hi, List.getElem?_eq_none (h ▸ hi)]
    exact .error _

/-- Lists of related elements, at one index. -/
theorem index_related {xs : List α} {ys : List β} (h : List.Forall₂ R xs ys) (i : Nat) :
    SameView R (Observe.index xs i : Observed ρ α) (Observe.index ys i) := by
  refine seen _ ?_
  unfold Checked.index
  induction h generalizing i with
  | nil => exact .error _
  | cons hx _ ih =>
    cases i with
    | zero => exact .ok hx
    | succ i => exact ih i

theorem slice {xs : List α} {ys : List β} (h : xs.length = ys.length) (lo hi : Nat) :
    SameView (fun zs ws => zs.length = ws.length) (Observe.slice xs lo hi : Observed ρ _) (Observe.slice ys lo hi) := by
  refine seen _ ?_
  unfold Checked.slice
  rw [h]
  split
  · exact .ok (by simp [h])
  · exact .error _

theorem store {n : Nat} (xs : Vector α n) (ys : Vector β n) (i : Nat) (x : α) (y : β) :
    SameView (fun _ _ => True) (Observe.store xs i x : Observed ρ _) (Observe.store ys i y) := by
  refine seen _ ?_
  unfold Checked.store
  split
  · exact .ok trivial
  · exact .error _

theorem copy_from_slice {n : Nat} (xs : Vector α n) (ys : Vector β n) (lo hi : Nat) {src : List α} {src' : List β}
    (h : src.length = src'.length) :
    SameView (fun _ _ => True) (Observe.copy_from_slice xs lo hi src : Observed ρ _)
      (Observe.copy_from_slice ys lo hi src') := by
  refine seen _ ?_
  unfold Checked.copy_from_slice
  by_cases hbounds : lo ≤ hi ∧ hi ≤ n
  · rw [if_pos hbounds, if_pos hbounds]
    by_cases hsrc : src.length = hi - lo
    · rw [if_pos hsrc, if_pos (h ▸ hsrc)]
      exact .ok trivial
    · rw [if_neg hsrc, if_neg (h ▸ hsrc)]
      exact .error _
  · rw [if_neg hbounds, if_neg hbounds]
    exact .error _

theorem foldlM {ι ι' τ : Type} {R : σ → τ → Prop} {A : ι → ι' → Prop} {body : σ → ι → Observed ρ σ}
    {body' : τ → ι' → Observed ρ τ} (hbody : ∀ s t x y, R s t → A x y → SameView R (body s x) (body' t y))
    {xs : List ι} {ys : List ι'} (hxs : List.Forall₂ A xs ys) {s : σ} {t : τ} (h : R s t) :
    SameView R (xs.foldlM body s) (ys.foldlM body' t) := by
  induction hxs generalizing s t with
  | nil => exact ret h
  | cons hx _ ih =>
    rw [List.foldlM_cons, List.foldlM_cons]
    exact (hbody _ _ _ _ h hx).bind fun s' t' h' => ih h'

theorem forRange {τ : Type} {R : σ → τ → Prop} {body : Nat → σ → Observed ρ σ} {body' : Nat → τ → Observed ρ τ}
    (lo hi : Nat) (hbody : ∀ i s t, R s t → SameView R (body i s) (body' i t)) {s : σ} {t : τ} (h : R s t) :
    SameView R (Observe.forRange lo hi body s) (Observe.forRange lo hi body' t) := by
  refine foldlM (A := Eq) ?_ (List.forall₂_eq_eq_eq ▸ rfl) h
  rintro s t i _ h rfl
  exact hbody i s t h

theorem mapM {ι ι' : Type} {A : ι → ι' → Prop} {f : ι → Observed ρ α} {f' : ι' → Observed ρ β}
    (hf : ∀ x y, A x y → SameView R (f x) (f' y)) {xs : List ι} {ys : List ι'} (hxs : List.Forall₂ A xs ys) :
    SameView (List.Forall₂ R) (Observe.mapM f xs) (Observe.mapM f' ys) := by
  induction hxs with
  | nil => exact ret .nil
  | cons hx _ ih =>
    refine (hf _ _ hx).bind fun x y hxy => ?_
    exact ih.bind fun xs ys hxs => ret (.cons hxy hxs)

/-- Related calls keep the objects related, so whole runs show the same. -/
theorem run {τ ι ι' ω ω' : Type} {R : σ → τ → Prop} {A : ι → ι' → Prop} {step : σ → ι → Observed ρ (σ × ω)}
    {step' : τ → ι' → Observed ρ (τ × ω')}
    (hstep : ∀ s t x y, R s t → A x y → SameView (fun r r' => R r.1 r'.1) (step s x) (step' t y))
    {xs : List ι} {ys : List ι'} (hxs : List.Forall₂ A xs ys) {s : σ} {t : τ} (h : R s t) :
    SameView (fun r r' => R r.1 r'.1) (Observe.run step s xs) (Observe.run step' t ys) := by
  induction hxs generalizing s t with
  | nil => exact ret h
  | cons hx _ ih =>
    refine (hstep _ _ _ _ h hx).bind fun r r' hr => ?_
    exact (ih hr).bind fun q q' hq => ret hq

/-- How two passes of a loop end alike. -/
def FlowRel {τ β' : Type} (R : σ → τ → Prop) (S : β → β' → Prop) : Flow σ β → Flow τ β' → Prop
  | .next s, .next t => R s t
  | .done b, .done b' => S b b'
  | _, _ => False

theorem loop {τ β' : Type} {R : σ → τ → Prop} {S : β → β' → Prop} {body : σ → Observed ρ (Flow σ β)}
    {body' : τ → Observed ρ (Flow τ β')} (hbody : ∀ s t, R s t → SameView (FlowRel R S) (body s) (body' t))
    (fuel : Nat) {s : σ} {t : τ} (h : R s t) :
    SameView S (Observe.loop body fuel s) (Observe.loop body' fuel t) := by
  induction fuel generalizing s t with
  | zero => exact ⟨rfl, .error _⟩
  | succ fuel ih =>
    refine (hbody s t h).bind ?_
    rintro (s' | b) (t' | b') hr
    · exact ih hr
    · exact hr.elim
    · exact hr.elim
    · exact ret hr

end SameView

/-! ## Code without branches -/

/-- The code shows no branch. -/
def BranchFree (m : Observed ρ α) : Prop := ∀ taken, .branch taken ∉ m.events

namespace BranchFree
variable {m : Observed ρ α}

theorem ret (x : α) : BranchFree (pure x : Observed ρ α) := fun _ => List.not_mem_nil

theorem bind {k : α → Observed ρ β} (h : BranchFree m) (hk : ∀ x, BranchFree (k x)) : BranchFree (m >>= k) := by
  intro taken hmem
  rw [events_bind, List.mem_append] at hmem
  rcases hmem with hmem | hmem
  · exact h taken hmem
  · cases hm : m.value with
    | ok x =>
      rw [hm] at hmem
      exact hk x taken hmem
    | error f =>
      rw [hm] at hmem
      cases hmem

theorem index (xs : List α) (i : Nat) : BranchFree (Observe.index xs i : Observed ρ α) := by
  intro taken hmem
  cases List.mem_singleton.1 hmem

theorem store {n : Nat} (xs : Vector α n) (i : Nat) (x : α) : BranchFree (Observe.store xs i x : Observed ρ _) := by
  intro taken hmem
  cases List.mem_singleton.1 hmem

theorem foldlM {ι : Type} {body : σ → ι → Observed ρ σ} (hbody : ∀ s x, BranchFree (body s x)) (xs : List ι) (s : σ) :
    BranchFree (xs.foldlM body s) := by
  induction xs generalizing s with
  | nil => exact ret s
  | cons x xs ih =>
    rw [List.foldlM_cons]
    exact (hbody s x).bind ih

theorem forRange {body : Nat → σ → Observed ρ σ} (hbody : ∀ i s, BranchFree (body i s)) (lo hi : Nat) (s : σ) :
    BranchFree (Observe.forRange lo hi body s) := foldlM (fun s i => hbody i s) _ s

end BranchFree

/-- A loop over a list whose passes return shows what they show. -/
theorem events_foldlM {ι : Type} {body : σ → ι → Observed ρ σ} {shown : ι → List (Event ρ)}
    (hbody : ∀ s x, (∃ s', (body s x).value = .ok s') ∧ (body s x).events = shown x) (xs : List ι) (s : σ) :
    (xs.foldlM body s).events = xs.flatMap shown := by
  induction xs generalizing s with
  | nil => rfl
  | cons x xs ih =>
    obtain ⟨⟨s', hvalue⟩, hevents⟩ := hbody s x
    rw [List.foldlM_cons, events_bind, hvalue, hevents, List.flatMap_cons]
    exact congrArg (shown x ++ ·) (ih s')

/-! ## Calls of routines -/

/-- The routines called, in order. -/
def calls (t : List (Event ρ)) : List ρ :=
  t.filterMap fun
    | .call routine => some routine
    | _ => none

/-- The calls of a list of steps that each call `cost`. -/
def schedule {γ ι : Type} (next : γ → ι → γ) (cost : γ → ι → List ρ) : γ → List ι → List ρ
  | _, [] => []
  | g, op :: ops => cost g op ++ schedule next cost (next g op) ops

@[simp] theorem calls_append (t t' : List (Event ρ)) : calls (t ++ t') = calls t ++ calls t' := List.filterMap_append

/-- Where `m` returns, its value and the routines it called satisfy `P`. -/
def Calls (m : Observed ρ α) (P : α → List ρ → Prop) : Prop := ∀ x, m.value = .ok x → P x (calls m.events)

namespace Calls
variable {P : α → List ρ → Prop} {m : Observed ρ α}

theorem ret {x : α} (h : P x []) : Calls (pure x : Observed ρ α) P := by
  intro y hy
  obtain rfl := Except.ok.inj hy
  exact h

theorem mono {Q : α → List ρ → Prop} (h : Calls m P) (hq : ∀ x t, P x t → Q x t) : Calls m Q :=
  fun x hx => hq x _ (h x hx)

theorem bind {k : α → Observed ρ β} {Q : β → List ρ → Prop} (h : Calls m P)
    (hk : ∀ x t, P x t → Calls (k x) (fun y t' => Q y (t ++ t'))) : Calls (m >>= k) Q := by
  intro y hy
  rw [value_bind] at hy
  rw [events_bind]
  cases hm : m.value with
  | error f =>
    rw [hm] at hy
    cases hy
  | ok x =>
    rw [hm] at hy
    rw [calls_append]
    exact hk x _ (h x hm) y hy

/-- A step with known calls, and whose value does not matter. -/
theorem costs {t : List ρ} {k : α → Observed ρ β} {Q : β → List ρ → Prop} (h : Calls m (fun _ t' => t' = t))
    (hk : ∀ x, Calls (k x) (fun y t' => Q y (t ++ t'))) : Calls (m >>= k) Q := by
  refine h.bind fun x t' ht' => ?_
  subst ht'
  exact hk x

/-- A step that calls nothing. -/
theorem skip {k : α → Observed ρ β} {Q : β → List ρ → Prop} (h : Calls m (fun _ t => t = []))
    (hk : ∀ x, Calls (k x) Q) : Calls (m >>= k) Q := h.costs hk

/-- A step that calls nothing: what is known of its value. -/
theorem quiet (hm : calls m.events = []) (h : ∀ x, m.value = .ok x → P x []) : Calls m P := by
  intro x hx
  rw [hm]
  exact h x hx

theorem index (xs : List α) (i : Nat) : Calls (Observe.index xs i : Observed ρ α) (fun _ t => t = []) :=
  quiet rfl fun _ _ => rfl

theorem slice (xs : List α) (lo hi : Nat) : Calls (Observe.slice xs lo hi : Observed ρ _) (fun _ t => t = []) :=
  quiet rfl fun _ _ => rfl

theorem store {n : Nat} (xs : Vector α n) (i : Nat) (x : α) :
    Calls (Observe.store xs i x : Observed ρ _) (fun _ t => t = []) := quiet rfl fun _ _ => rfl

theorem copy_from_slice {n : Nat} (xs : Vector α n) (lo hi : Nat) (src : List α) :
    Calls (Observe.copy_from_slice xs lo hi src : Observed ρ _) (fun _ t => t = []) := quiet rfl fun _ _ => rfl

theorem branch (b : Bool) : Calls (Observe.branch b : Observed ρ Bool) (fun b' t => b' = b ∧ t = []) :=
  quiet rfl fun _ hx => ⟨(Except.ok.inj hx).symm, rfl⟩

/-- The code behind a condition knows which way it went. -/
theorem branch_then {b : Bool} {k : Bool → Observed ρ β} {Q : β → List ρ → Prop} (hk : Calls (k b) Q) :
    Calls (Observe.branch b >>= k) Q := by
  refine (branch b).bind fun b' t hb => ?_
  obtain ⟨rfl, rfl⟩ := hb
  exact hk

theorem lift (r : Result α) : Calls (Observe.lift r : Observed ρ α) (fun x t => r = .ok x ∧ t = []) :=
  quiet rfl fun _ hx => ⟨hx, rfl⟩

/-- A call of a routine, and then what it computes. -/
theorem call (routine : ρ) (x : α) :
    Calls (see (.call routine) >>= fun _ => (pure x : Observed ρ α)) (fun _ t => t = [routine]) := by
  intro y _
  rfl

/-- What is known of the value anyway. -/
theorem and_value {Q : α → Prop} (h : Calls m P) (hm : Returns m.value Q) : Calls m (fun x t => Q x ∧ P x t) := by
  obtain ⟨y, hy, hq⟩ := hm
  intro x hx
  obtain rfl := Except.ok.inj (hy.symm.trans hx)
  exact ⟨hq, h y hx⟩

theorem foldlM {ι : Type} {body : σ → ι → Observed ρ σ} {cost : ι → List ρ}
    (hbody : ∀ s x, Calls (body s x) (fun _ t => t = cost x)) (xs : List ι) (s : σ) :
    Calls (xs.foldlM body s) (fun _ t => t = xs.flatMap cost) := by
  induction xs generalizing s with
  | nil => exact ret rfl
  | cons x xs ih =>
    rw [List.foldlM_cons]
    refine (hbody s x).costs fun s' => (ih s').mono fun s'' t ht => ?_
    rw [ht, List.flatMap_cons]

theorem mapM {f : α → Observed ρ β} (hf : ∀ x, Calls (f x) (fun _ t => t = [])) (xs : List α) :
    Calls (Observe.mapM f xs) (fun _ t => t = []) := by
  induction xs with
  | nil => exact ret rfl
  | cons x xs ih => exact (hf x).skip fun y => ih.skip fun ys => ret rfl

/-- Each pass of a counted loop calls `routines`. -/
theorem forRange {lo hi : Nat} {body : Nat → σ → Observed ρ σ} {routines : List ρ}
    (hbody : ∀ i s, Calls (body i s) (fun _ t => t = routines)) (s : σ) :
    Calls (Observe.forRange lo hi body s) (fun _ t => t = (List.replicate (hi - lo) routines).flatten) := by
  have hloop := foldlM (fun s i => hbody i s) (List.range' lo (hi - lo)) s
  rwa [List.flatMap_def, List.map_const', List.length_range'] at hloop

/-- A counted loop whose passes call nothing. -/
theorem forRange_quiet {lo hi : Nat} {body : Nat → σ → Observed ρ σ}
    (hbody : ∀ i s, Calls (body i s) (fun _ t => t = [])) (s : σ) :
    Calls (Observe.forRange lo hi body s) (fun _ t => t = []) := by
  refine (forRange hbody s).mono ?_
  rintro s' _ rfl
  exact List.flatten_replicate_nil

theorem loop {body : σ → Observed ρ (Flow σ β)} (I : σ → List ρ → Prop) (Q : β → List ρ → Prop)
    (hbody : ∀ s t, I s t → Calls (body s) (fun r t' => r.Post (I · (t ++ t')) (Q · (t ++ t')))) (fuel : Nat)
    {s : σ} {t : List ρ} (h : I s t) : Calls (Observe.loop body fuel s) (fun b t' => Q b (t ++ t')) := by
  induction fuel generalizing s t with
  | zero =>
    intro b hb
    cases hb
  | succ fuel ih =>
    refine (hbody s t h).bind ?_
    rintro (s' | b) t' hr
    · refine (ih hr).mono fun b t'' hb => ?_
      rwa [← List.append_assoc]
    · refine ret ?_
      rwa [List.append_nil]

/-- The calls of a run, from those of each step. `next` follows the steps. -/
theorem run {γ ι ω : Type} {step : σ → ι → Observed ρ (σ × ω)} {next : γ → ι → γ} {cost : γ → ι → List ρ}
    (I : γ → σ → Prop)
    (hstep : ∀ g s op, I g s → Calls (step s op) (fun r t => I (next g op) r.1 ∧ t = cost g op))
    (g : γ) (s : σ) (ops : List ι) (h : I g s) :
    Calls (Observe.run step s ops) (fun _ t => t = schedule next cost g ops) := by
  induction ops generalizing g s with
  | nil => exact ret rfl
  | cons op ops ih =>
    refine (hstep g s op h).bind ?_
    rintro ⟨s', out⟩ _ ⟨hs, rfl⟩
    refine (ih _ s' hs).bind ?_
    rintro ⟨s'', outs⟩ _ rfl
    refine ret ?_
    rw [List.append_nil]
    rfl

end Calls

end HashLib.Observe
