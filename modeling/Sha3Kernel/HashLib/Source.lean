import Mathlib.Logic.Function.Iterate
/-!
# Sources

A source answers a read with at most as many elements as there is room for, or
fails. What it spells is what its reads deliver, one after another, whatever the
room: the pieces and the end. A buffer between the source and its reader may cut the
pieces elsewhere, and never shows in what is spelt.
-/

namespace HashLib

variable {σ α E : Type}

/-- What one read may deliver into room for `n` elements. -/
abbrev Piece (α : Type) (n : Nat) : Type := { piece : List α // piece.length ≤ n }

structure Source (σ α E : Type) where
  read : σ → (n : Nat) → σ × Except E (Piece α n)

def Piece.none {n : Nat} : Piece α n := ⟨[], Nat.zero_le n⟩

/-- The elements of an answer; a failing read has none. -/
def elements {n : Nat} : Except E (Piece α n) → List α
  | .ok piece => piece.1
  | .error _ => []

/-! ## What a source spells -/

/-- What is still to come: the elements, and then the end or an error. -/
structure Rest (α E : Type) where
  elements : List α
  ending : Except E Unit

namespace Source

/-- A read into some room takes a piece off the rest, or finds nothing left and
answers with the ending. -/
def Spells (src : Source σ α E) (rest : σ → Rest α E) : Prop :=
  ∀ (s : σ) (n : Nat), 0 < n →
    (∃ piece, (src.read s n).2 = .ok piece ∧ piece.1 ≠ [] ∧
      rest s = { rest (src.read s n).1 with elements := piece.1 ++ (rest (src.read s n).1).elements }) ∨
    ((rest s).elements = [] ∧ (src.read s n).2 = (rest s).ending.map fun _ => Piece.none)

/-- The source after `k` reads into room for `n`. -/
def after (src : Source σ α E) (n : Nat) (s : σ) (k : Nat) : σ := (fun s => (src.read s n).1)^[k] s

/-- What read `k` answers. -/
def answer (src : Source σ α E) (n : Nat) (s : σ) (k : Nat) : Except E (Piece α n) := (src.read (src.after n s k) n).2

/-- What the first `k` reads deliver. -/
def taken (src : Source σ α E) (n : Nat) (s : σ) : Nat → List α
  | 0 => []
  | k + 1 => src.taken n s k ++ elements (src.answer n s k)

/-- What reads into rooms of these sizes deliver, one after another. -/
def reads (src : Source σ α E) : σ → List Nat → List α
  | _, [] => []
  | s, n :: ns => elements (src.read s n).2 ++ src.reads (src.read s n).1 ns

variable (src : Source σ α E)

theorem after_succ (n : Nat) (s : σ) (k : Nat) : src.after n s (k + 1) = src.after n (src.read s n).1 k :=
  Function.iterate_succ_apply _ k s

theorem answer_succ (n : Nat) (s : σ) (k : Nat) : src.answer n s (k + 1) = src.answer n (src.read s n).1 k := by
  unfold answer
  rw [after_succ]

theorem taken_succ (n : Nat) (s : σ) (k : Nat) :
    src.taken n s (k + 1) = elements (src.read s n).2 ++ src.taken n (src.read s n).1 k := by
  induction k with
  | zero => simp [taken, answer, after]
  | succ k ih =>
    rw [taken, ih, answer_succ, List.append_assoc]
    rfl

/-- The reads take the rest apart, and the first that delivers nothing is the end. -/
theorem Spells.ends {src : Source σ α E} {rest : σ → Rest α E} (h : src.Spells rest) {n : Nat} (hn : 0 < n) (s : σ) :
    ∃ m, (∀ k, k < m → elements (src.answer n s k) ≠ []) ∧ src.taken n s m = (rest s).elements ∧
      src.answer n s m = (rest s).ending.map fun _ => Piece.none := by
  generalize hlen : (rest s).elements.length = len
  induction len using Nat.strongRecOn generalizing s with
  | ind len ih =>
    rcases h s n hn with ⟨piece, hread, hpiece, hrest⟩ | ⟨hdone, hread⟩
    · -- a piece is not empty, so less is left
      have hless : (rest (src.read s n).1).elements.length < len := by
        have hpos := List.length_pos_iff.2 hpiece
        rw [← hlen, hrest, List.length_append]
        omega
      obtain ⟨m, hbring, htaken, hend⟩ := ih _ hless _ rfl
      refine ⟨m + 1, ?_, ?_, ?_⟩
      · intro k hk
        cases k with
        | zero =>
          have hfirst : src.answer n s 0 = .ok piece := hread
          rw [hfirst]
          exact hpiece
        | succ k =>
          rw [answer_succ]
          exact hbring k (by omega)
      · rw [taken_succ, hread, htaken, hrest]
        rfl
      · rw [answer_succ, hend, hrest]
    · refine ⟨0, ?_, hdone.symm, hread⟩
      intro k hk
      omega

/-- A cursor over a list. -/
def cursor : Source (List α) α E where
  read s n := (s.drop n, .ok ⟨s.take n, List.length_take_le n s⟩)

theorem cursor_spells : (cursor : Source (List α) α E).Spells fun s => ⟨s, .ok ()⟩ := by
  intro s n hn
  cases s with
  | nil => exact .inr ⟨rfl, by simp [cursor, Except.map, Piece.none]⟩
  | cons x s =>
    left
    refine ⟨_, rfl, ?_, ?_⟩
    · simp [Nat.ne_of_gt hn]
    · simp [cursor]

end Source

/-- The buffer with the piece written over its front. -/
def Piece.write {n : Nat} (piece : Piece α n) (buf : Vector α n) : Vector α n where
  toArray := (piece.1 ++ buf.toList.drop piece.1.length).toArray
  size_toArray := by have := piece.2; simp; omega

theorem Piece.take_write {n : Nat} (piece : Piece α n) (buf : Vector α n) :
    (piece.write buf).toList.take piece.1.length = piece.1 := List.take_left' rfl

/-! ## A buffer in between -/

/-- A reader with a buffer: the source, and what is left of the last piece put into the buffer. -/
structure BufReader (σ α : Type) where
  inner : σ
  buf : List α

namespace Source
variable (src : Source σ α E)

/-- An empty buffer is filled by one read into its whole capacity. -/
def fill_buf (capacity : Nat) (r : BufReader σ α) : BufReader σ α × Except E Unit :=
  if r.buf.isEmpty then
    match src.read r.inner capacity with
    | (inner, .ok piece) => (⟨inner, piece.1⟩, .ok ())
    | (inner, .error e) => (⟨inner, []⟩, .error e)
  else
    (r, .ok ())

/-- With nothing buffered, a read with room for a whole buffer goes to the source
itself; any other takes from the buffer. -/
def buffered (capacity : Nat) : Source (BufReader σ α) α E where
  read r n :=
    if r.buf.isEmpty && capacity ≤ n then
      let (inner, answer) := src.read r.inner n
      (⟨inner, []⟩, answer)
    else
      match src.fill_buf capacity r with
      | (r, .ok ()) => ({ r with buf := r.buf.drop n }, .ok ⟨r.buf.take n, List.length_take_le n r.buf⟩)
      | (r, .error e) => (r, .error e)

/-- What is left in the buffer comes before what the source has. -/
def ahead (rest : σ → Rest α E) (r : BufReader σ α) : Rest α E :=
  { rest r.inner with elements := r.buf ++ (rest r.inner).elements }

variable {src} {rest : σ → Rest α E}

theorem fill_buf_full (capacity : Nat) {r : BufReader σ α} (h : r.buf ≠ []) :
    src.fill_buf capacity r = (r, .ok ()) := by
  unfold fill_buf
  simp [h]

/-- Filling the buffer changes nothing that is to come, and then the buffer is empty
at the end only. -/
theorem Spells.fill_buf (h : src.Spells rest) {capacity : Nat} (hcapacity : 0 < capacity) (r : BufReader σ α) :
    ((src.fill_buf capacity r).2 = .ok () ∧ (src.fill_buf capacity r).1.buf ≠ [] ∧
      ahead rest (src.fill_buf capacity r).1 = ahead rest r) ∨
    ((ahead rest r).elements = [] ∧ (src.fill_buf capacity r).1.buf = [] ∧
      (src.fill_buf capacity r).2 = (ahead rest r).ending) := by
  by_cases hempty : r.buf = []
  · unfold Source.fill_buf ahead
    simp only [hempty, List.isEmpty_nil, if_true, List.nil_append]
    rcases h r.inner capacity hcapacity with ⟨piece, hread, hpiece, hrest⟩ | ⟨hdone, hread⟩
    · left
      rcases hstep : src.read r.inner capacity with ⟨inner, answer⟩
      rw [hstep] at hread hrest
      subst hread
      exact ⟨rfl, hpiece, hrest.symm⟩
    · right
      rcases hstep : src.read r.inner capacity with ⟨inner, answer⟩
      rw [hstep] at hread
      subst hread
      refine ⟨hdone, ?_⟩
      cases (rest r.inner).ending with
      | ok u => exact ⟨rfl, rfl⟩
      | error e => exact ⟨rfl, rfl⟩
  · left
    rw [fill_buf_full capacity hempty]
    exact ⟨rfl, hempty, rfl⟩

/-- A buffer of any capacity spells what the source under it spells. -/
theorem Spells.buffered (h : src.Spells rest) {capacity : Nat} (hcapacity : 0 < capacity) :
    (src.buffered capacity).Spells (ahead rest) := by
  intro r n hn
  unfold Source.buffered
  dsimp only
  by_cases hpast : r.buf.isEmpty && capacity ≤ n
  · -- the source answers
    rw [if_pos hpast]
    have hempty : r.buf = [] := by simpa using (Bool.and_eq_true_iff.1 hpast).1
    unfold ahead
    simp only [hempty, List.nil_append]
    exact h r.inner n hn
  · rw [if_neg hpast]
    rcases h.fill_buf hcapacity r with ⟨hok, hbuf, hsame⟩ | ⟨hdone, hbuf, hend⟩
    · left
      rcases hstep : src.fill_buf capacity r with ⟨r', filled⟩
      rw [hstep] at hok hbuf hsame
      subst hok
      refine ⟨_, rfl, ?_, ?_⟩
      · simp [hbuf, Nat.ne_of_gt hn]
      · rw [← hsame]
        simp [ahead, ← List.append_assoc]
    · right
      rcases hstep : src.fill_buf capacity r with ⟨r', filled⟩
      rw [hstep] at hbuf hend
      subst hend
      refine ⟨hdone, ?_⟩
      cases hending : (ahead rest r).ending with
      | ok u =>
        have hnone : r'.buf = [] := hbuf
        simp [hnone, Except.map, Piece.none]
      | error e => rfl

/-- Reads with room for the whole buffer never fill it. -/
theorem after_buffered {capacity n : Nat} (h : capacity ≤ n) (s : σ) (k : Nat) :
    (src.buffered capacity).after n ⟨s, []⟩ k = ⟨src.after n s k, []⟩ := by
  induction k generalizing s with
  | zero => rfl
  | succ k ih =>
    rw [after_succ, after_succ, ← ih]
    simp [buffered, h]

theorem answer_buffered {capacity n : Nat} (h : capacity ≤ n) (s : σ) (k : Nat) :
    (src.buffered capacity).answer n ⟨s, []⟩ k = src.answer n s k := by
  unfold answer
  rw [after_buffered h]
  simp [buffered, h]

end Source

end HashLib
