import Mathlib
/-!
# Loops that update an array in place

A loop that visits each index at most once leaves at every index what its own
pass wrote there, computed from the value the index had before the loop.
-/

namespace HashLib.Arrays

variable {α ι κ : Type} {m : Nat}

/-- `for k in l { v[idx(k)] = g(k, v[idx(k)]) }` -/
def updateEach (idx : ι → Fin m) (g : ι → α → α) (l : List ι) (v : Vector α m) : Vector α m :=
  l.foldl (fun v k => v.set (idx k) (g k (v.get (idx k)))) v

theorem updateEach_of_notMem (idx : ι → Fin m) (g : ι → α → α) (l : List ι) (v : Vector α m) (i : Fin m)
    (hi : i ∉ l.map idx) : (updateEach idx g l v).get i = v.get i := by
  induction l generalizing v with
  | nil => rfl
  | cons k l ih =>
    simp only [List.map_cons, List.mem_cons, not_or] at hi
    have hne : (idx k).val ≠ i.val := fun h => hi.1 (Fin.ext h.symm)
    calc (updateEach idx g (k :: l) v).get i = (updateEach idx g l (v.set (idx k) (g k (v.get (idx k))))).get i := rfl
      _ = (v.set (idx k) (g k (v.get (idx k)))).get i := ih _ hi.2
      _ = v.get i := Vector.getElem_set_ne _ _ hne

/-- An index visited by pass `k` holds what that pass wrote. -/
theorem updateEach_of_mem (idx : ι → Fin m) (g : ι → α → α) (l : List ι) (v : Vector α m)
    (hl : (l.map idx).Nodup) (k : ι) (hk : k ∈ l) : (updateEach idx g l v).get (idx k) = g k (v.get (idx k)) := by
  induction l generalizing v with
  | nil => cases hk
  | cons k' l ih =>
    simp only [List.map_cons, List.nodup_cons] at hl
    show (updateEach idx g l (v.set (idx k') (g k' (v.get (idx k'))))).get (idx k) = _
    rcases List.mem_cons.1 hk with rfl | hk
    · rw [updateEach_of_notMem _ _ _ _ _ hl.1]
      exact Vector.getElem_set_self _
    · have hne : (idx k').val ≠ (idx k).val := fun h =>
        hl.1 (Fin.ext h ▸ List.mem_map_of_mem hk)
      rw [ih _ hl.2 hk]
      congr 1
      exact Vector.getElem_set_ne _ _ hne

/-- Two nested loops are one loop over the pairs. -/
theorem nested_eq_updateEach (idx : κ → ι → Fin m) (g : κ → ι → α → α) (ks : List κ) (ls : List ι) (v : Vector α m) :
    ks.foldl (fun v k => ls.foldl (fun v l => v.set (idx k l) (g k l (v.get (idx k l)))) v) v =
      updateEach (fun p : κ × ι => idx p.1 p.2) (fun p => g p.1 p.2) (ks.flatMap fun k => ls.map (k, ·)) v := by
  simp only [updateEach, List.foldl_flatMap, List.foldl_map]

/-- The front of an array whose next entry was just written. -/
theorem take_stored {i : Nat} (xs : Vector α m) (x : α) (h : i < m) :
    (xs.set i x).toList.take (i + 1) = xs.toList.take i ++ [x] := by
  rw [Vector.toList_set, List.take_succ_eq_append_getElem (by simpa using h), List.take_set_of_le (Nat.le_refl i),
    List.getElem_set_self]

/-- `xs` with `g` applied to the first `n` entries, each with its index. -/
def mapFirst (n : Nat) (g : Nat → α → α) (xs : Vector α m) : Vector α m :=
  Vector.ofFn fun j => if j.val < n then g j.val (xs.get j) else xs.get j

theorem getElem_mapFirst (n : Nat) (g : Nat → α → α) (xs : Vector α m) (j : Nat) (hj : j < m) :
    (mapFirst n g xs)[j] = if j < n then g j xs[j] else xs[j] := by
  simp [mapFirst, Vector.get_eq_getElem]

theorem mapFirst_zero (g : Nat → α → α) (xs : Vector α m) : mapFirst 0 g xs = xs := by
  refine Vector.ext fun j hj => ?_
  rw [getElem_mapFirst, if_neg (Nat.not_lt_zero j)]

/-- One more entry. -/
theorem mapFirst_succ (n : Nat) (g : Nat → α → α) (xs : Vector α m) (h : n < m) :
    mapFirst (n + 1) g xs = (mapFirst n g xs).set n (g n (mapFirst n g xs)[n]) := by
  refine Vector.ext fun j hj => ?_
  rw [Vector.getElem_set, getElem_mapFirst, getElem_mapFirst, getElem_mapFirst, if_neg (Nat.lt_irrefl n)]
  by_cases hjn : n = j
  · subst hjn
    rw [if_pos rfl, if_pos (Nat.lt_succ_self _)]
  · rw [if_neg hjn]
    by_cases hlt : j < n
    · rw [if_pos hlt, if_pos (by omega)]
    · rw [if_neg hlt, if_neg (by omega)]

end HashLib.Arrays
