import Mathlib.Tactic

/-! # Removal by swapping with the last entry

An array loses its entry at `i` in constant time: the entry is exchanged with the last one, and the
last position is dropped. Nothing moves but the last entry, which is at `i` afterwards. -/

namespace MuduoCpp11.Lib.SwapRemove

variable {α β : Type*} {l : List α} {i j : ℕ} {a b x : α}

/-- The entries at `i` and `j` change places. -/
def swap (l : List α) (i j : ℕ) : List α :=
  match l[i]?, l[j]? with
  | some a, some b => (l.set i b).set j a
  | _, _ => l

def swapRemove (l : List α) (i : ℕ) : List α := (swap l i (l.length - 1)).dropLast

/-- The last entry overwrites the one at `i`. -/
theorem swapRemove_concat (l : List α) (x : α) (i : ℕ) : swapRemove (l ++ [x]) i = l.set i x := by
  have hlast : (l ++ [x])[(l ++ [x]).length - 1]? = some x := by simp
  rcases lt_trichotomy i l.length with hi | rfl | hi
  · have hget : (l ++ [x])[i]? = some l[i] := by
      rw [List.getElem?_append_left hi, List.getElem?_eq_getElem hi]
    simp only [swapRemove, swap, hget, hlast]
    rw [List.set_append_left _ _ hi, List.set_append_right _ _ (by simp)]
    simp
  · rw [List.set_eq_of_length_le le_rfl]
    simp [swapRemove, swap]
  · have hget : (l ++ [x])[i]? = none := by simpa using hi
    simp only [swapRemove, swap, hget]
    rw [List.set_eq_of_length_le hi.le, List.dropLast_concat]

/-- To remove the last entry is to drop it. -/
theorem swapRemove_last (l : List α) : swapRemove l (l.length - 1) = l.dropLast := by
  rcases List.eq_nil_or_concat l with rfl | ⟨l, x, rfl⟩
  · rfl
  · rw [List.concat_eq_append, swapRemove_concat, List.set_eq_of_length_le (by simp)]
    simp

theorem swapRemove_map (f : α → β) (l : List α) (i : ℕ) :
    swapRemove (l.map f) i = (swapRemove l i).map f := by
  rcases List.eq_nil_or_concat l with rfl | ⟨l, x, rfl⟩
  · rfl
  · rw [List.concat_eq_append, List.map_append, List.map_singleton, swapRemove_concat,
      swapRemove_concat, List.map_set]

/-- What is left is what an erasure at `i` leaves, in another order. -/
theorem swapRemove_perm (hi : i < l.length) : (swapRemove l i).Perm (l.eraseIdx i) := by
  rcases List.eq_nil_or_concat l with rfl | ⟨l, x, rfl⟩
  · simp at hi
  rw [List.concat_eq_append, List.length_append, List.length_singleton] at hi
  rw [List.concat_eq_append, swapRemove_concat]
  rcases Nat.lt_succ_iff_lt_or_eq.mp hi with hlt | rfl
  · rw [List.eraseIdx_append_of_lt_length hlt]
    exact (List.set_perm_cons_eraseIdx hlt x).trans (List.perm_append_singleton x _).symm
  · rw [List.eraseIdx_append_of_length_le le_rfl, List.set_eq_of_length_le le_rfl]
    simp

theorem nodup_swapRemove (hnd : l.Nodup) (hi : i < l.length) : (swapRemove l i).Nodup :=
  (swapRemove_perm hi).nodup_iff.mpr (hnd.eraseIdx i)

theorem mem_swapRemove [DecidableEq α] (hnd : l.Nodup) (ha : l[i]? = some a) :
    b ∈ swapRemove l i ↔ b ∈ l ∧ b ≠ a := by
  obtain ⟨hi, rfl⟩ := List.getElem?_eq_some_iff.mp ha
  rw [(swapRemove_perm hi).mem_iff, ← hnd.erase_getElem i hi, hnd.mem_erase_iff, and_comm]

theorem length_swapRemove (hi : i < l.length) : (swapRemove l i).length = l.length - 1 := by
  rw [(swapRemove_perm hi).length_eq, List.length_eraseIdx_of_lt hi]

/-- The last entry is found where the removed one was. -/
theorem getElem?_swapRemove_self (hx : l.getLast? = some x) (hi : i + 1 < l.length) :
    (swapRemove l i)[i]? = some x := by
  obtain ⟨l, rfl⟩ := List.getLast?_eq_some_iff.mp hx
  rw [swapRemove_concat]
  simp only [List.length_append, List.length_singleton, Nat.add_lt_add_iff_right] at hi
  simp [hi]

/-- The entries in between stay. -/
theorem getElem?_swapRemove_of_ne (hji : j ≠ i) (hj : j + 1 < l.length) :
    (swapRemove l i)[j]? = l[j]? := by
  rcases List.eq_nil_or_concat l with rfl | ⟨l, x, rfl⟩
  · simp at hj
  · rw [List.concat_eq_append, List.length_append, List.length_singleton,
      Nat.add_lt_add_iff_right] at hj
    rw [List.concat_eq_append, swapRemove_concat, List.getElem?_set_ne hji.symm,
      List.getElem?_append_left hj]

/-- **Only the last entry moves.** -/
theorem eq_last_or_kept (hnd : l.Nodup) (hi : i < l.length) (hx : l.getLast? = some x)
    (hb : (swapRemove l i)[j]? = some b) :
    (b = x ∧ j = i ∧ i + 1 < l.length) ∨ (b ≠ x ∧ l[j]? = some b) := by
  have hj : j + 1 < l.length := by
    have hlt := (List.getElem?_eq_some_iff.mp hb).1
    rw [length_swapRemove hi] at hlt
    omega
  rcases eq_or_ne j i with rfl | hne
  · rw [getElem?_swapRemove_self hx hj, Option.some.injEq] at hb
    exact Or.inl ⟨hb.symm, rfl, hj⟩
  · rw [getElem?_swapRemove_of_ne hne hj] at hb
    refine Or.inr ⟨?_, hb⟩
    rintro rfl
    rw [List.getLast?_eq_getElem?, ← hb] at hx
    have := (List.getElem?_inj (by omega) hnd).mp hx.symm
    omega

end MuduoCpp11.Lib.SwapRemove
