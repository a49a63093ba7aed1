import Mathlib.Tactic

/-! # The first occurrence of a pattern in a list

`search pat l` is the offset of the first occurrence of `pat` in `l`, and `l.length` if there is
none: the result of C++'s `std::search` as an offset. `cut pat l` splits `l` at that occurrence.

A list `l` is a *segment* when the first occurrence of the pattern in `l ++ pat` is the appended one;
`cut pat l = some (a, b)` means exactly that `a` is a segment and `l = a ++ pat ++ b` (`cut_eq_some`).
What is appended behind an occurrence does not move it (`cut_append`). -/

namespace MuduoCpp11.Lib.Search

variable {α : Type*} [DecidableEq α] {pat : List α}

/-- The offset of the first occurrence of `pat`, the length of the list if there is none. -/
def search (pat : List α) : List α → ℕ
  | [] => 0
  | a :: l => if pat <+: a :: l then 0 else search pat l + 1

theorem search_le : ∀ l : List α, search pat l ≤ l.length
  | [] => le_rfl
  | a :: l => by
    have := search_le l
    unfold search
    split_ifs <;> simp; omega

/-- A found occurrence is one. -/
theorem pref_drop_search : ∀ {l : List α}, search pat l < l.length → pat <+: l.drop (search pat l)
  | [], h => by simp [search] at h
  | a :: l, h => by
    unfold search at h ⊢
    split_ifs at h ⊢ with hp
    · simpa using hp
    · simpa using pref_drop_search (l := l) (by simpa using h)

/-- No occurrence comes before it. -/
theorem not_pref_of_lt_search : ∀ {l : List α} {j : ℕ}, j < search pat l → ¬ pat <+: l.drop j
  | [], j, h => by simp [search] at h
  | a :: l, j, h => by
    unfold search at h
    split_ifs at h with hp
    · omega
    · cases j with
      | zero => simpa using hp
      | succ j => simpa using not_pref_of_lt_search (l := l) (j := j) (by omega)

/-- The offset is determined by the two properties. -/
theorem search_eq : ∀ {l : List α} {k : ℕ}, pat <+: l.drop k → k ≤ l.length →
    (∀ j < k, ¬ pat <+: l.drop j) → search pat l = k
  | [], k, _, hk, _ => by simp only [search]; simp at hk; omega
  | a :: l, 0, h, _, _ => by simp [search, show pat <+: a :: l by simpa using h]
  | a :: l, k + 1, h, hk, hno => by
    have h0 : ¬ pat <+: a :: l := by simpa using hno 0 (by omega)
    rw [search, if_neg h0]
    have := search_eq (l := l) (k := k) (by simpa using h) (by simpa using hk)
      fun j hj => by simpa using hno (j + 1) (by omega)
    omega

omit [DecidableEq α] in
/-- The prefix relation at an offset looks at no byte behind the pattern. -/
theorem pref_drop_append {l c : List α} {j : ℕ} (h : j + pat.length ≤ l.length) :
    pat <+: (l ++ c).drop j ↔ pat <+: l.drop j := by
  rw [List.drop_append_of_le_length (by omega)]
  constructor
  · intro hp
    exact List.prefix_of_prefix_length_le hp (List.prefix_append _ _) (by simp; omega)
  · exact fun hp => hp.trans (List.prefix_append _ _)

/-- An occurrence fits into the list. -/
theorem search_add_le {l : List α} (h : search pat l < l.length) :
    search pat l + pat.length ≤ l.length := by
  have := (pref_drop_search h).length_le
  simp at this; omega

theorem search_append {l c : List α} (h : search pat l < l.length) :
    search pat (l ++ c) = search pat l := by
  have hfit := search_add_le h
  refine search_eq ?_ (by simp; omega) fun j hj => ?_
  · rw [pref_drop_append hfit]; exact pref_drop_search h
  · rw [pref_drop_append (by omega)]; exact not_pref_of_lt_search hj

/-! ### Cutting a list at the first occurrence -/

/-- The list before the first occurrence of `pat` and the list behind it. -/
def cut (pat l : List α) : Option (List α × List α) :=
  if search pat l < l.length then
    some (l.take (search pat l), l.drop (search pat l + pat.length))
  else none

/-- The first occurrence of the pattern in `l ++ pat` is the appended one. -/
def IsSegment (pat l : List α) : Prop := search pat (l ++ pat) = l.length

instance (pat l : List α) : Decidable (IsSegment pat l) := inferInstanceAs (Decidable (_ = _))

/-- Without the first element of the pattern. -/
theorem IsSegment.of_not_mem {x : α} {p : List α} : ∀ {l : List α}, x ∉ l → IsSegment (x :: p) l
  | [], _ => by simp [IsSegment, search]
  | a :: l, h => by
    rw [List.mem_cons, not_or] at h
    obtain ⟨hne, hl⟩ := h
    have ih : search (x :: p) (l ++ x :: p) = l.length := IsSegment.of_not_mem hl
    have hno : ¬ x :: p <+: a :: (l ++ x :: p) := fun hp => hne (List.cons_prefix_cons.mp hp).1
    unfold IsSegment
    rw [List.cons_append, search, if_neg hno, ih, List.length_cons]

theorem IsSegment.search_append {l : List α} (h : IsSegment pat l) (hp : pat ≠ []) (r : List α) :
    search pat (l ++ pat ++ r) = l.length := by
  have hlen := List.length_pos_of_ne_nil hp
  rw [Search.search_append (by rw [h]; simp; omega), h]

/-- **The cut**: `l` is the segment, the pattern and the rest. -/
theorem cut_eq_some (hp : pat ≠ []) {l a b : List α} :
    cut pat l = some (a, b) ↔ IsSegment pat a ∧ l = a ++ pat ++ b := by
  have hlen := List.length_pos_of_ne_nil hp
  constructor
  · intro h
    unfold cut at h
    split_ifs at h with hlt
    simp only [Option.some.injEq, Prod.mk.injEq] at h
    obtain ⟨rfl, rfl⟩ := h
    have hfit := search_add_le hlt
    obtain ⟨t, ht⟩ := pref_drop_search hlt
    have hrest : l.drop (search pat l + pat.length) = t := by
      rw [← List.drop_drop, ← ht, List.drop_left]
    have hl : l = l.take (search pat l) ++ pat ++ t := by
      rw [List.append_assoc, ht, List.take_append_drop]
    have htake : (l.take (search pat l)).length = search pat l := by simp; omega
    refine ⟨search_eq ?_ (by simp) fun j hj => ?_, by rw [hrest]; exact hl⟩
    · rw [List.drop_left]
    · rw [htake] at hj
      have hno := not_pref_of_lt_search hj
      rw [hl, pref_drop_append (by simp only [List.length_append, htake]; omega)] at hno
      exact hno
  · rintro ⟨ha, rfl⟩
    have hs := ha.search_append hp b
    unfold cut
    rw [hs, if_pos (by simp; omega)]
    simp

theorem cut_append (hp : pat ≠ []) {l a b : List α} (h : cut pat l = some (a, b)) (c : List α) :
    cut pat (l ++ c) = some (a, b ++ c) := by
  obtain ⟨ha, rfl⟩ := (cut_eq_some hp).mp h
  exact (cut_eq_some hp).mpr ⟨ha, by simp⟩

theorem cut_length_lt (hp : pat ≠ []) {l a b : List α} (h : cut pat l = some (a, b)) :
    b.length < l.length := by
  obtain ⟨-, rfl⟩ := (cut_eq_some hp).mp h
  have := List.length_pos_of_ne_nil hp
  simp; omega

/-- Two ways to begin with a segment and the pattern agree. -/
theorem IsSegment.unique (hp : pat ≠ []) {a a' b b' : List α} (ha : IsSegment pat a)
    (ha' : IsSegment pat a') (h : a ++ pat ++ b = a' ++ pat ++ b') : a = a' ∧ b = b' := by
  have h1 := (cut_eq_some hp (l := a ++ pat ++ b)).mpr ⟨ha, rfl⟩
  have h2 := (cut_eq_some hp (l := a ++ pat ++ b)).mpr ⟨ha', h⟩
  rw [h1] at h2
  simpa using h2

end MuduoCpp11.Lib.Search
