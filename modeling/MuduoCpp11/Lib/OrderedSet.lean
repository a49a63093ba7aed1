import Mathlib.Data.List.Sort
import Mathlib.Data.List.TakeWhile
import Mathlib.Tactic

/-! # Ordered sets

A `std::set` over a linear order, kept as the strictly increasing list that its iterators walk. The
operations return what the library's do: `insert` says whether the key was new, `erase` says how many
keys it removed, `lowerBound` splits the set at the first key that is not smaller. -/

namespace MuduoCpp11.Lib

structure OrderedSet (α : Type*) [LinearOrder α] where
  toList : List α := []
  sorted : toList.Pairwise (· < ·) := by exact List.Pairwise.nil

namespace OrderedSet

variable {α : Type*} [LinearOrder α]

instance : EmptyCollection (OrderedSet α) := ⟨{}⟩

instance : Membership α (OrderedSet α) := ⟨fun s x => x ∈ s.toList⟩

instance (s : OrderedSet α) (x : α) : Decidable (x ∈ s) := inferInstanceAs (Decidable (x ∈ s.toList))

variable (s : OrderedSet α) (x : α)

def size : ℕ := s.toList.length

/-- The key `begin()` points to, if the set is not empty. -/
def begin? : Option α := s.toList.head?

theorem mem_toList {s : OrderedSet α} {x : α} : x ∈ s.toList ↔ x ∈ s := Iff.rfl

@[simp] theorem not_mem_empty (x : α) : x ∉ (∅ : OrderedSet α) := List.not_mem_nil

@[simp] theorem size_empty : (∅ : OrderedSet α).size = 0 := rfl

theorem nodup : s.toList.Nodup := s.sorted.imp ne_of_lt

/-- A set is known by its keys. -/
theorem ext_mem {s t : OrderedSet α} (h : ∀ x, x ∈ s ↔ x ∈ t) : s = t := by
  obtain ⟨l, hl⟩ := s
  obtain ⟨l', hl'⟩ := t
  obtain rfl : l = l' := hl.eq_of_mem_iff hl' h
  rfl

/-! ### Insertion -/

theorem pairwise_orderedInsert {x : α} : ∀ {l : List α}, l.Pairwise (· < ·) → x ∉ l →
    (l.orderedInsert (· ≤ ·) x).Pairwise (· < ·)
  | [], _, _ => by simp
  | y :: l, h, hx => by
    obtain ⟨hy, hl⟩ := List.pairwise_cons.mp h
    obtain ⟨hne, hxl⟩ := not_or.mp (mt List.mem_cons.mpr hx)
    rw [List.orderedInsert_cons]
    split_ifs with hle
    · have hlt : x < y := lt_of_le_of_ne hle hne
      refine List.pairwise_cons.mpr ⟨?_, h⟩
      intro z hz
      rcases List.mem_cons.mp hz with rfl | hz
      · exact hlt
      · exact hlt.trans (hy z hz)
    · refine List.pairwise_cons.mpr ⟨?_, pairwise_orderedInsert hl hxl⟩
      intro z hz
      rcases (List.mem_orderedInsert _).mp hz with rfl | hz
      · exact not_le.mp hle
      · exact hy z hz

def insert : OrderedSet α × Bool :=
  if h : x ∈ s.toList then (s, false)
  else (⟨s.toList.orderedInsert (· ≤ ·) x, pairwise_orderedInsert s.sorted h⟩, true)

variable {s x}

@[simp] theorem mem_insert {y : α} : y ∈ (s.insert x).1 ↔ y = x ∨ y ∈ s := by
  unfold insert
  split_ifs with h
  · exact ⟨Or.inr, fun hy => hy.elim (fun he => he ▸ h) id⟩
  · exact List.mem_orderedInsert _

theorem insert_snd : (s.insert x).2 = decide (x ∉ s) := by
  unfold insert
  split_ifs with h
  · simpa using mem_toList.mp h
  · simpa using mt mem_toList.mpr h

theorem size_insert (h : x ∉ s) : (s.insert x).1.size = s.size + 1 := by
  unfold insert
  rw [dif_neg (mt mem_toList.mp h)]
  exact List.orderedInsert_length _ _ _

/-! ### Removal -/

variable (s x)

def erase : OrderedSet α × ℕ :=
  (⟨s.toList.erase x, s.sorted.sublist List.erase_sublist⟩, if x ∈ s then 1 else 0)

variable {s x}

@[simp] theorem mem_erase {y : α} : y ∈ (s.erase x).1 ↔ y ≠ x ∧ y ∈ s :=
  s.nodup.mem_erase_iff

@[simp] theorem erase_snd : (s.erase x).2 = if x ∈ s then 1 else 0 := rfl

theorem size_erase (h : x ∈ s) : (s.erase x).1.size + 1 = s.size :=
  List.length_erase_add_one h

/-! ### The first key -/

theorem begin?_eq_none : s.begin? = none ↔ ∀ y, y ∉ s := by
  unfold begin?
  rw [List.head?_eq_none_iff, List.eq_nil_iff_forall_not_mem]
  rfl

theorem begin?_eq_some {b : α} : s.begin? = some b ↔ b ∈ s ∧ ∀ y ∈ s, b ≤ y := by
  unfold begin?
  constructor
  · intro h
    obtain ⟨l, hl⟩ := List.head?_eq_some_iff.mp h
    have hs := s.sorted
    rw [hl] at hs
    refine ⟨by simp [← mem_toList, hl], fun y hy => ?_⟩
    rw [← mem_toList, hl] at hy
    rcases List.mem_cons.mp hy with rfl | hy
    · exact le_rfl
    · exact ((List.pairwise_cons.mp hs).1 y hy).le
  · rintro ⟨hb, hmin⟩
    cases hl : s.toList with
    | nil => simp [← mem_toList, hl] at hb
    | cons c l =>
      have hc : c ∈ s := by simp [← mem_toList, hl]
      have hs := s.sorted
      rw [hl] at hs
      rw [← mem_toList, hl] at hb
      rcases List.mem_cons.mp hb with rfl | hb
      · rfl
      · exact absurd (hmin c hc) (not_le.mpr ((List.pairwise_cons.mp hs).1 b hb))

theorem begin?_mem {b : α} (h : s.begin? = some b) : b ∈ s := (begin?_eq_some.mp h).1

theorem begin?_le {b y : α} (h : s.begin? = some b) (hy : y ∈ s) : b ≤ y :=
  (begin?_eq_some.mp h).2 y hy

theorem exists_begin? (h : x ∈ s) : ∃ b, s.begin? = some b := by
  cases hb : s.begin? with
  | none => exact absurd h (begin?_eq_none.mp hb x)
  | some b => exact ⟨b, rfl⟩

/-! ### The lower bound -/

variable (s x)

/-- The keys before `lower_bound(x)`, and the set that begins there. -/
def lowerBound : List α × OrderedSet α :=
  (s.toList.takeWhile (· < x), ⟨s.toList.dropWhile (· < x),
    s.sorted.sublist (List.dropWhile_sublist _)⟩)

variable {s x}

theorem lowerBound_append : (s.lowerBound x).1 ++ (s.lowerBound x).2.toList = s.toList :=
  List.takeWhile_append_dropWhile

theorem size_lowerBound : (s.lowerBound x).1.length + (s.lowerBound x).2.size = s.size := by
  rw [size, size, ← List.length_append, lowerBound_append]

theorem lowerBound_sorted : (s.lowerBound x).1.Pairwise (· < ·) :=
  s.sorted.sublist (List.takeWhile_sublist _)

theorem le_of_mem_dropWhile {y : α} : ∀ {l : List α}, l.Pairwise (· < ·) →
    y ∈ l.dropWhile (· < x) → x ≤ y
  | [], _, hy => by simp at hy
  | z :: l, h, hy => by
    rw [List.dropWhile_cons] at hy
    split_ifs at hy with hz
    · exact le_of_mem_dropWhile (List.pairwise_cons.mp h).2 hy
    · have hxz : x ≤ z := by simpa using hz
      rcases List.mem_cons.mp hy with rfl | hy
      · exact hxz
      · exact hxz.trans ((List.pairwise_cons.mp h).1 y hy).le

theorem mem_lowerBound_fst {y : α} : y ∈ (s.lowerBound x).1 ↔ y ∈ s ∧ y < x := by
  constructor
  · intro hy
    exact ⟨(List.takeWhile_sublist _).mem hy, by simpa using List.mem_takeWhile_imp hy⟩
  · rintro ⟨hy, hlt⟩
    rw [← mem_toList, ← lowerBound_append (s := s) (x := x), List.mem_append] at hy
    rcases hy with hy | hy
    · exact hy
    · exact absurd hlt (not_lt.mpr (le_of_mem_dropWhile s.sorted hy))

theorem mem_lowerBound_snd {y : α} : y ∈ (s.lowerBound x).2 ↔ y ∈ s ∧ x ≤ y := by
  constructor
  · intro hy
    exact ⟨(List.dropWhile_sublist _).mem hy, le_of_mem_dropWhile s.sorted hy⟩
  · rintro ⟨hy, hle⟩
    rw [← mem_toList, ← lowerBound_append (s := s) (x := x), List.mem_append] at hy
    rcases hy with hy | hy
    · exact absurd (mem_lowerBound_fst.mp hy).2 (not_lt.mpr hle)
    · exact hy

end OrderedSet

end MuduoCpp11.Lib
