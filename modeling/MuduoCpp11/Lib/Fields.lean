import Mathlib.Data.List.DropRight
import Mathlib.Tactic

/-! # Named fields in text

Text of the form `name separator value`, line after line, read into a map. The name ends at the first
separator (`append_cons_inj`); the value is trimmed, which is a matter of the text alone and not of
the loops that do it (`isTrim_iff`); of two fields with one name the last counts
(`getElem?_foldl_insert`). The fields of a map, entered one by one, are the map
(`foldl_insert_toList`). -/

namespace MuduoCpp11.Lib.Fields

/-! ### The first separator -/

section separator

variable {α : Type*} {x : α}

theorem idxOf_append_cons [BEq α] [LawfulBEq α] {l : List α} (h : x ∉ l) (r : List α) :
    (l ++ x :: r).idxOf x = l.length := by
  rw [List.idxOf_append_of_notMem h, List.idxOf_cons_self, Nat.add_zero]

/-- What stands before the first separator, and what behind it, is determined. -/
theorem append_cons_inj {a a' b b' : List α} (ha : x ∉ a) (ha' : x ∉ a')
    (h : a ++ x :: b = a' ++ x :: b') : a = a' ∧ b = b' := by
  classical
  have hlen : a.length = a'.length := by
    rw [← idxOf_append_cons ha b, h, idxOf_append_cons ha']
  obtain ⟨h1, h2⟩ := List.append_inj h hlen
  exact ⟨h1, List.tail_eq_of_cons_eq h2⟩

end separator

/-! ### Trimming -/

section trim

variable {α : Type*} {p : α → Bool}

/-- `v` is `s` without the elements with `p` at its two ends. -/
def IsTrim (p : α → Bool) (s v : List α) : Prop :=
  ∃ w w', s = w ++ v ++ w' ∧ (∀ c ∈ w, p c = true) ∧ (∀ c ∈ w', p c = true) ∧
    (∀ c ∈ v.head?, p c = false) ∧ ∀ c ∈ v.getLast?, p c = false

theorem dropWhile_eq_self {v : List α} (h : ∀ c ∈ v.head?, p c = false) : v.dropWhile p = v := by
  cases v with
  | nil => rfl
  | cons c v => exact List.dropWhile_cons_of_neg (by simpa using h c rfl)

theorem rdropWhile_eq_self {v : List α} (h : ∀ c ∈ v.getLast?, p c = false) :
    v.rdropWhile p = v := by
  rw [List.rdropWhile, dropWhile_eq_self (by simpa [List.head?_reverse] using h),
    List.reverse_reverse]

theorem rdropWhile_append_of_pos {v w : List α} (h : ∀ c ∈ w, p c = true) :
    (v ++ w).rdropWhile p = v.rdropWhile p := by
  rw [List.rdropWhile, List.reverse_append,
    List.dropWhile_append_of_pos (by simpa using h), ← List.rdropWhile]

/-- **Trimming** at the front and then at the back. -/
theorem isTrim_iff {s v : List α} : IsTrim p s v ↔ v = (s.dropWhile p).rdropWhile p := by
  constructor
  · rintro ⟨w, w', rfl, hw, hw', hhead, hlast⟩
    rw [List.append_assoc, List.dropWhile_append_of_pos hw]
    cases v with
    | nil =>
      have hnil : w'.dropWhile p = [] := List.dropWhile_eq_nil_iff.mpr hw'
      rw [List.nil_append, hnil, List.rdropWhile_nil]
    | cons c v =>
      -- the front loop stops at `c`, so the back loop never reaches it
      rw [dropWhile_eq_self (by simpa using hhead), rdropWhile_append_of_pos hw',
        rdropWhile_eq_self hlast]
  · rintro rfl
    refine ⟨s.takeWhile p, (s.dropWhile p).rtakeWhile p, ?_, ?_, ?_, ?_, ?_⟩
    · rw [List.append_assoc, List.rdropWhile_append_rtakeWhile, List.takeWhile_append_dropWhile]
    · exact fun c hc => List.mem_takeWhile_imp hc
    · exact fun c hc => List.mem_rtakeWhile_imp hc
    · intro c hc
      have hfront := List.head?_dropWhile_not p s
      obtain ⟨t, ht⟩ := List.rdropWhile_prefix p (s.dropWhile p)
      rw [← ht, List.head?_append, hc] at hfront
      simpa using hfront
    · intro c hc
      obtain ⟨hne, rfl⟩ := List.mem_getLast?_eq_getLast hc
      simpa using List.rdropWhile_last_not p _ hne

end trim

/-! ### The last binding -/

section bindings

variable {α κ β : Type*} {cmp : κ → κ → Ordering} [Std.TransCmp cmp] [Std.LawfulEqCmp cmp]

/-- **The last binding counts**: entering the fields of a list into a map. -/
theorem getElem?_foldl_insert (f : α → κ × β) {k : κ} {v : β} :
    ∀ (l : List α) (m : Std.ExtTreeMap κ β cmp),
      (l.foldl (fun m a => m.insert (f a).1 (f a).2) m)[k]? = some v ↔
        (∃ pre a post, l = pre ++ a :: post ∧ f a = (k, v) ∧ ∀ b ∈ post, (f b).1 ≠ k) ∨
          (∀ b ∈ l, (f b).1 ≠ k) ∧ m[k]? = some v
  | [], m => by simp
  | a :: l, m => by
    have hcmp : cmp (f a).1 k = .eq ↔ (f a).1 = k := Std.LawfulEqCmp.compare_eq_iff_eq
    rw [List.foldl_cons, getElem?_foldl_insert f l, Std.ExtTreeMap.getElem?_insert]
    constructor
    · rintro (⟨pre, b, post, rfl, hb, hpost⟩ | ⟨hno, hm⟩)
      · exact Or.inl ⟨a :: pre, b, post, rfl, hb, hpost⟩
      · by_cases hk : (f a).1 = k
        · rw [if_pos (hcmp.mpr hk), Option.some.injEq] at hm
          exact Or.inl ⟨[], a, l, rfl, Prod.ext hk hm, hno⟩
        · rw [if_neg (mt hcmp.mp hk)] at hm
          exact Or.inr ⟨List.forall_mem_cons.mpr ⟨hk, hno⟩, hm⟩
    · rintro (⟨pre, b, post, hl, hb, hpost⟩ | ⟨hno, hm⟩)
      · rcases List.cons_eq_append_iff.mp hl with ⟨rfl, hpost'⟩ | ⟨pre, rfl, rfl⟩
        · obtain ⟨rfl, rfl⟩ := List.cons.inj hpost'
          exact Or.inr ⟨hpost, by rw [if_pos (hcmp.mpr (by rw [hb])), hb]⟩
        · exact Or.inl ⟨pre, b, post, rfl, hb, hpost⟩
      · obtain ⟨hk, hno⟩ := List.forall_mem_cons.mp hno
        exact Or.inr ⟨hno, by rw [if_neg (mt hcmp.mp hk)]; exact hm⟩

/-- The fields of a map, entered one by one. -/
theorem foldl_insert_toList (m : Std.ExtTreeMap κ β cmp) :
    m.toList.foldl (fun m a => m.insert a.1 a.2) ∅ = m := by
  refine Std.ExtTreeMap.ext_getElem? fun k => Option.ext fun v => ?_
  rw [getElem?_foldl_insert (fun a => a)]
  constructor
  · rintro (⟨pre, a, post, hl, rfl, -⟩ | ⟨-, hm⟩)
    · rw [← Std.ExtTreeMap.mem_toList_iff_getElem?_eq_some, hl]
      simp
    · simp at hm
  · intro hv
    obtain ⟨pre, post, hl⟩ :=
      List.append_of_mem (Std.ExtTreeMap.mem_toList_iff_getElem?_eq_some.mpr hv)
    refine Or.inl ⟨pre, (k, v), post, hl, rfl, fun b hb hk => ?_⟩
    have hdistinct := m.distinct_keys_toList
    rw [hl, List.pairwise_append, List.pairwise_cons] at hdistinct
    exact hdistinct.2.1.1 b hb (Std.LawfulEqCmp.compare_eq_iff_eq.mpr hk.symm)

end bindings

end MuduoCpp11.Lib.Fields
