import Mathlib.Tactic

/-! # Condition variables

A condition variable knows the threads that wait on it, and those of them that have been notified and
have not resumed yet. `notify_one` moves one waiting thread, if there is any; which one is not the
caller's choice, so it takes a number that picks it. A spurious wakeup lets a waiting thread go
without a notification. -/

namespace MuduoCpp11.Lib

structure Condition (α : Type*) where
  waiting : List α := []
  notified : List α := []
  deriving DecidableEq, Repr

namespace Condition

variable {α : Type*}

section
variable (c : Condition α)

def wait (a : α) : Condition α := { c with waiting := c.waiting ++ [a] }

def notifyOne (i : ℕ) : Condition α :=
  match c.waiting[i % c.waiting.length]? with
  | none => c
  | some a => ⟨c.waiting.eraseIdx (i % c.waiting.length), c.notified ++ [a]⟩

def notifyAll : Condition α := ⟨[], c.notified ++ c.waiting⟩

variable [DecidableEq α]

/-- A waiting thread wakes up without a notification. -/
def wakeup (a : α) : Condition α := { c with waiting := c.waiting.erase a }

/-- A thread that waits no longer takes the mutex again. -/
def resume (a : α) : Condition α := { c with notified := c.notified.erase a }

end

/-- The threads of the condition variable. -/
def threads (c : Condition α) : List α := c.waiting ++ c.notified

/-- No thread waits twice, and none that waits has been notified. -/
def WellFormed (c : Condition α) : Prop := c.threads.Nodup

variable {c : Condition α} {a b : α} {i : ℕ}

theorem mem_threads : a ∈ c.threads ↔ a ∈ c.waiting ∨ a ∈ c.notified := List.mem_append

theorem length_threads : c.threads.length = c.waiting.length + c.notified.length :=
  List.length_append

/-! ### The notifications -/

theorem notifyOne_of_nil (h : c.waiting = []) : c.notifyOne i = c := by
  unfold notifyOne
  simp [h]

/-- Where some thread waits, one is moved. -/
theorem notifyOne_of_ne_nil (h : c.waiting ≠ []) : ∃ l a r, c.waiting = l ++ a :: r ∧
    c.notifyOne i = ⟨l ++ r, c.notified ++ [a]⟩ := by
  have hlt : i % c.waiting.length < c.waiting.length :=
    Nat.mod_lt _ (List.length_pos_iff.mpr h)
  refine ⟨c.waiting.take (i % c.waiting.length), c.waiting[i % c.waiting.length],
    c.waiting.drop (i % c.waiting.length + 1), ?_, ?_⟩
  · rw [List.cons_getElem_drop_succ, List.take_append_drop]
  · unfold notifyOne
    rw [List.getElem?_eq_getElem hlt]
    simp [List.eraseIdx_eq_take_drop_succ]

theorem notifyOne_threads : (c.notifyOne i).threads.Perm c.threads := by
  rcases eq_or_ne c.waiting [] with h | h
  · rw [notifyOne_of_nil h]
  · obtain ⟨l, a, r, hw, he⟩ := notifyOne_of_ne_nil (i := i) h
    unfold threads
    rw [he, hw]
    have hmove : (r ++ (c.notified ++ [a])).Perm (a :: r ++ c.notified) := by
      rw [← List.append_assoc, List.cons_append]
      exact List.perm_append_singleton _ _
    simpa using hmove.append_left l

theorem mem_notifyOne : b ∈ (c.notifyOne i).threads ↔ b ∈ c.threads := notifyOne_threads.mem_iff

theorem notifyOne_waiting_subset (h : b ∈ (c.notifyOne i).waiting) : b ∈ c.waiting := by
  rcases eq_or_ne c.waiting [] with hnil | hne
  · rwa [notifyOne_of_nil hnil] at h
  · obtain ⟨l, a, r, hw, he⟩ := notifyOne_of_ne_nil (i := i) hne
    rw [he] at h
    rw [hw]
    rcases List.mem_append.mp h with h | h
    · exact List.mem_append_left _ h
    · exact List.mem_append_right _ (List.mem_cons_of_mem _ h)

theorem WellFormed.notifyOne (h : c.WellFormed) : (c.notifyOne i).WellFormed :=
  notifyOne_threads.nodup_iff.mpr h

/-- While some thread waits, every notification is one more in flight. -/
theorem length_notifyOne (h : c.waiting ≠ []) :
    (c.notifyOne i).notified.length = c.notified.length + 1 := by
  obtain ⟨l, a, r, -, he⟩ := notifyOne_of_ne_nil (i := i) h
  rw [he]
  simp

/-- The thread that is picked waits no longer. -/
theorem WellFormed.exists_notifyOne (h : c.WellFormed) (hne : c.waiting ≠ []) :
    ∃ a ∈ c.waiting, a ∉ (c.notifyOne i).waiting := by
  obtain ⟨l, a, r, hw, he⟩ := notifyOne_of_ne_nil (i := i) hne
  refine ⟨a, by simp [hw], ?_⟩
  have hnodup : (l ++ a :: r).Nodup := hw ▸ (List.nodup_append.mp h).1
  rw [he]
  exact (List.nodup_middle.mp hnodup).notMem

theorem notifyAll_threads : c.notifyAll.threads.Perm c.threads := by
  show (c.notified ++ c.waiting).Perm (c.waiting ++ c.notified)
  exact List.perm_append_comm

theorem mem_notifyAll : b ∈ c.notifyAll.threads ↔ b ∈ c.threads := notifyAll_threads.mem_iff

theorem WellFormed.notifyAll (h : c.WellFormed) : c.notifyAll.WellFormed :=
  notifyAll_threads.nodup_iff.mpr h

/-! ### The threads that wait and resume -/

theorem WellFormed.wait (h : c.WellFormed) (ha : a ∉ c.threads) : (c.wait a).WellFormed := by
  show (c.waiting ++ [a] ++ c.notified).Nodup
  rw [List.append_assoc, List.singleton_append, List.nodup_middle]
  exact List.nodup_cons.mpr ⟨ha, h⟩

theorem mem_wait : b ∈ (c.wait a).threads ↔ b = a ∨ b ∈ c.threads := by
  simp [threads, Condition.wait, or_left_comm]

section
variable [DecidableEq α]

theorem wakeup_waiting_subset (h : b ∈ (c.wakeup a).waiting) : b ∈ c.waiting := List.mem_of_mem_erase h

theorem mem_wakeup (h : b ∈ (c.wakeup a).threads) : b ∈ c.threads := by
  rcases mem_threads.mp h with h | h
  · exact mem_threads.mpr (Or.inl (wakeup_waiting_subset h))
  · exact mem_threads.mpr (Or.inr h)

theorem WellFormed.wakeup (h : c.WellFormed) : (c.wakeup a).WellFormed :=
  h.sublist (List.erase_sublist.append_right _)

theorem WellFormed.resume (h : c.WellFormed) : (c.resume a).WellFormed :=
  h.sublist (List.erase_sublist.append_left _)

theorem mem_resume (h : b ∈ (c.resume a).threads) : b ∈ c.threads := by
  rcases mem_threads.mp h with h | h
  · exact mem_threads.mpr (Or.inl h)
  · exact mem_threads.mpr (Or.inr (List.mem_of_mem_erase h))

/-- A thread that resumes is with the condition variable no more. -/
theorem WellFormed.notMem_resume (h : c.WellFormed) (ha : a ∉ c.waiting) : a ∉ (c.resume a).threads := by
  intro hmem
  rcases mem_threads.mp hmem with hmem | hmem
  · exact ha hmem
  · exact (List.nodup_append.mp h).2.1.not_mem_erase hmem

theorem length_resume : c.notified.length ≤ (c.resume a).notified.length + 1 := by
  show c.notified.length ≤ (c.notified.erase a).length + 1
  rw [List.length_erase]
  split_ifs <;> omega

end

end Condition

end MuduoCpp11.Lib
