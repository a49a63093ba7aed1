import MuduoCpp11.Net.EventLoop.Loop

/-! # Quit

`Quit` stores `quit_`, and the test of `while (!quit_)` reads it. The loop is published to the other
threads before `Loop` resets the flag, so a store can come before the reset, which then takes it back:
the first test succeeds. Once `Loop` has reset the flag nothing else does, and a store is final. These
two cases are all (`quit_not_lost_iff`). -/

namespace MuduoCpp11.Net.LoopThread

open MuduoCpp11.Lib

variable {F T : Type*} {s s' : LoopThread F T}

/-- The store of `Quit`, on the loop thread or on another one. -/
def Act.isQuit : Act F T → Bool
  | .loop .quit => true
  | .thread _ .quit => true
  | _ => false

/-! ### A store behind the reset -/

/-- `quit_` is set for good, after `p` successful tests. -/
structure Quitting (p : ℕ) (s : LoopThread F T) : Prop where
  quit : s.quit = true
  reset : s.startup = 3
  passed : s.passed = p

variable [DecidableEq T] {act : Act F T}

theorem Quitting.step {p : ℕ} (h : s.Quitting p) (hs : step s act = some s') : s'.Quitting p := by
  have hquit := h.quit
  have hpassed := h.passed
  have hreset := h.reset
  have hreset' : s'.startup = 3 := le_antisymm s'.startup_le (hreset ▸ startup_step hs)
  rcases step_control hs with ⟨-, hp, hq⟩ | ⟨-, hp, hq⟩ | ⟨hpc, -⟩ | ⟨-, -, hq⟩
  · refine ⟨?_, hreset', hp.trans hpassed⟩
    rcases hq with hq | hq
    · exact hq.trans hquit
    · exact hq
  · exact ⟨hq.trans hquit, hreset', hp.trans hpassed⟩
  · simp [startup, hpc] at hreset
  · simp [hquit] at hq

/-- What the store of `Quit` does. -/
theorem step_isQuit (hq : act.isQuit = true) (hs : step s act = some s') :
    s'.quit = true ∧ s'.pc = s.pc ∧ s'.owes = s.owes ∧ s'.passed = s.passed := by
  cases act with
  | loop a =>
    cases a with
    | quit =>
      obtain ⟨-, hs⟩ := Option.ite_none_left_eq_some.mp hs
      obtain ⟨-, hs⟩ := Option.ite_none_right_eq_some.mp hs
      cases hs
      exact ⟨rfl, rfl, rfl, rfl⟩
    | _ => cases hq
  | thread t a =>
    cases a with
    | quit =>
      obtain ⟨-, hs⟩ := Option.ite_none_left_eq_some.mp hs
      obtain ⟨-, hs⟩ := Option.ite_none_right_eq_some.mp hs
      cases hs
      exact ⟨rfl, rfl, rfl, rfl⟩
    | _ => cases hq

/-! ### A store before the reset -/

/-- The loop thread can still go on to a test that succeeds. -/
def Passes (s : LoopThread F T) : Prop :=
  ∃ after s', run s after = some s' ∧ s'.passed = s.passed + 1

theorem Passes.of_step (hs : step s act = some s') (hpassed : s'.passed = s.passed)
    (h : s'.Passes) : s.Passes := by
  obtain ⟨after, t, hr, ht⟩ := h
  refine ⟨act :: after, t, ?_, by omega⟩
  show Run.run LoopThread.step s (act :: after) = some t
  rw [Run.run_cons, hs]
  exact hr

theorem passes_of_entered (hpc : s.pc = .entered) (ho : s.owes = false) : s.Passes := by
  refine ⟨[.loop .resetQuit, .loop .test], { s with pc := .poll, quit := false, passed := s.passed + 1 },
    ?_, rfl⟩
  simp [run, LoopThread.step, LoopThread.loopStep, hpc, ho]

theorem passes_of_published (hpc : s.pc = .published) (ho : s.owes = false) : s.Passes := by
  have hs : step s (.loop .enter) = some { s with pc := .entered, looping := true } := by
    simp [LoopThread.step, LoopThread.loopStep, hpc, ho]
  exact .of_step hs rfl (passes_of_entered rfl ho)

theorem passes_of_created (hpc : s.pc = .created) (ho : s.owes = false) : s.Passes := by
  have hs : step s (.loop .publish) = some { s with pc := .published } := by
    simp [LoopThread.step, LoopThread.loopStep, hpc, ho]
  exact .of_step hs rfl (passes_of_published rfl ho)

/-- Before the reset a successful test is ahead, whatever `quit_` is. -/
theorem passes_of_startup (hstartup : s.startup < 3) : s.Passes := by
  have hpasses : ∀ t : LoopThread F T, t.startup < 3 → t.owes = false → t.Passes := by
    intro t ht ho
    unfold startup at ht
    split at ht
    · exact passes_of_created ‹_› ho
    · exact passes_of_published ‹_› ho
    · exact passes_of_entered ‹_› ho
    · omega
  cases ho : s.owes with
  | false => exact hpasses s hstartup ho
  | true =>
    have hs : step s (.loop .wakeup) = some s.endQueueInLoop := by
      simp [LoopThread.step, ho]
    refine .of_step hs (by rw [endQueueInLoop_eq]) (hpasses _ ?_ (by rw [endQueueInLoop_eq]))
    rwa [startup_of_pc pc_endQueueInLoop]

/-- **A store of `Quit` is not lost if and only if it comes behind the reset of `quit_`** in `Loop`: no
test of `while (!quit_)` succeeds any more. -/
theorem quit_not_lost_iff (hq : act.isQuit = true) (hs : step s act = some s') :
    (∀ after t, run s' after = some t → t.passed = s'.passed) ↔
      s.pc ≠ .created ∧ s.pc ≠ .published ∧ s.pc ≠ .entered := by
  obtain ⟨hquit, hpc, -, -⟩ := step_isQuit hq hs
  have hiff : s'.startup = 3 ↔ s.pc ≠ .created ∧ s.pc ≠ .published ∧ s.pc ≠ .entered := by
    rw [startup_of_pc hpc]
    unfold startup
    split <;> simp_all
  rw [← hiff]
  constructor
  · intro h
    by_contra hne
    have hstartup : s'.startup < 3 := lt_of_le_of_ne s'.startup_le hne
    obtain ⟨after, t, hr, ht⟩ := passes_of_startup hstartup
    have := h after t hr
    omega
  · intro hreset after t hr
    have h : s'.Quitting s'.passed := ⟨hquit, hreset, rfl⟩
    have ht : t.Quitting s'.passed := Run.run_inv (fun _ _ _ hm hp => Quitting.step hp hm) hr h
    exact ht.passed

/-- A thread quits while the loop thread is in Poll. -/
theorem quit_not_lost_in_poll : ∃ s s' : LoopThread ℕ Bool,
    run new [.loop .publish, .loop .enter, .loop .resetQuit, .loop .test] = some s ∧
    step s (.thread true .quit) = some s' ∧ s'.passed = 1 ∧
    ∀ after t, run s' after = some t → t.passed = s'.passed := by
  have hrun : ((run (new : LoopThread ℕ Bool) [.loop .publish, .loop .enter, .loop .resetQuit,
      .loop .test]).bind fun s => (step s (.thread true .quit)).map fun s' => (s.pc, s'.passed)) =
      some (.poll, 1) := by
    decide +kernel
  obtain ⟨s, hr, hs⟩ := Option.bind_eq_some_iff.mp hrun
  obtain ⟨s', hs, hs'⟩ := Option.map_eq_some_iff.mp hs
  simp only [Prod.mk.injEq] at hs'
  refine ⟨s, s', hr, hs, hs'.2, ?_⟩
  exact (quit_not_lost_iff rfl hs).mpr (by simp [hs'.1])

/-- A thread that has the published loop quits before `Loop` resets `quit_`: the test succeeds, and the
loop thread goes to Poll. -/
theorem quit_lost_before_reset : ∃ s s' t : LoopThread ℕ Bool,
    run new [.loop .publish] = some s ∧ step s (.thread true .quit) = some s' ∧
    run s' [.thread true .wakeup, .loop .enter, .loop .resetQuit, .loop .test] = some t ∧
    s'.quit = true ∧ s'.passed = 0 ∧ t.passed = 1 ∧ t.pc = .poll := by
  have hrun : ((run (new : LoopThread ℕ Bool) [.loop .publish]).bind fun s =>
      (step s (.thread true .quit)).bind fun s' =>
        (run s' [.thread true .wakeup, .loop .enter, .loop .resetQuit, .loop .test]).map fun t =>
          (s'.quit, s'.passed, t.passed, t.pc)) = some (true, 0, 1, .poll) := by
    decide +kernel
  obtain ⟨s, hr, h⟩ := Option.bind_eq_some_iff.mp hrun
  obtain ⟨s', hs, h⟩ := Option.bind_eq_some_iff.mp h
  obtain ⟨t, ht, h⟩ := Option.map_eq_some_iff.mp h
  simp only [Prod.mk.injEq] at h
  exact ⟨s, s', t, hr, hs, ht, h⟩

end MuduoCpp11.Net.LoopThread
