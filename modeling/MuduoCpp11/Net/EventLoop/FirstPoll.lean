import MuduoCpp11.Net.EventLoop.Wakeup

/-! # The first Poll

Before `Loop` is called the loop thread is in user code (a `ThreadInitCallback`, or whatever its owner
does with the loop), and `QueueInLoop` on the loop thread writes the eventfd only while
`calling_pending_functors_` is set. So a functor that the loop thread queues there is not announced to
the first Poll. Another thread announces its own functors, and with them all others: there is one
eventfd for the loop. `first_poll_announced_iff` says when the pending functors are announced. -/

namespace MuduoCpp11.Net.LoopThread

open MuduoCpp11.Lib

variable {F T : Type*}

/-- The loop thread queues a functor. -/
def Act.loopPushes : Act F T → Bool
  | .loop (.push _) => true
  | _ => false

/-- Another thread queues a functor. -/
def Act.threadPushes : Act F T → Bool
  | .thread _ (.push _) => true
  | _ => false

/-- Another thread writes the eventfd, in `QueueInLoop` or in `Quit`. -/
def Act.threadWakes : Act F T → Bool
  | .thread _ .wakeup => true
  | _ => false

/-- The loop thread has not been through its first Poll. -/
def Opening (s : LoopThread F T) : Prop := s.passed = 0 ∨ s.passed = 1 ∧ s.pc = .poll

/-- The eventfd is readable, or another thread has pushed and not yet written it. -/
def Announced (s : LoopThread F T) : Prop := 0 < s.wakeupFd ∨ ∃ t, s.stage t = .pushed

/-- What the actions up to the first Poll have made of the queue and the eventfd. -/
structure Opened (acts : List (Act F T)) (s : LoopThread F T) : Prop where
  pending : s.loop.pendingFunctors ≠ [] ↔
    acts.any Act.loopPushes = true ∨ acts.any Act.threadPushes = true
  announced : s.Announced ↔ acts.any Act.threadPushes = true ∨ acts.any Act.threadWakes = true

variable {s s' : LoopThread F T} {acts : List (Act F T)}

/-- An action that is neither a push nor a write of the eventfd. -/
theorem Opened.quiet (h : Opened acts s) {act : Act F T} (hl : act.loopPushes = false)
    (hp : act.threadPushes = false) (hw : act.threadWakes = false)
    (hpending : s'.loop.pendingFunctors = s.loop.pendingFunctors) (hwakeupFd : s'.wakeupFd = s.wakeupFd)
    (hstage : ∀ t, s'.stage t = .pushed ↔ s.stage t = .pushed) : Opened (acts ++ [act]) s' where
  pending := by
    rw [hpending, h.pending]
    simp [hl, hp]
  announced := by
    have hsame : s'.Announced ↔ s.Announced := by
      unfold Announced
      simp only [hwakeupFd, hstage]
    rw [hsame, h.announced]
    simp [hp, hw]

/-- Before the first test has succeeded, the loop thread is not in an iteration. -/
def Outside (s : LoopThread F T) : Prop :=
  s.passed = 0 → s.pc ≠ .poll ∧ s.pc ≠ .events ∧ s.pc ≠ .swap ∧ s.pc ≠ .functors

theorem Outside.loopStep (h : s.Outside) {a : LoopAct F} (hs : s.loopStep a = some s') : s'.Outside := by
  cases a with
  | test =>
    obtain ⟨-, hs⟩ := Option.ite_none_right_eq_some.mp hs
    split_ifs at hs
    · cases hs
      exact fun _ => by simp
    · cases hs
      exact fun h0 => absurd h0 (Nat.succ_ne_zero _)
  | poll woken =>
    obtain ⟨hpc, hs⟩ := Option.ite_none_right_eq_some.mp hs
    cases hs
    exact fun h0 => absurd hpc.1 (h h0).1
  | endEvents =>
    obtain ⟨hpc, hs⟩ := Option.ite_none_right_eq_some.mp hs
    cases hs
    exact fun h0 => absurd hpc (h h0).2.1
  | swap =>
    obtain ⟨hpc, hs⟩ := Option.ite_none_right_eq_some.mp hs
    obtain ⟨loop, -, rfl⟩ := Option.map_eq_some_iff.mp hs
    exact fun h0 => absurd hpc (h h0).2.2.1
  | nextFunctor =>
    obtain ⟨-, hs⟩ := Option.ite_none_right_eq_some.mp hs
    obtain ⟨r, -, rfl⟩ := Option.map_eq_some_iff.mp hs
    exact h
  | endFunctors =>
    obtain ⟨-, hs⟩ := Option.ite_none_right_eq_some.mp hs
    obtain ⟨loop, -, rfl⟩ := Option.map_eq_some_iff.mp hs
    exact fun _ => by simp
  | handleRead =>
    obtain ⟨-, hs⟩ := Option.ite_none_right_eq_some.mp hs
    cases hs
    exact h
  | push cb =>
    obtain ⟨-, hs⟩ := Option.ite_none_right_eq_some.mp hs
    cases hs
    exact h
  | wakeup => cases hs
  | quit =>
    obtain ⟨-, hs⟩ := Option.ite_none_right_eq_some.mp hs
    cases hs
    exact h
  | _ =>
    obtain ⟨-, hs⟩ := Option.ite_none_right_eq_some.mp hs
    cases hs
    exact fun _ => by simp

/-- A step of the loop thread up to the first Poll: from its statements, only a push is one of the
queue. -/
theorem Opened.loopStep (h : s.Opening → Opened acts s) (hout : s.Outside) {a : LoopAct F}
    (hs : s.loopStep a = some s') (hopen : s'.Opening) : Opened (acts ++ [.loop a]) s' := by
  -- in an iteration the first Poll is over, or it is the last state before its end
  have hiter : s.pc = .poll ∨ s.pc = .events ∨ s.pc = .swap ∨ s.pc = .functors → s'.passed = s.passed →
      s'.pc ≠ .poll → False := by
    intro hpc hpassed hpc'
    rcases hopen with h0 | ⟨-, hpoll⟩
    · obtain ⟨h1, h2, h3, h4⟩ := hout (hpassed ▸ h0)
      tauto
    · exact hpc' hpoll
  cases a with
  | publish | enter | resetQuit | leave =>
    obtain ⟨-, hs⟩ := Option.ite_none_right_eq_some.mp hs
    cases hs
    exact (h (hopen.imp_right (by simp))).quiet rfl rfl rfl rfl rfl fun _ => Iff.rfl
  | test =>
    obtain ⟨-, hs⟩ := Option.ite_none_right_eq_some.mp hs
    split_ifs at hs
    · cases hs
      exact (h (hopen.imp_right (by simp))).quiet rfl rfl rfl rfl rfl fun _ => Iff.rfl
    · cases hs
      have h0 : s.passed = 0 := by
        rcases hopen with h0 | ⟨h1, -⟩
        · exact absurd h0 (Nat.succ_ne_zero _)
        · exact Nat.succ_injective h1
      exact (h (Or.inl h0)).quiet rfl rfl rfl rfl rfl fun _ => Iff.rfl
  | quit =>
    obtain ⟨-, hs⟩ := Option.ite_none_right_eq_some.mp hs
    cases hs
    exact (h hopen).quiet rfl rfl rfl rfl rfl fun _ => Iff.rfl
  | push cb =>
    obtain ⟨-, hs⟩ := Option.ite_none_right_eq_some.mp hs
    cases hs
    have hl : (Act.loop (.push cb) : Act F T).loopPushes = true := rfl
    have hp : (Act.loop (.push cb) : Act F T).threadPushes = false := rfl
    have hw : (Act.loop (.push cb) : Act F T).threadWakes = false := rfl
    refine ⟨?_, ?_⟩
    · simp [push, EventLoop.push, hl]
    · show s.Announced ↔ _
      rw [(h hopen).announced]
      simp [hp, hw]
  | wakeup => cases hs
  | poll woken =>
    obtain ⟨hpc, hs⟩ := Option.ite_none_right_eq_some.mp hs
    cases hs
    exact (hiter (by simp [hpc.1]) rfl (by simp)).elim
  | handleRead =>
    obtain ⟨hpc, hs⟩ := Option.ite_none_right_eq_some.mp hs
    cases hs
    exact (hiter (by simp [hpc.1]) rfl (by simp [hpc.1])).elim
  | endEvents =>
    obtain ⟨hpc, hs⟩ := Option.ite_none_right_eq_some.mp hs
    cases hs
    exact (hiter (by simp [hpc]) rfl (by simp)).elim
  | swap =>
    obtain ⟨hpc, hs⟩ := Option.ite_none_right_eq_some.mp hs
    obtain ⟨loop, -, rfl⟩ := Option.map_eq_some_iff.mp hs
    exact (hiter (by simp [hpc]) rfl (by simp)).elim
  | nextFunctor =>
    obtain ⟨hpc, hs⟩ := Option.ite_none_right_eq_some.mp hs
    obtain ⟨r, -, rfl⟩ := Option.map_eq_some_iff.mp hs
    exact (hiter (by simp [hpc]) rfl (by simp [hpc])).elim
  | endFunctors =>
    obtain ⟨hpc, hs⟩ := Option.ite_none_right_eq_some.mp hs
    obtain ⟨loop, -, rfl⟩ := Option.map_eq_some_iff.mp hs
    exact (hiter (by simp [hpc]) rfl (by simp)).elim

/-- `QueueInLoop` on the loop thread ends without a write: no functor is being called. -/
theorem Opened.endQueueInLoop (h : Opened acts s) (hcalling : s.loop.callingPendingFunctors = false) :
    Opened (acts ++ [.loop .wakeup]) s.endQueueInLoop := by
  rw [endQueueInLoop_eq]
  refine h.quiet rfl rfl rfl ?_ ?_ fun _ => Iff.rfl
  · simp [hcalling]
  · simp [hcalling]

variable [DecidableEq T] {act : Act F T}

/-- The loop thread stays where it is while another thread makes a step. -/
theorem threadStep_stays {t : T} {a : ThreadAct F} (hs : s.threadStep t a = some s') :
    s'.passed = s.passed ∧ s'.pc = s.pc := by
  cases a with
  | wakeup =>
    obtain ⟨-, hs⟩ := Option.ite_none_left_eq_some.mp hs
    cases hs
    exact ⟨rfl, rfl⟩
  | _ =>
    obtain ⟨-, hs⟩ := Option.ite_none_right_eq_some.mp hs
    cases hs
    exact ⟨rfl, rfl⟩

theorem Outside.step (h : s.Outside) (hs : step s act = some s') : s'.Outside := by
  cases act with
  | loop a =>
    rcases step_loop hs with ⟨-, rfl⟩ | ⟨-, hs⟩
    · rw [endQueueInLoop_eq]
      exact h
    · exact h.loopStep hs
  | thread t a =>
    obtain ⟨-, hs⟩ := Option.ite_none_left_eq_some.mp hs
    obtain ⟨hpassed, hpc⟩ := threadStep_stays hs
    unfold Outside at h ⊢
    rwa [hpassed, hpc]

/-- A step of another thread: what it pushes it announces. -/
theorem Opened.threadStep (h : Opened acts s) {t : T} {a : ThreadAct F}
    (hs : s.threadStep t a = some s') : Opened (acts ++ [.thread t a]) s' := by
  cases a with
  | push cb =>
    obtain ⟨hidle, hs⟩ := Option.ite_none_right_eq_some.mp hs
    cases hs
    have hp : (Act.thread t (.push cb) : Act F T).threadPushes = true := rfl
    refine ⟨?_, ?_⟩
    · simp [push, EventLoop.push, hp]
    · have hpushed : Announced { s.push (some t) cb with stage := Function.update s.stage t .pushed } :=
        Or.inr ⟨t, Function.update_self _ _ _⟩
      simp [hpushed, hp]
  | quit =>
    obtain ⟨hidle, hs⟩ := Option.ite_none_right_eq_some.mp hs
    cases hs
    refine h.quiet rfl rfl rfl rfl rfl fun u => ?_
    rcases eq_or_ne u t with rfl | hne
    · simp [hidle]
    · simp [Function.update_of_ne hne]
  | wakeup =>
    obtain ⟨-, hs⟩ := Option.ite_none_left_eq_some.mp hs
    cases hs
    have hl : (Act.thread t .wakeup : Act F T).loopPushes = false := rfl
    have hp : (Act.thread t .wakeup : Act F T).threadPushes = false := rfl
    have hw : (Act.thread t .wakeup : Act F T).threadWakes = true := rfl
    refine ⟨?_, ?_⟩
    · show s.loop.wakeup.pendingFunctors ≠ [] ↔ _
      rw [show s.loop.wakeup.pendingFunctors = s.loop.pendingFunctors from rfl, h.pending]
      simp [hl, hp]
    · have hwoken : Announced { s.wakeup with stage := Function.update s.stage t .idle } :=
        Or.inl (Nat.succ_pos _)
      simp [hwoken, hw]

theorem Opened.step (h : s.Opening → Opened acts s) (hout : s.Outside) (hcoherent : s.Coherent)
    (hs : step s act = some s') (hopen : s'.Opening) : Opened (acts ++ [act]) s' := by
  cases act with
  | loop a =>
    rcases step_loop hs with ⟨ho, rfl⟩ | ⟨-, hs⟩
    · have ha : a = .wakeup := by
        cases a <;> simp [step, ho] at hs ⊢
      have hopen : s.Opening := by
        unfold Opening at hopen ⊢
        rwa [endQueueInLoop_eq] at hopen
      have hcalling : s.loop.callingPendingFunctors = false := by
        rw [Bool.eq_false_iff]
        intro hc
        have hpc := hcoherent.calling.mp hc
        rcases hopen with h0 | ⟨-, hpoll⟩
        · have := hout h0
          tauto
        · simp [hpoll] at hpc
      rw [ha]
      exact (h hopen).endQueueInLoop hcalling
    · exact Opened.loopStep h hout hs hopen
  | thread t a =>
    obtain ⟨-, hs⟩ := Option.ite_none_left_eq_some.mp hs
    refine Opened.threadStep (h ?_) hs
    obtain ⟨hpassed, hpc⟩ := threadStep_stays hs
    unfold Opening at hopen ⊢
    rwa [hpassed, hpc] at hopen

theorem opened_of_run (hr : run new acts = some s) (hopen : s.Opening) : Opened acts s := by
  have h : s.Coherent ∧ s.Outside ∧ (s.Opening → Opened acts s) := by
    refine Run.run_inv_history
      (P := fun acts s => s.Coherent ∧ s.Outside ∧ (s.Opening → Opened acts s))
      ⟨coherent_new, fun _ => by simp [new], fun _ => ⟨by simp [new], by simp [Announced, new]⟩⟩ ?_ hr
    rintro acts m act s' hs ⟨hcoherent, hout, hopened⟩
    exact ⟨hcoherent.step hs, hout.step hs, Opened.step hopened hout hcoherent hs⟩
  exact h.2.2 hopen

/-- **The first Poll.** In every run, when the loop thread is in its first Poll: pending functors are
announced, by the eventfd or by another thread that has pushed and not yet written it, if and only if
the loop thread has not queued a functor itself, or another thread has queued one or written the
eventfd. -/
theorem first_poll_announced_iff (hr : run new acts = some s) (hpc : s.pc = .poll)
    (hfirst : s.passed = 1) :
    (s.loop.pendingFunctors ≠ [] → 0 < s.wakeupFd ∨ ∃ t, s.stage t = .pushed) ↔
      acts.any Act.loopPushes = false ∨ acts.any Act.threadPushes = true ∨
        acts.any Act.threadWakes = true := by
  have h := opened_of_run hr (Or.inr ⟨hfirst, hpc⟩)
  have hannounced : (0 < s.wakeupFd ∨ ∃ t, s.stage t = .pushed) ↔ _ := h.announced
  rw [h.pending, hannounced, ← Bool.not_eq_true]
  tauto

/-- Another thread queues a functor beside the one of the loop thread, and has not written the eventfd
yet. -/
theorem first_poll_announced_of_thread : ∃ s : LoopThread ℕ Bool,
    run new [.loop (.push 5), .loop .wakeup, .loop .publish, .thread true (.push 6), .loop .enter,
      .loop .resetQuit, .loop .test] = some s ∧
    s.pc = .poll ∧ s.passed = 1 ∧
    (s.loop.pendingFunctors ≠ [] → 0 < s.wakeupFd ∨ ∃ t, s.stage t = .pushed) := by
  obtain ⟨s, hr, hpc, hfirst⟩ : ∃ s : LoopThread ℕ Bool,
      run new [.loop (.push 5), .loop .wakeup, .loop .publish, .thread true (.push 6), .loop .enter,
        .loop .resetQuit, .loop .test] = some s ∧ s.pc = .poll ∧ s.passed = 1 :=
    ⟨_, rfl, by decide, by decide⟩
  exact ⟨s, hr, hpc, hfirst, (first_poll_announced_iff hr hpc hfirst).mpr (by decide)⟩

/-- The loop thread queues a functor before it calls `Loop`: in the first Poll it is pending, the
eventfd is not readable, and no other thread is about to write it. -/
theorem first_poll_unannounced : ∃ s : LoopThread ℕ Bool,
    run new [.loop (.push 5), .loop .wakeup, .loop .publish, .loop .enter, .loop .resetQuit,
      .loop .test] = some s ∧
    s.pc = .poll ∧ s.passed = 1 ∧ s.loop.pendingFunctors ≠ [] ∧ s.wakeupFd = 0 ∧
    ∀ t, s.stage t ≠ .pushed :=
  ⟨_, rfl, by decide, by decide, List.cons_ne_nil _ _, by decide, by decide⟩

end MuduoCpp11.Net.LoopThread
