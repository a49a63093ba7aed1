import MuduoCpp11.Net.EventLoop.Loop

/-! # Wakeups

`HandleRead` clears the eventfd before the queue is swapped, so that a functor that is queued behind
the swap leaves the eventfd readable: another thread writes it behind every push, and the loop thread
does so while `calling_pending_functors_` is set. A functor that the loop thread queues in an event
handler needs no wakeup, since the swap is still to come. So whenever the loop thread comes to Poll
with functors pending, the eventfd is readable or about to become so (`no_lost_wakeup`). -/

namespace MuduoCpp11.Net.LoopThread

open MuduoCpp11.Lib

variable {F T : Type*} {s s' : LoopThread F T}

/-- Where the loop thread is, as far as its flags tell. -/
structure Coherent (s : LoopThread F T) : Prop where
  calling : s.loop.callingPendingFunctors = true ↔ s.pc = .swap ∨ s.pc = .functors
  owes : s.owes = true → s.inUserCode = true

theorem Coherent.of_eq (h : s.Coherent)
    (hcalling : s'.loop.callingPendingFunctors = s.loop.callingPendingFunctors)
    (hpc : s'.pc = s.pc) (howes : s'.owes = true → s.inUserCode = true) : s'.Coherent where
  calling := by rw [hcalling, hpc]; exact h.calling
  owes := by
    unfold inUserCode
    rw [hpc]
    exact howes

/-- A step to another statement, with the flag as it has to be there. -/
theorem Coherent.move
    (hcalling : s'.loop.callingPendingFunctors = true ↔ s'.pc = .swap ∨ s'.pc = .functors)
    (howes : s'.owes = false) : s'.Coherent where
  calling := hcalling
  owes := by simp [howes]

theorem Coherent.loopStep (h : s.Coherent) (ho : s.owes = false) {a : LoopAct F}
    (hs : s.loopStep a = some s') : s'.Coherent := by
  cases a with
  | publish =>
    obtain ⟨hpc, hs⟩ := Option.ite_none_right_eq_some.mp hs
    cases hs
    exact .move (by simp [h.calling, hpc]) ho
  | enter =>
    obtain ⟨hpc, hs⟩ := Option.ite_none_right_eq_some.mp hs
    cases hs
    exact .move (by simp [h.calling, hpc]) ho
  | resetQuit =>
    obtain ⟨hpc, hs⟩ := Option.ite_none_right_eq_some.mp hs
    cases hs
    exact .move (by simp [h.calling, hpc]) ho
  | test =>
    obtain ⟨hpc, hs⟩ := Option.ite_none_right_eq_some.mp hs
    split_ifs at hs
    · cases hs
      exact .move (by simp [h.calling, hpc]) ho
    · cases hs
      exact .move (by simp [h.calling, hpc]) ho
  | poll woken =>
    obtain ⟨hpc, hs⟩ := Option.ite_none_right_eq_some.mp hs
    cases hs
    exact .move (by simp [h.calling, hpc.1]) ho
  | handleRead =>
    obtain ⟨-, hs⟩ := Option.ite_none_right_eq_some.mp hs
    cases hs
    exact h.of_eq rfl rfl h.owes
  | endEvents =>
    obtain ⟨hpc, hs⟩ := Option.ite_none_right_eq_some.mp hs
    cases hs
    exact .move (by simp [EventLoop.callFunctors]) ho
  | swap =>
    obtain ⟨hpc, hs⟩ := Option.ite_none_right_eq_some.mp hs
    obtain ⟨loop, hl, rfl⟩ := Option.map_eq_some_iff.mp hs
    obtain ⟨-, -, -, hcalling⟩ := EventLoop.swapFunctors_spec hl
    exact .move (by simp [hcalling]) ho
  | nextFunctor =>
    obtain ⟨hpc, hs⟩ := Option.ite_none_right_eq_some.mp hs
    obtain ⟨r, hl, rfl⟩ := Option.map_eq_some_iff.mp hs
    obtain ⟨-, -, -, hcalling⟩ := EventLoop.nextFunctor_spec hl
    exact .move (by simp [hcalling, hpc]) ho
  | endFunctors =>
    obtain ⟨-, hs⟩ := Option.ite_none_right_eq_some.mp hs
    obtain ⟨loop, hl, rfl⟩ := Option.map_eq_some_iff.mp hs
    obtain ⟨-, -, hcalling⟩ := EventLoop.endFunctors_spec hl
    exact .move (by simp [hcalling]) ho
  | leave =>
    obtain ⟨hpc, hs⟩ := Option.ite_none_right_eq_some.mp hs
    cases hs
    exact .move (by simp [h.calling, hpc]) ho
  | push cb =>
    obtain ⟨hu, hs⟩ := Option.ite_none_right_eq_some.mp hs
    cases hs
    exact h.of_eq rfl rfl fun _ => hu
  | wakeup => cases hs
  | quit =>
    obtain ⟨-, hs⟩ := Option.ite_none_right_eq_some.mp hs
    cases hs
    exact h.of_eq rfl rfl h.owes

theorem coherent_new : (new : LoopThread F T).Coherent where
  calling := by simp [new]
  owes := by simp [new]

theorem Coherent.endQueueInLoop (h : s.Coherent) : s.endQueueInLoop.Coherent := by
  rw [endQueueInLoop_eq]
  refine h.of_eq ?_ rfl (by simp)
  show (if _ then _ else _ : EventLoop _).callingPendingFunctors = _
  split_ifs
  · rfl
  · rfl

section
variable [DecidableEq T] {act : Act F T} {acts : List (Act F T)}

theorem Coherent.step (h : s.Coherent) (hs : step s act = some s') : s'.Coherent := by
  cases act with
  | loop a =>
    rcases step_loop hs with ⟨-, rfl⟩ | ⟨ho, hs⟩
    · exact h.endQueueInLoop
    · exact h.loopStep ho hs
  | thread t a =>
    obtain ⟨-, hs⟩ := Option.ite_none_left_eq_some.mp hs
    cases a with
    | wakeup =>
      obtain ⟨-, hs⟩ := Option.ite_none_left_eq_some.mp hs
      cases hs
      exact h.of_eq rfl rfl h.owes
    | _ =>
      obtain ⟨-, hs⟩ := Option.ite_none_right_eq_some.mp hs
      cases hs
      exact h.of_eq rfl rfl h.owes

theorem coherent_of_run (hr : run new acts = some s) : s.Coherent :=
  Run.run_inv (fun _ _ _ hs h => Coherent.step h hs) hr coherent_new

end

/-! ### Pending functors are announced -/

/-- If functors are pending, then the eventfd is readable, or a thread is about to write it: another
one behind its push, or the loop thread inside of a functor that has queued another one. -/
def Roused (s : LoopThread F T) : Prop :=
  s.loop.pendingFunctors ≠ [] → 0 < s.wakeupFd ∨ (∃ t, s.stage t = .pushed) ∨
    s.owes = true ∧ s.loop.callingPendingFunctors = true

theorem Roused.mono (h : s.Roused) (hpending : s'.loop.pendingFunctors = s.loop.pendingFunctors)
    (hwakeupFd : s'.wakeupFd = s.wakeupFd)
    (hstage : ∀ t, s.stage t = .pushed → s'.stage t = .pushed)
    (howes : s.owes = true →
      s'.owes = true ∧ s'.loop.callingPendingFunctors = s.loop.callingPendingFunctors) :
    s'.Roused := by
  intro hp
  rw [hpending] at hp
  rcases h hp with hw | ⟨t, ht⟩ | ⟨ho, hc⟩
  · exact Or.inl (hwakeupFd ▸ hw)
  · exact Or.inr (Or.inl ⟨t, hstage t ht⟩)
  · obtain ⟨ho', hc'⟩ := howes ho
    exact Or.inr (Or.inr ⟨ho', hc'.trans hc⟩)

/-- `Loop` has been entered, and on the way from the swap to Poll no functor is pending unnoticed. In
an event handler one may be: the swap comes first. -/
structure Awake (s : LoopThread F T) : Prop where
  coherent : s.Coherent
  entered : 2 ≤ s.startup
  roused : s.pc = .entered ∨ s.pc = .test ∨ s.pc = .poll ∨ s.pc = .functors → s.Roused

/-- User code between the swap and Poll is a functor, and `QueueInLoop` writes the eventfd there. -/
theorem Coherent.calling_of_inUserCode (h : s.Coherent) (hu : s.inUserCode = true)
    (hpc : s.pc = .entered ∨ s.pc = .test ∨ s.pc = .poll ∨ s.pc = .functors) :
    s.loop.callingPendingFunctors = true := by
  unfold inUserCode at hu
  rcases hpc with hpc | hpc | hpc | hpc
  · simp [hpc] at hu
  · simp [hpc] at hu
  · simp [hpc] at hu
  · exact h.calling.mpr (Or.inr hpc)

theorem Awake.roused_loopStep (h : s.Awake) (ho : s.owes = false) {a : LoopAct F}
    (hs : s.loopStep a = some s')
    (hpc' : s'.pc = .entered ∨ s'.pc = .test ∨ s'.pc = .poll ∨ s'.pc = .functors) : s'.Roused := by
  have howes : s.owes = true → s'.owes = true ∧
      s'.loop.callingPendingFunctors = s.loop.callingPendingFunctors := by
    simp [ho]
  cases a with
  | publish =>
    obtain ⟨hpc, -⟩ := Option.ite_none_right_eq_some.mp hs
    have hentered := h.entered
    simp [startup, hpc] at hentered
  | enter =>
    obtain ⟨hpc, -⟩ := Option.ite_none_right_eq_some.mp hs
    have hentered := h.entered
    simp [startup, hpc] at hentered
  | resetQuit =>
    obtain ⟨hpc, hs⟩ := Option.ite_none_right_eq_some.mp hs
    cases hs
    exact (h.roused (by simp [hpc])).mono rfl rfl (fun _ ht => ht) howes
  | test =>
    obtain ⟨hpc, hs⟩ := Option.ite_none_right_eq_some.mp hs
    have hr : s.Roused := h.roused (by simp [hpc])
    split_ifs at hs
    · cases hs
      exact hr.mono rfl rfl (fun _ ht => ht) howes
    · cases hs
      exact hr.mono rfl rfl (fun _ ht => ht) howes
  | swap =>
    obtain ⟨-, hs⟩ := Option.ite_none_right_eq_some.mp hs
    obtain ⟨loop, hl, rfl⟩ := Option.map_eq_some_iff.mp hs
    obtain ⟨-, -, hempty, -⟩ := EventLoop.swapFunctors_spec hl
    intro hp
    exact absurd hempty hp
  | nextFunctor =>
    obtain ⟨hpc, hs⟩ := Option.ite_none_right_eq_some.mp hs
    obtain ⟨r, hl, rfl⟩ := Option.map_eq_some_iff.mp hs
    obtain ⟨-, hpending, -, -⟩ := EventLoop.nextFunctor_spec hl
    exact (h.roused (by simp [hpc])).mono hpending rfl (fun _ ht => ht) howes
  | endFunctors =>
    obtain ⟨hpc, hs⟩ := Option.ite_none_right_eq_some.mp hs
    obtain ⟨loop, hl, rfl⟩ := Option.map_eq_some_iff.mp hs
    obtain ⟨-, hpending, -⟩ := EventLoop.endFunctors_spec hl
    exact (h.roused (by simp [hpc])).mono hpending rfl (fun _ ht => ht) howes
  | push cb =>
    obtain ⟨hu, hs⟩ := Option.ite_none_right_eq_some.mp hs
    cases hs
    intro _
    exact Or.inr (Or.inr ⟨rfl, h.coherent.calling_of_inUserCode hu hpc'⟩)
  | wakeup => cases hs
  | quit =>
    obtain ⟨-, hs⟩ := Option.ite_none_right_eq_some.mp hs
    cases hs
    exact (h.roused hpc').mono rfl rfl (fun _ ht => ht) howes
  | handleRead =>
    obtain ⟨hpc, hs⟩ := Option.ite_none_right_eq_some.mp hs
    cases hs
    simp [hpc.1] at hpc'
  | _ =>
    -- Poll, the end of the events and the end of `Loop` lead out of the part with the condition.
    obtain ⟨-, hs⟩ := Option.ite_none_right_eq_some.mp hs
    cases hs
    simp at hpc'

theorem Awake.roused_endQueueInLoop (h : s.Awake) (ho : s.owes = true)
    (hpc : s.pc = .entered ∨ s.pc = .test ∨ s.pc = .poll ∨ s.pc = .functors) :
    s.endQueueInLoop.Roused := by
  have hc := h.coherent.calling_of_inUserCode (h.coherent.owes ho) hpc
  intro _
  left
  simp [endQueueInLoop_eq, hc]

variable [DecidableEq T] {act : Act F T} {before acts : List (Act F T)}

theorem Awake.step (h : s.Awake) (hs : step s act = some s') : s'.Awake := by
  have hcoherent : s'.Coherent := h.coherent.step hs
  have hentered : 2 ≤ s'.startup := h.entered.trans (startup_step hs)
  cases act with
  | loop a =>
    rcases step_loop hs with ⟨ho, rfl⟩ | ⟨ho, hs⟩
    · refine ⟨hcoherent, hentered, fun hpc => h.roused_endQueueInLoop ho ?_⟩
      rwa [pc_endQueueInLoop] at hpc
    · exact ⟨hcoherent, hentered, h.roused_loopStep ho hs⟩
  | thread t a =>
    obtain ⟨-, hs⟩ := Option.ite_none_left_eq_some.mp hs
    cases a with
    | push cb =>
      obtain ⟨-, hs⟩ := Option.ite_none_right_eq_some.mp hs
      cases hs
      refine ⟨hcoherent, hentered, fun _ _ => Or.inr (Or.inl ⟨t, ?_⟩)⟩
      exact Function.update_self t _ _
    | quit =>
      obtain ⟨hidle, hs⟩ := Option.ite_none_right_eq_some.mp hs
      cases hs
      refine ⟨hcoherent, hentered, fun hpc => (h.roused hpc).mono rfl rfl ?_ fun ho => ⟨ho, rfl⟩⟩
      intro u hu
      have hne : u ≠ t := by
        rintro rfl
        rw [hidle] at hu
        cases hu
      exact (Function.update_of_ne hne _ _).trans hu
    | wakeup =>
      obtain ⟨-, hs⟩ := Option.ite_none_left_eq_some.mp hs
      cases hs
      exact ⟨hcoherent, hentered, fun _ _ => Or.inl (Nat.succ_pos _)⟩

/-- **No wakeup is lost**: from a call of `Loop` on that finds no functor pending, whenever the loop
thread comes to Poll or is in it and functors are pending, the eventfd is readable or another thread
has pushed and not yet written it. -/
theorem no_lost_wakeup {s₀ : LoopThread F T} (hb : run new before = some s₀)
    (hentered : s₀.pc = .entered) (hempty : s₀.loop.pendingFunctors = [])
    (hr : run s₀ acts = some s) (hpc : s.pc = .entered ∨ s.pc = .test ∨ s.pc = .poll)
    (hp : s.loop.pendingFunctors ≠ []) : 0 < s.wakeupFd ∨ ∃ t, s.stage t = .pushed := by
  have h₀ : s₀.Awake :=
    ⟨coherent_of_run hb, by simp [startup, hentered], fun _ hp₀ => absurd hempty hp₀⟩
  have h : s.Awake := Run.run_inv (fun _ _ _ hs hm => Awake.step hm hs) hr h₀
  have hroused : s.Roused := h.roused (by tauto)
  rcases hroused hp with hw | ht | ⟨-, hc⟩
  · exact Or.inl hw
  · exact Or.inr ht
  · have hpc' := h.coherent.calling.mp hc
    rcases hpc with hpc | hpc | hpc <;> simp [hpc] at hpc'

/-- A functor queues another one, and the loop thread comes back to Poll. -/
theorem no_lost_wakeup_of_functor : ∃ s₀ s : LoopThread ℕ Bool,
    run new [.loop .publish, .loop .enter] = some s₀ ∧
    run s₀ [.loop .resetQuit, .loop .test, .thread true (.push 5), .thread true .wakeup,
      .loop (.poll true), .loop .handleRead, .loop .endEvents, .loop .swap, .loop .nextFunctor,
      .loop (.push 7), .loop .wakeup, .loop .endFunctors, .loop .test] = some s ∧
    s.pc = .poll ∧ s.loop.pendingFunctors.map Queued.functor = [7] ∧
    (0 < s.wakeupFd ∨ ∃ t, s.stage t = .pushed) := by
  have hb : ((run (new : LoopThread ℕ Bool) [.loop .publish, .loop .enter]).map fun s =>
      (s.pc, s.loop.pendingFunctors.map Queued.functor)) = some (.entered, []) := by
    decide +kernel
  obtain ⟨s₀, hb, hs₀⟩ := Option.map_eq_some_iff.mp hb
  have hrun : (((run (new : LoopThread ℕ Bool) [.loop .publish, .loop .enter]).bind fun s => run s
      [.loop .resetQuit, .loop .test, .thread true (.push 5), .thread true .wakeup,
      .loop (.poll true), .loop .handleRead, .loop .endEvents, .loop .swap, .loop .nextFunctor,
      .loop (.push 7), .loop .wakeup, .loop .endFunctors, .loop .test]).map fun s =>
      (s.pc, s.loop.pendingFunctors.map Queued.functor)) = some (.poll, [7]) := by
    decide +kernel
  rw [hb, Option.bind_some] at hrun
  obtain ⟨s, hr, hs⟩ := Option.map_eq_some_iff.mp hrun
  simp only [Prod.mk.injEq] at hs₀ hs
  refine ⟨s₀, s, hb, hr, hs.1, hs.2, ?_⟩
  refine no_lost_wakeup hb hs₀.1 (List.map_eq_nil_iff.mp hs₀.2) hr (Or.inr (Or.inr hs.1)) ?_
  intro hp
  simp [hp] at hs

end MuduoCpp11.Net.LoopThread
