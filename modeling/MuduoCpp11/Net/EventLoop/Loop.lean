import MuduoCpp11.Lib.Run
import MuduoCpp11.Net.EventLoop

/-! # The loop thread and the other threads

A `LoopThread` is an `EventLoop` with the thread that runs it and any number of other threads that
call `QueueInLoop` and `Quit`. Each statement that another thread can see is a step of its own: the
push under the mutex and the `Wakeup` behind it, the store of `Quit`, the stores and tests of `Loop`,
and the parts of `DoPendingFunctors`. `Loop` is called once, as `EventLoopThread::ThreadFunc` does it,
after the pointer has been published.

Where the loop thread is in user code (before `Loop`, in an event handler or a functor, after `Loop`)
it may call `QueueInLoop` and `Quit` itself. A functor that `RunInLoop` runs at once is not queued.

`functors_in_order`: queued functors are executed once, in the order of the pushes, and not in the
batch in which they were queued. -/

namespace MuduoCpp11.Net

open MuduoCpp11.Lib

/-- The next statement of the loop thread. -/
inductive Pc where
  | created
  | published
  | entered
  | test
  | poll
  | events
  | swap
  | functors
  | leaving
  | returned
  deriving DecidableEq, Repr

/-- Another thread between its push, or its store in `Quit`, and its `Wakeup`. -/
inductive Stage where
  | idle
  | pushed
  | quit
  deriving DecidableEq, Repr

/-- A functor with the thread that queued it (`none` is the loop thread) and the number of swaps
before the push. -/
structure Queued (F T : Type*) where
  functor : F
  thread : Option T
  swaps : ℕ

/-- The call of a queued functor: by which thread, and behind how many swaps. -/
structure Executed (F T : Type*) where
  queued : Queued F T
  thread : Option T
  swaps : ℕ

/-- `wakeupFd` is the counter of the eventfd. `woken`: Poll has reported the wakeup channel. `owes`:
the loop thread is inside of `QueueInLoop`, behind its push. `passed` counts the tests of
`while (!quit_)` that succeeded. -/
structure LoopThread (F T : Type*) where
  loop : EventLoop (Queued F T) := {}
  pc : Pc := .created
  looping : Bool := false
  quit : Bool := false
  wakeupFd : ℕ := 0
  woken : Bool := false
  owes : Bool := false
  stage : T → Stage := fun _ => .idle
  swaps : ℕ := 0
  passed : ℕ := 0
  pushes : List (Queued F T) := []
  executed : List (Executed F T) := []

namespace LoopThread

inductive LoopAct (F : Type*) where
  | publish
  | enter
  | resetQuit
  | test
  | poll (woken : Bool)
  | handleRead
  | endEvents
  | swap
  | nextFunctor
  | endFunctors
  | leave
  | push (cb : F)
  | wakeup
  | quit

inductive ThreadAct (F : Type*) where
  | push (cb : F)
  | quit
  | wakeup

inductive Act (F T : Type*) where
  | loop (a : LoopAct F)
  | thread (t : T) (a : ThreadAct F)

variable {F T : Type*}

section
variable (s : LoopThread F T)

def inUserCode : Bool :=
  s.pc = .created ∨ s.pc = .published ∨ s.pc = .events ∨ s.pc = .functors ∨ s.pc = .returned

/-- The push of a functor by a thread. -/
def push (thread : Option T) (cb : F) : LoopThread F T :=
  { s with
    loop := s.loop.push ⟨cb, thread, s.swaps⟩
    pushes := s.pushes ++ [⟨cb, thread, s.swaps⟩] }

def wakeup : LoopThread F T := { s with loop := s.loop.wakeup, wakeupFd := s.wakeupFd + 1 }

/-- The steps of the loop thread outside of `QueueInLoop`. -/
def loopStep : LoopAct F → Option (LoopThread F T)
  | .publish => if s.pc = .created then some { s with pc := .published } else none
  | .enter => if s.pc = .published then some { s with pc := .entered, looping := true } else none
  | .resetQuit => if s.pc = .entered then some { s with pc := .test, quit := false } else none
  | .test =>
    if s.pc = .test then
      some (if s.quit then { s with pc := .leaving }
        else { s with pc := .poll, passed := s.passed + 1 })
    else none
  | .poll woken =>
    if s.pc = .poll ∧ (woken → 0 < s.wakeupFd) then some { s with pc := .events, woken } else none
  | .handleRead =>
    if s.pc = .events ∧ s.woken then some { s with wakeupFd := 0, woken := false } else none
  | .endEvents =>
    if s.pc = .events then some { s with pc := .swap, loop := s.loop.callFunctors } else none
  | .swap =>
    if s.pc = .swap then s.loop.swapFunctors.map fun loop =>
      { s with pc := .functors, loop, swaps := s.swaps + 1 }
    else none
  | .nextFunctor =>
    if s.pc = .functors then s.loop.nextFunctor.map fun r =>
      { s with loop := r.2, executed := s.executed ++ [⟨r.1, none, s.swaps⟩] }
    else none
  | .endFunctors =>
    if s.pc = .functors then s.loop.endFunctors.map fun loop => { s with pc := .test, loop }
    else none
  | .leave => if s.pc = .leaving then some { s with pc := .returned, looping := false } else none
  | .push cb => if s.inUserCode then some { s.push none cb with owes := true } else none
  | .wakeup => none
  | .quit => if s.inUserCode then some { s with quit := true } else none

/-- The end of `QueueInLoop` on the loop thread. -/
def endQueueInLoop : LoopThread F T :=
  if s.loop.callingPendingFunctors then { s.wakeup with owes := false } else { s with owes := false }

end

section
variable [DecidableEq T] (s : LoopThread F T)

def threadStep (t : T) : ThreadAct F → Option (LoopThread F T)
  | .push cb =>
    if s.stage t = .idle then
      some { s.push (some t) cb with stage := Function.update s.stage t .pushed }
    else none
  | .quit =>
    if s.stage t = .idle then
      some { s with quit := true, stage := Function.update s.stage t .quit }
    else none
  | .wakeup =>
    if s.stage t = .idle then none
    else some { s.wakeup with stage := Function.update s.stage t .idle }

def step : Act F T → Option (LoopThread F T)
  | .loop .wakeup => if s.owes then some s.endQueueInLoop else none
  | .loop a => if s.owes then none else s.loopStep a
  | .thread t a => if s.pc = .created then none else s.threadStep t a

end

def new : LoopThread F T := {}

def run [DecidableEq T] : LoopThread F T → List (Act F T) → Option (LoopThread F T) := Run.run step

variable {s s' : LoopThread F T}

theorem endQueueInLoop_eq : s.endQueueInLoop = { s with
    loop := if s.loop.callingPendingFunctors then s.loop.wakeup else s.loop
    wakeupFd := if s.loop.callingPendingFunctors then s.wakeupFd + 1 else s.wakeupFd
    owes := false } := by
  unfold endQueueInLoop wakeup
  split_ifs
  · rfl
  · rfl

theorem pc_endQueueInLoop : s.endQueueInLoop.pc = s.pc := by rw [endQueueInLoop_eq]

/-- How many of the statements before the first test of `quit_` have been executed. -/
def startup (s : LoopThread F T) : ℕ :=
  match s.pc with
  | .created => 0
  | .published => 1
  | .entered => 2
  | _ => 3

theorem startup_of_pc (h : s'.pc = s.pc) : s'.startup = s.startup := by
  unfold startup
  rw [h]

theorem startup_le (s : LoopThread F T) : s.startup ≤ 3 := by
  unfold startup
  split <;> omega

/-- What a step does to the way of the loop thread: it stays and may set `quit_`, goes on, resets
`quit_`, or passes the test. -/
inductive Control (s s' : LoopThread F T) : Prop
  | stays (pc : s'.pc = s.pc) (passed : s'.passed = s.passed) (quit : s'.quit = s.quit ∨ s'.quit = true)
  | goesOn (startup : s.startup ≤ s'.startup) (passed : s'.passed = s.passed) (quit : s'.quit = s.quit)
  | resets (pc : s.pc = .entered) (pc' : s'.pc = .test)
  | passes (pc : s.pc = .test) (pc' : s'.pc = .poll) (quit : s.quit = false)

theorem loopStep_control {a : LoopAct F} (hs : s.loopStep a = some s') : s.Control s' := by
  cases a with
  | publish =>
    obtain ⟨hpc, hs⟩ := Option.ite_none_right_eq_some.mp hs
    cases hs
    exact .goesOn (by simp [startup, hpc]) rfl rfl
  | enter =>
    obtain ⟨hpc, hs⟩ := Option.ite_none_right_eq_some.mp hs
    cases hs
    exact .goesOn (by simp [startup, hpc]) rfl rfl
  | resetQuit =>
    obtain ⟨hpc, hs⟩ := Option.ite_none_right_eq_some.mp hs
    cases hs
    exact .resets hpc rfl
  | test =>
    obtain ⟨hpc, hs⟩ := Option.ite_none_right_eq_some.mp hs
    split_ifs at hs with hq
    · cases hs
      exact .goesOn s.startup_le rfl rfl
    · cases hs
      exact .passes hpc rfl (by simpa using hq)
  | swap =>
    obtain ⟨-, hs⟩ := Option.ite_none_right_eq_some.mp hs
    obtain ⟨loop, -, rfl⟩ := Option.map_eq_some_iff.mp hs
    exact .goesOn s.startup_le rfl rfl
  | nextFunctor =>
    obtain ⟨-, hs⟩ := Option.ite_none_right_eq_some.mp hs
    obtain ⟨r, -, rfl⟩ := Option.map_eq_some_iff.mp hs
    exact .stays rfl rfl (Or.inl rfl)
  | endFunctors =>
    obtain ⟨-, hs⟩ := Option.ite_none_right_eq_some.mp hs
    obtain ⟨loop, -, rfl⟩ := Option.map_eq_some_iff.mp hs
    exact .goesOn s.startup_le rfl rfl
  | handleRead =>
    obtain ⟨-, hs⟩ := Option.ite_none_right_eq_some.mp hs
    cases hs
    exact .stays rfl rfl (Or.inl rfl)
  | push cb =>
    obtain ⟨-, hs⟩ := Option.ite_none_right_eq_some.mp hs
    cases hs
    exact .stays rfl rfl (Or.inl rfl)
  | wakeup => cases hs
  | quit =>
    obtain ⟨-, hs⟩ := Option.ite_none_right_eq_some.mp hs
    cases hs
    exact .stays rfl rfl (Or.inr rfl)
  | _ =>
    obtain ⟨-, hs⟩ := Option.ite_none_right_eq_some.mp hs
    cases hs
    exact .goesOn s.startup_le rfl rfl

section
variable [DecidableEq T] {act : Act F T}

/-- A step of the loop thread: it ends a `QueueInLoop` if it is in one. -/
theorem step_loop {a : LoopAct F} (hs : step s (.loop a) = some s') :
    s.owes = true ∧ s' = s.endQueueInLoop ∨ s.owes = false ∧ s.loopStep a = some s' := by
  cases ho : s.owes with
  | true =>
    cases a <;> simp only [step, ho, if_true] at hs
    all_goals first | exact Or.inl ⟨rfl, (Option.some.inj hs).symm⟩ | cases hs
  | false =>
    cases a <;> simp only [step, ho, Bool.false_eq_true, if_false] at hs
    all_goals exact Or.inr ⟨rfl, hs⟩

theorem threadStep_control {t : T} {a : ThreadAct F} (hs : s.threadStep t a = some s') :
    s.Control s' := by
  cases a with
  | push cb =>
    obtain ⟨-, hs⟩ := Option.ite_none_right_eq_some.mp hs
    cases hs
    exact .stays rfl rfl (Or.inl rfl)
  | quit =>
    obtain ⟨-, hs⟩ := Option.ite_none_right_eq_some.mp hs
    cases hs
    exact .stays rfl rfl (Or.inr rfl)
  | wakeup =>
    obtain ⟨-, hs⟩ := Option.ite_none_left_eq_some.mp hs
    cases hs
    exact .stays rfl rfl (Or.inl rfl)

theorem step_control (hs : step s act = some s') : s.Control s' := by
  cases act with
  | loop a =>
    rcases step_loop hs with ⟨-, rfl⟩ | ⟨-, hs⟩
    · rw [endQueueInLoop_eq]
      exact .stays rfl rfl (Or.inl rfl)
    · exact loopStep_control hs
  | thread t a =>
    obtain ⟨-, hs⟩ := Option.ite_none_left_eq_some.mp hs
    exact threadStep_control hs

/-- `Loop` is called once. -/
theorem startup_step (hs : step s act = some s') : s.startup ≤ s'.startup := by
  rcases step_control hs with ⟨hpc, -, -⟩ | ⟨hle, -, -⟩ | ⟨hpc, hpc'⟩ | ⟨hpc, hpc', -⟩
  · exact (startup_of_pc hpc).ge
  · exact hle
  · simp [startup, hpc, hpc']
  · simp [startup, hpc, hpc']

end

/-! ### The order of the functors -/

structure InOrder (s : LoopThread F T) : Prop where
  pushes : s.executed.map Executed.queued ++ s.loop.queued = s.pushes
  pending : ∀ q ∈ s.loop.pendingFunctors, q.swaps ≤ s.swaps
  batch : ∀ q ∈ s.loop.functors, q.swaps < s.swaps
  executed : ∀ x ∈ s.executed, x.thread = none ∧ x.queued.swaps < x.swaps

theorem inOrder_new : (new : LoopThread F T).InOrder where
  pushes := rfl
  pending := by simp [new]
  batch := by simp [new]
  executed := by simp [new]

theorem InOrder.of_eq (h : s.InOrder) (hpending : s'.loop.pendingFunctors = s.loop.pendingFunctors)
    (hfunctors : s'.loop.functors = s.loop.functors) (hpushes : s'.pushes = s.pushes)
    (hexecuted : s'.executed = s.executed) (hswaps : s'.swaps = s.swaps) : s'.InOrder where
  pushes := by rw [EventLoop.queued, hpending, hfunctors, hpushes, hexecuted]; exact h.pushes
  pending := by rw [hpending, hswaps]; exact h.pending
  batch := by rw [hfunctors, hswaps]; exact h.batch
  executed := by rw [hexecuted]; exact h.executed

theorem InOrder.push (h : s.InOrder) (thread : Option T) (cb : F) : (s.push thread cb).InOrder where
  pushes := by
    have hq : (s.loop.push ⟨cb, thread, s.swaps⟩).queued = s.loop.queued ++ [⟨cb, thread, s.swaps⟩] := by
      simp [EventLoop.queued, EventLoop.push]
    show s.executed.map Executed.queued ++ (s.loop.push ⟨cb, thread, s.swaps⟩).queued = s.pushes ++ _
    rw [hq, ← List.append_assoc, h.pushes]
  pending := by
    intro q hq
    rcases List.mem_append.mp hq with hq | hq
    · exact h.pending q hq
    · rw [List.mem_singleton.mp hq]
      exact le_rfl
  batch := h.batch
  executed := h.executed

theorem InOrder.swap (h : s.InOrder) {loop : EventLoop (Queued F T)}
    (hs : s.loop.swapFunctors = some loop) (hs' : s'.loop = loop) (hpushes : s'.pushes = s.pushes)
    (hexecuted : s'.executed = s.executed) (hswaps : s'.swaps = s.swaps + 1) : s'.InOrder := by
  obtain ⟨hdone, hfunctors, hpending, -⟩ := EventLoop.swapFunctors_spec hs
  refine ⟨?_, ?_, ?_, hexecuted ▸ h.executed⟩
  · have hp := h.pushes
    rw [EventLoop.queued, hdone, List.nil_append] at hp
    rw [hs', hpushes, hexecuted, ← hp, EventLoop.queued, hfunctors, hpending, List.append_nil]
  · rw [hs', hpending]
    simp
  · rw [hs', hswaps, hfunctors]
    intro q hq
    exact Nat.lt_succ_of_le (h.pending q hq)

theorem InOrder.nextFunctor (h : s.InOrder) {loop : EventLoop (Queued F T)} {q : Queued F T}
    (hs : s.loop.nextFunctor = some (q, loop)) (hs' : s'.loop = loop) (hpushes : s'.pushes = s.pushes)
    (hexecuted : s'.executed = s.executed ++ [⟨q, none, s.swaps⟩]) (hswaps : s'.swaps = s.swaps) :
    s'.InOrder := by
  have hq := EventLoop.queued_nextFunctor hs
  obtain ⟨hfunctors, hpending, -, -⟩ := EventLoop.nextFunctor_spec hs
  refine ⟨?_, ?_, ?_, ?_⟩
  · rw [hs', hexecuted, hpushes, ← h.pushes, hq]
    simp
  · rw [hs', hswaps, hpending]
    exact h.pending
  · rw [hs', hswaps]
    intro x hx
    exact h.batch x (hfunctors ▸ List.mem_cons_of_mem _ hx)
  · rw [hexecuted]
    intro x hx
    rcases List.mem_append.mp hx with hx | hx
    · exact h.executed x hx
    · rw [List.mem_singleton.mp hx]
      exact ⟨rfl, h.batch q (hfunctors ▸ List.mem_cons_self)⟩

theorem InOrder.loopStep (h : s.InOrder) {a : LoopAct F} (hs : s.loopStep a = some s') :
    s'.InOrder := by
  cases a with
  | swap =>
    obtain ⟨-, hs⟩ := Option.ite_none_right_eq_some.mp hs
    obtain ⟨loop, hl, rfl⟩ := Option.map_eq_some_iff.mp hs
    exact h.swap hl rfl rfl rfl rfl
  | nextFunctor =>
    obtain ⟨-, hs⟩ := Option.ite_none_right_eq_some.mp hs
    obtain ⟨r, hl, rfl⟩ := Option.map_eq_some_iff.mp hs
    exact h.nextFunctor hl rfl rfl rfl rfl
  | endFunctors =>
    obtain ⟨-, hs⟩ := Option.ite_none_right_eq_some.mp hs
    obtain ⟨loop, hl, rfl⟩ := Option.map_eq_some_iff.mp hs
    obtain ⟨hfunctors, hpending, -⟩ := EventLoop.endFunctors_spec hl
    exact h.of_eq hpending hfunctors rfl rfl rfl
  | test =>
    obtain ⟨-, hs⟩ := Option.ite_none_right_eq_some.mp hs
    split_ifs at hs
    · cases hs
      exact h.of_eq rfl rfl rfl rfl rfl
    · cases hs
      exact h.of_eq rfl rfl rfl rfl rfl
  | push cb =>
    obtain ⟨-, hs⟩ := Option.ite_none_right_eq_some.mp hs
    cases hs
    exact (h.push none cb).of_eq rfl rfl rfl rfl rfl
  | wakeup => cases hs
  | _ =>
    obtain ⟨-, hs⟩ := Option.ite_none_right_eq_some.mp hs
    cases hs
    exact h.of_eq rfl rfl rfl rfl rfl

variable [DecidableEq T] {act : Act F T} {acts : List (Act F T)}

theorem InOrder.step (h : s.InOrder) (hs : step s act = some s') : s'.InOrder := by
  cases act with
  | loop a =>
    rcases step_loop hs with ⟨-, rfl⟩ | ⟨-, hs⟩
    · rw [endQueueInLoop_eq]
      refine h.of_eq ?_ ?_ rfl rfl rfl
      · show (if _ then _ else _ : EventLoop _).pendingFunctors = _
        split_ifs <;> rfl
      · show (if _ then _ else _ : EventLoop _).functors = _
        split_ifs <;> rfl
    · exact h.loopStep hs
  | thread t a =>
    obtain ⟨-, hs⟩ := Option.ite_none_left_eq_some.mp hs
    cases a with
    | push cb =>
      obtain ⟨-, hs⟩ := Option.ite_none_right_eq_some.mp hs
      cases hs
      exact (h.push (some t) cb).of_eq rfl rfl rfl rfl rfl
    | quit =>
      obtain ⟨-, hs⟩ := Option.ite_none_right_eq_some.mp hs
      cases hs
      exact h.of_eq rfl rfl rfl rfl rfl
    | wakeup =>
      obtain ⟨-, hs⟩ := Option.ite_none_left_eq_some.mp hs
      cases hs
      exact h.of_eq rfl rfl rfl rfl rfl

/-- **Queued functors are executed once and in order**, by the loop thread, and not in the batch in
which they were queued; so those of one thread are executed in the order in which it queued them. -/
theorem functors_in_order (hr : run new acts = some s) :
    s.executed.map Executed.queued ++ s.loop.functors ++ s.loop.pendingFunctors = s.pushes ∧
      (∀ x ∈ s.executed, x.thread = none) ∧
      (∀ x ∈ s.executed, x.queued.swaps < x.swaps) ∧
      ∀ t, (s.executed.map Executed.queued).filter (fun q => q.thread = t) <+:
        s.pushes.filter fun q => q.thread = t := by
  have h : s.InOrder := Run.run_inv (fun _ _ _ hs hm => InOrder.step hm hs) hr inOrder_new
  have hpushes : s.executed.map Executed.queued ++ s.loop.functors ++ s.loop.pendingFunctors =
      s.pushes := by
    rw [List.append_assoc]
    exact h.pushes
  refine ⟨hpushes, fun x hx => (h.executed x hx).1, fun x hx => (h.executed x hx).2, fun t => ?_⟩
  rw [← hpushes, List.append_assoc, List.filter_append]
  exact List.prefix_append _ _

/-- Two threads queue a functor each, and the first functor queues another one. -/
theorem functors_in_order_of_three : ∃ s : LoopThread ℕ Bool,
    run new [.loop .publish, .loop .enter, .loop .resetQuit, .loop .test, .thread true (.push 5),
      .thread false (.push 6), .loop (.poll false), .loop .endEvents, .loop .swap, .loop .nextFunctor,
      .loop (.push 7), .loop .wakeup, .loop .nextFunctor] = some s ∧
    s.pushes.map Queued.functor = [5, 6, 7] ∧
    s.executed.map Executed.queued ++ s.loop.functors ++ s.loop.pendingFunctors = s.pushes ∧
    ∀ x ∈ s.executed, x.queued.swaps < x.swaps := by
  have hrun : ((run (new : LoopThread ℕ Bool) [.loop .publish, .loop .enter, .loop .resetQuit,
      .loop .test, .thread true (.push 5), .thread false (.push 6), .loop (.poll false),
      .loop .endEvents, .loop .swap, .loop .nextFunctor, .loop (.push 7), .loop .wakeup,
      .loop .nextFunctor]).map fun s => s.pushes.map Queued.functor) = some [5, 6, 7] := by
    decide +kernel
  obtain ⟨s, hr, hs⟩ := Option.map_eq_some_iff.mp hrun
  obtain ⟨hpushes, -, hswaps, -⟩ := functors_in_order hr
  exact ⟨s, hr, hs, hpushes, hswaps⟩

end LoopThread

end MuduoCpp11.Net
