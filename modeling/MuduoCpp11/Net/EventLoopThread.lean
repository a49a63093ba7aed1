import MuduoCpp11.Net.EventLoop.Loop

/-! # Threads with a loop

An `EventLoopThread` starts a thread whose function makes a loop, publishes it in `loop_`, runs it, and
clears `loop_` at its end. The owner gets the loop from `StartLoop` and may give it to other threads,
which may quit it at any time; its destructor looks at `loop_` and, if that is set, quits the loop and
joins the thread.

So the destructor joins if and only if it comes before the end of the thread function: once `loop_` is
cleared it leaves the thread alone, and a `std::thread` that has not been joined is destroyed
(`joined_iff`). -/

namespace MuduoCpp11.Net

open MuduoCpp11.Lib

/-- How far `ThreadFunc` has got: `cleared` is behind `loop_ = NULL`. -/
inductive EventLoopThread.Func where
  | notStarted
  | running
  | cleared
  | ended
  deriving DecidableEq, Repr

/-- The next statement of the owner, in `StartLoop` or in the destructor. -/
inductive EventLoopThread.Owner where
  | created
  | startLoop
  | started
  | test
  | quit
  | wakeup
  | join
  | destroyed
  deriving DecidableEq, Repr

/-- `loop` stands for `loop_ != NULL`. Among the threads that call functions of the loop, `none` is the
owner. -/
structure EventLoopThread (F T : Type*) where
  thread : LoopThread F (Option T) := {}
  loop : Bool := false
  exiting : Bool := false
  func : EventLoopThread.Func := .notStarted
  owner : EventLoopThread.Owner := .created
  joined : Bool := false

def LoopThread.LoopAct.isPublish {F : Type*} : LoopThread.LoopAct F → Bool
  | .publish => true
  | _ => false

namespace EventLoopThread

inductive Act (F T : Type*) where
  | startLoop
  | returnLoop
  | loop (a : LoopThread.LoopAct F)
  | other (t : T) (a : LoopThread.ThreadAct F)
  | clearLoop
  | exit
  | destroy
  | test
  | quit
  | wakeup
  | join

variable {F T : Type*}

def new : EventLoopThread F T := {}

variable [DecidableEq T]

/-- One step of the owner, of `ThreadFunc` or of another thread. The loop is a local variable of
`ThreadFunc` and is used by nobody behind its end; `loop_->Quit()` reads `loop_` once more. -/
def step (s : EventLoopThread F T) : Act F T → Option (EventLoopThread F T)
  | .startLoop =>
    if s.owner = .created then some { s with owner := .startLoop, func := .running } else none
  | .returnLoop =>
    if s.owner = .startLoop ∧ s.loop then some { s with owner := .started } else none
  | .loop a =>
    if s.func = .running then (s.thread.step (.loop a)).map fun thread =>
      { s with thread, loop := s.loop || a.isPublish }
    else none
  | .other t a =>
    if s.owner ≠ .created ∧ s.owner ≠ .startLoop ∧ s.func ≠ .ended then
      (s.thread.step (.thread (some t) a)).map fun thread => { s with thread }
    else none
  | .clearLoop =>
    if s.func = .running ∧ s.thread.pc = .returned ∧ s.thread.owes = false then
      some { s with loop := false, func := .cleared }
    else none
  | .exit => if s.func = .cleared then some { s with func := .ended } else none
  | .destroy =>
    if s.owner = .created ∨ s.owner = .started then some { s with exiting := true, owner := .test }
    else none
  | .test =>
    if s.owner = .test then some { s with owner := if s.loop then .quit else .destroyed } else none
  | .quit =>
    if s.owner = .quit ∧ s.loop then (s.thread.step (.thread none .quit)).map fun thread =>
      { s with thread, owner := .wakeup }
    else none
  | .wakeup =>
    if s.owner = .wakeup then (s.thread.step (.thread none .wakeup)).map fun thread =>
      { s with thread, owner := .join }
    else none
  | .join =>
    if s.owner = .join ∧ s.func = .ended then some { s with owner := .destroyed, joined := true }
    else none

def run : EventLoopThread F T → List (Act F T) → Option (EventLoopThread F T) := Run.run step

/-! ### The pointer -/

variable {s s' : EventLoopThread F T} {act : Act F T} {acts : List (Act F T)}

/-- `loop_` is set from the return of `StartLoop` to the end of `ThreadFunc`. -/
structure Inv (s : EventLoopThread F T) : Prop where
  running : s.loop = true → s.func = .running
  set : s.owner ≠ .created → s.owner ≠ .startLoop → s.func = .running → s.loop = true
  created : s.owner = .created → s.func = .notStarted
  joined : s.joined = true → s.owner = .destroyed

omit [DecidableEq T] in
theorem inv_new : (new : EventLoopThread F T).Inv where
  running := nofun
  set := by simp [new]
  created _ := rfl
  joined := nofun

omit [DecidableEq T] in
/-- The owner goes on, the thread and `loop_` stay as they are. -/
theorem Inv.setOwner (h : s.Inv) (hs : s.owner ≠ .created ∧ s.owner ≠ .startLoop ∨ s.func ≠ .running)
    {owner : Owner} (hne : owner ≠ .created) {thread : LoopThread F (Option T)} {joined exiting : Bool}
    (hjoined : joined = true → owner = .destroyed) :
    ({ s with owner, thread, joined, exiting } : EventLoopThread F T).Inv where
  running := h.running
  set _ _ hfunc := by
    rcases hs with ⟨hc, hl⟩ | hne
    · exact h.set hc hl hfunc
    · exact absurd hfunc hne
  created hc := absurd hc hne
  joined := hjoined

theorem Inv.step (h : s.Inv) (hs : s.step act = some s') : s'.Inv := by
  have hkeep : ∀ thread : LoopThread F (Option T), ({ s with thread } : EventLoopThread F T).Inv :=
    fun thread => ⟨h.running, h.set, h.created, h.joined⟩
  have hnotJoined : s.owner ≠ .destroyed → s.joined ≠ true := fun hne hj => hne (h.joined hj)
  cases act with
  | startLoop =>
    obtain ⟨ho, hs⟩ := Option.ite_none_right_eq_some.mp hs
    cases hs
    have hfunc := h.created ho
    refine ⟨fun _ => rfl, fun _ hne => absurd rfl hne, nofun, fun hj => ?_⟩
    exact absurd hj (hnotJoined (by simp [ho]))
  | returnLoop =>
    obtain ⟨⟨ho, hloop⟩, hs⟩ := Option.ite_none_right_eq_some.mp hs
    cases hs
    refine ⟨h.running, fun _ _ _ => hloop, nofun, fun hj => ?_⟩
    exact absurd hj (hnotJoined (by simp [ho]))
  | loop a =>
    obtain ⟨hfunc, hs⟩ := Option.ite_none_right_eq_some.mp hs
    obtain ⟨thread, -, rfl⟩ := Option.map_eq_some_iff.mp hs
    refine ⟨fun _ => hfunc, fun hc hl hf => ?_, h.created, h.joined⟩
    rw [h.set hc hl hf, Bool.true_or]
  | other t a =>
    obtain ⟨-, hs⟩ := Option.ite_none_right_eq_some.mp hs
    obtain ⟨thread, -, rfl⟩ := Option.map_eq_some_iff.mp hs
    exact hkeep thread
  | clearLoop =>
    obtain ⟨⟨hfunc, -⟩, hs⟩ := Option.ite_none_right_eq_some.mp hs
    cases hs
    refine ⟨nofun, nofun, fun ho => ?_, h.joined⟩
    exact absurd (h.created ho) (by simp [hfunc])
  | exit =>
    obtain ⟨hfunc, hs⟩ := Option.ite_none_right_eq_some.mp hs
    cases hs
    refine ⟨fun hl => ?_, nofun, fun ho => ?_, h.joined⟩
    · exact absurd (h.running hl) (by simp [hfunc])
    · exact absurd (h.created ho) (by simp [hfunc])
  | destroy =>
    obtain ⟨ho, hs⟩ := Option.ite_none_right_eq_some.mp hs
    cases hs
    rcases ho with ho | ho
    · refine h.setOwner (Or.inr ?_) (by simp) fun hj => absurd hj (hnotJoined (by simp [ho]))
      rw [h.created ho]
      nofun
    · exact h.setOwner (Or.inl (by simp [ho])) (by simp) fun hj => absurd hj (hnotJoined (by simp [ho]))
  | test =>
    obtain ⟨ho, hs⟩ := Option.ite_none_right_eq_some.mp hs
    cases hs
    refine h.setOwner (Or.inl (by simp [ho])) ?_ fun hj => absurd hj (hnotJoined (by simp [ho]))
    split_ifs <;> nofun
  | quit =>
    obtain ⟨⟨ho, -⟩, hs⟩ := Option.ite_none_right_eq_some.mp hs
    obtain ⟨thread, -, rfl⟩ := Option.map_eq_some_iff.mp hs
    exact h.setOwner (Or.inl (by simp [ho])) (by simp) fun hj => absurd hj (hnotJoined (by simp [ho]))
  | wakeup =>
    obtain ⟨ho, hs⟩ := Option.ite_none_right_eq_some.mp hs
    obtain ⟨thread, -, rfl⟩ := Option.map_eq_some_iff.mp hs
    exact h.setOwner (Or.inl (by simp [ho])) (by simp) fun hj => absurd hj (hnotJoined (by simp [ho]))
  | join =>
    obtain ⟨⟨ho, -⟩, hs⟩ := Option.ite_none_right_eq_some.mp hs
    cases hs
    exact h.setOwner (Or.inl (by simp [ho])) (by simp) fun _ => rfl

theorem inv_of_run (hr : run new acts = some s) : s.Inv :=
  Run.run_inv (fun _ _ _ hs hm => Inv.step hm hs) hr inv_new

/-! ### The destructor behind its test -/

/-- The destructor is on its way to the join, or it is done. -/
def Decided (b : Bool) (s : EventLoopThread F T) : Prop :=
  (s.owner = .quit ∨ s.owner = .wakeup ∨ s.owner = .join) ∧ b = true ∨
    s.owner = .destroyed ∧ s.joined = b

theorem Decided.step {b : Bool} (h : s.Decided b) (hs : s.step act = some s') : s'.Decided b := by
  have howner : s.owner ≠ .created ∧ s.owner ≠ .startLoop ∧ s.owner ≠ .started ∧ s.owner ≠ .test := by
    rcases h with ⟨ho | ho | ho, -⟩ | ⟨ho, -⟩ <;> simp [ho]
  cases act with
  | startLoop =>
    obtain ⟨ho, -⟩ := Option.ite_none_right_eq_some.mp hs
    exact absurd ho howner.1
  | returnLoop =>
    obtain ⟨ho, -⟩ := Option.ite_none_right_eq_some.mp hs
    exact absurd ho.1 howner.2.1
  | loop a =>
    obtain ⟨-, hs⟩ := Option.ite_none_right_eq_some.mp hs
    obtain ⟨thread, -, rfl⟩ := Option.map_eq_some_iff.mp hs
    exact h
  | other t a =>
    obtain ⟨-, hs⟩ := Option.ite_none_right_eq_some.mp hs
    obtain ⟨thread, -, rfl⟩ := Option.map_eq_some_iff.mp hs
    exact h
  | clearLoop =>
    obtain ⟨-, hs⟩ := Option.ite_none_right_eq_some.mp hs
    cases hs
    exact h
  | exit =>
    obtain ⟨-, hs⟩ := Option.ite_none_right_eq_some.mp hs
    cases hs
    exact h
  | destroy =>
    obtain ⟨ho, -⟩ := Option.ite_none_right_eq_some.mp hs
    exact absurd ho (by simp [howner])
  | test =>
    obtain ⟨ho, -⟩ := Option.ite_none_right_eq_some.mp hs
    exact absurd ho howner.2.2.2
  | quit =>
    obtain ⟨⟨ho, -⟩, hs⟩ := Option.ite_none_right_eq_some.mp hs
    obtain ⟨thread, -, rfl⟩ := Option.map_eq_some_iff.mp hs
    exact Or.inl ⟨Or.inr (Or.inl rfl), by simpa [Decided, ho] using h⟩
  | wakeup =>
    obtain ⟨ho, hs⟩ := Option.ite_none_right_eq_some.mp hs
    obtain ⟨thread, -, rfl⟩ := Option.map_eq_some_iff.mp hs
    exact Or.inl ⟨Or.inr (Or.inr rfl), by simpa [Decided, ho] using h⟩
  | join =>
    obtain ⟨⟨ho, -⟩, hs⟩ := Option.ite_none_right_eq_some.mp hs
    cases hs
    have hb : b = true := by simpa [Decided, ho] using h
    exact Or.inr ⟨rfl, hb.symm⟩

/-- **The destructor joins the thread if and only if** `ThreadFunc` has not cleared `loop_` when the
destructor looks at it. -/
theorem joined_iff {before after : List (Act F T)} {m m' : EventLoopThread F T}
    (hr : run new before = some m) (ht : m.step .test = some m') (hr' : run m' after = some s)
    (hd : s.owner = .destroyed) :
    s.joined = true ↔ m.func = .running := by
  have hinv := inv_of_run hr
  obtain ⟨ho, ht⟩ := Option.ite_none_right_eq_some.mp ht
  have hloop : m.loop = true ↔ m.func = .running :=
    ⟨hinv.running, hinv.set (by simp [ho]) (by simp [ho])⟩
  have hm' : m'.Decided m.loop := by
    cases ht
    have hj : m.joined = false := by
      by_contra hj
      simp [hinv.joined (by simpa using hj)] at ho
    cases hl : m.loop with
    | true => exact Or.inl ⟨Or.inl rfl, rfl⟩
    | false => exact Or.inr ⟨rfl, hj⟩
  have hs : s.Decided m.loop := Run.run_inv (fun _ _ _ hs hm => Decided.step hm hs) hr' hm'
  rw [← hloop]
  rcases hs with ⟨ho, -⟩ | ⟨-, hj⟩
  · simp [hd] at ho
  · rw [hj]

/-- The owner destroys an object whose loop is running. -/
theorem joined_of_running : ∃ m m' s : EventLoopThread ℕ Bool,
    run new [.startLoop, .loop .publish, .returnLoop, .loop .enter, .loop .resetQuit, .loop .test,
      .destroy] = some m ∧
    m.step .test = some m' ∧
    run m' [.quit, .wakeup, .loop (.poll true), .loop .handleRead, .loop .endEvents, .loop .swap,
      .loop .endFunctors, .loop .test, .loop .leave, .clearLoop, .exit, .join] = some s ∧
    s.owner = .destroyed ∧ s.joined = true := by
  have hrun : ((run (new : EventLoopThread ℕ Bool) [.startLoop, .loop .publish, .returnLoop,
      .loop .enter, .loop .resetQuit, .loop .test, .destroy]).bind fun m =>
      (m.step .test).bind fun m' =>
        (run m' [.quit, .wakeup, .loop (.poll true), .loop .handleRead, .loop .endEvents, .loop .swap,
          .loop .endFunctors, .loop .test, .loop .leave, .clearLoop, .exit, .join]).map fun s =>
          (m.func, s.owner)) = some (.running, .destroyed) := by
    decide +kernel
  obtain ⟨m, hm, h⟩ := Option.bind_eq_some_iff.mp hrun
  obtain ⟨m', hm', h⟩ := Option.bind_eq_some_iff.mp h
  obtain ⟨s, hs, h⟩ := Option.map_eq_some_iff.mp h
  simp only [Prod.mk.injEq] at h
  refine ⟨m, m', s, hm, hm', hs, h.2, ?_⟩
  exact (joined_iff hm hm' hs h.2).mpr h.1

/-- Another thread quits the loop, and `ThreadFunc` comes to its end before the destructor: the thread
is not joined. -/
theorem not_joined_after_quit : ∃ s : EventLoopThread ℕ Bool,
    run new [.startLoop, .loop .publish, .returnLoop, .loop .enter, .loop .resetQuit, .loop .test,
      .other true .quit, .other true .wakeup, .loop (.poll true), .loop .handleRead, .loop .endEvents,
      .loop .swap, .loop .endFunctors, .loop .test, .loop .leave, .clearLoop, .exit, .destroy,
      .test] = some s ∧
    s.owner = .destroyed ∧ s.func ≠ .notStarted ∧ s.joined = false := by
  have hrun : ((run (new : EventLoopThread ℕ Bool) [.startLoop, .loop .publish, .returnLoop,
      .loop .enter, .loop .resetQuit, .loop .test, .other true .quit, .other true .wakeup,
      .loop (.poll true), .loop .handleRead, .loop .endEvents, .loop .swap, .loop .endFunctors,
      .loop .test, .loop .leave, .clearLoop, .exit, .destroy, .test]).map fun s =>
        (s.owner, s.func, s.joined)) = some (.destroyed, .ended, false) := by
    decide +kernel
  obtain ⟨s, hs, h⟩ := Option.map_eq_some_iff.mp hrun
  simp only [Prod.mk.injEq] at h
  exact ⟨s, hs, h.1, by simp [h.2.1], h.2.2⟩

end EventLoopThread

end MuduoCpp11.Net
