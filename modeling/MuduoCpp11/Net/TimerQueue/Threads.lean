import MuduoCpp11.Net.EventLoop
import MuduoCpp11.Net.TimerQueue.Cancel

/-! # Timers: calls from other threads

`AddTimer` and `Cancel` go through `RunInLoop`: on the loop thread they are executed at once, on
another thread they are queued. A `TimerLoop` is a timer queue with the functor queue of its loop.
A cancel from another thread is queued behind the `AddTimerInLoop` of its timer and so is executed
after it. A cancel on the loop thread overtakes an `AddTimerInLoop` that is still queued, and then the
timer is added although it was cancelled. If this does not happen, and no timer is cancelled that the
batch has still to call, no cancel is lost (`cancel_not_lost`). -/

namespace MuduoCpp11.Net

open MuduoCpp11.Base MuduoCpp11.Lib

/-- What another thread binds for the loop; `other` is a functor that is not about timers. -/
inductive TimerFunctor where
  | addTimerInLoop (timer : Address)
  | cancelInLoop (timerId : TimerId)
  | other
  deriving DecidableEq

/-- `returned` are the results of the calls of `AddTimer` that have returned. -/
structure TimerLoop where
  queue : TimerQueue
  loop : EventLoop TimerFunctor := {}
  returned : List TimerId := []

namespace Schedule

open TimerQueue (Act)

variable {s s' : Schedule} {act : Act}

theorem Step.waiting_subset (hs : s.Step act s') (hact : ∀ a delay, act ≠ .addTimerInLoop a delay) :
    s.waiting ⊆ s'.waiting := by
  cases hs with
  | newTimer when interval hfree hlt => exact Finset.subset_union_left
  | addTimerInLoop delay hw hb ht => exact absurd rfl (hact _ delay)
  | _ => exact Finset.Subset.refl _

theorem Step.batch_none (hs : s.Step act s') (hact : ∀ d, act ≠ .handleRead d)
    (hb : s.batch = none) : s'.batch = none := by
  cases hs with
  | handleRead delay hb' hsorted hmem => exact absurd rfl (hact _)
  | runTimer hb' ht => exact absurd (hb.symm.trans hb') (by simp)
  | reset => rfl
  | _ => exact hb

end Schedule

namespace TimerQueue

variable {q q' : TimerQueue} {act : Act}

/-- Every timer that was cancelled is gone and has not been called since. -/
def Quiet (q : TimerQueue) : Prop :=
  ∀ id, .cancelled id ∈ q.log → q.schedule.Gone id ∧
    ∀ pre post, q.log = pre ++ post → .cancelled id ∈ pre → .started id ∉ post

theorem Quiet.step (hinv : q.Inv) (h : q.Quiet) (hs : q.step act = some q')
    (hcancel : ∀ id, act = .cancel id → id.sequence ≤ q.numCreated ∧
      ¬ q.schedule.Waits id ∧ ¬ q.schedule.Pending id) : q'.Quiet := by
  obtain ⟨-, hstep⟩ := step_refines hinv hs
  obtain ⟨es, hlog, hstarted, hcancelled⟩ := hstep.log_eq
  have hlog' : q'.log = q.log ++ es := hlog
  intro id hid
  rw [hlog', List.mem_append] at hid
  have hgone : q'.schedule.Gone id := by
    rcases hid with hid | hid
    · exact (h id hid).1.step hstep
    · obtain rfl := hcancelled id hid
      obtain ⟨hle, hw, hp⟩ := hcancel id rfl
      exact hstep.gone_of_cancel hle hw hp
  have hes : .cancelled id ∈ q.log → .started id ∉ es :=
    fun hc hst => (h id hc).1.called (hstarted id hst).1
  refine ⟨hgone, fun pre post heq hpre hpost => ?_⟩
  rw [hlog', List.append_eq_append_iff] at heq
  rcases heq with ⟨mid, rfl, rfl⟩ | ⟨mid, hpq, rfl⟩
  · -- the log is split inside the new events
    rcases List.mem_append.mp hpre with hpre | hpre
    · exact hes hpre (List.mem_append_right _ hpost)
    · exact (hstarted id (List.mem_append_right _ hpost)).2 id (List.mem_append_left _ hpre)
  · have hc : .cancelled id ∈ q.log := by
      rw [hpq]
      exact List.mem_append_left _ hpre
    rcases List.mem_append.mp hpost with hpost | hpost
    · exact (h id hc).2 pre mid hpq hpre hpost
    · exact hes hc hpost

end TimerQueue

namespace TimerLoop

def new (clock : Timestamp) (numCreated : ℕ) : TimerLoop := { queue := .new clock numCreated }

/-- What happens. `newTimer` and `queueAddTimer` are the two halves of an `AddTimer` on another
thread, `queueCancel` is a `Cancel` there; `addTimer` and `cancel` are calls on the loop thread. -/
inductive Act where
  | tick (micros : ℕ)
  | newElsewhere
  | newTimer (a : Address) (when : Timestamp) (interval : Interval)
  | queueAddTimer (a : Address)
  | queueCancel (id : TimerId)
  | queueOther (isInLoopThread : Bool)
  | addTimer (a : Address) (when : Timestamp) (interval : Interval) (delay : ℕ := 0)
  | cancel (id : TimerId)
  | handleRead (delay : ℕ)
  | runTimer
  | reset (delay : ℕ := 0)
  | beginFunctors
  | nextFunctor (delay : ℕ := 0)
  | endFunctors

variable (s : TimerLoop)

/-- A step of the timer queue alone. -/
def onQueue (act : TimerQueue.Act) : Option TimerLoop :=
  (s.queue.step act).map fun queue => { s with queue }

/-- The call of a functor. -/
def call (delay : ℕ) : TimerFunctor → Option TimerLoop
  | .addTimerInLoop a => s.onQueue (.addTimerInLoop a delay)
  | .cancelInLoop id => s.onQueue (.cancel id)
  | .other => some s

def step : Act → Option TimerLoop
  | .tick micros => s.onQueue (.tick micros)
  | .newElsewhere => s.onQueue .newElsewhere
  | .newTimer a when interval => s.onQueue (.newTimer a when interval)
  | .queueAddTimer a =>
    if a ∈ s.queue.waiting ∧ .addTimerInLoop a ∉ s.loop.queued then
      some { s with
        loop := s.loop.queueInLoop false (.addTimerInLoop a)
        returned := s.returned ++ [s.queue.idOf a] }
    else none
  | .queueCancel id =>
    if id ∈ s.returned then some { s with loop := s.loop.queueInLoop false (.cancelInLoop id) }
    else none
  | .queueOther isInLoopThread => some { s with loop := s.loop.queueInLoop isInLoopThread .other }
  | .addTimer a when interval delay =>
    (s.onQueue (.addTimer a when interval delay)).map fun s' =>
      { s' with returned := s.returned ++ [⟨a, s.queue.numCreated + 1⟩] }
  | .cancel id => if id ∈ s.returned then s.onQueue (.cancel id) else none
  | .handleRead delay =>
    if s.loop.callingPendingFunctors then none else s.onQueue (.handleRead delay)
  | .runTimer => s.onQueue .runTimer
  | .reset delay => s.onQueue (.reset delay)
  | .beginFunctors =>
    if s.queue.batch.isNone then s.loop.beginFunctors.map fun loop => { s with loop } else none
  | .nextFunctor delay => s.loop.nextFunctor.bind fun r => { s with loop := r.2 }.call delay r.1
  | .endFunctors => s.loop.endFunctors.map fun loop => { s with loop }

def run : TimerLoop → List Act → Option TimerLoop := Run.run step

/-! ### The order of the queue -/

variable {s} {s' : TimerLoop} {act : Act}

/-- The functors of a timer are queued in the order of the calls: a cancel stands behind the
`AddTimerInLoop` of a timer that still waits. -/
structure Inv (s : TimerLoop) : Prop where
  queue : s.queue.Inv
  outside : s.loop.callingPendingFunctors = true → s.queue.batch = none
  waiting : ∀ a, .addTimerInLoop a ∈ s.loop.queued → a ∈ s.queue.waiting
  once : ∀ a, s.loop.queued.count (.addTimerInLoop a) ≤ 1
  created : ∀ id ∈ s.returned, id.sequence ≤ s.queue.numCreated
  queued : ∀ id ∈ s.returned, s.queue.schedule.Waits id → .addTimerInLoop id.timer ∈ s.loop.queued
  behind : ∀ pre id post, s.loop.queued = pre ++ .cancelInLoop id :: post →
    id ∈ s.returned ∧ (s.queue.schedule.Waits id → .addTimerInLoop id.timer ∈ pre)

theorem inv_new (clock : Timestamp) (n : ℕ) : (new clock n).Inv := by
  have hq : (new clock n).loop.queued = [] := rfl
  exact ⟨TimerQueue.inv_new clock n, by simp [new], by simp [hq], by simp [hq], by simp [new],
    by simp [new], by simp [hq]⟩

/-- A step of the timer queue that is not the execution of `AddTimerInLoop`. -/
theorem Inv.onQueue (h : s.Inv) {act : TimerQueue.Act} {q : TimerQueue}
    (hs : s.queue.step act = some q) (hadd : ∀ a delay, act ≠ .addTimerInLoop a delay)
    (hread : s.loop.callingPendingFunctors = true → ∀ d, act ≠ .handleRead d) :
    Inv { s with queue := q } := by
  obtain ⟨hq, hstep⟩ := TimerQueue.step_refines h.queue hs
  refine ⟨hq, fun hc => hstep.batch_none (hread hc) (h.outside hc),
    fun a ha => hstep.waiting_subset hadd (h.waiting a ha), h.once,
    fun id hid => (h.created id hid).trans hstep.numCreated_le,
    fun id hid hw => h.queued id hid (hstep.waits (h.created id hid) hw), ?_⟩
  intro pre id post heq
  obtain ⟨hid, hpre⟩ := h.behind pre id post heq
  exact ⟨hid, fun hw => hpre (hstep.waits (h.created id hid) hw)⟩

/-- Queueing a functor that is not about timers, or a cancel of a timer whose id was returned. -/
theorem Inv.queueInLoop (h : s.Inv) {b : Bool} {f : TimerFunctor}
    (hf : ∀ a, f ≠ .addTimerInLoop a) (hid : ∀ id, f = .cancelInLoop id → id ∈ s.returned) :
    Inv { s with loop := s.loop.queueInLoop b f } := by
  have hq : (s.loop.queueInLoop b f).queued = s.loop.queued ++ [f] := s.loop.queued_queueInLoop b f
  refine ⟨h.queue, h.outside, ?_, ?_, h.created, ?_, ?_⟩
  · intro a ha
    rw [hq, List.mem_append, List.mem_singleton] at ha
    rcases ha with ha | ha
    · exact h.waiting a ha
    · exact absurd ha.symm (hf a)
  · intro a
    rw [hq, List.count_append, List.count_singleton, if_neg (by simpa using hf a)]
    exact h.once a
  · intro id hid' hw
    rw [hq]
    exact List.mem_append_left _ (h.queued id hid' hw)
  · intro pre id post heq
    rw [hq] at heq
    rcases Run.split_concat heq with ⟨rfl, hfe, -⟩ | ⟨mid, -, heq⟩
    · have hret := hid id hfe.symm
      exact ⟨hret, h.queued id hret⟩
    · exact h.behind pre id mid heq

theorem Inv.queueAddTimer (h : s.Inv) {a : Address} (hw : a ∈ s.queue.waiting)
    (hnew : .addTimerInLoop a ∉ s.loop.queued) : Inv { s with
      loop := s.loop.queueInLoop false (.addTimerInLoop a)
      returned := s.returned ++ [s.queue.idOf a] } := by
  have hq : (s.loop.queueInLoop false (.addTimerInLoop a)).queued =
      s.loop.queued ++ [.addTimerInLoop a] := s.loop.queued_queueInLoop _ _
  refine ⟨h.queue, h.outside, ?_, ?_, ?_, ?_, ?_⟩
  · intro b hb
    rw [hq, List.mem_append, List.mem_singleton] at hb
    rcases hb with hb | hb
    · exact h.waiting b hb
    · cases hb
      exact hw
  · intro b
    rw [hq, List.count_append, List.count_singleton]
    split_ifs with hba
    · have hba' : a = b := by simpa using hba
      rw [← hba', List.count_eq_zero_of_not_mem hnew]
    · exact h.once b
  · intro id hid
    rcases List.mem_append.mp hid with hid | hid
    · exact h.created id hid
    · obtain ⟨t, ht⟩ := h.queue.schedule.waiting a hw
      have ht' : s.queue.heap a = some t := ht
      rw [List.mem_singleton.mp hid, TimerQueue.idOf_eq ht']
      exact h.queue.schedule.seq_le a t ht
  · intro id hid hwaits
    rw [hq]
    rcases List.mem_append.mp hid with hid | hid
    · exact List.mem_append_left _ (h.queued id hid hwaits)
    · rw [List.mem_singleton.mp hid]
      exact List.mem_append_right _ (List.mem_singleton_self _)
  · intro pre id post heq
    rw [hq] at heq
    rcases Run.split_concat heq with ⟨-, hfe, -⟩ | ⟨mid, -, heq⟩
    · cases hfe
    · obtain ⟨hid, hpre⟩ := h.behind pre id mid heq
      exact ⟨List.mem_append_left _ hid, hpre⟩

theorem Inv.addTimer (h : s.Inv) {a : Address} {when : Timestamp} {interval : Interval} {delay : ℕ}
    {q : TimerQueue} (hs : s.queue.step (.addTimer a when interval delay) = some q) : Inv { s with
      queue := q
      returned := s.returned ++ [⟨a, s.queue.numCreated + 1⟩] } := by
  have hq := h.onQueue hs (by simp) (by simp)
  obtain ⟨hqinv, hstep⟩ := TimerQueue.step_refines h.queue hs
  have hnew : q.numCreated = s.queue.numCreated + 1 ∧ a ∉ q.waiting := by
    generalize hq' : q.schedule = q' at hstep
    cases hstep with
    | addTimer _ _ _ hfree hlt =>
      refine ⟨congrArg Schedule.numCreated hq', fun hw => ?_⟩
      have hwaiting : q.waiting = s.queue.waiting := congrArg Schedule.waiting hq'
      rw [hwaiting] at hw
      exact h.queue.schedule.not_away hfree (Or.inl hw)
  refine ⟨hq.queue, hq.outside, hq.waiting, hq.once, ?_, ?_, ?_⟩
  · intro id hid
    rcases List.mem_append.mp hid with hid | hid
    · exact hq.created id hid
    · rw [List.mem_singleton.mp hid]
      exact hnew.1.ge
  · intro id hid hw
    rcases List.mem_append.mp hid with hid | hid
    · exact hq.queued id hid hw
    · rw [List.mem_singleton.mp hid] at hw
      exact absurd hw.2 hnew.2
  · intro pre id post heq
    obtain ⟨hid, hpre⟩ := hq.behind pre id post heq
    exact ⟨List.mem_append_left _ hid, hpre⟩

/-- Taking a functor from the queue that is not an `AddTimerInLoop`. -/
theorem Inv.nextFunctor (h : s.Inv) {loop : EventLoop TimerFunctor} {f : TimerFunctor}
    (hq : s.loop.queued = f :: loop.queued)
    (hc : loop.callingPendingFunctors = s.loop.callingPendingFunctors)
    (hf : ∀ a, f ≠ .addTimerInLoop a) : Inv { s with loop } := by
  have hmem : ∀ {a}, .addTimerInLoop a ∈ s.loop.queued → .addTimerInLoop a ∈ loop.queued := by
    intro a ha
    rw [hq, List.mem_cons] at ha
    exact ha.resolve_left fun he => hf a he.symm
  refine ⟨h.queue, fun hc' => h.outside (hc ▸ hc'), ?_, ?_, h.created,
    fun id hid hw => hmem (h.queued id hid hw), ?_⟩
  · intro a ha
    exact h.waiting a (hq ▸ List.mem_cons_of_mem _ ha)
  · intro a
    refine le_trans ?_ (h.once a)
    rw [hq]
    exact List.count_le_count_cons
  · intro pre id post heq
    obtain ⟨hid, hpre⟩ := h.behind (f :: pre) id post (by rw [hq, heq]; rfl)
    refine ⟨hid, fun hw => ?_⟩
    exact (List.mem_cons.mp (hpre hw)).resolve_left fun he => hf _ he.symm

theorem Inv.callAddTimer (h : s.Inv) {loop : EventLoop TimerFunctor} {a : Address} {q : TimerQueue}
    (hq : s.loop.queued = .addTimerInLoop a :: loop.queued)
    (hc : loop.callingPendingFunctors = s.loop.callingPendingFunctors)
    {delay : ℕ} (hs : s.queue.step (.addTimerInLoop a delay) = some q) : Inv { s with queue := q, loop } := by
  obtain ⟨hqinv, hstep⟩ := TimerQueue.step_refines h.queue hs
  have hwaiting : q.waiting = s.queue.waiting.erase a := by
    generalize hq' : q.schedule = q' at hstep
    cases hstep with
    | addTimerInLoop _ hw hb ht => exact congrArg Schedule.waiting hq'
  have hgone : .addTimerInLoop a ∉ loop.queued := by
    have hone := h.once a
    rw [hq, List.count_cons_self] at hone
    exact List.count_eq_zero.mp (by omega)
  have hne : ∀ {id : TimerId}, q.schedule.Waits id → id.timer ≠ a := by
    rintro id hw rfl
    have hm : id.timer ∈ q.waiting := hw.2
    rw [hwaiting] at hm
    exact Finset.notMem_erase _ _ hm
  refine ⟨hqinv, fun hc' => hstep.batch_none (by simp) (h.outside (hc ▸ hc')), ?_, ?_, ?_, ?_, ?_⟩
  · intro b hb
    show b ∈ q.waiting
    rw [hwaiting, Finset.mem_erase]
    refine ⟨?_, h.waiting b (hq ▸ List.mem_cons_of_mem _ hb)⟩
    rintro rfl
    exact hgone hb
  · intro b
    refine le_trans ?_ (h.once b)
    rw [hq]
    exact List.count_le_count_cons
  · intro id hid
    exact (h.created id hid).trans hstep.numCreated_le
  · intro id hid hw
    have hm := h.queued id hid (hstep.waits (h.created id hid) hw)
    rw [hq, List.mem_cons, TimerFunctor.addTimerInLoop.injEq] at hm
    exact hm.resolve_left (hne hw)
  · intro pre id post heq
    obtain ⟨hid, hpre⟩ := h.behind (.addTimerInLoop a :: pre) id post (by rw [hq, heq]; rfl)
    refine ⟨hid, fun hw => ?_⟩
    have hm := hpre (hstep.waits (h.created id hid) hw)
    rw [List.mem_cons, TimerFunctor.addTimerInLoop.injEq] at hm
    exact hm.resolve_left (hne hw)

/-- What a step does to the timer queue. A cancel that is not a call on the loop thread comes from the
functor queue, and finds its timer added and no batch. -/
def OnQueue (s s' : TimerLoop) (act : Act) : Prop :=
  s'.queue = s.queue ∨ ∃ a, s.queue.step a = some s'.queue ∧
    ∀ id, a = .cancel id → id.sequence ≤ s.queue.numCreated ∧
      (act = .cancel id ∨ ¬ s.queue.schedule.Waits id ∧ ¬ s.queue.schedule.Pending id)

theorem Inv.step_onQueue (h : s.Inv) {a : TimerQueue.Act} (hs : s.onQueue a = some s')
    (hadd : ∀ x delay, a ≠ .addTimerInLoop x delay)
    (hread : s.loop.callingPendingFunctors = true → ∀ d, a ≠ .handleRead d)
    (hcancel : ∀ id, a = .cancel id → id.sequence ≤ s.queue.numCreated ∧
      (act = .cancel id ∨ ¬ s.queue.schedule.Waits id ∧ ¬ s.queue.schedule.Pending id)) :
    s'.Inv ∧ OnQueue s s' act := by
  obtain ⟨q, hq, rfl⟩ := Option.map_eq_some_iff.mp hs
  exact ⟨h.onQueue hq hadd hread, Or.inr ⟨a, hq, hcancel⟩⟩

theorem Inv.step_nextFunctor (h : s.Inv) {delay : ℕ} (hs : step s (.nextFunctor delay) = some s') :
    s'.Inv ∧ OnQueue s s' (.nextFunctor delay) := by
  obtain ⟨⟨f, loop⟩, hnext, hs⟩ := Option.bind_eq_some_iff.mp hs
  have hq := EventLoop.queued_nextFunctor hnext
  obtain ⟨-, -, hc, hc'⟩ := EventLoop.nextFunctor_spec hnext
  have hcalling : loop.callingPendingFunctors = s.loop.callingPendingFunctors := by rw [hc, hc']
  cases f with
  | addTimerInLoop a =>
    obtain ⟨q, hqs, rfl⟩ := Option.map_eq_some_iff.mp hs
    exact ⟨h.callAddTimer hq hcalling hqs, Or.inr ⟨_, hqs, by simp⟩⟩
  | cancelInLoop id =>
    -- the head of the queue: nothing stands before it, and so its timer does not wait
    have hnext' := h.nextFunctor hq hcalling (by simp)
    obtain ⟨hret, hpre⟩ := h.behind [] id loop.queued hq
    refine hnext'.step_onQueue hs (by simp) (by simp) ?_
    intro id' hid
    cases hid
    refine ⟨h.created id hret, Or.inr ⟨fun hw => by simpa using hpre hw, ?_⟩⟩
    rintro ⟨-, b, hb, -⟩
    have hnone : s.queue.schedule.batch = none := h.outside hc
    exact absurd (hnone.symm.trans hb) (by simp)
  | other =>
    cases hs
    exact ⟨h.nextFunctor hq hcalling (by simp), Or.inl rfl⟩

theorem Inv.step (h : s.Inv) (hs : step s act = some s') : s'.Inv ∧ OnQueue s s' act := by
  cases act with
  | tick d => exact h.step_onQueue hs (by simp) (by simp) (by simp)
  | newElsewhere => exact h.step_onQueue hs (by simp) (by simp) (by simp)
  | newTimer a when interval => exact h.step_onQueue hs (by simp) (by simp) (by simp)
  | queueAddTimer a =>
    obtain ⟨⟨hw, hnew⟩, hs⟩ := Option.ite_none_right_eq_some.mp hs
    cases hs
    exact ⟨h.queueAddTimer hw hnew, Or.inl rfl⟩
  | queueCancel id =>
    obtain ⟨hid, hs⟩ := Option.ite_none_right_eq_some.mp hs
    cases hs
    refine ⟨h.queueInLoop (by simp) fun id' hf => ?_, Or.inl rfl⟩
    cases hf
    exact hid
  | queueOther b =>
    cases hs
    exact ⟨h.queueInLoop (by simp) (by simp), Or.inl rfl⟩
  | addTimer a when interval delay =>
    obtain ⟨m, hm, rfl⟩ := Option.map_eq_some_iff.mp hs
    obtain ⟨q, hq, rfl⟩ := Option.map_eq_some_iff.mp hm
    exact ⟨h.addTimer hq, Or.inr ⟨_, hq, by simp⟩⟩
  | cancel id =>
    obtain ⟨hid, hs⟩ := Option.ite_none_right_eq_some.mp hs
    refine h.step_onQueue hs (by simp) (by simp) fun id' he => ?_
    cases he
    exact ⟨h.created id hid, Or.inl rfl⟩
  | handleRead delay =>
    obtain ⟨hc, hs⟩ := Option.ite_none_left_eq_some.mp hs
    exact h.step_onQueue hs (by simp) (fun hc' => absurd hc' hc) (by simp)
  | runTimer => exact h.step_onQueue hs (by simp) (by simp) (by simp)
  | reset delay => exact h.step_onQueue hs (by simp) (by simp) (by simp)
  | beginFunctors =>
    obtain ⟨hb, hs⟩ := Option.ite_none_right_eq_some.mp hs
    obtain ⟨loop, hl, rfl⟩ := Option.map_eq_some_iff.mp hs
    have hq := EventLoop.queued_beginFunctors hl
    refine ⟨⟨h.queue, fun _ => Option.isNone_iff_eq_none.mp hb, ?_, ?_, h.created, ?_, ?_⟩, Or.inl rfl⟩
    · exact hq ▸ h.waiting
    · exact hq ▸ h.once
    · exact hq ▸ h.queued
    · exact hq ▸ h.behind
  | nextFunctor delay => exact h.step_nextFunctor hs
  | endFunctors =>
    obtain ⟨loop, hl, rfl⟩ := Option.map_eq_some_iff.mp hs
    have hq := EventLoop.queued_endFunctors hl
    obtain ⟨-, -, hidle⟩ := EventLoop.endFunctors_spec hl
    refine ⟨⟨h.queue, fun hc => ?_, ?_, ?_, h.created, ?_, ?_⟩, Or.inl rfl⟩
    · simp [hidle] at hc
    · exact hq ▸ h.waiting
    · exact hq ▸ h.once
    · exact hq ▸ h.queued
    · exact hq ▸ h.behind

/-! ### Cancels -/

/-- A `Cancel` on the loop thread is in time: `AddTimerInLoop` has been executed for its timer, and
the batch has not still to call it. -/
def InTime (s : TimerLoop) (act : Act) : Prop :=
  ∀ id, act = .cancel id → ¬ s.queue.schedule.Waits id ∧ ¬ s.queue.schedule.Pending id

/-- **A cancel is not lost** if every `Cancel` on the loop thread is in time: once it has been
executed, the timer is in neither set and is not called any more. -/
theorem cancel_not_lost {clock : Timestamp} {n : ℕ} {acts : List Act} {id : TimerId}
    (hr : run (new clock n) acts = some s) (hok : Run.Along step InTime (new clock n) acts)
    (hcancelled : .cancelled id ∈ s.queue.log) :
    (∀ e ∈ s.queue.timers, s.queue.idOf e.timer ≠ id) ∧ id ∉ s.queue.activeTimers ∧
      ∀ pre post, s.queue.log = pre ++ post → .cancelled id ∈ pre → .started id ∉ post := by
  have hsafe : s.Inv ∧ s.queue.Quiet := by
    refine Run.run_inv_along (P := fun m => m.Inv ∧ m.queue.Quiet) ?_ hok hr ⟨inv_new clock n, ?_⟩
    · rintro m act m' hok hs ⟨hm, hquiet⟩
      obtain ⟨hm', hq | ⟨a, hq, hcancel⟩⟩ := hm.step hs
      · exact ⟨hm', hq ▸ hquiet⟩
      · refine ⟨hm', hquiet.step hm.queue hq fun id hid => ?_⟩
        obtain ⟨hle, hact | hin⟩ := hcancel id hid
        · exact ⟨hle, hok id hact⟩
        · exact ⟨hle, hin⟩
    · simp [TimerQueue.Quiet, new, TimerQueue.new]
  obtain ⟨hgone, hlater⟩ := hsafe.2 id hcancelled
  have hsets := hsafe.1.queue.sets
  refine ⟨?_, ?_, hlater⟩
  · rintro e he rfl
    obtain ⟨u, hu, hna, -⟩ := (hsets.timers e).mp he
    exact hna (Or.inr (hgone.doomed ⟨u, hu, by rw [TimerQueue.idOf_eq hu]⟩).2)
  · intro hid
    obtain ⟨u, hu, hna, hs⟩ := (hsets.active id).mp hid
    exact hna (Or.inr (hgone.doomed ⟨u, hu, hs.symm⟩).2)

/-- `AddTimer` and `Cancel` on another thread. -/
theorem cancel_not_lost_from_other_thread : ∃ s,
    run (new ⟨1⟩ 0) [.newTimer 1 ⟨10⟩ .zero, .queueAddTimer 1, .queueCancel ⟨1, 1⟩, .beginFunctors,
      .nextFunctor, .nextFunctor, .endFunctors] = some s ∧
    .added 1 ⟨⟨10⟩, .zero, 1⟩ ∈ s.queue.log ∧ .cancelled ⟨1, 1⟩ ∈ s.queue.log ∧
    ⟨1, 1⟩ ∉ s.queue.activeTimers := by
  have hlog : ((run (new ⟨1⟩ 0) [.newTimer 1 ⟨10⟩ .zero, .queueAddTimer 1, .queueCancel ⟨1, 1⟩,
      .beginFunctors, .nextFunctor, .nextFunctor, .endFunctors]).map fun s => s.queue.log) =
      some [.added 1 ⟨⟨10⟩, .zero, 1⟩, .cancelled ⟨1, 1⟩, .deleted ⟨1, 1⟩] := by
    decide +kernel
  obtain ⟨s, hr, hs⟩ := Option.map_eq_some_iff.mp hlog
  have hc : .cancelled ⟨1, 1⟩ ∈ s.queue.log := by simp [hs]
  have hok : Run.Along step InTime (new ⟨1⟩ 0) [.newTimer 1 ⟨10⟩ .zero, .queueAddTimer 1,
      .queueCancel ⟨1, 1⟩, .beginFunctors, .nextFunctor, .nextFunctor, .endFunctors] := by
    refine Run.along_of_forall fun s a ha id hid => ?_
    subst hid
    simp at ha
  exact ⟨s, hr, by simp [hs], hc, (cancel_not_lost hr hok hc).2.1⟩

/-- Another thread adds a timer and hands its id over; the loop thread cancels it before it runs the
queued functor. Then the timer is added, and called when it is due. -/
theorem cancel_overtakes_addTimer : ∃ s s',
    run (new ⟨1⟩ 0) [.newTimer 1 ⟨10⟩ .zero, .queueAddTimer 1, .cancel ⟨1, 1⟩, .beginFunctors,
      .nextFunctor, .endFunctors] = some s ∧
    s.queue.log = [.cancelled ⟨1, 1⟩, .added 1 ⟨⟨10⟩, .zero, 1⟩] ∧
    ⟨1, 1⟩ ∈ s.queue.activeTimers ∧
    run s [.tick 100, .handleRead 0, .runTimer] = some s' ∧
    s'.queue.log = s.queue.log ++ [.started ⟨1, 1⟩] := by
  have hrun : ((run (new ⟨1⟩ 0) [.newTimer 1 ⟨10⟩ .zero, .queueAddTimer 1, .cancel ⟨1, 1⟩,
      .beginFunctors, .nextFunctor, .endFunctors]).bind fun s =>
      (run s [.tick 100, .handleRead 0, .runTimer]).map fun s' =>
        (s.queue.log, decide (⟨1, 1⟩ ∈ s.queue.activeTimers),
          decide (s'.queue.log = s.queue.log ++ [.started ⟨1, 1⟩]))) =
      some ([.cancelled ⟨1, 1⟩, .added 1 ⟨⟨10⟩, .zero, 1⟩], true, true) := by
    decide +kernel
  obtain ⟨s, hr, hs⟩ := Option.bind_eq_some_iff.mp hrun
  obtain ⟨s', hr', hd⟩ := Option.map_eq_some_iff.mp hs
  simp only [Prod.mk.injEq, decide_eq_true_eq] at hd
  exact ⟨s, s', hr, hd.1, hd.2.1, hr', hd.2.2⟩

end TimerLoop

end MuduoCpp11.Net
