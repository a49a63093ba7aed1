import Mathlib.Tactic

/-! # The functor queue of a loop

The part of `EventLoop` that hands work over to the loop thread. Any thread appends to
`pending_functors_`; `DoPendingFunctors` swaps the whole queue into a local vector and runs that
vector from the front. `functors` is what is left of the vector, empty outside of the call.

The parameter `F` stands for the functors. Queued functors run in the order in which they were queued:
`queued` grows at the back and shrinks at the front, whatever the swaps. -/

namespace MuduoCpp11.Net

/-- `wakeups` counts the calls of `Wakeup()`. -/
structure EventLoop (F : Type*) where
  pendingFunctors : List F := []
  functors : List F := []
  callingPendingFunctors : Bool := false
  wakeups : ℕ := 0
  idle : callingPendingFunctors = false → functors = [] := by simp

namespace EventLoop

variable {F : Type*} (loop : EventLoop F)

/-- `QueueInLoop`, on the loop thread or on another one. -/
def queueInLoop (isInLoopThread : Bool) (cb : F) : EventLoop F :=
  { loop with
    pendingFunctors := loop.pendingFunctors ++ [cb]
    wakeups := if !isInLoopThread || loop.callingPendingFunctors then loop.wakeups + 1
      else loop.wakeups }

/-- The part of `QueueInLoop` that holds the mutex. -/
def push (cb : F) : EventLoop F := { loop with pendingFunctors := loop.pendingFunctors ++ [cb] }

def wakeup : EventLoop F := { loop with wakeups := loop.wakeups + 1 }

theorem queueInLoop_eq (isInLoopThread : Bool) (cb : F) :
    loop.queueInLoop isInLoopThread cb =
      if !isInLoopThread || loop.callingPendingFunctors then (loop.push cb).wakeup
      else loop.push cb := by
  unfold queueInLoop push wakeup
  split_ifs
  · rfl
  · rfl

/-- The first statement of `DoPendingFunctors`. -/
def callFunctors : EventLoop F :=
  { loop with
    callingPendingFunctors := true
    idle := by simp }

/-- The part of `DoPendingFunctors` that holds the mutex. -/
def swapFunctors : Option (EventLoop F) :=
  if h : loop.callingPendingFunctors = true ∧ loop.functors = [] then
    some { loop with
      functors := loop.pendingFunctors
      pendingFunctors := []
      idle := by simp [h.1] }
  else none

/-- `DoPendingFunctors` up to the swap. -/
def beginFunctors : Option (EventLoop F) :=
  if loop.callingPendingFunctors then none
  else some { loop with
    callingPendingFunctors := true
    functors := loop.pendingFunctors
    pendingFunctors := []
    idle := by simp }

theorem beginFunctors_eq (h : loop.callingPendingFunctors = false) :
    loop.beginFunctors = loop.callFunctors.swapFunctors := by
  have hf : loop.functors = [] := loop.idle h
  simp [beginFunctors, swapFunctors, callFunctors, h, hf]

/-- The next functor of its loop. -/
def nextFunctor : Option (F × EventLoop F) :=
  match h : loop.functors with
  | [] => none
  | cb :: functors => some (cb, { loop with
      functors
      idle := fun hc => by simp [loop.idle hc] at h })

/-- The end of `DoPendingFunctors`. -/
def endFunctors : Option (EventLoop F) :=
  if h : loop.callingPendingFunctors = true ∧ loop.functors = [] then
    some { loop with
      callingPendingFunctors := false
      idle := fun _ => h.2 }
  else none

/-- The functors that have been queued and have not run, in the order in which they will. -/
def queued : List F := loop.functors ++ loop.pendingFunctors

@[simp] theorem queued_queueInLoop (b : Bool) (cb : F) :
    (loop.queueInLoop b cb).queued = loop.queued ++ [cb] := by
  simp [queued, queueInLoop]

variable {loop} {loop' : EventLoop F}

theorem queued_beginFunctors (h : loop.beginFunctors = some loop') :
    loop'.queued = loop.queued := by
  unfold beginFunctors at h
  split_ifs at h with hc
  cases h
  simp [queued, loop.idle (by simpa using hc)]

/-- The swap moves the queue over. -/
theorem swapFunctors_spec (h : loop.swapFunctors = some loop') :
    loop.functors = [] ∧ loop'.functors = loop.pendingFunctors ∧ loop'.pendingFunctors = [] ∧
      loop'.callingPendingFunctors = true := by
  unfold swapFunctors at h
  split_ifs at h with hc
  cases h
  exact ⟨hc.2, rfl, rfl, hc.1⟩

/-- Functors are called inside of `DoPendingFunctors` only, from the front. -/
theorem nextFunctor_spec {cb : F} (h : loop.nextFunctor = some (cb, loop')) :
    loop.functors = cb :: loop'.functors ∧ loop'.pendingFunctors = loop.pendingFunctors ∧
      loop.callingPendingFunctors = true ∧ loop'.callingPendingFunctors = true := by
  unfold nextFunctor at h
  split at h
  · cases h
  · rename_i cb' functors heq
    simp only [Option.some.injEq, Prod.mk.injEq] at h
    obtain ⟨rfl, rfl⟩ := h
    have hc : loop.callingPendingFunctors = true := by
      by_contra hc
      simp [loop.idle (by simpa using hc)] at heq
    exact ⟨heq, rfl, hc, hc⟩

theorem endFunctors_spec (h : loop.endFunctors = some loop') :
    loop'.functors = loop.functors ∧ loop'.pendingFunctors = loop.pendingFunctors ∧
      loop'.callingPendingFunctors = false := by
  unfold endFunctors at h
  split_ifs at h
  cases h
  exact ⟨rfl, rfl, rfl⟩

theorem queued_nextFunctor {cb : F} (h : loop.nextFunctor = some (cb, loop')) :
    loop.queued = cb :: loop'.queued := by
  obtain ⟨hfunctors, hpending, -, -⟩ := nextFunctor_spec h
  rw [queued, queued, hfunctors, hpending, List.cons_append]

theorem queued_endFunctors (h : loop.endFunctors = some loop') : loop'.queued = loop.queued := by
  obtain ⟨hfunctors, hpending, -⟩ := endFunctors_spec h
  rw [queued, queued, hfunctors, hpending]

end EventLoop

end MuduoCpp11.Net
