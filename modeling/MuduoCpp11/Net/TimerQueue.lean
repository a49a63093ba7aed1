import Mathlib.Data.Prod.Lex
import MuduoCpp11.Base.Timestamp
import MuduoCpp11.Lib.OrderedSet
import MuduoCpp11.Lib.Run

/-! # The timer queue

A `TimerQueue` holds raw pointers to `Timer` objects in two ordered sets, `timers_` by expiration and
`active_timers_` by address and sequence number. `HandleRead` moves the expired timers out of both
into a local vector, runs their callbacks, and gives the vector to `Reset`, which arms the repeating
ones again and deletes the others. A callback is user code: between two calls of `Run` the queue may
be used through `AddTimer` and `Cancel`.

`heap` is the memory, a pointer without an object is dangling. A failed assertion, and the use of a
dangling pointer, is noted in `failed`. The timerfd is a one-shot timer on the clock that
`Timestamp::Now` reads. `log` is the history: what the queue was asked for and what it did. -/

namespace MuduoCpp11.Net

open MuduoCpp11.Base MuduoCpp11.Lib

/-! ### Timers -/

/-- A `Timer*`. -/
abbrev Address := ℕ

def uintptrMax : Address := 2 ^ 64 - 1

/-- What the code reads of a `double` interval: whether it is above `0.0`, and its microseconds after
the `static_cast`, which rounds towards zero. -/
structure Interval where
  positive : Bool
  micros : ℤ
  nonneg : positive = true → 0 ≤ micros
  deriving DecidableEq

/-- An interval of whole microseconds. -/
def Interval.ofMicros (m : ℕ) : Interval := ⟨decide (0 < m), m, by simp⟩

/-- `0.0`, the interval of a timer that does not repeat. -/
def Interval.zero : Interval := .ofMicros 0

def addTime (timestamp : Timestamp) (seconds : Interval) : Timestamp :=
  ⟨timestamp.microsecondsSinceEpoch + seconds.micros⟩

structure Timer where
  expiration : Timestamp := .invalid
  interval : Interval := .zero
  sequence : ℕ := 0
  deriving DecidableEq

def Timer.repeat_ (t : Timer) : Bool := t.interval.positive

def Timer.restart (t : Timer) (now : Timestamp) : Timer :=
  { t with expiration := if t.repeat_ then addTime now t.interval else .invalid }

@[simp] theorem Timer.restart_sequence (t : Timer) (now : Timestamp) :
    (t.restart now).sequence = t.sequence := rfl

/-- An entry of `timers_`. -/
@[ext] structure Entry where
  when : Timestamp
  timer : Address

/-- A `TimerId`, and an entry of `active_timers_`. -/
@[ext] structure TimerId where
  timer : Address
  sequence : ℕ

namespace Entry

/-- A `std::pair` is ordered by its first component, then by its second. -/
instance : LinearOrder Entry :=
  LinearOrder.lift' (fun e => toLex (e.when, e.timer)) fun a b h => by
    cases a
    cases b
    simpa using h

theorem lt_iff {a b : Entry} : a < b ↔ a.when < b.when ∨ a.when = b.when ∧ a.timer < b.timer :=
  Prod.Lex.toLex_lt_toLex

theorem le_iff {a b : Entry} : a ≤ b ↔ a.when < b.when ∨ a.when = b.when ∧ a.timer ≤ b.timer :=
  Prod.Lex.toLex_le_toLex

theorem when_le {a b : Entry} (h : a ≤ b) : a.when ≤ b.when := by
  rcases le_iff.mp h with h | h
  · exact h.le
  · exact h.1.le

end Entry

instance : LinearOrder TimerId :=
  LinearOrder.lift' (fun id => toLex (id.timer, id.sequence)) fun a b h => by
    cases a
    cases b
    simpa using h

/-! ### The timerfd -/

structure Timespec where
  tvSec : ℤ
  tvNsec : ℤ
  deriving DecidableEq

def Timespec.valid (ts : Timespec) : Bool := 0 ≤ ts.tvSec ∧ 0 ≤ ts.tvNsec ∧ ts.tvNsec < 10 ^ 9

def Timespec.zero (ts : Timespec) : Bool := ts.tvSec = 0 ∧ ts.tvNsec = 0

def howMuchTimeFromNow (when now : Timestamp) : Timespec :=
  let microseconds := when.microsecondsSinceEpoch - now.microsecondsSinceEpoch
  let microseconds := if microseconds < 100 then 100 else microseconds
  { tvSec := microseconds / Timestamp.kMicroSecondsPerSecond
    tvNsec := (microseconds % Timestamp.kMicroSecondsPerSecond) * 1000 }

/-- The setting of a timerfd and the time at which it was made. `delay` tells how long before that
`Timestamp::Now()` was called for it. -/
structure Arming where
  value : Timespec
  at_ : Timestamp
  delay : ℕ
  deriving DecidableEq

def Arming.deadline (a : Arming) : Timestamp :=
  ⟨a.at_.microsecondsSinceEpoch + a.value.tvSec * 10 ^ 6 + a.value.tvNsec / 1000⟩

/-- `timerfd_settime` replaces the setting; a zero value disarms, an invalid one is refused. -/
def timerfdSettime (timerfd : Option Arming) (value : Timespec) (now : Timestamp) (delay : ℕ) :
    Option Arming :=
  if !value.valid then timerfd
  else if value.zero then none
  else some ⟨value, now, delay⟩

/-! ### The queue -/

/-- The run of `HandleRead` that is in progress; `rest` are the callbacks that are still to be
called. -/
structure Batch where
  now : Timestamp
  expired : List Entry
  rest : List Entry

inductive TimerQueue.Assertion where
  | insert
  | cancelInLoop
  | getExpired
  | pointer
  deriving DecidableEq, Repr

inductive TimerQueue.Event where
  | added (timer : Address) (t : Timer)
  | cancelled (id : TimerId)
  | started (id : TimerId)
  | deleted (id : TimerId)
  deriving DecidableEq

/-- `waiting` are the timers that another thread has created and that `AddTimerInLoop` has not seen
yet. `s_num_created_` counts the timers of all queues. -/
structure TimerQueue where
  heap : Address → Option Timer := fun _ => none
  numCreated : ℕ
  timers : OrderedSet Entry := ∅
  activeTimers : OrderedSet TimerId := ∅
  callingExpiredTimers : Bool := false
  cancelingTimers : OrderedSet TimerId := ∅
  timerfd : Option Arming := none
  clock : Timestamp
  batch : Option Batch := none
  waiting : Finset Address := ∅
  log : List TimerQueue.Event := []
  failed : List TimerQueue.Assertion := []

namespace TimerQueue

/-- The constructor. -/
def new (clock : Timestamp) (numCreated : ℕ) : TimerQueue := { clock, numCreated }

section
variable (s : TimerQueue)

def assert (a : Assertion) (p : Bool) : TimerQueue :=
  if p then s else { s with failed := s.failed ++ [a] }

def note (e : Event) : TimerQueue := { s with log := s.log ++ [e] }

/-- The object behind a pointer. -/
def timer (a : Address) : Timer := (s.heap a).getD {}

def deref (a : Address) : TimerQueue := s.assert .pointer (s.heap a).isSome

def idOf (a : Address) : TimerId := ⟨a, (s.timer a).sequence⟩

def delete (a : Address) : TimerQueue :=
  let s := s.deref a
  { s.note (.deleted (s.idOf a)) with heap := Function.update s.heap a none }

def sizesAgree : Bool := s.timers.size = s.activeTimers.size

/-- Time goes on. -/
def elapse (micros : ℕ) : TimerQueue :=
  { s with clock := ⟨s.clock.microsecondsSinceEpoch + micros⟩ }

/-- `ResetTimerfd`; the timerfd is set `delay` microseconds after the clock has been read. -/
def resetTimerfd (expiration : Timestamp) (delay : ℕ) : TimerQueue :=
  let newValue := howMuchTimeFromNow expiration s.clock
  let s := s.elapse delay
  { s with timerfd := timerfdSettime s.timerfd newValue s.clock delay }

def readable : Bool := s.timerfd.any fun a => a.deadline ≤ s.clock

/-- A read of a one-shot timer that has not expired fails with `EAGAIN`. -/
def readTimerfd : TimerQueue := if s.readable then { s with timerfd := none } else s

/-- `Insert`. -/
def insert (timer : Address) : TimerQueue × Bool :=
  let s := (s.assert .insert s.sizesAgree).deref timer
  let when := (s.timer timer).expiration
  let earliestChanged := s.timers.begin?.all fun e => when < e.when
  let result := s.timers.insert ⟨when, timer⟩
  let s := { s with timers := result.1 }.assert .insert result.2
  let result := s.activeTimers.insert (s.idOf timer)
  let s := { s with activeTimers := result.1 }.assert .insert result.2
  (s.assert .insert s.sizesAgree, earliestChanged)

def addTimerInLoop (timer : Address) (delay : ℕ) : TimerQueue :=
  let s := s.note (.added timer (s.timer timer))
  let result := s.insert timer
  if result.2 then result.1.resetTimerfd (s.timer timer).expiration delay
  else result.1.elapse delay

def cancelInLoop (timerId : TimerId) : TimerQueue :=
  let s := (s.note (.cancelled timerId)).assert .cancelInLoop s.sizesAgree
  let s :=
    if timerId ∈ s.activeTimers then
      let s := s.deref timerId.timer
      let erased := s.timers.erase ⟨(s.timer timerId.timer).expiration, timerId.timer⟩
      let s := { s with timers := erased.1 }.assert .cancelInLoop (erased.2 = 1)
      let s := s.delete timerId.timer
      { s with activeTimers := (s.activeTimers.erase timerId).1 }
    else if s.callingExpiredTimers then
      { s with cancelingTimers := (s.cancelingTimers.insert timerId).1 }
    else s
  s.assert .cancelInLoop s.sizesAgree

/-- One round of the loop of `GetExpired`. -/
def eraseActive (e : Entry) : TimerQueue :=
  let s := s.deref e.timer
  let erased := s.activeTimers.erase (s.idOf e.timer)
  { s with activeTimers := erased.1 }.assert .getExpired (erased.2 = 1)

def getExpired (now : Timestamp) : TimerQueue × List Entry :=
  let s := s.assert .getExpired s.sizesAgree
  let split := s.timers.lowerBound ⟨now, uintptrMax⟩
  let s := s.assert .getExpired (split.2.begin?.all fun e => now < e.when)
  let s := split.1.foldl eraseActive { s with timers := split.2 }
  (s.assert .getExpired s.sizesAgree, split.1)

/-- One round of the loop of `Reset`. -/
def resetOne (now : Timestamp) (e : Entry) : TimerQueue :=
  let s := s.deref e.timer
  let t := s.timer e.timer
  if t.repeat_ && s.idOf e.timer ∉ s.cancelingTimers then
    ({ s with heap := Function.update s.heap e.timer (some (t.restart now)) }.insert e.timer).1
  else s.delete e.timer

/-- The expiration of the first timer, invalid if there is none. -/
def nextExpire : Timestamp :=
  match s.timers.begin? with
  | none => .invalid
  | some e => (s.timer e.timer).expiration

def reset (expired : List Entry) (now : Timestamp) (delay : ℕ) : TimerQueue :=
  let s := expired.foldl (fun s e => s.resetOne now e) s
  let s := s.timers.begin?.elim s fun e => s.deref e.timer
  if s.nextExpire.valid then s.resetTimerfd s.nextExpire delay else s.elapse delay

/-- `HandleRead` up to the first callback; the timerfd is read `delay` microseconds after the
clock. -/
def beginHandleRead (delay : ℕ) : TimerQueue :=
  let now := s.clock
  let s := (s.elapse delay).readTimerfd
  let result := s.getExpired now
  { result.1 with
    callingExpiredTimers := true
    cancelingTimers := ∅
    batch := some ⟨now, result.2, result.2⟩ }

/-- `HandleRead` after the last callback. -/
def endHandleRead (b : Batch) (delay : ℕ) : TimerQueue :=
  { { s with callingExpiredTimers := false }.reset b.expired b.now delay with batch := none }

/-- `new Timer`. -/
def create (a : Address) (when : Timestamp) (interval : Interval) : TimerQueue :=
  { s with
    heap := Function.update s.heap a (some ⟨when, interval, s.numCreated + 1⟩)
    numCreated := s.numCreated + 1 }

/-- An address that `new` may return: no live timer has it, and the object does not wrap around the
end of the memory. -/
def free (a : Address) : Bool := (s.heap a).isNone && a < uintptrMax

/-- The loop thread is in user code: outside of `HandleRead`, or in a callback of it. -/
def inUserCode : Bool := s.batch.all fun b => b.rest.length < b.expired.length

end

/-! ### Runs -/

/-- What happens to a queue. `addTimer` and `cancel` are the calls on the loop thread, which are
executed at once; `newTimer` is the constructor call of an `AddTimer` on another thread, whose
`addTimerInLoop` comes later. `delay` is how long the thread is held up in the call, between a read of
the clock and the call of the kernel behind it. -/
inductive Act where
  | tick (micros : ℕ)
  | newElsewhere
  | newTimer (a : Address) (when : Timestamp) (interval : Interval)
  | addTimerInLoop (a : Address) (delay : ℕ := 0)
  | addTimer (a : Address) (when : Timestamp) (interval : Interval) (delay : ℕ := 0)
  | cancel (id : TimerId)
  | handleRead (delay : ℕ)
  | runTimer
  | reset (delay : ℕ := 0)

def step (s : TimerQueue) : Act → Option TimerQueue
  | .tick micros => some (s.elapse micros)
  | .newElsewhere => some { s with numCreated := s.numCreated + 1 }
  | .newTimer a when interval =>
    if s.free a then some { s.create a when interval with waiting := s.waiting ∪ {a} } else none
  | .addTimerInLoop a delay =>
    if a ∈ s.waiting ∧ s.batch.isNone then
      some ({ s with waiting := s.waiting.erase a }.addTimerInLoop a delay)
    else none
  | .addTimer a when interval delay =>
    if s.free a ∧ s.inUserCode then some ((s.create a when interval).addTimerInLoop a delay) else none
  | .cancel id => if s.inUserCode then some (s.cancelInLoop id) else none
  | .handleRead delay => if s.batch.isNone then some (s.beginHandleRead delay) else none
  | .runTimer =>
    match s.batch with
    | some ⟨now, expired, e :: rest⟩ =>
      some { (s.deref e.timer).note (.started (s.idOf e.timer)) with
        batch := some ⟨now, expired, rest⟩ }
    | _ => none
  | .reset delay =>
    match s.batch with
    | some ⟨now, expired, []⟩ => some (s.endHandleRead ⟨now, expired, []⟩ delay)
    | _ => none

def run : TimerQueue → List Act → Option TimerQueue := Run.run step

end TimerQueue

end MuduoCpp11.Net
