import Mathlib.Tactic

/-! # Channels

A channel is a file descriptor with the events it is interested in (`events`) and the events it has
got (`revents`), both bit masks of `poll(2)`. The operations below set the mask as the ones of the
source do; the call of `Update()` behind each of them belongs to whoever owns the channel, and leaves
its trace in `addedToLoop`.

What the mask says about writing is a matter of one bit: it is set by `EnableWriting`, cleared by
`DisableWriting` and `DisableAll`, and kept by the others. -/

namespace MuduoCpp11.Net

def POLLIN : BitVec 32 := 0x001
def POLLPRI : BitVec 32 := 0x002
def POLLOUT : BitVec 32 := 0x004
def POLLERR : BitVec 32 := 0x008
def POLLHUP : BitVec 32 := 0x010
def POLLNVAL : BitVec 32 := 0x020
def POLLRDHUP : BitVec 32 := 0x2000

def kNoneEvent : BitVec 32 := 0
def kReadEvent : BitVec 32 := POLLIN ||| POLLPRI
def kWriteEvent : BitVec 32 := POLLOUT

/-- Some bit of `mask` is set in `e`. -/
def hasEvent (e mask : BitVec 32) : Bool := e &&& mask ≠ 0

/-- `index` is the poller's own mark. -/
structure Channel where
  fd : ℤ
  events : BitVec 32 := kNoneEvent
  revents : BitVec 32 := 0
  index : ℤ := -1
  tied : Bool := false
  eventHandling : Bool := false
  addedToLoop : Bool := false
  deriving DecidableEq, Repr

namespace Channel

variable (c : Channel)

def setRevents (revt : BitVec 32) : Channel := { c with revents := revt }

def setIndex (idx : ℤ) : Channel := { c with index := idx }

def tie : Channel := { c with tied := true }

def isNoneEvent : Bool := c.events = kNoneEvent

def isWriting : Bool := hasEvent c.events kWriteEvent

/-- The mask is replaced and the loop is told. -/
def setEvents (events : BitVec 32) : Channel := { c with events, addedToLoop := true }

def enableReading : Channel := c.setEvents (c.events ||| kReadEvent)

def disableReading : Channel := c.setEvents (c.events &&& ~~~kReadEvent)

def enableWriting : Channel := c.setEvents (c.events ||| kWriteEvent)

def disableWriting : Channel := c.setEvents (c.events &&& ~~~kWriteEvent)

def disableAll : Channel := c.setEvents kNoneEvent

/-- `Remove()`, the assertion and the call of the loop apart. -/
def remove : Channel := { c with addedToLoop := false }

/-! ### The bit for writing -/

@[simp] theorem isWriting_enableWriting : c.enableWriting.isWriting = true := by
  have hne : ¬ kWriteEvent = 0#32 := by decide
  simp [isWriting, hasEvent, enableWriting, setEvents, BitVec.and_or_distrib_right,
    BitVec.or_eq_zero_iff, hne]

@[simp] theorem isWriting_disableWriting : c.disableWriting.isWriting = false := by
  have h : ~~~kWriteEvent &&& kWriteEvent = 0#32 := by decide
  simp [isWriting, hasEvent, disableWriting, setEvents, BitVec.and_assoc, h]

@[simp] theorem isWriting_enableReading : c.enableReading.isWriting = c.isWriting := by
  have h : kReadEvent &&& kWriteEvent = 0#32 := by decide
  simp [isWriting, hasEvent, enableReading, setEvents, BitVec.and_or_distrib_right, h]

end Channel

end MuduoCpp11.Net
