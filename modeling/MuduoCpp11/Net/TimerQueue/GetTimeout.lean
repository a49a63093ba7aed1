import MuduoCpp11.Net.TimerQueue.Schedule

/-! # Timers: the poll timeout of the Mach and Android builds

Without a timerfd, `Loop` passes `GetTimeout` to `poll(2)`: the milliseconds until the first timer
expires, as an `int`. The time in microseconds is a 64-bit number, and at least 1000; the division and
the conversion come behind. The conversion keeps the number only up to `2 ^ 32`, so the wait ends in
time exactly when the number of milliseconds is one of an `int` up to multiples of `2 ^ 32`
(`getTimeout_inTime_iff`); a timer 25 days ahead may be waited for without limit. -/

namespace MuduoCpp11.Net.TimerQueue.Mach

open MuduoCpp11.Base MuduoCpp11.Lib

variable {s : TimerQueue} {away : Address → Prop} {now earliest : Timestamp}

/-- `HowMuchTimeFromNow`, without the line it logs for a timer that is due. -/
def howMuchTimeFromNow (when now : Timestamp) : Int32 :=
  let microseconds := Int64.ofInt (when.microsecondsSinceEpoch - now.microsecondsSinceEpoch)
  let microseconds := if microseconds < 1000 then 1000 else microseconds
  (microseconds / 1000).toInt32

def getTimeout (s : TimerQueue) : Int32 :=
  match s.timers.begin? with
  | none => 10000
  | some e => howMuchTimeFromNow (s.timer e.timer).expiration s.clock

/-- `AddTimerInLoop` -/
def addTimerInLoop (s : TimerQueue) (timer : Address) : TimerQueue := (s.insert timer).1

/-- The end of the wait of `poll(2)` if nothing happens; it has none for a negative timeout. -/
def pollUntil (now : Timestamp) (timeoutMs : Int32) : Option Timestamp :=
  if timeoutMs < 0 then none else some ⟨now.microsecondsSinceEpoch + 1000 * timeoutMs.toInt⟩

/-- The timeout is positive, and ends when the first timer expires or a millisecond from now. -/
structure InTime (now earliest : Timestamp) (timeoutMs : Int32) : Prop where
  pos : 0 < timeoutMs.toInt
  le : now.microsecondsSinceEpoch + 1000 * timeoutMs.toInt ≤
    max earliest.microsecondsSinceEpoch (now.microsecondsSinceEpoch + 1000)

/-- The milliseconds of `d` microseconds are those of a positive `int`, up to a multiple of
`2 ^ 32`. -/
def FitsInt (d : ℤ) : Prop := d < 1000 ∨ 0 < d / 1000 % 2 ^ 32 ∧ d / 1000 % 2 ^ 32 < 2 ^ 31

/-- The earliest expiration of a timer in the queue. -/
def Earliest (s : TimerQueue) (earliest : Timestamp) : Prop :=
  IsLeast {w | ∃ e ∈ s.timers, (s.timer e.timer).expiration = w} earliest

theorem getTimeout_eq (h : Sets away s) (he : Earliest s earliest) :
    getTimeout s = howMuchTimeFromNow earliest s.clock := by
  have hwhen : ∀ e ∈ s.timers, (s.timer e.timer).expiration = e.when := by
    intro e hm
    obtain ⟨t, ht, -, hw⟩ := (h.timers e).mp hm
    rw [timer_eq ht, hw]
  obtain ⟨⟨f, hf, hfw⟩, hmin⟩ := he
  obtain ⟨e, hbegin⟩ := OrderedSet.exists_begin? hf
  have hmem := OrderedSet.begin?_mem hbegin
  have hle : (s.timer e.timer).expiration ≤ earliest := by
    rw [← hfw, hwhen e hmem, hwhen f hf]
    exact Entry.when_le (OrderedSet.begin?_le hbegin hf)
  have heq : (s.timer e.timer).expiration = earliest := le_antisymm hle (hmin ⟨e, hmem, rfl⟩)
  simp only [getTimeout, hbegin, heq]

/-- The clamp and the division are exact on a difference of 64 bits; the conversion to `int` takes
the rest mod `2 ^ 32`. -/
theorem toInt_howMuchTimeFromNow {d : ℤ}
    (hd : earliest.microsecondsSinceEpoch - now.microsecondsSinceEpoch = d)
    (hlow : -2 ^ 63 ≤ d) (hhigh : d < 2 ^ 63) :
    (howMuchTimeFromNow earliest now).toInt = (max d 1000 / 1000).bmod (2 ^ 32) := by
  have hof : (Int64.ofInt d).toInt = d := Int64.toInt_ofInt_of_le hlow hhigh
  have hthousand : (1000 : Int64).toInt = 1000 := rfl
  have hclamp : (if Int64.ofInt d < 1000 then 1000 else Int64.ofInt d).toInt = max d 1000 := by
    by_cases hlt : d < 1000
    · rw [if_pos (by rw [Int64.lt_iff_toInt_lt, hof, hthousand]; exact hlt), hthousand]
      omega
    · rw [if_neg (by rw [Int64.lt_iff_toInt_lt, hof, hthousand]; exact hlt), hof]
      omega
  simp only [howMuchTimeFromNow, hd]
  rw [Int64.toInt_toInt32, Int64.toInt_div_of_ne_right _ _ (by decide), hclamp, hthousand,
    Int.tdiv_eq_ediv_of_nonneg (by omega)]

/-- **The timeout is in time exactly if the milliseconds fit.** For every queue with timers and every
time such that the difference to the earliest expiration is one of 64 bits. -/
theorem getTimeout_inTime_iff (h : Sets away s) (he : Earliest s earliest) {d : ℤ}
    (hd : earliest.microsecondsSinceEpoch - s.clock.microsecondsSinceEpoch = d)
    (hlow : -2 ^ 63 ≤ d) (hhigh : d < 2 ^ 63) :
    InTime s.clock earliest (getTimeout s) ↔ FitsInt d := by
  have htimeout := toInt_howMuchTimeFromNow hd hlow hhigh
  rw [← getTimeout_eq h he, Int.bmod_def] at htimeout
  unfold FitsInt
  constructor
  · rintro ⟨hpos, -⟩
    omega
  · intro hfits
    refine ⟨?_, ?_⟩
    · omega
    · omega

/-! ### Delays in days -/

/-- A new queue with one timer. -/
def single (now when : Timestamp) : TimerQueue :=
  addTimerInLoop ((new now 0).create 1 when .zero) 1

theorem heap_create_one (now when : Timestamp) :
    ((new now 0).create 1 when .zero).heap 1 = some ⟨when, .zero, 1⟩ := rfl

theorem single_eq (now when : Timestamp) :
    single now when = ((new now 0).create 1 when .zero).inserted 1 ⟨when, .zero, 1⟩ := by
  have hsets := (inv_new now 0).sets.create (a := 1) rfl when .zero
  rw [single, addTimerInLoop, hsets.insert_eq (Or.inr rfl) (heap_create_one now when)]

theorem sets_single (now when : Timestamp) : ∃ away, Sets away (single now when) := by
  have hsets := (inv_new now 0).sets.create (a := 1) rfl when .zero
  rw [single_eq]
  exact ⟨_, hsets.inserted (Or.inr rfl) (heap_create_one now when)⟩

theorem earliest_single (now when : Timestamp) : Earliest (single now when) when := by
  have hmem : ∀ e, e ∈ (single now when).timers ↔ e = ⟨when, 1⟩ := by
    intro e
    rw [single_eq]
    simp [inserted, create, new]
  have htimer : ((single now when).timer 1).expiration = when := by
    rw [single_eq]
    simp [TimerQueue.timer, inserted, create]
  refine ⟨⟨⟨when, 1⟩, (hmem _).mpr rfl, htimer⟩, ?_⟩
  rintro w ⟨e, he, rfl⟩
  rw [(hmem e).mp he]
  exact htimer.ge

/-- A timer in 24 days is waited for in time. -/
theorem getTimeout_inTime_days :
    InTime ⟨1700000000 * 10 ^ 6⟩ ⟨(1700000000 + 24 * 86400) * 10 ^ 6⟩
      (getTimeout (single ⟨1700000000 * 10 ^ 6⟩ ⟨(1700000000 + 24 * 86400) * 10 ^ 6⟩)) := by
  obtain ⟨away, hsets⟩ :=
    sets_single ⟨1700000000 * 10 ^ 6⟩ ⟨(1700000000 + 24 * 86400) * 10 ^ 6⟩
  exact (getTimeout_inTime_iff (d := 24 * 86400 * 10 ^ 6) hsets (earliest_single _ _) (by decide)
    (by decide) (by decide)).mpr (Or.inr (by decide))

/-- **A timer in 30 days**: the timeout is negative, and `poll` waits without limit. -/
theorem getTimeout_thirty_days :
    ∃ s away, s = single ⟨1700000000 * 10 ^ 6⟩ ⟨(1700000000 + 30 * 86400) * 10 ^ 6⟩ ∧
      Sets away s ∧ Earliest s ⟨(1700000000 + 30 * 86400) * 10 ^ 6⟩ ∧
      (getTimeout s).toInt = -1702967296 ∧ pollUntil s.clock (getTimeout s) = none ∧
      ¬ InTime s.clock ⟨(1700000000 + 30 * 86400) * 10 ^ 6⟩ (getTimeout s) := by
  obtain ⟨away, hsets⟩ :=
    sets_single ⟨1700000000 * 10 ^ 6⟩ ⟨(1700000000 + 30 * 86400) * 10 ^ 6⟩
  have hneg : (getTimeout (single ⟨1700000000 * 10 ^ 6⟩
      ⟨(1700000000 + 30 * 86400) * 10 ^ 6⟩)).toInt = -1702967296 := by
    decide +kernel
  refine ⟨_, away, rfl, hsets, earliest_single _ _, hneg, ?_, ?_⟩
  · have hlt : getTimeout (single ⟨1700000000 * 10 ^ 6⟩
        ⟨(1700000000 + 30 * 86400) * 10 ^ 6⟩) < 0 := by
      rw [Int32.lt_iff_toInt_lt, hneg]
      decide
    rw [pollUntil, if_pos hlt]
  · rintro ⟨hpos, -⟩
    rw [hneg] at hpos
    exact absurd hpos (by decide)

end MuduoCpp11.Net.TimerQueue.Mach
