import MuduoCpp11.Net.TimerQueue.Reachable

/-! # Timers: the timerfd

Outside of `HandleRead` the timerfd is armed in time for the first timer (`timerfd_in_time`). Inside
of it this holds only of a first timer that is not later than `now`: the callbacks add such a timer
with `AddTimer`, which arms the timerfd, while the end of the batch arms it for every first timer that
is `Valid()`. A timer that the end adds itself is later than `now` and so is valid. -/

namespace MuduoCpp11.Net.TimerQueue

open MuduoCpp11.Base MuduoCpp11.Lib

variable {s s' : TimerQueue} {act : Act} {fd : Option Arming} {when clock : Timestamp}

/-- The timerfd is set for a time that is not later than `when`, but for the delay between the read of
the clock and the setting, or 100 microseconds after it was set. -/
def Covers (fd : Option Arming) (when : Timestamp) : Prop :=
  ∃ a, fd = some a ∧ a.value.valid ∧ ¬ a.value.zero ∧
    a.deadline ≤ max ⟨when.microsecondsSinceEpoch + a.delay⟩ ⟨a.at_.microsecondsSinceEpoch + 100⟩

theorem Covers.mono {when' : Timestamp} (h : Covers fd when) (hle : when ≤ when') :
    Covers fd when' := by
  obtain ⟨a, ha, hv, hz, hd⟩ := h
  refine ⟨a, ha, hv, hz, hd.trans (max_le_max_right _ ?_)⟩
  rw [Timestamp.le_iff] at hle ⊢
  simpa using hle

/-- `ResetTimerfd` asks for at least 100 microseconds, so that its value neither is invalid nor
disarms. -/
theorem covers_resetTimerfd (s : TimerQueue) (when : Timestamp) (delay : ℕ) :
    Covers (s.resetTimerfd when delay).timerfd when := by
  obtain ⟨m, hm, hle, hmax⟩ : ∃ m : ℤ, howMuchTimeFromNow when s.clock =
      ⟨m / 1000000, m % 1000000 * 1000⟩ ∧ 100 ≤ m ∧
      s.clock.microsecondsSinceEpoch + m ≤
        max when.microsecondsSinceEpoch (s.clock.microsecondsSinceEpoch + 100) := by
    unfold howMuchTimeFromNow
    refine ⟨_, rfl, ?_, ?_⟩
    · split_ifs <;> omega
    · split_ifs <;> omega
  have hvalid : (howMuchTimeFromNow when s.clock).valid = true := by
    rw [hm]
    simp only [Timespec.valid, decide_eq_true_eq]
    omega
  have hzero : (howMuchTimeFromNow when s.clock).zero = false := by
    rw [hm]
    simp only [Timespec.zero, decide_eq_false_iff_not]
    omega
  have hset : (s.resetTimerfd when delay).timerfd = some ⟨howMuchTimeFromNow when s.clock,
      ⟨s.clock.microsecondsSinceEpoch + delay⟩, delay⟩ := by
    simp [resetTimerfd, elapse, timerfdSettime, hvalid, hzero]
  refine ⟨_, hset, hvalid, by simp [hzero], ?_⟩
  have hdead : (⟨howMuchTimeFromNow when s.clock, ⟨s.clock.microsecondsSinceEpoch + delay⟩,
      delay⟩ : Arming).deadline = ⟨s.clock.microsecondsSinceEpoch + delay + m⟩ := by
    simp only [Arming.deadline, hm, Timestamp.mk.injEq]
    omega
  rw [hdead, le_max_iff, Timestamp.le_iff, Timestamp.le_iff]
  simp only
  omega

structure Armed (s : TimerQueue) : Prop where
  clock : 0 < s.clock.microsecondsSinceEpoch
  now : ∀ b, s.batch = some b → 0 < b.now.microsecondsSinceEpoch
  first : ∀ e, s.timers.begin? = some e → (∀ b, s.batch = some b → e.when ≤ b.now) →
    Covers s.timerfd e.when

theorem Armed.of_eq (h : s.Armed) (hclock : s.clock ≤ s'.clock) (hbatch : s'.batch = s.batch)
    (htimers : s'.timers = s.timers) (hfd : s'.timerfd = s.timerfd) : s'.Armed where
  clock := h.clock.trans_le hclock
  now := hbatch ▸ h.now
  first := by
    rw [htimers, hbatch, hfd]
    exact h.first

/-- Inserting an entry: either it comes first and the timerfd is set for it, or the first entry keeps
its time. -/
theorem Armed.insert (h : s.Armed) {a : Address} {delay : ℕ} (hclock : s.clock ≤ s'.clock)
    (hbatch : s'.batch = s.batch) (htimers : s'.timers = (s.timers.insert ⟨when, a⟩).1)
    (hfd : s'.timerfd = s.timerfdAfterAdd when delay) : s'.Armed where
  clock := h.clock.trans_le hclock
  now := hbatch ▸ h.now
  first := by
    intro e he hin
    rw [htimers] at he
    rw [hbatch] at hin
    have hmem := OrderedSet.mem_insert.mp (OrderedSet.begin?_mem he)
    rw [hfd]
    unfold timerfdAfterAdd
    split_ifs with hall
    · -- no older entry comes before the new one
      have hle : e ≤ ⟨when, a⟩ :=
        OrderedSet.begin?_le he (OrderedSet.mem_insert.mpr (Or.inl rfl))
      have hwhen : when ≤ e.when := by
        rcases hmem with rfl | hold
        · exact le_rfl
        · obtain ⟨b, hb⟩ := OrderedSet.exists_begin? hold
          rw [hb, Option.all_some, decide_eq_true_eq] at hall
          exact hall.le.trans (Entry.when_le (OrderedSet.begin?_le hb hold))
      exact (covers_resetTimerfd s when delay).mono hwhen
    · obtain ⟨b, hb, hbw⟩ : ∃ b, s.timers.begin? = some b ∧ b.when ≤ when := by
        cases hb : s.timers.begin? with
        | none => simp [hb] at hall
        | some b => exact ⟨b, rfl, by simpa [hb] using hall⟩
      have heb : e.when ≤ b.when :=
        Entry.when_le (OrderedSet.begin?_le he
          (OrderedSet.mem_insert.mpr (Or.inr (OrderedSet.begin?_mem hb))))
      have hbe : b.when ≤ e.when := by
        rcases hmem with rfl | hold
        · exact hbw
        · exact Entry.when_le (OrderedSet.begin?_le hb hold)
      exact (h.first b hb fun b' hb' => hbe.trans (hin b' hb')).mono hbe

/-- Entries may be removed without arming anew. -/
theorem Armed.remove (h : s.Armed) (hclock : s'.clock = s.clock) (hbatch : s'.batch = s.batch)
    (htimers : ∀ e, e ∈ s'.timers → e ∈ s.timers) (hfd : s'.timerfd = s.timerfd) : s'.Armed where
  clock := hclock ▸ h.clock
  now := hbatch ▸ h.now
  first := by
    intro e he hin
    have hold := htimers e (OrderedSet.begin?_mem he)
    obtain ⟨b, hb⟩ := OrderedSet.exists_begin? hold
    have hbe := Entry.when_le (OrderedSet.begin?_le hb hold)
    rw [hbatch] at hin
    rw [hfd]
    exact (h.first b hb fun b' hb' => hbe.trans (hin b' hb')).mono hbe

/-- After `GetExpired` every entry is later than `now`. -/
theorem Armed.handleRead (hinv : s.Inv) (h : s.Armed) {delay : ℕ} (hs : s' = s.beginHandleRead delay) :
    s'.Armed := by
  obtain ⟨T, A, heq, -, hmem⟩ := s.beginHandleRead_eq hinv delay
  rw [heq] at hs
  subst hs
  refine ⟨?_, ?_, ?_⟩
  · show 0 < s.clock.microsecondsSinceEpoch + delay
    have := h.clock
    omega
  · intro b hb
    cases hb
    exact h.clock
  · intro e he hin
    have hlt : s.clock < e.when := ((hmem e).mp (OrderedSet.begin?_mem he)).2
    exact absurd (hin _ rfl) (not_le.mpr hlt)

/-- At the end of the batch the first entry is valid, or it was there before. -/
theorem Armed.reset (hinv : s.Inv) (h : s.Armed) {now : Timestamp} {expired : List Entry}
    (hb : s.batch = some ⟨now, expired, []⟩) {delay : ℕ}
    (hs : s' = s.endHandleRead ⟨now, expired, []⟩ delay) : s'.Armed := by
  obtain ⟨T, A, heq, hsets⟩ := s.endHandleRead_eq hinv hb delay
  rw [← hs] at heq hsets
  have hnow : 0 < now.microsecondsSinceEpoch := h.now _ hb
  have hbatch : s'.batch = none := by rw [heq]
  have htimers : s'.timers = T := by rw [heq]
  have hfd : s'.timerfd = s.timerfdAfterReset T delay := by rw [heq]
  refine ⟨?_, by simp [hbatch], ?_⟩
  · rw [heq]
    exact h.clock.trans_le (Schedule.le_elapse _ delay)
  · intro e he _
    have hnext : T.begin?.elim Timestamp.invalid Entry.when = e.when := by
      rw [← htimers, he]
      rfl
    rw [hfd]
    unfold timerfdAfterReset
    simp only [hnext]
    split_ifs with hv
    · exact covers_resetTimerfd s _ delay
    · have hle : e.when.microsecondsSinceEpoch ≤ 0 := by
        rw [Timestamp.valid_iff] at hv
        omega
      obtain ⟨t, ht, hna, hw⟩ := (hsets.timers e).mp (OrderedSet.begin?_mem he)
      have hheap : s'.heap e.timer =
          if e.timer ∈ expired.map Entry.timer then s.kept now e.timer else s.heap e.timer := by
        rw [heq]
      by_cases hin : e.timer ∈ expired.map Entry.timer
      · -- a timer of the batch expires after `now` again
        rw [hheap, if_pos hin] at ht
        obtain ⟨t₀, -, hrep, -, rfl⟩ := kept_eq_some.mp ht
        have hpos := t₀.interval.nonneg hrep
        have hexp : (t₀.restart now).expiration = addTime now t₀.interval := by
          simp [Timer.restart, hrep]
        rw [hw, hexp] at hle
        simp only [addTime] at hle
        omega
      · rw [hheap, if_neg hin] at ht
        have hold : e ∈ s.timers := (hinv.sets.timers e).mpr ⟨t, ht, fun ha => hna ⟨ha, hin⟩, hw⟩
        obtain ⟨b, hbegin⟩ := OrderedSet.exists_begin? hold
        have hbe := Entry.when_le (OrderedSet.begin?_le hbegin hold)
        refine (h.first b hbegin fun b' hb' => ?_).mono hbe
        rw [hb, Option.some.injEq] at hb'
        subst hb'
        rw [Timestamp.le_iff] at hbe ⊢
        simp only
        omega

theorem Armed.step (hinv : s.Inv) (h : s.Armed) (hs : step s act = some s') : s'.Armed := by
  cases act with
  | tick d =>
    cases hs
    exact h.of_eq (Schedule.le_elapse _ d) rfl rfl rfl
  | newElsewhere =>
    cases hs
    exact h.of_eq le_rfl rfl rfl rfl
  | newTimer a when interval =>
    obtain ⟨-, hs⟩ := Option.ite_none_right_eq_some.mp hs
    cases hs
    exact h.of_eq le_rfl rfl rfl rfl
  | addTimerInLoop a delay =>
    obtain ⟨⟨hw, -⟩, hs⟩ := Option.ite_none_right_eq_some.mp hs
    obtain ⟨t, ht⟩ := hinv.schedule.waiting a hw
    have hsets : Sets s.schedule.Away { s with waiting := s.waiting.erase a } :=
      hinv.sets.of_eq rfl rfl rfl
    have ht' : { s with waiting := s.waiting.erase a }.heap a = some t := ht
    have haway : s.schedule.Away a := Or.inl hw
    rw [hsets.addTimerInLoop_eq haway ht' delay, Option.some.injEq] at hs
    subst hs
    exact h.insert (Schedule.le_elapse _ delay) rfl rfl rfl
  | addTimer a when interval delay =>
    obtain ⟨⟨hfree, -⟩, hs⟩ := Option.ite_none_right_eq_some.mp hs
    have hc := hinv.sets.create (free_iff.mp hfree).1 when interval
    have ht : (s.create a when interval).heap a = some ⟨when, interval, s.numCreated + 1⟩ :=
      Function.update_self _ _ _
    rw [hc.addTimerInLoop_eq (Or.inr rfl) ht delay, Option.some.injEq] at hs
    subst hs
    exact h.insert (Schedule.le_elapse _ delay) rfl rfl rfl
  | cancel id =>
    have hs := eq_of_step_cancel hs
    by_cases hid : id ∈ s.activeTimers
    · obtain ⟨t, -, -, heq, -⟩ := hinv.cancelInLoop_eq hid
      rw [heq] at hs
      subst hs
      exact h.remove rfl rfl (fun e he => (OrderedSet.mem_erase.mp he).2) rfl
    · rw [hinv.sets.cancelInLoop_eq_of_not_mem hid] at hs
      subst hs
      exact h.of_eq le_rfl rfl rfl rfl
  | handleRead delay =>
    obtain ⟨-, hs⟩ := Option.ite_none_right_eq_some.mp hs
    exact h.handleRead hinv (Option.some.inj hs).symm
  | runTimer =>
    simp only [TimerQueue.step] at hs
    split at hs
    · rename_i now expired e rest hb
      obtain ⟨t, ht⟩ := hinv.head_live hb
      have hderef : s.deref e.timer = s := deref_eq ht
      rw [hderef, Option.some.injEq] at hs
      subst hs
      refine ⟨h.clock, ?_, ?_⟩
      · intro b hb'
        cases hb'
        exact h.now ⟨now, expired, e :: rest⟩ hb
      · intro f hf hin
        refine h.first f hf fun b hb' => ?_
        rw [hb, Option.some.injEq] at hb'
        subst hb'
        exact hin ⟨now, expired, rest⟩ rfl
    · cases hs
  | reset delay =>
    simp only [TimerQueue.step] at hs
    split at hs
    · rename_i hb
      exact h.reset hinv hb (Option.some.inj hs).symm
    · cases hs

/-- **No timer is forgotten by the timerfd.** It is armed in time for the first timer, but for the time
that has gone by between the read of the clock and the setting. -/
theorem timerfd_in_time {clock : Timestamp} {n : ℕ} {acts : List Act} {e : Entry}
    (hclock : 0 < clock.microsecondsSinceEpoch) (hr : run (new clock n) acts = some s)
    (hout : s.batch = none) (he : s.timers.begin? = some e) :
    s.readable ∨ ∃ a, s.timerfd = some a ∧ s.clock < a.deadline ∧ a.value.valid ∧ ¬ a.value.zero ∧
      a.deadline ≤
        max ⟨e.when.microsecondsSinceEpoch + a.delay⟩ ⟨a.at_.microsecondsSinceEpoch + 100⟩ := by
  have harmed : s.Inv ∧ s.Armed := by
    refine Run.run_inv (P := fun m => m.Inv ∧ m.Armed) ?_ hr ⟨inv_new clock n, hclock, ?_, ?_⟩
    · intro m act m' hs hm
      exact ⟨(step_refines hm.1 hs).1, hm.2.step hm.1 hs⟩
    · simp [new]
    · intro e he
      cases he
  obtain ⟨a, ha, hv, hz, hd⟩ := harmed.2.first e he (by simp [hout])
  by_cases hdead : a.deadline ≤ s.clock
  · exact Or.inl (by simp [readable, ha, hdead])
  · exact Or.inr ⟨a, ha, not_le.mp hdead, hv, hz, hd⟩

/-- A timer in the past, added in a callback: `Reset` does not arm for it, `AddTimer` has. -/
theorem timerfd_in_time_for_past_timer : ∃ s, run (new ⟨1⟩ 0) [.addTimer 1 ⟨10⟩ .zero, .tick 100,
      .handleRead 0, .runTimer, .addTimer 2 ⟨-5⟩ .zero 7, .reset] = some s ∧
    s.timers.begin? = some ⟨⟨-5⟩, 2⟩ ∧
    (s.readable ∨ ∃ a, s.timerfd = some a ∧ s.clock < a.deadline ∧ a.value.valid ∧ ¬ a.value.zero ∧
      a.deadline ≤ max ⟨-5 + a.delay⟩ ⟨a.at_.microsecondsSinceEpoch + 100⟩) := by
  have hrun : ((run (new ⟨1⟩ 0) [.addTimer 1 ⟨10⟩ .zero, .tick 100, .handleRead 0, .runTimer,
      .addTimer 2 ⟨-5⟩ .zero 7, .reset]).map fun s => (s.batch.isNone, s.timers.begin?)) =
      some (true, some ⟨⟨-5⟩, 2⟩) := by
    decide +kernel
  obtain ⟨s, hr, hs⟩ := Option.map_eq_some_iff.mp hrun
  simp only [Prod.mk.injEq, Option.isNone_iff_eq_none] at hs
  exact ⟨s, hr, hs.2, timerfd_in_time (by decide) hr hs.1 hs.2⟩

/-- The thread is held up for 500 microseconds between the read of the clock and the setting: the
timerfd, set 10000 microseconds ahead, expires 500 microseconds late. -/
theorem timerfd_late : ¬ ∀ s e, run (new ⟨1⟩ 0) [.addTimer 1 ⟨10001⟩ .zero 500] = some s →
    s.timers.begin? = some e → s.readable ∨ ∃ a, s.timerfd = some a ∧
      a.deadline ≤ max e.when ⟨a.at_.microsecondsSinceEpoch + 100⟩ := by
  intro hall
  have hrun : ((run (new ⟨1⟩ 0) [.addTimer 1 ⟨10001⟩ .zero 500]).map fun s =>
      (s.timers.begin?, s.readable, s.timerfd)) =
      some (some ⟨⟨10001⟩, 1⟩, false, some ⟨⟨0, 10000000⟩, ⟨501⟩, 500⟩) := by
    decide +kernel
  obtain ⟨s, hr, hs⟩ := Option.map_eq_some_iff.mp hrun
  simp only [Prod.mk.injEq] at hs
  obtain ⟨hbegin, hreadable, hfd⟩ := hs
  rcases hall s _ hr hbegin with h | ⟨a, ha, hle⟩
  · exact absurd (hreadable.symm.trans h) (by decide)
  · rw [hfd, Option.some.injEq] at ha
    subst ha
    exact absurd hle (by decide)

end MuduoCpp11.Net.TimerQueue
