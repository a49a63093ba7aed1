import MuduoCpp11.Net.TimerQueue.Reachable

/-! # Timers: what GetExpired takes out

The sentry of `lower_bound` is the largest entry that expires at `now`, so the split is exact also for
timers that expire at `now` itself (`Sets.lt_sentry`). The loop behind it takes the same timers out of
`active_timers_`, one erased key for each entry. -/

namespace MuduoCpp11.Net.TimerQueue

open MuduoCpp11.Base MuduoCpp11.Lib

variable {s : TimerQueue} {away : Address → Prop}

/-- Of the keys of `active_timers_`, those of the timers that are returned are erased. -/
theorem Sets.mem_active_expired (h : Sets away s) {s' : TimerQueue} {expired : List Entry}
    (hsets : Sets (fun x => away x ∨ x ∈ expired.map Entry.timer) s') (hheap : s'.heap = s.heap)
    (id : TimerId) :
    id ∈ s'.activeTimers ↔ id ∈ s.activeTimers ∧ ∀ e ∈ expired, id ≠ s.idOf e.timer := by
  rw [hsets.active, h.active, hheap]
  constructor
  · rintro ⟨t, ht, hna, hseq⟩
    rw [not_or] at hna
    refine ⟨⟨t, ht, hna.1, hseq⟩, fun e he hid => hna.2 ?_⟩
    exact List.mem_map.mpr ⟨e, he, (congrArg TimerId.timer hid).symm⟩
  · rintro ⟨⟨t, ht, hna, hseq⟩, hne⟩
    refine ⟨t, ht, ?_, hseq⟩
    rintro (ha | ha)
    · exact hna ha
    · obtain ⟨e, he, hte⟩ := List.mem_map.mp ha
      have ht' : s.heap e.timer = some t := hte ▸ ht
      exact hne e he (by rw [idOf_eq ht']; exact TimerId.ext hte.symm hseq)

/-- **The split of GetExpired is exact.** In every state whose two sets represent its timers, and for
every `now`: the entries that are returned increase, they are those of `timers_` that expire at `now`
or before, at the time their timers are to expire; they and the keys of their timers are what leaves
the sets; and nothing else changes, so no assertion has failed. -/
theorem getExpired_exact (h : Sets away s) (haddr : ∀ a t, s.heap a = some t → a < uintptrMax)
    (now : Timestamp) :
    ∃ s' expired, s.getExpired now = (s', expired) ∧
      expired.Pairwise (· < ·) ∧
      (∀ e, e ∈ expired ↔ e ∈ s.timers ∧ e.when ≤ now) ∧
      (∀ e ∈ s.timers, e.when = (s.timer e.timer).expiration) ∧
      (∀ e, e ∈ s'.timers ↔ e ∈ s.timers ∧ ¬ e.when ≤ now) ∧
      (∀ id, id ∈ s'.activeTimers ↔
        id ∈ s.activeTimers ∧ ∀ e ∈ expired, id ≠ s.idOf e.timer) ∧
      s' = { s with timers := s'.timers, activeTimers := s'.activeTimers } ∧
      s'.failed = s.failed := by
  obtain ⟨T, A, heq, hsets, hT⟩ := h.getExpired_eq haddr now
  have hdue : ∀ e, e ∈ s.due now ↔ e ∈ s.timers ∧ e.when ≤ now := fun e => h.mem_due haddr now
  have hkey : ∀ e ∈ s.timers, e.when = (s.timer e.timer).expiration := by
    intro e he
    obtain ⟨t, ht, -, hw⟩ := (h.timers e).mp he
    rw [timer_eq ht, hw]
  have hactive := h.mem_active_expired hsets rfl
  refine ⟨_, s.due now, heq, OrderedSet.lowerBound_sorted, hdue, hkey, ?_, hactive, rfl, rfl⟩
  intro e
  rw [not_le]
  exact hT e

/-- Four timers, two of which expire at `now` itself. -/
theorem getExpired_exact_at_now : ∃ s, run (new ⟨1⟩ 0) [.addTimer 3 ⟨20⟩ .zero,
      .addTimer 4 ⟨21⟩ .zero, .addTimer 1 ⟨10⟩ .zero, .addTimer 2 ⟨20⟩ .zero] = some s ∧
    (s.getExpired ⟨20⟩).2 = [⟨⟨10⟩, 1⟩, ⟨⟨20⟩, 2⟩, ⟨⟨20⟩, 3⟩] ∧
    ∃ s' expired, s.getExpired ⟨20⟩ = (s', expired) ∧
      (∀ e, e ∈ expired ↔ e ∈ s.timers ∧ e.when ≤ ⟨20⟩) ∧ s'.failed = s.failed := by
  have hrun : ((run (new ⟨1⟩ 0) [.addTimer 3 ⟨20⟩ .zero, .addTimer 4 ⟨21⟩ .zero,
      .addTimer 1 ⟨10⟩ .zero, .addTimer 2 ⟨20⟩ .zero]).map fun s => (s.getExpired ⟨20⟩).2) =
      some [⟨⟨10⟩, 1⟩, ⟨⟨20⟩, 2⟩, ⟨⟨20⟩, 3⟩] := by
    decide +kernel
  obtain ⟨s, hr, hs⟩ := Option.map_eq_some_iff.mp hrun
  have hinv := inv_of_run hr
  obtain ⟨s', expired, heq, -, hmem, -, -, -, -, hfailed⟩ :=
    getExpired_exact hinv.sets hinv.schedule.addr ⟨20⟩
  exact ⟨s, hr, hs, s', expired, heq, hmem, hfailed⟩

end MuduoCpp11.Net.TimerQueue
