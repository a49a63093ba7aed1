import MuduoCpp11.Net.Poller.PollPoller

/-! # The assertions of the poller on `poll(2)`

`RemoveChannel` asserts that the entry of the channel is switched off, that is, that its descriptor is
`-fd - 1`. Only an update of a known channel switches an entry off: the first update of a channel adds
an entry with its own descriptor, whatever the events are. So a channel whose only operation has been
the `DisableAll` in front of `Remove`, as in `~Acceptor` when `Listen` was never called, fails this
assertion (`assertions_hold_iff`). No other assertion fails. -/

namespace MuduoCpp11.Net.PollPoller

open MuduoCpp11.Lib.Run Poller

variable {ι : Type*} [DecidableEq ι]

/-- The last operation on a channel that is removed is `DisableAll`, and it is not used again. -/
def Ended (acts : List (Act ι)) : Prop :=
  ∀ n < acts.length, ∀ c, acts[n]? = some (.remove c) →
    (history (acts.take n) c).getLast? = some .disableAll ∧ ∀ a ∈ acts.drop (n + 1), a.channel ≠ c

theorem Ended.oneLife {acts : List (Act ι)} (h : Ended acts) : OneLife acts := by
  intro n hn c hc
  obtain ⟨hlast, hafter⟩ := h n hn c hc
  refine ⟨fun hnil => ?_, hafter⟩
  rw [hnil] at hlast
  cases hlast

variable {fd : ι → ℤ} {events : ι → BitVec 32} {parked : ι → Bool} {os : List ι}
  {s s' : PollPoller ι} {c : ι} {acts : List (Act ι)}

/-! ### One removal -/

/-- The assertions of `RemoveChannel`, with the entry it finds. -/
theorem removeChannel_failed {pfd : PollFd} (hs : removeChannel s c = some s')
    (hpfd : pollfdAt s (s.heap c).index = some pfd) (hhas : s.hasChannel c = true)
    (hnone : (s.heap c).isNoneEvent = true) :
    s'.failed = s.failed ++ if pfd.fd = -(s.heap c).fd - 1 ∧
      pfd.events.signExtend 32 = (s.heap c).events then [] else [.removeChannel] := by
  simp only [removeChannel, hhas, hnone, assert_true, hpfd, Option.bind_some] at hs
  split_ifs at hs with hlast
  · cases hs
    exact (assert_failed _ _ _).trans (by simp)
  · obtain ⟨back, -, hs⟩ := Option.bind_eq_some_iff.mp hs
    obtain ⟨last, -, rfl⟩ := Option.map_eq_some_iff.mp hs
    exact (assert_failed _ _ _).trans (by simp)

/-- `Remove` fails an assertion exactly when the entry of the channel is switched on. -/
theorem Inv.remove_failed (h : Inv fd events parked os s) (hc : c ∈ os)
    (hnone : events c = kNoneEvent) (hs : step s (.remove c) = some s') :
    s'.failed = s.failed ++ if parked c then [] else [.removeChannel] := by
  obtain ⟨i, hi, hidx⟩ := h.mem_of_index hc
  have hev : (s.heap c).isNoneEvent = true := by simp [Channel.isNoneEvent, h.heap_events, hnone]
  have hs : removeChannel (s.setChannel c Channel.remove) c = some s' := by
    simpa only [step, Poller.step, hev, assert_true] using hs
  have hself : (s.setChannel c Channel.remove).heap c = (s.heap c).remove := setChannel_self s c _
  have hpfd : PollPoller.pollfdAt (s.setChannel c Channel.remove)
      ((s.setChannel c Channel.remove).heap c).index = some (entry fd events parked c) := by
    rw [hself]
    show PollPoller.pollfdAt _ (s.heap c).index = _
    rw [hidx]
    exact h.pollfdAt rfl hi
  have hhas : (s.setChannel c Channel.remove).hasChannel c = true := by
    unfold Poller.hasChannel
    rw [hself]
    simpa [Channel.remove, h.heap_fd] using h.hasChannel hc
  rw [removeChannel_failed hs hpfd hhas (by rw [hself]; exact hev), hself]
  have hfd : (s.heap c).remove.fd = fd c := h.heap_fd c
  have hevents : (s.heap c).remove.events = kNoneEvent := (h.heap_events c).trans hnone
  rw [hfd, hevents]
  cases hp : parked c with
  | true => simp [entry, hp, hnone, kNoneEvent]
  | false =>
    have hne : ¬ (fd c = -fd c - 1) := by omega
    simp [entry, hp, hne]

/-! ### Every use -/

/-- No assertion of `UpdateChannel` fails. -/
theorem After.set_failed (hfd : Function.Injective fd) (h : After fd acts os s)
    (hc : .remove c ∉ acts) {op : Op} (hs : step s (.set c op) = some s') : s'.failed = s.failed := by
  by_cases hnew : history acts c = []
  · have hnot : c ∉ os := fun hm => ((h.mem c).mp hm).1 hnew
    obtain ⟨t, ht, hfailed, -⟩ := h.inv.set_new hfd hnot (by rw [h.fresh c hnew]; simp) op
    rw [ht] at hs
    cases hs
    exact hfailed
  · obtain ⟨t, ht, hfailed, -⟩ := h.inv.set_known ((h.mem c).mpr ⟨hnew, hc⟩) op
    rw [ht] at hs
    cases hs
    exact hfailed

/-- Behind a `DisableAll` the entry is switched off, unless that was the first operation. -/
theorem parked_of_disableAll {ops : List Op} (h : ops.getLast? = some .disableAll) :
    interest ops = kNoneEvent ∧ (Parked ops ↔ ops ≠ [.disableAll]) := by
  obtain ⟨before, rfl⟩ := List.getLast?_eq_some_iff.mp h
  have hinterest : interest (before ++ [.disableAll]) = kNoneEvent :=
    interest_concat (d := { fd := 0, events := interest before }) rfl
  refine ⟨hinterest, ?_⟩
  rcases eq_or_ne before [] with rfl | hne
  · simpa using not_parked_singleton .disableAll
  · have hparked : Parked (before ++ [.disableAll]) := (parked_concat hne _).mpr (Or.inr hinterest)
    simp [hparked, hne]

theorem Ended.init {a : Act ι} (h : Ended (acts ++ [a])) : Ended acts := by
  intro n hn c hc
  obtain ⟨hlast, -⟩ := h n (by simp; omega) c (by rwa [List.getElem?_append_left hn])
  rw [List.take_append_of_le_length hn.le] at hlast
  exact ⟨hlast, (h.oneLife.init n hn c hc).2⟩

/-- No channel is removed when `DisableAll` has been the only operation on it. -/
def Disabled (acts : List (Act ι)) : Prop :=
  ∀ n < acts.length, ∀ c, acts[n]? = some (.remove c) → history (acts.take n) c ≠ [.disableAll]

theorem disabled_concat {a : Act ι} : Disabled (acts ++ [a]) ↔
    Disabled acts ∧ ∀ c, a = .remove c → history acts c ≠ [.disableAll] := by
  constructor
  · intro h
    refine ⟨fun n hn c hc => ?_, fun c hc => ?_⟩
    · have := h n (by simp; omega) c (by rwa [List.getElem?_append_left hn])
      rwa [List.take_append_of_le_length hn.le] at this
    · have := h acts.length (by simp) c (by simp [hc])
      rwa [List.take_left] at this
  · rintro ⟨h, hlast⟩ n hn c hc
    rcases Nat.lt_succ_iff_lt_or_eq.mp (by simpa using hn) with hlt | rfl
    · rw [List.getElem?_append_left hlt] at hc
      rw [List.take_append_of_le_length hlt.le]
      exact h n hlt c hc
    · rw [List.getElem?_concat_length, Option.some.injEq] at hc
      rw [List.take_left]
      exact hlast c hc

/-- **The assertions of the poller.** For all channels with distinct descriptors and every sequence of
operations on them in which a channel is removed behind a `DisableAll` and not used again: the
operations go through, and all assertions of `UpdateChannel` and `RemoveChannel` hold if and only if no
channel is removed when that `DisableAll` was the first operation on it. -/
theorem assertions_hold_iff (hfd : Function.Injective fd) (hnn : ∀ c, 0 ≤ fd c) (hended : Ended acts) :
    ∃ s, run step (new fd) acts = some s ∧ (s.failed = [] ↔
      ∀ n < acts.length, ∀ c, acts[n]? = some (.remove c) →
        history (acts.take n) c ≠ [.disableAll]) := by
  suffices h : ∃ os s, run step (new fd) acts = some s ∧ After fd acts os s ∧
      (s.failed = [] ↔ Disabled acts) by
    obtain ⟨os, s, hs, -, hiff⟩ := h
    exact ⟨s, hs, hiff⟩
  induction acts using List.reverseRecOn with
  | nil =>
    obtain ⟨os, s, hs, h⟩ := run_after hfd hnn hended.oneLife
    refine ⟨os, s, hs, h, ?_⟩
    cases hs
    simp [new, Poller.new, Disabled]
  | append_singleton acts a ih =>
    obtain ⟨os, s, hs, h, hiff⟩ := ih hended.init
    obtain ⟨os', s', hs', h'⟩ := run_after hfd hnn hended.oneLife
    obtain ⟨m, hm, hstep⟩ := run_concat.mp hs'
    rw [hs] at hm
    cases hm
    have hc := hended.oneLife.not_removed
    refine ⟨os', s', hs', h', ?_⟩
    rw [disabled_concat]
    cases a with
    | set c op =>
      rw [h.set_failed hfd hc hstep, hiff]
      simp
    | remove c =>
      obtain ⟨hlast, -⟩ := hended acts.length (by simp) c (by simp)
      rw [List.take_left] at hlast
      obtain ⟨hnone, hparked⟩ := parked_of_disableAll hlast
      have hmem := (h.mem c).mpr ⟨hended.oneLife.used, hc⟩
      rw [h.inv.remove_failed hmem hnone hstep, List.append_eq_nil_iff, hiff]
      refine and_congr_right fun _ => ?_
      simp only [Act.remove.injEq, forall_eq', ← hparked]
      by_cases hp : Parked (history acts c)
      · simp [hp]
      · simp [hp]

/-- Two channels with the descriptors 3 and 4; the first one is enabled, disabled and removed. -/
theorem assertions_hold_of_enabled : ∃ s : PollPoller Bool,
    run step (new fun c => if c then 3 else 4) [.set true .enableReading, .set false .enableReading,
      .set true .disableAll, .remove true] = some s ∧ s.failed = [] := by
  have hfd : Function.Injective fun c : Bool => if c then (3 : ℤ) else 4 := by decide
  have hended : Ended [Act.set true .enableReading, .set false .enableReading, .set true .disableAll,
      .remove true] := by unfold Ended; decide
  obtain ⟨s, hs, hiff⟩ := assertions_hold_iff hfd (by decide) hended
  exact ⟨s, hs, hiff.mpr (by decide)⟩

/-- A channel that was never enabled is disabled and removed, as in `~Acceptor` when `Listen` was never
called. -/
theorem assertion_fails_of_disabled :
    Ended [Act.set () .disableAll, .remove ()] ∧ ∃ s : PollPoller Unit,
      run step (new fun _ => 3) [.set () .disableAll, .remove ()] = some s ∧
      s.failed = [.removeChannel] :=
  ⟨by unfold Ended; decide, _, rfl, by decide⟩

end MuduoCpp11.Net.PollPoller
