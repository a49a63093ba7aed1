import MuduoCpp11.Net.TimerQueue.Invariant

/-! # Timers: the schedule

The purpose of the queue without its two sets. A `Schedule` knows the live timers, which of them wait
to be added and which are in the batch; all others are *held*. A cancel removes a held timer and, in a
batch, marks any other; the batch takes the held timers that are due in the order of their keys, and
its end keeps those that repeat and are not marked.

The queue refines the schedule (`TimerQueue.step_refines`): in a state that satisfies `Inv` every step
of the queue is a step of the schedule, no assertion fails, and the sets hold what the schedule
holds. `TimerQueue.run_inv` carries this over runs. -/

namespace MuduoCpp11.Net

open MuduoCpp11.Base MuduoCpp11.Lib

@[ext] structure Schedule where
  heap : Address → Option Timer
  numCreated : ℕ
  clock : Timestamp
  batch : Option Batch
  waiting : Finset Address
  marked : Set TimerId
  log : List TimerQueue.Event

namespace Schedule

open TimerQueue (Act Event)

/-- The timers of the batch, empty outside of `HandleRead`. -/
def members (s : Schedule) : List Entry := s.batch.elim [] Batch.expired

def Away (s : Schedule) (a : Address) : Prop := a ∈ s.waiting ∨ a ∈ s.members.map Entry.timer

/-- The timer is in the queue. -/
def Holds (s : Schedule) (a : Address) (t : Timer) : Prop := s.heap a = some t ∧ ¬ s.Away a

inductive Step (s : Schedule) : Act → Schedule → Prop
  | tick (d : ℕ) : Step s (.tick d) { s with clock := ⟨s.clock.microsecondsSinceEpoch + d⟩ }
  | newElsewhere : Step s .newElsewhere { s with numCreated := s.numCreated + 1 }
  | newTimer {a : Address} (when : Timestamp) (interval : Interval) (hfree : s.heap a = none)
      (hlt : a < uintptrMax) : Step s (.newTimer a when interval) { s with
        heap := Function.update s.heap a (some ⟨when, interval, s.numCreated + 1⟩)
        numCreated := s.numCreated + 1
        waiting := s.waiting ∪ {a} }
  | addTimerInLoop {a : Address} {t : Timer} (delay : ℕ) (hw : a ∈ s.waiting) (hb : s.batch = none)
      (ht : s.heap a = some t) : Step s (.addTimerInLoop a delay) { s with
        clock := ⟨s.clock.microsecondsSinceEpoch + delay⟩
        waiting := s.waiting.erase a
        log := s.log ++ [.added a t] }
  | addTimer {a : Address} (when : Timestamp) (interval : Interval) (delay : ℕ)
      (hfree : s.heap a = none) (hlt : a < uintptrMax) : Step s (.addTimer a when interval delay) { s with
        clock := ⟨s.clock.microsecondsSinceEpoch + delay⟩
        heap := Function.update s.heap a (some ⟨when, interval, s.numCreated + 1⟩)
        numCreated := s.numCreated + 1
        log := s.log ++ [.added a ⟨when, interval, s.numCreated + 1⟩] }
  | cancelHeld {id : TimerId} {t : Timer} (h : s.Holds id.timer t) (hseq : t.sequence = id.sequence) :
      Step s (.cancel id) { s with
        heap := Function.update s.heap id.timer none
        log := s.log ++ [.cancelled id, .deleted id] }
  | cancelOther {id : TimerId} (h : ∀ t, s.Holds id.timer t → t.sequence ≠ id.sequence) :
      Step s (.cancel id) { s with
        marked := {x | x ∈ s.marked ∨ s.batch ≠ none ∧ x = id}
        log := s.log ++ [.cancelled id] }
  | handleRead {expired : List Entry} (delay : ℕ) (hb : s.batch = none)
      (hsorted : expired.Pairwise (· < ·))
      (hmem : ∀ e, e ∈ expired ↔
        (∃ t, s.Holds e.timer t ∧ e.when = t.expiration) ∧ e.when ≤ s.clock) :
      Step s (.handleRead delay) { s with
        clock := ⟨s.clock.microsecondsSinceEpoch + delay⟩
        batch := some ⟨s.clock, expired, expired⟩
        marked := ∅ }
  | runTimer {now : Timestamp} {expired rest : List Entry} {e : Entry} {t : Timer}
      (hb : s.batch = some ⟨now, expired, e :: rest⟩) (ht : s.heap e.timer = some t) :
      Step s .runTimer { s with
        batch := some ⟨now, expired, rest⟩
        log := s.log ++ [.started ⟨e.timer, t.sequence⟩] }
  | reset {now : Timestamp} {expired : List Entry} {heap : Address → Option Timer}
      {deleted : List TimerId} (delay : ℕ) (hb : s.batch = some ⟨now, expired, []⟩)
      (hother : ∀ a, a ∉ expired.map Entry.timer → heap a = s.heap a)
      (hkept : ∀ a ∈ expired.map Entry.timer, ∀ u, heap a = some u ↔
        ∃ t, s.heap a = some t ∧ t.repeat_ ∧ (⟨a, t.sequence⟩ : TimerId) ∉ s.marked ∧
          u = t.restart now)
      (hnodup : deleted.Nodup)
      (hdeleted : ∀ id, id ∈ deleted ↔ id.timer ∈ expired.map Entry.timer ∧ heap id.timer = none ∧
        ∃ t, s.heap id.timer = some t ∧ t.sequence = id.sequence) :
      Step s (.reset delay) { s with
        clock := ⟨s.clock.microsecondsSinceEpoch + delay⟩
        heap := heap
        batch := none
        log := s.log ++ deleted.map .deleted }

/-- The clock does not go back. -/
theorem le_elapse (τ : Timestamp) (d : ℕ) : τ ≤ ⟨τ.microsecondsSinceEpoch + d⟩ := by
  rw [Timestamp.le_iff]
  simp

/-- What is known of a schedule at any time: sequence numbers tell timers apart, and a timer that is
away is alive, in one place, with the key under which it was taken. -/
structure Inv (s : Schedule) : Prop where
  addr : ∀ a t, s.heap a = some t → a < uintptrMax
  seq_le : ∀ a t, s.heap a = some t → t.sequence ≤ s.numCreated
  seq_inj : ∀ a t a' t', s.heap a = some t → s.heap a' = some t' → t.sequence = t'.sequence → a = a'
  waiting : ∀ a ∈ s.waiting, ∃ t, s.heap a = some t
  members : ∀ e ∈ s.members, ∃ t, s.heap e.timer = some t ∧ e.when = t.expiration
  nodup : (s.members.map Entry.timer).Nodup
  disjoint : ∀ a ∈ s.members.map Entry.timer, a ∉ s.waiting
  suffix : ∀ b, s.batch = some b → b.rest <:+ b.expired

variable {s s' : Schedule} {act : Act} {a : Address} {t : Timer}

theorem Inv.live_of_away (h : s.Inv) (ha : s.Away a) : ∃ t, s.heap a = some t := by
  rcases ha with ha | ha
  · exact h.waiting a ha
  · obtain ⟨e, he, rfl⟩ := List.mem_map.mp ha
    obtain ⟨t, ht, -⟩ := h.members e he
    exact ⟨t, ht⟩

theorem Inv.not_away (h : s.Inv) (ha : s.heap a = none) : ¬ s.Away a := by
  intro haway
  obtain ⟨t, ht⟩ := h.live_of_away haway
  rw [ha] at ht
  cases ht

/-- What the timers that are away are known by does not change with the others. -/
theorem Inv.away_of_agree (h : s.Inv) {heap : Address → Option Timer}
    (hkeep : ∀ b, s.Away b → heap b = s.heap b) :
    (∀ b ∈ s.waiting, ∃ u, heap b = some u) ∧
      ∀ e ∈ s.members, ∃ u, heap e.timer = some u ∧ e.when = u.expiration := by
  constructor
  · intro b hb
    obtain ⟨u, hu⟩ := h.waiting b hb
    exact ⟨u, (hkeep b (Or.inl hb)).trans hu⟩
  · intro e he
    obtain ⟨u, hu, hw⟩ := h.members e he
    exact ⟨u, (hkeep _ (Or.inr (List.mem_map_of_mem he))).trans hu, hw⟩

/-- A new timer has a number of its own. -/
theorem Inv.create (h : s.Inv) (hfree : s.heap a = none) (hlt : a < uintptrMax) (when : Timestamp)
    (interval : Interval) : Inv { s with
      heap := Function.update s.heap a (some ⟨when, interval, s.numCreated + 1⟩)
      numCreated := s.numCreated + 1 } := by
  have hcases : ∀ {b : Address} {u : Timer},
      Function.update s.heap a (some ⟨when, interval, s.numCreated + 1⟩) b = some u →
      b = a ∧ u.sequence = s.numCreated + 1 ∨ b ≠ a ∧ s.heap b = some u := by
    intro b u hu
    by_cases hb : b = a
    · subst hb
      rw [Function.update_self, Option.some.injEq] at hu
      exact Or.inl ⟨rfl, by rw [← hu]⟩
    · exact Or.inr ⟨hb, by rwa [Function.update_of_ne hb] at hu⟩
  have hkeep : ∀ b, s.Away b →
      Function.update s.heap a (some ⟨when, interval, s.numCreated + 1⟩) b = s.heap b := by
    intro b hb
    refine Function.update_of_ne (fun hba => ?_) _ _
    exact h.not_away hfree (hba ▸ hb)
  obtain ⟨hwaiting, hmembers⟩ := h.away_of_agree hkeep
  refine ⟨?_, ?_, ?_, hwaiting, hmembers, h.nodup, h.disjoint, h.suffix⟩
  · intro b u hu
    rcases hcases hu with ⟨rfl, -⟩ | ⟨-, hu⟩
    · exact hlt
    · exact h.addr b u hu
  · intro b u hu
    rcases hcases hu with ⟨-, hseq⟩ | ⟨-, hu⟩
    · exact hseq.le
    · exact (h.seq_le b u hu).trans (Nat.le_succ _)
  · intro b u b' u' hu hu' hseq
    rcases hcases hu with ⟨hb, hs⟩ | ⟨-, hold⟩ <;> rcases hcases hu' with ⟨hb', hs'⟩ | ⟨-, hold'⟩
    · rw [hb, hb']
    · have := h.seq_le _ _ hold'
      omega
    · have := h.seq_le _ _ hold
      omega
    · exact h.seq_inj _ _ _ _ hold hold' hseq

/-- Timers that are not away may be deleted. -/
theorem Inv.remove (h : s.Inv) (ha : ¬ s.Away a) :
    Inv { s with heap := Function.update s.heap a none } := by
  have hsub : ∀ {b : Address} {u : Timer}, Function.update s.heap a none b = some u →
      s.heap b = some u := by
    intro b u hu
    by_cases hb : b = a
    · simp [hb] at hu
    · rwa [Function.update_of_ne hb] at hu
  have hkeep : ∀ b, s.Away b → Function.update s.heap a none b = s.heap b := by
    intro b hb
    refine Function.update_of_ne (fun hba => ?_) _ _
    exact ha (hba ▸ hb)
  obtain ⟨hwaiting, hmembers⟩ := h.away_of_agree hkeep
  exact ⟨fun b u hu => h.addr b u (hsub hu), fun b u hu => h.seq_le b u (hsub hu),
    fun b u b' u' hu hu' => h.seq_inj b u b' u' (hsub hu) (hsub hu'), hwaiting, hmembers, h.nodup,
    h.disjoint, h.suffix⟩

theorem Step.inv (h : s.Inv) (hs : Step s act s') : s'.Inv := by
  cases hs with
  | tick d => exact ⟨h.addr, h.seq_le, h.seq_inj, h.waiting, h.members, h.nodup, h.disjoint, h.suffix⟩
  | newElsewhere =>
    exact ⟨h.addr, fun a t ht => (h.seq_le a t ht).trans (Nat.le_succ _), h.seq_inj, h.waiting,
      h.members, h.nodup, h.disjoint, h.suffix⟩
  | newTimer when interval hfree hlt =>
    have hc := h.create hfree hlt when interval
    refine ⟨hc.addr, hc.seq_le, hc.seq_inj, ?_, hc.members, hc.nodup, ?_, hc.suffix⟩
    · intro b hb
      rcases Finset.mem_union.mp hb with hb | hb
      · exact hc.waiting b hb
      · rw [Finset.mem_singleton.mp hb]
        exact ⟨_, Function.update_self _ _ _⟩
    · intro b hb hbw
      rcases Finset.mem_union.mp hbw with hbw | hbw
      · exact hc.disjoint b hb hbw
      · rw [Finset.mem_singleton.mp hbw] at hb
        exact h.not_away hfree (Or.inr hb)
  | addTimerInLoop delay hw hb ht =>
    exact ⟨h.addr, h.seq_le, h.seq_inj, fun a ha => h.waiting a (Finset.mem_of_mem_erase ha),
      h.members, h.nodup, fun a ha hw => h.disjoint a ha (Finset.mem_of_mem_erase hw), h.suffix⟩
  | addTimer when interval delay hfree hlt =>
    have hc := h.create hfree hlt when interval
    exact ⟨hc.addr, hc.seq_le, hc.seq_inj, hc.waiting, hc.members, hc.nodup, hc.disjoint, hc.suffix⟩
  | cancelHeld hh hseq =>
    have hc := h.remove hh.2
    exact ⟨hc.addr, hc.seq_le, hc.seq_inj, hc.waiting, hc.members, hc.nodup, hc.disjoint, hc.suffix⟩
  | cancelOther hh =>
    exact ⟨h.addr, h.seq_le, h.seq_inj, h.waiting, h.members, h.nodup, h.disjoint, h.suffix⟩
  | @handleRead expired delay hb hsorted hmem =>
    refine ⟨h.addr, h.seq_le, h.seq_inj, h.waiting, ?_, ?_, ?_, ?_⟩
    · intro e he
      obtain ⟨⟨t, ht, hw⟩, -⟩ := (hmem e).mp he
      exact ⟨t, ht.1, hw⟩
    · refine List.Nodup.map_on ?_ (hsorted.imp ne_of_lt)
      intro e he e' he' heq
      obtain ⟨⟨t, ht, hw⟩, -⟩ := (hmem e).mp he
      obtain ⟨⟨t', ht', hw'⟩, -⟩ := (hmem e').mp he'
      have htt : t = t' := by
        have h1 := ht.1
        rw [heq, ht'.1, Option.some.injEq] at h1
        exact h1.symm
      exact Entry.ext (by rw [hw, hw', htt]) heq
    · intro a ha hw
      obtain ⟨e, he, rfl⟩ := List.mem_map.mp ha
      obtain ⟨⟨t, ht, -⟩, -⟩ := (hmem e).mp he
      exact ht.2 (Or.inl hw)
    · intro b hb'
      cases hb'
      exact List.suffix_rfl
  | @runTimer now expired rest e t hb ht =>
    have hmem : s.members = expired := by simp [Schedule.members, hb]
    refine ⟨h.addr, h.seq_le, h.seq_inj, h.waiting, ?_, ?_, ?_, ?_⟩
    · exact hmem ▸ h.members
    · exact hmem ▸ h.nodup
    · exact hmem ▸ h.disjoint
    · intro b hb'
      cases hb'
      exact (List.suffix_cons e rest).trans (h.suffix _ hb)
  | @reset now expired heap deleted delay hb hother hkept hnodup hdeleted =>
    have hmem : s.members = expired := by simp [Schedule.members, hb]
    -- a timer that is kept has its number and its address from before
    have hold : ∀ {a : Address} {u : Timer}, heap a = some u →
        ∃ t, s.heap a = some t ∧ u.sequence = t.sequence := by
      intro a u hu
      by_cases ha : a ∈ expired.map Entry.timer
      · obtain ⟨t, ht, -, -, rfl⟩ := (hkept a ha u).mp hu
        exact ⟨t, ht, rfl⟩
      · exact ⟨u, by rw [← hother a ha]; exact hu, rfl⟩
    refine ⟨?_, ?_, ?_, ?_, ?_, ?_, ?_, ?_⟩
    · intro a u hu
      obtain ⟨t, ht, -⟩ := hold hu
      exact h.addr a t ht
    · intro a u hu
      obtain ⟨t, ht, hseq⟩ := hold hu
      exact hseq ▸ h.seq_le a t ht
    · intro a u a' u' hu hu' hseq
      obtain ⟨t, ht, hs⟩ := hold hu
      obtain ⟨t', ht', hs'⟩ := hold hu'
      exact h.seq_inj a t a' t' ht ht' (by rw [← hs, ← hs', hseq])
    · intro a ha
      obtain ⟨t, ht⟩ := h.waiting a ha
      refine ⟨t, ?_⟩
      show heap a = some t
      rw [hother a fun hm => h.disjoint a (hmem ▸ hm) ha]
      exact ht
    · simp [Schedule.members]
    · simp [Schedule.members]
    · simp [Schedule.members]
    · simp

end Schedule

/-! ### Refinement -/

namespace TimerQueue

variable {s s' : TimerQueue} {act : Act} {away : Address → Prop} {a : Address} {t : Timer}

def schedule (s : TimerQueue) : Schedule where
  heap := s.heap
  numCreated := s.numCreated
  clock := s.clock
  batch := s.batch
  waiting := s.waiting
  marked := {id | id ∈ s.cancelingTimers}
  log := s.log

structure Inv (s : TimerQueue) : Prop where
  schedule : s.schedule.Inv
  sets : Sets s.schedule.Away s
  calling : s.callingExpiredTimers = s.batch.isSome
  failed : s.failed = []

theorem inv_new (clock : Timestamp) (numCreated : ℕ) : (new clock numCreated).Inv where
  schedule := by
    constructor <;> simp [TimerQueue.schedule, new, Schedule.members]
  sets := by
    constructor <;> simp [new]
  calling := rfl
  failed := rfl

theorem Inv.holds_iff (h : s.Inv) {id : TimerId} :
    id ∈ s.activeTimers ↔ ∃ t, s.schedule.Holds id.timer t ∧ t.sequence = id.sequence := by
  rw [h.sets.active]
  constructor
  · rintro ⟨t, ht, hna, hseq⟩
    exact ⟨t, ⟨ht, hna⟩, hseq.symm⟩
  · rintro ⟨t, ⟨ht, hna⟩, hseq⟩
    exact ⟨t, ht, hna, hseq.symm⟩

/-- An address without a timer may count as away. -/
theorem Sets.widen (h : Sets away s) (ha : s.heap a = none) : Sets (fun x => away x ∨ x = a) s where
  timers e := by
    rw [h.timers]
    by_cases he : e.timer = a <;> simp [he, ha]
  active id := by
    rw [h.active]
    by_cases he : id.timer = a <;> simp [he, ha]
  size := h.size

theorem Sets.create (h : Sets away s) (ha : s.heap a = none) (when : Timestamp)
    (interval : Interval) : Sets (fun x => away x ∨ x = a) (s.create a when interval) :=
  (h.widen ha).update_away _ (Or.inr rfl) rfl rfl rfl

theorem free_iff : s.free a = true ↔ s.heap a = none ∧ a < uintptrMax := by
  simp [free]

theorem refines_newTimer (h : s.Inv) (hfree : s.heap a = none) (hlt : a < uintptrMax)
    (when : Timestamp) (interval : Interval) (hs : s' = { s.create a when interval with
      waiting := s.waiting ∪ {a} }) :
    s'.Inv ∧ s.schedule.Step (.newTimer a when interval) s'.schedule := by
  have hsets : Sets (fun x => s.schedule.Away x ∨ x = a) s' :=
    (h.sets.create hfree when interval).of_eq (by rw [hs]) (by rw [hs]) (by rw [hs])
  subst hs
  have hstep := Schedule.Step.newTimer (s := s.schedule) when interval hfree hlt
  refine ⟨⟨hstep.inv h.schedule, hsets.congr fun x => ?_, h.calling, h.failed⟩, hstep⟩
  show (x ∈ s.waiting ∪ {a} ∨ x ∈ s.schedule.members.map Entry.timer) ↔
    (x ∈ s.waiting ∨ x ∈ s.schedule.members.map Entry.timer) ∨ x = a
  rw [Finset.mem_union, Finset.mem_singleton]
  tauto

theorem refines_addTimer (h : s.Inv) (hfree : s.heap a = none) (hlt : a < uintptrMax)
    (when : Timestamp) (interval : Interval) (delay : ℕ)
    (hs : s' = (s.create a when interval).addTimerInLoop a delay) :
    s'.Inv ∧ s.schedule.Step (.addTimer a when interval delay) s'.schedule := by
  have hc := h.sets.create hfree when interval
  have ht : (s.create a when interval).heap a = some ⟨when, interval, s.numCreated + 1⟩ :=
    Function.update_self _ _ _
  rw [hc.addTimerInLoop_eq (Or.inr rfl) ht] at hs
  have hsets : Sets (fun x => (s.schedule.Away x ∨ x = a) ∧ x ≠ a) s' :=
    (hc.inserted (Or.inr rfl) ht).of_eq (by rw [hs]) (by rw [hs]) (by rw [hs])
  subst hs
  have hstep := Schedule.Step.addTimer (s := s.schedule) when interval delay hfree hlt
  refine ⟨⟨hstep.inv h.schedule, hsets.congr fun x => ?_, h.calling, h.failed⟩, hstep⟩
  show s.schedule.Away x ↔ (s.schedule.Away x ∨ x = a) ∧ x ≠ a
  by_cases hx : x = a
  · simp [hx, h.schedule.not_away hfree]
  · simp [hx]

theorem refines_addTimerInLoop (h : s.Inv) (hw : a ∈ s.waiting) (hb : s.batch = none)
    (delay : ℕ) (hs : s' = { s with waiting := s.waiting.erase a }.addTimerInLoop a delay) :
    s'.Inv ∧ s.schedule.Step (.addTimerInLoop a delay) s'.schedule := by
  obtain ⟨t, ht⟩ := h.schedule.waiting a hw
  have hw' : s.schedule.Away a := Or.inl hw
  have hc : Sets s.schedule.Away { s with waiting := s.waiting.erase a } :=
    h.sets.of_eq rfl rfl rfl
  have ht' : { s with waiting := s.waiting.erase a }.heap a = some t := ht
  rw [hc.addTimerInLoop_eq hw' ht'] at hs
  have hsets : Sets (fun x => s.schedule.Away x ∧ x ≠ a) s' :=
    (hc.inserted hw' ht').of_eq (by rw [hs]) (by rw [hs]) (by rw [hs])
  subst hs
  have hstep := Schedule.Step.addTimerInLoop (s := s.schedule) delay hw hb ht
  refine ⟨⟨hstep.inv h.schedule, hsets.congr fun x => ?_, h.calling, h.failed⟩, hstep⟩
  show (x ∈ s.waiting.erase a ∨ x ∈ s.schedule.members.map Entry.timer) ↔
    (x ∈ s.waiting ∨ x ∈ s.schedule.members.map Entry.timer) ∧ x ≠ a
  have hmem : s.schedule.members = [] := by simp [Schedule.members, schedule, hb]
  simp [hmem, Finset.mem_erase, and_comm]

/-- A cancel that finds its timer. -/
theorem Inv.cancelInLoop_eq (h : s.Inv) {id : TimerId} (hid : id ∈ s.activeTimers) :
    ∃ t, s.schedule.Holds id.timer t ∧ t.sequence = id.sequence ∧
      s.cancelInLoop id = s.erased id t ∧ Sets s.schedule.Away (s.erased id t) := by
  obtain ⟨t, hh, hseq⟩ := h.holds_iff.mp hid
  have heq := h.sets.cancelInLoop_eq hh.1 hh.2
  have hsets := h.sets.erased hh.1 hh.2
  rw [hseq] at heq hsets
  exact ⟨t, hh, hseq, heq, hsets⟩

/-- A step that is a cancel. -/
theorem eq_of_step_cancel {id : TimerId} (hs : step s (.cancel id) = some s') :
    s' = s.cancelInLoop id := by
  obtain ⟨-, hs⟩ := Option.ite_none_right_eq_some.mp hs
  exact (Option.some.inj hs).symm

theorem refines_cancel (h : s.Inv) {id : TimerId} (hs : s' = s.cancelInLoop id) :
    s'.Inv ∧ s.schedule.Step (.cancel id) s'.schedule := by
  by_cases hid : id ∈ s.activeTimers
  · obtain ⟨t, hh, hseq, heq, hsets⟩ := h.cancelInLoop_eq hid
    rw [heq] at hs
    subst hs
    have hstep := Schedule.Step.cancelHeld (s := s.schedule) hh hseq
    exact ⟨⟨hstep.inv h.schedule, hsets, h.calling, h.failed⟩, hstep⟩
  · have heq := h.sets.cancelInLoop_eq_of_not_mem hid
    rw [heq] at hs
    have hmark : s'.schedule.marked = {x | x ∈ s.schedule.marked ∨ s.batch ≠ none ∧ x = id} := by
      ext x
      show x ∈ s'.cancelingTimers ↔ x ∈ s.cancelingTimers ∨ s.batch ≠ none ∧ x = id
      rw [hs, h.calling]
      by_cases hb : s.batch = none
      · simp [hb]
      · simp [hb, Option.isSome_iff_ne_none, or_comm]
    have hheld : ∀ t, s.schedule.Holds id.timer t → t.sequence ≠ id.sequence :=
      fun t ht hseq => hid (h.holds_iff.mpr ⟨t, ht, hseq⟩)
    have hstep := Schedule.Step.cancelOther hheld
    have hsched : s'.schedule = { s.schedule with
        marked := {x | x ∈ s.schedule.marked ∨ s.batch ≠ none ∧ x = id}
        log := s.log ++ [.cancelled id] } := by
      rw [← hmark, hs]
      rfl
    rw [hsched]
    refine ⟨⟨hsched ▸ hstep.inv h.schedule, ?_, ?_, ?_⟩, hstep⟩
    · rw [hsched, hs]
      exact h.sets.of_eq rfl rfl rfl
    · rw [hs]
      exact h.calling
    · rw [hs]
      exact h.failed

/-- The timerfd after the read of it in `HandleRead`. -/
def timerfdAfterRead (s : TimerQueue) (delay : ℕ) : Option Arming :=
  (s.elapse delay).readTimerfd.timerfd

theorem beginHandleRead_eq (h : s.Inv) (delay : ℕ) :
    ∃ T A, s.beginHandleRead delay = { s with
        clock := ⟨s.clock.microsecondsSinceEpoch + delay⟩
        timerfd := s.timerfdAfterRead delay
        timers := T
        activeTimers := A
        callingExpiredTimers := true
        cancelingTimers := ∅
        batch := some ⟨s.clock, s.due s.clock, s.due s.clock⟩ } ∧
      Sets (fun x => s.schedule.Away x ∨ x ∈ (s.due s.clock).map Entry.timer)
        { s with timers := T, activeTimers := A } ∧
      ∀ e, e ∈ T ↔ e ∈ s.timers ∧ s.clock < e.when := by
  have hread : (s.elapse delay).readTimerfd =
      { s.elapse delay with timerfd := s.timerfdAfterRead delay } := by
    unfold timerfdAfterRead readTimerfd
    split_ifs
    · rfl
    · rfl
  have hsets : Sets s.schedule.Away { s.elapse delay with timerfd := s.timerfdAfterRead delay } :=
    h.sets.of_eq rfl rfl rfl
  have haddr : ∀ a t, { s.elapse delay with timerfd := s.timerfdAfterRead delay }.heap a = some t →
      a < uintptrMax := h.schedule.addr
  obtain ⟨T, A, heq, hT, hmem⟩ := hsets.getExpired_eq haddr s.clock
  refine ⟨T, A, ?_, hT.of_eq rfl rfl rfl, hmem⟩
  unfold beginHandleRead
  simp only [hread, heq]
  rfl

theorem refines_handleRead (h : s.Inv) (hb : s.batch = none) (delay : ℕ)
    (hs : s' = s.beginHandleRead delay) :
    s'.Inv ∧ s.schedule.Step (.handleRead delay) s'.schedule := by
  obtain ⟨T, A, heq, hT, -⟩ := s.beginHandleRead_eq h delay
  rw [heq] at hs
  have hsets : Sets (fun x => s.schedule.Away x ∨ x ∈ (s.due s.clock).map Entry.timer) s' :=
    hT.of_eq (by rw [hs]) (by rw [hs]) (by rw [hs])
  have hmem : ∀ e, e ∈ s.due s.clock ↔
      (∃ t, s.schedule.Holds e.timer t ∧ e.when = t.expiration) ∧ e.when ≤ s.clock := by
    intro e
    rw [h.sets.mem_due h.schedule.addr, h.sets.timers]
    simp only [Schedule.Holds, and_assoc]
    rfl
  have hstep := Schedule.Step.handleRead (s := s.schedule) delay hb OrderedSet.lowerBound_sorted hmem
  have hsched : s'.schedule = { s.schedule with
      clock := ⟨s.clock.microsecondsSinceEpoch + delay⟩
      batch := some ⟨s.clock, s.due s.clock, s.due s.clock⟩
      marked := ∅ } := by
    rw [hs]
    refine Schedule.ext rfl rfl rfl rfl rfl ?_ rfl
    ext x
    simp [schedule]
  rw [hsched]
  refine ⟨⟨hsched ▸ hstep.inv h.schedule, hsets.congr fun x => ?_, ?_, ?_⟩, hstep⟩
  · rw [hsched]
    have hbatch : s.schedule.batch = none := hb
    simp [Schedule.Away, Schedule.members, hbatch]
  · rw [hs]
    rfl
  · rw [hs]
    exact h.failed

theorem Inv.head_live (h : s.Inv) {now : Timestamp} {expired rest : List Entry} {e : Entry}
    (hb : s.batch = some ⟨now, expired, e :: rest⟩) : ∃ t, s.heap e.timer = some t := by
  have hexp : e ∈ expired := (h.schedule.suffix _ hb).mem List.mem_cons_self
  have hmem : e ∈ s.schedule.members := by
    simpa [Schedule.members, TimerQueue.schedule, hb] using hexp
  obtain ⟨t, ht, -⟩ := h.schedule.members e hmem
  exact ⟨t, ht⟩

theorem refines_runTimer (h : s.Inv) {now : Timestamp} {expired rest : List Entry} {e : Entry}
    (hb : s.batch = some ⟨now, expired, e :: rest⟩)
    (hs : s' = { (s.deref e.timer).note (.started (s.idOf e.timer)) with
      batch := some ⟨now, expired, rest⟩ }) :
    s'.Inv ∧ s.schedule.Step .runTimer s'.schedule := by
  obtain ⟨t, ht⟩ := h.head_live hb
  rw [deref_eq ht, idOf_eq ht] at hs
  have hsets : Sets s.schedule.Away s' :=
    h.sets.of_eq (by rw [hs]; rfl) (by rw [hs]; rfl) (by rw [hs]; rfl)
  subst hs
  have hstep := Schedule.Step.runTimer (s := s.schedule) hb ht
  refine ⟨⟨hstep.inv h.schedule, hsets.congr fun x => ?_, ?_, h.failed⟩, hstep⟩
  · simp [Schedule.Away, Schedule.members, schedule, hb, note]
  · simp [note, h.calling, hb]

/-- The timers among `l` that `Reset` deletes. -/
def discardedIds (s : TimerQueue) (now : Timestamp) (l : List Entry) : List TimerId :=
  (l.filter fun e => (s.kept now e.timer).isNone).map fun e => s.idOf e.timer

theorem flatMap_discarded (now : Timestamp) (l : List Entry) :
    l.flatMap (s.discarded now) = (s.discardedIds now l).map Event.deleted := by
  unfold discardedIds
  induction l with
  | nil => rfl
  | cons e l ih =>
    rw [List.flatMap_cons, ih]
    cases hk : (s.kept now e.timer).isNone <;> simp [discarded, hk]

theorem nodup_discardedIds {now : Timestamp} {l : List Entry} (h : (l.map Entry.timer).Nodup) :
    (s.discardedIds now l).Nodup := by
  unfold discardedIds
  refine List.Nodup.of_map TimerId.timer ?_
  rw [List.map_map]
  exact h.sublist (List.filter_sublist.map _)

theorem mem_discardedIds {now : Timestamp} {l : List Entry}
    (h : ∀ e ∈ l, ∃ t, s.heap e.timer = some t) {id : TimerId} :
    id ∈ s.discardedIds now l ↔ id.timer ∈ l.map Entry.timer ∧ s.kept now id.timer = none ∧
      ∃ t, s.heap id.timer = some t ∧ t.sequence = id.sequence := by
  unfold discardedIds
  simp only [List.mem_map, List.mem_filter, Option.isNone_iff_eq_none]
  constructor
  · rintro ⟨e, ⟨he, hk⟩, rfl⟩
    obtain ⟨t, ht⟩ := h e he
    exact ⟨⟨e, he, rfl⟩, hk, t, ht, by rw [idOf_eq ht]⟩
  · rintro ⟨⟨e, he, hte⟩, hk, t, ht, hseq⟩
    have ht' : s.heap e.timer = some t := hte ▸ ht
    exact ⟨e, ⟨he, hte ▸ hk⟩, by rw [idOf_eq ht', hseq, hte]⟩

theorem kept_eq_some {now : Timestamp} {u : Timer} :
    s.kept now a = some u ↔ ∃ t, s.heap a = some t ∧ t.repeat_ ∧
      (⟨a, t.sequence⟩ : TimerId) ∉ s.cancelingTimers ∧ u = t.restart now := by
  unfold kept
  rw [Option.bind_eq_some_iff]
  refine exists_congr fun t => and_congr_right fun _ => ?_
  split_ifs with hc
  · simp only [Bool.and_eq_true, decide_eq_true_eq] at hc
    simp [hc.1, hc.2, eq_comm]
  · simp only [Bool.and_eq_true, decide_eq_true_eq, not_and] at hc
    simp only [false_iff]
    tauto

theorem endHandleRead_eq (h : s.Inv) {now : Timestamp} {expired : List Entry}
    (hb : s.batch = some ⟨now, expired, []⟩) (delay : ℕ) :
    ∃ T A, s.endHandleRead ⟨now, expired, []⟩ delay = { s with
        clock := ⟨s.clock.microsecondsSinceEpoch + delay⟩
        heap := fun a => if a ∈ expired.map Entry.timer then s.kept now a else s.heap a
        timers := T
        activeTimers := A
        callingExpiredTimers := false
        batch := none
        log := s.log ++ expired.flatMap (s.discarded now)
        timerfd := s.timerfdAfterReset T delay } ∧
      Sets (fun x => s.schedule.Away x ∧ x ∉ expired.map Entry.timer)
        (s.endHandleRead ⟨now, expired, []⟩ delay) := by
  have hmembers : s.schedule.members = expired := by simp [Schedule.members, schedule, hb]
  have hsets : Sets s.schedule.Away { s with callingExpiredTimers := false } :=
    h.sets.of_eq rfl rfl rfl
  obtain ⟨T, A, heq, hT⟩ := hsets.reset_eq expired now delay
    (by
      intro e he
      have he' : e ∈ s.schedule.members := hmembers ▸ he
      obtain ⟨t, ht, -⟩ := h.schedule.members e he'
      exact ⟨Or.inr (List.mem_map_of_mem he'), t, ht⟩)
    (hmembers ▸ h.schedule.nodup)
  refine ⟨T, A, ?_, hT.of_eq rfl rfl rfl⟩
  unfold endHandleRead
  rw [heq]
  rfl

theorem refines_reset (h : s.Inv) {now : Timestamp} {expired : List Entry}
    (hb : s.batch = some ⟨now, expired, []⟩) (delay : ℕ)
    (hs : s' = s.endHandleRead ⟨now, expired, []⟩ delay) :
    s'.Inv ∧ s.schedule.Step (.reset delay) s'.schedule := by
  obtain ⟨T, A, heq, hsets⟩ := s.endHandleRead_eq h hb delay
  rw [← hs] at heq hsets
  have hmembers : s.schedule.members = expired := by simp [Schedule.members, schedule, hb]
  have hnd : (expired.map Entry.timer).Nodup := hmembers ▸ h.schedule.nodup
  have hother : ∀ a, a ∉ expired.map Entry.timer → s'.heap a = s.schedule.heap a := by
    intro a ha
    rw [heq]
    exact if_neg ha
  have hkept : ∀ a ∈ expired.map Entry.timer, ∀ u, s'.heap a = some u ↔ ∃ t,
      s.schedule.heap a = some t ∧ t.repeat_ ∧ (⟨a, t.sequence⟩ : TimerId) ∉ s.schedule.marked ∧
        u = t.restart now := by
    intro a ha u
    rw [heq]
    show (if a ∈ expired.map Entry.timer then s.kept now a else s.heap a) = some u ↔ _
    rw [if_pos ha, kept_eq_some]
    rfl
  have hlive : ∀ e ∈ expired, ∃ t, s.heap e.timer = some t := by
    intro e he
    obtain ⟨t, ht, -⟩ := h.schedule.members e (hmembers ▸ he)
    exact ⟨t, ht⟩
  have hdeleted : ∀ id, id ∈ s.discardedIds now expired ↔ id.timer ∈ expired.map Entry.timer ∧
      s'.heap id.timer = none ∧ ∃ t, s.schedule.heap id.timer = some t ∧ t.sequence = id.sequence := by
    intro id
    rw [mem_discardedIds hlive, heq]
    refine and_congr_right fun hm => ?_
    show s.kept now id.timer = none ∧ _ ↔
      (if id.timer ∈ expired.map Entry.timer then s.kept now id.timer else s.heap id.timer) = none ∧ _
    rw [if_pos hm]
    rfl
  have hstep := Schedule.Step.reset delay hb hother hkept (nodup_discardedIds hnd) hdeleted
  have hsched : s'.schedule = { s.schedule with
      clock := ⟨s.clock.microsecondsSinceEpoch + delay⟩
      heap := s'.heap
      batch := none
      log := s.log ++ (s.discardedIds now expired).map Event.deleted } := by
    rw [← flatMap_discarded, heq]
    rfl
  rw [hsched]
  refine ⟨⟨hsched ▸ hstep.inv h.schedule, hsets.congr fun x => ?_, by rw [heq]; rfl,
    by rw [heq]; exact h.failed⟩, hstep⟩
  rw [hsched]
  have hdisj := h.schedule.disjoint x
  rw [hmembers] at hdisj
  simp only [Schedule.Away, hmembers]
  show (x ∈ s.waiting ∨ x ∈ ([] : List Entry).map Entry.timer) ↔ (x ∈ s.waiting ∨ _) ∧ _
  simp only [List.map_nil, List.not_mem_nil, or_false]
  constructor
  · intro hx
    exact ⟨Or.inl hx, fun hm => hdisj hm hx⟩
  · rintro ⟨hx | hx, hn⟩
    · exact hx
    · exact absurd hx hn

end TimerQueue

end MuduoCpp11.Net
