import MuduoCpp11.Net.TimerQueue.Schedule

/-! # Timers: reachable states

Every run of a queue is a run of its schedule, and no assertion fails on the way. `represented_of_run`
says what this means for `timers_` and `active_timers_`, at each step of a run and between the rounds
of the loop of `Reset`. -/

namespace MuduoCpp11.Net.TimerQueue

open MuduoCpp11.Base MuduoCpp11.Lib

variable {s s' : TimerQueue} {act : Act} {acts : List Act}

/-- **Refinement**: a step of the queue is a step of the schedule. -/
theorem step_refines (h : s.Inv) (hs : step s act = some s') :
    s'.Inv ∧ s.schedule.Step act s'.schedule := by
  cases act with
  | tick d =>
    cases hs
    have hstep := Schedule.Step.tick (s := s.schedule) d
    exact ⟨⟨hstep.inv h.schedule, h.sets.of_eq rfl rfl rfl, h.calling, h.failed⟩, hstep⟩
  | newElsewhere =>
    cases hs
    have hstep := Schedule.Step.newElsewhere (s := s.schedule)
    exact ⟨⟨hstep.inv h.schedule, h.sets.of_eq rfl rfl rfl, h.calling, h.failed⟩, hstep⟩
  | newTimer a when interval =>
    obtain ⟨hc, hs⟩ := Option.ite_none_right_eq_some.mp hs
    obtain ⟨hfree, hlt⟩ := free_iff.mp hc
    exact refines_newTimer h hfree hlt when interval (Option.some.inj hs).symm
  | addTimerInLoop a delay =>
    obtain ⟨hc, hs⟩ := Option.ite_none_right_eq_some.mp hs
    exact refines_addTimerInLoop h hc.1 (Option.isNone_iff_eq_none.mp hc.2) delay
      (Option.some.inj hs).symm
  | addTimer a when interval delay =>
    obtain ⟨hc, hs⟩ := Option.ite_none_right_eq_some.mp hs
    obtain ⟨hfree, hlt⟩ := free_iff.mp hc.1
    exact refines_addTimer h hfree hlt when interval delay (Option.some.inj hs).symm
  | cancel id =>
    obtain ⟨-, hs⟩ := Option.ite_none_right_eq_some.mp hs
    exact refines_cancel h (Option.some.inj hs).symm
  | handleRead delay =>
    obtain ⟨hc, hs⟩ := Option.ite_none_right_eq_some.mp hs
    exact refines_handleRead h (Option.isNone_iff_eq_none.mp hc) delay (Option.some.inj hs).symm
  | runTimer =>
    simp only [step] at hs
    split at hs
    · rename_i hb
      exact refines_runTimer h hb (Option.some.inj hs).symm
    · cases hs
  | reset delay =>
    simp only [step] at hs
    split at hs
    · rename_i hb
      exact refines_reset h hb delay (Option.some.inj hs).symm
    · cases hs

theorem run_inv (h : s.Inv) (hr : run s acts = some s') : s'.Inv :=
  Run.run_inv (fun _ _ _ hs hinv => (step_refines hinv hs).1) hr h

theorem inv_of_run {clock : Timestamp} {n : ℕ} (hr : run (new clock n) acts = some s) : s.Inv :=
  run_inv (inv_new clock n) hr

/-! ### The representation -/

/-- The two sets hold the same timers, each live timer once and under its current key; timers that
wait to be added and those of `batch` are in neither. -/
structure Represented (batch : List Entry) (s : TimerQueue) : Prop where
  same : {a | ∃ t, s.heap a = some t ∧ (⟨t.expiration, a⟩ : Entry) ∈ s.timers} =
    {a | ∃ t, s.heap a = some t ∧ (⟨a, t.sequence⟩ : TimerId) ∈ s.activeTimers}
  timers_key : ∀ e ∈ s.timers, ∃ t, s.heap e.timer = some t ∧ e.when = t.expiration
  active_key : ∀ id ∈ s.activeTimers, ∃ t, s.heap id.timer = some t ∧ id.sequence = t.sequence
  once : ∀ a t, s.heap a = some t → a ∉ s.waiting → a ∉ batch.map Entry.timer →
    (∃! e, e ∈ s.timers ∧ e.timer = a) ∧ ∃! id, id ∈ s.activeTimers ∧ id.timer = a
  batch_out : ∀ b ∈ batch, (∀ e ∈ s.timers, e.timer ≠ b.timer) ∧
    ∀ id ∈ s.activeTimers, id.timer ≠ b.timer
  assertions : s.failed = []

theorem Sets.represented {away : Address → Prop} (h : Sets away s) {batch : List Entry}
    (haway : ∀ a, away a ↔ a ∈ s.waiting ∨ a ∈ batch.map Entry.timer) (hf : s.failed = []) :
    Represented batch s where
  same := by
    ext a
    constructor
    · rintro ⟨t, ht, hm⟩
      obtain ⟨_, _, hna, _⟩ := (h.timers _).mp hm
      exact ⟨t, ht, h.mem_active ht hna⟩
    · rintro ⟨t, ht, hm⟩
      obtain ⟨_, _, hna, _⟩ := (h.active _).mp hm
      exact ⟨t, ht, h.mem_timers ht hna⟩
  timers_key e he := by
    obtain ⟨t, ht, -, hw⟩ := (h.timers e).mp he
    exact ⟨t, ht, hw⟩
  active_key id hid := by
    obtain ⟨t, ht, -, hseq⟩ := (h.active id).mp hid
    exact ⟨t, ht, hseq⟩
  once a t ht hw hb := by
    have hna : ¬ away a := by
      rw [haway]
      tauto
    refine ⟨⟨⟨t.expiration, a⟩, ⟨h.mem_timers ht hna, rfl⟩, ?_⟩,
      ⟨⟨a, t.sequence⟩, ⟨h.mem_active ht hna, rfl⟩, ?_⟩⟩
    · rintro e ⟨he, rfl⟩
      obtain ⟨t', ht', -, hkey⟩ := (h.timers e).mp he
      rw [ht, Option.some.injEq] at ht'
      exact Entry.ext (by rw [hkey, ht']) rfl
    · rintro id ⟨hid, rfl⟩
      obtain ⟨t', ht', -, hkey⟩ := (h.active id).mp hid
      rw [ht, Option.some.injEq] at ht'
      exact TimerId.ext rfl (by rw [hkey, ht'])
  batch_out b hb := by
    have hab : away b.timer := (haway _).mpr (Or.inr (List.mem_map_of_mem hb))
    refine ⟨fun e he heq => ?_, fun id hid heq => ?_⟩
    · obtain ⟨_, _, hna, _⟩ := (h.timers e).mp he
      exact hna (heq ▸ hab)
    · obtain ⟨_, _, hna, _⟩ := (h.active id).mp hid
      exact hna (heq ▸ hab)
  assertions := hf

/-- The loop of `Reset` may be interrupted after any of its rounds. -/
theorem represented_in_reset (h : s.Inv) {now : Timestamp} {pre post : List Entry}
    (hb : s.batch = some ⟨now, pre ++ post, []⟩) :
    Represented post (pre.foldl (fun s e => s.resetOne now e)
      { s with callingExpiredTimers := false }) := by
  have hmembers : s.schedule.members = pre ++ post := by simp [Schedule.members, schedule, hb]
  have hnd : ((pre ++ post).map Entry.timer).Nodup := hmembers ▸ h.schedule.nodup
  rw [List.map_append] at hnd
  have hsets : Sets s.schedule.Away { s with callingExpiredTimers := false } :=
    h.sets.of_eq rfl rfl rfl
  obtain ⟨T, A, heq, hT⟩ := hsets.foldl_resetOne now pre
    (by
      intro e he
      have he' : e ∈ s.schedule.members := by
        rw [hmembers]
        exact List.mem_append_left _ he
      obtain ⟨t, ht, -⟩ := h.schedule.members e he'
      exact ⟨Or.inr (List.mem_map_of_mem he'), t, ht⟩)
    (List.Nodup.of_append_left hnd)
  refine hT.represented (fun a => ?_) (by rw [heq]; exact h.failed)
  have hdisj := h.schedule.disjoint a
  have happ := List.disjoint_of_nodup_append hnd (a := a)
  rw [heq]
  simp only [Schedule.Away, hmembers, List.map_append, List.mem_append] at hdisj ⊢
  show (a ∈ s.waiting ∨ _) ∧ _ ↔ a ∈ s.waiting ∨ _
  have hdisj' : a ∈ pre.map Entry.timer ∨ a ∈ post.map Entry.timer → a ∉ s.waiting := hdisj
  tauto

/-- **The representation of the timer set.** -/
theorem represented_of_run {clock : Timestamp} {n : ℕ} (hr : run (new clock n) acts = some s) :
    Represented (s.batch.elim [] Batch.expired) s ∧
      ∀ now pre post, s.batch = some ⟨now, pre ++ post, []⟩ →
        Represented post (pre.foldl (fun s e => s.resetOne now e)
          { s with callingExpiredTimers := false }) := by
  have h := inv_of_run hr
  refine ⟨h.sets.represented (fun _ => Iff.rfl) h.failed, ?_⟩
  intro now pre post hb
  exact represented_in_reset h hb

/-- In the middle of a batch whose first callback has added a timer. -/
theorem represented_in_batch : ∃ s, run (new ⟨1⟩ 0) [.addTimer 1 ⟨10⟩ .zero, .tick 100, .handleRead 0,
      .runTimer, .addTimer 2 ⟨20⟩ .zero] = some s ∧
    s.batch.map Batch.expired = some [⟨⟨10⟩, 1⟩] ∧ Represented [⟨⟨10⟩, 1⟩] s := by
  have hb : ((run (new ⟨1⟩ 0) [.addTimer 1 ⟨10⟩ .zero, .tick 100, .handleRead 0,
      .runTimer, .addTimer 2 ⟨20⟩ .zero]).map fun s => s.batch.map Batch.expired) =
      some (some [⟨⟨10⟩, 1⟩]) := by
    decide +kernel
  obtain ⟨s, hr, hs⟩ := Option.map_eq_some_iff.mp hb
  refine ⟨s, hr, hs, ?_⟩
  obtain ⟨b, hbatch, hexp⟩ := Option.map_eq_some_iff.mp hs
  have h := (represented_of_run hr).1
  rwa [hbatch, Option.elim_some, hexp] at h

end MuduoCpp11.Net.TimerQueue
