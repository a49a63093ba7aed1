import MuduoCpp11.Net.TimerQueue.Reachable

/-! # Timers: cancellation

A timer is `Gone` if it is deleted, or if it has been called in the batch and is marked, so that the
end of the batch deletes it. Nothing brings such a timer back: its sequence number is used up. A
cancel makes a timer gone unless the batch still has to call it. `HandleRead` does not look at the
marks before it calls, and so a timer that is cancelled by an earlier callback of the same batch is
called all the same (`never_started_iff`). -/

namespace MuduoCpp11.Net

open MuduoCpp11.Base MuduoCpp11.Lib

namespace Schedule

open TimerQueue (Act Event)

variable {s s' : Schedule} {act : Act} {id : TimerId}

/-- The id names a live timer. -/
def Names (s : Schedule) (id : TimerId) : Prop :=
  ∃ t, s.heap id.timer = some t ∧ t.sequence = id.sequence

/-- The timer has been created and not yet added. -/
def Waits (s : Schedule) (id : TimerId) : Prop := s.Names id ∧ id.timer ∈ s.waiting

/-- The batch has still to call the timer. -/
def Pending (s : Schedule) (id : TimerId) : Prop :=
  s.Names id ∧ ∃ b, s.batch = some b ∧ id.timer ∈ b.rest.map Entry.timer

structure Gone (s : Schedule) (id : TimerId) : Prop where
  created : id.sequence ≤ s.numCreated
  doomed : s.Names id → id ∈ s.marked ∧ id.timer ∈ s.members.map Entry.timer
  called : ¬ s.Pending id

/-- The number of a new timer is not the number of an old one. -/
theorem names_of_create {a : Address} {t : Timer} (hle : id.sequence ≤ s.numCreated)
    (ht : t.sequence = s.numCreated + 1)
    (h : ∃ u, Function.update s.heap a (some t) id.timer = some u ∧ u.sequence = id.sequence) :
    s.Names id := by
  obtain ⟨u, hu, hseq⟩ := h
  by_cases ha : id.timer = a
  · rw [ha, Function.update_self, Option.some.injEq] at hu
    rw [← hu] at hseq
    omega
  · exact ⟨u, by rwa [Function.update_of_ne ha] at hu, hseq⟩

theorem Gone.step (h : s.Gone id) (hs : s.Step act s') : s'.Gone id := by
  have hcreated := h.created
  cases hs with
  | tick d => exact ⟨hcreated, h.doomed, h.called⟩
  | newElsewhere => exact ⟨hcreated.trans (Nat.le_succ _), h.doomed, h.called⟩
  | newTimer when interval hfree hlt =>
    exact ⟨hcreated.trans (Nat.le_succ _), fun hn => h.doomed (names_of_create hcreated rfl hn),
      fun hp => h.called ⟨names_of_create hcreated rfl hp.1, hp.2⟩⟩
  | addTimerInLoop _ hw hb ht => exact ⟨hcreated, h.doomed, h.called⟩
  | addTimer when interval _ hfree hlt =>
    exact ⟨hcreated.trans (Nat.le_succ _), fun hn => h.doomed (names_of_create hcreated rfl hn),
      fun hp => h.called ⟨names_of_create hcreated rfl hp.1, hp.2⟩⟩
  | @cancelHeld id' t hh hseq =>
    have hsub : ∀ {x : TimerId},
        (∃ u, Function.update s.heap id'.timer none x.timer = some u ∧ u.sequence = x.sequence) →
        s.Names x := by
      rintro x ⟨u, hu, hs⟩
      by_cases ha : x.timer = id'.timer
      · simp [ha] at hu
      · exact ⟨u, by rwa [Function.update_of_ne ha] at hu, hs⟩
    exact ⟨hcreated, fun hn => h.doomed (hsub hn), fun hp => h.called ⟨hsub hp.1, hp.2⟩⟩
  | cancelOther hh =>
    exact ⟨hcreated, fun hn => ⟨Or.inl (h.doomed hn).1, (h.doomed hn).2⟩, h.called⟩
  | handleRead delay hb hsorted hmem =>
    -- outside of a batch a timer that is gone is deleted
    have hdead : ¬ s.Names id := by
      intro hn
      have := (h.doomed hn).2
      simp [members, hb] at this
    exact ⟨hcreated, fun hn => absurd hn hdead, fun hp => hdead hp.1⟩
  | @runTimer now expired rest e t hb ht =>
    have hmem : s.members = expired := by simp [members, hb]
    refine ⟨hcreated, fun hn => ⟨(h.doomed hn).1, ?_⟩, ?_⟩
    · show id.timer ∈ expired.map Entry.timer
      rw [← hmem]
      exact (h.doomed hn).2
    · rintro ⟨hn, b, hb', hmem'⟩
      cases hb'
      refine h.called ⟨hn, _, hb, ?_⟩
      simp only [List.map_cons, List.mem_cons]
      exact Or.inr hmem'
  | @reset now expired heap deleted _ hb hother hkept hnodup hdeleted =>
    have hmem : s.members = expired := by simp [members, hb]
    have hdead : ¬ ∃ u, heap id.timer = some u ∧ u.sequence = id.sequence := by
      rintro ⟨u, hu, hseq⟩
      by_cases ha : id.timer ∈ expired.map Entry.timer
      · obtain ⟨t, ht, -, hnm, rfl⟩ := (hkept _ ha u).mp hu
        have hid : (⟨id.timer, t.sequence⟩ : TimerId) = id := TimerId.ext rfl hseq
        rw [hid] at hnm
        exact hnm (h.doomed ⟨t, ht, hseq⟩).1
      · rw [hother _ ha] at hu
        exact ha (hmem ▸ (h.doomed ⟨u, hu, hseq⟩).2)
    exact ⟨hcreated, fun hn => absurd hn hdead, fun hp => hdead hp.1⟩

/-- Only a pending timer is called, and only a cancel is noted as one. -/
theorem Step.log_eq (hs : s.Step act s') :
    ∃ es, s'.log = s.log ++ es ∧
      (∀ id, .started id ∈ es → s.Pending id ∧ ∀ id', .cancelled id' ∉ es) ∧
      ∀ id, .cancelled id ∈ es → act = .cancel id := by
  cases hs with
  | tick d => exact ⟨[], by simp, by simp, by simp⟩
  | newElsewhere => exact ⟨[], by simp, by simp, by simp⟩
  | newTimer when interval hfree hlt => exact ⟨[], by simp, by simp, by simp⟩
  | addTimerInLoop _ hw hb ht => exact ⟨_, rfl, by simp, by simp⟩
  | addTimer when interval _ hfree hlt => exact ⟨_, rfl, by simp, by simp⟩
  | cancelHeld hh hseq => exact ⟨_, rfl, by simp, by simp [eq_comm]⟩
  | cancelOther hh => exact ⟨_, rfl, by simp, by simp [eq_comm]⟩
  | handleRead delay hb hsorted hmem => exact ⟨[], by simp, by simp, by simp⟩
  | runTimer hb ht =>
    refine ⟨_, rfl, fun id hid => ⟨?_, by simp⟩, by simp⟩
    simp only [List.mem_singleton, Event.started.injEq] at hid
    subst hid
    exact ⟨⟨_, ht, rfl⟩, _, hb, by simp⟩
  | reset _ hb hother hkept hnodup hdeleted => exact ⟨_, rfl, by simp, by simp⟩

/-- A cancel gets rid of a timer, unless the timer is still to be added or still to be called. -/
theorem Step.gone_of_cancel (hs : s.Step (.cancel id) s') (hcreated : id.sequence ≤ s.numCreated)
    (hw : ¬ s.Waits id) (hp : ¬ s.Pending id) : s'.Gone id := by
  cases hs with
  | cancelHeld hh hseq =>
    have hdead : ¬ ∃ u, Function.update s.heap id.timer none id.timer = some u ∧
        u.sequence = id.sequence := by
      simp
    exact ⟨hcreated, fun hn => absurd hn hdead, fun hp => hdead hp.1⟩
  | cancelOther hh =>
    refine ⟨hcreated, fun hn => ?_, hp⟩
    have hmem : id.timer ∈ s.members.map Entry.timer := by
      by_contra hnm
      obtain ⟨t, ht, hseq⟩ := hn
      refine hh t ⟨ht, ?_⟩ hseq
      rintro (ha | ha)
      · exact hw ⟨⟨t, ht, hseq⟩, ha⟩
      · exact hnm ha
    refine ⟨Or.inr ⟨fun hb => ?_, rfl⟩, hmem⟩
    simp [members, hb] at hmem

/-! ### Timers that wait to be added -/

theorem Step.numCreated_le (hs : s.Step act s') : s.numCreated ≤ s'.numCreated := by
  cases hs <;> first | exact le_rfl | exact Nat.le_succ _

/-- A timer that is named by an old id has been there before. -/
theorem Step.names (hs : s.Step act s') (hle : id.sequence ≤ s.numCreated) (hn : s'.Names id) :
    s.Names id := by
  cases hs with
  | newTimer when interval hfree hlt => exact names_of_create hle rfl hn
  | addTimer when interval _ hfree hlt => exact names_of_create hle rfl hn
  | @cancelHeld id' t hh hseq =>
    obtain ⟨u, hu, hus⟩ := hn
    by_cases ha : id.timer = id'.timer
    · simp [ha] at hu
    · exact ⟨u, (Function.update_of_ne ha _ _).symm.trans hu, hus⟩
  | @reset now expired heap deleted _ hb hother hkept hnodup hdeleted =>
    obtain ⟨u, hu, hus⟩ := hn
    by_cases ha : id.timer ∈ expired.map Entry.timer
    · obtain ⟨t, ht, -, -, rfl⟩ := (hkept _ ha u).mp hu
      exact ⟨t, ht, hus⟩
    · exact ⟨u, (hother _ ha).symm.trans hu, hus⟩
  | _ => exact hn

/-- A timer that waits has waited since it was created. -/
theorem Step.waits (hs : s.Step act s') (hle : id.sequence ≤ s.numCreated) (hw : s'.Waits id) :
    s.Waits id := by
  have hn := hs.names hle hw.1
  refine ⟨hn, ?_⟩
  cases hs with
  | newTimer when interval hfree hlt =>
    rcases Finset.mem_union.mp hw.2 with hm | hm
    · exact hm
    · obtain ⟨u, hu, -⟩ := hn
      rw [Finset.mem_singleton.mp hm, hfree] at hu
      cases hu
  | addTimerInLoop _ hw' hb ht => exact Finset.mem_of_mem_erase hw.2
  | _ => exact hw.2

/-- A timer that has been added does not wait. -/
def AddedOnce (s : Schedule) : Prop :=
  ∀ a t, .added a t ∈ s.log → t.sequence ≤ s.numCreated ∧ ¬ s.Waits ⟨a, t.sequence⟩

theorem Step.added (h : s.Inv) (hs : s.Step act s') {a : Address} {t : Timer}
    (hm : .added a t ∈ s'.log) :
    .added a t ∈ s.log ∨ t.sequence ≤ s'.numCreated ∧ ¬ s'.Waits ⟨a, t.sequence⟩ := by
  cases hs with
  | @addTimerInLoop b u _ hw hb hu =>
    rcases List.mem_append.mp hm with hm | hm
    · exact Or.inl hm
    · simp only [List.mem_singleton, Event.added.injEq] at hm
      obtain ⟨rfl, rfl⟩ := hm
      exact Or.inr ⟨h.seq_le a t hu, fun hw => Finset.notMem_erase a _ hw.2⟩
  | @addTimer b when interval _ hfree hlt =>
    rcases List.mem_append.mp hm with hm | hm
    · exact Or.inl hm
    · simp only [List.mem_singleton, Event.added.injEq] at hm
      obtain ⟨rfl, rfl⟩ := hm
      exact Or.inr ⟨le_rfl, fun hw => h.not_away hfree (Or.inl hw.2)⟩
  | _ => exact Or.inl (by simpa using hm)

theorem Step.addedOnce (h : s.Inv) (ha : s.AddedOnce) (hs : s.Step act s') : s'.AddedOnce := by
  intro a t hm
  rcases hs.added h hm with hold | hnew
  · obtain ⟨hle, hw⟩ := ha a t hold
    exact ⟨hle.trans hs.numCreated_le, fun hw' => hw (hs.waits hle hw')⟩
  · exact hnew

end Schedule

namespace TimerQueue

variable {s s' : TimerQueue} {id : TimerId}

theorem addedOnce_of_run {clock : Timestamp} {n : ℕ} {acts : List Act}
    (hr : run (new clock n) acts = some s) : s.schedule.AddedOnce := by
  have hinv : s.Inv ∧ s.schedule.AddedOnce := by
    refine Run.run_inv (P := fun m => m.Inv ∧ m.schedule.AddedOnce) ?_ hr ⟨inv_new clock n, ?_⟩
    · intro m act m' hs hm
      have href := step_refines hm.1 hs
      exact ⟨href.1, href.2.addedOnce hm.1.schedule hm.2⟩
    · simp [Schedule.AddedOnce, schedule, new]
  exact hinv.2

/-- A timer that is gone is not called. -/
theorem run_gone (h : s.Inv) (hg : s.schedule.Gone id) {acts : List Act}
    (hr : run s acts = some s') :
    s'.schedule.Gone id ∧ ∃ es, s'.log = s.log ++ es ∧ .started id ∉ es := by
  have hinv : s'.Inv ∧ s'.schedule.Gone id ∧ ∃ es, s'.log = s.log ++ es ∧ .started id ∉ es := by
    refine Run.run_inv (P := fun m => m.Inv ∧ m.schedule.Gone id ∧
      ∃ es, m.log = s.log ++ es ∧ .started id ∉ es) ?_ hr ⟨h, hg, [], by simp, by simp⟩
    rintro m act m' hs ⟨hm, hgm, es, hlog, hes⟩
    have href := step_refines hm hs
    obtain ⟨es', hlog', hes', -⟩ := href.2.log_eq
    refine ⟨href.1, hgm.step href.2, es ++ es', ?_, ?_⟩
    · rw [show m'.log = m.log ++ es' from hlog', hlog, List.append_assoc]
    · rw [List.mem_append, not_or]
      exact ⟨hes, fun hst => hgm.called (hes' id hst).1⟩
  exact hinv.2

theorem step_runTimer (h : s.Inv) {now : Timestamp} {expired rest : List Entry} {e : Entry}
    (hb : s.batch = some ⟨now, expired, e :: rest⟩) :
    ∃ m, step s .runTimer = some m ∧ m.Inv ∧ m.batch = some ⟨now, expired, rest⟩ ∧
      m.heap = s.heap ∧ m.log = s.log ++ [.started (s.idOf e.timer)] := by
  obtain ⟨t, ht⟩ := h.head_live hb
  have hderef : s.deref e.timer = s := deref_eq ht
  refine ⟨_, by simp only [step, hb], (refines_runTimer h hb rfl).1, rfl, ?_, ?_⟩
  · show (s.deref e.timer).heap = s.heap
    rw [hderef]
  · show (s.deref e.timer).log ++ _ = _
    rw [hderef]

/-- Whatever is in the rest of the batch is called if the run goes on. -/
theorem exists_run_started {now : Timestamp} {expired : List Entry} {e : Entry} :
    ∀ {rest : List Entry} {s : TimerQueue}, s.Inv → s.batch = some ⟨now, expired, rest⟩ → e ∈ rest →
      ∃ acts s' es, run s acts = some s' ∧ s'.log = s.log ++ es ∧ .started (s.idOf e.timer) ∈ es
  | [], _, _, _, he => by simp at he
  | f :: rest, s, h, hb, he => by
    obtain ⟨m, hs, hm, hbm, hheap, hlogm⟩ := step_runTimer h hb
    rcases List.mem_cons.mp he with rfl | he
    · exact ⟨[.runTimer], m, [.started (s.idOf e.timer)], by simp [run, hs], hlogm, by simp⟩
    · obtain ⟨acts, s', es, hr, hlog, hst⟩ := exists_run_started hm hbm he
      have hid : m.idOf e.timer = s.idOf e.timer := by simp only [idOf, timer, hheap]
      refine ⟨.runTimer :: acts, s', .started (s.idOf f.timer) :: es, ?_, ?_, ?_⟩
      · simp only [run, Run.run_cons, hs, Option.bind_some]
        exact hr
      · rw [hlog, hlogm, List.append_assoc]
        rfl
      · exact List.mem_cons_of_mem _ (hid ▸ hst)

/-- **A cancelled timer is not called again**, exactly if the cancel does not find it among the
timers that the batch has still to call. -/
theorem never_started_iff {clock : Timestamp} {n : ℕ} {before : List Act} {t : Timer}
    (hr : run (new clock n) before = some s) (hadded : .added id.timer t ∈ s.log)
    (hseq : t.sequence = id.sequence) (hc : step s (.cancel id) = some s') :
    (∀ after s'' es, run s' after = some s'' → s''.log = s'.log ++ es → .started id ∉ es) ↔
      ¬ s.schedule.Pending id := by
  have h := inv_of_run hr
  obtain ⟨h', hstep⟩ := step_refines h hc
  obtain ⟨hle, hw⟩ := addedOnce_of_run hr _ _ hadded
  rw [hseq] at hle hw
  constructor
  · rintro hnever ⟨⟨u, hu, hus⟩, b, hb, hmem⟩
    obtain ⟨e, he, hte⟩ := List.mem_map.mp hmem
    have hexp : e ∈ s.schedule.members := by
      have : e ∈ b.expired := (h.schedule.suffix b hb).mem he
      simpa [Schedule.members, hb] using this
    have haway : s.schedule.Away id.timer := Or.inr (hte ▸ List.mem_map_of_mem hexp)
    have hid : id ∉ s.activeTimers := by
      rw [h.holds_iff]
      rintro ⟨v, hv, -⟩
      exact hv.2 haway
    have hs' := eq_of_step_cancel hc
    rw [h.sets.cancelInLoop_eq_of_not_mem hid] at hs'
    have hb' : s'.batch = some ⟨b.now, b.expired, b.rest⟩ := by
      rw [hs']
      exact hb
    obtain ⟨acts, s'', es, hr'', hlog, hst⟩ := exists_run_started h' hb' he
    have hidOf : s'.idOf e.timer = id := by
      have hu' : s'.heap e.timer = some u := by
        rw [hs', hte]
        exact hu
      rw [idOf_eq hu', hus, hte]
    rw [hidOf] at hst
    exact hnever acts s'' es hr'' hlog hst
  · intro hp after s'' es hr'' hlog
    have hg := hstep.gone_of_cancel hle hw hp
    obtain ⟨-, es', hlog', hes'⟩ := run_gone h' hg hr''
    rw [hlog', List.append_cancel_left_eq] at hlog
    exact hlog ▸ hes'

/-- A timer that is cancelled before it is due is not called. -/
theorem never_started_before_due : ∃ s s', run (new ⟨1⟩ 0) [.addTimer 1 ⟨10⟩ .zero] = some s ∧
    step s (.cancel ⟨1, 1⟩) = some s' ∧
    ∀ after s'' es, run s' after = some s'' → s''.log = s'.log ++ es → .started ⟨1, 1⟩ ∉ es := by
  have hlog : ((run (new ⟨1⟩ 0) [.addTimer 1 ⟨10⟩ .zero]).map fun s =>
      (s.log, s.batch.isNone, (step s (.cancel ⟨1, 1⟩)).isSome)) =
      some ([.added 1 ⟨⟨10⟩, .zero, 1⟩], true, true) := by
    decide +kernel
  obtain ⟨s, hr, hs⟩ := Option.map_eq_some_iff.mp hlog
  simp only [Prod.mk.injEq] at hs
  obtain ⟨hlog, hb, hc⟩ := hs
  obtain ⟨s', hc⟩ := Option.isSome_iff_exists.mp hc
  refine ⟨s, s', hr, hc, (never_started_iff hr (by rw [hlog]; exact List.mem_singleton_self _) rfl
    hc).mpr ?_⟩
  rintro ⟨-, b, hbatch, -⟩
  have hnone : s.batch = none := Option.isNone_iff_eq_none.mp hb
  exact absurd (hnone.symm.trans hbatch) (by simp)

/-- Two timers are due and the callback of the first one cancels the second, which is then called. -/
theorem cancelled_in_batch_started : ∃ s s' s'',
    run (new ⟨1⟩ 0) [.addTimer 1 ⟨10⟩ .zero, .addTimer 2 ⟨20⟩ .zero, .tick 100, .handleRead 0,
      .runTimer] = some s ∧
    .added 2 ⟨⟨20⟩, .zero, 2⟩ ∈ s.log ∧ step s (.cancel ⟨2, 2⟩) = some s' ∧
    run s' [.runTimer] = some s'' ∧ s''.log = s'.log ++ [.started ⟨2, 2⟩] := by
  have hlog : ((run (new ⟨1⟩ 0) [.addTimer 1 ⟨10⟩ .zero, .addTimer 2 ⟨20⟩ .zero, .tick 100,
      .handleRead 0, .runTimer]).bind fun s => (step s (.cancel ⟨2, 2⟩)).bind fun s' =>
      (run s' [.runTimer]).map fun s'' => (decide (.added 2 ⟨⟨20⟩, .zero, 2⟩ ∈ s.log),
        decide (s''.log = s'.log ++ [.started ⟨2, 2⟩]))) = some (true, true) := by
    decide +kernel
  obtain ⟨s, hr, hs⟩ := Option.bind_eq_some_iff.mp hlog
  obtain ⟨s', hc, hs'⟩ := Option.bind_eq_some_iff.mp hs
  obtain ⟨s'', hr'', hd⟩ := Option.map_eq_some_iff.mp hs'
  simp only [Prod.mk.injEq, decide_eq_true_eq] at hd
  exact ⟨s, s', s'', hr, hd.1, hc, hr'', hd.2⟩

end TimerQueue

end MuduoCpp11.Net
