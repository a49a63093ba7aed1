import MuduoCpp11.Net.TimerQueue.Cancel

/-! # Timers: stale ids

An id names a timer by an address, which `new` may give out again once the timer is deleted, and a
sequence number, which is never given out again. So an id that names no live timer never names one
again (`names_of_run`), whatever lives at its address, and the timer that it names has been alive since
`AddTimer` returned the id.

A cancel removes the timer that the id names, or marks it if it is in the batch; a mark is looked up
only for the timers of the batch (`Agree`). If the id names neither a held timer nor one of the batch,
all runs behind the cancel go as they would without it (`stale_cancel`). -/

namespace MuduoCpp11.Net

open MuduoCpp11.Base MuduoCpp11.Lib

namespace Schedule

open TimerQueue (Act Event)

variable {s s' t t' : Schedule} {act : Act} {id : TimerId}

/-! ### Schedules that differ in marks that are not looked up -/

/-- The two schedules have the same timers in the same places, and the same marks among the timers of
the batch. -/
structure Agree (s s' : Schedule) : Prop where
  heap : s'.heap = s.heap
  numCreated : s'.numCreated = s.numCreated
  clock : s'.clock = s.clock
  batch : s'.batch = s.batch
  waiting : s'.waiting = s.waiting
  marked : ∀ e ∈ s.members, ∀ u, s.heap e.timer = some u →
    ((⟨e.timer, u.sequence⟩ : TimerId) ∈ s'.marked ↔ (⟨e.timer, u.sequence⟩ : TimerId) ∈ s.marked)

theorem Agree.members (h : s.Agree s') : s'.members = s.members := by
  rw [Schedule.members, h.batch, Schedule.members]

theorem Agree.holds (h : s.Agree s') {a : Address} {u : Timer} : s'.Holds a u ↔ s.Holds a u := by
  rw [Holds, Away, h.heap, h.waiting, h.members, Holds, Away]

/-- Where an address that is free gets a timer, the batch is as it was. -/
theorem Agree.marked_update (h : s.Agree s') {a : Address} {o : Option Timer}
    (ha : ¬ s.Away a) {e : Entry} (he : e ∈ s.members) {u : Timer}
    (hu : Function.update s.heap a o e.timer = some u) :
    (⟨e.timer, u.sequence⟩ : TimerId) ∈ s'.marked ↔ (⟨e.timer, u.sequence⟩ : TimerId) ∈ s.marked := by
  have hne : e.timer ≠ a := fun hea => ha (hea ▸ Or.inr (List.mem_map_of_mem he))
  rw [Function.update_of_ne hne] at hu
  exact h.marked e he u hu

/-- **The marks that differ are not looked up**: schedules that agree agree behind a step. -/
theorem Agree.step (h : s.Agree s') (hinv : s.Inv) (hs : s.Step act t) (hs' : s'.Step act t') :
    t.Agree t' := by
  cases hs with
  | tick d =>
    cases hs'
    exact ⟨h.heap, h.numCreated, by rw [h.clock], h.batch, h.waiting, h.marked⟩
  | newElsewhere =>
    cases hs'
    exact ⟨h.heap, by rw [h.numCreated], h.clock, h.batch, h.waiting, h.marked⟩
  | newTimer when interval hfree hlt =>
    cases hs'
    exact ⟨by rw [h.heap, h.numCreated], by rw [h.numCreated], h.clock, h.batch,
      by rw [h.waiting], fun e he u hu => h.marked_update (hinv.not_away hfree) he hu⟩
  | addTimerInLoop delay hw hb ht =>
    cases hs'
    exact ⟨h.heap, h.numCreated, by rw [h.clock], h.batch, by rw [h.waiting], h.marked⟩
  | addTimer when interval delay hfree hlt =>
    cases hs'
    exact ⟨by rw [h.heap, h.numCreated], by rw [h.numCreated], by rw [h.clock], h.batch, h.waiting,
      fun e he u hu => h.marked_update (hinv.not_away hfree) he hu⟩
  | cancelHeld hh hseq =>
    cases hs' with
    | cancelHeld hh' hseq' =>
      exact ⟨by rw [h.heap], h.numCreated, h.clock, h.batch, h.waiting,
        fun e he u hu => h.marked_update hh.2 he hu⟩
    | cancelOther hh' => exact absurd hseq (hh' _ (h.holds.mpr hh))
  | cancelOther hh =>
    cases hs' with
    | cancelHeld hh' hseq' => exact absurd hseq' (hh _ (h.holds.mp hh'))
    | cancelOther hh' =>
      refine ⟨h.heap, h.numCreated, h.clock, h.batch, h.waiting, fun e he u hu => ?_⟩
      have hmarked := h.marked e he u hu
      simp only [Set.mem_ofPred_eq, h.batch, hmarked]
  | handleRead delay hb hsorted hmem =>
    cases hs' with
    | handleRead _ hb' hsorted' hmem' =>
      have hexp : _ = _ := hsorted.eq_of_mem_iff hsorted' fun e => by
        rw [hmem, hmem', h.clock]
        simp only [h.holds]
      exact ⟨h.heap, h.numCreated, by rw [h.clock], by rw [h.clock, hexp], h.waiting,
        fun _ _ _ _ => Iff.rfl⟩
  | runTimer hb ht =>
    cases hs' with
    | runTimer hb' ht' =>
      rw [h.batch, hb] at hb'
      cases hb'
      refine ⟨h.heap, h.numCreated, h.clock, rfl, h.waiting, fun e he u hu => ?_⟩
      exact h.marked e (by simpa [Schedule.members, hb] using he) u hu
  | @reset now expired heap deleted delay hb hother hkept hnodup hdeleted =>
    cases hs' with
    | @reset now' expired' heap' deleted' _ hb' hother' hkept' hnodup' hdeleted' =>
      rw [h.batch, hb] at hb'
      cases hb'
      have hmembers : s.members = expired := by simp [Schedule.members, hb]
      have hheap : heap' = heap := by
        funext a
        by_cases ha : a ∈ expired.map Entry.timer
        · -- the marks of the batch agree, so the same timers are kept
          obtain ⟨e, he, rfl⟩ := List.mem_map.mp ha
          refine Option.ext fun u => ?_
          rw [hkept' _ ha, hkept _ ha, h.heap]
          refine exists_congr fun v => and_congr_right fun hv => ?_
          rw [h.marked e (hmembers ▸ he) v hv]
        · rw [hother' a ha, hother a ha, h.heap]
      exact ⟨hheap, h.numCreated, by rw [h.clock], rfl, h.waiting,
        fun _ he => absurd he List.not_mem_nil⟩

/-- The id that `AddTimer` returns. -/
def returned (numCreated : ℕ) : Act → Option TimerId
  | .newTimer a _ _ | .addTimer a _ _ _ => some ⟨a, numCreated + 1⟩
  | _ => none

theorem Step.returned_le (hs : s.Step act s') (hid : returned s.numCreated act = some id) :
    id.sequence ≤ s'.numCreated := by
  cases hs with
  | newTimer when interval hfree hlt =>
    cases hid
    exact le_rfl
  | addTimer when interval delay hfree hlt =>
    cases hid
    exact le_rfl
  | _ => cases hid

/-- A cancel that finds no timer in the queue, and none in the batch, marks none of the batch. -/
theorem Step.agree_of_cancel (hs : s.Step (.cancel id) s')
    (hheld : ∀ u, s.Holds id.timer u → u.sequence ≠ id.sequence)
    (hbatch : s.Names id → id.timer ∉ s.members.map Entry.timer) : s.Agree s' := by
  cases hs with
  | cancelHeld hh hseq => exact absurd hseq (hheld _ hh)
  | cancelOther hh =>
    refine ⟨rfl, rfl, rfl, rfl, rfl, fun e he u hu => ?_⟩
    have hne : (⟨e.timer, u.sequence⟩ : TimerId) ≠ id := by
      rintro rfl
      exact hbatch ⟨u, hu, rfl⟩ (List.mem_map_of_mem he)
    simp [hne]

end Schedule

namespace TimerQueue

variable {s s' : TimerQueue} {act : Act} {id : TimerId}

/-! ### Runs -/

/-- What there is of the timers: the objects, and where the queue has them. -/
structure Sight where
  heap : Address → Option Timer
  numCreated : ℕ
  timers : OrderedSet Entry
  activeTimers : OrderedSet TimerId
  batch : Option Batch
  waiting : Finset Address
  clock : Timestamp

def sight (s : TimerQueue) : Sight :=
  ⟨s.heap, s.numCreated, s.timers, s.activeTimers, s.batch, s.waiting, s.clock⟩

theorem sight_eq_of_agree (h : s.Inv) (h' : s'.Inv) (ha : s.schedule.Agree s'.schedule) :
    s'.sight = s.sight := by
  have hheap : s'.heap = s.heap := ha.heap
  have haway : ∀ a, s'.schedule.Away a ↔ s.schedule.Away a := by
    intro a
    rw [Schedule.Away, ha.waiting, ha.members, Schedule.Away]
  have htimers : s'.timers = s.timers := OrderedSet.ext_mem fun e => by
    rw [h'.sets.timers, h.sets.timers, hheap]
    simp only [haway]
  have hactive : s'.activeTimers = s.activeTimers := OrderedSet.ext_mem fun x => by
    rw [h'.sets.active, h.sets.active, hheap]
    simp only [haway]
  have hnum : s'.numCreated = s.numCreated := ha.numCreated
  have hbatch : s'.batch = s.batch := ha.batch
  have hwaiting : s'.waiting = s.waiting := ha.waiting
  have hclock : s'.clock = s.clock := ha.clock
  simp only [sight, hheap, hnum, htimers, hactive, hbatch, hwaiting, hclock]

/-- Which steps are enabled can be seen. -/
theorem step_isSome_of_agree (ha : s.schedule.Agree s'.schedule) (act : Act) :
    (step s' act).isSome = (step s act).isSome := by
  have hheap : s'.heap = s.heap := ha.heap
  have hbatch : s'.batch = s.batch := ha.batch
  have hwaiting : s'.waiting = s.waiting := ha.waiting
  have hite : ∀ {p q : Prop} [Decidable p] [Decidable q] {m m' : TimerQueue}, (p ↔ q) →
      (if p then some m else none).isSome = (if q then some m' else none).isSome := by
    intro p q _ _ m m' hpq
    by_cases hp : p
    · rw [if_pos hp, if_pos (hpq.mp hp)]
      rfl
    · rw [if_neg hp, if_neg (mt hpq.mpr hp)]
  cases act with
  | tick d => rfl
  | newElsewhere => rfl
  | newTimer a when interval => exact hite (by simp only [free, hheap])
  | addTimerInLoop a delay => exact hite (by rw [hwaiting, hbatch])
  | addTimer a when interval delay => exact hite (by simp only [free, inUserCode, hheap, hbatch])
  | cancel id => exact hite (by simp only [inUserCode, hbatch])
  | handleRead delay => exact hite (by rw [hbatch])
  | runTimer =>
    simp only [step, hbatch]
    split <;> rfl
  | reset delay =>
    simp only [step, hbatch]
    split <;> rfl

/-- **Runs behind states that agree** take the same course. -/
theorem run_sight (after : List Act) {s s' : TimerQueue} (h : s.Inv) (h' : s'.Inv)
    (ha : s.schedule.Agree s'.schedule) :
    (run s' after).map sight = (run s after).map sight := by
  induction after generalizing s s' with
  | nil => simpa [run] using sight_eq_of_agree h h' ha
  | cons act after ih =>
    have hsome := step_isSome_of_agree ha act
    simp only [run, Run.run_cons]
    cases hs : step s act with
    | none =>
      rw [hs, Option.isSome_none, Option.isSome_eq_false_iff, Option.isNone_iff_eq_none] at hsome
      simp [hsome]
    | some m =>
      obtain ⟨m', hs'⟩ := Option.isSome_iff_exists.mp (hsome.trans (by rw [hs]; rfl))
      obtain ⟨hm, hstep⟩ := step_refines h hs
      obtain ⟨hm', hstep'⟩ := step_refines h' hs'
      simp only [hs', Option.bind_some]
      exact ih hm hm' (ha.step h.schedule hstep hstep')

theorem numCreated_le_of_run (h : s.Inv) {acts : List Act} (hr : run s acts = some s') :
    s.numCreated ≤ s'.numCreated := by
  have hinv : s'.Inv ∧ s.numCreated ≤ s'.numCreated := by
    refine Run.run_inv (P := fun m => m.Inv ∧ s.numCreated ≤ m.numCreated) ?_ hr ⟨h, le_rfl⟩
    intro m act m' hs hm
    have href := step_refines hm.1 hs
    exact ⟨href.1, hm.2.trans href.2.numCreated_le⟩
  exact hinv.2

/-- A timer that is named by an old id has been there all the time. -/
theorem names_of_run (h : s.Inv) (hle : id.sequence ≤ s.numCreated) {acts : List Act}
    (hr : run s acts = some s') (hn : s'.schedule.Names id) : s.schedule.Names id := by
  have hinv : s'.Inv ∧ s.numCreated ≤ s'.numCreated ∧
      (s'.schedule.Names id → s.schedule.Names id) := by
    refine Run.run_inv (P := fun m => m.Inv ∧ s.numCreated ≤ m.numCreated ∧
      (m.schedule.Names id → s.schedule.Names id)) ?_ hr ⟨h, le_rfl, fun hn => hn⟩
    rintro m act m' hs ⟨hm, hnum, hnm⟩
    have href := step_refines hm hs
    exact ⟨href.1, hnum.trans href.2.numCreated_le,
      fun hn' => hnm (href.2.names (hle.trans hnum) hn')⟩
  exact hinv.2.2 hn

/-! ### What a cancel touches -/

/-- No timer but the one at the address of the id is touched: the object, its places in the sets, and
whether the end of the batch keeps it. -/
structure OthersKept (s s' : TimerQueue) (id : TimerId) : Prop where
  heap : ∀ a, a ≠ id.timer → s'.heap a = s.heap a
  timers : ∀ e : Entry, e.timer ≠ id.timer → (e ∈ s'.timers ↔ e ∈ s.timers)
  activeTimers : ∀ x : TimerId, x.timer ≠ id.timer → (x ∈ s'.activeTimers ↔ x ∈ s.activeTimers)
  kept : ∀ a, a ≠ id.timer → ∀ now, s'.kept now a = s.kept now a
  batch : s'.batch = s.batch
  waiting : s'.waiting = s.waiting

/-- The timer is deleted, and in neither set. -/
structure Removed (s' : TimerQueue) (id : TimerId) : Prop where
  heap : s'.heap id.timer = none
  timers : ∀ e ∈ s'.timers, e.timer ≠ id.timer
  activeTimers : ∀ x ∈ s'.activeTimers, x.timer ≠ id.timer

/-- The timer is one of the batch, and the end of the batch will not keep it. -/
structure Marked (s s' : TimerQueue) (id : TimerId) : Prop where
  heap : s'.heap id.timer = s.heap id.timer
  batch : ∃ b, s.batch = some b ∧ id.timer ∈ b.expired.map Entry.timer
  kept : ∀ now, s'.kept now id.timer = none

theorem removed_of_cancel (h : s.Inv) (hid : id ∈ s.activeTimers) (hs : s' = s.cancelInLoop id) :
    OthersKept s s' id ∧ Removed s' id := by
  obtain ⟨t, -, -, heq, hsets⟩ := h.cancelInLoop_eq hid
  rw [← hs] at heq
  subst heq
  have hheap : ∀ a, a ≠ id.timer → (s.erased id t).heap a = s.heap a :=
    fun a ha => Function.update_of_ne ha _ _
  have hnone : (s.erased id t).heap id.timer = none := Function.update_self _ _ _
  refine ⟨⟨hheap, fun e he => ?_, fun x hx => ?_, fun a ha now => ?_, rfl, rfl⟩,
    ⟨hnone, fun e he hte => ?_, fun x hx htx => ?_⟩⟩
  · rw [hsets.timers, h.sets.timers, hheap _ he]
  · rw [hsets.active, h.sets.active, hheap _ hx]
  · unfold TimerQueue.kept
    rw [hheap a ha]
    rfl
  · obtain ⟨u, hu, -, -⟩ := (hsets.timers e).mp he
    rw [hte, hnone] at hu
    cases hu
  · obtain ⟨u, hu, -, -⟩ := (hsets.active x).mp hx
    rw [htx, hnone] at hu
    cases hu

theorem marked_of_cancel (h : s.Inv) (hid : id ∉ s.activeTimers) (hn : s.schedule.Names id)
    (hm : id.timer ∈ s.schedule.members.map Entry.timer) (hs : s' = s.cancelInLoop id) :
    OthersKept s s' id ∧ Marked s s' id := by
  obtain ⟨b, hb, hmem⟩ : ∃ b, s.batch = some b ∧ id.timer ∈ b.expired.map Entry.timer := by
    cases hb : s.batch with
    | none => simp [Schedule.members, schedule, hb] at hm
    | some b => exact ⟨b, rfl, by simpa [Schedule.members, schedule, hb] using hm⟩
  have hcalling : s.callingExpiredTimers = true := by rw [h.calling, hb]; rfl
  have heq := h.sets.cancelInLoop_eq_of_not_mem hid
  rw [← hs, hcalling, if_pos rfl] at heq
  obtain ⟨u, hu, hus⟩ := hn
  have hidu : (⟨id.timer, u.sequence⟩ : TimerId) = id := TimerId.ext rfl hus
  have hu : s.heap id.timer = some u := hu
  subst heq
  refine ⟨⟨fun _ _ => rfl, fun _ _ => Iff.rfl, fun _ _ => Iff.rfl, fun a ha now => ?_, rfl, rfl⟩,
    ⟨rfl, ⟨b, hb, hmem⟩, fun now => ?_⟩⟩
  · have hne : ∀ n, (⟨a, n⟩ : TimerId) ≠ id := fun n heq => ha (congrArg TimerId.timer heq)
    simp [TimerQueue.kept, hne]
  · simp [TimerQueue.kept, hu, hidu]

/-- The id names a live timer behind every action of `post`. -/
def AliveSince (s₁ : TimerQueue) (post : List Act) (id : TimerId) : Prop :=
  ∀ mid rest m, post = mid ++ rest → run s₁ mid = some m → m.schedule.Names id

/-- **A stale id cancels nothing else.** In every run: a cancel of an id that a call of `AddTimer` has
returned either removes or marks the timer that this call has created, which has been alive since, and
touches no other; or every run behind it goes as it would without the cancel. And an id that names no
timer will never name one. -/
theorem stale_cancel {clock : Timestamp} {n : ℕ} {pre post : List Act} {s₀ s₁ : TimerQueue}
    (hr₀ : run (new clock n) pre = some s₀) (hact : step s₀ act = some s₁)
    (hid : Schedule.returned s₀.numCreated act = some id) (hr : run s₁ post = some s)
    (hc : step s (.cancel id) = some s') :
    (AliveSince s₁ post id ∧ OthersKept s s' id ∧ (Removed s' id ∨ Marked s s' id) ∨
      ∀ after, (run s' after).map sight = (run s after).map sight) ∧
    ∀ after u, run s' after = some u → u.schedule.Names id → s'.schedule.Names id := by
  have h₀ := inv_of_run hr₀
  obtain ⟨h₁, hstep₁⟩ := step_refines h₀ hact
  have hle₁ : id.sequence ≤ s₁.numCreated := hstep₁.returned_le hid
  have h := run_inv h₁ hr
  have hle : id.sequence ≤ s.numCreated := hle₁.trans (numCreated_le_of_run h₁ hr)
  obtain ⟨h', hstep⟩ := step_refines h hc
  have hs' := eq_of_step_cancel hc
  have halive : s.schedule.Names id → AliveSince s₁ post id := by
    rintro hn mid rest m rfl hmid
    obtain ⟨m', hmid', hrest⟩ := Run.run_append_eq_some.mp hr
    obtain rfl : m' = m := Option.some.inj (hmid'.symm.trans hmid)
    have hlem : id.sequence ≤ m'.numCreated := hle₁.trans (numCreated_le_of_run h₁ hmid)
    exact names_of_run (run_inv h₁ hmid) hlem hrest hn
  refine ⟨?_, fun after u hu hn => ?_⟩
  · by_cases hheld : id ∈ s.activeTimers
    · obtain ⟨t, hh, hseq⟩ := h.holds_iff.mp hheld
      obtain ⟨hkept, hremoved⟩ := removed_of_cancel h hheld hs'
      exact Or.inl ⟨halive ⟨t, hh.1, hseq⟩, hkept, Or.inl hremoved⟩
    by_cases hbatch : s.schedule.Names id ∧ id.timer ∈ s.schedule.members.map Entry.timer
    · obtain ⟨hkept, hmarked⟩ := marked_of_cancel h hheld hbatch.1 hbatch.2 hs'
      exact Or.inl ⟨halive hbatch.1, hkept, Or.inr hmarked⟩
    · have hother : ∀ t, s.schedule.Holds id.timer t → t.sequence ≠ id.sequence :=
        fun t ht hseq => hheld (h.holds_iff.mpr ⟨t, ht, hseq⟩)
      have hagree := hstep.agree_of_cancel hother fun hn hm => hbatch ⟨hn, hm⟩
      exact Or.inr fun after => run_sight after h h' hagree
  · have hle' : id.sequence ≤ s'.numCreated := hle.trans hstep.numCreated_le
    exact names_of_run h' hle' hu hn

/-- A repeating timer at the address of one that has been deleted; its callback cancels the old id. -/
theorem stale_cancel_reused : ∃ s₁ s s', step (new ⟨1⟩ 0) (.addTimer 1 ⟨10⟩ .zero) = some s₁ ∧
    run s₁ [.tick 100, .handleRead 0, .runTimer, .reset, .addTimer 1 ⟨150⟩ (.ofMicros 50),
      .tick 100, .handleRead 0, .runTimer] = some s ∧
    step s (.cancel ⟨1, 1⟩) = some s' ∧ (s.heap 1).map Timer.sequence = some 2 ∧
    ∀ after, (run s' after).map sight = (run s after).map sight := by
  have hrun : ((step (new ⟨1⟩ 0) (.addTimer 1 ⟨10⟩ .zero)).bind fun s₁ =>
      (run s₁ [.tick 100, .handleRead 0, .runTimer, .reset, .addTimer 1 ⟨150⟩ (.ofMicros 50),
        .tick 100, .handleRead 0, .runTimer]).bind fun s =>
        (step s (.cancel ⟨1, 1⟩)).map fun _ => (s.heap 1).map Timer.sequence) =
      some (some 2) := by
    decide +kernel
  obtain ⟨s₁, hact, hrun⟩ := Option.bind_eq_some_iff.mp hrun
  obtain ⟨s, hr, hrun⟩ := Option.bind_eq_some_iff.mp hrun
  obtain ⟨s', hc, hseq⟩ := Option.map_eq_some_iff.mp hrun
  refine ⟨s₁, s, s', hact, hr, hc, hseq, ?_⟩
  have hr₀ : run (new ⟨1⟩ 0) [] = some (new ⟨1⟩ 0) := rfl
  rcases (stale_cancel hr₀ hact rfl hr hc).1 with ⟨halive, -, -⟩ | hsame
  · obtain ⟨t, ht, hts⟩ := halive _ [] s (by simp) hr
    have ht : s.heap 1 = some t := ht
    rw [ht, Option.map_some, Option.some.injEq] at hseq
    have hts : t.sequence = 1 := hts
    omega
  · exact hsame

end TimerQueue

end MuduoCpp11.Net
