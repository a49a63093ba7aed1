import MuduoCpp11.Net.TimerQueue.Cancel

/-! # Timers: every timer is deleted once

A timer is an owned pointer: `CancelInLoop` deletes it, or `Reset` does behind its last call, or the
destructor of the queue, which deletes what is in `timers_`. The account of a timer (`Accounted`) says
that it has been deleted exactly if it has been added and is not there any more. So the destructor deletes
nothing twice and leaves nothing that has been added (`deleted_once`). A timer that another thread has
created and that `AddTimerInLoop` has not seen is in no set: nobody deletes it. -/

namespace MuduoCpp11.Net

open MuduoCpp11.Base MuduoCpp11.Lib

namespace Schedule

open TimerQueue (Act Event)

variable {s s' : Schedule} {act : Act} {id : TimerId}

/-- `AddTimerInLoop` has taken the timer. -/
def Added (s : Schedule) (id : TimerId) : Prop :=
  ∃ t, .added id.timer t ∈ s.log ∧ t.sequence = id.sequence

/-- How often the timer has been deleted. -/
def deletions (s : Schedule) (id : TimerId) : ℕ := s.log.count (.deleted id)

/-- **The account of a timer.** -/
structure Accounted (s : Schedule) (id : TimerId) : Prop where
  old : s.Added id → id.sequence ≤ s.numCreated
  live : s.Names id → s.deletions id = 0 ∧ (s.Added id ↔ id.timer ∉ s.waiting)
  dead : ¬ s.Names id → (s.Added id → s.deletions id = 1) ∧ (¬ s.Added id → s.deletions id = 0)

theorem Accounted.frame (h : s.Accounted id) (hn : s'.Names id ↔ s.Names id)
    (ha : s'.Added id ↔ s.Added id) (hd : s'.deletions id = s.deletions id)
    (hw : id.timer ∈ s'.waiting ↔ id.timer ∈ s.waiting) (hle : s.numCreated ≤ s'.numCreated) :
    s'.Accounted id := by
  refine ⟨fun hadded => (h.old (ha.mp hadded)).trans hle, fun hnames => ?_, fun hnames => ?_⟩
  · rw [hd, ha, hw]
    exact h.live (hn.mp hnames)
  · rw [hd, ha]
    exact h.dead (hn.not.mp hnames)

/-- An entry of the log that is neither an addition nor a deletion counts for nothing. -/
theorem Accounted.emit (h : s.Accounted id) {e : Event} (hn : s'.Names id ↔ s.Names id)
    (hlog : s'.log = s.log ++ [e]) (hadded : ∀ a t, e ≠ .added a t) (hdeleted : ∀ id, e ≠ .deleted id)
    (hw : s'.waiting = s.waiting) (hle : s.numCreated ≤ s'.numCreated) : s'.Accounted id := by
  refine h.frame hn ?_ ?_ (by rw [hw]) hle
  · simp only [Added, hlog, List.mem_append, List.mem_singleton, (hadded _ _).symm, or_false]
  · have hne : (e == .deleted id) = false := by simpa using hdeleted id
    rw [deletions, hlog, List.count_append, List.count_singleton, hne]
    rfl

theorem names_update_of_ne {a : Address} {o : Option Timer} (ha : id.timer ≠ a) :
    Names { s with heap := Function.update s.heap a o } id ↔ s.Names id := by
  simp only [Names, Function.update_of_ne ha]

theorem added_concat {a : Address} {t : Timer} (hlog : s'.log = s.log ++ [.added a t]) :
    s'.Added id ↔ s.Added id ∨ id = ⟨a, t.sequence⟩ := by
  constructor
  · rintro ⟨u, hu, hseq⟩
    rw [hlog, List.mem_append, List.mem_singleton, Event.added.injEq] at hu
    rcases hu with hu | ⟨ha, rfl⟩
    · exact Or.inl ⟨u, hu, hseq⟩
    · exact Or.inr (TimerId.ext ha hseq.symm)
  · rintro (⟨u, hu, hseq⟩ | rfl)
    · exact ⟨u, by rw [hlog]; exact List.mem_append_left _ hu, hseq⟩
    · exact ⟨t, by rw [hlog]; simp, rfl⟩

theorem deletions_concat_added {a : Address} {t : Timer} (hlog : s'.log = s.log ++ [.added a t]) :
    s'.deletions id = s.deletions id := by
  rw [deletions, hlog, List.count_append, List.count_singleton]
  rfl

/-- A new timer that waits. -/
theorem Accounted.newTimer (h : s.Accounted id) {a : Address} (hfree : s.heap a = none)
    (when : Timestamp) (interval : Interval) : Accounted { s with
      heap := Function.update s.heap a (some ⟨when, interval, s.numCreated + 1⟩)
      numCreated := s.numCreated + 1
      waiting := s.waiting ∪ {a} } id := by
  by_cases ha : id.timer = a
  · have hgone : ¬ s.Names id := by
      rintro ⟨t, ht, -⟩
      rw [ha, hfree] at ht
      cases ht
    refine ⟨fun hadded => (h.old hadded).trans (Nat.le_succ _), fun hn => ?_, fun _ => h.dead hgone⟩
    have hnot : ¬ s.Added id := by
      intro hadded
      have hle := h.old hadded
      exact hgone (names_of_create hle rfl hn)
    exact ⟨(h.dead hgone).2 hnot, iff_of_false hnot (by simp [ha])⟩
  · exact h.frame (names_update_of_ne ha) Iff.rfl rfl (by simp [ha]) (Nat.le_succ _)

/-- A new timer that is added at once. -/
theorem Accounted.addTimer (h : s.Accounted id) (hinv : s.Inv) {a : Address} {t : Timer}
    (hfree : s.heap a = none) (ht : t.sequence = s.numCreated + 1) : Accounted { s with
      heap := Function.update s.heap a (some t)
      numCreated := s.numCreated + 1
      log := s.log ++ [.added a t] } id := by
  obtain ⟨m, hm⟩ : ∃ m : Schedule, m = { s with
      heap := Function.update s.heap a (some t)
      numCreated := s.numCreated + 1
      log := s.log ++ [Event.added a t] } := ⟨_, rfl⟩
  have hadded : m.Added id ↔ s.Added id ∨ id = ⟨a, t.sequence⟩ := added_concat (by rw [hm])
  have hdeletions : m.deletions id = s.deletions id := deletions_concat_added (by rw [hm])
  rw [← hm]
  by_cases hid : id = ⟨a, t.sequence⟩
  · have hgone : ¬ s.Names id := by
      rintro ⟨u, hu, -⟩
      rw [hid, hfree] at hu
      cases hu
    have hnot : ¬ s.Added id := by
      intro hold
      have hle := h.old hold
      rw [hid] at hle
      dsimp only at hle
      omega
    have hwaiting : a ∉ s.waiting := fun hw => hinv.not_away hfree (Or.inl hw)
    have hnames : m.Names id := ⟨t, by rw [hm, hid]; exact Function.update_self .., by rw [hid]⟩
    refine ⟨fun _ => ?_, fun _ => ⟨hdeletions.trans ((h.dead hgone).2 hnot), ?_⟩,
      fun hn => absurd hnames hn⟩
    · rw [hid, hm]
      exact ht.le
    · rw [hadded]
      exact iff_of_true (Or.inr hid) (by rw [hid, hm]; exact hwaiting)
  · rw [or_iff_left hid] at hadded
    refine h.frame ?_ hadded hdeletions (by rw [hm]) (by rw [hm]; exact Nat.le_succ _)
    rw [hm]
    by_cases ha : id.timer = a
    · refine iff_of_false ?_ ?_
      · rintro ⟨u, hu, hseq⟩
        have hself : t = u := by simpa [ha] using hu
        exact hid (TimerId.ext ha (by rw [← hseq, hself]))
      · rintro ⟨u, hu, -⟩
        rw [ha, hfree] at hu
        cases hu
    · exact names_update_of_ne ha

/-- A timer that has waited is added. -/
theorem Accounted.addTimerInLoop (h : s.Accounted id) (hinv : s.Inv) {a : Address} {t : Timer}
    (ht : s.heap a = some t) : Accounted { s with
      waiting := s.waiting.erase a
      log := s.log ++ [.added a t] } id := by
  have hadded : Added { s with waiting := s.waiting.erase a, log := s.log ++ [.added a t] } id ↔
      s.Added id ∨ id = ⟨a, t.sequence⟩ := added_concat rfl
  have hdeletions : deletions { s with
      waiting := s.waiting.erase a, log := s.log ++ [.added a t] } id = s.deletions id :=
    deletions_concat_added rfl
  by_cases hid : id = ⟨a, t.sequence⟩
  · have hn : s.Names id := ⟨t, by rw [hid]; exact ht, by rw [hid]⟩
    refine ⟨fun _ => ?_, fun _ => ⟨hdeletions.trans (h.live hn).1, ?_⟩, fun hnot => absurd hn hnot⟩
    · rw [hid]
      exact hinv.seq_le a t ht
    · rw [hadded]
      exact iff_of_true (Or.inr hid) (by simp [hid])
  · rw [or_iff_left hid] at hadded
    by_cases ha : id.timer = a
    · have hgone : ¬ s.Names id := by
        rintro ⟨u, hu, hseq⟩
        rw [ha, ht, Option.some.injEq] at hu
        exact hid (TimerId.ext ha (by rw [← hseq, hu]))
      refine ⟨fun hnew => h.old (hadded.mp hnew), fun hn => absurd hn hgone, fun _ => ?_⟩
      rw [hadded, hdeletions]
      exact h.dead hgone
    · exact h.frame Iff.rfl hadded hdeletions (by simp [ha]) le_rfl

/-- What is deleted has been added, and has not been deleted before. -/
theorem Accounted.delete (h : s.Accounted id) {ids : List TimerId} (hnodup : ids.Nodup)
    (hheld : id ∈ ids → s.Names id ∧ id.timer ∉ s.waiting)
    (hn : s'.Names id ↔ s.Names id ∧ id ∉ ids) (ha : s'.Added id ↔ s.Added id)
    (hd : s'.deletions id = s.deletions id + ids.count id) (hw : s'.waiting = s.waiting)
    (hle : s'.numCreated = s.numCreated) : s'.Accounted id := by
  by_cases hmem : id ∈ ids
  · obtain ⟨hnames, hnot⟩ := hheld hmem
    obtain ⟨hzero, hiff⟩ := h.live hnames
    have hadded : s.Added id := hiff.mpr hnot
    have hone : s'.deletions id = 1 := by
      rw [hd, hzero, List.count_eq_one_of_mem hnodup hmem]
    refine ⟨fun _ => hle ▸ h.old hadded, fun hnames' => absurd hmem (hn.mp hnames').2, fun _ => ?_⟩
    exact ⟨fun _ => hone, fun hno => absurd (ha.mpr hadded) hno⟩
  · have hsame : s'.deletions id = s.deletions id := by
      rw [hd, List.count_eq_zero_of_not_mem hmem, Nat.add_zero]
    exact h.frame (hn.trans (and_iff_left hmem)) ha hsame (by rw [hw]) hle.ge

/-- A cancel that finds its timer. -/
theorem Accounted.cancelHeld (h : s.Accounted id) {x : TimerId} {t : Timer}
    (hh : s.Holds x.timer t) (hseq : t.sequence = x.sequence) : Accounted { s with
      heap := Function.update s.heap x.timer none
      log := s.log ++ [.cancelled x, .deleted x] } id := by
  have hnames : s.Names x := ⟨t, hh.1, hseq⟩
  refine h.delete (List.nodup_singleton x) (fun hmem => ?_) ?_ ?_ ?_ rfl rfl
  · rw [List.mem_singleton.mp hmem]
    exact ⟨hnames, fun hw => hh.2 (Or.inl hw)⟩
  · rw [List.mem_singleton]
    by_cases ha : id.timer = x.timer
    · constructor
      · rintro ⟨u, hu, -⟩
        simp [ha] at hu
      · rintro ⟨⟨u, hu, hus⟩, hne⟩
        refine absurd (TimerId.ext ha ?_) hne
        rw [ha, hh.1, Option.some.injEq] at hu
        rw [← hus, ← hseq, hu]
    · have hne : id ≠ x := fun heq => ha (by rw [heq])
      exact (names_update_of_ne ha).trans (and_iff_left hne).symm
  · simp [Added]
  · rw [deletions, deletions, List.count_append]
    congr 1
    by_cases hx : x = id <;> simp [hx]

/-- The end of a batch. -/
theorem Accounted.reset (h : s.Accounted id) (hinv : s.Inv) {delay : ℕ} (hs : s.Step (.reset delay) s') :
    s'.Accounted id := by
  cases hs with
  | @reset now expired heap deleted _ hb hother hkept hnodup hdeleted =>
    have hmem : s.members = expired := by simp [members, hb]
    refine h.delete hnodup (fun hid => ?_) ?_ (by simp [Added]) ?_ rfl rfl
    · obtain ⟨ha, -, hn⟩ := (hdeleted id).mp hid
      exact ⟨hn, hinv.disjoint _ (hmem ▸ ha)⟩
    · by_cases ha : id.timer ∈ expired.map Entry.timer
      · constructor
        · rintro ⟨u, hu, hus⟩
          obtain ⟨t, ht, -, -, rfl⟩ := (hkept _ ha u).mp hu
          refine ⟨⟨t, ht, hus⟩, fun hid => ?_⟩
          exact absurd (((hdeleted id).mp hid).2.1.symm.trans hu) (by simp)
        · rintro ⟨⟨t, ht, hts⟩, hid⟩
          cases hheap : heap id.timer with
          | none => exact absurd ((hdeleted id).mpr ⟨ha, hheap, t, ht, hts⟩) hid
          | some u =>
            obtain ⟨v, hv, -, -, rfl⟩ := (hkept _ ha u).mp hheap
            rw [ht, Option.some.injEq] at hv
            exact ⟨_, hheap, by rw [← hts, hv]; rfl⟩
      · have hnot : id ∉ deleted := fun hid => ha ((hdeleted id).mp hid).1
        have hsame : heap id.timer = s.heap id.timer := hother _ ha
        rw [and_iff_left hnot, Names, Names, ← hsame]
    · rw [deletions, deletions, List.count_append]
      congr 1
      exact List.count_map_of_injective _ _ (fun x y hxy => Event.deleted.inj hxy) _

/-- **A step keeps the account.** -/
theorem Step.accounted (hs : s.Step act s') (hinv : s.Inv) (h : s.Accounted id) : s'.Accounted id := by
  cases hs with
  | tick d => exact h.frame Iff.rfl Iff.rfl rfl Iff.rfl le_rfl
  | newElsewhere => exact h.frame Iff.rfl Iff.rfl rfl Iff.rfl (Nat.le_succ _)
  | newTimer when interval hfree hlt => exact h.newTimer hfree when interval
  | addTimer when interval delay hfree hlt =>
    have hadd := h.addTimer (t := ⟨when, interval, s.numCreated + 1⟩) hinv hfree rfl
    exact hadd.frame Iff.rfl Iff.rfl rfl Iff.rfl le_rfl
  | addTimerInLoop delay hw hb ht =>
    exact (h.addTimerInLoop hinv ht).frame Iff.rfl Iff.rfl rfl Iff.rfl le_rfl
  | cancelHeld hh hseq => exact h.cancelHeld hh hseq
  | cancelOther hh => exact h.emit Iff.rfl rfl (by simp) (by simp) rfl le_rfl
  | handleRead delay hb hsorted hmem => exact h.frame Iff.rfl Iff.rfl rfl Iff.rfl le_rfl
  | runTimer hb ht => exact h.emit Iff.rfl rfl (by simp) (by simp) rfl le_rfl
  | reset delay hb hother hkept hnodup hdeleted =>
    exact h.reset hinv (.reset delay hb hother hkept hnodup hdeleted)

end Schedule

namespace TimerQueue

variable {s : TimerQueue} {acts : List Act}

theorem accounted_of_run {clock : Timestamp} {n : ℕ} (hr : run (new clock n) acts = some s)
    (id : TimerId) : s.schedule.Accounted id := by
  have hboth : s.Inv ∧ s.schedule.Accounted id := by
    refine Run.run_inv (P := fun s : TimerQueue => s.Inv ∧ s.schedule.Accounted id)
      (fun m act m' hs h => ?_) hr ⟨inv_new clock n, ?_⟩
    · obtain ⟨hinv, hstep⟩ := step_refines h.1 hs
      exact ⟨hinv, hstep.accounted h.1.schedule h.2⟩
    · refine ⟨?_, ?_, fun _ => ⟨?_, fun _ => rfl⟩⟩
      · rintro ⟨t, ht, -⟩
        cases ht
      · rintro ⟨t, ht, -⟩
        cases ht
      · rintro ⟨t, ht, -⟩
        cases ht
  exact hboth.2

/-- `~TimerQueue`: the loop over `timers_`. -/
def destroy (s : TimerQueue) : TimerQueue := s.timers.toList.foldl (fun s e => s.delete e.timer) s

/-- **The loop of the destructor** deletes each of the timers. -/
theorem foldl_delete : ∀ {l : List Entry} {s : TimerQueue}, (l.map Entry.timer).Nodup →
    (∀ e ∈ l, (s.heap e.timer).isSome) →
    (l.foldl (fun s e => s.delete e.timer) s).failed = s.failed ∧
      (∀ a, (l.foldl (fun s e => s.delete e.timer) s).heap a =
        if a ∈ l.map Entry.timer then none else s.heap a) ∧
      (l.foldl (fun s e => s.delete e.timer) s).log =
        s.log ++ l.map fun e => .deleted (s.idOf e.timer)
  | [], s, _, _ => by simp
  | e :: l, s, hnodup, hlive => by
    obtain ⟨t, ht⟩ := Option.isSome_iff_exists.mp (hlive e List.mem_cons_self)
    rw [List.map_cons, List.nodup_cons] at hnodup
    have hother (x : Entry) (hx : x ∈ l) : x.timer ≠ e.timer := fun heq =>
      hnodup.1 (heq ▸ List.mem_map_of_mem hx)
    have hheap (a : Address) : (s.delete e.timer).heap a = if a = e.timer then none else s.heap a := by
      rw [delete_eq ht]
      exact Function.update_apply ..
    have hlive' : ∀ x ∈ l, ((s.delete e.timer).heap x.timer).isSome := by
      intro x hx
      rw [hheap, if_neg (hother x hx)]
      exact hlive x (List.mem_cons_of_mem _ hx)
    obtain ⟨hfailed, hheap', hlog⟩ := foldl_delete hnodup.2 hlive'
    rw [List.foldl_cons]
    refine ⟨hfailed.trans (by rw [delete_eq ht]), fun a => ?_, ?_⟩
    · rw [hheap', hheap]
      by_cases ha : a = e.timer <;> simp [ha]
    · have hids : (l.map fun x => Event.deleted ((s.delete e.timer).idOf x.timer)) =
          l.map fun x => Event.deleted (s.idOf x.timer) := by
        refine List.map_congr_left fun x hx => ?_
        rw [idOf, idOf, timer, timer, hheap, if_neg (hother x hx)]
      have hfirst : s.idOf e.timer = ⟨e.timer, t.sequence⟩ := by simp [idOf, timer, ht]
      rw [hlog, hids, List.map_cons, hfirst, delete_eq ht]
      simp

/-- The timers of `timers_`, outside of `HandleRead`. -/
theorem timers_live (h : s.Inv) (hb : s.batch = none) :
    (s.timers.toList.map Entry.timer).Nodup ∧ ∀ a, a ∈ s.timers.toList.map Entry.timer ↔
      (s.heap a).isSome ∧ a ∉ s.waiting := by
  have haway (a : Address) : s.schedule.Away a ↔ a ∈ s.waiting := by
    simp [Schedule.Away, Schedule.members, TimerQueue.schedule, hb]
  have hmem (e : Entry) : e ∈ s.timers.toList ↔
      ∃ t, s.heap e.timer = some t ∧ e.timer ∉ s.waiting ∧ e.when = t.expiration := by
    have htimers := h.sets.timers e
    rwa [haway] at htimers
  refine ⟨List.Nodup.map_on (fun e he e' he' heq => ?_) s.timers.nodup, fun a => ⟨?_, ?_⟩⟩
  · obtain ⟨t, ht, -, hw⟩ := (hmem e).mp he
    obtain ⟨t', ht', -, hw'⟩ := (hmem e').mp he'
    rw [heq, ht', Option.some.injEq] at ht
    exact Entry.ext (by rw [hw, hw', ht]) heq
  · intro ha
    obtain ⟨e, he, rfl⟩ := List.mem_map.mp ha
    obtain ⟨t, ht, hw, -⟩ := (hmem e).mp he
    exact ⟨by simp [ht], hw⟩
  · rintro ⟨hlive, hw⟩
    obtain ⟨t, ht⟩ := Option.isSome_iff_exists.mp hlive
    exact List.mem_map.mpr ⟨⟨t.expiration, a⟩, (hmem _).mpr ⟨t, ht, hw, rfl⟩, rfl⟩

/-- The identifiers of the timers that the destructor deletes. -/
theorem mem_map_idOf (h : s.Inv) (hb : s.batch = none) (id : TimerId) :
    id ∈ s.timers.toList.map (fun e => s.idOf e.timer) ↔
      s.schedule.Names id ∧ id.timer ∉ s.waiting := by
  obtain ⟨-, hmem⟩ := timers_live h hb
  constructor
  · intro hid
    obtain ⟨e, he, rfl⟩ := List.mem_map.mp hid
    obtain ⟨hlive, hw⟩ := (hmem e.timer).mp (List.mem_map_of_mem he)
    obtain ⟨t, ht⟩ := Option.isSome_iff_exists.mp hlive
    exact ⟨⟨t, ht, by simp [idOf, timer, ht]⟩, hw⟩
  · rintro ⟨⟨t, ht, hseq⟩, hw⟩
    have ht' : s.heap id.timer = some t := ht
    obtain ⟨e, he, heq⟩ := List.mem_map.mp ((hmem id.timer).mpr ⟨by simp [ht'], hw⟩)
    refine List.mem_map.mpr ⟨e, he, TimerId.ext heq ?_⟩
    simp [idOf, timer, heq, ht', hseq]

/-- The destructor leaves what waits, and deletes the rest. -/
theorem destroy_result (h : s.Inv) (hb : s.batch = none) : s.destroy.failed = s.failed ∧
    (∀ a t, s.destroy.heap a = some t ↔ a ∈ s.waiting ∧ s.heap a = some t) ∧
    s.destroy.log = s.log ++ s.timers.toList.map fun e => .deleted (s.idOf e.timer) := by
  obtain ⟨hnodup, hmem⟩ := timers_live h hb
  obtain ⟨hfailed, hheap, hlog⟩ := foldl_delete hnodup fun e he =>
    ((hmem e.timer).mp (List.mem_map_of_mem he)).1
  refine ⟨hfailed, fun a t => ?_, hlog⟩
  rw [destroy, hheap]
  by_cases hlive : (s.heap a).isSome
  · by_cases hw : a ∈ s.waiting
    · rw [if_neg (fun ha => ((hmem a).mp ha).2 hw)]
      exact (and_iff_right hw).symm
    · rw [if_pos ((hmem a).mpr ⟨hlive, hw⟩)]
      simp [hw]
  · rw [if_neg (fun ha => hlive ((hmem a).mp ha).1)]
    have hnone : s.heap a = none := by simpa using hlive
    simp [hnone]

/-- **Every timer is deleted once.** When the queue is destroyed, between two calls of `HandleRead` of any
run, no assertion fails, and no timer is left but those that wait to be added. A timer that has been added
has then been deleted once, by a cancel, behind its last call or by the destructor, and no other timer has
been deleted. -/
theorem deleted_once {clock : Timestamp} {n : ℕ} (hr : run (new clock n) acts = some s)
    (hb : s.batch = none) : s.destroy.failed = [] ∧
      (∀ a t, s.destroy.heap a = some t ↔ a ∈ s.waiting ∧ s.heap a = some t) ∧
      ∀ id : TimerId,
        ((∃ t, .added id.timer t ∈ s.log ∧ t.sequence = id.sequence) →
          s.destroy.log.count (.deleted id) = 1) ∧
        ((¬ ∃ t, .added id.timer t ∈ s.log ∧ t.sequence = id.sequence) →
          s.destroy.log.count (.deleted id) = 0) := by
  have hinv := inv_of_run hr
  obtain ⟨hfailed, hleft, hlog⟩ := destroy_result hinv hb
  refine ⟨hfailed.trans hinv.failed, hleft, fun id => ?_⟩
  obtain ⟨ids, hids⟩ : ∃ ids, ids = s.timers.toList.map fun e => s.idOf e.timer := ⟨_, rfl⟩
  have hheld : id ∈ ids ↔ s.schedule.Names id ∧ id.timer ∉ s.waiting :=
    hids ▸ mem_map_idOf hinv hb id
  have hidsNodup : ids.Nodup := by
    refine List.Nodup.of_map TimerId.timer ?_
    rw [hids, List.map_map]
    exact (timers_live hinv hb).1
  have hnames : (∃ t, s.destroy.heap id.timer = some t ∧ t.sequence = id.sequence) ↔
      s.schedule.Names id ∧ id.timer ∈ s.waiting := by
    simp only [hleft, and_assoc, exists_and_left]
    exact and_comm
  have hcount : s.destroy.log.count (.deleted id) = s.log.count (.deleted id) + ids.count id := by
    rw [hlog, List.count_append, hids]
    congr 1
    rw [← List.count_map_of_injective _ _ (fun x y hxy => Event.deleted.inj hxy), List.map_map]
    rfl
  have hadded : (∃ t, .added id.timer t ∈ s.destroy.log ∧ t.sequence = id.sequence) ↔
      ∃ t, .added id.timer t ∈ s.log ∧ t.sequence = id.sequence := by
    simp [hlog]
  -- The destructor is one more deletion in the account.
  have haccount : Schedule.Accounted
      { s.schedule with heap := s.destroy.heap, log := s.destroy.log } id := by
    refine (accounted_of_run hr id).delete hidsNodup hheld.mp (hnames.trans ?_) hadded hcount rfl rfl
    rw [hheld]
    tauto
  by_cases hn : s.schedule.Names id ∧ id.timer ∈ s.waiting
  · obtain ⟨hzero, hiff⟩ := haccount.live (hnames.mpr hn)
    exact ⟨fun ha => absurd hn.2 (hiff.mp (hadded.mpr ha)), fun _ => hzero⟩
  · obtain ⟨hone, hzero⟩ := haccount.dead (fun h => hn (hnames.mp h))
    exact ⟨fun ha => hone (hadded.mpr ha), fun ha => hzero (fun h => ha (hadded.mp h))⟩

/-- The first of two timers is cancelled and a third one waits: the destructor deletes the second, and the
third is left. -/
theorem deleted_once_waiting : ∃ s, run (new ⟨1⟩ 0) [.addTimer 1 ⟨10⟩ .zero, .addTimer 2 ⟨20⟩ .zero,
      .newTimer 3 ⟨30⟩ .zero, .cancel ⟨1, 1⟩] = some s ∧
    s.log.count (.deleted ⟨2, 2⟩) = 0 ∧ s.destroy.failed = [] ∧
    s.destroy.log.count (.deleted ⟨1, 1⟩) = 1 ∧ s.destroy.log.count (.deleted ⟨2, 2⟩) = 1 ∧
    s.destroy.log.count (.deleted ⟨3, 3⟩) = 0 ∧ s.destroy.heap 3 = some ⟨⟨30⟩, .zero, 3⟩ := by
  have hlog : ((run (new ⟨1⟩ 0) [.addTimer 1 ⟨10⟩ .zero, .addTimer 2 ⟨20⟩ .zero,
      .newTimer 3 ⟨30⟩ .zero, .cancel ⟨1, 1⟩]).map fun s =>
      (s.log, s.batch.isNone, decide (3 ∈ s.waiting), s.heap 3)) =
      some ([.added 1 ⟨⟨10⟩, .zero, 1⟩, .added 2 ⟨⟨20⟩, .zero, 2⟩, .cancelled ⟨1, 1⟩,
        .deleted ⟨1, 1⟩], true, true, some ⟨⟨30⟩, .zero, 3⟩) := by
    decide +kernel
  obtain ⟨s, hr, hs⟩ := Option.map_eq_some_iff.mp hlog
  simp only [Prod.mk.injEq, Option.isNone_iff_eq_none, decide_eq_true_eq] at hs
  obtain ⟨hlog, hb, hw, hheap⟩ := hs
  obtain ⟨hfailed, hleft, hcount⟩ := deleted_once hr hb
  refine ⟨s, hr, ?_, hfailed, ?_, ?_, ?_, ?_⟩
  · rw [hlog]
    decide
  · exact (hcount ⟨1, 1⟩).1 ⟨⟨⟨10⟩, .zero, 1⟩, by simp [hlog], rfl⟩
  · exact (hcount ⟨2, 2⟩).1 ⟨⟨⟨20⟩, .zero, 2⟩, by simp [hlog], rfl⟩
  · refine (hcount ⟨3, 3⟩).2 ?_
    rintro ⟨t, ht, -⟩
    simp [hlog] at ht
  · exact (hleft 3 _).mpr ⟨hw, hheap⟩

end TimerQueue

end MuduoCpp11.Net
