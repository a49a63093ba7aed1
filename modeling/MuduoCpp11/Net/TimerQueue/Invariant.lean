import MuduoCpp11.Net.TimerQueue

/-! # Timers: the two sets

`Sets away s` says that `timers_` and `active_timers_` hold the same timers, the live ones that are
not `away`, each under the key it has now. A timer is away while it waits for `AddTimerInLoop` and
while it is in the batch of `HandleRead`; only then may its expiration change. Under `Sets` no
assertion of an operation fails, and the operation is the plain update of the sets that its `_eq`
lemma states. -/

namespace MuduoCpp11.Net.TimerQueue

open MuduoCpp11.Base MuduoCpp11.Lib

variable {s : TimerQueue} {away away' : Address → Prop} {a : Address} {t : Timer}

theorem assert_of {x : Assertion} {p : Bool} (h : p = true) : s.assert x p = s := by
  rw [h]
  rfl

theorem timer_eq (h : s.heap a = some t) : s.timer a = t := by
  simp [timer, h]

theorem idOf_eq (h : s.heap a = some t) : s.idOf a = ⟨a, t.sequence⟩ := by
  rw [idOf, timer_eq h]

theorem deref_eq (h : s.heap a = some t) : s.deref a = s := assert_of (by simp [h])

theorem delete_eq (h : s.heap a = some t) :
    s.delete a = { s with
      heap := Function.update s.heap a none
      log := s.log ++ [.deleted ⟨a, t.sequence⟩] } := by
  simp [delete, deref_eq h, note, idOf_eq h]

structure Sets (away : Address → Prop) (s : TimerQueue) : Prop where
  timers : ∀ e, e ∈ s.timers ↔
    ∃ t, s.heap e.timer = some t ∧ ¬ away e.timer ∧ e.when = t.expiration
  active : ∀ id, id ∈ s.activeTimers ↔
    ∃ t, s.heap id.timer = some t ∧ ¬ away id.timer ∧ id.sequence = t.sequence
  size : s.timers.size = s.activeTimers.size

theorem Sets.congr (h : Sets away s) (ha : ∀ a, away' a ↔ away a) : Sets away' s where
  timers e := by simp only [h.timers e, ha]
  active id := by simp only [h.active id, ha]
  size := h.size

/-- A step that touches neither the sets nor the memory keeps the sets. -/
theorem Sets.of_eq {s' : TimerQueue} (h : Sets away s) (hheap : s'.heap = s.heap)
    (htimers : s'.timers = s.timers) (hactive : s'.activeTimers = s.activeTimers) : Sets away s' where
  timers e := by rw [htimers, hheap]; exact h.timers e
  active id := by rw [hactive, hheap]; exact h.active id
  size := by rw [htimers, hactive]; exact h.size

/-- The memory of a timer that is away may change, as long as it stays away. -/
theorem Sets.update_away (h : Sets away s) (s' : TimerQueue) {o : Option Timer} (ha : away a)
    (hheap : s'.heap = Function.update s.heap a o) (htimers : s'.timers = s.timers)
    (hactive : s'.activeTimers = s.activeTimers) : Sets away s' where
  timers e := by
    rw [htimers, hheap, h.timers]
    by_cases he : e.timer = a
    · simp [he, ha]
    · simp [Function.update_of_ne he]
  active id := by
    rw [hactive, hheap, h.active]
    by_cases he : id.timer = a
    · simp [he, ha]
    · simp [Function.update_of_ne he]
  size := by rw [htimers, hactive]; exact h.size

/-! ### Insert -/

theorem Sets.not_mem_timers (h : Sets away s) (ha : away a) (when : Timestamp) :
    (⟨when, a⟩ : Entry) ∉ s.timers := by
  intro hm
  obtain ⟨_, _, hna, _⟩ := (h.timers _).mp hm
  exact hna ha

theorem Sets.not_mem_active (h : Sets away s) (ha : away a) (n : ℕ) :
    (⟨a, n⟩ : TimerId) ∉ s.activeTimers := by
  intro hm
  obtain ⟨_, _, hna, _⟩ := (h.active _).mp hm
  exact hna ha

/-- `Insert` without its assertions. -/
def inserted (s : TimerQueue) (a : Address) (t : Timer) : TimerQueue :=
  { s with
    timers := (s.timers.insert ⟨t.expiration, a⟩).1
    activeTimers := (s.activeTimers.insert ⟨a, t.sequence⟩).1 }

theorem Sets.inserted (h : Sets away s) (ha : away a) (ht : s.heap a = some t) :
    Sets (fun x => away x ∧ x ≠ a) (s.inserted a t) where
  timers e := by
    show e ∈ (s.timers.insert ⟨t.expiration, a⟩).1 ↔ ∃ t, s.heap e.timer = some t ∧ _ ∧ _
    rw [OrderedSet.mem_insert, h.timers]
    by_cases he : e.timer = a
    · simp [Entry.ext_iff, he, ha, ht]
    · simp [Entry.ext_iff, he]
  active id := by
    show id ∈ (s.activeTimers.insert ⟨a, t.sequence⟩).1 ↔ ∃ t, s.heap id.timer = some t ∧ _ ∧ _
    rw [OrderedSet.mem_insert, h.active]
    by_cases he : id.timer = a
    · simp [TimerId.ext_iff, he, ha, ht]
    · simp [TimerId.ext_iff, he]
  size := by
    show (s.timers.insert _).1.size = (s.activeTimers.insert _).1.size
    rw [OrderedSet.size_insert (h.not_mem_timers ha _),
      OrderedSet.size_insert (h.not_mem_active ha _), h.size]

theorem Sets.insert_eq (h : Sets away s) (ha : away a) (ht : s.heap a = some t) :
    s.insert a = (s.inserted a t, s.timers.begin?.all fun e => t.expiration < e.when) := by
  have hsize : s.sizesAgree = true := by simp [sizesAgree, h.size]
  have hsize' : (s.inserted a t).sizesAgree = true := by simp [sizesAgree, (h.inserted ha ht).size]
  have hi : (s.timers.insert ⟨t.expiration, a⟩).2 = true := by
    simp [OrderedSet.insert_snd, h.not_mem_timers ha]
  have hj : (s.activeTimers.insert ⟨a, t.sequence⟩).2 = true := by
    simp [OrderedSet.insert_snd, h.not_mem_active ha]
  have hid : { s with timers := (s.timers.insert ⟨t.expiration, a⟩).1 }.idOf a =
      ⟨a, t.sequence⟩ := idOf_eq ht
  unfold insert
  simp only [assert_of hsize, deref_eq ht, timer_eq ht, assert_of hi, hid, assert_of hj]
  exact congrArg (·, _) (assert_of hsize')

/-- The timerfd after `AddTimerInLoop`. -/
def timerfdAfterAdd (s : TimerQueue) (expiration : Timestamp) (delay : ℕ) : Option Arming :=
  if s.timers.begin?.all fun e => expiration < e.when then
    (s.resetTimerfd expiration delay).timerfd
  else s.timerfd

theorem Sets.addTimerInLoop_eq (h : Sets away s) (ha : away a) (ht : s.heap a = some t) (delay : ℕ) :
    s.addTimerInLoop a delay = { s.inserted a t with
      clock := ⟨s.clock.microsecondsSinceEpoch + delay⟩
      log := s.log ++ [.added a t]
      timerfd := s.timerfdAfterAdd t.expiration delay } := by
  have hn : Sets away (s.note (.added a t)) := h.of_eq rfl rfl rfl
  have ht' : (s.note (.added a t)).heap a = some t := ht
  have hins : (s.note (.added a t)).insert a = ((s.note (.added a t)).inserted a t,
      s.timers.begin?.all fun e => t.expiration < e.when) := hn.insert_eq ha ht'
  unfold addTimerInLoop timerfdAfterAdd
  simp only [timer_eq ht, timer_eq ht', hins]
  split_ifs with hc
  · rfl
  · rfl

/-! ### CancelInLoop -/

/-- `CancelInLoop` of a timer that is found. -/
def erased (s : TimerQueue) (id : TimerId) (t : Timer) : TimerQueue :=
  { s with
    heap := Function.update s.heap id.timer none
    timers := (s.timers.erase ⟨t.expiration, id.timer⟩).1
    activeTimers := (s.activeTimers.erase id).1
    log := s.log ++ [.cancelled id, .deleted id] }

theorem Sets.mem_timers (h : Sets away s) (ht : s.heap a = some t) (ha : ¬ away a) :
    (⟨t.expiration, a⟩ : Entry) ∈ s.timers :=
  (h.timers _).mpr ⟨t, ht, ha, rfl⟩

theorem Sets.mem_active (h : Sets away s) (ht : s.heap a = some t) (ha : ¬ away a) :
    (⟨a, t.sequence⟩ : TimerId) ∈ s.activeTimers :=
  (h.active _).mpr ⟨t, ht, ha, rfl⟩

theorem Sets.erased (h : Sets away s) (ht : s.heap a = some t) (ha : ¬ away a) :
    Sets away (s.erased ⟨a, t.sequence⟩ t) where
  timers e := by
    show e ∈ (s.timers.erase ⟨t.expiration, a⟩).1 ↔
      ∃ u, Function.update s.heap a none e.timer = some u ∧ _ ∧ _
    rw [OrderedSet.mem_erase, h.timers]
    by_cases he : e.timer = a
    · simp +contextual [Entry.ext_iff, he, ht]
    · simp [Entry.ext_iff, he]
  active id := by
    show id ∈ (s.activeTimers.erase ⟨a, t.sequence⟩).1 ↔
      ∃ u, Function.update s.heap a none id.timer = some u ∧ _ ∧ _
    rw [OrderedSet.mem_erase, h.active]
    by_cases he : id.timer = a
    · simp +contextual [TimerId.ext_iff, he, ht]
    · simp [TimerId.ext_iff, he]
  size := by
    have h1 := OrderedSet.size_erase (h.mem_timers ht ha)
    have h2 := OrderedSet.size_erase (h.mem_active ht ha)
    show (s.timers.erase ⟨t.expiration, a⟩).1.size = (s.activeTimers.erase ⟨a, t.sequence⟩).1.size
    have := h.size
    omega

theorem Sets.cancelInLoop_eq (h : Sets away s) (ht : s.heap a = some t) (ha : ¬ away a) :
    s.cancelInLoop ⟨a, t.sequence⟩ = s.erased ⟨a, t.sequence⟩ t := by
  have hsize : s.sizesAgree = true := by simp [sizesAgree, h.size]
  have hsize' : (s.erased ⟨a, t.sequence⟩ t).sizesAgree = true := by
    simp [sizesAgree, (h.erased ht ha).size]
  have hn : decide ((s.timers.erase ⟨t.expiration, a⟩).2 = 1) = true := by
    simp [h.mem_timers ht ha]
  have hmem : (⟨a, t.sequence⟩ : TimerId) ∈ (s.note (.cancelled ⟨a, t.sequence⟩)).activeTimers :=
    h.mem_active ht ha
  have ht' : (s.note (.cancelled ⟨a, t.sequence⟩)).heap a = some t := ht
  have ht'' : { s.note (.cancelled ⟨a, t.sequence⟩) with
      timers := (s.timers.erase ⟨t.expiration, a⟩).1 }.heap a = some t := ht
  unfold cancelInLoop
  simp only [assert_of hsize, if_pos hmem, deref_eq ht', timer_eq ht']
  rw [show (s.note (.cancelled ⟨a, t.sequence⟩)).timers = s.timers from rfl, assert_of hn,
    delete_eq ht'']
  have hlog : (s.note (.cancelled ⟨a, t.sequence⟩)).log ++ [Event.deleted ⟨a, t.sequence⟩] =
      s.log ++ [.cancelled ⟨a, t.sequence⟩, .deleted ⟨a, t.sequence⟩] := by
    simp [note]
  simp only [hlog]
  exact assert_of hsize'

/-- `CancelInLoop` of a timer that is not found. -/
theorem Sets.cancelInLoop_eq_of_not_mem (h : Sets away s) {id : TimerId}
    (hid : id ∉ s.activeTimers) :
    s.cancelInLoop id = { s with
      log := s.log ++ [.cancelled id]
      cancelingTimers := if s.callingExpiredTimers then (s.cancelingTimers.insert id).1
        else s.cancelingTimers } := by
  have hsize : s.sizesAgree = true := by simp [sizesAgree, h.size]
  have hid' : id ∉ (s.note (.cancelled id)).activeTimers := hid
  unfold cancelInLoop
  simp only [assert_of hsize, if_neg hid']
  rw [show (s.note (.cancelled id)).callingExpiredTimers = s.callingExpiredTimers from rfl]
  split_ifs with hc
  · exact assert_of hsize
  · exact assert_of hsize

/-! ### GetExpired -/

theorem eraseActive_eq {e : Entry} (ht : s.heap e.timer = some t)
    (hmem : (⟨e.timer, t.sequence⟩ : TimerId) ∈ s.activeTimers) :
    s.eraseActive e =
      { s with activeTimers := (s.activeTimers.erase ⟨e.timer, t.sequence⟩).1 } := by
  unfold eraseActive
  simp only [deref_eq ht, idOf_eq ht]
  exact assert_of (by simp [hmem])

/-- The loop of `GetExpired` takes the timers of its entries out of `active_timers_`. -/
theorem foldl_eraseActive : ∀ (l : List Entry) (s : TimerQueue),
    (∀ e ∈ l, ∃ t, s.heap e.timer = some t ∧ (⟨e.timer, t.sequence⟩ : TimerId) ∈ s.activeTimers) →
    (l.map Entry.timer).Nodup →
    ∃ A, l.foldl eraseActive s = { s with activeTimers := A } ∧
      (∀ id, id ∈ A ↔ id ∈ s.activeTimers ∧
        ∀ e ∈ l, ∀ t, s.heap e.timer = some t → id ≠ ⟨e.timer, t.sequence⟩) ∧
      A.size + l.length = s.activeTimers.size
  | [], s, _, _ => ⟨s.activeTimers, rfl, by simp, rfl⟩
  | e :: l, s, hl, hnd => by
    obtain ⟨t, ht, hmem⟩ := hl e (by simp)
    obtain ⟨hel, hnd⟩ := List.nodup_cons.mp hnd
    have hne : ∀ e' ∈ l, e'.timer ≠ e.timer := by
      intro e' he' heq
      exact hel (heq ▸ List.mem_map_of_mem he')
    obtain ⟨A, hA, hmemA, hsize⟩ := foldl_eraseActive l
      { s with activeTimers := (s.activeTimers.erase ⟨e.timer, t.sequence⟩).1 }
      (by
        intro e' he'
        obtain ⟨t', ht', hmem'⟩ := hl e' (by simp [he'])
        refine ⟨t', ht', OrderedSet.mem_erase.mpr ⟨?_, hmem'⟩⟩
        intro heq
        exact hne e' he' (congrArg TimerId.timer heq)) hnd
    refine ⟨A, ?_, ?_, ?_⟩
    · rw [List.foldl_cons, eraseActive_eq ht hmem, hA]
    · intro id
      simp only [hmemA, OrderedSet.mem_erase, List.forall_mem_cons, ht, Option.some.injEq,
        forall_eq']
      tauto
    · have := OrderedSet.size_erase hmem
      simp only [List.length_cons] at hsize ⊢
      omega

/-- The entries that `GetExpired` returns. -/
def due (s : TimerQueue) (now : Timestamp) : List Entry := (s.timers.lowerBound ⟨now, uintptrMax⟩).1

section
variable (haddr : ∀ a t, s.heap a = some t → a < uintptrMax) (now : Timestamp)
include haddr

theorem Sets.lt_sentry (h : Sets away s) {e : Entry} (he : e ∈ s.timers) :
    e < ⟨now, uintptrMax⟩ ↔ e.when ≤ now := by
  obtain ⟨t, ht, -, -⟩ := (h.timers e).mp he
  have hlt := haddr _ _ ht
  rw [Entry.lt_iff, le_iff_lt_or_eq]
  simp [hlt]

theorem Sets.mem_due (h : Sets away s) {e : Entry} :
    e ∈ s.due now ↔ e ∈ s.timers ∧ e.when ≤ now := by
  unfold due
  rw [OrderedSet.mem_lowerBound_fst]
  exact and_congr_right (h.lt_sentry haddr now)

theorem Sets.mem_not_due (h : Sets away s) {e : Entry} :
    e ∈ (s.timers.lowerBound ⟨now, uintptrMax⟩).2 ↔ e ∈ s.timers ∧ now < e.when := by
  rw [OrderedSet.mem_lowerBound_snd]
  refine and_congr_right fun he => ?_
  rw [← not_lt, h.lt_sentry haddr now he, not_le]

omit haddr in
theorem Sets.nodup_due (h : Sets away s) : ((s.due now).map Entry.timer).Nodup := by
  have hsub : ∀ e ∈ s.due now, e ∈ s.timers := fun e he => (OrderedSet.mem_lowerBound_fst.mp he).1
  refine List.Nodup.map_on ?_ ((OrderedSet.lowerBound_sorted).imp ne_of_lt)
  intro e he e' he' heq
  obtain ⟨t, ht, -, hw⟩ := (h.timers e).mp (hsub e he)
  obtain ⟨t', ht', -, hw'⟩ := (h.timers e').mp (hsub e' he')
  rw [heq, ht', Option.some.injEq] at ht
  exact Entry.ext (by rw [hw, hw', ht]) heq

/-- `GetExpired` leaves the timers that are not due; those it returns are away from then on. -/
theorem Sets.expire (h : Sets away s) {T : OrderedSet Entry} {A : OrderedSet TimerId}
    (hT : ∀ e, e ∈ T ↔ e ∈ s.timers ∧ now < e.when)
    (hA : ∀ id, id ∈ A ↔ id ∈ s.activeTimers ∧
      ∀ e ∈ s.due now, ∀ t, s.heap e.timer = some t → id ≠ ⟨e.timer, t.sequence⟩)
    (hsize : T.size = A.size) :
    Sets (fun x => away x ∨ x ∈ (s.due now).map Entry.timer)
      { s with timers := T, activeTimers := A } := by
  refine ⟨fun e => ?_, fun id => ?_, hsize⟩
  · show e ∈ T ↔ ∃ t, s.heap e.timer = some t ∧ ¬ _ ∧ e.when = t.expiration
    rw [hT, h.timers]
    constructor
    · rintro ⟨⟨t, ht, hna, hw⟩, hlt⟩
      refine ⟨t, ht, ?_, hw⟩
      rintro (ha | ha)
      · exact hna ha
      · obtain ⟨e', he', heq⟩ := List.mem_map.mp ha
        obtain ⟨hm, hle⟩ := (h.mem_due haddr now).mp he'
        obtain ⟨t', ht', -, hw'⟩ := (h.timers e').mp hm
        rw [heq, ht, Option.some.injEq] at ht'
        rw [hw', ← ht', ← hw] at hle
        exact absurd hlt (not_lt.mpr hle)
    · rintro ⟨t, ht, hna, hw⟩
      rw [not_or] at hna
      refine ⟨⟨t, ht, hna.1, hw⟩, not_le.mp fun hle => hna.2 ?_⟩
      exact List.mem_map_of_mem
        ((h.mem_due haddr now).mpr ⟨(h.timers e).mpr ⟨t, ht, hna.1, hw⟩, hle⟩)
  · show id ∈ A ↔ ∃ t, s.heap id.timer = some t ∧ ¬ _ ∧ id.sequence = t.sequence
    rw [hA, h.active]
    constructor
    · rintro ⟨⟨t, ht, hna, hseq⟩, hne⟩
      refine ⟨t, ht, ?_, hseq⟩
      rintro (ha | ha)
      · exact hna ha
      · obtain ⟨e, he, heq⟩ := List.mem_map.mp ha
        exact hne e he t (by rw [heq]; exact ht) (TimerId.ext heq.symm hseq)
    · rintro ⟨t, ht, hna, hseq⟩
      rw [not_or] at hna
      refine ⟨⟨t, ht, hna.1, hseq⟩, ?_⟩
      intro e he _ _ heq
      exact hna.2 (by rw [heq]; exact List.mem_map_of_mem he)

theorem Sets.getExpired_eq (h : Sets away s) :
    ∃ T A, s.getExpired now = ({ s with timers := T, activeTimers := A }, s.due now) ∧
      Sets (fun x => away x ∨ x ∈ (s.due now).map Entry.timer)
        { s with timers := T, activeTimers := A } ∧
      ∀ e, e ∈ T ↔ e ∈ s.timers ∧ now < e.when := by
  obtain ⟨A, hA, hmemA, hsizeA⟩ := foldl_eraseActive (s.due now)
    { s with timers := (s.timers.lowerBound ⟨now, uintptrMax⟩).2 }
    (by
      intro e he
      obtain ⟨t, ht, hna, -⟩ := (h.timers e).mp ((h.mem_due haddr now).mp he).1
      exact ⟨t, ht, h.mem_active ht hna⟩) (h.nodup_due now)
  have hT : ∀ e, e ∈ (s.timers.lowerBound ⟨now, uintptrMax⟩).2 ↔ e ∈ s.timers ∧ now < e.when :=
    fun e => h.mem_not_due haddr now
  have hsizeT : (s.timers.lowerBound ⟨now, uintptrMax⟩).2.size = A.size := by
    have hsplit : (s.due now).length + _ = _ := OrderedSet.size_lowerBound
    have := h.size
    simp only at hsizeA
    omega
  have hsets := h.expire haddr now hT hmemA hsizeT
  have hsize : s.sizesAgree = true := by simp [sizesAgree, h.size]
  have hend : ((s.timers.lowerBound ⟨now, uintptrMax⟩).2.begin?.all fun e => now < e.when) =
      true := by
    rw [Option.all_eq_true]
    intro e he
    simpa using ((hT e).mp (OrderedSet.begin?_mem he)).2
  refine ⟨_, A, ?_, hsets, hT⟩
  unfold getExpired
  simp only [assert_of hsize, assert_of hend]
  unfold due at hA
  rw [hA]
  exact congrArg (·, _) (assert_of (by simp [sizesAgree, hsizeT]))

end

/-! ### Reset -/

/-- What `Reset` leaves at an address of the batch: the timer with its next expiration if it repeats
and was not cancelled, else nothing. -/
def kept (s : TimerQueue) (now : Timestamp) (a : Address) : Option Timer :=
  (s.heap a).bind fun t =>
    if t.repeat_ && (⟨a, t.sequence⟩ : TimerId) ∉ s.cancelingTimers then some (t.restart now)
    else none

/-- The note of its deletion. -/
def discarded (s : TimerQueue) (now : Timestamp) (e : Entry) : List Event :=
  if (s.kept now e.timer).isNone then [.deleted (s.idOf e.timer)] else []

theorem Sets.resetOne_eq (h : Sets away s) {e : Entry} (ha : away e.timer)
    (ht : s.heap e.timer = some t) (now : Timestamp) :
    ∃ T A, s.resetOne now e = { s with
        heap := Function.update s.heap e.timer (s.kept now e.timer)
        timers := T
        activeTimers := A
        log := s.log ++ s.discarded now e } ∧
      Sets (fun x => away x ∧ x ≠ e.timer) (s.resetOne now e) := by
  have hkept : s.kept now e.timer =
      if t.repeat_ && (⟨e.timer, t.sequence⟩ : TimerId) ∉ s.cancelingTimers then
        some (t.restart now) else none := by
    simp [kept, ht]
  unfold resetOne discarded
  simp only [deref_eq ht, timer_eq ht, idOf_eq ht]
  by_cases hrep : (t.repeat_ && (⟨e.timer, t.sequence⟩ : TimerId) ∉ s.cancelingTimers) = true
  · rw [if_pos hrep] at hkept ⊢
    have hu := h.update_away { s with
      heap := Function.update s.heap e.timer (some (t.restart now)) } ha rfl rfl rfl
    have ht' : { s with heap := Function.update s.heap e.timer (some (t.restart now)) }.heap
        e.timer = some (t.restart now) := by simp
    rw [hu.insert_eq ha ht']
    refine ⟨(s.timers.insert ⟨(t.restart now).expiration, e.timer⟩).1,
      (s.activeTimers.insert ⟨e.timer, t.sequence⟩).1, ?_, hu.inserted ha ht'⟩
    simp [TimerQueue.inserted, hkept]
  · rw [if_neg hrep] at hkept ⊢
    rw [delete_eq ht]
    have hu := h.update_away { s with
      heap := Function.update s.heap e.timer none
      log := s.log ++ [.deleted ⟨e.timer, t.sequence⟩] } ha rfl rfl rfl
    refine ⟨s.timers, s.activeTimers, by simp [hkept], fun e' => ?_, fun id => ?_, hu.size⟩
    · rw [hu.timers]
      by_cases he : e'.timer = e.timer <;> simp [he]
    · rw [hu.active]
      by_cases he : id.timer = e.timer <;> simp [he]

/-- The loop of `Reset` treats the timers of the batch one by one. -/
theorem Sets.foldl_resetOne (now : Timestamp) : ∀ (l : List Entry) {s : TimerQueue}
    {away : Address → Prop}, Sets away s →
    (∀ e ∈ l, away e.timer ∧ ∃ t, s.heap e.timer = some t) → (l.map Entry.timer).Nodup →
    ∃ T A, l.foldl (fun s e => s.resetOne now e) s = { s with
        heap := fun a => if a ∈ l.map Entry.timer then s.kept now a else s.heap a
        timers := T
        activeTimers := A
        log := s.log ++ l.flatMap (s.discarded now) } ∧
      Sets (fun x => away x ∧ x ∉ l.map Entry.timer) (l.foldl (fun s e => s.resetOne now e) s)
  | [], s, away, h, _, _ => by
    refine ⟨s.timers, s.activeTimers, by simp, ?_⟩
    exact h.congr (by simp)
  | e :: l, s, away, h, hl, hnd => by
    obtain ⟨ha, t, ht⟩ := hl e (by simp)
    obtain ⟨hel, hnd⟩ := List.nodup_cons.mp hnd
    obtain ⟨T, A, heq, hsets⟩ := h.resetOne_eq ha ht now
    have hne : ∀ e' ∈ l, e'.timer ≠ e.timer := by
      intro e' he' hte
      exact hel (hte ▸ List.mem_map_of_mem he')
    have hheap : ∀ a, a ≠ e.timer → (s.resetOne now e).heap a = s.heap a := by
      intro a hae
      rw [heq]
      exact Function.update_of_ne hae _ _
    have hcancel : (s.resetOne now e).cancelingTimers = s.cancelingTimers := by rw [heq]
    have hkept : ∀ a, a ≠ e.timer → (s.resetOne now e).kept now a = s.kept now a := by
      intro a hae
      simp only [kept, hheap a hae, hcancel]
    obtain ⟨T', A', heq', hsets'⟩ := hsets.foldl_resetOne now l
      (by
        intro e' he'
        obtain ⟨ha', ht'⟩ := hl e' (by simp [he'])
        exact ⟨⟨ha', hne e' he'⟩, by rw [hheap _ (hne e' he')]; exact ht'⟩) hnd
    refine ⟨T', A', ?_, ?_⟩
    · have hlog : l.flatMap ((s.resetOne now e).discarded now) = l.flatMap (s.discarded now) := by
        refine List.flatMap_congr fun e' he' => ?_
        simp only [discarded, hkept _ (hne e' he'), idOf, timer, hheap _ (hne e' he')]
      have hmem : (fun a => if a ∈ l.map Entry.timer then (s.resetOne now e).kept now a
          else (s.resetOne now e).heap a) =
          fun a => if a ∈ (e :: l).map Entry.timer then s.kept now a else s.heap a := by
        funext a
        by_cases hae : a = e.timer
        · rw [hae, if_neg hel, if_pos (by simp), heq]
          exact Function.update_self _ _ _
        · simp [hkept a hae, hheap a hae, hae]
      rw [List.foldl_cons, heq', hlog, hmem, heq]
      simp [List.append_assoc]
    · rw [List.foldl_cons]
      refine hsets'.congr fun x => ?_
      simp only [List.map_cons, List.mem_cons, not_or]
      tauto

theorem Sets.deref_begin? (h : Sets away s) :
    (s.timers.begin?.elim s fun e => s.deref e.timer) = s := by
  cases hb : s.timers.begin? with
  | none => rfl
  | some e =>
    obtain ⟨t, ht, -, -⟩ := (h.timers e).mp (OrderedSet.begin?_mem hb)
    exact deref_eq ht

theorem Sets.nextExpire_eq (h : Sets away s) :
    s.nextExpire = s.timers.begin?.elim .invalid Entry.when := by
  unfold nextExpire
  cases hb : s.timers.begin? with
  | none => rfl
  | some e =>
    obtain ⟨t, ht, -, hw⟩ := (h.timers e).mp (OrderedSet.begin?_mem hb)
    simp [timer_eq ht, hw]

/-- The timerfd after `Reset`, for the set that its loop leaves. -/
def timerfdAfterReset (s : TimerQueue) (timers : OrderedSet Entry) (delay : ℕ) : Option Arming :=
  let nextExpire := timers.begin?.elim .invalid Entry.when
  if nextExpire.valid then (s.resetTimerfd nextExpire delay).timerfd else s.timerfd

theorem Sets.reset_eq (h : Sets away s) (expired : List Entry) (now : Timestamp) (delay : ℕ)
    (hl : ∀ e ∈ expired, away e.timer ∧ ∃ t, s.heap e.timer = some t)
    (hnd : (expired.map Entry.timer).Nodup) :
    ∃ T A, s.reset expired now delay = { s with
        clock := ⟨s.clock.microsecondsSinceEpoch + delay⟩
        heap := fun a => if a ∈ expired.map Entry.timer then s.kept now a else s.heap a
        timers := T
        activeTimers := A
        log := s.log ++ expired.flatMap (s.discarded now)
        timerfd := s.timerfdAfterReset T delay } ∧
      Sets (fun x => away x ∧ x ∉ expired.map Entry.timer) (s.reset expired now delay) := by
  obtain ⟨T, A, heq, hsets⟩ := h.foldl_resetOne now expired hl hnd
  unfold reset timerfdAfterReset
  simp only [hsets.deref_begin?, hsets.nextExpire_eq]
  have hT : (expired.foldl (fun s e => s.resetOne now e) s).timers = T := by rw [heq]
  rw [hT]
  by_cases hv : (T.begin?.elim Timestamp.invalid Entry.when).valid = true
  · refine ⟨T, A, ?_, ?_⟩
    · rw [if_pos hv, heq, if_pos hv]
      rfl
    · rw [if_pos hv]
      exact hsets.of_eq rfl rfl rfl
  · refine ⟨T, A, ?_, ?_⟩
    · rw [if_neg hv, heq, if_neg hv]
      rfl
    · rw [if_neg hv]
      exact hsets.of_eq rfl rfl rfl

end MuduoCpp11.Net.TimerQueue
