import MuduoCpp11.Net.TimerQueue.Reachable

/-! # Timers: one run of HandleRead

What a whole `HandleRead` does to the timers, whatever its callbacks do. `During` relates a state in
the middle of it to the state at its start and to the events since then: the timers that were not due
and those added since are held unless they were cancelled, the timers of the batch stay as they were,
and the marks among them are the cancels. At the end `Reset` turns the marks into deletions
(`handleRead_result`). -/

namespace MuduoCpp11.Net

open MuduoCpp11.Base MuduoCpp11.Lib

namespace TimerQueue.Event

def started? : Event → Option TimerId
  | .started id => some id
  | _ => none

/-- The call that leaves it: a cancel, or what a timer has been added with. -/
def call? : Event → Option (TimerId ⊕ Address × Timestamp × Interval)
  | .cancelled id => some (.inl id)
  | .added a t => some (.inr (a, t.expiration, t.interval))
  | _ => none

end TimerQueue.Event

/-- A call of a callback to `Cancel` or `AddTimer`. -/
def TimerQueue.Act.call? : TimerQueue.Act → Option (TimerId ⊕ Address × Timestamp × Interval)
  | .cancel id => some (.inl id)
  | .addTimer a when interval _ => some (.inr (a, when, interval))
  | _ => none

namespace Schedule

open TimerQueue (Act Event)

/-- The callbacks that were called, in their order. -/
def startedIn (es : List Event) : List TimerId := es.filterMap Event.started?

def AddedIn (es : List Event) (id : TimerId) (t : Timer) : Prop :=
  .added id.timer t ∈ es ∧ t.sequence = id.sequence

/-- The timer was cancelled, and not before it was added. -/
def CancelledIn (es : List Event) (id : TimerId) : Prop :=
  ∃ pre post, es = pre ++ .cancelled id :: post ∧ ∀ t, ¬ AddedIn post id t

section
variable {es : List Event} {id id' : TimerId} {t u : Timer} {a : Address}

theorem cancelledIn_concat {e : Event} : CancelledIn (es ++ [e]) id ↔
    e = .cancelled id ∨ CancelledIn es id ∧ ∀ t, e = .added id.timer t → t.sequence ≠ id.sequence := by
  constructor
  · rintro ⟨pre, post, heq, hpost⟩
    rcases Run.split_concat heq with ⟨-, he, -⟩ | ⟨mid, rfl, rfl⟩
    · exact Or.inl he.symm
    · right
      refine ⟨⟨pre, mid, rfl, fun t ht => hpost t ⟨?_, ht.2⟩⟩, ?_⟩
      · exact List.mem_append_left _ ht.1
      · rintro t rfl hseq
        exact hpost t ⟨by simp, hseq⟩
  · rintro (rfl | ⟨⟨pre, post, rfl, hpost⟩, he⟩)
    · exact ⟨es, [], rfl, by simp [AddedIn]⟩
    · refine ⟨pre, post ++ [e], by simp, ?_⟩
      rintro t ⟨hm, hseq⟩
      rcases List.mem_append.mp hm with hm | hm
      · exact hpost t ⟨hm, hseq⟩
      · exact he t (List.mem_singleton.mp hm).symm hseq

theorem cancelledIn_concat_other {e : Event} (hc : e ≠ .cancelled id)
    (ha : ∀ t, e = .added id.timer t → t.sequence ≠ id.sequence) :
    CancelledIn (es ++ [e]) id ↔ CancelledIn es id := by
  rw [cancelledIn_concat]
  simp only [hc, false_or, and_iff_left_iff_imp]
  exact fun _ => ha

theorem addedIn_concat_other {e : Event} (ha : e ≠ .added id.timer t) :
    AddedIn (es ++ [e]) id t ↔ AddedIn es id t := by
  simp [AddedIn, ha.symm]

theorem CancelledIn.mem (h : CancelledIn es id) : .cancelled id ∈ es := by
  obtain ⟨pre, post, rfl, -⟩ := h
  simp

end

def idOf (s : Schedule) (a : Address) : TimerId := ⟨a, ((s.heap a).getD {}).sequence⟩

/-- The schedule holds the timer under this id. -/
def Has (s : Schedule) (id : TimerId) (t : Timer) : Prop :=
  s.Holds id.timer t ∧ t.sequence = id.sequence

theorem Has.inj {s : Schedule} {id : TimerId} {t u : Timer} (h : s.Has id t) (h' : s.Has id u) :
    t = u := Option.some.inj (h.1.1.symm.trans h'.1.1)

/-- The state `s` in the batch `expired` that was taken from `s₀`, `es` being the events since. -/
structure During (s₀ : Schedule) (expired rest : List Entry) (es : List Event) (s : Schedule) :
    Prop where
  inv : s.Inv
  batch : s.batch = some ⟨s₀.clock, expired, rest⟩
  log : s.log = s₀.log ++ es
  created : s₀.numCreated ≤ s.numCreated
  has : ∀ id t, s.Has id t ↔
    (s₀.Has id t ∧ s₀.clock < t.expiration ∨ AddedIn es id t) ∧ ¬ CancelledIn es id
  heap : ∀ e ∈ expired, s.heap e.timer = s₀.heap e.timer
  marked : ∀ e ∈ expired, s₀.idOf e.timer ∈ s.marked ↔ .cancelled (s₀.idOf e.timer) ∈ es
  started : startedIn es ++ rest.map (fun e => s₀.idOf e.timer) =
    expired.map fun e => s₀.idOf e.timer
  deleted : ∀ e ∈ expired, .deleted (s₀.idOf e.timer) ∉ es
  fresh : ∀ a t, .added a t ∈ es → s₀.numCreated < t.sequence ∧ t.sequence ≤ s.numCreated

section
variable {s₀ s s' : Schedule} {expired rest : List Entry} {es : List Event} {act : Act}

theorem During.away (h : During s₀ expired rest es s) {e : Entry} (he : e ∈ expired) :
    s.Away e.timer := by
  refine Or.inr (List.mem_map_of_mem ?_)
  simpa [members, h.batch] using he

theorem During.live (h : During s₀ expired rest es s) {e : Entry} (he : e ∈ expired) :
    ∃ t, s.heap e.timer = some t ∧ s₀.heap e.timer = some t ∧
      s₀.idOf e.timer = ⟨e.timer, t.sequence⟩ := by
  obtain ⟨t, ht⟩ := h.inv.live_of_away (h.away he)
  have ht₀ : s₀.heap e.timer = some t := h.heap e he ▸ ht
  exact ⟨t, ht, ht₀, by simp [idOf, ht₀]⟩

/-- The batch begins. -/
theorem during_handleRead (h : s.Inv) {delay : ℕ} (hs : s.Step (.handleRead delay) s') :
    ∃ expired, During s expired expired [] s' ∧ expired.Pairwise (· < ·) ∧
      ∀ e, e ∈ expired ↔ (∃ t, s.Holds e.timer t ∧ e.when = t.expiration) ∧ e.when ≤ s.clock := by
  have hinv := hs.inv h
  cases hs with
  | @handleRead expired _ hb hsorted hmem =>
    have hnone : s.members = [] := by simp [members, hb]
    refine ⟨expired, ⟨hinv, rfl, by simp, le_rfl, ?_, fun _ _ => rfl, by simp, rfl, by simp,
      by simp⟩, hsorted, hmem⟩
    intro id t
    have hc : ¬ CancelledIn [] id := fun hc => by simpa using hc.mem
    simp only [hc, not_false_eq_true, and_true, AddedIn, List.not_mem_nil, false_and, or_false]
    constructor
    · rintro ⟨⟨ht, hna⟩, hseq⟩
      have hna' : ¬ s.Away id.timer := by
        rintro (ha | ha)
        · exact hna (Or.inl ha)
        · simp [hnone] at ha
      refine ⟨⟨⟨ht, hna'⟩, hseq⟩, not_le.mp fun hle => hna (Or.inr ?_)⟩
      exact List.mem_map_of_mem (f := Entry.timer)
        ((hmem ⟨t.expiration, id.timer⟩).mpr ⟨⟨t, ⟨ht, hna'⟩, rfl⟩, hle⟩)
    · rintro ⟨⟨⟨ht, hna⟩, hseq⟩, hlt⟩
      refine ⟨⟨ht, ?_⟩, hseq⟩
      rintro (ha | ha)
      · exact hna (Or.inl ha)
      · obtain ⟨e, he, hte⟩ := List.mem_map.mp ha
        obtain ⟨⟨u, hu, hw⟩, hle⟩ := (hmem e).mp he
        have hut : u = t := by
          have hu' := hu.1
          rw [hte] at hu'
          exact Option.some.inj (hu'.symm.trans ht)
        rw [hw, hut] at hle
        exact absurd hlt (not_lt.mpr hle)

/-- A step that adds the events `es'`: what they tell about the timers of the batch is what it does to
them. -/
theorem During.emit (h : During s₀ expired rest es s) {rest' : List Entry} {es' : List Event}
    (hinv : s'.Inv) (hbatch : s'.batch = some ⟨s₀.clock, expired, rest'⟩)
    (hlog : s'.log = s.log ++ es') (hcreated : s.numCreated ≤ s'.numCreated)
    (hhas : ∀ id t, s'.Has id t ↔
      (s₀.Has id t ∧ s₀.clock < t.expiration ∨ AddedIn (es ++ es') id t) ∧
        ¬ CancelledIn (es ++ es') id)
    (hheap : ∀ e ∈ expired, s'.heap e.timer = s.heap e.timer)
    (hmarked : ∀ e ∈ expired, s₀.idOf e.timer ∈ s'.marked ↔
      s₀.idOf e.timer ∈ s.marked ∨ .cancelled (s₀.idOf e.timer) ∈ es')
    (hstarted : startedIn es' ++ rest'.map (fun e => s₀.idOf e.timer) =
      rest.map fun e => s₀.idOf e.timer)
    (hdeleted : ∀ e ∈ expired, .deleted (s₀.idOf e.timer) ∉ es')
    (hfresh : ∀ a t, .added a t ∈ es' → s.numCreated < t.sequence ∧ t.sequence ≤ s'.numCreated) :
    During s₀ expired rest' (es ++ es') s' where
  inv := hinv
  batch := hbatch
  log := by rw [hlog, h.log, List.append_assoc]
  created := h.created.trans hcreated
  has := hhas
  heap e he := (hheap e he).trans (h.heap e he)
  marked e he := by rw [hmarked e he, h.marked e he, List.mem_append]
  started := by
    rw [startedIn, List.filterMap_append, List.append_assoc]
    exact (congrArg (startedIn es ++ ·) hstarted).trans h.started
  deleted e he := by
    rw [List.mem_append, not_or]
    exact ⟨h.deleted e he, hdeleted e he⟩
  fresh a t ha := by
    rcases List.mem_append.mp ha with ha | ha
    · obtain ⟨hlt, hle⟩ := h.fresh a t ha
      exact ⟨hlt, hle.trans hcreated⟩
    · obtain ⟨hlt, hle⟩ := hfresh a t ha
      exact ⟨h.created.trans_lt hlt, hle⟩

/-- A step that adds no events and keeps what is held. -/
theorem During.silent (h : During s₀ expired rest es s) (hinv : s'.Inv)
    (hbatch : s'.batch = s.batch) (hlog : s'.log = s.log) (hcreated : s.numCreated ≤ s'.numCreated)
    (hhas : ∀ id t, s'.Has id t ↔ s.Has id t) (hheap : ∀ e ∈ expired, s'.heap e.timer = s.heap e.timer)
    (hmarked : s'.marked = s.marked) : During s₀ expired rest es s' := by
  have hnil : es ++ [] = es := List.append_nil es
  rw [← hnil]
  refine h.emit hinv (hbatch.trans h.batch) (hlog.trans (List.append_nil _).symm) hcreated ?_ hheap
    ?_ rfl (by simp) (by simp)
  · intro id t
    rw [hnil, hhas, h.has]
  · intro e _
    simp [hmarked]

theorem During.newTimer (h : During s₀ expired rest es s) {a : Address} {when : Timestamp}
    {interval : Interval} (hs : s.Step (.newTimer a when interval) s') :
    During s₀ expired rest es s' := by
  have hinv := hs.inv h.inv
  cases hs with
  | newTimer _ _ hfree hlt =>
    refine h.silent hinv rfl rfl (Nat.le_succ _) ?_ ?_ rfl
    · intro id t
      by_cases hid : id.timer = a
      · constructor
        · rintro ⟨⟨-, hna⟩, -⟩
          exact absurd (Or.inl (by simp [hid])) hna
        · rintro ⟨⟨ht, -⟩, -⟩
          rw [hid, hfree] at ht
          cases ht
      · have hheap : Function.update s.heap a (some ⟨when, interval, s.numCreated + 1⟩) id.timer =
            s.heap id.timer := Function.update_of_ne hid _ _
        simp only [Has, Holds, Away, members, hheap, Finset.mem_union, Finset.mem_singleton, hid,
          or_false]
    · intro e he
      refine Function.update_of_ne (fun hea => ?_) _ _
      obtain ⟨t, ht, -⟩ := h.live he
      rw [hea, hfree] at ht
      cases ht

/-- An address that is free is not one of the batch. -/
theorem During.ne_of_free (h : During s₀ expired rest es s) {a : Address} (hfree : s.heap a = none)
    {e : Entry} (he : e ∈ expired) : e.timer ≠ a := by
  rintro rfl
  obtain ⟨t, ht, -⟩ := h.live he
  rw [hfree] at ht
  cases ht

theorem addedIn_concat {a : Address} {u t : Timer} {id : TimerId} :
    AddedIn (es ++ [.added a u]) id t ↔ AddedIn es id t ∨ id = ⟨a, u.sequence⟩ ∧ t = u := by
  constructor
  · rintro ⟨hm, hseq⟩
    rcases List.mem_append.mp hm with hm | hm
    · exact Or.inl ⟨hm, hseq⟩
    · simp only [List.mem_singleton, Event.added.injEq] at hm
      exact Or.inr ⟨TimerId.ext hm.1 (by rw [← hseq, hm.2]), hm.2⟩
  · rintro (⟨hm, hseq⟩ | ⟨rfl, rfl⟩)
    · exact ⟨List.mem_append_left _ hm, hseq⟩
    · exact ⟨by simp, rfl⟩

/-- What is held after `AddTimer`: the new timer, whose number nothing older has, and the others. -/
theorem During.has_add (h₀ : s₀.Inv) (h : During s₀ expired rest es s) {a : Address} {u : Timer}
    (hu : u.sequence = s.numCreated + 1) (hfree : s.heap a = none)
    (hheap : s'.heap = Function.update s.heap a (some u)) (haway : ∀ b, s'.Away b ↔ s.Away b)
    (id : TimerId) (t : Timer) :
    s'.Has id t ↔ (s₀.Has id t ∧ s₀.clock < t.expiration ∨ AddedIn (es ++ [.added a u]) id t) ∧
      ¬ CancelledIn (es ++ [.added a u]) id := by
  rw [addedIn_concat]
  by_cases hid : id = ⟨a, u.sequence⟩
  · subst hid
    have hold : ¬ s₀.Has ⟨a, u.sequence⟩ t := by
      rintro ⟨ht, hseq⟩
      have := h₀.seq_le _ _ ht.1
      have := h.created
      simp only at hseq
      omega
    have hadd : ¬ AddedIn es ⟨a, u.sequence⟩ t := by
      rintro ⟨hm, hseq⟩
      have := (h.fresh _ _ hm).2
      simp only at hseq
      omega
    have hcan : ¬ CancelledIn (es ++ [.added a u]) ⟨a, u.sequence⟩ := by
      rw [cancelledIn_concat]
      rintro (hc | ⟨-, hc⟩)
      · cases hc
      · exact hc u rfl rfl
    simp only [hold, hadd, false_and, false_or, true_and, hcan, not_false_eq_true, and_true]
    constructor
    · rintro ⟨⟨ht, -⟩, -⟩
      rw [hheap, Function.update_self, Option.some.injEq] at ht
      exact ht.symm
    · rintro rfl
      refine ⟨⟨by rw [hheap, Function.update_self], ?_⟩, rfl⟩
      rw [haway]
      exact h.inv.not_away hfree
  · have hcan : CancelledIn (es ++ [.added a u]) id ↔ CancelledIn es id := by
      refine cancelledIn_concat_other (by simp) ?_
      rintro v hv hseq
      simp only [Event.added.injEq] at hv
      exact hid (TimerId.ext hv.1.symm (by rw [← hseq, ← hv.2]))
    simp only [hcan, hid, false_and, or_false]
    rw [← h.has]
    by_cases hta : id.timer = a
    · constructor
      · rintro ⟨⟨ht, -⟩, hseq⟩
        rw [hheap, hta, Function.update_self, Option.some.injEq] at ht
        exact absurd (TimerId.ext hta (by rw [← hseq, ← ht])) hid
      · rintro ⟨⟨ht, -⟩, -⟩
        rw [hta, hfree] at ht
        cases ht
    · simp only [Has, Holds, haway, hheap, Function.update_of_ne hta]

theorem During.addTimer (h₀ : s₀.Inv) (h : During s₀ expired rest es s) {a : Address}
    {when : Timestamp} {interval : Interval} {delay : ℕ}
    (hs : s.Step (.addTimer a when interval delay) s') :
    ∃ es', During s₀ expired rest (es ++ es') s' := by
  have hinv := hs.inv h.inv
  cases hs with
  | addTimer _ _ _ hfree hlt =>
    refine ⟨[.added a ⟨when, interval, s.numCreated + 1⟩], h.emit hinv h.batch rfl (Nat.le_succ _)
      (h.has_add h₀ rfl hfree rfl fun _ => Iff.rfl) ?_ (by simp) rfl (by simp) ?_⟩
    · intro e he
      exact Function.update_of_ne (h.ne_of_free hfree he) _ _
    · intro b t hm
      simp only [List.mem_singleton, Event.added.injEq] at hm
      obtain ⟨-, rfl⟩ := hm
      exact ⟨Nat.lt_succ_self _, le_rfl⟩

/-- A cancel of any id: the timer it names is not held afterwards, the others are as before. -/
theorem During.has_cancel (h : During s₀ expired rest es s) (id' : TimerId) (s' : Schedule)
    (hself : ∀ t, ¬ s'.Has id' t) (hother : ∀ id, id ≠ id' → ∀ t, s'.Has id t ↔ s.Has id t)
    (id : TimerId) (t : Timer) :
    s'.Has id t ↔ (s₀.Has id t ∧ s₀.clock < t.expiration ∨ AddedIn (es ++ [.cancelled id']) id t) ∧
      ¬ CancelledIn (es ++ [.cancelled id']) id := by
  rw [addedIn_concat_other (by simp)]
  by_cases hid : id = id'
  · subst hid
    have hc : CancelledIn (es ++ [.cancelled id]) id := cancelledIn_concat.mpr (Or.inl rfl)
    simp only [hself, hc, not_true_eq_false, and_false]
  · rw [hother id hid, h.has, cancelledIn_concat_other _ (by simp)]
    simp only [ne_eq, Event.cancelled.injEq]
    exact fun heq => hid heq.symm

theorem During.cancel (h : During s₀ expired rest es s) {id' : TimerId}
    (hs : s.Step (.cancel id') s') : ∃ es', During s₀ expired rest (es ++ es') s' := by
  have hinv := hs.inv h.inv
  cases hs with
  | @cancelHeld _ u hh hseq =>
    have hne : ∀ e ∈ expired, e.timer ≠ id'.timer := by
      intro e he heq
      exact hh.2 (heq ▸ h.away he)
    have hhas := h.has_cancel id' { s with
        heap := Function.update s.heap id'.timer none
        log := s.log ++ [.cancelled id', .deleted id'] }
      (by
        rintro t ⟨⟨ht, -⟩, -⟩
        simp at ht)
      (by
        intro id hid t
        by_cases hta : id.timer = id'.timer
        · constructor
          · rintro ⟨⟨ht, -⟩, -⟩
            simp [hta] at ht
          · rintro ⟨⟨ht, -⟩, hts⟩
            rw [hta, hh.1, Option.some.injEq] at ht
            exact absurd (TimerId.ext hta (by rw [← hts, ← ht, hseq])) hid
        · simp only [Has, Holds, Away, members, Function.update_of_ne hta])
    have hne' : ∀ e ∈ expired, s₀.idOf e.timer ≠ id' :=
      fun e he heq => hne e he (congrArg TimerId.timer heq)
    refine ⟨[.cancelled id', .deleted id'], h.emit hinv h.batch rfl le_rfl ?_ ?_ ?_ rfl ?_ (by simp)⟩
    · intro id t
      have hsplit : es ++ [Event.cancelled id', .deleted id'] =
          (es ++ [.cancelled id']) ++ [.deleted id'] := by simp
      have hcan : CancelledIn (es ++ [.cancelled id', .deleted id']) id ↔
          CancelledIn (es ++ [.cancelled id']) id :=
        hsplit ▸ cancelledIn_concat_other (by simp) (by simp)
      have hadd : AddedIn (es ++ [.cancelled id', .deleted id']) id t ↔
          AddedIn (es ++ [.cancelled id']) id t := hsplit ▸ addedIn_concat_other (by simp)
      rw [hhas, hcan, hadd]
    · intro e he
      exact Function.update_of_ne (hne e he) _ _
    · intro e he
      simp [hne' e he]
    · intro e he
      simp [hne' e he]
  | cancelOther hh =>
    have hhas := h.has_cancel id' { s with
        marked := {x | x ∈ s.marked ∨ s.batch ≠ none ∧ x = id'}
        log := s.log ++ [.cancelled id'] }
      (by
        rintro t ⟨ht, hts⟩
        exact hh t ht hts)
      (fun id _ t => Iff.rfl)
    refine ⟨[.cancelled id'], h.emit hinv h.batch rfl le_rfl hhas (fun _ _ => rfl) ?_ rfl (by simp)
      (by simp)⟩
    intro e he
    have hb : s.batch ≠ none := by simp [h.batch]
    simp only [Set.mem_ofPred_eq, hb, ne_eq, not_false_eq_true, true_and, List.mem_singleton,
      Event.cancelled.injEq]

theorem During.runTimer (h : During s₀ expired rest es s) (hs : s.Step .runTimer s') :
    ∃ rest' es', During s₀ expired rest' (es ++ es') s' := by
  have hinv := hs.inv h.inv
  cases hs with
  | @runTimer now expired' rest' e t hb ht =>
    have hb' := hb.symm.trans h.batch
    simp only [Option.some.injEq, Batch.mk.injEq] at hb'
    obtain ⟨rfl, rfl, rfl⟩ := hb'
    have he : e ∈ expired' := (h.inv.suffix _ hb).mem List.mem_cons_self
    obtain ⟨u, hu, -, hid⟩ := h.live he
    obtain rfl : t = u := Option.some.inj (ht.symm.trans hu)
    refine ⟨rest', [.started ⟨e.timer, t.sequence⟩], h.emit hinv rfl rfl le_rfl ?_ (fun _ _ => rfl)
      (by simp) ?_ (by simp) (by simp)⟩
    · intro id u
      rw [addedIn_concat_other (by simp), cancelledIn_concat_other (by simp) (by simp), ← h.has]
      simp only [Has, Holds, Away, members, hb, Option.elim_some]
    · rw [List.map_cons, hid]
      rfl

/-- Every step but the last one goes on with the batch. -/
theorem During.step (h₀ : s₀.Inv) (h : During s₀ expired rest es s) (hs : s.Step act s')
    (hact : ∀ delay, act ≠ .reset delay) : ∃ rest' es', During s₀ expired rest' (es ++ es') s' := by
  have hbatch := h.batch
  have hinv := hs.inv h.inv
  cases act with
  | tick d =>
    cases hs
    exact ⟨rest, [], by
      simpa using h.silent hinv rfl rfl le_rfl (fun _ _ => Iff.rfl) (fun _ _ => rfl) rfl⟩
  | newElsewhere =>
    cases hs
    exact ⟨rest, [], by
      simpa using h.silent hinv rfl rfl (Nat.le_succ _) (fun _ _ => Iff.rfl) (fun _ _ => rfl) rfl⟩
  | newTimer a when interval => exact ⟨rest, [], by simpa using h.newTimer hs⟩
  | addTimerInLoop a delay =>
    cases hs with
    | addTimerInLoop _ hw hb ht => simp [hb] at hbatch
  | addTimer a when interval delay => exact ⟨rest, h.addTimer h₀ hs⟩
  | cancel id => exact ⟨rest, h.cancel hs⟩
  | handleRead delay =>
    cases hs with
    | handleRead _ hb hsorted hmem => simp [hb] at hbatch
  | runTimer => exact h.runTimer hs
  | reset delay => exact absurd rfl (hact delay)

/-! ### The end of the batch -/

theorem cancelledIn_append_deleted {id : TimerId} (l : List TimerId) :
    CancelledIn (es ++ l.map Event.deleted) id ↔ CancelledIn es id := by
  induction l using List.reverseRecOn with
  | nil => simp
  | append_singleton l x ih =>
    rw [List.map_append, List.map_singleton, ← List.append_assoc,
      cancelledIn_concat_other (by simp) (by simp), ih]

theorem startedIn_append_deleted (l : List TimerId) :
    startedIn (es ++ l.map Event.deleted) = startedIn es := by
  have hnil : (l.map Event.deleted).filterMap Event.started? = [] := by
    rw [List.filterMap_eq_nil_iff]
    intro e he
    obtain ⟨x, -, rfl⟩ := List.mem_map.mp he
    rfl
  rw [startedIn, startedIn, List.filterMap_append, hnil, List.append_nil]

/-- The result of the batch: what was held, what was added and what repeats. -/
def Result (s₀ : Schedule) (es : List Event) (id : TimerId) (t : Timer) : Prop :=
  (s₀.Has id t ∧ s₀.clock < t.expiration ∨ AddedIn es id t) ∧ ¬ CancelledIn es id ∨
    ∃ t₀, s₀.Has id t₀ ∧ t₀.expiration ≤ s₀.clock ∧ t₀.repeat_ ∧ .cancelled id ∉ es ∧
      t = { t₀ with expiration := addTime s₀.clock t₀.interval }

theorem restart_of_repeat {t : Timer} (h : t.repeat_ = true) (now : Timestamp) :
    t.restart now = { t with expiration := addTime now t.interval } := by
  simp [Timer.restart, h]

/-- What `Reset` does, the batch being known. -/
theorem Step.reset_cases {delay : ℕ} (hs : s.Step (.reset delay) s') {now : Timestamp}
    (hbatch : s.batch = some ⟨now, expired, rest⟩) :
    ∃ deleted : List TimerId, rest = [] ∧ s'.waiting = s.waiting ∧ s'.batch = none ∧
      s'.log = s.log ++ deleted.map .deleted ∧
      (∀ a, a ∉ expired.map Entry.timer → s'.heap a = s.heap a) ∧
      (∀ a ∈ expired.map Entry.timer, ∀ u, s'.heap a = some u ↔
        ∃ t, s.heap a = some t ∧ t.repeat_ ∧ (⟨a, t.sequence⟩ : TimerId) ∉ s.marked ∧
          u = t.restart now) ∧
      deleted.Nodup ∧
      ∀ id, id ∈ deleted ↔ id.timer ∈ expired.map Entry.timer ∧ s'.heap id.timer = none ∧
        ∃ t, s.heap id.timer = some t ∧ t.sequence = id.sequence := by
  cases hs with
  | @reset now' expired' heap deleted _ hb hother hkept hnodup hdeleted =>
    rw [hb, Option.some.injEq, Batch.mk.injEq] at hbatch
    obtain ⟨rfl, rfl, rfl⟩ := hbatch
    exact ⟨deleted, rfl, rfl, rfl, rfl, hother, hkept, hnodup, hdeleted⟩

section reset

variable (h : During s₀ expired rest es s) (hwaiting : s'.waiting = s.waiting) (hb : s'.batch = none)
include h hwaiting hb

theorem During.not_away_reset {a : Address} (ha : a ∈ expired.map Entry.timer) : ¬ s'.Away a := by
  have hmembers : s.members = expired := by simp [members, h.batch]
  rintro (hw | hm)
  · exact h.inv.disjoint a (hmembers ▸ ha) (hwaiting ▸ hw)
  · simp [members, hb] at hm

/-- Outside of the batch everything stays as it is. -/
theorem During.has_reset_other {id : TimerId} (t : Timer) (hid : id.timer ∉ expired.map Entry.timer)
    (hheap : s'.heap id.timer = s.heap id.timer) : s'.Has id t ↔ s.Has id t := by
  have hmembers : s.members = expired := by simp [members, h.batch]
  have hmembers' : s'.members = [] := by simp [members, hb]
  simp [Has, Holds, Away, hmembers, hmembers', hheap, hwaiting, hid]

variable (hkept : ∀ a ∈ expired.map Entry.timer, ∀ u, s'.heap a = some u ↔
  ∃ t, s.heap a = some t ∧ t.repeat_ ∧ (⟨a, t.sequence⟩ : TimerId) ∉ s.marked ∧
    u = t.restart s₀.clock)
include hkept

/-- Of the batch those that repeat and were not cancelled are back. -/
theorem During.has_reset_member {e : Entry} (he : e ∈ expired) {v : Timer}
    (hv : s₀.Holds e.timer v) (hle : v.expiration ≤ s₀.clock) {id : TimerId} (hte : e.timer = id.timer)
    (t : Timer) : s'.Has id t ↔ ∃ t₀, s₀.Has id t₀ ∧ t₀.expiration ≤ s₀.clock ∧ t₀.repeat_ ∧
      .cancelled id ∉ es ∧ t = { t₀ with expiration := addTime s₀.clock t₀.interval } := by
  have hid : id.timer ∈ expired.map Entry.timer := hte ▸ List.mem_map_of_mem he
  obtain ⟨u, hu, hu₀, hidu⟩ := h.live he
  obtain rfl : v = u := Option.some.inj (hv.1.symm.trans hu₀)
  have hmark := h.marked e he
  rw [hidu, hte] at hmark
  constructor
  · rintro ⟨⟨ht, -⟩, hseq⟩
    obtain ⟨t₀, ht₀, hrep, hnm, rfl⟩ := (hkept _ hid t).mp ht
    obtain rfl : v = t₀ := Option.some.inj (hu.symm.trans (hte ▸ ht₀))
    rw [hmark, show (⟨id.timer, v.sequence⟩ : TimerId) = id from TimerId.ext rfl hseq] at hnm
    exact ⟨v, ⟨hte ▸ hv, hseq⟩, hle, hrep, hnm, restart_of_repeat hrep _⟩
  · rintro ⟨t₀, hhas, -, hrep, hnc, rfl⟩
    obtain rfl : v = t₀ := Option.some.inj (hv.1.symm.trans (hte ▸ hhas.1.1))
    have hid' : (⟨id.timer, v.sequence⟩ : TimerId) = id := TimerId.ext rfl hhas.2
    refine ⟨⟨(hkept _ hid _).mpr ⟨v, hte ▸ hu, hrep, ?_, (restart_of_repeat hrep _).symm⟩, ?_⟩,
      hhas.2⟩
    · rw [hmark, hid']
      exact hnc
    · exact h.not_away_reset hwaiting hb hid

/-- A timer of the batch is back, or it is deleted once. -/
theorem During.count_reset {deleted : List TimerId} (hnodup : deleted.Nodup)
    (hdeleted : ∀ id, id ∈ deleted ↔ id.timer ∈ expired.map Entry.timer ∧ s'.heap id.timer = none ∧
      ∃ t, s.heap id.timer = some t ∧ t.sequence = id.sequence) {e : Entry} (he : e ∈ expired) :
    (∃ t, s'.Has (s₀.idOf e.timer) t) ∧
        (es ++ deleted.map Event.deleted).count (.deleted (s₀.idOf e.timer)) = 0 ∨
      (∀ t, ¬ s'.Has (s₀.idOf e.timer) t) ∧
        (es ++ deleted.map Event.deleted).count (.deleted (s₀.idOf e.timer)) = 1 := by
  have hin : e.timer ∈ expired.map Entry.timer := List.mem_map_of_mem he
  obtain ⟨u, hu, -, hid⟩ := h.live he
  have hmem : (⟨e.timer, u.sequence⟩ : TimerId) ∈ deleted ↔ s'.heap e.timer = none := by
    rw [hdeleted]
    constructor
    · exact fun hd => hd.2.1
    · exact fun hn => ⟨hin, hn, u, hu, rfl⟩
  have hcount : (es ++ deleted.map Event.deleted).count (.deleted (s₀.idOf e.timer)) =
      deleted.count (s₀.idOf e.timer) := by
    rw [List.count_append, List.count_eq_zero_of_not_mem (h.deleted e he), Nat.zero_add,
      List.count_map_of_injective _ _ (fun _ _ heq => by simpa using heq)]
  rw [hcount, hnodup.count, hid]
  cases hk : s'.heap e.timer with
  | none =>
    refine Or.inr ⟨?_, if_pos (hmem.mpr hk)⟩
    rintro t ⟨⟨ht, -⟩, -⟩
    exact absurd (hk.symm.trans ht) (by simp)
  | some v =>
    obtain ⟨t₀, ht₀, -, -, rfl⟩ := (hkept _ hin v).mp hk
    obtain rfl : u = t₀ := Option.some.inj (hu.symm.trans ht₀)
    exact Or.inl ⟨⟨_, ⟨hk, h.not_away_reset hwaiting hb hin⟩, rfl⟩,
      if_neg fun hd => by simp [hmem.mp hd] at hk⟩

end reset

/-- **In a batch the history notes every call to `Cancel` and `AddTimer`**, when it is made. -/
theorem Step.calls (hs : s.Step act s') (hb : s.batch ≠ none) :
    ∃ es, s'.log = s.log ++ es ∧ es.filterMap Event.call? = act.call?.toList := by
  cases hs with
  | tick | newElsewhere | newTimer | handleRead => exact ⟨[], (List.append_nil _).symm, rfl⟩
  | addTimerInLoop _ _ hnone _ => exact absurd hnone hb
  | addTimer | cancelHeld | cancelOther | runTimer => exact ⟨_, rfl, rfl⟩
  | @reset _ _ _ deleted =>
    refine ⟨deleted.map .deleted, rfl, List.filterMap_eq_nil_iff.mpr fun e he => ?_⟩
    obtain ⟨id, -, rfl⟩ := List.mem_map.mp he
    rfl

theorem During.reset (h : During s₀ expired rest es s) {delay : ℕ} (hs : s.Step (.reset delay) s')
    (hdue : ∀ e, e ∈ expired ↔ (∃ t, s₀.Holds e.timer t ∧ e.when = t.expiration) ∧
      e.when ≤ s₀.clock) :
    ∃ es', s'.log = s₀.log ++ es' ∧ (∀ id t, s'.Has id t ↔ Result s₀ es' id t) ∧
      startedIn es' = (expired.map fun e => s₀.idOf e.timer) ∧
      ∀ e ∈ expired,
        (∃ t, s'.Has (s₀.idOf e.timer) t) ∧ es'.count (.deleted (s₀.idOf e.timer)) = 0 ∨
        (∀ t, ¬ s'.Has (s₀.idOf e.timer) t) ∧ es'.count (.deleted (s₀.idOf e.timer)) = 1 := by
  obtain ⟨deleted, rfl, hwaiting, hb, hlog, hother, hkept, hnodup, hdeleted⟩ := hs.reset_cases h.batch
  refine ⟨es ++ deleted.map .deleted, ?_, ?_, ?_, ?_⟩
  · rw [hlog, h.log, List.append_assoc]
  · intro id t
    have hadd : AddedIn (es ++ deleted.map .deleted) id t ↔ AddedIn es id t := by simp [AddedIn]
    have hcan : Event.cancelled id ∉ es ++ deleted.map .deleted ↔ .cancelled id ∉ es := by simp
    unfold Result
    rw [hadd, cancelledIn_append_deleted, hcan, ← h.has]
    by_cases hid : id.timer ∈ expired.map Entry.timer
    · obtain ⟨e, he, hte⟩ := List.mem_map.mp hid
      obtain ⟨⟨v, hv, hw⟩, hle⟩ := (hdue e).mp he
      have hnot : ¬ s.Has id t := fun hh => hh.1.2 (hte ▸ h.away he)
      simp only [hnot, false_or]
      exact h.has_reset_member hwaiting hb hkept he hv (hw ▸ hle) hte t
    · have hsecond : ¬ ∃ t₀, s₀.Has id t₀ ∧ t₀.expiration ≤ s₀.clock ∧ t₀.repeat_ ∧
          .cancelled id ∉ es ∧ t = { t₀ with expiration := addTime s₀.clock t₀.interval } := by
        rintro ⟨t₀, hhas, hle, -⟩
        exact hid (List.mem_map_of_mem (f := Entry.timer)
          ((hdue ⟨t₀.expiration, id.timer⟩).mpr ⟨⟨t₀, hhas.1, rfl⟩, hle⟩))
      rw [or_iff_left hsecond]
      exact h.has_reset_other hwaiting hb t hid (hother _ hid)
  · rw [startedIn_append_deleted, ← h.started]
    simp
  · intro e he
    exact h.count_reset hwaiting hb hkept hnodup hdeleted he

end

end Schedule

namespace TimerQueue

open Schedule (startedIn AddedIn CancelledIn During)

variable {s s' : TimerQueue} {id : TimerId} {t : Timer}

/-- The timer is in the queue under this id. -/
def Has (s : TimerQueue) (id : TimerId) (t : Timer) : Prop :=
  id ∈ s.activeTimers ∧ s.heap id.timer = some t

theorem Inv.has_iff (h : s.Inv) : s.Has id t ↔ s.schedule.Has id t := by
  constructor
  · rintro ⟨hid, ht⟩
    obtain ⟨u, hu, hseq⟩ := h.holds_iff.mp hid
    obtain rfl : u = t := Option.some.inj (hu.1.symm.trans ht)
    exact ⟨hu, hseq⟩
  · rintro ⟨ht, hseq⟩
    exact ⟨h.holds_iff.mpr ⟨t, ht, hseq⟩, ht.1⟩

/-- A run in the middle of a batch, whose calls the history notes. -/
theorem run_during {s₀ : Schedule} (h₀ : s₀.Inv) {expired : List Entry} {mid : List Act}
    (hmid : ∀ d, .reset d ∉ mid) {s s' : TimerQueue} (h : s.Inv) {rest : List Entry}
    {es : List Event} (hd : During s₀ expired rest es s.schedule) (hr : run s mid = some s') :
    s'.Inv ∧ ∃ rest' es', During s₀ expired rest' (es ++ es') s'.schedule ∧
      es'.filterMap Event.call? = mid.filterMap Act.call? := by
  induction mid generalizing s rest es with
  | nil =>
    obtain rfl : s = s' := by simpa [run] using hr
    exact ⟨h, rest, [], by simpa using hd, rfl⟩
  | cons act mid ih =>
    have hact (d : ℕ) : act ≠ .reset d := fun heq => hmid d (heq ▸ List.mem_cons_self)
    have hmid' (d : ℕ) : .reset d ∉ mid := fun hm => hmid d (List.mem_cons_of_mem _ hm)
    obtain ⟨m, hs, hr⟩ := Option.bind_eq_some_iff.mp hr
    obtain ⟨hm, hstep⟩ := step_refines h hs
    obtain ⟨rest₁, es₁, hd₁⟩ := hd.step h₀ hstep hact
    obtain ⟨hinv, rest₂, es₂, hd₂, hcalls₂⟩ := ih hmid' hm hd₁ hr
    have hcalls₁ : es₁.filterMap Event.call? = act.call?.toList := by
      obtain ⟨es', hlog, hcalls⟩ := hstep.calls (by simp [hd.batch])
      rw [hd₁.log, hd.log, ← List.append_assoc, List.append_cancel_left_eq] at hlog
      exact hlog ▸ hcalls
    refine ⟨hinv, rest₂, es₁ ++ es₂, by rwa [List.append_assoc] at hd₂, ?_⟩
    rw [List.filterMap_append, hcalls₁, hcalls₂, List.filterMap_cons]
    cases act.call? <;> rfl

/-- **What the history notes of one HandleRead** are the calls of its callbacks to `Cancel` and `AddTimer`,
in their order. -/
theorem handleRead_calls {clock : Timestamp} {n delay delay' : ℕ} {before mid : List Act}
    (hr : run (new clock n) before = some s)
    (hh : run s (.handleRead delay :: mid ++ [.reset delay']) = some s')
    (hmid : ∀ d, .reset d ∉ mid) :
    ∃ es, s'.log = s.log ++ es ∧ es.filterMap Event.call? = mid.filterMap Act.call? := by
  have h := inv_of_run hr
  obtain ⟨m₁, hs₁, hr⟩ := Option.bind_eq_some_iff.mp hh
  obtain ⟨m₂, hr₂, hs₂⟩ := Run.run_concat.mp hr
  obtain ⟨h₁, hstep₁⟩ := step_refines h hs₁
  obtain ⟨expired, hd, -, -⟩ := Schedule.during_handleRead h.schedule hstep₁
  obtain ⟨h₂, rest, es, hd₂, hcalls⟩ := run_during h.schedule hmid h₁ hd hr₂
  obtain ⟨-, hstep₂⟩ := step_refines h₂ hs₂
  obtain ⟨deleted, hlog, hnone⟩ := hstep₂.calls (by simp [hd₂.batch])
  rw [hd₂.log, List.nil_append, List.append_assoc] at hlog
  refine ⟨es ++ deleted, hlog, ?_⟩
  rw [List.filterMap_append, hnone, hcalls]
  exact List.append_nil _

/-- **One HandleRead neither loses nor duplicates a timer**, whatever its callbacks add and
cancel. -/
theorem handleRead_result {clock : Timestamp} {n delay delay' : ℕ} {before mid : List Act}
    (hr : run (new clock n) before = some s)
    (hh : run s (.handleRead delay :: mid ++ [.reset delay']) = some s')
    (hmid : ∀ d, .reset d ∉ mid) :
    ∃ es, s'.log = s.log ++ es ∧
      (∀ id t, s'.Has id t ↔
        (s.Has id t ∧ s.clock < t.expiration ∨ AddedIn es id t) ∧ ¬ CancelledIn es id ∨
        ∃ t₀, s.Has id t₀ ∧ t₀.expiration ≤ s.clock ∧ t₀.repeat_ ∧ .cancelled id ∉ es ∧
          t = { t₀ with expiration := addTime s.clock t₀.interval }) ∧
      (∀ id, id ∈ startedIn es ↔ ∃ t, s.Has id t ∧ t.expiration ≤ s.clock) ∧
      (startedIn es).Nodup ∧
      (startedIn es).Pairwise (fun id id' =>
        (s.timer id.timer).expiration ≤ (s.timer id'.timer).expiration) ∧
      ∀ id ∈ startedIn es, (∃ t, s'.Has id t) ∧ es.count (.deleted id) = 0 ∨
        (∀ t, ¬ s'.Has id t) ∧ es.count (.deleted id) = 1 := by
  have h := inv_of_run hr
  obtain ⟨m₁, hs₁, hr⟩ := Option.bind_eq_some_iff.mp hh
  obtain ⟨m₂, hr₂, hs₂⟩ := Run.run_concat.mp hr
  obtain ⟨h₁, hstep₁⟩ := step_refines h hs₁
  obtain ⟨expired, hd, hsorted, hdue⟩ := Schedule.during_handleRead h.schedule hstep₁
  obtain ⟨h₂, rest, es₂, hd₂, -⟩ := run_during h.schedule hmid h₁ hd hr₂
  obtain ⟨h', hstep₂⟩ := step_refines h₂ hs₂
  obtain ⟨es, hlog, hhas, hstarted, hcount⟩ := hd₂.reset hstep₂ hdue
  -- a member of the batch and the timer behind it
  have hmem : ∀ e ∈ expired, ∃ t, s.schedule.Holds e.timer t ∧ e.when = t.expiration ∧
      e.when ≤ s.clock ∧ s.schedule.idOf e.timer = ⟨e.timer, t.sequence⟩ := by
    intro e he
    obtain ⟨⟨t, ht, hw⟩, hle⟩ := (hdue e).mp he
    exact ⟨t, ht, hw, hle, by simp [Schedule.idOf, ht.1]⟩
  refine ⟨es, hlog, ?_, ?_, ?_, ?_, ?_⟩
  · intro id t
    simp only [h'.has_iff, h.has_iff]
    exact hhas id t
  · intro id
    rw [hstarted, List.mem_map]
    constructor
    · rintro ⟨e, he, rfl⟩
      obtain ⟨t, ht, hw, hle, hid⟩ := hmem e he
      exact ⟨t, h.has_iff.mpr ⟨ht, by rw [hid]⟩, hw ▸ hle⟩
    · rintro ⟨t, ht, hle⟩
      have ht' := h.has_iff.mp ht
      refine ⟨⟨t.expiration, id.timer⟩, (hdue _).mpr ⟨⟨t, ht'.1, rfl⟩, hle⟩, ?_⟩
      exact TimerId.ext rfl (by simp [Schedule.idOf, ht'.1.1, ht'.2])
  · rw [hstarted]
    refine List.Nodup.map_on ?_ (hsorted.imp ne_of_lt)
    intro e he e' he' heq
    obtain ⟨t, ht, hw, -, -⟩ := hmem e he
    obtain ⟨t', ht', hw', -, -⟩ := hmem e' he'
    have hte : e.timer = e'.timer := congrArg TimerId.timer heq
    obtain rfl : t = t' := Option.some.inj (ht.1.symm.trans (hte ▸ ht'.1))
    exact Entry.ext (by rw [hw, hw']) hte
  · rw [hstarted, List.pairwise_map]
    refine hsorted.imp_of_mem fun he he' hlt => ?_
    obtain ⟨t, ht, hw, -, -⟩ := hmem _ he
    obtain ⟨t', ht', hw', -, -⟩ := hmem _ he'
    have hle := Entry.when_le hlt.le
    rw [hw, hw', ← timer_eq ht.1, ← timer_eq ht'.1] at hle
    exact hle
  · intro id hid
    rw [hstarted, List.mem_map] at hid
    obtain ⟨e, he, rfl⟩ := hid
    simp only [h'.has_iff]
    exact hcount e he

/-- A repeating timer and one that does not repeat are due; the first callback adds a timer and
cancels its own. -/
theorem handleRead_result_of_two : ∃ s s',
    run (new ⟨1⟩ 0) [.addTimer 1 ⟨10⟩ (.ofMicros 5), .addTimer 2 ⟨20⟩ .zero, .tick 100] =
      some s ∧
    run s [.handleRead 0, .runTimer, .addTimer 3 ⟨30⟩ .zero, .cancel ⟨1, 1⟩, .runTimer, .reset] =
      some s' ∧
    ∃ es, s'.log = s.log ++ es ∧ (startedIn es).Nodup ∧
      ∀ id ∈ startedIn es, (∃ t, s'.Has id t) ∧ es.count (.deleted id) = 0 ∨
        (∀ t, ¬ s'.Has id t) ∧ es.count (.deleted id) = 1 := by
  have hrun : ((run (new ⟨1⟩ 0) [.addTimer 1 ⟨10⟩ (.ofMicros 5), .addTimer 2 ⟨20⟩ .zero,
      .tick 100]).map fun s => (run s [.handleRead 0, .runTimer, .addTimer 3 ⟨30⟩ .zero,
        .cancel ⟨1, 1⟩, .runTimer, .reset]).isSome) = some true := by
    decide +kernel
  obtain ⟨s, hr, hs⟩ := Option.map_eq_some_iff.mp hrun
  obtain ⟨s', hr'⟩ := Option.isSome_iff_exists.mp hs
  have hh : run s (.handleRead 0 :: [.runTimer, .addTimer 3 ⟨30⟩ .zero, .cancel ⟨1, 1⟩,
      .runTimer] ++ [.reset]) = some s' := hr'
  obtain ⟨es, hlog, -, -, hnodup, -, hcount⟩ := handleRead_result hr hh (by simp)
  exact ⟨s, s', hr, hr', es, hlog, hnodup, hcount⟩

end TimerQueue

end MuduoCpp11.Net
