import MuduoCpp11.Lib.History
import MuduoCpp11.Net.TimerQueue.Batch

/-! # Timers: how often they fire

`firings` is the history of a run: the timers whose callbacks are called, each with the `now` of its
`HandleRead`. A timer never fires before its expiration; one that does not repeat fires at most once;
and between two firings of a repeating timer at least its interval goes by, because `Reset` arms it
again from `now`. So however late the loop runs and whatever the callbacks do, a timer fires no more
often than its interval allows (`timer_fires_on_time`).

The proof follows one timer from its constructor to its deletion (`Fired`): as long as it is to fire,
its expiration is an interval behind its last firing. -/

namespace MuduoCpp11.Net

open MuduoCpp11.Base MuduoCpp11.Lib MuduoCpp11.Lib.History

namespace TimerQueue

/-- The callback a step calls, with the time of its `HandleRead`. -/
def startedBy (s : TimerQueue) : Act → List (TimerId × Timestamp)
  | .runTimer =>
    match s.batch with
    | some ⟨now, _, e :: _⟩ => [(s.idOf e.timer, now)]
    | _ => []
  | _ => []

def firings : TimerQueue → List Act → List (TimerId × Timestamp) := observed step startedBy

theorem firings_concat {acts : List Act} {act : Act} {s m : TimerQueue} (h : run s acts = some m) :
    firings s (acts ++ [act]) = firings s acts ++ m.startedBy act := observed_concat h

end TimerQueue

namespace Schedule

open TimerQueue (Act Event)

/-- The times at which a timer may fire that was added as `t`. -/
structure OnTime (t : Timer) (times : List Timestamp) : Prop where
  first : ∀ τ ∈ times, t.expiration ≤ τ
  once : t.repeat_ = false → times.length ≤ 1
  apart : times.Pairwise fun τ τ' => addTime τ t.interval ≤ τ'

theorem OnTime.nil (t : Timer) : OnTime t [] := ⟨by simp, by simp, .nil⟩

/-- A timer fires once more, an interval behind each firing so far. -/
theorem OnTime.concat {t : Timer} {times : List Timestamp} {now : Timestamp} (h : OnTime t times)
    (hfirst : t.expiration ≤ now)
    (hold : ∀ τ ∈ times, t.repeat_ = true ∧ addTime τ t.interval ≤ now) :
    OnTime t (times ++ [now]) where
  first τ hτ := by
    rcases List.mem_append.mp hτ with hτ | hτ
    · exact h.first τ hτ
    · rw [List.mem_singleton.mp hτ]
      exact hfirst
  once hrep := by
    have hnil : times = [] := by
      refine List.eq_nil_iff_forall_not_mem.mpr fun τ hτ => ?_
      simp [(hold τ hτ).1] at hrep
    simp [hnil]
  apart := by
    refine List.pairwise_append.mpr ⟨h.apart, List.pairwise_singleton _ _, ?_⟩
    intro τ hτ τ' hτ'
    rw [List.mem_singleton.mp hτ']
    exact (hold τ hτ).2

/-- The callback of the timer has been called in the batch that is in progress. -/
def Ran (s : Schedule) (a : Address) : Prop :=
  ∃ b, s.batch = some b ∧ a ∈ b.expired.map Entry.timer ∧ a ∉ b.rest.map Entry.timer

/-- The batch is not ahead of the clock, and what is in it is due. -/
structure Due (s : Schedule) : Prop where
  now : ∀ b, s.batch = some b → b.now ≤ s.clock
  due : ∀ b, s.batch = some b → ∀ e ∈ b.expired, e.when ≤ b.now

/-- **The invariant** of one timer, which has fired at `times`. -/
structure Fired (s : Schedule) (id : TimerId) (times : List Timestamp) : Prop where
  onTime : ∀ t, AddedIn s.log id t → OnTime t times
  late : ∀ τ ∈ times, τ ≤ s.clock
  lateBatch : ∀ b, s.batch = some b → ∀ τ ∈ times, τ ≤ b.now
  new : (∀ t, ¬ AddedIn s.log id t) → times = []
  unborn : s.numCreated < id.sequence → ∀ t, ¬ AddedIn s.log id t
  waiting : id.timer ∈ s.waiting → ∀ u, s.heap id.timer = some u → u.sequence = id.sequence →
    ∀ t, ¬ AddedIn s.log id t
  born : id.timer ∉ s.waiting → ∀ u, s.heap id.timer = some u → u.sequence = id.sequence →
    ∃ t, AddedIn s.log id t
  next : ∀ t u, AddedIn s.log id t → s.heap id.timer = some u → u.sequence = id.sequence →
    u.interval = t.interval ∧ t.expiration ≤ u.expiration ∧
      (¬ s.Ran id.timer → ∀ τ ∈ times, t.repeat_ = true ∧ addTime τ t.interval ≤ u.expiration)

variable {s s' : Schedule} {id : TimerId} {times : List Timestamp} {act : Act}

theorem repeat_eq {t u : Timer} (h : u.interval = t.interval) : u.repeat_ = t.repeat_ := by
  rw [Timer.repeat_, Timer.repeat_, h]

theorem addTime_le {τ τ' : Timestamp} {i : Interval} (h : τ ≤ τ') : addTime τ i ≤ addTime τ' i := by
  rw [Timestamp.le_iff] at h ⊢
  simp only [addTime]
  omega

theorem le_addTime {τ : Timestamp} {i : Interval} (h : i.positive = true) : τ ≤ addTime τ i := by
  have := i.nonneg h
  rw [Timestamp.le_iff]
  simp only [addTime]
  omega

theorem Due.step (h : s.Due) (hs : s.Step act s') : s'.Due := by
  cases hs with
  | tick d => exact ⟨fun b hb => (h.now b hb).trans (le_elapse _ d), h.due⟩
  | addTimerInLoop delay hw hb ht =>
    exact ⟨fun b hb => (h.now b hb).trans (le_elapse _ delay), h.due⟩
  | addTimer when interval delay hfree hlt =>
    exact ⟨fun b hb => (h.now b hb).trans (le_elapse _ delay), h.due⟩
  | @handleRead expired delay hb hsorted hmem =>
    constructor
    · intro b hb'
      cases hb'
      exact le_elapse s.clock delay
    · intro b hb' e he
      cases hb'
      exact ((hmem e).mp he).2
  | @runTimer now expired rest e t hb ht =>
    constructor
    · intro b hb'
      cases hb'
      exact h.now ⟨now, expired, e :: rest⟩ hb
    · intro b hb'
      cases hb'
      exact h.due ⟨now, expired, e :: rest⟩ hb
  | reset delay => exact ⟨nofun, nofun⟩
  | _ => exact ⟨h.now, h.due⟩

/-- Nothing happens to the timer. -/
theorem Fired.frame (h : Fired s id times) (hheap : s'.heap id.timer = s.heap id.timer)
    (hclock : s.clock ≤ s'.clock) (hlate : ∀ b, s'.batch = some b → ∀ τ ∈ times, τ ≤ b.now)
    (hran : s.Ran id.timer → s'.Ran id.timer)
    (hwaiting : id.timer ∈ s'.waiting ↔ id.timer ∈ s.waiting)
    (hadded : ∀ t, AddedIn s'.log id t ↔ AddedIn s.log id t)
    (hcreated : s.numCreated ≤ s'.numCreated) : Fired s' id times where
  onTime t ht := h.onTime t ((hadded t).mp ht)
  late τ hτ := (h.late τ hτ).trans hclock
  lateBatch := hlate
  new hno := h.new fun t ht => hno t ((hadded t).mpr ht)
  unborn hlt t ht := h.unborn (hcreated.trans_lt hlt) t ((hadded t).mp ht)
  waiting hw u hu hseq t ht := h.waiting (hwaiting.mp hw) u (hheap ▸ hu) hseq t ((hadded t).mp ht)
  born hw u hu hseq := by
    obtain ⟨t, ht⟩ := h.born (hwaiting.not.mp hw) u (hheap ▸ hu) hseq
    exact ⟨t, (hadded t).mpr ht⟩
  next t u ht hu hseq := by
    obtain ⟨hi, hle, hn⟩ := h.next t u ((hadded t).mp ht) (hheap ▸ hu) hseq
    exact ⟨hi, hle, fun hno => hn fun hr => hno (hran hr)⟩

/-- A step that leaves the batch alone. -/
theorem Fired.keep (h : Fired s id times) (hheap : s'.heap id.timer = s.heap id.timer)
    (hclock : s.clock ≤ s'.clock) (hbatch : s'.batch = s.batch)
    (hwaiting : id.timer ∈ s'.waiting ↔ id.timer ∈ s.waiting)
    (hadded : ∀ t, AddedIn s'.log id t ↔ AddedIn s.log id t)
    (hcreated : s.numCreated ≤ s'.numCreated) : Fired s' id times := by
  refine h.frame hheap hclock (fun b hb => h.lateBatch b (hbatch ▸ hb)) ?_ hwaiting hadded hcreated
  rw [Ran, Ran, hbatch]
  exact fun hr => hr

/-- The timer is not there. -/
theorem Fired.gone (h : Fired s id times)
    (hgone : ∀ u, s'.heap id.timer = some u → u.sequence ≠ id.sequence)
    (hclock : s.clock ≤ s'.clock) (hlate : ∀ b, s'.batch = some b → ∀ τ ∈ times, τ ≤ b.now)
    (hadded : ∀ t, AddedIn s'.log id t ↔ AddedIn s.log id t)
    (hcreated : s.numCreated ≤ s'.numCreated) : Fired s' id times where
  onTime t ht := h.onTime t ((hadded t).mp ht)
  late τ hτ := (h.late τ hτ).trans hclock
  lateBatch := hlate
  new hno := h.new fun t ht => hno t ((hadded t).mpr ht)
  unborn hlt t ht := h.unborn (hcreated.trans_lt hlt) t ((hadded t).mp ht)
  waiting _ u hu hseq := absurd hseq (hgone u hu)
  born _ u hu hseq := absurd hseq (hgone u hu)
  next _ u _ hu hseq := absurd hseq (hgone u hu)

/-- A new timer, at the address of this one or not. -/
theorem Fired.newTimer (h : Fired s id times) {a : Address} {when : Timestamp}
    {interval : Interval} (hs : s.Step (.newTimer a when interval) s') : Fired s' id times := by
  cases hs with
  | newTimer _ _ hfree hlt =>
    by_cases hid : id.timer = a
    · by_cases hseq : id.sequence = s.numCreated + 1
      · have hno := h.unborn (by omega)
        refine ⟨fun t ht => absurd ht (hno t), h.late, h.lateBatch, fun _ => h.new hno,
          fun _ => hno, fun _ _ _ _ => hno, ?_, fun t _ ht => absurd ht (hno t)⟩
        intro hw
        simp [hid] at hw
      · refine h.gone ?_ le_rfl h.lateBatch (fun _ => Iff.rfl) (Nat.le_succ _)
        intro u hu
        simp only [hid, Function.update_self, Option.some.injEq] at hu
        rw [← hu]
        exact fun he => hseq he.symm
    · exact h.keep (Function.update_of_ne hid _ _) le_rfl rfl (by simp [hid]) (fun _ => Iff.rfl)
        (Nat.le_succ _)

/-- A timer that is added has not fired. -/
theorem Fired.added (h : Fired s id times) {t : Timer} (hno : ∀ t, ¬ AddedIn s.log id t)
    (hheap : s'.heap id.timer = some t) (hwaiting : id.timer ∉ s'.waiting)
    (hadded : ∀ u, AddedIn s'.log id u ↔ u = t) (hseq : t.sequence = id.sequence) (hcreated : id.sequence ≤ s'.numCreated) :
    Fired s' id times := by
  have hnil := h.new hno
  subst hnil
  refine ⟨fun u _ => .nil u, by simp, by simp, fun _ => rfl, fun hlt => ?_,
    fun hw => absurd hw hwaiting, fun _ _ _ _ => ⟨t, (hadded t).mpr rfl⟩, ?_⟩
  · omega
  · intro u v hu hv _
    rw [hadded] at hu
    rw [hheap, Option.some.injEq] at hv
    subst hu
    subst hv
    exact ⟨rfl, le_rfl, by simp⟩

theorem Fired.addTimer (hinv : s.Inv) (h : Fired s id times) {a : Address} {when : Timestamp}
    {interval : Interval} {delay : ℕ} (hs : s.Step (.addTimer a when interval delay) s') :
    Fired s' id times := by
  cases hs with
  | addTimer _ _ _ hfree hlt =>
    by_cases hid : id = ⟨a, s.numCreated + 1⟩
    · have hno := h.unborn (by simp [hid])
      subst hid
      refine h.added hno (Function.update_self _ _ _) ?_ ?_ rfl le_rfl
      · intro hw
        obtain ⟨t, ht⟩ := hinv.waiting a hw
        rw [hfree] at ht
        cases ht
      · intro u
        rw [addedIn_concat]
        simp [hno]
    · have hadded : ∀ t, AddedIn (s.log ++ [.added a ⟨when, interval, s.numCreated + 1⟩]) id t ↔
          AddedIn s.log id t := by
        intro t
        rw [addedIn_concat]
        simp [hid]
      by_cases hta : id.timer = a
      · refine h.gone ?_ (le_elapse _ delay) h.lateBatch hadded (Nat.le_succ _)
        intro u hu hseq
        simp only [hta, Function.update_self, Option.some.injEq] at hu
        exact hid (TimerId.ext hta (by rw [← hseq, ← hu]))
      · exact h.keep (Function.update_of_ne hta _ _) (le_elapse _ delay) rfl Iff.rfl hadded
          (Nat.le_succ _)

theorem Fired.addTimerInLoop (hinv : s.Inv) (h : Fired s id times) {a : Address}
    {delay : ℕ} (hs : s.Step (.addTimerInLoop a delay) s') : Fired s' id times := by
  cases hs with
  | @addTimerInLoop _ t _ hw hb ht =>
    by_cases hid : id = ⟨a, t.sequence⟩
    · have hno : ∀ u, ¬ AddedIn s.log id u := by
        subst hid
        exact h.waiting hw t ht rfl
      subst hid
      refine h.added hno ht (Finset.notMem_erase a _) ?_ rfl (hinv.seq_le a t ht)
      intro u
      rw [addedIn_concat]
      simp [hno]
    · have hadded : ∀ u, AddedIn (s.log ++ [.added a t]) id u ↔ AddedIn s.log id u := by
        intro u
        rw [addedIn_concat]
        simp [hid]
      by_cases hta : id.timer = a
      · refine h.gone ?_ (le_elapse _ delay) h.lateBatch hadded le_rfl
        intro u hu hseq
        rw [hta, ht, Option.some.injEq] at hu
        exact hid (TimerId.ext hta (by rw [← hseq, ← hu]))
      · exact h.keep rfl (le_elapse _ delay) rfl (by simp [hta]) hadded le_rfl

theorem Fired.cancel (h : Fired s id times) {id' : TimerId} (hs : s.Step (.cancel id') s') :
    Fired s' id times := by
  cases hs with
  | cancelHeld hh hseq =>
    have hadded : ∀ t, AddedIn (s.log ++ [.cancelled id', .deleted id']) id t ↔
        AddedIn s.log id t := by
      intro t
      simp [AddedIn]
    by_cases hta : id.timer = id'.timer
    · refine h.gone ?_ le_rfl h.lateBatch hadded le_rfl
      intro u hu
      simp [hta] at hu
    · exact h.keep (Function.update_of_ne hta _ _) le_rfl rfl Iff.rfl hadded le_rfl
  | cancelOther hh =>
    exact h.keep rfl le_rfl rfl Iff.rfl (fun _ => addedIn_concat_other (by simp)) le_rfl

theorem Fired.handleRead (h : Fired s id times) {delay : ℕ} (hs : s.Step (.handleRead delay) s') :
    Fired s' id times := by
  cases hs with
  | @handleRead expired _ hb hsorted hmem =>
    refine h.frame rfl ?_ ?_ ?_ Iff.rfl (fun _ => Iff.rfl) le_rfl
    · rw [Timestamp.le_iff]
      simp
    · intro b hb'
      cases hb'
      exact h.late
    · rintro ⟨b, hb', -⟩
      rw [hb] at hb'
      cases hb'

/-- The times at which the timer has fired, behind a step. -/
def timesAfter (s : Schedule) (id : TimerId) (times : List Timestamp) : Act → List Timestamp
  | .runTimer =>
    match s.batch with
    | some ⟨now, _, e :: _⟩ => times ++ if s.idOf e.timer = id then [now] else []
    | _ => times
  | _ => times

/-- The timer whose turn it is has not run in this batch. -/
theorem not_ran_head {now : Timestamp} {expired rest : List Entry} {e : Entry}
    (hb : s.batch = some ⟨now, expired, e :: rest⟩) : ¬ s.Ran e.timer := by
  rintro ⟨b, hb', -, hno⟩
  rw [hb, Option.some.injEq] at hb'
  subst hb'
  simp at hno

/-- Its addresses differ from those of the timers behind it. -/
theorem head_notMem_rest (hinv : s.Inv) {now : Timestamp} {expired rest : List Entry} {e : Entry}
    (hb : s.batch = some ⟨now, expired, e :: rest⟩) : e.timer ∉ rest.map Entry.timer := by
  have hnodup := hinv.nodup
  rw [show s.members = expired by simp [Schedule.members, hb]] at hnodup
  have hrest := hnodup.sublist ((hinv.suffix _ hb).sublist.map Entry.timer)
  rw [List.map_cons, List.nodup_cons] at hrest
  exact hrest.1

/-- It is due. -/
theorem head_due (hinv : s.Inv) (hdue : s.Due) {now : Timestamp} {expired rest : List Entry}
    {e : Entry} {t : Timer} (hb : s.batch = some ⟨now, expired, e :: rest⟩)
    (ht : s.heap e.timer = some t) : t.expiration ≤ now := by
  have he : e ∈ expired := (hinv.suffix _ hb).mem List.mem_cons_self
  obtain ⟨u, hu, hw⟩ := hinv.members e (by simpa [Schedule.members, hb] using he)
  rw [ht, Option.some.injEq] at hu
  subst hu
  rw [← hw]
  exact hdue.due _ hb e he

/-- **A callback is called in time**: its timer is due, and an interval behind its last firing. -/
theorem Fired.runTimer (hinv : s.Inv) (hdue : s.Due) (h : Fired s id times)
    (hs : s.Step .runTimer s') : Fired s' id (s.timesAfter id times .runTimer) := by
  cases hs with
  | @runTimer now expired rest e t hb ht =>
    have hid' : s.idOf e.timer = ⟨e.timer, t.sequence⟩ := by simp [idOf, ht]
    have hadded : ∀ u, AddedIn (s.log ++ [.started ⟨e.timer, t.sequence⟩]) id u ↔
        AddedIn s.log id u := fun u => addedIn_concat_other (by simp)
    have hlate : ∀ τ ∈ times, τ ≤ now := h.lateBatch _ hb
    simp only [timesAfter, hb, hid']
    by_cases hid : (⟨e.timer, t.sequence⟩ : TimerId) = id
    · subst hid
      rw [if_pos rfl]
      have he : e.timer ∈ expired.map Entry.timer :=
        List.mem_map_of_mem ((hinv.suffix _ hb).mem List.mem_cons_self)
      have hexp : t.expiration ≤ now := head_due hinv hdue hb ht
      have hnot : e.timer ∉ s.waiting :=
        hinv.disjoint e.timer (by simpa [Schedule.members, hb] using he)
      obtain ⟨t₀, ht₀⟩ := h.born hnot t ht rfl
      have hran : ∃ b, some (⟨now, expired, rest⟩ : Batch) = some b ∧
          e.timer ∈ b.expired.map Entry.timer ∧ e.timer ∉ b.rest.map Entry.timer :=
        ⟨_, rfl, he, head_notMem_rest hinv hb⟩
      refine ⟨?_, ?_, ?_, ?_, ?_, ?_, ?_, ?_⟩
      · intro u hu
        obtain ⟨-, hle, hn⟩ := h.next u t ((hadded u).mp hu) ht rfl
        refine (h.onTime u ((hadded u).mp hu)).concat (hle.trans hexp) fun τ hτ => ?_
        exact (hn (not_ran_head hb) τ hτ).imp_right fun hle' => hle'.trans hexp
      · intro τ hτ
        rcases List.mem_append.mp hτ with hτ | hτ
        · exact h.late τ hτ
        · rw [List.mem_singleton.mp hτ]
          exact hdue.now _ hb
      · intro b hb' τ hτ
        cases hb'
        rcases List.mem_append.mp hτ with hτ | hτ
        · exact hlate τ hτ
        · exact (List.mem_singleton.mp hτ).le
      · exact fun hno => absurd ((hadded t₀).mpr ht₀) (hno t₀)
      · intro hlt u hu
        exact h.unborn hlt u ((hadded u).mp hu)
      · exact fun hw => absurd hw hnot
      · exact fun _ _ _ _ => ⟨t₀, (hadded t₀).mpr ht₀⟩
      · intro u v hu hv hseq
        obtain ⟨hi, hle, -⟩ := h.next u v ((hadded u).mp hu) hv hseq
        exact ⟨hi, hle, fun hno => absurd hran hno⟩
    · rw [if_neg hid, List.append_nil]
      have hlate' : ∀ b, some (⟨now, expired, rest⟩ : Batch) = some b → ∀ τ ∈ times, τ ≤ b.now := by
        intro b hb'
        cases hb'
        exact hlate
      by_cases hta : id.timer = e.timer
      · refine h.gone ?_ le_rfl hlate' hadded le_rfl
        intro u hu hseq
        simp only [hta, ht, Option.some.injEq] at hu
        exact hid (TimerId.ext hta.symm (by rw [← hseq, ← hu]))
      · refine h.frame rfl le_rfl hlate' ?_ Iff.rfl hadded le_rfl
        rintro ⟨b, hb', hm, hno⟩
        rw [hb, Option.some.injEq] at hb'
        subst hb'
        rw [List.map_cons, List.mem_cons, not_or] at hno
        exact ⟨_, rfl, hm, hno.2⟩

/-- **A timer is armed again from `now`.** -/
theorem Fired.reset (hinv : s.Inv) (hdue : s.Due) (h : Fired s id times) {delay : ℕ}
    (hs : s.Step (.reset delay) s') : Fired s' id times := by
  cases hs with
  | @reset now expired heap deleted _ hb hother hkept hnodup hdeleted =>
    have hmem : s.members = expired := by simp [Schedule.members, hb]
    have hadded : ∀ u, AddedIn (s.log ++ deleted.map .deleted) id u ↔ AddedIn s.log id u := by
      intro u
      simp [AddedIn]
    by_cases ha : id.timer ∈ expired.map Entry.timer
    · have hran : s.Ran id.timer := ⟨_, hb, ha, by simp⟩
      have hold : ∀ u, heap id.timer = some u → ∃ t, s.heap id.timer = some t ∧
          t.repeat_ = true ∧ u = t.restart now := by
        intro u hu
        obtain ⟨t, ht, hrep, -, rfl⟩ := (hkept _ ha u).mp hu
        exact ⟨t, ht, hrep, rfl⟩
      refine ⟨fun u hu => h.onTime u ((hadded u).mp hu),
        fun τ hτ => (h.late τ hτ).trans (le_elapse _ delay), by simp,
        fun hno => h.new fun u hu => hno u ((hadded u).mpr hu),
        fun hlt u hu => h.unborn hlt u ((hadded u).mp hu), ?_, ?_, ?_⟩
      · exact fun hw => absurd hw (hinv.disjoint _ (by rw [hmem]; exact ha))
      · intro hw u hu hseq
        obtain ⟨t, ht, -, rfl⟩ := hold u hu
        obtain ⟨t₀, ht₀⟩ := h.born hw t ht hseq
        exact ⟨t₀, (hadded t₀).mpr ht₀⟩
      · intro t₀ u ht₀ hu hseq
        obtain ⟨t, ht, hrep, rfl⟩ := hold u hu
        obtain ⟨hi, hle, -⟩ := h.next t₀ t ((hadded t₀).mp ht₀) ht hseq
        obtain ⟨e, he, hte⟩ := List.mem_map.mp ha
        have hexp : t.expiration ≤ now := by
          obtain ⟨v, hv, hw⟩ := hinv.members e (by rw [hmem]; exact he)
          rw [hte, ht, Option.some.injEq] at hv
          subst hv
          rw [← hw]
          exact hdue.due _ hb e he
        have hrestart : (t.restart now).expiration = addTime now t.interval := by
          rw [Timer.restart, if_pos hrep]
        refine ⟨hi, ?_, fun _ τ hτ => ⟨by rw [← repeat_eq hi, hrep], ?_⟩⟩
        · rw [hrestart]
          exact hle.trans (hexp.trans (le_addTime hrep))
        · rw [hrestart, hi]
          exact addTime_le (h.lateBatch _ hb τ hτ)
    · refine h.frame (hother _ ha) (le_elapse _ delay) (by simp) ?_ Iff.rfl hadded le_rfl
      rintro ⟨b, hb', hm, -⟩
      rw [hb, Option.some.injEq] at hb'
      subst hb'
      exact absurd hm ha

/-- **A step keeps the invariant of a timer.** -/
theorem Fired.step (hinv : s.Inv) (hdue : s.Due) (h : Fired s id times) (hs : s.Step act s') :
    Fired s' id (s.timesAfter id times act) := by
  cases act with
  | tick d =>
    cases hs
    refine h.keep rfl ?_ rfl Iff.rfl (fun _ => Iff.rfl) le_rfl
    rw [Timestamp.le_iff]
    simp
  | newElsewhere =>
    cases hs
    exact h.keep rfl le_rfl rfl Iff.rfl (fun _ => Iff.rfl) (Nat.le_succ _)
  | newTimer a when interval => exact h.newTimer hs
  | addTimerInLoop a delay => exact h.addTimerInLoop hinv hs
  | addTimer a when interval delay => exact h.addTimer hinv hs
  | cancel id' => exact h.cancel hs
  | handleRead delay => exact h.handleRead hs
  | runTimer => exact h.runTimer hinv hdue hs
  | reset delay => exact h.reset hinv hdue hs

/-- Times that are an interval apart. -/
theorem OnTime.count {t : Timer} {clock : Timestamp} : ∀ {times : List Timestamp},
    OnTime t times → (∀ τ ∈ times, τ ≤ clock) → times ≠ [] → 0 ≤ t.interval.micros →
      t.expiration.microsecondsSinceEpoch + (times.length - 1) * t.interval.micros ≤
        clock.microsecondsSinceEpoch
  | times, h, hlate, hne, hpos => by
    have hlast : t.expiration.microsecondsSinceEpoch + (times.length - 1) * t.interval.micros ≤
        (times.getLast hne).microsecondsSinceEpoch := by
      clear hlate
      induction times using List.reverseRecOn with
      | nil => exact absurd rfl hne
      | append_singleton ts τ ih =>
        obtain ⟨hfirst, honce, hapart⟩ := h
        rw [List.pairwise_append] at hapart
        rw [List.getLast_append_singleton]
        by_cases hts : ts = []
        · subst hts
          have := Timestamp.le_iff.mp (hfirst τ (by simp))
          simpa using this
        · have hprev := ih ⟨fun τ' hτ' => hfirst τ' (by simp [hτ']), fun hr => by
            have := honce hr
            rw [List.length_append, List.length_singleton] at this
            omega, hapart.1⟩ hts
          have hstep := Timestamp.le_iff.mp (hapart.2.2 _ (List.getLast_mem hts) τ (by simp))
          simp only [addTime] at hstep
          have hlen : ((ts ++ [τ]).length : ℤ) - 1 = (ts.length - 1) + 1 := by
            rw [List.length_append, List.length_singleton]
            push_cast
            ring
          rw [hlen, add_mul, one_mul]
          omega
    exact hlast.trans (Timestamp.le_iff.mp (hlate _ (List.getLast_mem hne)))

end Schedule

namespace TimerQueue

open Schedule

theorem ofThread_startedBy (s : TimerQueue) (id : TimerId) (times : List Timestamp) (act : Act) :
    times ++ ofThread id (s.startedBy act) = s.schedule.timesAfter id times act := by
  cases act with
  | runTimer =>
    simp only [startedBy, timesAfter, TimerQueue.schedule]
    split
    · rw [ofThread_cons, ofThread_nil, List.append_nil]
      rfl
    · simp
  | _ => simp [startedBy, timesAfter]

theorem fired_new (clock : Timestamp) (n : ℕ) (id : TimerId) :
    Fired (new clock n).schedule id [] := by
  have hno : ∀ t, ¬ AddedIn (new clock n).schedule.log id t := by
    rintro t ⟨ht, -⟩
    simp [TimerQueue.schedule, new] at ht
  exact ⟨fun t ht => absurd ht (hno t), by simp, by simp, fun _ => rfl, fun _ => hno,
    fun _ _ _ _ => hno, fun _ u hu => by simp [TimerQueue.schedule, new] at hu,
    fun t _ ht => absurd ht (hno t)⟩

/-- **Every timer of a run keeps its invariant.** -/
theorem fired_of_run {clock : Timestamp} {n : ℕ} {acts : List Act} {s : TimerQueue}
    (hrun : run (new clock n) acts = some s) (id : TimerId) :
    Fired s.schedule id (ofThread id (firings (new clock n) acts)) := by
  have hinv := Run.run_inv_history (P := fun acts m => run (new clock n) acts = some m ∧ m.Inv ∧
      m.schedule.Due ∧ Fired m.schedule id (ofThread id (firings (new clock n) acts)))
    ⟨rfl, inv_new clock n, ⟨nofun, nofun⟩, fired_new clock n id⟩ ?_ hrun
  · exact hinv.2.2.2
  rintro acts m a m' hs ⟨hm, hinv, hdue, hf⟩
  obtain ⟨hinv', hstep⟩ := step_refines hinv hs
  have hf' := hf.step hinv.schedule hdue hstep
  rw [← ofThread_startedBy, ← ofThread_append, ← firings_concat hm] at hf'
  exact ⟨Run.run_concat.mpr ⟨m, hm, hs⟩, hinv', hdue.step hstep, hf'⟩

/-- **A timer fires on time, and no more often than its interval allows.** In every run of a queue, with
any callbacks and any delays, take the times at which the callback of a timer is called: none is before
the expiration with which it was added; there is at most one if it does not repeat; and if it does, two
of them are at least the interval apart, so that by now there are at most one more than the number of
intervals since the expiration. -/
theorem timer_fires_on_time {clock : Timestamp} {n : ℕ} {acts : List Act} {s : TimerQueue}
    (hrun : run (new clock n) acts = some s) {id : TimerId} {t : Timer}
    (hadded : AddedIn s.log id t) :
    let times := ofThread id (firings (new clock n) acts)
    (∀ τ ∈ times, t.expiration ≤ τ ∧ τ ≤ s.clock) ∧
      (t.repeat_ = false → times.length ≤ 1) ∧
      times.Pairwise (fun τ τ' => addTime τ t.interval ≤ τ') ∧
      (t.repeat_ = true → times ≠ [] →
        t.expiration.microsecondsSinceEpoch + (times.length - 1) * t.interval.micros ≤
          s.clock.microsecondsSinceEpoch) := by
  intro times
  have hf := fired_of_run hrun id
  have hon := hf.onTime t hadded
  refine ⟨fun τ hτ => ⟨hon.first τ hτ, hf.late τ hτ⟩, hon.once, hon.apart, fun hrep hne => ?_⟩
  exact hon.count hf.late hne (t.interval.nonneg hrep)

/-- A timer of 10 µs that the loop is late for fires twice, not five times. -/
theorem timer_fires_on_time_late : ∃ s,
    run (new ⟨100⟩ 0) [.addTimer 1 ⟨110⟩ (.ofMicros 10), .tick 20, .handleRead 0, .runTimer, .reset,
      .tick 35, .handleRead 0, .runTimer, .reset] = some s ∧
    AddedIn s.log ⟨1, 1⟩ ⟨⟨110⟩, .ofMicros 10, 1⟩ ∧
    ofThread ⟨1, 1⟩ (firings (new ⟨100⟩ 0) [.addTimer 1 ⟨110⟩ (.ofMicros 10), .tick 20, .handleRead 0,
      .runTimer, .reset, .tick 35, .handleRead 0, .runTimer, .reset]) = [⟨120⟩, ⟨155⟩] ∧
    (∀ τ ∈ [(⟨120⟩ : Timestamp), ⟨155⟩], (⟨110⟩ : Timestamp) ≤ τ ∧ τ ≤ s.clock) := by
  have hlog : (run (new ⟨100⟩ 0) [.addTimer 1 ⟨110⟩ (.ofMicros 10), .tick 20, .handleRead 0, .runTimer,
      .reset, .tick 35, .handleRead 0, .runTimer, .reset]).map (fun s => s.log) =
      some [.added 1 ⟨⟨110⟩, .ofMicros 10, 1⟩, .started ⟨1, 1⟩, .started ⟨1, 1⟩] := by decide +kernel
  obtain ⟨s, hs, hl⟩ := Option.map_eq_some_iff.mp hlog
  have hadded : AddedIn s.log ⟨1, 1⟩ ⟨⟨110⟩, .ofMicros 10, 1⟩ := ⟨by simp [hl], rfl⟩
  have htimes : ofThread ⟨1, 1⟩ (firings (new ⟨100⟩ 0) [.addTimer 1 ⟨110⟩ (.ofMicros 10), .tick 20,
      .handleRead 0, .runTimer, .reset, .tick 35, .handleRead 0, .runTimer, .reset]) =
      [⟨120⟩, ⟨155⟩] := by decide +kernel
  obtain ⟨hfirst, -⟩ := timer_fires_on_time hs hadded
  rw [htimes] at hfirst
  exact ⟨s, hs, hadded, htimes, hfirst⟩

end TimerQueue

end MuduoCpp11.Net
