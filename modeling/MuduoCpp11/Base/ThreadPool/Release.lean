import MuduoCpp11.Base.ThreadPool.Notify

/-! # Producers behind `Stop`

`Stop` notifies the workers and joins them; it notifies no producer. A producer that waits for a slot is
then released only by the takes that are still to come: one for each worker that is in `Take` when
`running_` becomes false, as long as there are tasks. Count the producers inside of `Run` (`entered`),
the tasks in the queue and the workers in `Take` (`takers`): each push turns a producer into a task and
each take turns a worker and a task into a slot. If there are no more producers than slots at the moment
of `Stop`, counted with the slots these takes will make, then none of them waits when all workers have
been joined (`joined_strands_no_producer`). -/

namespace MuduoCpp11.Base.Monitor

open MuduoCpp11.Lib

variable {P τ : Type*}

/-- The number of workers in `Take`. -/
def takers (s : Monitor P τ) : ℕ := ∑ w ∈ Finset.range s.pool.numThreads, (s.pool.worker w).takes

/-- The condition on the state in which `Stop` takes the mutex. -/
def Releases (s : Monitor P τ) : Prop :=
  s.entered.length ≤ s.pool.maxQueueSize ∧
    s.entered.length + s.pool.taskQueue.length ≤ s.pool.maxQueueSize + s.takers

/-- `Stop` has returned. -/
def Joined (s : Monitor P τ) : Prop :=
  s.pool.running = false ∧ ∀ w < s.pool.numThreads, s.pool.worker w = .ended

instance (s : Monitor P τ) : Decidable s.Releases := inferInstanceAs (Decidable (_ ∧ _))

/-- Every call of `Stop` comes in a state that meets the condition. -/
def StopsReleased (s : Monitor P τ) : Act P τ → Prop
  | .pool .stop _ => s.Releases
  | _ => True

instance (s : Monitor P τ) : ∀ act, Decidable (s.StopsReleased act)
  | .pool .stop _ => inferInstanceAs (Decidable s.Releases)
  | .pool (.producer _ _) _ => isTrue trivial
  | .pool (.worker _ _) _ => isTrue trivial
  | .wakeupProducer _ => isTrue trivial
  | .wakeupWorker _ => isTrue trivial

variable {s s' : Monitor P τ} {M n w i : ℕ} {p : P} {act : Act P τ}
  {acts : List (Act P τ)}

/-! ### What a step behind `Stop` counts -/

theorem sum_takes_update (f : ℕ → Worker τ) (x : Worker τ) (hw : w < n) :
    ∑ v ∈ Finset.range n, (Function.update f w x v).takes + (f w).takes =
      ∑ v ∈ Finset.range n, (f v).takes + x.takes := by
  have hmem := Finset.mem_range.mpr hw
  have hupdate : (fun v => (Function.update f w x v).takes) =
      Function.update (fun v => (f v).takes) w x.takes := by
    funext v
    rcases eq_or_ne v w with rfl | hne
    · simp
    · simp [Function.update_of_ne hne]
  rw [hupdate, Finset.sum_update_of_mem hmem,
    Finset.sum_eq_add_sum_sdiff_singleton_of_mem hmem fun v => (f v).takes]
  omega

/-- The worker `w` goes on. -/
theorem takers_update (hthreads : s'.pool.numThreads = s.pool.numThreads) {x : Worker τ}
    (hx : s'.pool.worker = Function.update s.pool.worker w x) (hw : w < s.pool.numThreads) :
    s'.takers + (s.pool.worker w).takes = s.takers + x.takes := by
  unfold takers
  rw [hthreads, hx]
  exact sum_takes_update s.pool.worker x hw

theorem takers_eq (hthreads : s'.pool.numThreads = s.pool.numThreads)
    (hworker : s'.pool.worker = s.pool.worker) : s'.takers = s.takers := by
  unfold takers
  rw [hthreads, hworker]

/-- What a step behind `Stop` does to the producers inside, the tasks and the workers in `Take`: nothing,
a push, a take, or a take that finds no task. -/
structure Counts (s s' : Monitor P τ) : Prop where
  running : s'.pool.running = false
  maxQueueSize : s'.pool.maxQueueSize = s.pool.maxQueueSize
  move : s'.entered.length = s.entered.length ∧
      s'.pool.taskQueue.length = s.pool.taskQueue.length ∧ s'.takers = s.takers ∨
    s'.entered.length + 1 = s.entered.length ∧
      s'.pool.taskQueue.length = s.pool.taskQueue.length + 1 ∧ s'.takers = s.takers ∨
    s'.entered.length = s.entered.length ∧
      s'.pool.taskQueue.length + 1 = s.pool.taskQueue.length ∧ s'.takers + 1 = s.takers ∨
    s'.entered.length = s.entered.length ∧ s.pool.taskQueue = [] ∧
      s'.pool.taskQueue.length = 0 ∧ s'.takers + 1 = s.takers

theorem counts_of_frame (hrun : s.pool.running = false) {pool : ThreadPool P τ} (hf : Frame s.pool pool)
    (htakers : ({ s with pool } : Monitor P τ).takers = s.takers) : Counts s { s with pool } where
  running := hf.running.trans hrun
  maxQueueSize := hf.maxQueueSize
  move := Or.inl ⟨rfl, congrArg List.length hf.taskQueue, htakers⟩

/-- The section of `Take`. -/
theorem counts_take (hrun : s.pool.running = false) (hw : w < s.pool.numThreads)
    (htakes : (s.pool.worker w).takes = 1) : Counts s (s.take w i (s.pool.take w)) := by
  have htakers : ∀ (t : Monitor P τ) (x : Worker τ), t.pool.numThreads = s.pool.numThreads →
      t.pool.worker = Function.update s.pool.worker w x → x.takes = 0 → t.takers + 1 = s.takers := by
    intro t x hthreads hx hx0
    have hsum := takers_update hthreads hx hw
    rwa [htakes, hx0] at hsum
  unfold Monitor.take ThreadPool.take
  cases hq : s.pool.taskQueue with
  | nil =>
    simp only [hrun, Bool.false_eq_true, if_false]
    exact ⟨hrun, rfl, Or.inr (Or.inr (Or.inr ⟨rfl, hq, congrArg List.length hq,
      htakers _ (.holding none) rfl rfl rfl⟩))⟩
  | cons job rest =>
    exact ⟨hrun, rfl, Or.inr (Or.inr (Or.inl ⟨rfl, by rw [hq]; rfl,
      htakers _ (.holding (some job)) rfl rfl rfl⟩))⟩

theorem counts_workerStep (hrun : s.pool.running = false) (hw : w < s.pool.numThreads)
    {a : ThreadPool.WorkerAct} {pool : ThreadPool P τ} (hs : s.pool.workerStep w a = some pool)
    (ha : a ≠ .lock) : Counts s { s with pool } := by
  obtain ⟨hf, -, h0, x, hx, htakes⟩ := workerStep_outside hs ha
  refine counts_of_frame hrun hf ?_
  have hsum : ({ s with pool } : Monitor P τ).takers + (s.pool.worker w).takes = s.takers + x.takes :=
    takers_update hf.numThreads hx hw
  rw [h0, htakes, if_neg (by simp [hrun])] at hsum
  exact hsum

section
variable [DecidableEq P]

/-- The section of `Run`. -/
theorem counts_push (h : s.Inv M n) (hrun : s.pool.running = false)
    (hp : (s.pool.producer p).inside = true) (job : Job τ) :
    Counts s (s.push p i (s.pool.push p job)) := by
  unfold Monitor.push ThreadPool.push
  split_ifs with hfull
  · exact ⟨hrun, rfl, Or.inl ⟨rfl, rfl, rfl⟩⟩
  · have hmem : p ∈ s.entered := (h.inside p).mpr hp
    refine ⟨hrun, rfl, Or.inr (Or.inl ⟨?_, ?_, rfl⟩)⟩
    · show (s.entered.erase p).length + 1 = s.entered.length
      rw [List.length_erase_of_mem hmem]
      have := List.length_pos_of_mem hmem
      omega
    · show (s.pool.taskQueue ++ [job]).length = _
      rw [List.length_append, List.length_singleton]

theorem counts_runStep (hrun : s.pool.running = false) {a : ThreadPool.ProducerAct τ}
    {pool : ThreadPool P τ} (hs : s.pool.runStep p a = some pool) (ha : a ≠ .lock) :
    Counts s { s with pool } := by
  obtain ⟨hf, hworker, -⟩ := runStep_outside hs ha
  exact counts_of_frame hrun hf (takers_eq hf.numThreads hworker)

theorem counts_step (h : s.Inv M n) (hrun : s.pool.running = false) (hs : s.step act = some s') :
    Counts s s' := by
  cases act with
  | pool a i =>
    obtain ⟨hb, hs⟩ := Option.ite_none_left_eq_some.mp hs
    obtain ⟨pool, hpool, rfl⟩ := Option.map_eq_some_iff.mp hs
    cases a with
    | producer p a =>
      have hpool : s.pool.runStep p a = some pool := hpool
      cases a with
      | call task => exact counts_runStep hrun hpool (by simp)
      | assert => exact counts_runStep hrun hpool (by simp)
      | test =>
        have henter : s.enter p pool = { s with pool } := by simp [enter, hrun]
        show Counts s (s.enter p pool)
        rw [henter]
        exact counts_runStep hrun hpool (by simp)
      | lock =>
        obtain ⟨hp, job, rfl⟩ := runStep_lock hpool
        exact counts_push h hrun hp job
    | worker w a =>
      obtain ⟨hw, hpool⟩ := Option.ite_none_right_eq_some.mp hpool
      cases a with
      | test => exact counts_workerStep hrun hw hpool (by simp)
      | lock =>
        obtain ⟨htakes, rfl⟩ := workerStep_lock hpool
        exact counts_take hrun hw htakes
      | execute => exact counts_workerStep hrun hw hpool (by simp)
    | stop =>
      cases hpool
      exact ⟨rfl, rfl, Or.inl ⟨rfl, rfl, rfl⟩⟩
  | wakeupProducer p =>
    obtain ⟨-, hs⟩ := Option.ite_none_right_eq_some.mp hs
    cases hs
    exact ⟨hrun, rfl, Or.inl ⟨rfl, rfl, rfl⟩⟩
  | wakeupWorker w =>
    obtain ⟨-, hs⟩ := Option.ite_none_right_eq_some.mp hs
    cases hs
    exact ⟨hrun, rfl, Or.inl ⟨rfl, rfl, rfl⟩⟩

end

/-! ### Every run -/

/-- The condition goes on to hold. -/
theorem Counts.releases (h : Counts s s') (hr : s.Releases) : s'.Releases := by
  obtain ⟨hle, hsum⟩ := hr
  have hmax := h.maxQueueSize
  unfold Releases
  rcases h.move with hm | hm | hm | ⟨hI, hnil, hm⟩
  · omega
  · omega
  · omega
  · rw [hnil, List.length_nil] at hsum
    omega

/-- Where all workers have ended, there is nobody in `Take`. -/
theorem Joined.takers_eq_zero (h : s.Joined) : s.takers = 0 := by
  refine Finset.sum_eq_zero fun w hw => ?_
  rw [h.2 w (Finset.mem_range.mp hw)]
  rfl

section
variable [DecidableEq P]

/-- Only `Stop` resets `running_`. -/
theorem poolStep_running {t t' : ThreadPool P τ} {a : ThreadPool.Act P τ} (hs : t.step a = some t')
    (ha : a ≠ .stop) : t'.running = t.running := by
  cases a with
  | producer p a =>
    have hs : t.runStep p a = some t' := hs
    by_cases hlock : a = .lock
    · subst hlock
      obtain ⟨-, job, rfl⟩ := runStep_lock hs
      unfold ThreadPool.push
      split_ifs <;> rfl
    · exact (runStep_outside hs hlock).1.running
  | worker w a =>
    obtain ⟨-, hs⟩ := Option.ite_none_right_eq_some.mp hs
    by_cases hlock : a = .lock
    · subst hlock
      obtain ⟨-, rfl⟩ := workerStep_lock hs
      unfold ThreadPool.take
      split
      · split_ifs <;> rfl
      · rfl
    · exact (workerStep_outside hs hlock).1.running
  | stop => exact absurd rfl ha

/-- Behind a call of `Stop` that meets the condition, it holds. -/
theorem releases_step (h : s.Inv M n) (hok : s.StopsReleased act) (hs : s.step act = some s')
    (hrel : s.pool.running = false → s.Releases) (hrun : s'.pool.running = false) : s'.Releases := by
  cases hold : s.pool.running with
  | false => exact (counts_step h hold hs).releases (hrel hold)
  | true =>
    -- `running_` has been reset by this step, so it is a call of `Stop`
    cases act with
    | pool a i =>
      obtain ⟨-, hs⟩ := Option.ite_none_left_eq_some.mp hs
      obtain ⟨pool, hpool, rfl⟩ := Option.map_eq_some_iff.mp hs
      by_cases ha : a = .stop
      · subst ha
        cases hpool
        exact hok
      · rw [signal_pool, poolStep_running hpool ha, hold] at hrun
        cases hrun
    | wakeupProducer p =>
      obtain ⟨-, hs⟩ := Option.ite_none_right_eq_some.mp hs
      cases hs
      exact absurd (hold.symm.trans hrun) (by simp)
    | wakeupWorker w =>
      obtain ⟨-, hs⟩ := Option.ite_none_right_eq_some.mp hs
      cases hs
      exact absurd (hold.symm.trans hrun) (by simp)

/-- **Producers behind `Stop`.** In every run in which `Stop` is called only in states with at most
`max_queue_size_` producers inside of `Run`, and with at most as many producers inside and tasks
together as there are slots and workers in `Take`: when all workers have been joined, no producer waits
on `not_full_` without a notification. -/
theorem joined_strands_no_producer (hM : 0 < M)
    (hok : Run.Along step StopsReleased (start M n) acts) (hr : run (start M n) acts = some s)
    (hjoined : s.Joined) : s.notFull.waiting = [] := by
  have hinv : s.Inv M n ∧ (s.pool.running = false → s.Releases) :=
    Run.run_inv_along (P := fun s => s.Inv M n ∧ (s.pool.running = false → s.Releases))
      (fun _ _ _ hok hs h => ⟨h.1.step hM hs, releases_step h.1 hok hs h.2⟩) hok hr
      ⟨inv_start, by simp [start, ThreadPool.start]⟩
  obtain ⟨h, hrel⟩ := hinv
  obtain ⟨-, hsum⟩ := hrel hjoined.1
  by_contra hne
  have hslots := h.slots hne
  have hpos := List.length_pos_iff.mpr hne
  have hinside : s.notFull.threads.length ≤ s.entered.length :=
    (List.subperm_of_subset h.notFull fun p hp => h.mem_entered hp).length_le
  rw [Condition.length_threads] at hinside
  rw [h.size, hjoined.takers_eq_zero] at hsum
  omega

end

/-- A queue of one and one worker: `Stop` comes while the queue is full and a producer waits, but the
worker is in `Take`. It takes the task, the producer gets its slot. -/
theorem joined_strands_no_producer_of_taker : ∃ s : Monitor Bool ℕ,
    run (start 1 1) [.pool (.worker 0 .test) 0, .pool (.producer true (.call (some 5))) 0,
      .pool (.producer true .assert) 0, .pool (.producer true .test) 0,
      .pool (.producer true .lock) 0, .pool (.producer false (.call (some 6))) 0,
      .pool (.producer false .assert) 0, .pool (.producer false .test) 0,
      .pool (.producer false .lock) 0, .pool .stop 0, .pool (.worker 0 .lock) 0,
      .pool (.worker 0 .execute) 0, .pool (.worker 0 .test) 0, .pool (.producer false .lock) 0] =
        some s ∧
    s.pool.pushed = [⟨0, some 5⟩, ⟨1, some 6⟩] ∧ s.Joined ∧ s.notFull.waiting = [] := by
  obtain ⟨s, hr, hpushed, hrun, hthreads, hworker⟩ : ∃ s : Monitor Bool ℕ,
      run (start 1 1) [.pool (.worker 0 .test) 0, .pool (.producer true (.call (some 5))) 0,
        .pool (.producer true .assert) 0, .pool (.producer true .test) 0,
        .pool (.producer true .lock) 0, .pool (.producer false (.call (some 6))) 0,
        .pool (.producer false .assert) 0, .pool (.producer false .test) 0,
        .pool (.producer false .lock) 0, .pool .stop 0, .pool (.worker 0 .lock) 0,
        .pool (.worker 0 .execute) 0, .pool (.worker 0 .test) 0,
        .pool (.producer false .lock) 0] = some s ∧
      s.pool.pushed = [⟨0, some 5⟩, ⟨1, some 6⟩] ∧ s.pool.running = false ∧
      s.pool.numThreads = 1 ∧ s.pool.worker 0 = .ended :=
    ⟨_, rfl, by decide, by decide, by decide, by decide⟩
  have hjoined : s.Joined := by
    refine ⟨hrun, fun w hw => ?_⟩
    rw [hthreads, Nat.lt_one_iff] at hw
    rw [hw, hworker]
  refine ⟨s, hr, hpushed, hjoined, joined_strands_no_producer one_pos ?_ hr hjoined⟩
  decide

/-- A queue of one and one worker: `Stop` comes while the worker executes a task, the queue is full and a
producer waits. The worker finds `running_` false and ends; all threads are joined, and the producer
waits for a notification that nobody will send. -/
theorem producer_stranded : ∃ s : Monitor Bool ℕ,
    run (start 1 1) [.pool (.producer true (.call (some 5))) 0, .pool (.producer true .assert) 0,
      .pool (.producer true .test) 0, .pool (.producer true .lock) 0, .pool (.worker 0 .test) 0,
      .pool (.worker 0 .lock) 0, .pool (.producer true (.call (some 6))) 0,
      .pool (.producer true .assert) 0, .pool (.producer true .test) 0,
      .pool (.producer true .lock) 0, .pool (.producer false (.call (some 7))) 0,
      .pool (.producer false .assert) 0, .pool (.producer false .test) 0,
      .pool (.producer false .lock) 0, .pool .stop 0, .pool (.worker 0 .execute) 0,
      .pool (.worker 0 .test) 0] = some s ∧
    s.pool.running = false ∧ s.pool.numThreads = 1 ∧ s.pool.worker 0 = .ended ∧
    s.pool.producer false = .waiting ⟨2, some 7⟩ ∧ s.notFull = ⟨[false], []⟩ :=
  ⟨_, rfl, by decide, by decide, by decide, by decide, by decide⟩

end MuduoCpp11.Base.Monitor
