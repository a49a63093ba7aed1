import MuduoCpp11.Base.ThreadPool
import MuduoCpp11.Lib.Condition

/-! # The condition variables of the thread pool

The pool of `ThreadPool` lets a waiting thread go on at any time. Here the pool has its two condition
variables: a thread that waits takes the mutex again only when it has been notified or has woken up
spuriously. `Run` notifies one waiter of `not_empty_` for each task it pushes, `Take` one waiter of
`not_full_` for each task it takes, and `Stop` all waiters of `not_empty_` and none of `not_full_`.

A step of this model is a step of the pool or leaves the pool as it is (`step_pool`). No notification is
lost (`notifications_kept`): while there is a task, some worker does not wait, and while a producer
waits, every free slot of the queue has a notified producer. `Stop` leaves the producers to the workers
that are still in `Take`; how many producers these can release is the matter of `Release`. -/

namespace MuduoCpp11.Base

open MuduoCpp11.Lib

/-- Behind the test of `running_`. -/
def Producer.inside {τ : Type*} : Producer τ → Bool
  | .tested _ => true
  | .waiting _ => true
  | _ => false

/-- Whether the thread is in `Take`: `1` if it is. -/
def Worker.takes {τ : Type*} : Worker τ → ℕ
  | .taking => 1
  | .waiting => 1
  | _ => 0

/-- `entered` are the threads that have passed the test of `running_` in `Run` and have not returned. -/
structure Monitor (P τ : Type*) where
  pool : ThreadPool P τ
  notEmpty : Condition ℕ := {}
  notFull : Condition P := {}
  entered : List P := []

namespace Monitor

/-- A step of the pool, with the number that picks the thread `notify_one` notifies in it; or a spurious
wakeup. -/
inductive Act (P τ : Type*) where
  | pool (a : ThreadPool.Act P τ) (i : ℕ)
  | wakeupProducer (p : P)
  | wakeupWorker (w : ℕ)
  deriving DecidableEq, Repr

variable {P τ : Type*}

def start (maxQueueSize numThreads : ℕ) : Monitor P τ := { pool := .start maxQueueSize numThreads }

section
variable [DecidableEq P] (s : Monitor P τ)

/-- The thread of the step waits, and nothing has woken it. -/
def blocked : ThreadPool.Act P τ → Bool
  | .producer p .lock => p ∈ s.notFull.waiting
  | .worker w .lock => w ∈ s.notEmpty.waiting
  | _ => false

/-- `Run` behind the test of `running_`. -/
def enter (p : P) (pool : ThreadPool P τ) : Monitor P τ :=
  if s.pool.running && s.pool.numThreads != 0 then { s with pool, entered := s.entered ++ [p] }
  else { s with pool }

/-- The section of `Run`: `not_full_.wait(lock)`, or `not_empty_.notify_one()` behind the push. -/
def push (p : P) (i : ℕ) (pool : ThreadPool P τ) : Monitor P τ :=
  if s.pool.isFull then { s with pool, notFull := (s.notFull.resume p).wait p }
  else { s with
    pool, notFull := s.notFull.resume p, notEmpty := s.notEmpty.notifyOne i, entered := s.entered.erase p }

/-- The section of `Take`: `not_empty_.wait(lock)`, or `not_full_.notify_one()` behind the pop. -/
def take (w i : ℕ) (pool : ThreadPool P τ) : Monitor P τ :=
  match s.pool.taskQueue with
  | [] =>
    if s.pool.running then { s with pool, notEmpty := (s.notEmpty.resume w).wait w }
    else { s with pool, notEmpty := s.notEmpty.resume w }
  | _ :: _ =>
    { s with
      pool, notEmpty := s.notEmpty.resume w
      notFull := if s.pool.maxQueueSize > 0 then s.notFull.notifyOne i else s.notFull }

/-- `pool` is the pool behind the step. -/
def signal (i : ℕ) (pool : ThreadPool P τ) : ThreadPool.Act P τ → Monitor P τ
  | .producer p .test => s.enter p pool
  | .producer p .lock => s.push p i pool
  | .producer _ _ => { s with pool }
  | .worker w .lock => s.take w i pool
  | .worker _ _ => { s with pool }
  | .stop => { s with pool, notEmpty := s.notEmpty.notifyAll }

def step : Act P τ → Option (Monitor P τ)
  | .pool a i => if s.blocked a then none else (s.pool.step a).map fun pool => s.signal i pool a
  | .wakeupProducer p =>
    if p ∈ s.notFull.waiting then some { s with notFull := s.notFull.wakeup p } else none
  | .wakeupWorker w =>
    if w ∈ s.notEmpty.waiting then some { s with notEmpty := s.notEmpty.wakeup w } else none

end

def run [DecidableEq P] : Monitor P τ → List (Act P τ) → Option (Monitor P τ) := Run.run step

/-! ### The pool below -/

section
variable {s s' : ThreadPool P τ} {p : P} {w : ℕ}

/-- The condition variables and the number of jobs on the way depend on these fields only. -/
structure Frame (s s' : ThreadPool P τ) : Prop where
  maxQueueSize : s'.maxQueueSize = s.maxQueueSize
  numThreads : s'.numThreads = s.numThreads
  running : s'.running = s.running
  taskQueue : s'.taskQueue = s.taskQueue

theorem frame_execute (job : Job τ) : Frame s (s.execute job) ∧
    (s.execute job).producer = s.producer ∧ (s.execute job).worker = s.worker := by
  unfold ThreadPool.execute
  split_ifs <;> exact ⟨⟨rfl, rfl, rfl, rfl⟩, rfl, rfl⟩

/-- A worker outside of `Take` goes on; it gets into `Take` if it finds the pool running. -/
theorem workerStep_outside {a : ThreadPool.WorkerAct} (h : s.workerStep w a = some s') (ha : a ≠ .lock) :
    Frame s s' ∧ s'.producer = s.producer ∧ (s.worker w).takes = 0 ∧
      ∃ x, s'.worker = Function.update s.worker w x ∧
        x.takes = if a = .test ∧ s.running then 1 else 0 := by
  cases a with
  | test =>
    simp only [ThreadPool.workerStep] at h
    split at h
    · rename_i hw
      cases h
      refine ⟨⟨rfl, rfl, rfl, rfl⟩, rfl, by rw [hw]; rfl, _, rfl, ?_⟩
      cases s.running <;> simp [Worker.takes]
    · cases h
  | lock => exact absurd rfl ha
  | execute =>
    simp only [ThreadPool.workerStep] at h
    split at h
    · rename_i hw
      cases h
      exact ⟨⟨rfl, rfl, rfl, rfl⟩, rfl, by rw [hw]; rfl, _, rfl, by simp [Worker.takes]⟩
    · rename_i job hw
      cases h
      obtain ⟨hframe, hproducer, hworker⟩ := frame_execute (s := s) job
      refine ⟨{ hframe with }, hproducer, by rw [hw]; rfl, .test, ?_, by simp [Worker.takes]⟩
      show Function.update (s.execute job).worker w .test = _
      rw [hworker]
    · cases h

/-- The section of `Take` is entered from `Take`. -/
theorem workerStep_lock (h : s.workerStep w .lock = some s') :
    (s.worker w).takes = 1 ∧ s' = s.take w := by
  simp only [ThreadPool.workerStep] at h
  split at h
  · rename_i hw
    cases h
    exact ⟨by rw [hw]; rfl, rfl⟩
  · rename_i hw
    cases h
    exact ⟨by rw [hw]; rfl, rfl⟩
  · cases h

variable [DecidableEq P]

/-- A producer outside of the section of `Run` goes on; it gets inside if it finds the pool running. -/
theorem runStep_outside {a : ThreadPool.ProducerAct τ} (h : s.runStep p a = some s') (ha : a ≠ .lock) :
    Frame s s' ∧ s'.worker = s.worker ∧ (s.producer p).inside = false ∧
      ∃ x, s'.producer = Function.update s.producer p x ∧
        (x.inside = true ↔ a = .test ∧ (s.running && s.numThreads != 0) = true) := by
  cases a with
  | call task =>
    simp only [ThreadPool.runStep] at h
    split at h
    · rename_i hp
      cases h
      exact ⟨⟨rfl, rfl, rfl, rfl⟩, rfl, by rw [hp]; rfl, _, rfl, by simp [Producer.inside]⟩
    · cases h
  | assert =>
    simp only [ThreadPool.runStep] at h
    split at h
    · rename_i hp
      cases h
      exact ⟨⟨rfl, rfl, rfl, rfl⟩, rfl, by rw [hp]; rfl, _, rfl, by simp [Producer.inside]⟩
    · cases h
  | test =>
    simp only [ThreadPool.runStep] at h
    split at h
    · rename_i job hp
      cases h
      have hout : (s.producer p).inside = false := by rw [hp]; rfl
      split_ifs with hrun hthreads
      · exact ⟨⟨rfl, rfl, rfl, rfl⟩, rfl, hout, .idle, rfl, by simp_all [Producer.inside]⟩
      · obtain ⟨hframe, hproducer, hworker⟩ := frame_execute (s := s) job
        refine ⟨{ hframe with }, hworker, hout, .idle, ?_, by simp [Producer.inside, hthreads]⟩
        show Function.update (s.execute job).producer p .idle = _
        rw [hproducer]
      · exact ⟨⟨rfl, rfl, rfl, rfl⟩, rfl, hout, .tested job, rfl, by simp_all [Producer.inside]⟩
    · cases h
  | lock => exact absurd rfl ha

/-- The section of `Run` is entered behind the test. -/
theorem runStep_lock (h : s.runStep p .lock = some s') :
    (s.producer p).inside = true ∧ ∃ job, s' = s.push p job := by
  simp only [ThreadPool.runStep] at h
  split at h
  · rename_i job hp
    cases h
    exact ⟨by rw [hp]; rfl, job, rfl⟩
  · rename_i job hp
    cases h
    exact ⟨by rw [hp]; rfl, job, rfl⟩
  · cases h

end

variable {s s' : Monitor P τ} {M n : ℕ} {p : P} {w i : ℕ} {pool : ThreadPool P τ}
  {act : Act P τ} {acts : List (Act P τ)}

@[simp] theorem enter_pool : (s.enter p pool).pool = pool := by
  unfold enter
  split_ifs <;> rfl

@[simp] theorem take_pool : (s.take w i pool).pool = pool := by
  unfold take
  split
  · split_ifs <;> rfl
  · rfl

section
variable [DecidableEq P]

@[simp] theorem push_pool : (s.push p i pool).pool = pool := by
  unfold push
  split_ifs <;> rfl

@[simp] theorem signal_pool {a : ThreadPool.Act P τ} : (s.signal i pool a).pool = pool := by
  unfold signal
  split <;> simp

/-- A step of the pool with its condition variables is a step of the pool, or leaves it as it is. -/
theorem step_pool (h : s.step act = some s') :
    (∃ a, s.pool.step a = some s'.pool) ∨ s'.pool = s.pool := by
  cases act with
  | pool a i =>
    obtain ⟨-, h⟩ := Option.ite_none_left_eq_some.mp h
    obtain ⟨pool, hpool, rfl⟩ := Option.map_eq_some_iff.mp h
    exact Or.inl ⟨a, by rw [signal_pool, hpool]⟩
  | wakeupProducer p =>
    obtain ⟨-, h⟩ := Option.ite_none_right_eq_some.mp h
    cases h
    exact Or.inr rfl
  | wakeupWorker w =>
    obtain ⟨-, h⟩ := Option.ite_none_right_eq_some.mp h
    cases h
    exact Or.inr rfl

/-- A run of the pool with its condition variables is a run of the pool. -/
theorem run_pool : ∀ {acts : List (Act P τ)} {s s' : Monitor P τ}, run s acts = some s' →
    ∃ as, ThreadPool.run s.pool as = some s'.pool
  | [], s, s', h => by
    cases h
    exact ⟨[], rfl⟩
  | act :: acts, s, s', h => by
    obtain ⟨m, hm, hrest⟩ := Option.bind_eq_some_iff.mp h
    obtain ⟨as, has⟩ := run_pool hrest
    rcases step_pool hm with ⟨a, ha⟩ | heq
    · exact ⟨a :: as, by rw [ThreadPool.run, Run.run_cons, ha]; exact has⟩
    · exact ⟨as, heq ▸ has⟩

end

/-! ### The invariant

The threads of the condition variables wait; while there is a task, some worker does not; and while a
producer waits, the free slots are no more than the notified producers. -/

structure Inv (M n : ℕ) (s : Monitor P τ) : Prop where
  size : s.pool.maxQueueSize = M
  threads : s.pool.numThreads = n
  inside : ∀ p, p ∈ s.entered ↔ (s.pool.producer p).inside = true
  nodup : s.entered.Nodup
  notFull : s.notFull.WellFormed
  notEmpty : s.notEmpty.WellFormed
  producers : ∀ p ∈ s.notFull.threads, ∃ job, s.pool.producer p = .waiting job
  workers : ∀ w ∈ s.notEmpty.threads, w < n ∧ s.pool.worker w = .waiting
  awake : 0 < n → s.pool.taskQueue ≠ [] → ∃ w < n, w ∉ s.notEmpty.waiting
  slots : s.notFull.waiting ≠ [] → M ≤ s.pool.taskQueue.length + s.notFull.notified.length

theorem inv_start : (start M n : Monitor P τ).Inv M n where
  size := rfl
  threads := rfl
  inside := by simp [start, ThreadPool.start, Producer.inside]
  nodup := List.nodup_nil
  notFull := List.nodup_nil
  notEmpty := List.nodup_nil
  producers := by simp [start, Condition.threads]
  workers := by simp [start, Condition.threads]
  awake := by simp [start, ThreadPool.start]
  slots := by simp [start]

/-- A thread of `not_full_` is inside of `Run`. -/
theorem Inv.mem_entered (h : s.Inv M n) (hp : p ∈ s.notFull.threads) : p ∈ s.entered := by
  obtain ⟨job, hjob⟩ := h.producers p hp
  rw [h.inside, hjob]
  rfl

/-- A worker that does not wait goes on. -/
theorem Inv.worker (h : s.Inv M n) (hf : Frame s.pool pool) (hproducer : pool.producer = s.pool.producer)
    (hw : w ∉ s.notEmpty.threads) {x : Worker τ} (hx : pool.worker = Function.update s.pool.worker w x) :
    ({ s with pool } : Monitor P τ).Inv M n := by
  refine ⟨hf.maxQueueSize.trans h.size, hf.numThreads.trans h.threads, ?_, h.nodup, h.notFull,
    h.notEmpty, ?_, fun v hv => ?_, ?_, ?_⟩
  · show ∀ q, q ∈ s.entered ↔ (pool.producer q).inside = true
    rw [hproducer]
    exact h.inside
  · show ∀ q ∈ s.notFull.threads, ∃ job, pool.producer q = .waiting job
    rw [hproducer]
    exact h.producers
  · show v < n ∧ pool.worker v = .waiting
    rw [hx, Function.update_of_ne]
    · exact h.workers v hv
    · rintro rfl
      exact hw hv
  · show 0 < n → pool.taskQueue ≠ [] → _
    rw [hf.taskQueue]
    exact h.awake
  · show s.notFull.waiting ≠ [] → M ≤ pool.taskQueue.length + _
    rw [hf.taskQueue]
    exact h.slots

/-- The section of `Take`. -/
theorem Inv.take (h : s.Inv M n) (hM : 0 < M) (hw : w < n) (hwait : w ∉ s.notEmpty.waiting) :
    (s.take w i (s.pool.take w)).Inv M n := by
  have hgone : w ∉ (s.notEmpty.resume w).threads := h.notEmpty.notMem_resume hwait
  have hother : ∀ v ∈ (s.notEmpty.resume w).threads, ∀ x : Worker τ,
      v < n ∧ Function.update s.pool.worker w x v = .waiting := by
    intro v hv x
    rw [Function.update_of_ne]
    · exact h.workers v (Condition.mem_resume hv)
    · rintro rfl
      exact hgone hv
  unfold Monitor.take ThreadPool.take
  cases hq : s.pool.taskQueue with
  | nil =>
    have hnil : ∀ t : ThreadPool P τ, t.taskQueue = s.pool.taskQueue → ¬ t.taskQueue ≠ [] := by
      intro t ht
      rw [ht, hq]
      exact fun hne => hne rfl
    cases s.pool.running with
    | true =>
      refine ⟨h.size, h.threads, h.inside, h.nodup, h.notFull, h.notEmpty.resume.wait hgone,
        h.producers, fun v hv => ?_, fun _ hne => absurd hne (hnil _ rfl), h.slots⟩
      rcases Condition.mem_wait.mp hv with rfl | hv
      · exact ⟨hw, Function.update_self _ _ _⟩
      · exact hother v hv _
    | false =>
      exact ⟨h.size, h.threads, h.inside, h.nodup, h.notFull, h.notEmpty.resume, h.producers,
        fun v hv => hother v hv _, fun _ hne => absurd hne (hnil _ rfl), h.slots⟩
  | cons job rest =>
    have hpos : s.pool.maxQueueSize > 0 := h.size ▸ hM
    simp only [if_pos hpos]
    refine ⟨h.size, h.threads, h.inside, h.nodup, h.notFull.notifyOne, h.notEmpty.resume,
      fun q hq => h.producers q (Condition.mem_notifyOne.mp hq), fun v hv => hother v hv _,
      fun _ _ => ⟨w, hw, hwait⟩, fun hne => ?_⟩
    have hne : s.notFull.waiting ≠ [] := by
      intro hnil
      rw [Condition.notifyOne_of_nil hnil] at hne
      exact hne hnil
    show M ≤ rest.length + (s.notFull.notifyOne i).notified.length
    have hslots := h.slots hne
    rw [hq, List.length_cons] at hslots
    rw [Condition.length_notifyOne hne]
    omega

theorem Inv.stop (h : s.Inv M n) :
    ({ s with pool := s.pool.stop, notEmpty := s.notEmpty.notifyAll } : Monitor P τ).Inv M n :=
  ⟨h.size, h.threads, h.inside, h.nodup, h.notFull, h.notEmpty.notifyAll, h.producers,
    fun v hv => h.workers v (Condition.mem_notifyAll.mp hv), fun hn _ => ⟨0, hn, by simp [Condition.notifyAll]⟩,
    h.slots⟩

theorem Inv.wakeupWorker (h : s.Inv M n) :
    ({ s with notEmpty := s.notEmpty.wakeup w } : Monitor P τ).Inv M n :=
  { h with
    notEmpty := h.notEmpty.wakeup
    workers := fun v hv => h.workers v (Condition.mem_wakeup hv)
    awake := fun hn hne => (h.awake hn hne).imp fun _ hv =>
      ⟨hv.1, fun hmem => hv.2 (Condition.wakeup_waiting_subset hmem)⟩ }

variable [DecidableEq P]

/-- A producer outside of the section goes on, and may get inside. -/
theorem Inv.outside (h : s.Inv M n) (hf : Frame s.pool pool) (hworker : pool.worker = s.pool.worker)
    (hp : (s.pool.producer p).inside = false) {x : Producer τ}
    (hx : pool.producer = Function.update s.pool.producer p x) :
    ({ s with pool, entered := if x.inside then s.entered ++ [p] else s.entered } :
      Monitor P τ).Inv M n := by
  have hnot : p ∉ s.entered := by simp [h.inside, hp]
  have hout : ∀ q ∈ s.notFull.threads, pool.producer q = s.pool.producer q := by
    intro q hq
    rw [hx, Function.update_of_ne]
    rintro rfl
    exact hnot (h.mem_entered hq)
  refine ⟨hf.maxQueueSize.trans h.size, hf.numThreads.trans h.threads, fun q => ?_, ?_, h.notFull,
    h.notEmpty, fun q hq => ?_, fun v hv => ?_, ?_, ?_⟩
  · show q ∈ (if x.inside then s.entered ++ [p] else s.entered) ↔ (pool.producer q).inside = true
    rw [hx]
    rcases eq_or_ne q p with rfl | hne
    · cases hin : x.inside <;> simp [hin, hnot]
    · rw [Function.update_of_ne hne, ← h.inside]
      split_ifs <;> simp [hne]
  · show (if x.inside then s.entered ++ [p] else s.entered).Nodup
    split_ifs
    · exact h.nodup.append (List.nodup_singleton _) (by simpa using hnot)
    · exact h.nodup
  · rw [show (pool.producer q) = s.pool.producer q from hout q hq]
    exact h.producers q hq
  · show v < n ∧ pool.worker v = .waiting
    rw [hworker]
    exact h.workers v hv
  · show 0 < n → pool.taskQueue ≠ [] → _
    rw [hf.taskQueue]
    exact h.awake
  · show s.notFull.waiting ≠ [] → M ≤ pool.taskQueue.length + _
    rw [hf.taskQueue]
    exact h.slots

/-- The section of `Run`. A waiter of `not_full_` uses its own notification, if it had one. -/
theorem Inv.push (h : s.Inv M n) (hM : 0 < M) (hp : (s.pool.producer p).inside = true)
    (hwait : p ∉ s.notFull.waiting) (job : Job τ) : (s.push p i (s.pool.push p job)).Inv M n := by
  have hgone : p ∉ (s.notFull.resume p).threads := h.notFull.notMem_resume hwait
  have hother : ∀ q ∈ (s.notFull.resume p).threads, ∀ x : Producer τ,
      ∃ job, Function.update s.pool.producer p x q = .waiting job := by
    intro q hq x
    rw [Function.update_of_ne]
    · exact h.producers q (Condition.mem_resume hq)
    · rintro rfl
      exact hgone hq
  unfold Monitor.push ThreadPool.push
  split_ifs with hfull
  · have hlen : M ≤ s.pool.taskQueue.length := by
      simp only [ThreadPool.isFull, h.size] at hfull
      simpa [hM] using hfull
    refine ⟨h.size, h.threads, fun q => ?_, h.nodup, h.notFull.resume.wait hgone, h.notEmpty,
      fun q hq => ?_, h.workers, h.awake, fun _ => hlen.trans (Nat.le_add_right _ _)⟩
    · show q ∈ s.entered ↔ (Function.update s.pool.producer p (.waiting job) q).inside = true
      rcases eq_or_ne q p with rfl | hne
      · simpa [Producer.inside] using (h.inside q).mpr hp
      · rw [Function.update_of_ne hne]
        exact h.inside q
    · rcases Condition.mem_wait.mp hq with rfl | hq
      · exact ⟨job, Function.update_self _ _ _⟩
      · exact hother q hq _
  · refine ⟨h.size, h.threads, fun q => ?_, h.nodup.erase _, h.notFull.resume, h.notEmpty.notifyOne,
      fun q hq => hother q hq _, fun v hv => h.workers v (Condition.mem_notifyOne.mp hv), fun hn _ => ?_,
      fun hne => ?_⟩
    · show q ∈ s.entered.erase p ↔ (Function.update s.pool.producer p .idle q).inside = true
      rw [h.nodup.mem_erase_iff]
      rcases eq_or_ne q p with rfl | hne
      · simp [Producer.inside]
      · simpa [hne] using h.inside q
    · rcases eq_or_ne s.notEmpty.waiting [] with hnil | hne
      · refine ⟨0, hn, fun hmem => ?_⟩
        simpa [hnil] using Condition.notifyOne_waiting_subset hmem
      · obtain ⟨v, hv, hnot⟩ := h.notEmpty.exists_notifyOne (i := i) hne
        exact ⟨v, (h.workers v (Condition.mem_threads.mpr (Or.inl hv))).1, hnot⟩
    · show M ≤ (s.pool.taskQueue ++ [job]).length + (s.notFull.resume p).notified.length
      have hslots := h.slots hne
      have hresume := Condition.length_resume (c := s.notFull) (a := p)
      rw [List.length_append, List.length_singleton]
      omega

theorem Inv.wakeupProducer (h : s.Inv M n) :
    ({ s with notFull := s.notFull.wakeup p } : Monitor P τ).Inv M n :=
  { h with
    notFull := h.notFull.wakeup
    producers := fun q hq => h.producers q (Condition.mem_wakeup hq)
    slots := fun hne => h.slots (mt (fun hnil => by simp [Condition.wakeup, hnil]) hne) }

theorem Inv.runStep (h : s.Inv M n) (hM : 0 < M) {a : ThreadPool.ProducerAct τ}
    (hb : ¬ s.blocked (.producer p a) = true) (hs : s.pool.runStep p a = some pool) :
    (s.signal i pool (.producer p a)).Inv M n := by
  cases a with
  | call task =>
    obtain ⟨hf, hworker, hp, x, hx, hin⟩ := runStep_outside hs (by simp)
    have hout := h.outside hf hworker hp hx
    rwa [if_neg (by simp [hin])] at hout
  | assert =>
    obtain ⟨hf, hworker, hp, x, hx, hin⟩ := runStep_outside hs (by simp)
    have hout := h.outside hf hworker hp hx
    rwa [if_neg (by simp [hin])] at hout
  | test =>
    obtain ⟨hf, hworker, hp, x, hx, hin⟩ := runStep_outside hs (by simp)
    have hout := h.outside hf hworker hp hx
    show (s.enter p pool).Inv M n
    unfold enter
    split_ifs with hrun
    · rwa [if_pos (hin.mpr ⟨rfl, hrun⟩)] at hout
    · rwa [if_neg fun hx => hrun (hin.mp hx).2] at hout
  | lock =>
    obtain ⟨hp, job, rfl⟩ := runStep_lock hs
    exact h.push hM hp (by simpa [blocked] using hb) job

theorem Inv.workerStep (h : s.Inv M n) (hM : 0 < M) (hw : w < n) {a : ThreadPool.WorkerAct}
    (hb : ¬ s.blocked (.worker w a) = true) (hs : s.pool.workerStep w a = some pool) :
    (s.signal i pool (.worker w a)).Inv M n := by
  have hnot : (s.pool.worker w).takes = 0 → w ∉ s.notEmpty.threads := by
    intro h0 hmem
    rw [(h.workers w hmem).2] at h0
    exact absurd h0 one_ne_zero
  cases a with
  | test =>
    obtain ⟨hf, hproducer, h0, x, hx, -⟩ := workerStep_outside hs (by simp)
    exact h.worker hf hproducer (hnot h0) hx
  | lock =>
    obtain ⟨-, rfl⟩ := workerStep_lock hs
    exact h.take hM hw (by simpa [blocked] using hb)
  | execute =>
    obtain ⟨hf, hproducer, h0, x, hx, -⟩ := workerStep_outside hs (by simp)
    exact h.worker hf hproducer (hnot h0) hx

theorem Inv.step (h : s.Inv M n) (hM : 0 < M) (hs : s.step act = some s') :
    s'.Inv M n := by
  cases act with
  | pool a i =>
    obtain ⟨hb, hs⟩ := Option.ite_none_left_eq_some.mp hs
    obtain ⟨pool, hpool, rfl⟩ := Option.map_eq_some_iff.mp hs
    cases a with
    | producer p a => exact h.runStep hM hb hpool
    | worker w a =>
      obtain ⟨hw, hpool⟩ := Option.ite_none_right_eq_some.mp hpool
      exact h.workerStep hM (h.threads ▸ hw) hb hpool
    | stop =>
      cases hpool
      exact h.stop
  | wakeupProducer p =>
    obtain ⟨-, hs⟩ := Option.ite_none_right_eq_some.mp hs
    cases hs
    exact h.wakeupProducer
  | wakeupWorker w =>
    obtain ⟨-, hs⟩ := Option.ite_none_right_eq_some.mp hs
    cases hs
    exact h.wakeupWorker

theorem inv_run (hM : 0 < M) (hr : run (start M n) acts = some s) : s.Inv M n :=
  Run.run_inv (fun _ _ _ hs h => Inv.step h hM hs) hr inv_start

/-- **No notification is lost.** In every run of a pool with a positive `max_queue_size_` and some
worker there is no state with a task in the queue in which every worker waits on `not_empty_`, neither
notified nor awake; and none in which a producer waits on `not_full_`, the queue has a free slot and
no producer has been notified and is about to resume. Between two steps nobody holds the mutex. -/
theorem notifications_kept (hM : 0 < M) (hn : 0 < n) (hr : run (start M n) acts = some s) :
    ¬ (s.pool.taskQueue ≠ [] ∧ ∀ w < n, w ∈ s.notEmpty.waiting) ∧
      ¬ (s.notFull.waiting ≠ [] ∧ s.pool.taskQueue.length < M ∧ s.notFull.notified = []) := by
  have h := inv_run hM hr
  constructor
  · rintro ⟨hne, hall⟩
    obtain ⟨w, hw, hnot⟩ := h.awake hn hne
    exact hnot (hall w hw)
  · rintro ⟨hne, hlt, hnil⟩
    have hslots := h.slots hne
    rw [hnil, List.length_nil] at hslots
    omega

/-- One worker and a queue of one: the worker waits for the first job, the second `Run` for its slot,
and both are notified. -/
theorem notifications_kept_of_two : ∃ s : Monitor Bool ℕ,
    run (start 1 1) [.pool (.worker 0 .test) 0, .pool (.worker 0 .lock) 0,
      .pool (.producer true (.call (some 5))) 0, .pool (.producer true .assert) 0,
      .pool (.producer true .test) 0, .pool (.producer true .lock) 0,
      .pool (.producer false (.call (some 6))) 0, .pool (.producer false .assert) 0,
      .pool (.producer false .test) 0, .pool (.producer false .lock) 0] = some s ∧
    s.pool.taskQueue = [⟨0, some 5⟩] ∧ s.notEmpty = ⟨[], [0]⟩ ∧ s.notFull = ⟨[false], []⟩ ∧
    ¬ (s.pool.taskQueue ≠ [] ∧ ∀ w < 1, w ∈ s.notEmpty.waiting) ∧
      ¬ (s.notFull.waiting ≠ [] ∧ s.pool.taskQueue.length < 1 ∧ s.notFull.notified = []) := by
  obtain ⟨s, hr, hqueue, hempty, hfull⟩ : ∃ s : Monitor Bool ℕ,
      run (start 1 1) [.pool (.worker 0 .test) 0, .pool (.worker 0 .lock) 0,
        .pool (.producer true (.call (some 5))) 0, .pool (.producer true .assert) 0,
        .pool (.producer true .test) 0, .pool (.producer true .lock) 0,
        .pool (.producer false (.call (some 6))) 0, .pool (.producer false .assert) 0,
        .pool (.producer false .test) 0, .pool (.producer false .lock) 0] = some s ∧
      s.pool.taskQueue = [⟨0, some 5⟩] ∧ s.notEmpty = ⟨[], [0]⟩ ∧ s.notFull = ⟨[false], []⟩ :=
    ⟨_, rfl, by decide, by decide, by decide⟩
  exact ⟨s, hr, hqueue, hempty, hfull, notifications_kept one_pos one_pos hr⟩

end Monitor

end MuduoCpp11.Base
