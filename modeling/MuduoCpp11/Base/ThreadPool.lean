import MuduoCpp11.Lib.Run

/-! # The thread pool

Producers call `Run`, which tests `running_`, takes the mutex and appends to `task_queue_` unless it is
full; workers go around in `RunInThread`, which takes a task from the front and executes it. A section
under the mutex is one step, up to its end or to a wait on a condition variable; the tests of
`running_` outside of the mutex are steps of their own, so that `Stop` can come between any two of
them. A waiting thread may wake up at any time: a notification is one reason for it, and a spurious
wakeup needs none.

A call of `Run` has a number, and its task is followed by that number: it is pushed or, if the test
finds that the pool has been stopped, rejected; what has been pushed is in the queue, held by a worker
or done (`queue_discipline`). -/

namespace MuduoCpp11.Base

open MuduoCpp11.Lib

/-- The argument of a call of `Run`: a `std::function<void ()>`, `none` if it is empty. -/
structure Job (τ : Type*) where
  call : ℕ
  task : Option τ
  deriving DecidableEq, Repr

/-- The next statement of a thread in `Run`. -/
inductive Producer (τ : Type*) where
  | idle
  | called (job : Job τ)
  | asserted (job : Job τ)
  | tested (job : Job τ)
  | waiting (job : Job τ)
  deriving DecidableEq, Repr

/-- The job a producer brings. -/
def Producer.job {τ : Type*} : Producer τ → Option (Job τ)
  | .idle => none
  | .called job => some job
  | .asserted job => some job
  | .tested job => some job
  | .waiting job => some job

/-- The next statement of a thread in `RunInThread`; `holding` is behind `Take`, with its result. -/
inductive Worker (τ : Type*) where
  | test
  | taking
  | waiting
  | holding (job : Option (Job τ))
  | ended
  deriving DecidableEq, Repr

/-- `numThreads` is the size of `threads_`. The lists are the history of the pool: the pushed jobs, the
jobs `Take` has returned, those whose task has been executed or was empty, and the calls of `Run` that
have returned, `rejected` the ones that did so at the test of `running_`. -/
structure ThreadPool (P τ : Type*) where
  maxQueueSize : ℕ
  numThreads : ℕ
  running : Bool := true
  taskQueue : List (Job τ) := []
  producer : P → Producer τ := fun _ => .idle
  worker : ℕ → Worker τ := fun _ => .test
  calls : ℕ := 0
  assertFailed : Bool := false
  pushed : List (Job τ) := []
  taken : List (Job τ) := []
  executed : List (Job τ) := []
  dropped : List (Job τ) := []
  returned : List (Job τ) := []
  rejected : List (Job τ) := []

namespace ThreadPool

inductive ProducerAct (τ : Type*) where
  | call (task : Option τ)
  | assert
  | test
  | lock
  deriving DecidableEq, Repr

inductive WorkerAct where
  | test
  | lock
  | execute
  deriving DecidableEq, Repr

inductive Act (P τ : Type*) where
  | producer (p : P) (a : ProducerAct τ)
  | worker (w : ℕ) (a : WorkerAct)
  | stop
  deriving DecidableEq, Repr

variable {P τ : Type*}

/-- The pool behind `Start(num_threads)`. -/
def start (maxQueueSize numThreads : ℕ) : ThreadPool P τ := { maxQueueSize, numThreads }

section
variable (s : ThreadPool P τ)

def isFull : Bool := s.maxQueueSize > 0 && s.taskQueue.length ≥ s.maxQueueSize

def setWorker (w : ℕ) (x : Worker τ) : ThreadPool P τ :=
  { s with worker := Function.update s.worker w x }

/-- The task is called, unless it is empty. -/
def execute (job : Job τ) : ThreadPool P τ :=
  if job.task.isSome then { s with executed := s.executed ++ [job] }
  else { s with dropped := s.dropped ++ [job] }

/-- The section of `Take` from the lock, or from a wakeup. -/
def take (w : ℕ) : ThreadPool P τ :=
  match s.taskQueue with
  | [] => if s.running then s.setWorker w .waiting else s.setWorker w (.holding none)
  | job :: rest =>
    { s.setWorker w (.holding (some job)) with taskQueue := rest, taken := s.taken ++ [job] }

def workerStep (w : ℕ) : WorkerAct → Option (ThreadPool P τ)
  | .test =>
    match s.worker w with
    | .test => some (s.setWorker w (if s.running then .taking else .ended))
    | _ => none
  | .lock =>
    match s.worker w with
    | .taking => some (s.take w)
    | .waiting => some (s.take w)
    | _ => none
  | .execute =>
    match s.worker w with
    | .holding none => some (s.setWorker w .test)
    | .holding (some job) => some ((s.execute job).setWorker w .test)
    | _ => none

/-- `Stop` up to the joins. -/
def stop : ThreadPool P τ := { s with running := false }

end

section
variable [DecidableEq P] (s : ThreadPool P τ)

def setProducer (p : P) (x : Producer τ) : ThreadPool P τ :=
  { s with producer := Function.update s.producer p x }

/-- `Run` returns. -/
def returns (p : P) (job : Job τ) : ThreadPool P τ :=
  { s.setProducer p .idle with returned := s.returned ++ [job] }

/-- The section of `Run` from the lock, or from a wakeup. -/
def push (p : P) (job : Job τ) : ThreadPool P τ :=
  if s.isFull then s.setProducer p (.waiting job)
  else { s with taskQueue := s.taskQueue ++ [job], pushed := s.pushed ++ [job] }.returns p job

def runStep (p : P) : ProducerAct τ → Option (ThreadPool P τ)
  | .call task =>
    match s.producer p with
    | .idle => some { s.setProducer p (.called ⟨s.calls, task⟩) with calls := s.calls + 1 }
    | _ => none
  | .assert =>
    match s.producer p with
    | .called job =>
      some { s.setProducer p (.asserted job) with assertFailed := s.assertFailed || !s.running }
    | _ => none
  | .test =>
    match s.producer p with
    | .asserted job =>
      some (if !s.running then { s with rejected := s.rejected ++ [job] }.returns p job
        else if s.numThreads = 0 then (s.execute job).returns p job
        else s.setProducer p (.tested job))
    | _ => none
  | .lock =>
    match s.producer p with
    | .tested job => some (s.push p job)
    | .waiting job => some (s.push p job)
    | _ => none

def step : Act P τ → Option (ThreadPool P τ)
  | .producer p a => s.runStep p a
  | .worker w a => if w < s.numThreads then s.workerStep w a else none
  | .stop => some s.stop

end

def run [DecidableEq P] : ThreadPool P τ → List (Act P τ) → Option (ThreadPool P τ) := Run.run step

/-! ### What a step does -/

section
variable {s : ThreadPool P τ}

@[simp] theorem setWorker_self (w : ℕ) (x : Worker τ) : (s.setWorker w x).worker w = x :=
  Function.update_self _ _ _

theorem setWorker_of_ne {w v : ℕ} (h : v ≠ w) (x : Worker τ) :
    (s.setWorker w x).worker v = s.worker v :=
  Function.update_of_ne h _ _

@[simp] theorem setProducer_self [DecidableEq P] (p : P) (x : Producer τ) :
    (s.setProducer p x).producer p = x :=
  Function.update_self _ _ _

theorem setProducer_of_ne [DecidableEq P] {p q : P} (h : q ≠ p) (x : Producer τ) :
    (s.setProducer p x).producer q = s.producer q :=
  Function.update_of_ne h _ _

end

/-! ### The queue

The jobs that producers bring are new; what has been pushed has been taken or is in the queue. -/

structure Queue (M : ℕ) (s : ThreadPool P τ) : Prop where
  size : s.maxQueueSize = M
  pos : 0 < M
  bound : s.taskQueue.length ≤ M
  threads : 0 < s.numThreads
  fifo : s.pushed = s.taken ++ s.taskQueue
  nodup : s.pushed.Nodup
  old : ∀ j ∈ s.pushed, j.call < s.calls
  brought : ∀ p j, (s.producer p).job = some j → j.call < s.calls ∧ j ∉ s.pushed
  distinct : ∀ p q j, (s.producer p).job = some j → (s.producer q).job = some j → p = q
  returned : ∀ j ∈ s.returned, j ∈ s.pushed ∨ j ∈ s.rejected

variable {s s' : ThreadPool P τ} {M : ℕ}

theorem queue_start {n : ℕ} (hM : 0 < M) (hn : 0 < n) : (start M n : ThreadPool P τ).Queue M where
  size := rfl
  pos := hM
  bound := Nat.zero_le _
  threads := hn
  fifo := rfl
  nodup := List.nodup_nil
  old := by simp [start]
  brought := by simp [start, Producer.job]
  distinct := by simp [start, Producer.job]
  returned := by simp [start]

section
variable [DecidableEq P] {p : P} {job : Job τ}

/-- A producer goes on with the job it has. -/
theorem Queue.setProducer (h : s.Queue M) {x : Producer τ} (hx : x.job = (s.producer p).job) :
    (s.setProducer p x).Queue M := by
  have hjob : ∀ q, ((s.setProducer p x).producer q).job = (s.producer q).job := by
    intro q
    rcases eq_or_ne q p with rfl | hne
    · rw [setProducer_self, hx]
    · rw [setProducer_of_ne hne]
  refine ⟨h.size, h.pos, h.bound, h.threads, h.fifo, h.nodup, h.old, fun q j hq => ?_,
    fun q r j hq hr => ?_, h.returned⟩
  · rw [hjob] at hq
    exact h.brought q j hq
  · rw [hjob] at hq hr
    exact h.distinct q r j hq hr

/-- A producer brings a new job. -/
theorem Queue.call (h : s.Queue M) (task : Option τ) :
    ({ s.setProducer p (.called ⟨s.calls, task⟩) with calls := s.calls + 1 } :
      ThreadPool P τ).Queue M := by
  have hother : ∀ q j, q ≠ p → ((s.setProducer p (.called ⟨s.calls, task⟩)).producer q).job = some j →
      j.call < s.calls ∧ j ∉ s.pushed := by
    intro q j hne hq
    rw [setProducer_of_ne hne] at hq
    exact h.brought q j hq
  have hself : ∀ j, ((s.setProducer p (.called ⟨s.calls, task⟩)).producer p).job = some j →
      j = ⟨s.calls, task⟩ := by
    intro j hj
    rw [setProducer_self] at hj
    exact (Option.some.inj hj).symm
  refine ⟨h.size, h.pos, h.bound, h.threads, h.fifo, h.nodup,
    fun j hj => (h.old j hj).trans (Nat.lt_succ_self _), fun q j hq => ?_, fun q r j hq hr => ?_, h.returned⟩
  · rcases eq_or_ne q p with rfl | hne
    · rw [hself j hq]
      exact ⟨Nat.lt_succ_self _, fun hmem => lt_irrefl _ (h.old _ hmem)⟩
    · obtain ⟨hlt, hnot⟩ := hother q j hne hq
      exact ⟨hlt.trans (Nat.lt_succ_self _), hnot⟩
  · rcases eq_or_ne q p with rfl | hqp
    · rcases eq_or_ne r q with rfl | hrq
      · rfl
      · have := (hother r j hrq hr).1
        rw [hself j hq] at this
        exact absurd this (lt_irrefl _)
    · rcases eq_or_ne r p with rfl | hrp
      · have := (hother q j hqp hq).1
        rw [hself j hr] at this
        exact absurd this (lt_irrefl _)
      · rw [setProducer_of_ne hqp] at hq
        rw [setProducer_of_ne hrp] at hr
        exact h.distinct q r j hq hr

/-- A producer returns: its job has been pushed or rejected. -/
theorem Queue.returns (h : s.Queue M) (hp : (s.producer p).job = some job) {queue pushed rejected}
    (hbound : queue.length ≤ M) (hfifo : pushed = s.taken ++ queue)
    (hpushed : pushed = s.pushed ++ [job] ∧ rejected = s.rejected ∨
      pushed = s.pushed ∧ rejected = s.rejected ++ [job]) :
    ({ s with taskQueue := queue, pushed, rejected }.returns p job : ThreadPool P τ).Queue M := by
  obtain ⟨hlt, hnot⟩ := h.brought p job hp
  have hmem : ∀ j ∈ pushed, j ∈ s.pushed ∨ j = job := by
    intro j hj
    rcases hpushed with ⟨rfl, -⟩ | ⟨rfl, -⟩
    · simpa using hj
    · exact Or.inl hj
  have hidle : ∀ q j, ((Function.update s.producer p .idle) q).job = some j →
      q ≠ p ∧ (s.producer q).job = some j := by
    intro q j hq
    rcases eq_or_ne q p with rfl | hne
    · simp [Producer.job] at hq
    · exact ⟨hne, by rwa [Function.update_of_ne hne] at hq⟩
  refine ⟨h.size, h.pos, hbound, h.threads, hfifo, ?_, fun j hj => ?_, fun q j hq => ?_,
    fun q r j hq hr => ?_, fun j hj => ?_⟩
  · rcases hpushed with ⟨rfl, -⟩ | ⟨rfl, -⟩
    · exact h.nodup.append (List.nodup_singleton _) (by simpa using hnot)
    · exact h.nodup
  · rcases hmem j hj with hj | rfl
    · exact h.old j hj
    · exact hlt
  · obtain ⟨hne, hqj⟩ := hidle q j hq
    obtain ⟨hlt', hnot'⟩ := h.brought q j hqj
    refine ⟨hlt', fun hj => ?_⟩
    rcases hmem j hj with hj | rfl
    · exact hnot' hj
    · exact hne (h.distinct q p j hqj hp)
  · exact h.distinct q r j (hidle q j hq).2 (hidle r j hr).2
  · have hj : j ∈ s.returned ++ [job] := hj
    show j ∈ pushed ∨ j ∈ rejected
    rcases hpushed with ⟨rfl, rfl⟩ | ⟨rfl, rfl⟩ <;>
      rcases List.mem_append.mp hj with hj | hj
    · exact (h.returned j hj).imp_left (List.mem_append_left _)
    · exact Or.inl (List.mem_append_right _ hj)
    · exact (h.returned j hj).imp_right (List.mem_append_left _)
    · exact Or.inr (List.mem_append_right _ hj)

end

/-! ### The workers

What has been taken is held by one worker, or is done. -/

structure Held (s : ThreadPool P τ) : Prop where
  taken : ∀ j, j ∈ s.taken ↔
    (∃ w, s.worker w = .holding (some j)) ∨ j ∈ s.executed ∨ j ∈ s.dropped
  nodup : s.taken.Nodup
  unique : ∀ w v j, s.worker w = .holding (some j) → s.worker v = .holding (some j) → w = v
  notDone : ∀ w j, s.worker w = .holding (some j) → j ∉ s.executed ∧ j ∉ s.dropped
  executed : s.executed.Nodup
  called : ∀ j ∈ s.executed, j.task.isSome
  dropped : ∀ j ∈ s.dropped, j.task = none

theorem held_start {n : ℕ} : (start M n : ThreadPool P τ).Held where
  taken := by simp [start]
  nodup := List.nodup_nil
  unique := by simp [start]
  notDone := by simp [start]
  executed := List.nodup_nil
  called := by simp [start]
  dropped := by simp [start]

theorem Held.of_eq (h : s.Held) (hworker : s'.worker = s.worker) (htaken : s'.taken = s.taken)
    (hexecuted : s'.executed = s.executed) (hdropped : s'.dropped = s.dropped) : s'.Held := by
  refine ⟨?_, ?_, ?_, ?_, ?_, ?_, ?_⟩
  · rw [hworker, htaken, hexecuted, hdropped]
    exact h.taken
  · rw [htaken]
    exact h.nodup
  · rw [hworker]
    exact h.unique
  · rw [hworker, hexecuted, hdropped]
    exact h.notDone
  · rw [hexecuted]
    exact h.executed
  · rw [hexecuted]
    exact h.called
  · rw [hdropped]
    exact h.dropped

/-- A worker that holds no job goes on without one. -/
theorem Held.setWorker (h : s.Held) {w : ℕ} {x : Worker τ} (hw : ∀ j, s.worker w ≠ .holding (some j))
    (hx : ∀ j, x ≠ .holding (some j)) : (s.setWorker w x).Held := by
  have hiff : ∀ v j, (s.setWorker w x).worker v = .holding (some j) ↔
      s.worker v = .holding (some j) := by
    intro v j
    rcases eq_or_ne v w with rfl | hne
    · rw [setWorker_self]
      exact ⟨fun he => absurd he (hx j), fun he => absurd he (hw j)⟩
    · rw [setWorker_of_ne hne]
  refine ⟨fun j => ?_, h.nodup, fun v u j hv hu => ?_, fun v j hv => ?_, h.executed, h.called,
    h.dropped⟩
  · simp only [hiff]
    exact h.taken j
  · exact h.unique v u j ((hiff v j).mp hv) ((hiff u j).mp hu)
  · exact h.notDone v j ((hiff v j).mp hv)

/-- A worker takes a job that has not been taken before. -/
theorem Held.take (h : s.Held) {w : ℕ} {job : Job τ} (hw : ∀ j, s.worker w ≠ .holding (some j))
    (hnew : job ∉ s.taken) {rest : List (Job τ)} :
    ({ s.setWorker w (.holding (some job)) with taskQueue := rest, taken := s.taken ++ [job] } :
      ThreadPool P τ).Held := by
  have hiff : ∀ v j, (s.setWorker w (.holding (some job))).worker v = .holding (some j) ↔
      v = w ∧ j = job ∨ v ≠ w ∧ s.worker v = .holding (some j) := by
    intro v j
    rcases eq_or_ne v w with rfl | hne
    · simp [eq_comm]
    · simp [setWorker_of_ne hne, hne]
  have hheld : ∀ v j, s.worker v = .holding (some j) → j ∈ s.taken := fun v j hv =>
    (h.taken j).mpr (Or.inl ⟨v, hv⟩)
  refine ⟨fun j => ?_, ?_, fun v u j hv hu => ?_, fun v j hv => ?_, h.executed, h.called, h.dropped⟩
  · show j ∈ s.taken ++ [job] ↔ (∃ v, (s.setWorker w (.holding (some job))).worker v = _) ∨ _
    simp only [hiff, List.mem_append, List.mem_singleton, h.taken]
    constructor
    · rintro ((⟨v, hv⟩ | hdone) | rfl)
      · refine Or.inl ⟨v, Or.inr ⟨?_, hv⟩⟩
        rintro rfl
        exact hw j hv
      · exact Or.inr hdone
      · exact Or.inl ⟨w, Or.inl ⟨rfl, rfl⟩⟩
    · rintro (⟨v, ⟨-, rfl⟩ | ⟨-, hv⟩⟩ | hdone)
      · exact Or.inr rfl
      · exact Or.inl (Or.inl ⟨v, hv⟩)
      · exact Or.inl (Or.inr hdone)
  · exact h.nodup.append (List.nodup_singleton _) (by simpa using hnew)
  · rcases (hiff v j).mp hv with ⟨rfl, rfl⟩ | ⟨-, hv'⟩
    · rcases (hiff u j).mp hu with ⟨rfl, -⟩ | ⟨-, hu⟩
      · rfl
      · exact absurd (hheld u j hu) hnew
    · rcases (hiff u j).mp hu with ⟨-, rfl⟩ | ⟨-, hu⟩
      · exact absurd (hheld v _ hv') hnew
      · exact h.unique v u j hv' hu
  · rcases (hiff v j).mp hv with ⟨rfl, rfl⟩ | ⟨-, hv⟩
    · rw [h.taken] at hnew
      exact ⟨fun he => hnew (Or.inr (Or.inl he)), fun hd => hnew (Or.inr (Or.inr hd))⟩
    · exact h.notDone v j hv

/-- A worker is done with its job. -/
theorem Held.execute (h : s.Held) {w : ℕ} {job : Job τ} (hw : s.worker w = .holding (some job)) :
    ((s.execute job).setWorker w .test).Held := by
  obtain ⟨hexec, hdrop⟩ := h.notDone w job hw
  have hworker : ∀ v j, ((s.execute job).setWorker w .test).worker v = .holding (some j) ↔
      v ≠ w ∧ s.worker v = .holding (some j) := by
    intro v j
    have hsame : (s.execute job).worker = s.worker := by
      unfold ThreadPool.execute
      split_ifs <;> rfl
    rcases eq_or_ne v w with rfl | hne
    · simp
    · simp [setWorker_of_ne hne, hne, hsame]
  have hne : ∀ v j, v ≠ w → s.worker v = .holding (some j) → j ≠ job := by
    rintro v j hvw hv rfl
    exact hvw (h.unique v w j hv hw)
  have hdone : ∀ j, j ∈ (s.execute job).executed ∨ j ∈ (s.execute job).dropped ↔
      j ∈ s.executed ∨ j ∈ s.dropped ∨ j = job := by
    intro j
    unfold ThreadPool.execute
    split_ifs
    · simp [or_assoc, or_comm, or_left_comm]
    · simp
  have htaken : (s.execute job).taken = s.taken := by
    unfold ThreadPool.execute
    split_ifs <;> rfl
  refine ⟨fun j => ?_, ?_, fun v u j hv hu => ?_, fun v j hv => ?_, ?_, ?_, ?_⟩
  · show j ∈ (s.execute job).taken ↔ _ ∨ (j ∈ (s.execute job).executed ∨ j ∈ (s.execute job).dropped)
    rw [htaken, hdone, h.taken]
    simp only [hworker]
    constructor
    · rintro (⟨v, hv⟩ | hd)
      · rcases eq_or_ne v w with rfl | hvw
        · rw [hw] at hv
          cases hv
          exact Or.inr (Or.inr (Or.inr rfl))
        · exact Or.inl ⟨v, hvw, hv⟩
      · exact Or.inr (hd.imp_right Or.inl)
    · rintro (⟨v, -, hv⟩ | hd | hd | rfl)
      · exact Or.inl ⟨v, hv⟩
      · exact Or.inr (Or.inl hd)
      · exact Or.inr (Or.inr hd)
      · exact Or.inl ⟨w, hw⟩
  · show (s.execute job).taken.Nodup
    rw [htaken]
    exact h.nodup
  · exact h.unique v u j ((hworker v j).mp hv).2 ((hworker u j).mp hu).2
  · obtain ⟨hvw, hv⟩ := (hworker v j).mp hv
    obtain ⟨he, hd⟩ := h.notDone v j hv
    have hnot := mt (hdone j).mp (by simp [he, hd, hne v j hvw hv])
    exact not_or.mp hnot
  · show (s.execute job).executed.Nodup
    unfold ThreadPool.execute
    split_ifs
    · exact h.executed.append (List.nodup_singleton _) (by simpa using hexec)
    · exact h.executed
  · show ∀ j ∈ (s.execute job).executed, j.task.isSome
    unfold ThreadPool.execute
    split_ifs with hsome
    · intro j hj
      rcases List.mem_append.mp hj with hj | hj
      · exact h.called j hj
      · rw [List.mem_singleton.mp hj]
        exact hsome
    · exact h.called
  · show ∀ j ∈ (s.execute job).dropped, j.task = none
    unfold ThreadPool.execute
    split_ifs with hsome
    · exact h.dropped
    · intro j hj
      rcases List.mem_append.mp hj with hj | hj
      · exact h.dropped j hj
      · rw [List.mem_singleton.mp hj]
        simpa using hsome

/-! ### Every run -/

structure Inv (M : ℕ) (s : ThreadPool P τ) : Prop where
  queue : s.Queue M
  held : s.Held

/-- The section of `Take`. -/
theorem Inv.take (h : s.Inv M) {w : ℕ} (hw : ∀ j, s.worker w ≠ .holding (some j)) :
    (s.take w).Inv M := by
  unfold ThreadPool.take
  split
  · split_ifs
    · exact ⟨{ h.queue with }, h.held.setWorker hw nofun⟩
    · exact ⟨{ h.queue with }, h.held.setWorker hw nofun⟩
  · rename_i job rest hq
    have hfifo := h.queue.fifo
    rw [hq] at hfifo
    have hbound := h.queue.bound
    rw [hq, List.length_cons] at hbound
    have hnew : job ∉ s.taken := by
      have hnodup := h.queue.nodup
      rw [hfifo] at hnodup
      exact fun hmem => List.disjoint_of_nodup_append hnodup hmem List.mem_cons_self
    refine ⟨{ h.queue with bound := ?_, fifo := ?_ }, h.held.take hw hnew⟩
    · exact (Nat.le_succ _).trans hbound
    · show s.pushed = s.taken ++ [job] ++ rest
      rw [hfifo, List.append_assoc]
      rfl

theorem Inv.workerStep (h : s.Inv M) {w : ℕ} {a : WorkerAct} (hs : s.workerStep w a = some s') :
    s'.Inv M := by
  cases a with
  | test =>
    simp only [ThreadPool.workerStep] at hs
    split at hs
    · rename_i hw
      cases hs
      refine ⟨{ h.queue with }, h.held.setWorker (by simp [hw]) fun j => ?_⟩
      split_ifs <;> nofun
    · cases hs
  | lock =>
    simp only [ThreadPool.workerStep] at hs
    split at hs
    · rename_i hw
      cases hs
      exact h.take (by simp [hw])
    · rename_i hw
      cases hs
      exact h.take (by simp [hw])
    · cases hs
  | execute =>
    simp only [ThreadPool.workerStep] at hs
    split at hs
    · rename_i hw
      cases hs
      exact ⟨{ h.queue with }, h.held.setWorker (by simp [hw]) nofun⟩
    · rename_i job hw
      cases hs
      refine ⟨?_, h.held.execute hw⟩
      unfold ThreadPool.execute
      split_ifs
      · exact { h.queue with }
      · exact { h.queue with }
    · cases hs

section
variable [DecidableEq P] {p : P} {job : Job τ} {acts : List (Act P τ)}

/-- The section of `Run`. -/
theorem Inv.push (h : s.Inv M) (hp : (s.producer p).job = some job) : (s.push p job).Inv M := by
  unfold ThreadPool.push
  split_ifs with hfull
  · exact ⟨h.queue.setProducer hp.symm, h.held.of_eq rfl rfl rfl rfl⟩
  · have hlt : s.taskQueue.length < M := by
      simpa [isFull, h.queue.size, h.queue.pos] using hfull
    refine ⟨h.queue.returns hp ?_ ?_ (Or.inl ⟨rfl, rfl⟩), h.held.of_eq rfl rfl rfl rfl⟩
    · simpa using hlt
    · rw [h.queue.fifo, List.append_assoc]

theorem Inv.runStep (h : s.Inv M) {a : ProducerAct τ} (hs : s.runStep p a = some s') : s'.Inv M := by
  cases a with
  | call task =>
    simp only [ThreadPool.runStep] at hs
    split at hs
    · cases hs
      exact ⟨h.queue.call task, h.held.of_eq rfl rfl rfl rfl⟩
    · cases hs
  | assert =>
    simp only [ThreadPool.runStep] at hs
    split at hs
    · rename_i job hp
      cases hs
      have hq := h.queue.setProducer (p := p) (x := .asserted job) (by simp [hp, Producer.job])
      exact ⟨{ hq with }, h.held.of_eq rfl rfl rfl rfl⟩
    · cases hs
  | test =>
    simp only [ThreadPool.runStep] at hs
    split at hs
    · rename_i job hp
      cases hs
      have hjob : (s.producer p).job = some job := by simp [hp, Producer.job]
      split_ifs with hrun hthreads
      · exact ⟨h.queue.returns hjob h.queue.bound h.queue.fifo (Or.inr ⟨rfl, rfl⟩),
          h.held.of_eq rfl rfl rfl rfl⟩
      · exact absurd hthreads h.queue.threads.ne'
      · exact ⟨h.queue.setProducer hjob.symm, h.held.of_eq rfl rfl rfl rfl⟩
    · cases hs
  | lock =>
    simp only [ThreadPool.runStep] at hs
    split at hs
    · rename_i job hp
      cases hs
      exact h.push (by simp [hp, Producer.job])
    · rename_i job hp
      cases hs
      exact h.push (by simp [hp, Producer.job])
    · cases hs

theorem Inv.step (h : s.Inv M) {act : Act P τ} (hs : s.step act = some s') : s'.Inv M := by
  cases act with
  | producer p a => exact h.runStep hs
  | worker w a =>
    obtain ⟨-, hs⟩ := Option.ite_none_right_eq_some.mp hs
    exact h.workerStep hs
  | stop =>
    cases hs
    exact ⟨{ h.queue with }, h.held.of_eq rfl rfl rfl rfl⟩

theorem inv_of_run {n : ℕ} (hM : 0 < M) (hn : 0 < n) (hr : run (start M n) acts = some s) : s.Inv M :=
  Run.run_inv (fun _ _ _ hs hm => Inv.step hm hs) hr ⟨queue_start hM hn, held_start⟩

omit [DecidableEq P] in
/-- What becomes of a job that was not rejected. -/
theorem Inv.returned (h : s.Inv M) {j : Job τ} (hj : j ∈ s.returned) (hrej : j ∉ s.rejected) :
    j ∈ s.taskQueue ∨ (∃! w, s.worker w = .holding (some j)) ∨ j ∈ s.executed ∨ j ∈ s.dropped := by
  have hpushed : j ∈ s.taken ++ s.taskQueue :=
    h.queue.fifo ▸ (h.queue.returned j hj).resolve_right hrej
  rcases List.mem_append.mp hpushed with htaken | hqueue
  · rcases (h.held.taken j).mp htaken with ⟨w, hw⟩ | hdone
    · exact Or.inr (Or.inl ⟨w, hw, fun v hv => h.held.unique v w j hv hw⟩)
    · exact Or.inr (Or.inr hdone)
  · exact Or.inl hqueue

/-- **The queue discipline of a started pool.** In every run with a positive `max_queue_size_` and some
worker: the queue is never longer than that; what `Take` has returned is a prefix of what `Run` has
pushed; no job is executed twice; and a job whose `Run` has returned, unless it was rejected by the
test of `running_` or its task is empty, is in the queue, held by exactly one worker, or executed. -/
theorem queue_discipline {n : ℕ} (hM : 0 < M) (hn : 0 < n) (hr : run (start M n) acts = some s) :
    s.taskQueue.length ≤ M ∧ s.taken <+: s.pushed ∧ s.executed.Nodup ∧
      ∀ j ∈ s.returned, j ∉ s.rejected → j.task.isSome →
        j ∈ s.taskQueue ∨ (∃! w, s.worker w = .holding (some j)) ∨ j ∈ s.executed := by
  have h := inv_of_run hM hn hr
  refine ⟨h.queue.bound, ⟨s.taskQueue, h.queue.fifo.symm⟩, h.held.executed, fun j hj hrej hsome => ?_⟩
  refine (h.returned hj hrej).imp_right (Or.imp_right fun hdone => hdone.resolve_right fun hdrop => ?_)
  simp [h.held.dropped j hdrop] at hsome

/-- An empty task is queued and taken like the others, and not called. -/
theorem empty_dropped {n : ℕ} (hM : 0 < M) (hn : 0 < n) (hr : run (start M n) acts = some s) :
    ∀ j ∈ s.returned, j ∉ s.rejected → j.task = none →
      j ∈ s.taskQueue ∨ (∃! w, s.worker w = .holding (some j)) ∨ j ∈ s.dropped := by
  have h := inv_of_run hM hn hr
  intro j hj hrej hnone
  refine (h.returned hj hrej).imp_right (Or.imp_right fun hdone => hdone.resolve_left fun hexec => ?_)
  simpa [hnone] using h.held.called j hexec

/-! ### Rejection -/

/-- Only `Stop` stops the pool, and only a pool that has been stopped rejects a job. -/
theorem rejects_step {act : Act P τ} (hs : s.step act = some s') :
    (s'.running = true ↔ s.running = true ∧ act ≠ .stop) ∧
      ∀ j ∈ s'.rejected, j ∈ s.rejected ∨ s.running = false := by
  have hexecute (job : Job τ) : (s.execute job).running = s.running ∧
      (s.execute job).rejected = s.rejected := by
    unfold ThreadPool.execute
    split_ifs <;> exact ⟨rfl, rfl⟩
  have hquiet (hr : s'.running = s.running) (hj : s'.rejected = s.rejected) (ha : act ≠ .stop) :
      (s'.running = true ↔ s.running = true ∧ act ≠ .stop) ∧
        ∀ j ∈ s'.rejected, j ∈ s.rejected ∨ s.running = false := by
    rw [hr, hj]
    exact ⟨(and_iff_left ha).symm, fun j hj => Or.inl hj⟩
  cases act with
  | stop =>
    cases hs
    exact ⟨by simp [stop], fun j hj => Or.inl hj⟩
  | worker w a =>
    obtain ⟨-, hs⟩ := Option.ite_none_right_eq_some.mp hs
    have htake : (s.take w).running = s.running ∧ (s.take w).rejected = s.rejected := by
      unfold ThreadPool.take
      split
      · split_ifs <;> exact ⟨rfl, rfl⟩
      · exact ⟨rfl, rfl⟩
    cases a <;> simp only [ThreadPool.workerStep] at hs <;> split at hs <;> cases hs
    · exact hquiet rfl rfl nofun
    · exact hquiet htake.1 htake.2 nofun
    · exact hquiet htake.1 htake.2 nofun
    · exact hquiet rfl rfl nofun
    · exact hquiet (hexecute _).1 (hexecute _).2 nofun
  | producer p a =>
    have hpush (job : Job τ) : (s.push p job).running = s.running ∧
        (s.push p job).rejected = s.rejected := by
      unfold ThreadPool.push
      split_ifs <;> exact ⟨rfl, rfl⟩
    cases a with
    | call task =>
      simp only [ThreadPool.step, ThreadPool.runStep] at hs
      split at hs <;> cases hs
      exact hquiet rfl rfl nofun
    | assert =>
      simp only [ThreadPool.step, ThreadPool.runStep] at hs
      split at hs <;> cases hs
      exact hquiet rfl rfl nofun
    | test =>
      simp only [ThreadPool.step, ThreadPool.runStep] at hs
      split at hs
      · split_ifs at hs with hrun <;> cases hs
        · refine ⟨by simp [returns, setProducer], fun j _ => Or.inr (by simpa using hrun)⟩
        · exact hquiet (hexecute _).1 (hexecute _).2 nofun
        · exact hquiet rfl rfl nofun
      · cases hs
    | lock =>
      simp only [ThreadPool.step, ThreadPool.runStep] at hs
      split at hs <;> cases hs
      · exact hquiet (hpush _).1 (hpush _).2 nofun
      · exact hquiet (hpush _).1 (hpush _).2 nofun

/-- **A job is rejected only behind a `Stop`.** -/
theorem stop_of_rejected {n : ℕ} (hr : run (start M n) acts = some s) {j : Job τ}
    (hj : j ∈ s.rejected) : .stop ∈ acts := by
  have hinv : (s.running = true ↔ .stop ∉ acts) ∧ (s.rejected ≠ [] → .stop ∈ acts) := by
    refine Run.run_inv_history (P := fun acts (s : ThreadPool P τ) =>
      (s.running = true ↔ .stop ∉ acts) ∧ (s.rejected ≠ [] → .stop ∈ acts))
      ⟨by simp [start], by simp [start]⟩ (fun acts m act s' hs ih => ?_) hr
    obtain ⟨hrunning, hrejected⟩ := rejects_step hs
    simp only [List.mem_append, List.mem_singleton, not_or]
    refine ⟨by rw [hrunning, ih.1, ne_comm], fun hne => ?_⟩
    obtain ⟨j, hj⟩ := List.exists_mem_of_ne_nil _ hne
    rcases hrejected j hj with hold | hstopped
    · exact Or.inl (ih.2 (List.ne_nil_of_mem hold))
    · refine Or.inl (by_contra fun hno => ?_)
      exact absurd ((ih.1.mpr hno).symm.trans hstopped) (by simp)
  exact hinv.2 (List.ne_nil_of_mem hj)

end

/-- One worker and a queue of one: the second call of `Run` waits until the first job is taken. -/
theorem queue_discipline_of_two : ∃ s : ThreadPool Bool ℕ,
    run (start 1 1) [.producer true (.call (some 5)), .producer true .assert, .producer true .test,
      .producer true .lock, .producer false (.call (some 6)), .producer false .assert,
      .producer false .test, .producer false .lock, .worker 0 .test, .worker 0 .lock,
      .producer false .lock] = some s ∧
    s.returned = [⟨0, some 5⟩, ⟨1, some 6⟩] ∧ s.taskQueue.length ≤ 1 ∧ s.taken <+: s.pushed ∧
    ∀ j ∈ s.returned, j ∉ s.rejected → j.task.isSome →
      j ∈ s.taskQueue ∨ (∃! w, s.worker w = .holding (some j)) ∨ j ∈ s.executed := by
  have hrun : (run (start 1 1 : ThreadPool Bool ℕ) [.producer true (.call (some 5)),
      .producer true .assert, .producer true .test, .producer true .lock,
      .producer false (.call (some 6)), .producer false .assert, .producer false .test,
      .producer false .lock, .worker 0 .test, .worker 0 .lock, .producer false .lock]).map
      ThreadPool.returned = some [⟨0, some 5⟩, ⟨1, some 6⟩] := by
    decide +kernel
  obtain ⟨s, hr, hs⟩ := Option.map_eq_some_iff.mp hrun
  obtain ⟨hbound, htaken, -, hreturned⟩ := queue_discipline one_pos one_pos hr
  exact ⟨s, hr, hs, hbound, htaken, hreturned⟩

/-- `Stop` comes between the assertion and the test of `running_`: `Run` returns, and its task is
nowhere. -/
theorem rejected_between_assert_and_test : ∃ s : ThreadPool Unit ℕ,
    run (start 1 1) [.producer () (.call (some 5)), .producer () .assert, .stop, .producer () .test] =
      some s ∧
    s.assertFailed = false ∧ ⟨0, some 5⟩ ∈ s.returned ∧ s.taskQueue = [] ∧
    (∀ w, s.worker w = .test) ∧ s.executed = [] := by
  refine ⟨_, rfl, ?_⟩
  simp [start, setProducer, returns, stop]

end ThreadPool

end MuduoCpp11.Base
