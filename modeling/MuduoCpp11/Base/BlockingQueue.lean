import MuduoCpp11.Lib.Condition
import MuduoCpp11.Lib.History
import MuduoCpp11.Lib.Run

/-! # The blocking queue

Any number of threads call `Put` and `Take`. A section under `mutex_` is one step, up to its end or to
the wait in `Take`; a thread that waits on `not_empty_` takes the mutex again only when it has been
notified or has woken up spuriously.

The elements come out in the order in which they went in, each of them once, whatever the threads do
(`fifo`). While some thread sleeps in `Take`, every element in the queue has a thread of its own that
has been notified and is about to take it (`Inv.slots`); so nobody sleeps beside an element for good
(`take_progress`). -/

namespace MuduoCpp11.Base

open MuduoCpp11.Lib MuduoCpp11.Lib.History

/-- The next statement of a thread: none of the queue's, the lock of `Put`, the lock of `Take`, or the
return from `not_empty_.wait(lock)`. -/
inductive Caller (τ : Type*) where
  | idle
  | putting (x : τ)
  | taking
  | waiting
  deriving DecidableEq, Repr

/-- What a thread in `Put` still holds. -/
def Caller.held {τ : Type*} : Caller τ → List τ
  | .putting x => [x]
  | _ => []

/-- The thread is in `Take`. -/
def Caller.takes {τ : Type*} : Caller τ → Bool
  | .taking | .waiting => true
  | _ => false

section
variable {τ : Type*}

@[simp] theorem Caller.held_idle : (.idle : Caller τ).held = [] := rfl
@[simp] theorem Caller.held_putting (x : τ) : (Caller.putting x).held = [x] := rfl
@[simp] theorem Caller.held_taking : (.taking : Caller τ).held = [] := rfl
@[simp] theorem Caller.held_waiting : (.waiting : Caller τ).held = [] := rfl
@[simp] theorem Caller.takes_idle : (.idle : Caller τ).takes = false := rfl
@[simp] theorem Caller.takes_putting (x : τ) : (Caller.putting x).takes = false := rfl
@[simp] theorem Caller.takes_taking : (.taking : Caller τ).takes = true := rfl
@[simp] theorem Caller.takes_waiting : (.waiting : Caller τ).takes = true := rfl

end

/-- `puts` and `takes` are the history: what each thread has put in and taken out. -/
structure BlockingQueue (T τ : Type*) where
  queue : List τ := []
  notEmpty : Condition T := {}
  caller : T → Caller τ := fun _ => .idle
  assertFailed : Bool := false
  puts : List (T × τ) := []
  takes : List (T × τ) := []

namespace BlockingQueue

/-- `i` picks the thread that `notify_one` notifies. -/
inductive Act (T τ : Type*) where
  | callPut (t : T) (x : τ)
  | callTake (t : T)
  | lock (t : T) (i : ℕ)
  | wakeup (t : T)
  deriving DecidableEq, Repr

variable {T τ : Type*}

def new : BlockingQueue T τ := {}

section
variable [DecidableEq T] (s : BlockingQueue T τ)

def setCaller (t : T) (x : Caller τ) : BlockingQueue T τ :=
  { s with caller := Function.update s.caller t x }

/-- `Put` -/
def put (t : T) (x : τ) (i : ℕ) : BlockingQueue T τ :=
  { s.setCaller t .idle with
    queue := s.queue ++ [x], notEmpty := s.notEmpty.notifyOne i, puts := s.puts ++ [(t, x)] }

/-- The section of `Take` from the lock, or from a wakeup: the test of the loop, and what follows it. -/
def take (t : T) : BlockingQueue T τ :=
  if s.queue.isEmpty then
    { s.setCaller t .waiting with notEmpty := (s.notEmpty.resume t).wait t }
  else
    match s.queue with
    | [] => { s.setCaller t .idle with assertFailed := true }
    | front :: rest =>
      { s.setCaller t .idle with
        queue := rest, notEmpty := s.notEmpty.resume t, takes := s.takes ++ [(t, front)] }

def lock (t : T) (i : ℕ) : Option (BlockingQueue T τ) :=
  match s.caller t with
  | .idle => none
  | .putting x => some (s.put t x i)
  | .taking => some (s.take t)
  | .waiting => if t ∈ s.notEmpty.waiting then none else some (s.take t)

def step : Act T τ → Option (BlockingQueue T τ)
  | .callPut t x =>
    match s.caller t with
    | .idle => some (s.setCaller t (.putting x))
    | _ => none
  | .callTake t =>
    match s.caller t with
    | .idle => some (s.setCaller t .taking)
    | _ => none
  | .lock t i => s.lock t i
  | .wakeup t =>
    if t ∈ s.notEmpty.waiting then some { s with notEmpty := s.notEmpty.wakeup t } else none

end

def run [DecidableEq T] : BlockingQueue T τ → List (Act T τ) → Option (BlockingQueue T τ) :=
  Run.run step

/-- What an action of the thread `t` brings to the queue. -/
def Act.brings [DecidableEq T] (t : T) : Act T τ → List τ
  | .callPut u x => if u = t then [x] else []
  | _ => []

def Act.isTake [DecidableEq T] (t : T) : Act T τ → Bool
  | .callTake u => u = t
  | _ => false

section
variable [DecidableEq T] {s s' : BlockingQueue T τ} {t u : T} {i : ℕ}

theorem take_of_nil (h : s.queue = []) :
    s.take t = { s.setCaller t .waiting with notEmpty := (s.notEmpty.resume t).wait t } := by
  simp [take, h]

theorem take_of_cons {front : τ} {rest : List τ} (h : s.queue = front :: rest) :
    s.take t = { s.setCaller t .idle with
      queue := rest, notEmpty := s.notEmpty.resume t, takes := s.takes ++ [(t, front)] } := by
  simp [take, h]

/-- What a section does: a `Put`, or a `Take` of a thread that does not sleep. -/
theorem lock_cases (h : s.lock t i = some s') :
    (∃ x, s.caller t = .putting x ∧ s' = s.put t x i) ∨
      (s.caller t).takes = true ∧ (s.caller t = .waiting → t ∉ s.notEmpty.waiting) ∧
        s' = s.take t := by
  unfold lock at h
  split at h
  · cases h
  · rename_i x hx
    exact Or.inl ⟨x, hx, (Option.some.inj h).symm⟩
  · rename_i hc
    refine Or.inr ⟨by rw [hc]; rfl, fun hw => ?_, (Option.some.inj h).symm⟩
    rw [hc] at hw
    cases hw
  · rename_i hc
    obtain ⟨hnot, h⟩ := Option.ite_none_left_eq_some.mp h
    exact Or.inr ⟨by rw [hc]; rfl, fun _ => hnot, (Option.some.inj h).symm⟩

/-- A thread in `Take` that does not sleep can go on. -/
theorem lock_of_takes (ht : (s.caller t).takes = true) (hnot : t ∉ s.notEmpty.waiting) :
    s.lock t i = some (s.take t) := by
  unfold lock
  cases hc : s.caller t with
  | idle => simp [hc] at ht
  | putting x => simp [hc] at ht
  | taking => rfl
  | waiting => exact if_neg hnot

/-! ### In order, and once -/

/-- The queue behind the actions `acts`: what has been taken and what is in the queue is what has been
put in; and each thread has put in what it called `Put` with and taken as often as it called `Take`,
but for the call it is in. -/
structure Follows (acts : List (Act T τ)) (s : BlockingQueue T τ) : Prop where
  order : s.takes.map Prod.snd ++ s.queue = s.puts.map Prod.snd
  puts : ∀ t, ofThread t s.puts ++ (s.caller t).held = acts.flatMap (Act.brings t)
  takes : ∀ t, (ofThread t s.takes).length + (if (s.caller t).takes then 1 else 0) =
    acts.countP (Act.isTake t)
  assertFailed : s.assertFailed = false

variable {acts : List (Act T τ)} {act : Act T τ}

theorem follows_new : Follows ([] : List (Act T τ)) new where
  order := rfl
  puts _ := rfl
  takes _ := rfl
  assertFailed := rfl

/-- A step that leaves the queue alone, and moves the caller of one thread. -/
theorem Follows.call (h : Follows acts s) (ht : s.caller t = .idle) {x : Caller τ}
    (hheld : ∀ u, (if t = u then x.held else []) = act.brings u)
    (htakes : ∀ u, (t = u ∧ x.takes = true) ↔ act.isTake u = true) :
    Follows (acts ++ [act]) (s.setCaller t x) where
  order := h.order
  puts u := by
    have hu := h.puts u
    rw [List.flatMap_append, List.flatMap_singleton, ← hheld u, ← hu]
    show ofThread u s.puts ++ (Function.update s.caller t x u).held = _
    by_cases heq : t = u
    · subst heq
      simp [ht]
    · simp [heq, Ne.symm heq]
  takes u := by
    have hu := h.takes u
    rw [List.countP_append, List.countP_singleton, ← hu]
    show (ofThread u s.takes).length + (if (Function.update s.caller t x u).takes then 1 else 0) = _
    by_cases heq : t = u
    · subst heq
      simp [← htakes, ht]
    · simp [← htakes, heq, Ne.symm heq]
  assertFailed := h.assertFailed

theorem Follows.put (h : Follows acts s) {x : τ} (ht : s.caller t = .putting x) :
    Follows (acts ++ [.lock t i]) (s.put t x i) where
  order := by
    have ho := h.order
    simp only [BlockingQueue.put, List.map_append, ← ho, List.append_assoc]
    rfl
  puts u := by
    have hu := h.puts u
    simp only [List.flatMap_append, ← hu, BlockingQueue.put, setCaller]
    by_cases heq : t = u
    · subst heq
      simp [ht, Act.brings]
    · simp [heq, Ne.symm heq, Act.brings]
  takes u := by
    have hu := h.takes u
    simp only [List.countP_append, ← hu, BlockingQueue.put, setCaller]
    by_cases heq : t = u
    · subst heq
      simp [ht, Act.isTake]
    · simp [Ne.symm heq, Act.isTake]
  assertFailed := h.assertFailed

theorem Follows.take (h : Follows acts s) (ht : (s.caller t).takes = true) :
    Follows (acts ++ [.lock t i]) (s.take t) := by
  have hheld : (s.caller t).held = [] := by
    cases hc : s.caller t <;> simp_all
  have hbrings : ∀ u, (acts ++ [Act.lock t i]).flatMap (Act.brings u) =
      acts.flatMap (Act.brings u) := by
    intro u
    simp [Act.brings]
  have hcount : ∀ u, (acts ++ [Act.lock t i]).countP (Act.isTake u) = acts.countP (Act.isTake u) := by
    intro u
    simp [Act.isTake]
  cases hq : s.queue with
  | nil =>
    rw [take_of_nil hq]
    refine ⟨h.order, fun u => ?_, fun u => ?_, h.assertFailed⟩
    · rw [hbrings, ← h.puts u]
      by_cases heq : u = t
      · subst heq
        simp [setCaller, hheld]
      · simp [setCaller, heq]
    · rw [hcount, ← h.takes u]
      by_cases heq : u = t
      · subst heq
        simp [setCaller, ht]
      · simp [setCaller, heq]
  | cons front rest =>
    rw [take_of_cons hq]
    refine ⟨?_, fun u => ?_, fun u => ?_, h.assertFailed⟩
    · have ho := h.order
      rw [hq] at ho
      simpa [setCaller] using ho
    · rw [hbrings, ← h.puts u]
      by_cases heq : u = t
      · subst heq
        simp [setCaller, hheld]
      · simp [setCaller, heq]
    · rw [hcount, ← h.takes u]
      by_cases heq : u = t
      · subst heq
        simp [setCaller, ht]
      · simp [setCaller, heq, Ne.symm heq]

/-- A call is made by a thread that is in none. -/
theorem step_call (hs : s.step act = some s') (hlock : ∀ t i, act ≠ .lock t i)
    (hwakeup : ∀ t, act ≠ .wakeup t) :
    ∃ t x, s.caller t = .idle ∧ s' = s.setCaller t x ∧ x ≠ .waiting ∧
      ∀ u, (if t = u then x.held else []) = act.brings u ∧
        ((t = u ∧ x.takes = true) ↔ act.isTake u = true) := by
  cases act with
  | callPut t x =>
    simp only [BlockingQueue.step] at hs
    split at hs
    · rename_i hc
      cases hs
      exact ⟨t, _, hc, rfl, by simp, by simp [Act.brings, Act.isTake]⟩
    · cases hs
  | callTake t =>
    simp only [BlockingQueue.step] at hs
    split at hs
    · rename_i hc
      cases hs
      exact ⟨t, _, hc, rfl, by simp, by simp [Act.brings, Act.isTake]⟩
    · cases hs
  | lock t i => exact absurd rfl (hlock t i)
  | wakeup t => exact absurd rfl (hwakeup t)

theorem Follows.step (h : Follows acts s) (hs : s.step act = some s') :
    Follows (acts ++ [act]) s' := by
  cases act with
  | callPut t x =>
    obtain ⟨u, y, hc, rfl, -, hy⟩ := step_call hs (by simp) (by simp)
    exact h.call hc (fun u => (hy u).1) fun u => (hy u).2
  | callTake t =>
    obtain ⟨u, y, hc, rfl, -, hy⟩ := step_call hs (by simp) (by simp)
    exact h.call hc (fun u => (hy u).1) fun u => (hy u).2
  | lock t i =>
    rcases lock_cases hs with ⟨x, hc, rfl⟩ | ⟨hc, -, rfl⟩
    · exact h.put hc
    · exact h.take hc
  | wakeup t =>
    obtain ⟨-, hs⟩ := Option.ite_none_right_eq_some.mp hs
    cases hs
    refine ⟨h.order, fun u => ?_, fun u => ?_, h.assertFailed⟩
    · simpa [Act.brings] using h.puts u
    · simpa [Act.isTake] using h.takes u

/-- **In order, and once.** In every run: what has been taken out, followed by what is in the queue, is
what has been put in; each thread has put in the arguments of its calls of `Put` in their order, but for
the one it is still in, and has got one element for each call of `Take` but for the one it is still in;
and the assertion in `Take` holds. -/
theorem fifo (hr : run new acts = some s) :
    s.takes.map Prod.snd ++ s.queue = s.puts.map Prod.snd ∧
    (∀ t, ofThread t s.puts ++ (s.caller t).held = acts.flatMap (Act.brings t)) ∧
    (∀ t, (ofThread t s.takes).length + (if (s.caller t).takes then 1 else 0) =
      acts.countP (Act.isTake t)) ∧
    s.assertFailed = false := by
  have h : Follows acts s :=
    Run.run_inv_history follows_new (fun _ _ _ _ hs h => Follows.step h hs) hr
  exact ⟨h.order, h.puts, h.takes, h.assertFailed⟩

/-- Two elements from one thread go to two others. -/
theorem fifo_of_two : ∃ s : BlockingQueue ℕ ℕ,
    run new [.callTake 0, .lock 0 0, .callPut 1 5, .callTake 2, .lock 1 0, .callPut 1 6, .lock 2 0,
      .lock 1 0, .lock 0 0] = some s ∧ s.takes = [(2, 5), (0, 6)] ∧
    s.takes.map Prod.snd ++ s.queue = s.puts.map Prod.snd := by
  obtain ⟨s, hr, ht⟩ : ∃ s : BlockingQueue ℕ ℕ,
      run new [.callTake 0, .lock 0 0, .callPut 1 5, .callTake 2, .lock 1 0, .callPut 1 6, .lock 2 0,
        .lock 1 0, .lock 0 0] = some s ∧ s.takes = [(2, 5), (0, 6)] :=
    ⟨_, rfl, by decide⟩
  exact ⟨s, hr, ht, (fifo hr).1⟩

/-! ### The notifications -/

/-- The threads of `not_empty_` are in its wait; and while one of them sleeps, each element of the queue
has a thread that has been notified. -/
structure Inv (s : BlockingQueue T τ) : Prop where
  notEmpty : s.notEmpty.WellFormed
  waiting : ∀ t ∈ s.notEmpty.threads, s.caller t = .waiting
  slots : s.notEmpty.waiting ≠ [] → s.queue.length ≤ s.notEmpty.notified.length

omit [DecidableEq T] in
theorem inv_new : (new : BlockingQueue T τ).Inv where
  notEmpty := List.nodup_nil
  waiting _ ht := by cases ht
  slots h := absurd rfl h

theorem Inv.setCaller (h : s.Inv) (ht : t ∉ s.notEmpty.threads) (x : Caller τ) :
    (s.setCaller t x).Inv where
  notEmpty := h.notEmpty
  waiting u hu := by
    have hne : u ≠ t := fun heq => ht (heq ▸ hu)
    exact (Function.update_of_ne hne _ _).trans (h.waiting u hu)
  slots := h.slots

omit [DecidableEq T] in
theorem Inv.notMem_of_ne (h : s.Inv) (ht : s.caller t ≠ .waiting) : t ∉ s.notEmpty.threads :=
  fun hmem => ht (h.waiting t hmem)

/-- A `Put` brings an element and notifies a thread for it. -/
theorem Inv.put (h : s.Inv) {x : τ} (ht : s.caller t = .putting x) : (s.put t x i).Inv := by
  have hne : s.caller t ≠ .waiting := by simp [ht]
  have hset := h.setCaller (h.notMem_of_ne hne) .idle
  refine ⟨hset.notEmpty.notifyOne, fun u hu => hset.waiting u (Condition.mem_notifyOne.mp hu), ?_⟩
  intro hne
  have hne₀ : s.notEmpty.waiting ≠ [] := by
    intro hnil
    have hsame : s.notEmpty.notifyOne i = s.notEmpty := Condition.notifyOne_of_nil hnil
    exact hne ((congrArg Condition.waiting hsame).trans hnil)
  have hslots := h.slots hne₀
  have hlen := Condition.length_notifyOne (i := i) hne₀
  show (s.queue ++ [x]).length ≤ (s.notEmpty.notifyOne i).notified.length
  rw [hlen, List.length_append, List.length_singleton]
  omega

/-- The section of `Take` in a thread that does not sleep. -/
theorem Inv.take (h : s.Inv) (hnot : t ∉ s.notEmpty.waiting) : (s.take t).Inv := by
  have hout : t ∉ (s.notEmpty.resume t).threads := h.notEmpty.notMem_resume hnot
  have hother : ∀ u ∈ (s.notEmpty.resume t).threads, u ≠ t ∧ s.caller u = .waiting :=
    fun u hu => ⟨fun heq => hout (heq ▸ hu), h.waiting u (Condition.mem_resume hu)⟩
  cases hq : s.queue with
  | nil =>
    rw [take_of_nil hq]
    refine ⟨h.notEmpty.resume.wait hout, fun u hu => ?_, fun _ => ?_⟩
    · rcases Condition.mem_wait.mp hu with rfl | hu
      · exact Function.update_self _ _ _
      · obtain ⟨hne, hu⟩ := hother u hu
        exact (Function.update_of_ne hne _ _).trans hu
    · show s.queue.length ≤ _
      simp [hq]
  | cons front rest =>
    rw [take_of_cons hq]
    refine ⟨h.notEmpty.resume, fun u hu => ?_, fun hne => ?_⟩
    · obtain ⟨hne, hu⟩ := hother u hu
      exact (Function.update_of_ne hne _ _).trans hu
    · have hslots := h.slots hne
      have hlen := Condition.length_resume (c := s.notEmpty) (a := t)
      rw [hq, List.length_cons] at hslots
      show rest.length ≤ (s.notEmpty.resume t).notified.length
      omega

theorem Inv.step (h : s.Inv) (hs : s.step act = some s') : s'.Inv := by
  cases act with
  | callPut t x =>
    obtain ⟨u, y, hc, rfl, -, -⟩ := step_call hs (by simp) (by simp)
    exact h.setCaller (h.notMem_of_ne (by simp [hc])) y
  | callTake t =>
    obtain ⟨u, y, hc, rfl, -, -⟩ := step_call hs (by simp) (by simp)
    exact h.setCaller (h.notMem_of_ne (by simp [hc])) y
  | lock t i =>
    rcases lock_cases hs with ⟨x, hc, rfl⟩ | ⟨-, hnot, rfl⟩
    · exact h.put hc
    · by_cases hc : s.caller t = .waiting
      · exact h.take (hnot hc)
      · exact h.take fun hmem => h.notMem_of_ne hc (Condition.mem_threads.mpr (Or.inl hmem))
  | wakeup t =>
    obtain ⟨-, hs⟩ := Option.ite_none_right_eq_some.mp hs
    cases hs
    refine ⟨h.notEmpty.wakeup, fun u hu => h.waiting u (Condition.mem_wakeup hu), fun hne => ?_⟩
    exact h.slots fun hnil => hne (by simp [Condition.wakeup, hnil])

theorem inv_run (hr : run new acts = some s) : s.Inv :=
  Run.run_inv (fun _ _ _ hs h => Inv.step h hs) hr inv_new

/-- **Nobody sleeps beside an element for good.** In every state of a run with an element in the queue
and a thread in `Take`: while a thread sleeps, there are at least as many notified threads as elements;
and some thread in `Take` is awake, its section is enabled, and it takes the front of the queue. -/
theorem take_progress (hr : run new acts = some s) {front : τ} {rest : List τ}
    (hq : s.queue = front :: rest) (ht : (s.caller t).takes = true) :
    (s.notEmpty.waiting ≠ [] → s.queue.length ≤ s.notEmpty.notified.length) ∧
    ∃ u, (s.caller u).takes = true ∧ u ∉ s.notEmpty.waiting ∧ ∀ i, ∃ s',
      s.step (.lock u i) = some s' ∧ s'.takes = s.takes ++ [(u, front)] ∧ s'.queue = rest := by
  have h := inv_run hr
  refine ⟨h.slots, ?_⟩
  obtain ⟨u, hu, hnot⟩ : ∃ u, (s.caller u).takes = true ∧ u ∉ s.notEmpty.waiting := by
    by_cases hsleep : t ∈ s.notEmpty.waiting
    · have hslots := h.slots (List.ne_nil_of_mem hsleep)
      rw [hq, List.length_cons] at hslots
      obtain ⟨u, hu⟩ := List.exists_mem_of_length_pos (by omega : 0 < s.notEmpty.notified.length)
      refine ⟨u, ?_, fun hw => ?_⟩
      · rw [h.waiting u (Condition.mem_threads.mpr (Or.inr hu))]
        rfl
      · exact (List.nodup_append.mp h.notEmpty).2.2 u hw u hu rfl
    · exact ⟨t, ht, hsleep⟩
  refine ⟨u, hu, hnot, fun i => ⟨s.take u, lock_of_takes hu hnot, ?_, ?_⟩⟩
  · rw [take_of_cons hq]
  · rw [take_of_cons hq]

/-- Two threads sleep and two elements come; a third thread overtakes one that has been notified. -/
theorem take_progress_overtaken : ∃ s : BlockingQueue ℕ ℕ,
    run new [.callTake 0, .lock 0 0, .callTake 1, .lock 1 0, .callPut 2 5, .lock 2 0, .callTake 3,
      .lock 3 0, .callPut 2 6, .lock 2 0] = some s ∧ s.queue = [6] ∧ s.notEmpty = ⟨[], [0, 1]⟩ ∧
    ∃ u, (s.caller u).takes = true ∧ u ∉ s.notEmpty.waiting := by
  obtain ⟨s, hr, hq, hc, ht⟩ : ∃ s : BlockingQueue ℕ ℕ,
      run new [.callTake 0, .lock 0 0, .callTake 1, .lock 1 0, .callPut 2 5, .lock 2 0, .callTake 3,
        .lock 3 0, .callPut 2 6, .lock 2 0] = some s ∧ s.queue = [6] ∧ s.notEmpty = ⟨[], [0, 1]⟩ ∧
      (s.caller 1).takes = true :=
    ⟨_, rfl, by decide, by decide, by decide⟩
  obtain ⟨-, u, hu, hnot, -⟩ := take_progress hr hq ht
  exact ⟨s, hr, hq, hc, u, hu, hnot⟩

end

end BlockingQueue

end MuduoCpp11.Base
