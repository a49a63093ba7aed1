import MuduoCpp11.Lib.History
import MuduoCpp11.Net.Connector.Attempts

/-! # How fast a connector tries again

`Retry` runs `StartInLoop` again after `retry_delay_ms_`, which it then doubles, up to
`kMaxRetryDelayMs`; only `Restart` sets it back. `Start` and `Stop` do not, so a connector that is
stopped and started again waits as long as it would have waited. Every socket is asked for by one call
of `Start` or `Restart`, or by one retry timer: however the calls of other threads fall in between, the
connector makes no attempt on its own that its delays do not pay for (`attempts_paced`). -/

namespace MuduoCpp11.Net.Connector

open MuduoCpp11.Lib MuduoCpp11.Lib.History

variable {F : Type*}

/-- What `Retry` and `Restart` do with the delay: a timer of `delayMs`, or the first delay again. -/
inductive Delay where
  | retry (delayMs : ℕ)
  | restart
  deriving DecidableEq, Repr

def Delay.isRetry : Delay → Bool
  | .retry _ => true
  | .restart => false

/-- What a step does with it. -/
def delayBy (s : Connector F) : Act F → List Delay
  | .exec _ =>
    match s.todo with
    | .restart :: _ => [.restart]
    | .retry _ :: _ => if s.connect then [.retry s.retryDelayMs] else []
    | _ => []
  | _ => []

/-- The history of the delays. -/
def delays : Connector F → List (Act F) → List Delay := observed step delayBy

/-- The retries behind the last `Restart`. -/
def sinceRestart (ds : List Delay) : ℕ := (ds.reverse.takeWhile Delay.isRetry).length

@[simp] theorem sinceRestart_restart (ds : List Delay) : sinceRestart (ds ++ [.restart]) = 0 := by
  simp [sinceRestart, Delay.isRetry]

@[simp] theorem sinceRestart_retry (ds : List Delay) (delayMs : ℕ) :
    sinceRestart (ds ++ [.retry delayMs]) = sinceRestart ds + 1 := by
  rw [sinceRestart, List.reverse_append, List.reverse_singleton, List.singleton_append,
    List.takeWhile_cons_of_pos rfl, List.length_cons, sinceRestart]

/-- Half a second, doubled each time, and half a minute at most. -/
def backoffMs (n : ℕ) : ℕ := min (kInitRetryDelayMs * 2 ^ n) kMaxRetryDelayMs

theorem backoffMs_zero : backoffMs 0 = kInitRetryDelayMs := rfl

theorem backoffMs_succ (n : ℕ) : backoffMs (n + 1) = min (backoffMs n * 2) kMaxRetryDelayMs := by
  unfold backoffMs
  rw [pow_succ, ← Nat.mul_assoc]
  omega

/-- The calls that ask for an attempt, and the timers that do. -/
def Act.asks : Act F → Bool
  | .start | .startCall | .restart => true
  | _ => false

/-- Statements on the way to a `Connect`. -/
def Stmt.isAttempt : Stmt → Bool
  | .start | .restart | .startInLoop | .connect => true
  | _ => false

/-- The sockets that have been made, and what is on the way to one: a retry timer, a `StartInLoop` that
is queued or about to be, a statement ahead of the loop thread. -/
def asked (s : Connector F) : ℕ :=
  s.sockets + s.timers.length + s.loop.queued.countP Functor.isStartInLoop + s.calls.count .start +
    s.todo.countP Stmt.isAttempt

/-- What is known of the delays so far. -/
structure Paced (ds : List Delay) (s : Connector F) : Prop where
  next : s.retryDelayMs = backoffMs (sinceRestart ds)
  each : ∀ pre delayMs post, ds = pre ++ .retry delayMs :: post → delayMs = backoffMs (sinceRestart pre)

section
variable {s s' : Connector F} {ds : List Delay}

theorem Paced.new : Paced [] (new : Connector F) where
  next := rfl
  each pre delayMs post h := by simp at h

/-- A retry waits for the delay, and doubles it. -/
theorem Paced.retry (h : Paced ds s)
    (hs : s'.retryDelayMs = min (s.retryDelayMs * 2) kMaxRetryDelayMs) :
    Paced (ds ++ [.retry s.retryDelayMs]) s' where
  next := by rw [hs, sinceRestart_retry, backoffMs_succ, h.next]
  each pre delayMs post hsplit := by
    rcases Run.split_append hsplit with ⟨mid, rfl, hmid⟩ | ⟨mid, hds, -⟩
    · cases mid with
      | nil =>
        obtain ⟨he, -⟩ := List.cons.inj hmid
        cases he
        rw [List.append_nil]
        exact h.next
      | cons d mid => simp at hmid
    · exact h.each pre delayMs mid hds

/-- `Restart` goes back to the first delay. -/
theorem Paced.restart (h : Paced ds s) (hs : s'.retryDelayMs = kInitRetryDelayMs) :
    Paced (ds ++ [.restart]) s' where
  next := by rw [hs, sinceRestart_restart, backoffMs_zero]
  each pre delayMs post hsplit := by
    rcases Run.split_append hsplit with ⟨mid, -, hmid⟩ | ⟨mid, hds, -⟩
    · cases mid with
      | nil => simp at hmid
      | cons d mid => simp at hmid
    · exact h.each pre delayMs mid hds

/-- A step that is neither leaves it. -/
theorem Paced.same (h : Paced ds s) (hs : s'.retryDelayMs = s.retryDelayMs) :
    Paced (ds ++ []) s' where
  next := by rw [hs, List.append_nil, h.next]
  each := by rw [List.append_nil]; exact h.each

theorem Paced.exec (h : Paced ds s) {env : Env} (hs : s.step (.exec env) = some s') :
    Paced (ds ++ s.delayBy (.exec env)) s' := by
  obtain ⟨stmt, rest, htodo, hs⟩ := step_exec hs
  simp only [delayBy, htodo]
  cases stmt with
  | restart =>
    cases hs
    exact h.restart rfl
  | retry sockfd =>
    cases hs
    cases hconnect : s.connect with
    | true =>
      simp only [if_true]
      exact h.retry (by simp [retry_eq])
    | false =>
      simp only [Bool.false_eq_true, if_false]
      exact h.same (by simp [retry_eq])
  | start | stop | queueStopInLoop | newConnectionCallback =>
    cases hs
    exact h.same rfl
  | startInLoop =>
    cases hs
    refine h.same ?_
    simp only [startInLoop]
    split_ifs <;> rfl
  | connect =>
    cases hs
    obtain hc | hc | hc := connectSocket_cases { s with todo := rest } env.errno <;>
      exact h.same (by rw [hc]; rfl)
  | handleError =>
    obtain ⟨-, c, -, rfl⟩ | ⟨-, rfl⟩ := handleError_cases hs
    · exact h.same rfl
    · exact h.same rfl
  | handleWrite =>
    obtain ⟨-, c, -, rfl | ⟨-, -, rfl⟩⟩ | ⟨-, rfl⟩ := handleWrite_cases hs
    · exact h.same rfl
    · refine h.same ?_
      split_ifs <;> rfl
    · exact h.same rfl

/-- **The delays**: a retry waits twice as long as the one before it. -/
theorem Paced.step (h : Paced ds s) {a : Act F} (hs : s.step a = some s') :
    Paced (ds ++ s.delayBy a) s' := by
  cases a with
  | exec env => exact h.exec hs
  | start | stop | restart | dispatch | timer =>
    simp only [Connector.step] at hs
    split_ifs at hs
    cases hs
    exact h.same rfl
  | startCall | stopCall =>
    cases hs
    exact h.same rfl
  | queue i =>
    simp only [Connector.step, Option.map_eq_some_iff] at hs
    obtain ⟨c, -, rfl⟩ := hs
    exact h.same rfl
  | beginFunctors | endFunctors | queueOther =>
    obtain ⟨loop, rfl, -⟩ := step_queue hs (by simp)
    exact h.same rfl
  | functor =>
    obtain ⟨-, f, loop, -, hs⟩ := step_functor hs
    cases f with
    | startInLoop | resetChannel | other =>
      cases hs
      exact h.same rfl
    | stopInLoop call =>
      obtain ⟨-, c, -, rfl⟩ | ⟨-, rfl⟩ := stopInLoop_cases hs
      · exact h.same rfl
      · exact h.same rfl

/-! ### Every attempt is asked for -/

theorem asked_push (stmt : Stmt) :
    asked (s.push stmt) = s.asked + if stmt.isAttempt then 1 else 0 := by
  simp only [asked, push, List.countP_cons]
  omega

theorem asked_todo {stmt : Stmt} {rest : List Stmt} (htodo : s.todo = stmt :: rest) :
    s.asked = asked { s with todo := rest } + if stmt.isAttempt then 1 else 0 := by
  simp only [asked, htodo, List.countP_cons]
  omega

/-- The end of an open attempt is no attempt; a retry needs its timer first. -/
theorem asked_dropChannel {c : Channel} : asked (s.dropChannel c) = s.asked := by
  simp [asked, dropChannel, queueInLoop, emit, Functor.isStartInLoop]

theorem asked_exec {env : Env} (hs : s.step (.exec env) = some s') :
    s'.asked ≤ s.asked + (s.delayBy (.exec env)).countP Delay.isRetry := by
  obtain ⟨stmt, rest, htodo, hs⟩ := step_exec hs
  simp only [delayBy, htodo]
  rw [asked_todo htodo]
  cases stmt with
  | start | restart =>
    cases hs
    exact (asked_push _).le
  | stop =>
    cases hs
    exact (asked_push _).le
  | queueStopInLoop call =>
    cases hs
    simp [asked, queueInLoop, Functor.isStartInLoop]
  | startInLoop =>
    cases hs
    cases hconnect : s.connect with
    | true =>
      simp only [startInLoop, emit, if_true]
      exact (asked_push _).le
    | false => exact Nat.le_add_right _ _
  | connect =>
    cases hs
    obtain hc | hc | hc := connectSocket_cases { s with todo := rest } env.errno
    · simp [hc, asked, connecting, emit, Stmt.isAttempt]
      omega
    · simp [hc, asked, push, emit, Stmt.isAttempt]
      omega
    · simp [hc, asked, emit, Stmt.isAttempt]
      omega
  | retry sockfd =>
    cases hs
    rw [retry_eq]
    cases hconnect : s.connect with
    | true =>
      simp [asked, Delay.isRetry, Stmt.isAttempt]
      omega
    | false => exact Nat.le_add_right _ _
  | handleError =>
    obtain ⟨-, c, -, rfl⟩ | ⟨-, rfl⟩ := handleError_cases hs
    · rw [asked_push, asked_dropChannel]
      exact le_rfl
    · exact Nat.le_add_right _ _
  | handleWrite =>
    obtain ⟨-, c, -, rfl | ⟨-, -, rfl⟩⟩ | ⟨-, rfl⟩ := handleWrite_cases hs
    · rw [asked_push, asked_dropChannel]
      exact le_rfl
    · have hdrop := asked_dropChannel (s := { s with todo := rest }) (c := c)
      cases hconnect : s.connect with
      | true =>
        simp only [if_true, asked_push]
        exact hdrop.le
      | false => exact hdrop.le
    · exact Nat.le_add_right _ _
  | newConnectionCallback sockfd =>
    cases hs
    exact Nat.le_add_right _ _

theorem asked_runFunctor {f : Functor F} {loop : EventLoop (Functor F)}
    (hf : s.loop.nextFunctor = some (f, loop))
    (hs : { s with loop := loop }.runFunctor f = some s') : s'.asked ≤ s.asked := by
  have hnext : s.asked = asked { s with loop := loop } + if f.isStartInLoop then 1 else 0 := by
    simp only [asked, EventLoop.queued_nextFunctor hf, List.countP_cons]
    omega
  rw [hnext]
  cases f with
  | startInLoop =>
    cases hs
    exact (asked_push _).le
  | stopInLoop call =>
    obtain ⟨-, c, -, rfl⟩ | ⟨-, rfl⟩ := stopInLoop_cases hs
    · rw [asked_push, asked_dropChannel]
      exact le_rfl
    · exact Nat.le_add_right _ _
  | resetChannel =>
    cases hs
    exact Nat.le_add_right _ _
  | other f =>
    cases hs
    exact Nat.le_add_right _ _

/-- **Attempts are asked for**, by a call or by a retry. -/
theorem asked_step {a : Act F} (hs : s.step a = some s') :
    s'.asked ≤ s.asked + (if a.asks then 1 else 0) + (s.delayBy a).countP Delay.isRetry := by
  cases a with
  | exec env => exact asked_exec hs
  | start | stop | restart =>
    simp only [Connector.step] at hs
    split_ifs at hs
    cases hs
    exact (asked_push _).le
  | startCall =>
    cases hs
    simp [asked, Act.asks]
    omega
  | stopCall =>
    cases hs
    simp [asked, Act.asks, delayBy]
  | queue i =>
    simp only [Connector.step, Option.map_eq_some_iff] at hs
    obtain ⟨c, hc, rfl⟩ := hs
    have hcount := count_eraseIdx hc .start
    cases c with
    | start =>
      simp [asked, queueInLoop, Call.functor, Functor.isStartInLoop] at hcount ⊢
      omega
    | stop call =>
      simp [asked, queueInLoop, Call.functor, Functor.isStartInLoop] at hcount ⊢
      omega
  | dispatch revents =>
    simp only [Connector.step] at hs
    split_ifs at hs with hd
    cases hs
    have hzero : (handlers revents).countP Stmt.isAttempt = 0 := by
      unfold handlers
      split_ifs <;> rfl
    simp [asked, hzero, hd.1, Act.asks, delayBy]
  | timer i =>
    simp only [Connector.step] at hs
    split_ifs at hs with ht
    cases hs
    rw [asked_push]
    simp [asked, List.length_eraseIdx, ht.2.2, Stmt.isAttempt]
    omega
  | beginFunctors | endFunctors | queueOther =>
    obtain ⟨loop, rfl, hloop | ⟨f, hloop⟩⟩ := step_queue hs (by simp)
    · simp [asked, hloop, Act.asks, delayBy]
    · simp [asked, hloop, Functor.isStartInLoop, Act.asks, delayBy]
  | functor =>
    obtain ⟨-, f, loop, hf, hs⟩ := step_functor hs
    exact asked_runFunctor hf hs

/-- In every run, the `n`-th retry since the last `Restart` waits half a second times `2 ^ n`, and half
a minute at most, whoever has called `Start` and `Stop` in between; and the sockets are no more than the
calls of `Start` and `Restart` and the retries, those whose timers are still pending not counted. -/
theorem attempts_paced {acts : List (Act F)} (hrun : run new acts = some s) :
    (∀ pre delayMs post, delays new acts = pre ++ .retry delayMs :: post →
      delayMs = min (500 * 2 ^ sinceRestart pre) 30000) ∧
      s.sockets + s.timers.length ≤
        acts.countP Act.asks + (delays new acts).countP Delay.isRetry := by
  have hinv : run new acts = some s ∧ Paced (delays new acts) s ∧
      s.asked ≤ acts.countP Act.asks + (delays new acts).countP Delay.isRetry := by
    refine Run.run_inv_history
      (P := fun acts m => run new acts = some m ∧ Paced (delays new acts) m ∧
        m.asked ≤ acts.countP Act.asks + (delays new acts).countP Delay.isRetry)
      ⟨rfl, .new, by simp [asked, Connector.new, EventLoop.queued]⟩ (fun acts m a m' hs ih => ?_) hrun
    obtain ⟨hm, hpaced, hasked⟩ := ih
    have hdelays : delays new (acts ++ [a]) = delays new acts ++ m.delayBy a := observed_concat hm
    refine ⟨Run.run_concat.mpr ⟨m, hm, hs⟩, ?_, ?_⟩
    · rw [hdelays]
      exact hpaced.step hs
    · have hstep := asked_step hs
      rw [hdelays, List.countP_append, List.countP_append, List.countP_singleton]
      omega
  obtain ⟨-, hpaced, hasked⟩ := hinv
  refine ⟨hpaced.each, le_trans ?_ hasked⟩
  unfold asked
  omega

/-- A refused attempt and its timer, a `Stop` and a `Start` of another thread, and a second attempt. -/
def refusedTwice : List (Act Empty) :=
  [.start, .exec {}, .exec {}, .exec ⟨some .ECONNREFUSED, false, false⟩, .exec {}, .stopCall,
    .startCall, .timer 0, .exec {}, .exec ⟨some .ECONNREFUSED, false, false⟩, .exec {}]

theorem attempts_paced_refused :
    ∃ s : Connector Empty, run new refusedTwice = some s ∧
      delays new refusedTwice = [.retry 500] ++ .retry 1000 :: [] ∧
      1000 = min (500 * 2 ^ sinceRestart [.retry 500]) 30000 ∧ s.sockets = 2 ∧
      s.sockets + s.timers.length ≤
        refusedTwice.countP Act.asks + (delays new refusedTwice).countP Delay.isRetry :=
  have hrun : run new refusedTwice = some ((run new refusedTwice).get rfl) := rfl
  ⟨_, hrun, rfl, (attempts_paced hrun).1 [.retry 500] 1000 [] rfl, rfl, (attempts_paced hrun).2⟩

end

end MuduoCpp11.Net.Connector
