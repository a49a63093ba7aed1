import MuduoCpp11.Net.Connector.Attempts
import MuduoCpp11.Net.TcpClient

/-! # Connecting a client again

An attempt that ends in `Retry` leaves the connector in `kDisconnected`, and `StartInLoop` can be called
again. An attempt that completes leaves it in `kConnected`, whether the connection is handed over or
closed at once, and only `Restart` leads out of that state: nothing tells the connector that the
connection has closed. So `Connect` can be called as long as no attempt has completed, and the first
time after that the assertion of `StartInLoop` fails. That every `Connect` leads to a `StartInLoop` is a
matter of counting them on their way (`startsAhead`). -/

namespace MuduoCpp11.Net

open MuduoCpp11.Lib

namespace Connector

variable {F : Type*} {s s' : Connector F}

/-- As long as the assertions hold and `Restart` is not called, `kConnected` is a state for good. -/
structure Stated (s : Connector F) : Prop where
  kConnected : s.state = .kConnected ↔ ∃ sockfd, .connected sockfd ∈ s.log
  ahead : ∀ stmt ∈ s.todo, (stmt = .connect ∨ ∃ sockfd, stmt = .retry sockfd) → s.state ≠ .kConnected
  restart : .restart ∉ s.todo

theorem Stated.new : Stated (Connector.new : Connector F) where
  kConnected := by simp [Connector.new]
  ahead := by simp [Connector.new]
  restart := by simp [Connector.new]

/-- The state is kept, and what comes ahead leaves the attempt where it is. -/
theorem Stated.still (h : Stated s) (hstate : s'.state = s.state)
    (hlog : ∀ sockfd, .connected sockfd ∈ s'.log ↔ .connected sockfd ∈ s.log)
    (htodo : ∀ stmt ∈ s'.todo, stmt ∈ s.todo ∨
      stmt ≠ .restart ∧ ((stmt = .connect ∨ ∃ sockfd, stmt = .retry sockfd) → s.state ≠ .kConnected)) :
    Stated s' where
  kConnected := by simp only [hstate, hlog, h.kConnected]
  ahead := by
    intro stmt hmem hstmt
    rw [hstate]
    exact (htodo stmt hmem).elim (fun hmem => h.ahead stmt hmem hstmt) fun hnew => hnew.2 hstmt
  restart := fun hmem => (htodo _ hmem).elim h.restart fun hnew => hnew.1 rfl

/-- A statement is put in front that is not one of an attempt. -/
theorem Stated.still_cons (h : Stated s) (hstate : s'.state = s.state)
    (hlog : ∀ sockfd, .connected sockfd ∈ s'.log ↔ .connected sockfd ∈ s.log) {stmt : Stmt}
    {rest : List Stmt} (htodo : s'.todo = stmt :: rest) (hrest : ∀ x ∈ rest, x ∈ s.todo)
    (hstmt : stmt ≠ .restart ∧
      ((stmt = .connect ∨ ∃ sockfd, stmt = .retry sockfd) → s.state ≠ .kConnected)) : Stated s' := by
  refine h.still hstate hlog fun x hx => ?_
  rw [htodo] at hx
  rcases List.mem_cons.mp hx with rfl | hx
  · exact Or.inr hstmt
  · exact Or.inl (hrest x hx)

/-- The state was not `kConnected` and becomes another one that is not. -/
theorem Stated.moved (h : Stated s) (hstate : s.state ≠ .kConnected) (hstate' : s'.state ≠ .kConnected)
    (hlog : ∀ sockfd, .connected sockfd ∈ s'.log ↔ .connected sockfd ∈ s.log)
    (hrestart : .restart ∉ s'.todo) : Stated s' where
  kConnected := by
    simp only [hlog, ← h.kConnected, hstate, hstate']
  ahead := fun _ _ _ => hstate'
  restart := hrestart

/-- An attempt that was open ends in `Retry`. -/
theorem Stated.dropped (h : Stated s) (hstate : s.state = .kConnecting) {rest : List Stmt}
    (hrestart : .restart ∉ rest) (c : Channel) :
    Stated (({ s with todo := rest }.dropChannel c).push (.retry c.fd)) := by
  have hne : s.state ≠ .kConnected := fun hconnected => by cases hstate.symm.trans hconnected
  refine h.moved hne hne ?_ ?_
  · simp [push, dropChannel, queueInLoop, emit]
  · simpa [push, dropChannel, queueInLoop, emit] using hrestart

theorem Stated.exec (h : Stated s) (hinv : Inv s) {env : Env} {stmt : Stmt} {rest : List Stmt}
    (htodo : s.todo = stmt :: rest) (hs : { s with todo := rest }.exec env stmt = some s')
    (hlog : ∀ e ∈ s'.log, e.Holds) : Stated s' := by
  have hrest : ∀ stmt ∈ rest, stmt = .handleWrite := by simpa [htodo] using hinv.tail
  have hrestart : .restart ∉ rest := fun hmem => by cases hrest _ hmem
  have hmem : stmt ∈ s.todo := by simp [htodo]
  have hold : ∀ stmt ∈ rest, stmt ∈ s.todo := fun stmt hmem => by simp [htodo, hmem]
  have hkept : ∀ x ∈ rest, x ∈ s.todo ∨ x ≠ .restart ∧
      ((x = .connect ∨ ∃ sockfd, x = .retry sockfd) → s.state ≠ .kConnected) :=
    fun x hx => Or.inl (hold x hx)
  cases stmt with
  | start | stop =>
    cases hs
    exact h.still_cons rfl (fun _ => Iff.rfl) rfl hold (by simp)
  | queueStopInLoop call =>
    cases hs
    exact h.still rfl (fun _ => Iff.rfl) hkept
  | restart => exact absurd hmem h.restart
  | startInLoop =>
    cases hs
    cases hconnect : s.connect with
    | true =>
      simp only [startInLoop, emit, hconnect, if_true] at hlog ⊢
      have hstate : s.state = .kDisconnected :=
        hlog (.startInLoop true s.state) (by simp [push])
      exact h.still_cons rfl (by simp [push]) rfl hold (by simp [hstate])
    | false =>
      simp only [startInLoop, emit, Bool.false_eq_true, if_false]
      exact h.still rfl (by simp) hkept
  | connect =>
    cases hs
    have hstate := h.ahead _ hmem (Or.inl rfl)
    obtain hc | hc | hc := connectSocket_cases { s with todo := rest } env.errno
    · rw [hc]
      exact h.moved hstate (by simp [connecting, emit]) (by simp [connecting, emit]) hrestart
    · rw [hc]
      exact h.moved hstate hstate (by simp [push, emit]) (by simpa [push, emit] using hrestart)
    · rw [hc]
      exact h.moved hstate hstate (by simp [emit]) hrestart
  | retry sockfd =>
    cases hs
    rw [retry_eq]
    exact h.moved (h.ahead _ hmem (Or.inr ⟨sockfd, rfl⟩)) (by simp) (by simp) hrestart
  | handleError =>
    obtain ⟨hk, c, -, rfl⟩ | ⟨-, rfl⟩ := handleError_cases hs
    · exact h.dropped hk hrestart c
    · exact h.still rfl (fun _ => Iff.rfl) hkept
  | handleWrite =>
    obtain ⟨hk, c, -, rfl | ⟨-, -, rfl⟩⟩ | ⟨-, rfl⟩ := handleWrite_cases hs
    · exact h.dropped hk hrestart c
    · -- the attempt completes
      have hahead : ∀ x ∈ rest, ¬ (x = .connect ∨ ∃ sockfd, x = .retry sockfd) := by
        intro x hx
        rw [hrest x hx]
        simp
      cases hconnect : s.connect with
      | true =>
        refine ⟨⟨fun _ => ⟨c.fd, by simp [push, emit]⟩, fun _ => rfl⟩, fun x hx hstmt => ?_, ?_⟩
        · rcases List.mem_cons.mp hx with rfl | hx
          · simp at hstmt
          · exact absurd hstmt (hahead x hx)
        · simpa [push, dropChannel, queueInLoop, emit] using hrestart
      | false =>
        refine ⟨⟨fun _ => ⟨c.fd, by simp [emit]⟩, fun _ => rfl⟩, fun x hx hstmt => ?_, hrestart⟩
        exact absurd hstmt (hahead x hx)
    · exact h.still rfl (by simp [emit]) hkept
  | newConnectionCallback sockfd =>
    cases hs
    exact h.still rfl (by simp [emit]) hkept

theorem Stated.runFunctor (h : Stated s) {f : Functor F} {loop : EventLoop (Functor F)}
    (hs : { s with loop := loop }.runFunctor f = some s') : Stated s' := by
  cases f with
  | startInLoop =>
    cases hs
    exact h.still_cons rfl (fun _ => Iff.rfl) rfl (fun _ hx => hx) (by simp)
  | stopInLoop call =>
    obtain ⟨hk, c, -, rfl⟩ | ⟨-, rfl⟩ := stopInLoop_cases hs
    · have hne : s.state ≠ .kConnected := fun hk' => by cases hk.symm.trans hk'
      refine h.moved hne (by simp [push, dropChannel, queueInLoop, emit]) ?_ ?_
      · simp [push, dropChannel, queueInLoop, emit]
      · simpa [push, dropChannel, queueInLoop, emit] using h.restart
    · exact h.still rfl (by simp [emit]) fun x hx => Or.inl hx
  | resetChannel =>
    cases hs
    exact h.still rfl (by simp [resetChannel, emit]) fun x hx => Or.inl hx
  | other f =>
    cases hs
    exact h.still rfl (fun _ => Iff.rfl) fun x hx => Or.inl hx

theorem Stated.step (h : Stated s) (hinv : Inv s) {a : Act F} (hs : s.step a = some s')
    (ha : a ≠ .restart) (hlog : ∀ e ∈ s'.log, e.Holds) : Stated s' := by
  cases a with
  | restart => exact absurd rfl ha
  | exec env =>
    obtain ⟨stmt, rest, htodo, hs⟩ := step_exec hs
    exact h.exec hinv htodo hs hlog
  | functor =>
    obtain ⟨-, f, loop, -, hs⟩ := step_functor hs
    exact h.runFunctor hs
  | start | stop | timer =>
    simp only [Connector.step] at hs
    split_ifs at hs
    cases hs
    exact h.still_cons rfl (fun _ => Iff.rfl) rfl (fun _ hx => hx) (by simp)
  | dispatch revents =>
    simp only [Connector.step] at hs
    split_ifs at hs
    cases hs
    obtain ⟨hnone, -, hfresh⟩ := held_handlersOf revents
    refine h.still rfl (fun _ => Iff.rfl) fun x hx => Or.inr ⟨?_, ?_⟩
    · rintro rfl
      exact hfresh (Or.inr hx)
    · rintro (rfl | ⟨sockfd, rfl⟩)
      · exact absurd (Or.inl hx) hfresh
      · exact absurd ⟨sockfd, hx⟩ (not_retry hnone)
  | startCall | stopCall =>
    cases hs
    exact h.still rfl (fun _ => Iff.rfl) fun x hx => Or.inl hx
  | queue i =>
    simp only [Connector.step, Option.map_eq_some_iff] at hs
    obtain ⟨c, -, rfl⟩ := hs
    exact h.still rfl (fun _ => Iff.rfl) fun x hx => Or.inl hx
  | beginFunctors | endFunctors | queueOther =>
    obtain ⟨loop, rfl, -⟩ := step_queue hs (by simp)
    exact h.still rfl (fun _ => Iff.rfl) fun x hx => Or.inl hx

/-- `StartInLoop` writes its entry, and with `connect_` set the call of `Connect` is ahead. -/
theorem step_startInLoop {env : Env} {rest : List Stmt} (htodo : s.todo = .startInLoop :: rest)
    (hs : s.step (.exec env) = some s') :
    s'.log = s.log ++ [.startInLoop s.connect s.state] ∧ (s.connect = true → .connect ∈ s'.todo) := by
  simp only [Connector.step, htodo, Connector.exec, Option.some.injEq] at hs
  subst hs
  cases hconnect : s.connect with
  | true => simp [startInLoop, emit, push]
  | false => simp [startInLoop, emit]

/-- A statement is executed in front of the others. -/
theorem exec_subset {env : Env} {stmt : Stmt} (hs : s.exec env stmt = some s') : s.todo ⊆ s'.todo := by
  cases stmt with
  | start | stop | restart =>
    cases hs
    exact List.subset_cons_self _ _
  | queueStopInLoop | newConnectionCallback =>
    cases hs
    exact List.Subset.refl _
  | startInLoop =>
    cases hs
    simp only [startInLoop]
    split_ifs
    · exact List.subset_cons_self _ _
    · exact List.Subset.refl _
  | connect =>
    cases hs
    obtain hc | hc | hc := connectSocket_cases s env.errno
    · rw [hc]
      exact List.Subset.refl _
    · rw [hc]
      exact List.subset_cons_self _ _
    · rw [hc]
      exact List.Subset.refl _
  | retry sockfd =>
    cases hs
    rw [retry_eq]
    exact List.Subset.refl _
  | handleError =>
    obtain ⟨-, c, -, rfl⟩ | ⟨-, rfl⟩ := handleError_cases hs
    · exact List.subset_cons_self _ _
    · exact List.Subset.refl _
  | handleWrite =>
    obtain ⟨-, c, -, rfl | ⟨-, -, rfl⟩⟩ | ⟨-, rfl⟩ := handleWrite_cases hs
    · exact List.subset_cons_self _ _
    · split_ifs
      · exact List.subset_cons_self _ _
      · exact List.Subset.refl _
    · exact List.Subset.refl _

/-- What `Connect` begins with. -/
theorem connectSocket_log (s : Connector F) (errno : Option Errno) :
    ∃ new, (s.connectSocket errno).log = s.log ++ .connect s.sockets :: new := by
  obtain hc | hc | hc := connectSocket_cases s errno
  · exact ⟨[.connecting s.channel], by simp [hc, connecting, emit]⟩
  · exact ⟨[], by simp [hc, push, emit]⟩
  · exact ⟨[.close s.sockets], by simp [hc, emit]⟩

/-- A `Connect` that is ahead stays there until `connect(2)` is called. -/
theorem step_connect_ahead {a : Act F} (hs : s.step a = some s') (hmem : .connect ∈ s.todo)
    {new : List Event} (hlog : s'.log = s.log ++ new) :
    .connect ∈ s'.todo ∨ ∃ sockfd, .connect sockfd ∈ new := by
  cases a with
  | start | stop | restart | dispatch | timer =>
    simp only [Connector.step] at hs
    split_ifs at hs with h
    simp [h] at hmem
  | startCall | stopCall =>
    cases hs
    exact Or.inl hmem
  | queue i =>
    simp only [Connector.step, Option.map_eq_some_iff] at hs
    obtain ⟨c, -, rfl⟩ := hs
    exact Or.inl hmem
  | exec env =>
    obtain ⟨stmt, rest, htodo, hs⟩ := step_exec hs
    rcases List.mem_cons.mp (htodo ▸ hmem) with rfl | hmem
    · cases hs
      obtain ⟨new', hnew'⟩ := connectSocket_log { s with todo := rest } env.errno
      have hnew : new = .connect s.sockets :: new' := List.append_cancel_left (hlog.symm.trans hnew')
      exact Or.inr ⟨s.sockets, by simp [hnew]⟩
    · exact Or.inl (exec_subset hs hmem)
  | beginFunctors | endFunctors | queueOther =>
    obtain ⟨loop, rfl, -⟩ := step_queue hs (by simp)
    exact Or.inl hmem
  | functor =>
    obtain ⟨htodo, -⟩ := step_functor hs
    simp [htodo] at hmem

/-- Behind a `StartInLoop` with `connect_` set, `connect(2)` is called. -/
def Issued (s : Connector F) : Prop :=
  ∀ pre state post, s.log = pre ++ .startInLoop true state :: post →
    .connect ∈ s.todo ∨ ∃ sockfd, .connect sockfd ∈ post

theorem Issued.step (h : Issued s) {a : Act F} (hs : s.step a = some s') : Issued s' := by
  intro pre state post hlog'
  obtain ⟨new, hlog, hnew⟩ := step_log hs
  rw [hlog] at hlog'
  rcases Run.split_append hlog' with ⟨mid, rfl, hmid⟩ | ⟨mid, hold, rfl⟩
  · have hcaused := hnew (.startInLoop true state) (by simp [hmid])
    obtain ⟨env, rest, rfl, htodo, hconnect, -⟩ := hcaused.startInLoop_inv
    exact Or.inl ((step_startInLoop htodo hs).2 hconnect.symm)
  · rcases h pre state mid hold with hmem | ⟨sockfd, hmem⟩
    · refine (step_connect_ahead hs hmem hlog).imp_right ?_
      rintro ⟨sockfd, hmem⟩
      exact ⟨sockfd, List.mem_append_right _ hmem⟩
    · exact Or.inr ⟨sockfd, List.mem_append_left _ hmem⟩

/-! ### No `StartInLoop` is lost -/

def Event.isStartInLoop : Event → Bool
  | .startInLoop _ _ => true
  | _ => false

/-- Statements that go on to `StartInLoop`. -/
def Stmt.starts : Stmt → Bool
  | .start | .restart | .startInLoop => true
  | _ => false

/-- The calls of `StartInLoop` that are on their way. -/
def startsAhead (s : Connector F) : ℕ :=
  s.calls.count .start + s.loop.queued.countP Functor.isStartInLoop + s.todo.countP Stmt.starts

/-- And those that have been made. -/
def starts (s : Connector F) : ℕ := s.log.countP Event.isStartInLoop + s.startsAhead

/-- What brings a call of `StartInLoop`. -/
def Act.starts : Act F → ℕ
  | .start | .startCall | .restart | .timer _ => 1
  | _ => 0

theorem starts_push (s : Connector F) (stmt : Stmt) :
    (s.push stmt).starts = s.starts + if stmt.starts then 1 else 0 := by
  simp only [starts, startsAhead, push, List.countP_cons]
  omega

theorem starts_emit (s : Connector F) {e : Event} (he : e.isStartInLoop = false) :
    (s.emit e).starts = s.starts := by
  simp [starts, startsAhead, emit, he]

theorem starts_dropChannel (s : Connector F) (c : Channel) : (s.dropChannel c).starts = s.starts := by
  simp [starts, startsAhead, dropChannel, queueInLoop, emit, Event.isStartInLoop,
    Functor.isStartInLoop]

theorem starts_exec {env : Env} {stmt : Stmt} (hs : s.exec env stmt = some s') :
    s'.starts = s.starts + if stmt.starts then 1 else 0 := by
  cases stmt with
  | start | stop | restart =>
    cases hs
    exact starts_push _ _
  | queueStopInLoop call =>
    cases hs
    simp [starts, startsAhead, queueInLoop, Functor.isStartInLoop, Stmt.starts]
  | startInLoop =>
    cases hs
    have hemit : (s.emit (.startInLoop s.connect s.state)).starts = s.starts + 1 := by
      simp [starts, startsAhead, emit, Event.isStartInLoop]
      omega
    change s.startInLoop.starts = s.starts + 1
    simp only [startInLoop]
    split_ifs
    · exact (starts_push _ _).trans hemit
    · exact hemit
  | connect =>
    cases hs
    have hemit : ({ s with sockets := s.sockets + 1 }.emit (.connect s.sockets)).starts = s.starts :=
      starts_emit { s with sockets := s.sockets + 1 } rfl
    obtain hc | hc | hc := connectSocket_cases s env.errno
    · rw [hc]
      exact (starts_emit _ rfl).trans hemit
    · rw [hc]
      exact (starts_push _ _).trans hemit
    · rw [hc]
      exact (starts_emit _ rfl).trans hemit
  | retry sockfd =>
    cases hs
    rw [retry_eq]
    exact starts_emit s (e := .close sockfd) rfl
  | handleError =>
    obtain ⟨-, c, -, rfl⟩ | ⟨-, rfl⟩ := handleError_cases hs
    · exact (starts_push _ _).trans (starts_dropChannel s c)
    · rfl
  | handleWrite =>
    obtain ⟨-, c, -, rfl | ⟨-, -, rfl⟩⟩ | ⟨-, rfl⟩ := handleWrite_cases hs
    · exact (starts_push _ _).trans (starts_dropChannel s c)
    · have hemit : ({ s.dropChannel c with state := .kConnected }.emit (.connected c.fd)).starts =
          s.starts :=
        (starts_emit { s.dropChannel c with state := .kConnected } rfl).trans (starts_dropChannel s c)
      change _ = s.starts
      split_ifs
      · exact (starts_push _ _).trans hemit
      · exact (starts_emit _ rfl).trans hemit
    · exact starts_emit s rfl
  | newConnectionCallback sockfd =>
    cases hs
    exact starts_emit s rfl

theorem starts_runFunctor {f : Functor F} (hs : s.runFunctor f = some s') :
    s'.starts = s.starts + if f.isStartInLoop then 1 else 0 := by
  cases f with
  | startInLoop =>
    cases hs
    exact starts_push _ _
  | stopInLoop call =>
    have hemit : (s.emit (.stopInLoop call)).starts = s.starts := starts_emit s rfl
    obtain ⟨-, c, -, rfl⟩ | ⟨-, rfl⟩ := stopInLoop_cases hs
    · exact (starts_push _ _).trans ((starts_dropChannel _ c).trans hemit)
    · exact hemit
  | resetChannel =>
    cases hs
    exact starts_emit s rfl
  | other f =>
    cases hs
    rfl

/-- **A call of `StartInLoop` is made or on its way.** -/
theorem starts_step {a : Act F} (hs : s.step a = some s') : s'.starts = s.starts + a.starts := by
  cases a with
  | start | stop | restart =>
    simp only [Connector.step] at hs
    split_ifs at hs
    cases hs
    exact starts_push _ _
  | startCall =>
    cases hs
    simp [starts, startsAhead, Act.starts]
    omega
  | stopCall =>
    cases hs
    simp [starts, startsAhead, Act.starts]
  | queue i =>
    simp only [Connector.step, Option.map_eq_some_iff] at hs
    obtain ⟨c, hc, rfl⟩ := hs
    have hcount := count_eraseIdx hc .start
    cases c <;>
      simp [starts, startsAhead, queueInLoop, Call.functor, Functor.isStartInLoop, Act.starts]
        at hcount ⊢ <;>
      omega
  | exec env =>
    obtain ⟨stmt, rest, htodo, hs⟩ := step_exec hs
    rw [starts_exec hs]
    simp only [starts, startsAhead, htodo, List.countP_cons, Act.starts]
    omega
  | dispatch revents =>
    simp only [Connector.step] at hs
    split_ifs at hs with hd
    cases hs
    have hzero : (handlers revents).countP Stmt.starts = 0 := by
      unfold handlers
      split_ifs <;> rfl
    simp [starts, startsAhead, hzero, hd.1, Act.starts]
  | timer i =>
    simp only [Connector.step] at hs
    split_ifs at hs
    cases hs
    exact starts_push _ _
  | beginFunctors | endFunctors | queueOther =>
    obtain ⟨loop, rfl, hqueued | ⟨f, hqueued⟩⟩ := step_queue hs (by simp)
    · simp [starts, startsAhead, hqueued, Act.starts]
    · simp [starts, startsAhead, hqueued, Functor.isStartInLoop, Act.starts]
  | functor =>
    obtain ⟨-, f, loop, hf, hs⟩ := step_functor hs
    rw [starts_runFunctor hs]
    simp only [starts, startsAhead, EventLoop.queued_nextFunctor hf, List.countP_cons, Act.starts]
    omega

def Functor.isOther : Functor F → Bool
  | .other _ => true
  | _ => false

end Connector

namespace TcpClient

variable {s s' : TcpClient}

/-- There is no connection, nothing that may become one, and no functor of the connector in the queue. -/
def Quiet (s : TcpClient) : Prop :=
  s.connection = none ∧ .start ∉ s.calls ∧ s.connector.tokens = 0 ∧
    ∀ f ∈ s.connector.loop.queued, f.isOther

instance : Decidable s.Quiet := inferInstanceAs (Decidable (_ ∧ _ ∧ _ ∧ _))

/-- `Connect` is called when the client is quiet. -/
def Connects (s : TcpClient) : Act → Prop
  | .connect _ => s.Quiet
  | _ => True

instance (s : TcpClient) : (a : Act) → Decidable (Connects s a)
  | .connect _ => inferInstanceAs (Decidable s.Quiet)
  | .disconnect | .stop _ | .call _ | .close _ | .connector _ => isTrue trivial

/-- Without `retry_`, an action is at most one step of the connector, and that is not `Restart`. -/
theorem step_one (hretry : s.retry = false) {a : Act} (hs : s.step a = some s') :
    s.acts a = [] ∧ s'.connector = s.connector ∨
      ∃ a', s.acts a = [a'] ∧ a' ≠ .restart ∧ s.connector.step a' = some s'.connector := by
  have hrun := step_connector hs
  have hone (a' : Connector.Act Functor) (ha : s.acts a = [a']) (hne : a' ≠ .restart) :
      ∃ a', s.acts a = [a'] ∧ a' ≠ .restart ∧ s.connector.step a' = some s'.connector := by
    refine ⟨a', ha, hne, ?_⟩
    rw [ha] at hrun
    simpa [Connector.run] using hrun
  have hnone (ha : s.acts a = []) : s.acts a = [] ∧ s'.connector = s.connector := by
    refine ⟨ha, ?_⟩
    rw [ha] at hrun
    exact (Option.some.inj hrun).symm
  cases a with
  | connect b | stop b =>
    cases b with
    | false => exact Or.inl (hnone rfl)
    | true => exact Or.inr (hone _ rfl (by simp))
  | disconnect => exact Or.inl (hnone rfl)
  | call i =>
    cases hcall : s.calls[i]? with
    | none => exact Or.inl (hnone (by simp [acts, hcall]))
    | some call =>
      refine Or.inr (hone call.act (by simp [acts, hcall]) ?_)
      cases call <;> simp [Call.act]
  | close sockfd =>
    refine Or.inr (hone (.queueOther true (.connectDestroyed sockfd)) ?_ (by simp))
    simp [acts, removeActs, hretry]
  | connector a =>
    refine Or.inr (hone a rfl ?_)
    rintro rfl
    simp [step, ofLoop] at hs

/-- The tokens of the connector, and those that other threads are about to bring. -/
def tokens (s : TcpClient) : ℕ := s.connector.tokens + s.calls.count .start

def Act.connects : Act → ℕ
  | .connect _ => 1
  | _ => 0

/-- Of the steps of the connector, the client makes `Start` for a `Connect`, at once or by way of
`calls`. So what these steps weigh is counted by the calls of `Connect`, and by the steps of the loop. -/
theorem sum_acts (hretry : s.retry = false) {a : Act} (hs : s.step a = some s')
    {w : Connector.Act Functor → ℕ} (hstart : w .start = 1 ∧ w .startCall = 1)
    (hstop : w .stop = 0 ∧ w .stopCall = 0) (hother : ∀ b f, w (.queueOther b f) = 0) :
    ((s.acts a).map w).sum + s'.calls.count .start = s.calls.count .start +
      match a with
      | .connector a => w a
      | a => a.connects := by
  rw [(step_flags hs).2.2]
  cases a with
  | connect b =>
    cases b with
    | false => simp [acts, callsAfter, Act.connects]
    | true =>
      simp [acts, callsAfter, Act.connects, hstart]
      omega
  | stop b =>
    cases b with
    | false => simp [acts, callsAfter, Act.connects]
    | true => simp [acts, callsAfter, Act.connects, hstop]
  | disconnect => simp [acts, callsAfter, Act.connects]
  | call i =>
    cases hcall : s.calls[i]? with
    | none =>
      have hi : s.calls.length ≤ i := List.getElem?_eq_none_iff.mp hcall
      simp [acts, callsAfter, hcall, Act.connects, List.eraseIdx_of_length_le hi]
    | some call =>
      have hcount := Connector.count_eraseIdx hcall .start
      cases call with
      | start =>
        simp [acts, callsAfter, hcall, Call.act, Act.connects, hstart] at hcount ⊢
        omega
      | stop =>
        simp [acts, callsAfter, hcall, Call.act, Act.connects, hstop] at hcount ⊢
        omega
  | close sockfd => simp [acts, callsAfter, removeActs, hretry, Act.connects, hother]
  | connector a =>
    simp [acts, callsAfter]
    omega

/-- Steps of the loop bring no token. -/
theorem newTokens_ofLoop {a : Connector.Act Functor} (ha : ofLoop a = true) : a.newTokens = 0 := by
  cases a <;> simp_all [ofLoop, Connector.Act.newTokens]

theorem tokens_step (hretry : s.retry = false) (hinv : s.connector.Inv) {a : Act}
    (hs : s.step a = some s') : s'.tokens ≤ s.tokens + a.connects := by
  have hconnector : s'.connector.tokens ≤
      s.connector.tokens + ((s.acts a).map Connector.Act.newTokens).sum := by
    rcases step_one hretry hs with ⟨-, hc⟩ | ⟨a', hacts, -, hstep⟩
    · exact hc ▸ Nat.le_add_right _ _
    · simpa [hacts] using Connector.tokens_step hinv hstep
  have hsum := sum_acts hretry hs (w := Connector.Act.newTokens) ⟨rfl, rfl⟩ ⟨rfl, rfl⟩
    fun _ _ => rfl
  rw [tokens, tokens]
  cases a with
  | connector a =>
    simp only [step] at hs
    split_ifs at hs with hloop
    simp only [newTokens_ofLoop hloop] at hsum
    omega
  | connect | disconnect | stop | call | close =>
    simp only at hsum
    omega

/-- The calls of `StartInLoop` that are on their way. -/
def startsAhead (s : TcpClient) : ℕ := s.connector.startsAhead + s.calls.count .start

/-- What brings a call of `StartInLoop`: `Connect`, and a retry timer. -/
def Act.starts : Act → Bool
  | .connect _ | .connector (.timer _) => true
  | _ => false

theorem starts_ofLoop {a : Connector.Act Functor} (ha : ofLoop a = true) :
    a.starts = if Act.starts (.connector a) then 1 else 0 := by
  cases a <;> simp_all [ofLoop, Connector.Act.starts, Act.starts]

theorem starts_step (hretry : s.retry = false) {a : Act} (hs : s.step a = some s') :
    s'.connector.starts + s'.calls.count .start =
      s.connector.starts + s.calls.count .start + if a.starts then 1 else 0 := by
  have hconnector : s'.connector.starts =
      s.connector.starts + ((s.acts a).map Connector.Act.starts).sum := by
    rcases step_one hretry hs with ⟨hacts, hc⟩ | ⟨a', hacts, -, hstep⟩
    · simp [hc, hacts]
    · simpa [hacts] using Connector.starts_step hstep
  have hsum := sum_acts hretry hs (w := Connector.Act.starts) ⟨rfl, rfl⟩ ⟨rfl, rfl⟩ fun _ _ => rfl
  cases a with
  | connector a =>
    simp only [step] at hs
    split_ifs at hs with hloop
    simp only [starts_ofLoop hloop] at hsum
    omega
  | connect | disconnect | stop | call | close =>
    simp only [Act.connects] at hsum
    simp only [Act.starts, if_true, Bool.false_eq_true, if_false]
    omega

/-- What holds as long as the assertions do. -/
structure Again (s : TcpClient) : Prop where
  retry : s.retry = false
  inv : s.connector.Inv
  tokens : s.tokens ≤ 1
  stated : s.connector.Stated

theorem Again.new : Again (new false) where
  retry := rfl
  inv := .new
  tokens := by decide
  stated := .new

theorem Again.step (h : Again s) {a : Act} (hok : Connects s a) (hs : s.step a = some s')
    (hlog : ∀ e ∈ s'.connector.log, e.Holds) : Again s' := by
  have htokens := tokens_step h.retry h.inv hs
  refine ⟨(step_flags hs).1.trans h.retry, ?_, ?_, ?_⟩
  · rcases step_one h.retry hs with ⟨-, hc⟩ | ⟨a', -, ha, hstep⟩
    · exact hc ▸ h.inv
    · exact h.inv.step hstep (fun hr => absurd hr ha) (.of_holds hlog)
  · cases a with
    | connect b =>
      have hzero : s.tokens = 0 := by
        rw [TcpClient.tokens, hok.2.2.1, List.count_eq_zero.mpr hok.2.1]
      rw [hzero] at htokens
      exact htokens
    | disconnect | stop | call | close | connector => exact htokens.trans h.tokens
  · rcases step_one h.retry hs with ⟨-, hc⟩ | ⟨a', -, ha, hstep⟩
    · exact hc ▸ h.stated
    · exact h.stated.step h.inv hstep ha hlog

/-- A `StartInLoop` finds `kDisconnected` if no attempt has completed. -/
theorem Again.startInLoop (h : Again s) {rest : List Connector.Stmt}
    (htodo : s.connector.todo = .startInLoop :: rest) :
    s.connector.state = .kDisconnected ↔ ∀ sockfd, .connected sockfd ∉ s.connector.log := by
  have hnot := h.inv.not_kConnecting ((Nat.le_add_right _ _).trans h.tokens) htodo
  have hiff := not_congr h.stated.kConnected
  rw [not_exists] at hiff
  rw [← hiff]
  cases hstate : s.connector.state with
  | kDisconnected => simp
  | kConnecting => exact absurd hstate hnot
  | kConnected => simp

/-- The entries of the log, up to the first assertion that fails. -/
structure Started (s : TcpClient) : Prop where
  retry : s.retry = false
  again : (∀ e ∈ s.connector.log, e.Holds) → Again s
  iff : ∀ pre connect state post, s.connector.log = pre ++ .startInLoop connect state :: post →
    (∀ e ∈ pre, e.Holds) → (state = .kDisconnected ↔ ∀ sockfd, .connected sockfd ∉ pre)
  issued : s.connector.Issued

theorem Started.new : Started (new false) where
  retry := rfl
  again := fun _ => .new
  iff := by simp [TcpClient.new]
  issued := by simp [TcpClient.new, Connector.Issued]

theorem Started.step (h : Started s) {a : Act} (hok : Connects s a) (hs : s.step a = some s') :
    Started s' := by
  refine ⟨(step_flags hs).1.trans h.retry, fun hlog => ?_, ?_, ?_⟩
  · refine (h.again fun e he => hlog e ?_).step hok hs hlog
    rcases step_one h.retry hs with ⟨-, hc⟩ | ⟨a', -, -, hstep⟩
    · exact hc ▸ he
    · obtain ⟨new, hnew, -⟩ := Connector.step_log hstep
      exact hnew ▸ List.mem_append_left _ he
  · rcases step_one h.retry hs with ⟨-, hc⟩ | ⟨a', -, -, hstep⟩
    · exact hc ▸ h.iff
    · intro pre connect state post hlog hpre
      obtain ⟨new, hnew, hcaused⟩ := Connector.step_log hstep
      rcases Run.split_append (hnew.symm.trans hlog) with ⟨mid, rfl, rfl⟩ | ⟨mid, hold, -⟩
      · -- the entry is a new one, and the only one of its step
        obtain ⟨env, rest, rfl, htodo, -, rfl⟩ :=
          (hcaused (.startInLoop connect state) (by simp)).startInLoop_inv
        have hsingle := (Connector.step_startInLoop htodo hstep).1
        have hmid : mid = [] := by
          have hlen := congrArg List.length (List.append_cancel_left (hnew.symm.trans hsingle))
          simp at hlen
          exact List.length_eq_zero_iff.mp (by omega)
        subst hmid
        rw [List.append_nil] at hpre ⊢
        exact (h.again hpre).startInLoop htodo
      · exact h.iff pre connect state mid hold hpre
  · rcases step_one h.retry hs with ⟨-, hc⟩ | ⟨a', -, -, hstep⟩
    · exact hc ▸ h.issued
    · exact h.issued.step hstep

/-- **A client can be connected as long as no attempt has completed.** Without `retry_`, and with
`Connect` called when the client is quiet, every `Connect` and every retry timer leads to one call of
`StartInLoop`, that has been made or is on its way. Each of these calls up to the first assertion that
fails finds `kDisconnected`, and goes on to `connect(2)` if `connect_` is still set, exactly if no attempt
before it has completed. -/
theorem connect_again_iff {acts : List Act} {s : TcpClient}
    (hok : Run.Along TcpClient.step Connects (new false) acts)
    (hrun : run (new false) acts = some s) :
    s.connector.log.countP Connector.Event.isStartInLoop + s.startsAhead =
        acts.countP Act.starts ∧
      ∀ pre connect state post, s.connector.log = pre ++ .startInLoop connect state :: post →
        (∀ e ∈ pre, e.Holds) →
        ((state = .kDisconnected ∧ (connect = true →
          .connect ∈ s.connector.todo ∨ ∃ sockfd, .connect sockfd ∈ post)) ↔
            ∀ sockfd, .connected sockfd ∉ pre) := by
  have h : Started s :=
    Run.run_inv_along (fun _ _ _ hok hs h => Started.step h hok hs) hok hrun .new
  constructor
  · have hcount : s.connector.starts + s.calls.count .start = 0 + acts.countP Act.starts :=
      Run.run_countP_of (P := fun s => s.retry = false)
        (f := fun s => s.connector.starts + s.calls.count .start)
        (fun _ _ _ hretry hs => ⟨(step_flags hs).1.trans hretry, starts_step hretry hs⟩) hrun rfl
    rw [Nat.zero_add] at hcount
    rw [← hcount, startsAhead, Connector.starts, Nat.add_assoc]
  · intro pre connect state post hlog hpre
    rw [← h.iff pre connect state post hlog hpre]
    refine ⟨fun hstate => hstate.1, fun hstate => ⟨hstate, ?_⟩⟩
    rintro rfl
    exact h.issued pre state post hlog

/-- An attempt is stopped, and `Connect` is called again. -/
theorem connect_again_after_stop :
    let acts : List Act := [.connect false, .call 0, .connector (.queue 0), .connector .beginFunctors,
      .connector .functor, .connector (.exec {}), .connector (.exec {}), .connector .endFunctors,
      .stop true, .connector (.exec {}), .connector (.exec {}), .connector .beginFunctors,
      .connector .functor, .connector (.exec {}), .connector .endFunctors, .connector .beginFunctors,
      .connector .functor, .connector .endFunctors, .connect true, .connector (.exec {}),
      .connector (.exec {}), .connector (.exec {})]
    ∃ s pre, run (new false) acts = some s ∧
      s.connector.log = pre ++ [.startInLoop true .kDisconnected, .connect 1, .connecting none] ∧
      (∀ e ∈ pre, e.Holds) ∧ ∀ sockfd, .connected sockfd ∉ pre := by
  intro acts
  have hok : Run.Along TcpClient.step Connects (new false) acts := by decide
  obtain ⟨s, hrun, pre, hlog, hpre⟩ : ∃ s, run (new false) acts = some s ∧
      ∃ pre, s.connector.log = pre ++ [.startInLoop true .kDisconnected, .connect 1, .connecting none] ∧
        ∀ e ∈ pre, e.Holds :=
    ⟨_, rfl, [.startInLoop true .kDisconnected, .connect 0, .connecting none, .stopInLoop 0,
      .removeChannel 0, .close 0, .resetChannel (some { fd := 0 })], by decide, by decide⟩
  have hiff := (connect_again_iff hok hrun).2 pre true .kDisconnected _ hlog hpre
  exact ⟨s, pre, hrun, hlog, hpre, hiff.mp ⟨rfl, fun _ => Or.inr ⟨1, by simp⟩⟩⟩

/-- A connection is established and closed by the peer, and all of its functors have run: `Connect` runs
`StartInLoop` with `kConnected`. -/
theorem connect_again_after_close :
    ¬ ∀ (acts : List Act) (s : TcpClient) (pre post : List Connector.Event) (connect : Bool)
      (state : Connector.States), Run.Along TcpClient.step Connects (new false) acts →
      run (new false) acts = some s → s.connector.log = pre ++ .startInLoop connect state :: post →
      (∀ e ∈ pre, e.Holds) → state = .kDisconnected := by
  intro hall
  have hstate := hall [.connect false, .call 0, .connector (.queue 0), .connector .beginFunctors,
      .connector .functor, .connector (.exec {}), .connector (.exec {}), .connector .endFunctors,
      .connector (.dispatch POLLOUT), .connector (.exec {}), .connector (.exec {}), .close 0,
      .connector .beginFunctors, .connector .functor, .connector .functor, .connector .endFunctors,
      .connect false, .call 0, .connector (.queue 0), .connector .beginFunctors, .connector .functor,
      .connector (.exec {})] _
    [.startInLoop true .kDisconnected, .connect 0, .connecting none, .removeChannel 0, .connected 0,
      .newConnection 0, .resetChannel (some { fd := 0 })] [] true .kConnected
    (by decide) rfl (by decide) (by decide)
  cases hstate

end TcpClient

end MuduoCpp11.Net
