import MuduoCpp11.Net.Connector.Attempts

/-! # The connector of a client that is gone

The functors of a connector hold `this` and do not share it: `StopInLoop`, which `~TcpClient` queues,
and `ResetChannel`, which `StopInLoop` queues in its turn. So a client without a connection leaves its
connector to a timer that does nothing for a second (`RemoveConnector`).

That is long enough if the loop goes through its functors twice in that second: the first round closes
the attempt, and the second one resets its channel. Then nothing but retry timers shares the connector,
and these find `connect_` down (`connector_outlives_functors`). A loop that is held up by a callback for
a second destroys the connector in between, with its channel.

`~TcpClient` is called on the loop thread, and no other thread is inside of `Connect` or `Stop`. -/

namespace MuduoCpp11.Net

open MuduoCpp11.Lib

namespace Connector

variable {F : Type*}

/-- It holds the connector. -/
def Functor.isOwn : Functor F → Bool
  | .startInLoop | .stopInLoop _ | .resetChannel => true
  | .other _ => false

/-- A call of the client. -/
def Act.ofClient : Act F → Bool
  | .start | .stop | .restart | .startCall | .stopCall => true
  | _ => false

/-- A round of functors begins or ends. -/
def Act.phase (p : ℕ) : Act F → ℕ
  | .beginFunctors => p + p % 2 + 1
  | .endFunctors => p + p % 2
  | _ => p

def Stmt.isNewConnection : Stmt → Bool
  | .newConnectionCallback _ => true
  | _ => false

end Connector

/-- A connector and who shares it: the client, the timer of `RemoveConnector`, and the retry timers.
`phase` counts the rounds of functors since the destructor, in halves: it is odd inside of a round.
`dangling` is history: a connector, or a client, that is gone has been called. -/
structure ClientConnector (F : Type*) where
  connector : Connector F
  client : Bool := true
  timer : Bool := false
  phase : ℕ := 0
  destroyed : Bool := false
  dangling : Bool := false

namespace ClientConnector

variable {F : Type*}

def new : ClientConnector F := { connector := Connector.new }

inductive Act (F : Type*) where
  /-- A step of the loop, of the connector, or of the client with it. -/
  | connector (a : Connector.Act F)
  /-- `~TcpClient`, without a connection. -/
  | destroy
  /-- The timer fires. -/
  | removeConnector

section
variable (s : ClientConnector F)

def refs : ℕ := s.client.toNat + s.timer.toNat + s.connector.timers.length

/-- The step calls a connector that is destroyed, or its client that is. -/
def callsGone : Connector.Act F → Bool
  | .functor => s.destroyed && s.connector.loop.functors.head?.any Connector.Functor.isOwn
  | .dispatch _ => s.destroyed
  | .exec _ => s.destroyed || !s.client && s.connector.todo.head?.any Connector.Stmt.isNewConnection
  | _ => false

/-- Timers and the destructor are called by the loop when it has nothing else ahead. -/
def exec : Act F → Option (ClientConnector F)
  | .connector a =>
    if s.client = false ∧ a.ofClient then none
    else (s.connector.step a).map fun connector =>
      { s with connector, phase := a.phase s.phase, dangling := s.dangling || s.callsGone a }
  | .destroy =>
    if s.client ∧ s.connector.todo = [] ∧ s.connector.calls = [] then
      (s.connector.run [.stop, .exec {}, .exec {}]).map fun connector =>
        { s with connector, client := false, timer := true, phase := 0 }
    else none
  | .removeConnector =>
    if s.timer ∧ s.connector.todo = [] ∧ s.connector.loop.callingPendingFunctors = false then
      some { s with timer := false }
    else none

/-- The last one to share the connector destroys it. -/
def settle : ClientConnector F :=
  { s with destroyed := s.destroyed || decide (s.refs = 0 ∧ s.connector.todo = []) }

def step (act : Act F) : Option (ClientConnector F) := (s.exec act).map settle

end

def run : ClientConnector F → List (Act F) → Option (ClientConnector F) := Run.run step

end ClientConnector

namespace Connector

variable {F : Type*} {c c' : Connector F} {a : Act F} {p : ℕ}

/-- What may be ahead of the loop thread with `connect_` down. -/
def Stmt.isIdle : Stmt → Bool
  | .startInLoop | .retry _ | .handleError | .handleWrite => true
  | _ => false

/-- The connector is left to itself: its attempt is closed in the first round, its channel reset in the
second one. -/
structure Leaving (p : ℕ) (c : Connector F) : Prop where
  connect : c.connect = false
  calls : c.calls = []
  todo : ∀ stmt ∈ c.todo, stmt.isIdle = true
  registered : c.registered = true →
    p = 0 ∧ (∃ call, .stopInLoop call ∈ c.loop.pendingFunctors) ∨
      p = 1 ∧ ∃ call, .stopInLoop call ∈ c.loop.functors
  pending : 3 ≤ p → ∀ f ∈ c.loop.pendingFunctors, f.isOwn = false
  functors : 4 ≤ p → ∀ f ∈ c.loop.functors, f.isOwn = false

/-- With nothing else ahead, an open attempt has its channel in the poller. -/
theorem Inv.registered_of_kConnecting (h : Inv c) (hstate : c.state = .kConnecting)
    (htodo : ∀ sockfd, .retry sockfd ∉ c.todo) : c.registered = true :=
  (h.kConnecting hstate).resolve_right fun ⟨sockfd, hmem⟩ => htodo sockfd hmem

theorem Leaving.queued_own (h : Leaving p c) (hp : 4 ≤ p) : ∀ f ∈ c.loop.queued, f.isOwn = false := by
  intro f hf
  rcases List.mem_append.mp hf with hf | hf
  · exact h.functors hp f hf
  · exact h.pending (by omega) f hf

theorem Leaving.not_registered (h : Leaving p c) (hp : 2 ≤ p) : c.registered = false := by
  by_contra hreg
  rcases h.registered (by simpa using hreg) with ⟨hp', -⟩ | ⟨hp', -⟩ <;> omega

/-- The loop goes on, and the attempt stays or is over. -/
theorem Leaving.stay (h : Leaving p c) (hconnect : c'.connect = false) (hcalls : c'.calls = [])
    (htodo : ∀ stmt ∈ c'.todo, stmt.isIdle = true)
    (hregistered : c'.registered = true → c.registered = true)
    (hstop : c'.registered = true →
      ∀ call, .stopInLoop call ∈ c.loop.functors → .stopInLoop call ∈ c'.loop.functors)
    (hfunctors : ∀ f ∈ c'.loop.functors, f ∈ c.loop.functors)
    (hpending : ∀ f ∈ c'.loop.pendingFunctors, f ∈ c.loop.pendingFunctors ∨ f.isOwn = false)
    (hkept : ∀ f ∈ c.loop.pendingFunctors, f ∈ c'.loop.pendingFunctors) : Leaving p c' where
  connect := hconnect
  calls := hcalls
  todo := htodo
  registered hreg := (h.registered (hregistered hreg)).imp
    (And.imp_right fun ⟨call, hmem⟩ => ⟨call, hkept _ hmem⟩)
    (And.imp_right fun ⟨call, hmem⟩ => ⟨call, hstop hreg call hmem⟩)
  pending hp f hf := (hpending f hf).elim (h.pending hp f) id
  functors hp f hf := h.functors hp f (hfunctors f hf)

/-- The loop thread turns to other statements. -/
theorem Leaving.of_todo (h : Leaving p c) (hconnect : c'.connect = false) (hcalls : c'.calls = [])
    (htodo : ∀ stmt ∈ c'.todo, stmt.isIdle = true) (hchannel : c'.channel = c.channel)
    (hloop : c'.loop = c.loop) : Leaving p c' := by
  refine h.stay hconnect hcalls htodo ?_ ?_ ?_ ?_ ?_
  · simp only [Connector.registered, hchannel, imp_self]
  · simp only [hloop, imp_self, implies_true]
  · simp only [hloop, imp_self, implies_true]
  · exact fun f hf => Or.inl (hloop ▸ hf)
  · simp only [hloop, imp_self, implies_true]

/-- The attempt is closed, and its `ResetChannel` is queued. -/
theorem Leaving.drop (h : Leaving p c) (hopen : c.registered = true) (hconnect : c'.connect = false)
    (hcalls : c'.calls = []) (htodo : ∀ stmt ∈ c'.todo, stmt.isIdle = true) {ch : Channel}
    (hchannel : c'.channel = some ch.disableAll.remove) : Leaving p c' := by
  have hp : p ≤ 1 := by
    rcases h.registered hopen with ⟨rfl, -⟩ | ⟨rfl, -⟩ <;> omega
  have hreg : c'.registered = false := by simp [Connector.registered, hchannel, Channel.remove]
  exact ⟨hconnect, hcalls, htodo, by simp [hreg], fun hp' => by omega, fun hp' => by omega⟩

theorem Leaving.exec (h : Leaving p c) (hinv : Inv c) {env : Env} {stmt : Stmt} {rest : List Stmt}
    (htodo : c.todo = stmt :: rest) (hs : { c with todo := rest }.exec env stmt = some c') :
    Leaving p c' := by
  have hstmt : stmt.isIdle = true := h.todo stmt (by simp [htodo])
  have hrest (x : Stmt) (hx : x ∈ rest) : x.isIdle = true := h.todo x (by simp [htodo, hx])
  have htail : ∀ x ∈ rest, x = .handleWrite := by simpa [htodo] using hinv.tail
  have hopen (hstate : c.state = .kConnecting) (hne : ∀ sockfd, stmt ≠ .retry sockfd) :
      c.registered = true := by
    refine hinv.registered_of_kConnecting hstate fun sockfd hmem => ?_
    rw [htodo, List.mem_cons] at hmem
    rcases hmem with hmem | hmem
    · exact hne sockfd hmem.symm
    · cases htail _ hmem
  have hretry (sockfd : ℤ) (x : Stmt) (hx : x ∈ Stmt.retry sockfd :: rest) : x.isIdle = true := by
    rcases List.mem_cons.mp hx with rfl | hx
    · rfl
    · exact hrest x hx
  cases stmt with
  | startInLoop =>
    cases hs
    simp only [startInLoop, emit, h.connect, Bool.false_eq_true, if_false]
    exact h.of_todo rfl h.calls hrest rfl rfl
  | retry sockfd =>
    cases hs
    simp only [retry_eq, h.connect, Bool.false_eq_true, if_false]
    exact h.of_todo rfl h.calls hrest rfl rfl
  | handleError =>
    obtain ⟨hstate, ch, -, rfl⟩ | ⟨-, rfl⟩ := handleError_cases hs
    · exact h.drop (hopen hstate (by simp)) h.connect h.calls (hretry ch.fd) rfl
    · exact h.of_todo h.connect h.calls hrest rfl rfl
  | handleWrite =>
    obtain ⟨hstate, ch, -, rfl | ⟨-, -, rfl⟩⟩ | ⟨-, rfl⟩ := handleWrite_cases hs
    · exact h.drop (hopen hstate (by simp)) h.connect h.calls (hretry ch.fd) rfl
    · rw [if_neg (by simp [h.connect])]
      exact h.drop (hopen hstate (by simp)) h.connect h.calls hrest rfl
    · exact h.of_todo h.connect h.calls hrest rfl rfl
  | start | stop | queueStopInLoop | restart | connect | newConnectionCallback => cases hstmt

/-- The first functor of the round is called, and it is not `StopInLoop`. -/
theorem Leaving.next (h : Leaving p c) {f : Functor F} {loop : EventLoop (Functor F)}
    (hl : c.loop.nextFunctor = some (f, loop)) (hf : ∀ call, f ≠ .stopInLoop call)
    (hconnect : c'.connect = false) (hcalls : c'.calls = [])
    (htodo : ∀ stmt ∈ c'.todo, stmt.isIdle = true)
    (hregistered : c'.registered = true → c.registered = true) (hloop : c'.loop = loop) :
    Leaving p c' := by
  obtain ⟨hfunctors, hpending, -, -⟩ := EventLoop.nextFunctor_spec hl
  subst hloop
  refine h.stay hconnect hcalls htodo hregistered (fun _ call hmem => ?_) (fun g hg => ?_)
    (fun g hg => Or.inl (hpending ▸ hg)) fun g hg => hpending ▸ hg
  · rw [hfunctors, List.mem_cons] at hmem
    exact hmem.resolve_left (hf call).symm
  · rw [hfunctors]
    exact List.mem_cons_of_mem f hg

theorem Leaving.functor (h : Leaving p c) (hinv : Inv c) (htodo : c.todo = [])
    {f : Functor F} {loop : EventLoop (Functor F)} (hl : c.loop.nextFunctor = some (f, loop))
    (hs : { c with loop }.runFunctor f = some c') : Leaving p c' := by
  cases f with
  | startInLoop =>
    cases hs
    refine h.next hl nofun h.connect h.calls (fun stmt hmem => ?_) id rfl
    rcases List.mem_cons.mp hmem with rfl | hmem
    · rfl
    · exact h.todo stmt hmem
  | stopInLoop call =>
    obtain ⟨hstate, ch, -, rfl⟩ | ⟨hstate, rfl⟩ := stopInLoop_cases hs
    · refine h.drop (hinv.registered_of_kConnecting hstate (by simp [htodo])) h.connect h.calls ?_ rfl
      intro stmt hmem
      rcases List.mem_cons.mp hmem with rfl | hmem
      · rfl
      · exact h.todo stmt hmem
    · -- there is no attempt
      have hreg : c.registered = false := by
        by_contra hreg
        exact hstate (hinv.registered (by simpa using hreg))
      obtain ⟨hfunctors, hpending, -, -⟩ := EventLoop.nextFunctor_spec hl
      refine h.stay h.connect h.calls h.todo id (fun hreg' => ?_) (fun g hg => ?_)
        (fun g hg => Or.inl (hpending ▸ hg)) fun g hg => hpending ▸ hg
      · exact absurd (hreg.symm.trans hreg') nofun
      · rw [hfunctors]
        exact List.mem_cons_of_mem _ hg
  | resetChannel =>
    cases hs
    exact h.next hl nofun h.connect h.calls h.todo (fun hreg => by cases hreg) rfl
  | other g =>
    cases hs
    exact h.next hl nofun h.connect h.calls h.todo id rfl

/-- The loop takes its queue: at the end of the first round there is no attempt, and at that of the
second one no functor. -/
theorem Leaving.beginFunctors (h : Leaving p c) {loop : EventLoop (Functor F)}
    (hl : c.loop.beginFunctors = some loop) : Leaving (p + p % 2 + 1) { c with loop } := by
  unfold EventLoop.beginFunctors at hl
  split_ifs at hl with hcalling
  cases hl
  have hnil : c.loop.functors = [] := c.loop.idle (by simpa using hcalling)
  refine ⟨h.connect, h.calls, h.todo, fun hreg => ?_, fun _ => by simp, fun hp f hf => ?_⟩
  · rcases h.registered hreg with ⟨rfl, hstop⟩ | ⟨-, call, hmem⟩
    · exact Or.inr ⟨rfl, hstop⟩
    · rw [hnil] at hmem
      cases hmem
  · exact h.pending (by omega) f hf

theorem Leaving.endFunctors (h : Leaving p c) {loop : EventLoop (Functor F)}
    (hl : c.loop.endFunctors = some loop) : Leaving (p + p % 2) { c with loop } := by
  unfold EventLoop.endFunctors at hl
  split_ifs at hl with hend
  cases hl
  refine ⟨h.connect, h.calls, h.todo, fun hreg => ?_, fun hp => h.pending (by omega), fun _ => ?_⟩
  · rcases h.registered hreg with ⟨rfl, hstop⟩ | ⟨-, call, hmem⟩
    · exact Or.inl ⟨rfl, hstop⟩
    · rw [hend.2] at hmem
      cases hmem
  · simp [hend.2]

theorem Leaving.step (h : Leaving p c) (hinv : Inv c) (hs : c.step a = some c')
    (ha : a.ofClient = false) : Leaving (a.phase p) c' := by
  cases a with
  | start | stop | restart | startCall | stopCall => cases ha
  | queue i =>
    simp only [Connector.step, h.calls, List.getElem?_nil, Option.map_none] at hs
    cases hs
  | queueOther b f =>
    cases hs
    refine h.stay h.connect h.calls h.todo id (fun _ _ hmem => hmem) (fun _ hf => hf)
      (fun g hg => ?_) fun g hg => List.mem_append_left _ hg
    rcases List.mem_append.mp hg with hg | hg
    · exact Or.inl hg
    · exact Or.inr (by rw [List.mem_singleton.mp hg]; rfl)
  | exec env =>
    obtain ⟨stmt, rest, htodo, hs⟩ := step_exec hs
    exact h.exec hinv htodo hs
  | dispatch revents =>
    simp only [Connector.step] at hs
    split_ifs at hs
    cases hs
    refine h.of_todo h.connect h.calls (fun stmt hmem => ?_) rfl rfl
    simp only [handlers, List.mem_append] at hmem
    rcases hmem with hmem | hmem
    · split_ifs at hmem <;> simp at hmem
      rw [hmem]
      rfl
    · split_ifs at hmem <;> simp at hmem
      rw [hmem]
      rfl
  | timer i =>
    simp only [Connector.step] at hs
    split_ifs at hs
    cases hs
    refine h.of_todo h.connect h.calls (fun stmt hmem => ?_) rfl rfl
    rcases List.mem_cons.mp hmem with rfl | hmem
    · rfl
    · exact h.todo stmt hmem
  | beginFunctors =>
    simp only [Connector.step] at hs
    split_ifs at hs
    obtain ⟨loop, hl, rfl⟩ := Option.map_eq_some_iff.mp hs
    exact h.beginFunctors hl
  | functor =>
    obtain ⟨htodo, f, loop, hl, hs⟩ := step_functor hs
    exact h.functor hinv htodo hl hs
  | endFunctors =>
    simp only [Connector.step] at hs
    split_ifs at hs
    obtain ⟨loop, hl, rfl⟩ := Option.map_eq_some_iff.mp hs
    exact h.endFunctors hl

/-- `Stop` on the loop thread. -/
theorem run_stop (htodo : c.todo = []) (hs : c.run [.stop, .exec {}, .exec {}] = some c') :
    c' = { c with
      connect := false
      stops := c.stops + 1
      loop := c.loop.queueInLoop true (.stopInLoop c.stops) } := by
  simp [Connector.run, Connector.step, htodo, push, Connector.exec, queueInLoop] at hs
  rw [← hs, htodo]

end Connector

namespace ClientConnector

open Connector (Leaving Admissible)

variable {F : Type*} {s s' : ClientConnector F} {act : Act F} {a : Connector.Act F}

/-- What holds whoever destroys the connector. -/
structure Core (s : ClientConnector F) : Prop where
  connector : Connector.Inv s.connector
  leaving : s.client = false → Leaving s.phase s.connector
  timer : s.client = false → s.timer = false → 4 ≤ s.phase
  dangling : s.dangling = false

/-- **The invariant.** -/
structure Inv (s : ClientConnector F) : Prop extends Core s where
  dead : s.destroyed = true ↔ s.refs = 0 ∧ s.connector.todo = []

theorem refs_eq_zero :
    s.refs = 0 ↔ s.client = false ∧ s.timer = false ∧ s.connector.timers = [] := by
  simp [refs, and_assoc]

/-- A connector that is destroyed is left, with nothing of it in the loop. -/
theorem Inv.gone (h : Inv s) (hd : s.destroyed = true) :
    Leaving s.phase s.connector ∧ 4 ≤ s.phase ∧ s.connector.todo = [] ∧ s.connector.timers = [] := by
  obtain ⟨hrefs, htodo⟩ := h.dead.mp hd
  obtain ⟨hclient, htimer, htimers⟩ := refs_eq_zero.mp hrefs
  exact ⟨h.leaving hclient, h.timer hclient htimer, htodo, htimers⟩

theorem Inv.callsGone (h : Inv s) {c : Connector F} (hs : s.connector.step a = some c) :
    s.callsGone a = false := by
  cases a with
  | functor =>
    cases hd : s.destroyed with
    | false => simp [ClientConnector.callsGone, hd]
    | true =>
      obtain ⟨hleaving, hphase, -⟩ := h.gone hd
      simp only [ClientConnector.callsGone, hd, Bool.true_and]
      cases hf : s.connector.loop.functors with
      | nil => rfl
      | cons f rest =>
        simpa using hleaving.functors hphase f (by rw [hf]; exact List.mem_cons_self)
  | dispatch revents =>
    cases hd : s.destroyed with
    | false => exact hd
    | true =>
      obtain ⟨hleaving, hphase, -⟩ := h.gone hd
      simp [Connector.step, hleaving.not_registered (by omega)] at hs
  | exec env =>
    obtain ⟨stmt, rest, htodo, -⟩ := Connector.step_exec hs
    have hd : s.destroyed = false := by
      by_contra hd
      obtain ⟨-, -, hnil, -⟩ := h.gone (by simpa using hd)
      rw [htodo] at hnil
      cases hnil
    simp only [ClientConnector.callsGone, hd, Bool.false_or]
    cases hclient : s.client with
    | true => rfl
    | false =>
      have hidle := (h.leaving hclient).todo stmt (by simp [htodo])
      rw [htodo]
      cases stmt <;> first | rfl | cases hidle
  | _ => rfl

/-- Nothing of a connector that is destroyed happens any more. -/
theorem Inv.step_gone (h : Inv s) (hd : s.destroyed = true) {c : Connector F}
    (ha : a.ofClient = false) (hs : s.connector.step a = some c) :
    c.timers = [] ∧ c.todo = [] := by
  obtain ⟨hleaving, hphase, htodo, htimers⟩ := h.gone hd
  cases a with
  | start | stop | restart | startCall | stopCall => cases ha
  | queue i => simp [Connector.step, hleaving.calls] at hs
  | queueOther | beginFunctors | endFunctors =>
    obtain ⟨loop, rfl, -⟩ := Connector.step_queue hs (by simp)
    exact ⟨htimers, htodo⟩
  | exec env => simp [Connector.step, htodo] at hs
  | dispatch revents => simp [Connector.step, hleaving.not_registered (by omega)] at hs
  | timer i => simp [Connector.step, htimers] at hs
  | functor =>
    obtain ⟨-, f, loop, hl, hs⟩ := Connector.step_functor hs
    have hf : f.isOwn = false :=
      hleaving.queued_own hphase f (by rw [EventLoop.queued_nextFunctor hl]; exact List.mem_cons_self)
    cases f with
    | startInLoop | stopInLoop | resetChannel => cases hf
    | other g =>
      cases hs
      exact ⟨htimers, htodo⟩

/-- The timer fires behind two rounds of functors, and `Restart` is called when no attempt is open. -/
def Awaited (s : ClientConnector F) : Act F → Prop
  | .connector a => Connector.Restarts s.connector a
  | .destroy => True
  | .removeConnector => 4 ≤ s.phase

instance (s : ClientConnector F) : (act : Act F) → Decidable (Awaited s act)
  | .connector a => inferInstanceAs (Decidable (Connector.Restarts s.connector a))
  | .destroy => isTrue trivial
  | .removeConnector => inferInstanceAs (Decidable (4 ≤ s.phase))

theorem le_phase (p : ℕ) : p ≤ a.phase p := by
  cases a with
  | beginFunctors =>
    show p ≤ p + p % 2 + 1
    omega
  | endFunctors => exact Nat.le_add_right p (p % 2)
  | _ => exact le_rfl

theorem Inv.connector_step (h : Inv s) {c : Connector F} (hok : Connector.Restarts s.connector a)
    (hclient : ¬ (s.client = false ∧ a.ofClient = true)) (hs : s.connector.step a = some c)
    (hlog : Admissible c.log) :
    Core { s with
      connector := c
      phase := a.phase s.phase
      dangling := s.dangling || s.callsGone a } := by
  have hof (hc : s.client = false) : a.ofClient = false := by
    by_contra ha
    exact hclient ⟨hc, by simpa using ha⟩
  refine ⟨h.connector.step hs (fun ha => ?_) hlog, fun hc => ?_, fun hc ht => ?_, ?_⟩
  · subst ha
    exact hok
  · exact (h.leaving hc).step h.connector hs (hof hc)
  · exact (h.timer hc ht).trans (le_phase _)
  · show (s.dangling || s.callsGone a) = false
    rw [h.dangling, h.callsGone hs]
    rfl

/-- The destructor leaves the connector to the loop. -/
theorem Inv.destroy (h : Inv s) (htodo : s.connector.todo = []) (hcalls : s.connector.calls = [])
    {c : Connector F} (hs : s.connector.run [.stop, .exec {}, .exec {}] = some c) :
    Core { s with connector := c, client := false, timer := true, phase := 0 } ∧
      c.log = s.connector.log := by
  have hc := Connector.run_stop htodo hs
  subst hc
  refine ⟨⟨h.connector.frame rfl rfl rfl ?_ rfl rfl, fun _ => ?_, nofun, h.dangling⟩, rfl⟩
  · simp [Connector.resets, Connector.Functor.isResetChannel]
  · refine ⟨rfl, hcalls, by simp [htodo], fun _ => Or.inl ⟨rfl, s.connector.stops, ?_⟩,
      fun hp => (Nat.not_succ_le_zero _ hp).elim, fun hp => (Nat.not_succ_le_zero _ hp).elim⟩
    exact List.mem_append_right _ (List.mem_singleton_self _)

theorem Inv.exec (h : Inv s) (hok : Awaited s act) (hs : s.exec act = some s')
    (hlog : Admissible s'.connector.log) :
    Core s' ∧ s'.destroyed = s.destroyed ∧
      (s.destroyed = true → s'.refs = 0 ∧ s'.connector.todo = []) := by
  cases act with
  | connector a =>
    simp only [ClientConnector.exec] at hs
    split_ifs at hs with hclient
    obtain ⟨c, hc, rfl⟩ := Option.map_eq_some_iff.mp hs
    refine ⟨h.connector_step hok hclient hc hlog, rfl, fun hd => ?_⟩
    obtain ⟨hclient', htimer, -⟩ := refs_eq_zero.mp (h.dead.mp hd).1
    have ha : a.ofClient = false := by
      by_contra ha
      exact hclient ⟨hclient', by simpa using ha⟩
    obtain ⟨htimers, htodo⟩ := h.step_gone hd ha hc
    exact ⟨refs_eq_zero.mpr ⟨hclient', htimer, htimers⟩, htodo⟩
  | destroy =>
    obtain ⟨⟨hclient, htodo, hcalls⟩, hs⟩ := Option.ite_none_right_eq_some.mp hs
    obtain ⟨c, hc, rfl⟩ := Option.map_eq_some_iff.mp hs
    refine ⟨(h.destroy htodo hcalls hc).1, rfl, fun hd => ?_⟩
    rw [(refs_eq_zero.mp (h.dead.mp hd).1).1] at hclient
    cases hclient
  | removeConnector =>
    obtain ⟨⟨htimer, -, -⟩, hs⟩ := Option.ite_none_right_eq_some.mp hs
    cases hs
    refine ⟨⟨h.connector, h.leaving, fun _ _ => hok, h.dangling⟩, rfl, fun hd => ?_⟩
    rw [(refs_eq_zero.mp (h.dead.mp hd).1).2.1] at htimer
    cases htimer

theorem Inv.step (h : Inv s) (hok : Awaited s act) (hs : s.step act = some s')
    (hlog : Admissible s'.connector.log) : Inv s' := by
  obtain ⟨m, hm, rfl⟩ := Option.map_eq_some_iff.mp hs
  obtain ⟨hcore, hdestroyed, hgone⟩ := h.exec hok hm hlog
  refine ⟨⟨hcore.connector, hcore.leaving, hcore.timer, hcore.dangling⟩, ?_⟩
  show (m.destroyed || decide (m.refs = 0 ∧ m.connector.todo = [])) = true ↔
    m.refs = 0 ∧ m.connector.todo = []
  rw [Bool.or_eq_true, decide_eq_true_eq, hdestroyed]
  exact ⟨fun hor => hor.elim hgone id, Or.inr⟩

/-- The log of the connector grows. -/
theorem log_step (hs : s.step act = some s') : s.connector.log <+: s'.connector.log := by
  obtain ⟨m, hm, rfl⟩ := Option.map_eq_some_iff.mp hs
  show s.connector.log <+: m.connector.log
  cases act with
  | connector a =>
    simp only [ClientConnector.exec] at hm
    split_ifs at hm
    obtain ⟨c, hc, rfl⟩ := Option.map_eq_some_iff.mp hm
    obtain ⟨log, hlog, -⟩ := Connector.step_log hc
    exact hlog ▸ List.prefix_append _ _
  | destroy =>
    obtain ⟨⟨-, htodo, -⟩, hm⟩ := Option.ite_none_right_eq_some.mp hm
    obtain ⟨c, hc, rfl⟩ := Option.map_eq_some_iff.mp hm
    rw [Connector.run_stop htodo hc]
  | removeConnector =>
    obtain ⟨-, hm⟩ := Option.ite_none_right_eq_some.mp hm
    cases hm
    exact List.prefix_rfl

theorem Inv.new : Inv (new : ClientConnector F) where
  connector := .new
  leaving := nofun
  timer := nofun
  dangling := rfl
  dead := by simp [ClientConnector.new, refs]

/-- If the loop goes through its functors twice before the timer fires, then in every run in which no
attempt is started beside an open one, the connector is not destroyed under its own functors: it is
destroyed when nobody shares it, and then it has no channel and none of its functors is in the loop;
nothing calls it behind that, nor its client behind the destructor. -/
theorem connector_outlives_functors {acts : List (Act F)} (hok : Run.Along step Awaited new acts)
    (hrun : run new acts = some s) (hlog : Admissible s.connector.log) :
    s.dangling = false ∧ (s.destroyed = true ↔ s.refs = 0 ∧ s.connector.todo = []) ∧
      (s.destroyed = true → s.connector.channel = none ∧
        ∀ f ∈ s.connector.loop.queued, f.isOwn = false) := by
  have hinv : Inv s := by
    refine Run.run_inv_along (P := fun s : ClientConnector F => Admissible s.connector.log → Inv s) ?_
      hok hrun (fun _ => .new) hlog
    intro s act s' hok hs h hlog
    exact (h (hlog.of_prefix (log_step hs))).step hok hs hlog
  refine ⟨hinv.dangling, hinv.dead, fun hd => ?_⟩
  obtain ⟨hleaving, hphase, -⟩ := hinv.gone hd
  have hown := hleaving.queued_own hphase
  refine ⟨hinv.connector.channel_eq_none (hleaving.not_registered (by omega)) ?_, hown⟩
  refine List.countP_eq_zero.mpr fun f hf hreset => ?_
  have hf := hown f hf
  cases f with
  | startInLoop | stopInLoop | other => cases hreset
  | resetChannel => cases hf

/-- An attempt is open when the client is destroyed. -/
def abandoned : List (Act Unit) :=
  [.connector .start, .connector (.exec {}), .connector (.exec {}),
    .connector (.exec { errno := some .EINPROGRESS }), .destroy, .connector .beginFunctors,
    .connector .functor, .connector (.exec {}), .connector .endFunctors]

/-- A second round, and the timer. -/
def released : List (Act Unit) :=
  [.connector .beginFunctors, .connector .functor, .connector .endFunctors, .removeConnector]

theorem connector_outlives_functors_abandoned :
    ∃ s : ClientConnector Unit, run new (abandoned ++ released) = some s ∧ s.destroyed = true ∧
      s.dangling = false ∧ s.connector.channel = none := by
  have heval : ((run new (abandoned ++ released)).map fun s =>
      (s.destroyed, decide (∀ e ∈ s.connector.log, e.Holds))) = some (true, true) := by decide +kernel
  have hok : Run.Along step Awaited new (abandoned ++ released) := by decide +kernel
  obtain ⟨s, hrun, hs⟩ := Option.map_eq_some_iff.mp heval
  obtain ⟨hdestroyed, hlog⟩ := Prod.mk.inj hs
  obtain ⟨hdangling, -, hgone⟩ :=
    connector_outlives_functors hok hrun (.of_holds (of_decide_eq_true hlog))
  exact ⟨s, hrun, hdestroyed, hdangling, (hgone hdestroyed).1⟩

/-- The timer in front of the second round, and `ResetChannel` finds nothing. -/
example : ((run new (abandoned ++ [.removeConnector, .connector .beginFunctors,
    .connector .functor])).map ClientConnector.dangling) = some true := by decide +kernel

end ClientConnector

end MuduoCpp11.Net
