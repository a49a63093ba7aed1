import MuduoCpp11.Net.Connector

/-! # Who owns a socket

A socket that `Connect` has made is held in one of two places: by the channel, as long as that one is
registered, or by a statement ahead of the loop thread that has it as an argument. `Inv` counts: a
socket has been closed, or handed over, or is held, and one of these once. That needs to know where the
channel stands: `state_` is `kConnecting` exactly as long as the channel is registered, but for the
time in which `Retry` is ahead of the loop thread, and a `ResetChannel` is queued exactly as long as
there is a channel that is registered no more.

The invariant survives every step after which the assertions of `StartInLoop` and of `Connecting` have
held (`Admissible`): a second attempt beside an open one breaks it. -/

namespace MuduoCpp11.Net.Connector

open MuduoCpp11.Lib

variable {F : Type*}

def Functor.isResetChannel : Functor F → Bool
  | .resetChannel => true
  | _ => false

/-- The socket in the arguments of a statement. -/
def Stmt.held : Stmt → Option ℤ
  | .retry sockfd => some sockfd
  | .newConnectionCallback sockfd => some sockfd
  | _ => none

section
variable (s : Connector F)

/-- The socket of the channel, while it is registered. -/
def channelFd : Option ℤ := (s.channel.filter Channel.addedToLoop).map Channel.fd

/-- The sockets that are held. -/
def held : List ℤ := s.todo.filterMap Stmt.held ++ s.channelFd.toList

/-- How often the socket has been closed or handed over. -/
def settled (sockfd : ℤ) : ℕ := s.log.count (.close sockfd) + s.log.count (.newConnection sockfd)

/-- The number of calls of `ResetChannel` in the queue. -/
def resets : ℕ := s.loop.queued.countP Functor.isResetChannel

end

/-- No attempt has been started beside another one. The assertions of `StartInLoop` and `Connecting`
say more: the state is `kDisconnected` whether `connect_` is set or not. -/
def Admissible (log : List Event) : Prop :=
  .startInLoop true .kConnecting ∉ log ∧ ∀ c, .connecting (some c) ∉ log

structure Inv (s : Connector F) : Prop where
  tail : ∀ stmt ∈ s.todo.tail, stmt = .handleWrite
  registered : s.registered → s.state = .kConnecting
  kConnecting : s.state = .kConnecting → s.registered ∨ ∃ sockfd, .retry sockfd ∈ s.todo
  single : s.registered → s.todo.filterMap Stmt.held = []
  fresh : .connect ∈ s.todo ∨ .restart ∈ s.todo → s.state ≠ .kConnecting
  reset : s.resets = if s.channel.isSome ∧ s.registered = false then 1 else 0
  owned : ∀ n : ℤ, s.settled n + s.held.count n = if 0 ≤ n ∧ n < s.sockets then 1 else 0

theorem Inv.new : Inv (Connector.new : Connector F) where
  tail := by simp [Connector.new]
  registered := by simp [Connector.new, Connector.registered]
  kConnecting := by simp [Connector.new]
  single := by simp [Connector.new]
  fresh := by simp [Connector.new]
  reset := by simp [Connector.new, resets, EventLoop.queued]
  owned := by
    intro n
    have h : ¬ (0 ≤ n ∧ n < 0) := by omega
    simp [Connector.new, settled, held, channelFd, h]

section
variable {s s' : Connector F}

theorem channelFd_of_registered (h : s.registered = true) :
    ∃ c, s.channel = some c ∧ c.addedToLoop = true ∧ s.channelFd = some c.fd := by
  unfold Connector.registered at h
  obtain ⟨c, hc, hadded⟩ := (Option.any_eq_true _ _).mp h
  exact ⟨c, hc, hadded, by simp [channelFd, hc, hadded]⟩

theorem channelFd_of_not_registered (h : s.registered = false) : s.channelFd = none := by
  unfold Connector.registered at h
  cases hc : s.channel with
  | none => simp [channelFd, hc]
  | some c =>
    have hadded : c.addedToLoop = false := by simpa [hc] using h
    simp [channelFd, hc, hadded]

theorem not_retry {todo : List Stmt} (h : todo.filterMap Stmt.held = []) :
    ¬ ∃ sockfd, .retry sockfd ∈ todo := by
  rintro ⟨sockfd, hmem⟩
  cases List.filterMap_eq_nil_iff.mp h _ hmem

/-- What is outside of the invariant: `connect_`, the timers, the calls of other threads, and the
functors but for `ResetChannel`. -/
theorem Inv.frame (h : Inv s) (htodo : s'.todo = s.todo) (hstate : s'.state = s.state)
    (hchannel : s'.channel = s.channel) (hresets : s'.resets = s.resets)
    (hsockets : s'.sockets = s.sockets) (hlog : s'.log = s.log) : Inv s' := by
  have hreg : s'.registered = s.registered := by simp only [Connector.registered, hchannel]
  have hsettled : ∀ n, s'.settled n = s.settled n := by simp only [settled, hlog, implies_true]
  have hheld : s'.held = s.held := by simp only [held, channelFd, htodo, hchannel]
  constructor
  case tail => rw [htodo]; exact h.tail
  case registered => rw [hreg, hstate]; exact h.registered
  case kConnecting => rw [hreg, hstate, htodo]; exact h.kConnecting
  case single => rw [hreg, htodo]; exact h.single
  case fresh => rw [htodo, hstate]; exact h.fresh
  case reset => rw [hresets, hchannel, hreg]; exact h.reset
  case owned => intro n; rw [hsettled, hheld, hsockets]; exact h.owned n

/-- While no statement ahead holds a socket, the loop thread may turn to others that hold none. -/
theorem Inv.still (h : Inv s) (hnone : s.todo.filterMap Stmt.held = [])
    (htail : ∀ stmt ∈ s'.todo.tail, stmt = .handleWrite)
    (hnone' : s'.todo.filterMap Stmt.held = [])
    (hfresh : .connect ∈ s'.todo ∨ .restart ∈ s'.todo → s.state ≠ .kConnecting)
    (hstate : s'.state = s.state ∨ s.state ≠ .kConnecting ∧ s'.state ≠ .kConnecting)
    (hchannel : s'.channel = s.channel) (hresets : s'.resets = s.resets)
    (hsockets : s'.sockets = s.sockets) (hsettled : ∀ n, s'.settled n = s.settled n) : Inv s' := by
  have hreg : s'.registered = s.registered := by simp only [Connector.registered, hchannel]
  have hheld : s'.held = s.held := by simp only [held, channelFd, hnone, hnone', hchannel]
  have hiff : s'.state = .kConnecting ↔ s.state = .kConnecting := by
    rcases hstate with hstate | ⟨hs, hs'⟩
    · rw [hstate]
    · exact ⟨fun hk => absurd hk hs', fun hk => absurd hk hs⟩
  constructor
  case tail => exact htail
  case registered => rw [hreg, hiff]; exact h.registered
  case kConnecting =>
    intro hk
    have := h.kConnecting (hiff.mp hk)
    rw [hreg]
    exact Or.inl (this.resolve_right (not_retry hnone))
  case single => exact fun _ => hnone'
  case fresh => exact fun hf hk => hfresh hf (hiff.mp hk)
  case reset => rw [hresets, hchannel, hreg]; exact h.reset
  case owned => intro n; rw [hsettled, hheld, hsockets]; exact h.owned n

/-- The attempt of the channel `c` is over: its socket is with a statement ahead, or settled. -/
theorem Inv.dropped (h : Inv s) {c : Channel} (hstate : s.state = .kConnecting)
    (hnone : s.todo.filterMap Stmt.held = []) (hc : s.channel = some c)
    (htail : ∀ stmt ∈ s'.todo.tail, stmt = .handleWrite)
    (hfresh : .connect ∉ s'.todo ∧ .restart ∉ s'.todo)
    (hstate' : s'.state = .kConnecting → ∃ sockfd, .retry sockfd ∈ s'.todo)
    (hchannel : s'.channel = some c.disableAll.remove) (hresets : s'.resets = s.resets + 1)
    (hsockets : s'.sockets = s.sockets)
    (hsettled : ∀ n, s'.settled n + (s'.todo.filterMap Stmt.held).count n =
      s.settled n + [c.fd].count n) : Inv s' := by
  have hreg : s.registered = true := (h.kConnecting hstate).resolve_right (not_retry hnone)
  have hreg' : s'.registered = false := by simp [Connector.registered, hchannel, Channel.remove]
  constructor
  case tail => exact htail
  case registered => simp [hreg']
  case kConnecting => exact fun hk => Or.inr (hstate' hk)
  case single => simp [hreg']
  case fresh => exact fun hf => (hf.elim hfresh.1 hfresh.2).elim
  case reset =>
    rw [hresets, h.reset, if_neg (by simp [hreg]), if_pos ⟨by simp [hchannel], hreg'⟩]
  case owned =>
    intro n
    obtain ⟨c', hc', -, hfd⟩ := channelFd_of_registered hreg
    obtain rfl : c = c' := Option.some.inj (hc.symm.trans hc')
    have howned := h.owned n
    rw [held, hnone, hfd, List.nil_append, Option.toList_some] at howned
    rw [held, channelFd_of_not_registered hreg', Option.toList_none, List.append_nil, hsettled n,
      hsockets]
    exact howned

/-! ### The statements of the loop thread -/

theorem held_handlers {rest : List Stmt} (h : ∀ stmt ∈ rest, stmt = .handleWrite) :
    rest.filterMap Stmt.held = [] := by
  refine List.filterMap_eq_nil_iff.mpr fun stmt hmem => ?_
  rw [h stmt hmem]
  rfl

theorem held_cons {stmt : Stmt} {rest : List Stmt} {sockfd : ℤ} (hstmt : stmt.held = some sockfd)
    (hrest : ∀ stmt ∈ rest, stmt = .handleWrite) :
    (stmt :: rest).filterMap Stmt.held = [sockfd] := by
  rw [List.filterMap_cons_some hstmt, held_handlers hrest]

/-- The socket that a statement has is settled. -/
theorem Inv.settle (h : Inv s) {sockfd : ℤ} {stmt : Stmt} {rest : List Stmt}
    (htodo : s.todo = stmt :: rest) (hstmt : stmt.held = some sockfd) (htodo' : s'.todo = rest)
    (hstate : s'.state ≠ .kConnecting) (hchannel : s'.channel = s.channel)
    (hresets : s'.resets = s.resets) (hsockets : s'.sockets = s.sockets)
    (hsettled : ∀ n, s'.settled n = s.settled n + [sockfd].count n) : Inv s' := by
  have hrest : ∀ stmt ∈ rest, stmt = .handleWrite := by simpa [htodo] using h.tail
  have hnone := held_handlers hrest
  have hheld : s.todo.filterMap Stmt.held = [sockfd] := by rw [htodo, held_cons hstmt hrest]
  have hreg : s.registered = false := by
    by_contra hreg
    simp [h.single (by simpa using hreg)] at hheld
  have hreg' : s'.registered = false := by rw [Connector.registered, hchannel]; exact hreg
  constructor
  case tail => exact fun stmt hmem => hrest stmt (htodo' ▸ List.mem_of_mem_tail hmem)
  case registered => simp [hreg']
  case kConnecting => exact fun hk => absurd hk hstate
  case single => simp [hreg']
  case fresh => exact fun _ => hstate
  case reset => rw [hresets, hchannel, hreg', h.reset, hreg]
  case owned =>
    intro n
    have howned := h.owned n
    rw [held, hheld, channelFd_of_not_registered hreg] at howned
    rw [held, htodo', hnone, channelFd_of_not_registered hreg', hsockets, hsettled n]
    simp only [Option.toList_none, List.append_nil, List.count_nil, Nat.add_zero] at howned ⊢
    exact howned

theorem fresh_handlers {rest : List Stmt} (h : ∀ stmt ∈ rest, stmt = .handleWrite) :
    ¬ (.connect ∈ rest ∨ .restart ∈ rest) := by
  rintro (hmem | hmem)
  · cases h _ hmem
  · cases h _ hmem

/-- A socket is made when none is held, and no channel is opened for it: it is with a statement ahead,
or settled. -/
theorem Inv.unopened (h : Inv s) (hnone : s.todo.filterMap Stmt.held = [])
    (hidle : s.state ≠ .kConnecting) (htail : ∀ stmt ∈ s'.todo.tail, stmt = .handleWrite)
    (hstate : s'.state = s.state) (hchannel : s'.channel = s.channel)
    (hresets : s'.resets = s.resets) (hsockets : s'.sockets = s.sockets + 1)
    (hsettled : ∀ n : ℤ, s'.settled n + (s'.todo.filterMap Stmt.held).count n =
      s.settled n + [(s.sockets : ℤ)].count n) : Inv s' := by
  have hreg : s.registered = false := by
    by_contra hreg
    exact hidle (h.registered (by simpa using hreg))
  have hreg' : s'.registered = false := by rw [Connector.registered, hchannel]; exact hreg
  constructor
  case tail => exact htail
  case registered => simp [hreg']
  case kConnecting => exact fun hk => absurd (hstate.symm.trans hk) hidle
  case single => simp [hreg']
  case fresh => exact fun _ => hstate ▸ hidle
  case reset => rw [hresets, hchannel, hreg', h.reset, hreg]
  case owned =>
    intro n
    have howned := h.owned n
    rw [held, hnone, channelFd_of_not_registered hreg] at howned
    rw [held, channelFd_of_not_registered hreg', hsockets, Option.toList_none, List.append_nil,
      hsettled n]
    simp only [Option.toList_none, List.append_nil, List.count_nil, Nat.add_zero] at howned
    rw [howned, List.count_singleton]
    simp only [beq_iff_eq]
    split_ifs <;> omega

/-- The socket is with the channel of the attempt. -/
theorem Inv.opened (h : Inv s) {rest : List Stmt} (htodo : s.todo = .connect :: rest)
    (hchannel : s.channel = none) :
    Inv (({ s with todo := rest, sockets := s.sockets + 1 }.emit (.connect s.sockets)).connecting
      s.sockets) := by
  have hrest : ∀ stmt ∈ rest, stmt = .handleWrite := by simpa [htodo] using h.tail
  have hnone := held_handlers hrest
  constructor
  case tail => exact fun stmt hmem => hrest stmt (List.mem_of_mem_tail hmem)
  case registered => exact fun _ => rfl
  case kConnecting => simp [Connector.registered, connecting, Channel.enableWriting, Channel.setEvents]
  case single => exact fun _ => hnone
  case fresh => exact fun hf => absurd hf (fresh_handlers hrest)
  case reset =>
    have hreset := h.reset
    simp only [hchannel] at hreset
    simpa [resets, connecting, emit, Connector.registered, Channel.enableWriting,
      Channel.setEvents] using hreset
  case owned =>
    intro n
    have howned := h.owned n
    have hfd (t : Connector F) : channelFd (t.connecting s.sockets) = some (s.sockets : ℤ) := rfl
    rw [held, htodo, List.filterMap_cons_none rfl, hnone] at howned
    simp only [settled, channelFd, hchannel] at howned
    simp only [held, hfd]
    simp [settled, connecting, emit, hnone, List.count_append, List.count_singleton] at howned ⊢
    split_ifs at howned ⊢ <;> omega

theorem Inv.exec_connect (h : Inv s) {errno : Option Errno} {rest : List Stmt}
    (htodo : s.todo = .connect :: rest)
    (hlog : Admissible ({ s with todo := rest }.connectSocket errno).log) :
    Inv ({ s with todo := rest }.connectSocket errno) := by
  have hrest : ∀ stmt ∈ rest, stmt = .handleWrite := by simpa [htodo] using h.tail
  have hnone := held_handlers hrest
  have hheld : s.todo.filterMap Stmt.held = [] := by
    rw [htodo, List.filterMap_cons_none rfl, hnone]
  have hstate : s.state ≠ .kConnecting := h.fresh (Or.inl (by simp [htodo]))
  obtain hc | hc | hc := connectSocket_cases { s with todo := rest } errno
  · rw [hc] at hlog ⊢
    refine h.opened htodo ?_
    cases hch : s.channel with
    | none => rfl
    | some c => exact (hlog.2 c (by simp [connecting, emit, hch])).elim
  · rw [hc]
    refine h.unopened hheld hstate hrest rfl rfl rfl rfl fun n => ?_
    simp [settled, push, emit, hnone, Stmt.held]
  · rw [hc]
    refine h.unopened hheld hstate ?_ rfl rfl rfl rfl fun n => ?_
    · exact fun stmt hmem => hrest stmt (List.mem_of_mem_tail hmem)
    · simp [settled, emit, hnone, List.count_singleton]
      omega

/-- `Retry` or the end of `HandleWrite` behind `RemoveAndResetChannel`. -/
theorem Inv.drop_push (h : Inv s) {c : Channel} {rest : List Stmt} {stmt : Stmt} (st : States)
    (log : List Event) (hstate : s.state = .kConnecting) (hnone : s.todo.filterMap Stmt.held = [])
    (hc : s.channel = some c) (hrest : ∀ stmt ∈ rest, stmt = .handleWrite)
    (hstmt : stmt = .retry c.fd ∨ stmt = .newConnectionCallback c.fd ∧ st = .kConnected)
    (hlog : ∀ n, log.count (.close n) = 0 ∧ log.count (.newConnection n) = 0) :
    Inv { s with
      state := st
      channel := some c.disableAll.remove
      loop := s.loop.queueInLoop true .resetChannel
      todo := stmt :: rest
      log := s.log ++ log } := by
  have hheld : (stmt :: rest).filterMap Stmt.held = [c.fd] := by
    rcases hstmt with rfl | ⟨rfl, -⟩
    · exact held_cons rfl hrest
    · exact held_cons rfl hrest
  have hnot (x : Stmt) (hx : x = .connect ∨ x = .restart) : x ∉ stmt :: rest := by
    rintro (_ | hmem)
    · rcases hstmt with rfl | ⟨rfl, -⟩ <;> simp at hx
    · rw [hrest x ‹_›] at hx
      simp at hx
  refine h.dropped hstate hnone hc hrest ⟨hnot _ (Or.inl rfl), hnot _ (Or.inr rfl)⟩ ?_ rfl ?_ rfl ?_
  · intro hk
    rcases hstmt with rfl | ⟨-, rfl⟩
    · exact ⟨c.fd, List.mem_cons_self⟩
    · cases hk
  · simp [resets, Functor.isResetChannel]
  · intro n
    simp [settled, hheld, hlog n]

theorem Inv.exec (h : Inv s) {env : Env} {stmt : Stmt} {rest : List Stmt}
    (htodo : s.todo = stmt :: rest) (hs : { s with todo := rest }.exec env stmt = some s')
    (hlog : Admissible s'.log) : Inv s' := by
  have hrest : ∀ stmt ∈ rest, stmt = .handleWrite := by simpa [htodo] using h.tail
  have hrest' : ∀ stmt ∈ rest.tail, stmt = .handleWrite := fun stmt hmem =>
    hrest stmt (List.mem_of_mem_tail hmem)
  have hnone := held_handlers hrest
  have hheld (hstmt : stmt.held = none) : s.todo.filterMap Stmt.held = [] := by
    rw [htodo, List.filterMap_cons_none hstmt, hnone]
  have hfresh := fresh_handlers hrest
  cases stmt with
  | start | stop =>
    cases hs
    refine h.still (hheld rfl) hrest ?_ ?_ (Or.inl rfl) rfl rfl rfl fun _ => rfl
    · exact (List.filterMap_cons_none rfl).trans hnone
    · simpa [push] using fun hf => absurd hf hfresh
  | queueStopInLoop call =>
    cases hs
    refine h.still (hheld rfl) hrest' hnone (absurd · hfresh) (Or.inl rfl) rfl ?_ rfl fun _ => rfl
    simp [resets, queueInLoop, Functor.isResetChannel]
  | restart =>
    cases hs
    have hstate : s.state ≠ .kConnecting := h.fresh (Or.inr (by simp [htodo]))
    have hstate' : ({ s with todo := rest }.restart).state ≠ .kConnecting := by
      simp [Connector.restart, push]
    refine h.still (hheld rfl) hrest ?_ ?_ (Or.inr ⟨hstate, hstate'⟩) rfl rfl rfl fun _ => rfl
    · exact (List.filterMap_cons_none rfl).trans hnone
    · exact fun _ => hstate
  | startInLoop =>
    cases hs
    cases hconnect : s.connect with
    | true =>
      simp only [startInLoop, emit, hconnect, if_true] at hlog ⊢
      have hstate : s.state ≠ .kConnecting := fun hk => hlog.1 (by simp [push, hk])
      refine h.still (hheld rfl) hrest ?_ (fun _ => hstate) (Or.inl rfl) rfl rfl rfl ?_
      · exact (List.filterMap_cons_none rfl).trans hnone
      · simp [settled, push]
    | false =>
      simp only [startInLoop, emit, Bool.false_eq_true, if_false]
      refine h.still (hheld rfl) hrest' hnone (absurd · hfresh) (Or.inl rfl) rfl rfl rfl ?_
      simp [settled]
  | connect =>
    cases hs
    exact h.exec_connect htodo hlog
  | retry sockfd =>
    cases hs
    rw [retry_eq]
    refine h.settle htodo rfl rfl (by simp) rfl rfl rfl fun n => ?_
    simp [settled, List.count_singleton]
    omega
  | handleError =>
    obtain ⟨hstate, c, hc, rfl⟩ | ⟨hstate, rfl⟩ := handleError_cases hs
    · exact h.drop_push s.state [.removeChannel c.fd] hstate (hheld rfl) hc hrest (Or.inl rfl) (by simp)
    · exact h.still (hheld rfl) hrest' hnone (absurd · hfresh) (Or.inl rfl) rfl rfl rfl fun _ => rfl
  | handleWrite =>
    obtain ⟨hstate, c, hc, rfl | ⟨-, -, rfl⟩⟩ | ⟨hstate, rfl⟩ := handleWrite_cases hs
    · exact h.drop_push s.state [.removeChannel c.fd] hstate (hheld rfl) hc hrest (Or.inl rfl) (by simp)
    · cases hconnect : s.connect with
      | true =>
        simpa [hconnect, dropChannel, queueInLoop, emit, push] using
          h.drop_push .kConnected [.removeChannel c.fd, .connected c.fd] hstate (hheld rfl) hc
            hrest (Or.inr ⟨rfl, rfl⟩) (by simp)
      | false =>
        simp only [dropChannel, queueInLoop, emit, Bool.false_eq_true, if_false]
        refine h.dropped hstate (hheld rfl) hc hrest' ?_ (by simp) rfl ?_ rfl ?_
        · simpa [not_or] using hfresh
        · simp [resets, Functor.isResetChannel]
        · intro n
          simp [settled, hnone, List.count_singleton]
          omega
    · refine h.still (hheld rfl) hrest' hnone (absurd · hfresh) (Or.inl rfl) rfl rfl rfl ?_
      simp [settled, emit]
  | newConnectionCallback sockfd =>
    cases hs
    have hheld : s.todo.filterMap Stmt.held = [sockfd] := by
      rw [htodo]
      exact held_cons rfl hrest
    have hstate : s.state ≠ .kConnecting := by
      intro hk
      rcases h.kConnecting hk with hreg | ⟨sockfd, hmem⟩
      · simp [h.single hreg] at hheld
      · simp only [htodo, List.mem_cons, reduceCtorEq, false_or] at hmem
        cases hrest _ hmem
    refine h.settle htodo rfl rfl hstate rfl rfl rfl fun n => ?_
    simp [settled, emit, List.count_singleton, Nat.add_assoc]

/-! ### Functors and runs -/

theorem resets_nextFunctor {f : Functor F} {loop : EventLoop (Functor F)}
    (hf : s.loop.nextFunctor = some (f, loop)) :
    s.resets = (if f.isResetChannel then 1 else 0) + loop.queued.countP Functor.isResetChannel := by
  rw [resets, EventLoop.queued_nextFunctor hf, List.countP_cons]
  omega

/-- `ResetChannel` destroys a channel, and one that is registered no more. -/
theorem Inv.resetChannel (h : Inv s) {loop : EventLoop (Functor F)}
    (hf : s.loop.nextFunctor = some (.resetChannel, loop)) :
    s.registered = false ∧ loop.queued.countP Functor.isResetChannel = 0 := by
  have hresets := resets_nextFunctor hf
  rw [h.reset] at hresets
  rw [if_pos (by rfl : (Functor.resetChannel : Functor F).isResetChannel = true)] at hresets
  split_ifs at hresets with hc
  · exact ⟨hc.2, by omega⟩
  · omega

theorem Inv.runFunctor (h : Inv s) (htodo : s.todo = []) {f : Functor F}
    {loop : EventLoop (Functor F)} (hf : s.loop.nextFunctor = some (f, loop))
    (hs : { s with loop := loop }.runFunctor f = some s') : Inv s' := by
  have hresets := resets_nextFunctor hf
  have hnone : s.todo.filterMap Stmt.held = [] := by simp [htodo]
  have hnext (hother : f.isResetChannel = false) : Inv { s with loop := loop } := by
    rw [hother, if_neg Bool.false_ne_true, Nat.zero_add] at hresets
    exact h.frame rfl rfl rfl hresets.symm rfl rfl
  cases f with
  | startInLoop =>
    cases hs
    refine (hnext rfl).still hnone ?_ ?_ ?_ (Or.inl rfl) rfl rfl rfl fun _ => rfl
    · simp [push, htodo]
    · simp [push, htodo, Stmt.held]
    · simp [push, htodo]
  | stopInLoop call =>
    have h' := hnext rfl
    obtain ⟨hstate, c, hc, rfl⟩ | ⟨hstate, rfl⟩ := stopInLoop_cases hs
    · simpa [dropChannel, queueInLoop, emit, push] using
        h'.drop_push .kDisconnected [.stopInLoop call, .removeChannel c.fd] hstate hnone hc
          (htodo ▸ by simp : ∀ stmt ∈ s.todo, stmt = .handleWrite) (Or.inl rfl) (by simp)
    · refine h'.still hnone ?_ hnone ?_ (Or.inl rfl) rfl rfl rfl ?_
      · simp [emit, htodo]
      · simp [emit, htodo]
      · simp [settled, emit]
  | resetChannel =>
    cases hs
    obtain ⟨hreg, hzero⟩ := h.resetChannel hf
    constructor
    case tail => simp [Connector.resetChannel, emit, htodo]
    case registered => simp [Connector.resetChannel, Connector.registered]
    case kConnecting =>
      intro hk
      rcases h.kConnecting hk with hr | hr
      · exact Bool.noConfusion (hreg.symm.trans hr)
      · exact absurd hr (not_retry hnone)
    case single => exact fun _ => hnone
    case fresh => simp [Connector.resetChannel, emit, htodo]
    case reset => simpa [Connector.resetChannel, emit, resets] using hzero
    case owned =>
      intro n
      have hheld : held { s with loop := loop }.resetChannel = s.held := by
        rw [held, held, channelFd_of_not_registered hreg]
        rfl
      have hsettled : settled { s with loop := loop }.resetChannel n = s.settled n := by
        simp [settled, Connector.resetChannel, emit]
      rw [hheld, hsettled]
      exact h.owned n
  | other f =>
    cases hs
    exact hnext rfl

theorem held_handlersOf (revents : BitVec 32) :
    (handlers revents).filterMap Stmt.held = [] ∧
      (∀ stmt ∈ (handlers revents).tail, stmt = .handleWrite) ∧
      ¬ (.connect ∈ handlers revents ∨ .restart ∈ handlers revents) := by
  unfold handlers
  split_ifs <;> simp [Stmt.held]

/-- A step keeps the invariant, if it has not started an attempt beside another one, and `Restart` is
called when none is open. -/
theorem Inv.step (h : Inv s) {a : Act F} (hs : s.step a = some s')
    (hrestart : a = .restart → s.state ≠ .kConnecting) (hlog : Admissible s'.log) : Inv s' := by
  cases a with
  | start | stop =>
    simp only [Connector.step] at hs
    split_ifs at hs with htodo
    cases hs
    refine h.still (by simp [htodo]) ?_ ?_ ?_ (Or.inl rfl) rfl rfl rfl fun _ => rfl
    · simp [push, htodo]
    · simp [push, htodo, Stmt.held]
    · simp [push, htodo]
  | restart =>
    simp only [Connector.step] at hs
    split_ifs at hs with htodo
    cases hs
    refine h.still (by simp [htodo]) ?_ ?_ ?_ (Or.inl rfl) rfl rfl rfl fun _ => rfl
    · simp [push, htodo]
    · simp [push, htodo, Stmt.held]
    · exact fun _ => hrestart rfl
  | startCall | stopCall =>
    cases hs
    exact h.frame rfl rfl rfl rfl rfl rfl
  | queue i =>
    simp only [Connector.step, Option.map_eq_some_iff] at hs
    obtain ⟨c, -, rfl⟩ := hs
    refine h.frame rfl rfl rfl ?_ rfl rfl
    cases c with
    | start | stop => simp [resets, queueInLoop, Call.functor, Functor.isResetChannel]
  | exec env =>
    obtain ⟨stmt, rest, htodo, hs⟩ := step_exec hs
    exact h.exec htodo hs hlog
  | dispatch revents =>
    simp only [Connector.step] at hs
    split_ifs at hs with hd
    cases hs
    obtain ⟨hnone, htail, hfresh⟩ := held_handlersOf revents
    exact h.still (by simp [hd.1]) htail hnone (absurd · hfresh) (Or.inl rfl) rfl rfl rfl fun _ => rfl
  | timer i =>
    simp only [Connector.step] at hs
    split_ifs at hs with ht
    cases hs
    refine h.still (by simp [ht.1]) ?_ ?_ ?_ (Or.inl rfl) rfl rfl rfl fun _ => rfl
    · simp [push, ht.1]
    · simp [push, ht.1, Stmt.held]
    · simp [push, ht.1]
  | beginFunctors | endFunctors | queueOther =>
    obtain ⟨loop, rfl, hqueued⟩ := step_queue hs (by simp)
    refine h.frame rfl rfl rfl ?_ rfl rfl
    rcases hqueued with hqueued | ⟨f, hqueued⟩
    · simp only [resets, hqueued]
    · simp [resets, hqueued, Functor.isResetChannel]
  | functor =>
    obtain ⟨htodo, f, loop, hf, hs⟩ := step_functor hs
    exact h.runFunctor htodo hf hs

theorem Inv.held_length (h : Inv s) : s.held.length ≤ 1 := by
  have htodo : (s.todo.filterMap Stmt.held).length ≤ 1 := by
    cases htodo : s.todo with
    | nil => simp
    | cons stmt rest =>
      have hrest : ∀ stmt ∈ rest, stmt = .handleWrite := by simpa [htodo] using h.tail
      cases hstmt : stmt.held with
      | none => simp [List.filterMap_cons_none hstmt, held_handlers hrest]
      | some sockfd => simp [held_cons hstmt hrest]
  rw [held, List.length_append]
  cases hreg : s.registered with
  | true =>
    rw [h.single hreg]
    cases s.channelFd <;> simp
  | false => simpa [channelFd_of_not_registered hreg] using htodo

theorem Admissible.of_prefix {log log' : List Event} (h : log <+: log') (h' : Admissible log') :
    Admissible log :=
  ⟨fun hmem => h'.1 (h.subset hmem), fun c hmem => h'.2 c (h.subset hmem)⟩

/-- `TcpClient` calls `Restart` when no attempt is open. -/
def Restarts (s : Connector F) : Act F → Prop
  | .restart => s.state ≠ .kConnecting
  | _ => True

instance (s : Connector F) : (a : Act F) → Decidable (Restarts s a)
  | .restart => inferInstanceAs (Decidable (s.state ≠ .kConnecting))
  | .start | .stop | .startCall | .stopCall | .queue _ | .queueOther _ _ | .exec _ | .dispatch _
  | .timer _ | .beginFunctors | .functor | .endFunctors => isTrue trivial

theorem run_inv {acts : List (Act F)} (hok : Run.Along Connector.step Restarts s acts)
    (hrun : run s acts = some s') (hlog : Admissible s'.log) (h : Admissible s.log → Inv s) :
    Inv s' := by
  refine Run.run_inv_along (P := fun s => Admissible s.log → Inv s) ?_ hok hrun h hlog
  intro s a s' ha hs h hlog
  obtain ⟨new, hnew, -⟩ := step_log hs
  have hold : Admissible s.log := hlog.of_prefix (hnew ▸ List.prefix_append _ _)
  exact (h hold).step hs (fun hr => by subst hr; exact ha) hlog

/-- What the assertions of `StartInLoop` and `Connecting` say of an entry of the log. -/
def Event.Holds : Event → Prop
  | .startInLoop _ state => state = .kDisconnected
  | .connecting channel => channel = none
  | _ => True

instance : (e : Event) → Decidable e.Holds
  | .startInLoop _ state => inferInstanceAs (Decidable (state = .kDisconnected))
  | .connecting channel => inferInstanceAs (Decidable (channel = none))
  | .stopInLoop _ | .connect _ | .removeChannel _ | .resetChannel _ | .handleWrite _ | .connected _
  | .newConnection _ | .close _ => isTrue trivial

theorem Admissible.of_holds {log : List Event} (h : ∀ e ∈ log, e.Holds) : Admissible log := by
  constructor
  · intro hmem
    cases h _ hmem
  · intro c hmem
    cases h _ hmem

/-- **Every socket has one end.** In a run in which the assertions hold, a socket that was made has been
closed once, or handed over once, or neither and then it is held by the attempt that goes on, and by
nothing else. Between two steps an attempt goes on exactly if `state_` is `kConnecting`, and that is
when the channel is registered: the sockets are settled, but for the one of that channel. -/
theorem settled_once {acts : List (Act F)} {s : Connector F}
    (hok : Run.Along Connector.step Restarts new acts) (hrun : run new acts = some s)
    (hlog : ∀ e ∈ s.log, e.Holds) :
    (∀ n : ℤ, s.settled n + s.held.count n = if 0 ≤ n ∧ n < s.sockets then 1 else 0) ∧
      s.held.length ≤ 1 ∧
      (s.todo = [] → (s.state = .kConnecting ↔ s.registered) ∧
        ∀ n : ℤ, 0 ≤ n ∧ n < s.sockets → s.settled n = if s.channelFd = some n then 0 else 1) := by
  have h : Inv s := run_inv hok hrun (.of_holds hlog) fun _ => .new
  refine ⟨h.owned, h.held_length, fun htodo => ⟨⟨fun hk => ?_, h.registered⟩, fun n hn => ?_⟩⟩
  · exact (h.kConnecting hk).resolve_right (by simp [htodo])
  · have howned := h.owned n
    rw [held, htodo, if_pos hn] at howned
    cases hfd : s.channelFd with
    | none => simpa [hfd] using howned
    | some m =>
      by_cases hm : m = n
      · subst hm
        simpa [hfd] using howned
      · simpa [hfd, hm] using howned

/-- Three attempts: one that fails with an error and a write event at a time, one that is handed over
and, behind `Restart`, one that goes on. -/
theorem settled_once_of_three :
    let acts : List (Act Unit) := [.startCall, .queue 0, .beginFunctors, .functor, .exec {},
      .exec { errno := some .EINPROGRESS }, .endFunctors, .dispatch (POLLERR ||| POLLOUT), .exec {},
      .exec {}, .exec {}, .beginFunctors, .functor, .endFunctors, .timer 0, .exec {}, .exec {},
      .dispatch POLLOUT, .exec {}, .exec {}, .beginFunctors, .functor, .endFunctors, .restart,
      .exec {}, .exec {}, .exec {}]
    ∃ s, run new acts = some s ∧ s.state = .kConnecting ∧ s.channelFd = some 2 ∧
      s.log.count (.close 0) = 1 ∧ s.log.count (.newConnection 1) = 1 ∧
      ∀ n : ℤ, 0 ≤ n ∧ n < s.sockets → s.settled n = if s.channelFd = some n then 0 else 1 := by
  intro acts
  have hok : Run.Along Connector.step Restarts new acts := by decide
  obtain ⟨s, hrun, hlog, htodo, hs⟩ : ∃ s, run new acts = some s ∧ (∀ e ∈ s.log, e.Holds) ∧
      s.todo = [] ∧ s.state = .kConnecting ∧ s.channelFd = some 2 ∧ s.log.count (.close 0) = 1 ∧
      s.log.count (.newConnection 1) = 1 := ⟨_, rfl, by decide, rfl, by decide⟩
  obtain ⟨-, -, hquiet⟩ := settled_once hok hrun hlog
  exact ⟨s, hrun, hs.1, hs.2.1, hs.2.2.1, hs.2.2.2, (hquiet htodo).2⟩

end

end MuduoCpp11.Net.Connector
