import MuduoCpp11.Net.Connector.Ownership

/-! # One attempt at a time

What may become an attempt is counted by `tokens`: a retry timer, a `StartInLoop` that is queued or
about to be, a statement ahead of the loop thread that ends in one, the channel of an open attempt. A
step hands its token on or drops it; only a call of `Start` brings a new one. So there is one at most
if `Start` is called when there is none, and then no `StartInLoop` meets an open attempt.

That alone does not free `channel_`: it waits for a `ResetChannel` in the queue. A `StartInLoop` that
was queued comes behind that one, but a retry timer and a `Start` of the loop thread do not, and have to
find it gone. -/

namespace MuduoCpp11.Net.Connector

open MuduoCpp11.Lib

variable {F : Type*}

def Functor.isStartInLoop : Functor F → Bool
  | .startInLoop => true
  | _ => false

/-- Statements that go on to `Connect` or to a retry timer. -/
def Stmt.isToken : Stmt → Bool
  | .start | .restart | .startInLoop | .connect | .retry _ => true
  | _ => false

def tokens (s : Connector F) : ℕ :=
  s.timers.length + s.loop.queued.countP Functor.isStartInLoop + s.calls.count .start +
    s.todo.countP Stmt.isToken + s.registered.toNat

/-- The calls that bring a token. -/
def Act.newTokens : Act F → ℕ
  | .start | .startCall | .restart => 1
  | _ => 0

section
variable {s s' : Connector F}

theorem tokens_todo {stmt : Stmt} {rest : List Stmt} (htodo : s.todo = stmt :: rest) :
    s.tokens = tokens { s with todo := rest } + if stmt.isToken then 1 else 0 := by
  simp only [tokens, htodo, List.countP_cons, Connector.registered]
  omega

/-- The channel of an attempt that is over is no token any more. -/
theorem tokens_dropChannel {c : Channel} (hreg : s.registered = true) :
    tokens (s.dropChannel c) + 1 = s.tokens := by
  have hreg' : (s.dropChannel c).registered = false := by
    simp [Connector.registered, dropChannel, queueInLoop, emit, Channel.remove]
  simp only [tokens, hreg, hreg']
  simp [dropChannel, queueInLoop, emit, Functor.isStartInLoop]

theorem tokens_push (stmt : Stmt) :
    tokens (s.push stmt) = s.tokens + if stmt.isToken then 1 else 0 := by
  simp only [tokens, push, List.countP_cons, Connector.registered]
  omega

theorem tokens_exec (h : Inv s) {env : Env} {stmt : Stmt} {rest : List Stmt}
    (htodo : s.todo = stmt :: rest) (hs : { s with todo := rest }.exec env stmt = some s') :
    s'.tokens ≤ s.tokens := by
  rw [tokens_todo htodo]
  have hreg (hk : s.state = .kConnecting) (hstmt : stmt.held = none) : s.registered = true := by
    refine (h.kConnecting hk).resolve_right (not_retry ?_)
    rw [htodo, List.filterMap_cons_none hstmt]
    exact held_handlers (by simpa [htodo] using h.tail)
  cases stmt with
  | start | stop | restart =>
    cases hs
    exact (tokens_push _).le
  | queueStopInLoop call =>
    cases hs
    simp [tokens, queueInLoop, Functor.isStartInLoop, Connector.registered, Stmt.isToken]
  | startInLoop =>
    cases hs
    cases hconnect : s.connect with
    | true =>
      simp only [startInLoop, emit, if_true]
      exact (tokens_push _).le
    | false => exact Nat.le_add_right _ _
  | connect =>
    cases hs
    obtain hc | hc | hc := connectSocket_cases { s with todo := rest } env.errno
    · rw [hc]
      simp [tokens, connecting, emit, Connector.registered, Stmt.isToken, Channel.enableWriting,
        Channel.setEvents]
    · rw [hc]
      exact (tokens_push _).le
    · rw [hc]
      exact Nat.le_add_right _ _
  | retry sockfd =>
    cases hs
    rw [retry_eq]
    cases hconnect : s.connect with
    | true =>
      simp [tokens, Connector.registered, Stmt.isToken]
      omega
    | false => exact Nat.le_add_right _ _
  | handleError =>
    obtain ⟨hk, c, hc, rfl⟩ | ⟨-, rfl⟩ := handleError_cases hs
    · rw [tokens_push]
      exact (tokens_dropChannel (s := { s with todo := rest }) (hreg hk rfl)).le
    · exact Nat.le_add_right _ _
  | handleWrite =>
    obtain ⟨hk, c, hc, rfl | ⟨-, -, rfl⟩⟩ | ⟨-, rfl⟩ := handleWrite_cases hs
    · rw [tokens_push]
      exact (tokens_dropChannel (s := { s with todo := rest }) (hreg hk rfl)).le
    · have hdrop := tokens_dropChannel (s := { s with todo := rest }) (c := c) (hreg hk rfl)
      refine le_trans ?_ ((Nat.le_succ _).trans hdrop.le)
      cases hconnect : s.connect with
      | true =>
        simp only [if_true, tokens_push]
        exact le_rfl
      | false => exact le_rfl
    · exact Nat.le_add_right _ _
  | newConnectionCallback sockfd =>
    cases hs
    exact Nat.le_add_right _ _

theorem tokens_runFunctor (h : Inv s) (htodo : s.todo = []) {f : Functor F}
    {loop : EventLoop (Functor F)} (hf : s.loop.nextFunctor = some (f, loop))
    (hs : { s with loop := loop }.runFunctor f = some s') : s'.tokens ≤ s.tokens := by
  have hnext : s.tokens = tokens { s with loop := loop } + if f.isStartInLoop then 1 else 0 := by
    simp only [tokens, EventLoop.queued_nextFunctor hf, List.countP_cons, Connector.registered]
    omega
  rw [hnext]
  cases f with
  | startInLoop =>
    cases hs
    exact (tokens_push _).le
  | stopInLoop call =>
    obtain ⟨hk, c, hc, rfl⟩ | ⟨-, rfl⟩ := stopInLoop_cases hs
    · have hreg : s.registered = true := (h.kConnecting hk).resolve_right (by simp [htodo])
      have hdrop := tokens_dropChannel (c := c) (s := { emit { s with loop := loop }
        (.stopInLoop call) with state := .kDisconnected }) hreg
      rw [tokens_push]
      exact hdrop.le
    · exact Nat.le_add_right _ _
  | resetChannel =>
    cases hs
    refine Nat.le_add_right_of_le ?_
    simp [tokens, resetChannel, emit, Connector.registered]
  | other f =>
    cases hs
    exact Nat.le_add_right _ _

/-- A call leaves the calls that are under way. -/
theorem count_eraseIdx {α : Type*} [DecidableEq α] {calls : List α} {i : ℕ} {c : α}
    (hc : calls[i]? = some c) (a : α) :
    (calls.eraseIdx i).count a + (if c == a then 1 else 0) = calls.count a := by
  obtain ⟨hi, hci⟩ := List.getElem?_eq_some_iff.mp hc
  have hcount := (List.getElem_cons_eraseIdx_perm hi).count_eq a
  rwa [hci, List.count_cons] at hcount

/-- **Tokens come from calls of `Start`.** -/
theorem tokens_step (h : Inv s) {a : Act F} (hs : s.step a = some s') :
    s'.tokens ≤ s.tokens + a.newTokens := by
  cases a with
  | start | stop | restart =>
    simp only [Connector.step] at hs
    split_ifs at hs with htodo
    cases hs
    exact (tokens_push _).le
  | startCall =>
    cases hs
    simp [tokens, Connector.registered, Act.newTokens]
    omega
  | stopCall =>
    cases hs
    simp [tokens, Connector.registered]
  | queue i =>
    simp only [Connector.step, Option.map_eq_some_iff] at hs
    obtain ⟨c, hc, rfl⟩ := hs
    have hcount := count_eraseIdx hc .start
    cases c with
    | start =>
      simp [tokens, queueInLoop, Call.functor, Functor.isStartInLoop, Connector.registered] at hcount ⊢
      omega
    | stop call =>
      simp [tokens, queueInLoop, Call.functor, Functor.isStartInLoop, Connector.registered] at hcount ⊢
      omega
  | exec env =>
    obtain ⟨stmt, rest, htodo, hs⟩ := step_exec hs
    exact tokens_exec h htodo hs
  | dispatch revents =>
    simp only [Connector.step] at hs
    split_ifs at hs with hd
    cases hs
    have hzero : (handlers revents).countP Stmt.isToken = 0 := by
      unfold handlers
      split_ifs <;> rfl
    simp [tokens, hzero, hd.1, Connector.registered]
  | timer i =>
    simp only [Connector.step] at hs
    split_ifs at hs with ht
    cases hs
    rw [tokens_push]
    simp [tokens, List.length_eraseIdx, ht.2.2, Connector.registered, Stmt.isToken]
    omega
  | beginFunctors | endFunctors | queueOther =>
    obtain ⟨loop, rfl, hqueued⟩ := step_queue hs (by simp)
    rcases hqueued with hqueued | ⟨f, hqueued⟩
    · simp [tokens, hqueued, Connector.registered]
    · simp [tokens, hqueued, Functor.isStartInLoop, Connector.registered]
  | functor =>
    obtain ⟨htodo, f, loop, hf, hs⟩ := step_functor hs
    exact tokens_runFunctor h htodo hf hs

/-! ### The channel is free -/

/-- A `StartInLoop` in the queue has no `ResetChannel` behind it. -/
def InOrder (queue : List (Functor F)) : Prop :=
  queue.Pairwise fun f g => f.isStartInLoop → g.isResetChannel = false

/-- What goes on to `Connect` has found the channel reset. -/
structure Waits (s : Connector F) : Prop where
  order : InOrder s.loop.queued
  free : ∀ stmt ∈ s.todo, (stmt = .start ∨ stmt = .connect ∨ stmt = .startInLoop ∧ s.connect = true) →
    s.channel = none
  restart : .restart ∉ s.todo

theorem Waits.new : Waits (Connector.new : Connector F) where
  order := by simp [InOrder, Connector.new, EventLoop.queued]
  free := by simp [Connector.new]
  restart := by simp [Connector.new]

theorem Inv.channel_eq_none (h : Inv s) (hreg : s.registered = false) (hresets : s.resets = 0) :
    s.channel = none := by
  have hreset := h.reset
  rw [hresets] at hreset
  cases hc : s.channel with
  | none => rfl
  | some c => simp [hc, hreg] at hreset

/-- With a token elsewhere, no attempt is open. -/
theorem not_registered (ht : s.tokens ≤ 1)
    (helse : 0 < s.timers.length + s.loop.queued.countP Functor.isStartInLoop + s.calls.count .start +
      s.todo.countP Stmt.isToken) : s.registered = false := by
  cases hreg : s.registered with
  | false => rfl
  | true =>
    simp only [tokens, hreg, Bool.toNat_true] at ht
    omega

/-- The functors that the loop thread and others queue while an attempt is open or none is ahead. -/
theorem Waits.order_append (h : Waits s) {f : Functor F}
    (hf : f.isResetChannel = false ∨ s.registered = true ∧ s.tokens ≤ 1) :
    InOrder (s.loop.queued ++ [f]) := by
  refine List.pairwise_append.mpr ⟨h.order, List.pairwise_singleton _ _, ?_⟩
  intro g hg f' hf' hstart
  rw [List.mem_singleton.mp hf']
  rcases hf with hf | ⟨hreg, ht⟩
  · exact hf
  · have hpos : 0 < s.loop.queued.countP Functor.isStartInLoop :=
      List.countP_pos_iff.mpr ⟨g, hg, hstart⟩
    rw [not_registered ht (by omega)] at hreg
    cases hreg

/-- Behind a statement, only `HandleWrite` can be ahead. -/
theorem Waits.of_rest {rest : List Stmt} (hrest : ∀ stmt ∈ rest, stmt = .handleWrite)
    (htodo : s'.todo = rest)
    (horder : InOrder s'.loop.queued) :
    Waits s' where
  order := horder
  free := by
    intro stmt hmem hstmt
    rw [hrest stmt (htodo ▸ hmem)] at hstmt
    simp at hstmt
  restart := by
    intro hmem
    cases hrest _ (htodo ▸ hmem)

theorem Waits.of_push {rest : List Stmt} {stmt : Stmt} (hrest : ∀ stmt ∈ rest, stmt = .handleWrite)
    (htodo : s'.todo = stmt :: rest)
    (horder : InOrder s'.loop.queued)
    (hfree : (stmt = .start ∨ stmt = .connect ∨ stmt = .startInLoop ∧ s'.connect = true) →
      s'.channel = none) (hrestart : stmt ≠ .restart) : Waits s' where
  order := horder
  free := by
    intro x hmem hx
    rw [htodo] at hmem
    rcases List.mem_cons.mp hmem with rfl | hmem
    · exact hfree hx
    · rw [hrest x hmem] at hx
      simp at hx
  restart := by
    rw [htodo, List.mem_cons, not_or]
    exact ⟨hrestart.symm, fun hmem => by cases hrest _ hmem⟩

theorem Waits.exec (hw : Waits s) (h : Inv s) (ht : s.tokens ≤ 1) {env : Env} {stmt : Stmt}
    {rest : List Stmt} (htodo : s.todo = stmt :: rest)
    (hs : { s with todo := rest }.exec env stmt = some s') : Waits s' := by
  have hrest : ∀ stmt ∈ rest, stmt = .handleWrite := by simpa [htodo] using h.tail
  have hmem : stmt ∈ s.todo := by simp [htodo]
  have hdrop (hk : s.state = .kConnecting) (hstmt : stmt.held = none) :
      InOrder (s.loop.queued ++ [.resetChannel]) := by
    refine hw.order_append (Or.inr ⟨(h.kConnecting hk).resolve_right (not_retry ?_), ht⟩)
    rw [htodo, List.filterMap_cons_none hstmt]
    exact held_handlers hrest
  cases stmt with
  | start =>
    cases hs
    exact .of_push hrest rfl hw.order (fun _ => hw.free _ hmem (Or.inl rfl)) (by simp)
  | stop =>
    cases hs
    exact .of_push hrest rfl hw.order (by simp) (by simp)
  | queueStopInLoop call =>
    cases hs
    refine .of_rest hrest rfl ?_
    simpa [queueInLoop] using hw.order_append (f := .stopInLoop call) (Or.inl rfl)
  | restart => exact absurd hmem hw.restart
  | startInLoop =>
    cases hs
    cases hconnect : s.connect with
    | true =>
      simp only [startInLoop, emit, if_true]
      refine .of_push hrest rfl hw.order (fun _ => ?_) (by simp)
      exact hw.free _ hmem (Or.inr (Or.inr ⟨rfl, hconnect⟩))
    | false => exact .of_rest hrest rfl hw.order
  | connect =>
    cases hs
    obtain hc | hc | hc := connectSocket_cases { s with todo := rest } env.errno
    · rw [hc]
      exact .of_rest hrest rfl hw.order
    · rw [hc]
      exact .of_push hrest rfl hw.order (by simp) (by simp)
    · rw [hc]
      exact .of_rest hrest rfl hw.order
  | retry sockfd =>
    cases hs
    rw [retry_eq]
    exact .of_rest hrest rfl hw.order
  | handleError =>
    obtain ⟨hk, c, -, rfl⟩ | ⟨-, rfl⟩ := handleError_cases hs
    · refine .of_push hrest rfl ?_ (by simp) (by simp)
      simpa [dropChannel, queueInLoop, emit, push] using hdrop hk rfl
    · exact .of_rest hrest rfl hw.order
  | handleWrite =>
    obtain ⟨hk, c, -, rfl | ⟨-, -, rfl⟩⟩ | ⟨-, rfl⟩ := handleWrite_cases hs
    · refine .of_push hrest rfl ?_ (by simp) (by simp)
      simpa [dropChannel, queueInLoop, emit, push] using hdrop hk rfl
    · cases hconnect : s.connect with
      | true =>
        refine .of_push hrest rfl ?_ (by simp) (by simp)
        simpa [dropChannel, queueInLoop, emit, push] using hdrop hk rfl
      | false =>
        refine .of_rest hrest rfl ?_
        simpa [dropChannel, queueInLoop, emit, push] using hdrop hk rfl
    · exact .of_rest hrest rfl hw.order
  | newConnectionCallback sockfd =>
    cases hs
    exact .of_rest hrest rfl hw.order

theorem Waits.runFunctor (hw : Waits s) (h : Inv s) (ht : s.tokens ≤ 1) (htodo : s.todo = [])
    {f : Functor F} {loop : EventLoop (Functor F)} (hf : s.loop.nextFunctor = some (f, loop))
    (hs : { s with loop := loop }.runFunctor f = some s') : Waits s' := by
  have hqueued := EventLoop.queued_nextFunctor hf
  have hnext := hw.order
  rw [hqueued, InOrder, List.pairwise_cons] at hnext
  have hrest : ∀ stmt ∈ s.todo, stmt = .handleWrite := by simp [htodo]
  cases f with
  | startInLoop =>
    cases hs
    -- there is no `ResetChannel` behind the functor
    have hresets : s.resets = 0 := by
      rw [resets, hqueued]
      refine List.countP_eq_zero.mpr fun g hg => ?_
      rcases List.mem_cons.mp hg with rfl | hg
      · simp [Functor.isResetChannel]
      · simp [hnext.1 g hg rfl]
    have hreg : s.registered = false := by
      refine not_registered ht ?_
      rw [hqueued, List.countP_cons_of_pos rfl]
      omega
    exact .of_push hrest rfl hnext.2 (fun _ => h.channel_eq_none hreg hresets) (by simp)
  | stopInLoop call =>
    obtain ⟨hk, c, -, rfl⟩ | ⟨-, rfl⟩ := stopInLoop_cases hs
    · refine .of_push hrest rfl ?_ (by simp) (by simp)
      have hreg : s.registered = true := (h.kConnecting hk).resolve_right (by simp [htodo])
      have horder := hw.order_append (f := .resetChannel) (Or.inr ⟨hreg, ht⟩)
      rw [hqueued, List.cons_append, InOrder, List.pairwise_cons] at horder
      simpa [InOrder, dropChannel, queueInLoop, emit, push] using horder.2
    · exact .of_rest hrest rfl hnext.2
  | resetChannel =>
    cases hs
    exact .of_rest hrest rfl hnext.2
  | other f =>
    cases hs
    exact .of_rest hrest rfl hnext.2

/-- `Start` is called when nothing is left of an earlier attempt but a `ResetChannel`, on the loop
thread not even that, and a retry timer with `connect_` set is called behind the `ResetChannel`. -/
def Starts (s : Connector F) : Act F → Prop
  | .startCall => s.tokens = 0
  | .start => s.tokens = 0 ∧ s.resets = 0
  | .timer _ => s.connect = true → s.resets = 0
  | .restart => False
  | _ => True

instance (s : Connector F) : (a : Act F) → Decidable (Starts s a)
  | .startCall => inferInstanceAs (Decidable (s.tokens = 0))
  | .start => inferInstanceAs (Decidable (s.tokens = 0 ∧ s.resets = 0))
  | .timer _ => inferInstanceAs (Decidable (s.connect = true → s.resets = 0))
  | .restart => isFalse id
  | .stop | .stopCall | .queue _ | .queueOther _ _ | .exec _ | .dispatch _ | .beginFunctors | .functor
  | .endFunctors => isTrue trivial

theorem Waits.step (hw : Waits s) (h : Inv s) (ht : s.tokens ≤ 1) {a : Act F} (hok : Starts s a)
    (hs : s.step a = some s') : Waits s' := by
  cases a with
  | start =>
    simp only [Connector.step] at hs
    split_ifs at hs with htodo
    cases hs
    have hreg : s.registered = false := by
      have hzero := hok.1
      simp only [tokens] at hzero
      exact Bool.toNat_eq_zero.mp (by omega)
    refine .of_push (by simp [htodo]) rfl hw.order (fun _ => ?_) (by simp)
    exact h.channel_eq_none hreg hok.2
  | stop =>
    simp only [Connector.step] at hs
    split_ifs at hs with htodo
    cases hs
    exact .of_push (by simp [htodo]) rfl hw.order (by simp) (by simp)
  | restart => exact hok.elim
  | startCall =>
    cases hs
    refine ⟨hw.order, fun stmt hmem hstmt => ?_, hw.restart⟩
    -- no statement that goes on to `Connect` is ahead
    have hzero : s.todo.countP Stmt.isToken = 0 := by
      have hok : s.tokens = 0 := hok
      simp only [tokens] at hok
      omega
    refine absurd ?_ (List.countP_eq_zero.mp hzero stmt hmem)
    rcases hstmt with rfl | rfl | ⟨rfl, -⟩ <;> rfl
  | stopCall =>
    cases hs
    refine ⟨hw.order, fun stmt hmem hstmt => hw.free stmt hmem ?_, hw.restart⟩
    simpa using hstmt.imp_right fun hstmt => hstmt.imp_right fun hstmt => by simp at hstmt
  | queue i =>
    simp only [Connector.step, Option.map_eq_some_iff] at hs
    obtain ⟨c, -, rfl⟩ := hs
    refine ⟨?_, hw.free, hw.restart⟩
    have hf : (c.functor : Functor F).isResetChannel = false := by cases c <;> rfl
    simpa [queueInLoop] using hw.order_append (Or.inl hf)
  | exec env =>
    obtain ⟨stmt, rest, htodo, hs⟩ := step_exec hs
    exact hw.exec h ht htodo hs
  | dispatch revents =>
    simp only [Connector.step] at hs
    split_ifs at hs with hd
    cases hs
    refine ⟨hw.order, fun stmt hmem hstmt => ?_, fun hmem => ?_⟩
    · unfold handlers at hmem
      split_ifs at hmem <;> simp at hmem <;> grind
    · exact (held_handlersOf revents).2.2 (Or.inr hmem)
  | timer i =>
    simp only [Connector.step] at hs
    split_ifs at hs with htimer
    cases hs
    refine .of_push (by simp [htimer.1]) rfl hw.order (fun hconnect => ?_) (by simp)
    refine h.channel_eq_none (not_registered ht (by omega)) (hok ?_)
    simpa [push] using hconnect
  | beginFunctors | endFunctors | queueOther =>
    obtain ⟨loop, rfl, hqueued⟩ := step_queue hs (by simp)
    refine ⟨?_, hw.free, hw.restart⟩
    rcases hqueued with hqueued | ⟨f, hqueued⟩
    · simpa [hqueued] using hw.order
    · simpa [hqueued] using hw.order_append (f := .other f) (Or.inl rfl)
  | functor =>
    obtain ⟨htodo, f, loop, hf, hs⟩ := step_functor hs
    exact hw.runFunctor h ht htodo hf hs

/-! ### Runs -/

/-- No `StartInLoop` with `connect_` set has met an open attempt, `Connecting` has found no channel, and
`ResetChannel` has destroyed none that was registered. -/
def OneAttempt (log : List Event) : Prop :=
  .startInLoop true .kConnecting ∉ log ∧ (∀ c, .connecting (some c) ∉ log) ∧
    ∀ c, .resetChannel (some c) ∈ log → c.addedToLoop = false

/-- One token, and the channel waits for it. -/
structure Single (s : Connector F) : Prop where
  inv : Inv s
  tokens : s.tokens ≤ 1
  waits : Waits s
  log : OneAttempt s.log

theorem Single.new : Single (Connector.new : Connector F) where
  inv := .new
  tokens := by simp [Connector.new, Connector.tokens, EventLoop.queued, Connector.registered]
  waits := .new
  log := by simp [Connector.new, OneAttempt]

/-- A `StartInLoop` that has the only token meets no open attempt. -/
theorem Inv.not_kConnecting (h : Inv s) (ht : s.tokens ≤ 1) {rest : List Stmt}
    (htodo : s.todo = .startInLoop :: rest) : s.state ≠ .kConnecting := by
  have hreg : s.registered = false := by
    refine not_registered ht ?_
    rw [htodo, List.countP_cons_of_pos rfl]
    omega
  intro hstate
  rcases h.kConnecting hstate with hr | hr
  · rw [hreg] at hr
    cases hr
  · refine not_retry ?_ hr
    rw [htodo, List.filterMap_cons_none rfl]
    exact held_handlers (by simpa [htodo] using h.tail)

/-- What a step writes is in order, as what stood ahead of it was. -/
theorem Single.step_log (h : Single s) {a : Act F} (hs : s.step a = some s') : OneAttempt s'.log := by
  refine ⟨fun he => ?_, fun c he => ?_, fun c he => ?_⟩
  · refine (step_event hs he).elim h.log.1 fun hcaused => ?_
    obtain ⟨env, rest, -, htodo, -, hstate⟩ := hcaused.startInLoop_inv
    exact h.inv.not_kConnecting h.tokens htodo hstate.symm
  · refine (step_event hs he).elim (h.log.2.1 c) fun hcaused => ?_
    obtain ⟨env, rest, -, htodo, hc⟩ := hcaused.connecting_inv
    rw [h.waits.free .connect (by simp [htodo]) (Or.inr (Or.inl rfl))] at hc
    cases hc
  · refine (step_event hs he).elim (h.log.2.2 c) fun hcaused => ?_
    obtain ⟨loop, hf, hc⟩ := hcaused.resetChannel_inv
    simpa [Connector.registered, ← hc] using (h.inv.resetChannel hf).1

theorem Single.step (h : Single s) {a : Act F} (hok : Starts s a) (hs : s.step a = some s') :
    Single s' := by
  have hlog := h.step_log hs
  refine ⟨h.inv.step hs (fun hr => ?_) ⟨hlog.1, hlog.2.1⟩, ?_, h.waits.step h.inv h.tokens hok hs, hlog⟩
  · subst hr
    exact hok.elim
  · have htokens := tokens_step h.inv hs
    have hold := h.tokens
    cases a with
    | start =>
      have hzero : s.tokens = 0 := hok.1
      simp only [Act.newTokens] at htokens
      omega
    | startCall =>
      have hzero : s.tokens = 0 := hok
      simp only [Act.newTokens] at htokens
      omega
    | restart => exact hok.elim
    | _ => exact htokens.trans hold

/-- **At most one attempt at a time**, in runs in which `Start` comes when nothing is left of the
attempts before it, and retry timers behind `ResetChannel`. -/
theorem one_attempt {acts : List (Act F)} {s : Connector F}
    (hok : Run.Along Connector.step Starts new acts) (hrun : run new acts = some s) :
    OneAttempt s.log :=
  (Run.run_inv_along (fun _ _ _ hok hs h => Single.step h hok hs) hok hrun .new).log

/-- An attempt that is stopped, a failed one with its retry timer, and one that is handed over. -/
theorem one_attempt_of_three :
    let acts : List (Act Unit) := [.startCall, .queue 0, .beginFunctors, .functor, .exec {},
      .exec { errno := some .EINPROGRESS }, .stopCall, .endFunctors, .queue 0, .beginFunctors,
      .functor, .exec {}, .startCall, .queue 0, .endFunctors, .beginFunctors, .functor, .functor,
      .exec {}, .exec { errno := some .ECONNREFUSED }, .exec {}, .endFunctors, .timer 0, .exec {},
      .exec {}, .dispatch POLLOUT, .exec {}, .exec {}]
    ∃ s, run new acts = some s ∧ s.log.count (.close 0) = 1 ∧ s.log.count (.close 1) = 1 ∧
      s.log.count (.newConnection 2) = 1 ∧ OneAttempt s.log := by
  intro acts
  have hok : Run.Along Connector.step Starts new acts := by decide
  obtain ⟨s, hrun, hs⟩ : ∃ s, run new acts = some s ∧ s.log.count (.close 0) = 1 ∧
      s.log.count (.close 1) = 1 ∧ s.log.count (.newConnection 2) = 1 := ⟨_, rfl, by decide⟩
  exact ⟨s, hrun, hs.1, hs.2.1, hs.2.2, one_attempt hok hrun⟩

/-- Calls of `Start` and `Stop`. -/
def Act.call : Act F → Option Bool
  | .start | .startCall => some true
  | .stop | .stopCall => some false
  | _ => none

/-- `Start` and `Stop` alternate, `Start` first. -/
def Alternating (acts : List (Act F)) : Prop := (false :: acts.filterMap Act.call).IsChain (· ≠ ·)

/-- `Start` and `Stop` alternate, but the second `Start` comes while the first attempt is open:
`StopInLoop` removes the channel, `StartInLoop` makes another one before the old one is reset, and
`ResetChannel` destroys that one while it is registered. The `Retry` of `StopInLoop` has found `connect_`
set again, so its timer calls `StartInLoop` beside the open attempt. -/
theorem alternating_calls_overlap :
    ¬ ∀ (acts : List (Act Unit)) (s : Connector Unit), Alternating acts →
      .restart ∉ acts → run new acts = some s → OneAttempt s.log := by
  intro hall
  have hlog := hall [.startCall, .queue 0, .beginFunctors, .functor, .exec {},
    .exec { errno := some .EINPROGRESS }, .endFunctors, .stopCall, .queue 0, .startCall, .queue 0,
    .beginFunctors, .functor, .exec {}, .functor, .exec {}, .exec {}, .endFunctors, .beginFunctors,
    .functor, .endFunctors, .timer 0, .exec {}] _ (by unfold Alternating; decide) (by simp) rfl
  exact hlog.1 (by decide)

end

end MuduoCpp11.Net.Connector
