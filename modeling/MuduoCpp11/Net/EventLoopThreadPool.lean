import Mathlib.Data.Int.CardIntervalMod
import MuduoCpp11.Net.TcpServer.HandOver

/-! # The loops of a pool

`EventLoopThreadPool` hands out its loops in turn, the base loop if it has no others. `next_` is a
position of `loops_` at any time, so as many calls of `GetNextLoop` as there are loops return each of
them once, wherever they begin (`getNextLoops_window`).

A server takes the loop of each connection from its pool. Whatever is closed and removed in between, the
connections it has accepted are dealt out evenly over the IO loops (`round_robin`). -/

namespace MuduoCpp11.Net

open MuduoCpp11.Lib

/-- A started pool. -/
structure EventLoopThreadPool (L : Type*) where
  baseLoop : L
  loops : List L
  next : ℕ := 0
  inRange : loops ≠ [] → next < loops.length

namespace EventLoopThreadPool

variable {L : Type*}

/-- `Start`, where the threads have started `loops`. -/
def start (baseLoop : L) (loops : List L) : EventLoopThreadPool L where
  baseLoop := baseLoop
  loops := loops
  inRange := List.length_pos_iff.mpr

variable (p : EventLoopThreadPool L)

def getNextLoop : L × EventLoopThreadPool L :=
  if h : p.loops = [] then (p.baseLoop, p)
  else (p.loops.get ⟨p.next, p.inRange h⟩, { p with
    next := if p.next + 1 ≥ p.loops.length then 0 else p.next + 1
    inRange := fun h => by
      have := List.length_pos_iff.mpr h
      split_ifs <;> omega })

def getLoopForHash (hashCode : ℕ) : L :=
  if h : p.loops = [] then p.baseLoop
  else p.loops.get ⟨hashCode % p.loops.length, Nat.mod_lt _ (List.length_pos_iff.mpr h)⟩

def getAllLoops : List L := if p.loops = [] then [p.baseLoop] else p.loops

/-- `n` calls of `GetNextLoop`. -/
def getNextLoops : ℕ → EventLoopThreadPool L → List L × EventLoopThreadPool L
  | 0, p => ([], p)
  | n + 1, p =>
    let r := getNextLoops n p
    (r.1 ++ [r.2.getNextLoop.1], r.2.getNextLoop.2)

variable {p}

theorem getNextLoop_of_nil (h : p.loops = []) : p.getNextLoop = (p.baseLoop, p) := by
  rw [getNextLoop, dif_pos h]

theorem getNextLoop_fst (h : p.loops ≠ []) :
    p.getNextLoop.1 = p.loops.get ⟨p.next, p.inRange h⟩ := by
  rw [getNextLoop, dif_neg h]

@[simp] theorem loops_getNextLoop : p.getNextLoop.2.loops = p.loops := by
  unfold getNextLoop
  split_ifs <;> rfl

/-- `next_` goes round. -/
theorem next_getNextLoop (h : p.loops ≠ []) :
    p.getNextLoop.2.next = (p.next + 1) % p.loops.length := by
  have hlt := p.inRange h
  rw [getNextLoop, dif_neg h]
  simp only
  split_ifs with hge
  · rw [show p.next + 1 = p.loops.length by omega, Nat.mod_self]
  · rw [Nat.mod_eq_of_lt (by omega)]

@[simp] theorem loops_getNextLoops : ∀ n : ℕ, (getNextLoops n p).2.loops = p.loops
  | 0 => rfl
  | n + 1 => by rw [getNextLoops, loops_getNextLoop, loops_getNextLoops n]

theorem next_getNextLoops (h : p.loops ≠ []) :
    ∀ n : ℕ, (getNextLoops n p).2.next = (p.next + n) % p.loops.length
  | 0 => (Nat.mod_eq_of_lt (p.inRange h)).symm
  | n + 1 => by
    have hn : (getNextLoops n p).2.loops ≠ [] := by rwa [loops_getNextLoops]
    rw [getNextLoops, next_getNextLoop hn, loops_getNextLoops, next_getNextLoops h n,
      Nat.mod_add_mod, Nat.add_assoc]

/-- What is handed out is one of the loops. -/
theorem getNextLoop_mem : p.getNextLoop.1 ∈ p.getAllLoops := by
  by_cases h : p.loops = []
  · simp [getNextLoop_of_nil h, getAllLoops, h]
  · rw [getNextLoop_fst h, getAllLoops, if_neg h]
    exact List.get_mem _ _

theorem getLoopForHash_mem (hashCode : ℕ) : p.getLoopForHash hashCode ∈ p.getAllLoops := by
  unfold getLoopForHash getAllLoops
  split_ifs
  · exact List.mem_singleton_self _
  · exact List.get_mem _ _

/-- **The loops are handed out in turn.** -/
theorem getNextLoops_eq (h : p.loops ≠ []) : ∀ n : ℕ, (getNextLoops n p).1 =
    (List.range n).map fun i =>
      p.loops.get ⟨(p.next + i) % p.loops.length, Nat.mod_lt _ (List.length_pos_iff.mpr h)⟩
  | 0 => rfl
  | n + 1 => by
    have hn : (getNextLoops n p).2.loops ≠ [] := by rwa [loops_getNextLoops]
    rw [getNextLoops, getNextLoops_eq h n, List.range_succ, List.map_append, List.map_singleton,
      getNextLoop_fst hn]
    simp only [List.get_eq_getElem, loops_getNextLoops, next_getNextLoops h]

/-- As many calls as there are loops return all loops, each once, whatever has been called before. -/
theorem getNextLoops_window (h : p.loops ≠ []) :
    (getNextLoops p.loops.length p).1 = p.loops.rotate p.next ∧
      (getNextLoops p.loops.length p).1.Perm p.getAllLoops ∧
      (getNextLoops p.loops.length p).2.next = p.next := by
  have hrotate : (getNextLoops p.loops.length p).1 = p.loops.rotate p.next := by
    rw [getNextLoops_eq h]
    refine List.ext_getElem (by simp) fun i hi _ => ?_
    simp [List.getElem_rotate, Nat.add_comm]
  refine ⟨hrotate, ?_, ?_⟩
  · rw [hrotate, getAllLoops, if_neg h]
    exact List.rotate_perm _ _
  · rw [next_getNextLoops h, Nat.add_mod_right, Nat.mod_eq_of_lt (p.inRange h)]

/-- Three loops, from the second one on. -/
theorem getNextLoops_window_three :
    (getNextLoops 3 ⟨0, [1, 2, 3], 1, by decide⟩).1 = [2, 3, 1] ∧
      (getNextLoops 3 ⟨0, [1, 2, 3], 1, by decide⟩).1.Perm [1, 2, 3] :=
  have h := getNextLoops_window (p := ⟨0, [1, 2, 3], 1, by decide⟩) (by decide)
  ⟨h.1, h.2.1⟩

end EventLoopThreadPool

/-! ### The pool of a server -/

namespace TcpServer.Loops

open EventLoopThreadPool

variable {s s' : Loops} {numThreads : ℕ}

/-- The pool of a server with `numThreads` threads, when it has been started. -/
def pool (numThreads : ℕ) : EventLoopThreadPool ℕ := .start 0 (List.range' 1 numThreads)

theorem pool_loops_ne (h : 0 < numThreads) : (pool numThreads).loops ≠ [] := by
  rw [← List.length_pos_iff]
  simpa [pool, EventLoopThreadPool.start] using h

/-- The server takes the loop from a pool at the same position. -/
theorem getNextLoop_pool {p : EventLoopThreadPool ℕ} (hloops : p.loops = List.range' 1 s.numThreads)
    (hnext : p.next = s.next) (hpos : 0 < s.numThreads) :
    s.getNextLoop = (p.getNextLoop.1, { s with next := p.getNextLoop.2.next }) := by
  have hne : p.loops ≠ [] := by
    rw [← List.length_pos_iff, hloops]
    simpa using hpos
  have hlength : p.loops.length = s.numThreads := by simp [hloops]
  have hlt := p.inRange hne
  have hget : p.loops.get ⟨p.next, hlt⟩ = s.next + 1 := by
    simp only [List.get_eq_getElem, hloops, List.getElem_range', hnext]
    omega
  rw [getNextLoop_fst hne, hget, next_getNextLoop hne, hlength, hnext, Loops.getNextLoop,
    if_neg (by omega)]
  congr 2
  split_ifs with hge
  · rw [show s.next + 1 = s.numThreads by omega, Nat.mod_self]
  · rw [Nat.mod_eq_of_lt (by omega)]

/-- **The invariant**: the connections have the loops that the pool has handed out, in order. -/
structure Dealt (n : ℕ) (s : Loops) : Prop where
  numThreads : s.numThreads = n
  next : s.next = (getNextLoops s.server.accepted.length (pool n)).2.next
  loops : (s.server.accepted.reverse.map fun conn => (s.peers conn).loop) =
    (getNextLoops s.server.accepted.length (pool n)).1
  numbered : ∀ conn ∈ s.server.accepted, conn.id < s.server.nextConnId

/-- No other step touches the loop of a connection, or the pool. -/
structure Leaves (s s' : Loops) : Prop where
  numThreads : s'.numThreads = s.numThreads
  next : s'.next = s.next
  loop : ∀ conn, (s'.peers conn).loop = (s.peers conn).loop

theorem Leaves.refl (s : Loops) : Leaves s s := ⟨rfl, rfl, fun _ => rfl⟩

theorem Leaves.trans {s'' : Loops} (h : Leaves s s') (h' : Leaves s' s'') : Leaves s s'' :=
  ⟨h'.numThreads.trans h.numThreads, h'.next.trans h.next,
    fun conn => (h'.loop conn).trans (h.loop conn)⟩

/-- One connection is written to, and keeps its loop. -/
theorem Leaves.of_update {conn : Connection} {p : Peer} (hnum : s'.numThreads = s.numThreads)
    (hnext : s'.next = s.next) (hpeers : s'.peers = Function.update s.peers conn p)
    (hp : p.loop = (s.peers conn).loop) : Leaves s s' where
  numThreads := hnum
  next := hnext
  loop d := by
    rw [hpeers]
    rcases eq_or_ne d conn with rfl | hne
    · rw [Function.update_self, hp]
    · rw [Function.update_of_ne hne]

theorem leaves_connectDestroyed (k : ℕ) (conn : Connection) :
    Leaves s (s.connectDestroyed k conn) := by
  refine Leaves.of_update rfl rfl rfl ?_
  split_ifs <;> rfl

theorem leaves_handleClose (k : ℕ) (conn : Connection) : Leaves s (s.handleClose k conn) := by
  have hset : Leaves s (s.setDisconnected k conn) := Leaves.of_update rfl rfl rfl rfl
  refine hset.trans ?_
  unfold Loops.handleClose Loops.removeConnection
  split_ifs
  · exact ⟨rfl, rfl, fun _ => rfl⟩
  · exact ⟨rfl, rfl, fun _ => rfl⟩

theorem leaves_runFunctor (k : ℕ) (f : Functor) : Leaves s (s.runFunctor k f) := by
  cases f with
  | connectEstablished conn => exact Leaves.of_update rfl rfl rfl rfl
  | removeConnectionInLoop conn => exact ⟨rfl, rfl, fun _ => rfl⟩
  | connectDestroyed conn => exact leaves_connectDestroyed k conn
  | forceCloseInLoop conn =>
    show Leaves s (s.forceCloseInLoop k conn)
    unfold Loops.forceCloseInLoop
    split_ifs
    · exact leaves_handleClose k conn
    · exact Leaves.refl s

theorem step_leaves {a : Act} (hs : step s a = some s') (ha : a ≠ .newConnection) : Leaves s s' := by
  cases a with
  | newConnection => exact absurd rfl ha
  | close conn =>
    obtain ⟨-, hs⟩ := Option.ite_none_right_eq_some.mp hs
    cases hs
    exact leaves_handleClose _ conn
  | shutdown conn =>
    obtain ⟨-, hs⟩ := Option.ite_none_right_eq_some.mp hs
    cases hs
    unfold Loops.shutdown
    simp only
    split_ifs
    · exact Leaves.of_update rfl rfl rfl rfl
    · exact Leaves.refl s
  | forceClose conn =>
    obtain ⟨-, hs⟩ := Option.ite_none_right_eq_some.mp hs
    cases hs
    unfold Loops.forceClose
    simp only
    split_ifs
    · exact Leaves.of_update rfl rfl rfl rfl
    · exact Leaves.refl s
  | beginFunctors k =>
    obtain ⟨loop, -, rfl⟩ := Option.map_eq_some_iff.mp hs
    exact ⟨rfl, rfl, fun _ => rfl⟩
  | functor k =>
    obtain ⟨⟨f, loop⟩, -, rfl⟩ := Option.map_eq_some_iff.mp hs
    have hset : Leaves s (s.setLoop k loop) := ⟨rfl, rfl, fun _ => rfl⟩
    exact hset.trans (leaves_runFunctor k f)
  | endFunctors k =>
    obtain ⟨loop, -, rfl⟩ := Option.map_eq_some_iff.mp hs
    exact ⟨rfl, rfl, fun _ => rfl⟩

theorem Dealt.leaves (h : Dealt numThreads s) (hkeeps : Keeps s s') (hs : Leaves s s') :
    Dealt numThreads s' where
  numThreads := hs.numThreads.trans h.numThreads
  next := by rw [hkeeps.1, hs.next, h.next]
  loops := by
    rw [hkeeps.1, ← h.loops]
    exact List.map_congr_left fun conn _ => hs.loop conn
  numbered := by rw [hkeeps.1, hkeeps.2]; exact h.numbered

/-- What `NewConnection` does with the pool and with the loops of the connections. -/
theorem newConnection_spec {ioLoop i : ℕ} (hnext : s.getNextLoop = (ioLoop, { s with next := i })) :
    s.newConnection.numThreads = s.numThreads ∧ s.newConnection.next = i ∧
      s.newConnection.server.nextConnId = s.server.nextConnId + 1 ∧
      ∀ conn, (s.newConnection.peers conn).loop =
        if conn = s.nextConnection then ioLoop else (s.peers conn).loop := by
  have hpeer (conn : Connection) :
      (Function.update s.peers s.nextConnection { loop := ioLoop } conn).loop =
        if conn = s.nextConnection then ioLoop else (s.peers conn).loop := by
    rw [Function.update_apply]
    split_ifs <;> rfl
  unfold Loops.newConnection
  rw [hnext]
  simp only
  split_ifs
  · refine ⟨rfl, rfl, rfl, fun conn => ?_⟩
    have hleaves : Leaves ({ s with next := i }.insertConnection ioLoop)
        (({ s with next := i }.insertConnection ioLoop).connectEstablished 0
          ({ s with next := i }.nextConnection)) := Leaves.of_update rfl rfl rfl rfl
    rw [hleaves.loop]
    exact hpeer conn
  · exact ⟨rfl, rfl, rfl, hpeer⟩

/-- The next connection gets the next loop. -/
theorem Dealt.newConnection (h : Dealt numThreads s) (hpos : 0 < numThreads) :
    Dealt numThreads s.newConnection := by
  have hloops : (getNextLoops s.server.accepted.length (pool numThreads)).2.loops =
      List.range' 1 s.numThreads := by
    rw [loops_getNextLoops, h.numThreads]
    rfl
  obtain ⟨hnum, hnext, hid, hloop⟩ :=
    newConnection_spec (getNextLoop_pool hloops h.next.symm (by rw [h.numThreads]; exact hpos))
  have haccepted := accepted_newConnection s
  refine ⟨hnum.trans h.numThreads, ?_, ?_, ?_⟩
  · rw [hnext, haccepted, List.length_cons]
    rfl
  · have hold : (s.server.accepted.reverse.map fun conn => (s.newConnection.peers conn).loop) =
        s.server.accepted.reverse.map fun conn => (s.peers conn).loop := by
      refine List.map_congr_left fun conn hconn => ?_
      rw [hloop, if_neg]
      rintro rfl
      exact absurd (h.numbered _ (List.mem_reverse.mp hconn)) (Nat.lt_irrefl _)
    rw [haccepted, List.reverse_cons, List.map_append, hold, h.loops, List.map_singleton, hloop,
      if_pos rfl, List.length_cons]
    rfl
  · rw [haccepted, hid]
    intro conn hconn
    rcases List.mem_cons.mp hconn with rfl | hconn
    · exact Nat.lt_succ_self _
    · exact (h.numbered conn hconn).trans (Nat.lt_succ_self _)

theorem Dealt.step {a : Act} (h : Dealt numThreads s) (hpos : 0 < numThreads)
    (hs : step s a = some s') : Dealt numThreads s' := by
  by_cases ha : a = .newConnection
  · subst ha
    rw [step_newConnection hs]
    exact h.newConnection hpos
  · exact h.leaves (step_keeps hs ha) (step_leaves hs ha)

theorem dealt_new (listenAddr : InetAddress) (name : List Char) :
    Dealt numThreads (new listenAddr name numThreads) :=
  ⟨rfl, rfl, rfl, nofun⟩

/-- How often a loop is handed out. -/
theorem count_getNextLoops (hpos : 0 < numThreads) (n : ℕ) {k : ℕ} (hk : k < numThreads) :
    (getNextLoops n (pool numThreads)).1.count (k + 1) =
      n / numThreads + if k < n % numThreads then 1 else 0 := by
  have hcount := Nat.count_modEq_card n hpos k
  rw [Nat.mod_eq_of_lt hk] at hcount
  rw [← hcount, getNextLoops_eq (pool_loops_ne hpos), List.count, List.countP_map, Nat.count]
  refine List.countP_congr fun i _ => ?_
  simp [pool, EventLoopThreadPool.start, Nat.ModEq, Nat.mod_eq_of_lt hk, Nat.add_comm 1]

/-- **The connections are dealt out evenly.** In every run of a server with IO loops, the connections
have the loops that a fresh pool hands out, in the order in which they were accepted; so of all
connections a loop has got its share, up to one, however many of them are closed and removed. -/
theorem round_robin {listenAddr : InetAddress} {name : List Char} {acts : List Act}
    (hpos : 0 < numThreads) (hrun : run (new listenAddr name numThreads) acts = some s) :
    (s.server.accepted.reverse.map fun conn => (s.peers conn).loop) =
      (getNextLoops s.server.accepted.length (pool numThreads)).1 ∧
    ∀ k < numThreads, (s.server.accepted.countP fun conn => (s.peers conn).loop = k + 1) =
      s.server.accepted.length / numThreads +
        if k < s.server.accepted.length % numThreads then 1 else 0 := by
  have h : Dealt numThreads s :=
    Run.run_inv (P := Dealt numThreads) (fun _ _ _ hs h => h.step hpos hs) hrun
      (dealt_new listenAddr name)
  refine ⟨h.loops, fun k hk => ?_⟩
  rw [← count_getNextLoops hpos _ hk, ← h.loops, List.map_reverse, List.count_reverse, List.count,
    List.countP_map]
  exact List.countP_congr fun conn _ => by simp

/-- Three connections on two IO loops; the first one is closed on the way. -/
theorem round_robin_of_three : ∃ s,
    run (new ⟨0, 0, 0, 0, 80⟩ ['s'] 2) [.newConnection, .newConnection, .beginFunctors 1, .functor 1,
      .endFunctors 1, .close ⟨1, "s:0.0.0.0:80#1".toList⟩, .newConnection] = some s ∧
    (s.server.accepted.reverse.map fun conn => (s.peers conn).loop) = [1, 2, 1] ∧
    (s.server.accepted.countP fun conn => (s.peers conn).loop = 0 + 1) = 3 / 2 + 1 := by
  obtain ⟨s, hrun, hlength⟩ : ∃ s, run (new ⟨0, 0, 0, 0, 80⟩ ['s'] 2) [.newConnection, .newConnection,
      .beginFunctors 1, .functor 1, .endFunctors 1, .close ⟨1, "s:0.0.0.0:80#1".toList⟩,
      .newConnection] = some s ∧ s.server.accepted.length = 3 := ⟨_, rfl, rfl⟩
  obtain ⟨hloops, hcount⟩ := round_robin (by decide) hrun
  refine ⟨s, hrun, ?_, ?_⟩
  · rw [hloops, hlength]
    rfl
  · rw [hcount 0 (by decide), hlength]
    rfl

end TcpServer.Loops

end MuduoCpp11.Net
