import MuduoCpp11.Net.TcpConnection.Served

/-! # The output is delivered

What is in the output buffer does not stay there: as long as it is not empty the channel is interested
in `POLLOUT`, so the poller reports every room that the kernel has, and each write takes bytes from the
front. If the kernel makes room for the whole of it, in pieces and with failed writes in between, all
that the conversation has sent is on the wire, and a shutdown that it has asked for is done
(`served_delivers`). -/

namespace MuduoCpp11.Net

open MuduoCpp11.Lib

/-- The bytes a write accepts at most. -/
def WriteResult.accepts : WriteResult → ℕ
  | .room n => n
  | .error _ => 0

namespace Served

open TcpConnection

variable {σ : Type*} {h : MessageCallback σ} {s : Served σ} {fd : ℤ} {sameLoop : Bool} {context : σ}
  {acts : List Act}

/-- The poller reports that the kernel has room. -/
def writable (w : WriteResult) : Act := .dispatch POLLOUT {} (.bytes []) w []

theorem callingPendingFunctors_handleWrite (c : TcpConnection) (w : WriteResult) :
    (c.handleWrite w).loop.callingPendingFunctors = c.loop.callingPendingFunctors := by
  have hdrained (c : TcpConnection) :
      c.drained.loop.callingPendingFunctors = c.loop.callingPendingFunctors := by
    unfold drained shutdownInLoop
    dsimp only
    split_ifs <;> rfl
  by_cases hw : c.channel.isWriting = true
  · cases w with
    | room n =>
      rw [handleWrite_room hw]
      split_ifs
      · exact hdrained _
      · rfl
      · rfl
    | error e => simp only [handleWrite, hw, if_true]
  · simp only [handleWrite, hw]
    rfl

/-- **A step of the output**: the event is not held back, and the write takes what it can. -/
theorem step_writable {v : Conversation σ} (hc : CarriesOut s v)
    (hopen : s.conn.state ≠ .kDisconnected) (hidle : s.conn.loop.callingPendingFunctors = false)
    (hpos : 0 < s.conn.outputBuffer.readableBytes) (w : WriteResult) :
    ∃ s', step h s (writable w) = some s' ∧ s'.heard = s.heard ∧ s'.given = s.given ∧
      s'.conn.state ≠ .kDisconnected ∧
      s'.conn.loop.callingPendingFunctors = false ∧
      s'.conn.outputBuffer.readableBytes = s.conn.outputBuffer.readableBytes - w.accepts := by
  have htalks : Talks s.conn (keptOf s.given) v.isOpen := hc.conn.resolve_right fun hsil => hopen hsil.state
  let c : TcpConnection := { s.conn with
    channel := { s.conn.channel with revents := POLLOUT, eventHandling := true } }
  have hsynced : c.Synced := htalks.synced
  have hwriting : s.conn.channel.isWriting = true := htalks.synced.mpr hpos
  have hevents : s.conn.channel.events ≠ kNoneEvent := by
    intro hnone
    rw [Channel.isWriting, hnone] at hwriting
    exact absurd hwriting (by decide)
  have hhup : hasEvent POLLOUT POLLHUP = false := by decide
  have hin : hasEvent POLLOUT (POLLIN ||| POLLPRI ||| POLLRDHUP) = false := by decide
  have hout : hasEvent POLLOUT POLLOUT = true := by decide
  have hallowed : LifeCycle.Allowed ⟨POLLOUT, .bytes [], w, [], []⟩ := fun hhup' => by
    simp [hhup] at hhup'
  have hhandle : s.conn.handleEventWithGuard ⟨POLLOUT, .bytes [], w, [], []⟩ =
      { c.handleWrite w with
        channel := { (c.handleWrite w).channel with eventHandling := false } } := by
    simp only [handleEventWithGuard, hhup, hin, hout, Bool.false_eq_true, false_and, if_false, if_true]
    rfl
  have harrived : arrived s.conn POLLOUT (.bytes []) = [] := by
    simp only [arrived, hin, Bool.false_eq_true, if_false]
  refine ⟨{ s with conn := s.conn.handleEventWithGuard ⟨POLLOUT, .bytes [], w, [], []⟩ }, ?_, rfl, rfl,
    ?_, ?_, ?_⟩
  · simp only [writable, step, harrived, if_true, LifeCycle.step, hidle, hevents, hallowed, ne_eq,
      not_false_eq_true, and_self, Option.map_some]
  · rw [hhandle]
    show (c.handleWrite w).state ≠ .kDisconnected
    rw [(handleWrite_moves hsynced w).state]
    exact hopen
  · rw [hhandle]
    exact (callingPendingFunctors_handleWrite c w).trans hidle
  · rw [hhandle]
    show (c.handleWrite w).outputBuffer.readableBytes = s.conn.outputBuffer.readableBytes - w.accepts
    rw [← Buffer.length_peek, peek_handleWrite hsynced, List.length_drop, Buffer.length_peek]
    cases w with
    | room n =>
      show s.conn.outputBuffer.readableBytes - min n s.conn.outputBuffer.readableBytes = _
      simp only [WriteResult.accepts]
      omega
    | error e => rfl

theorem run_writable (hrun : run h (start fd sameLoop context) acts = some s)
    (hopen : s.conn.state ≠ .kDisconnected) (hidle : s.conn.loop.callingPendingFunctors = false)
    (ws : List WriteResult)
    (hroom : s.conn.outputBuffer.readableBytes ≤ (ws.map WriteResult.accepts).sum) :
    ∃ k ≤ ws.length, ∃ s', run h s ((ws.take k).map writable) = some s' ∧ s'.heard = s.heard ∧
      s'.given = s.given ∧ s'.conn.state ≠ .kDisconnected ∧
      s'.conn.outputBuffer.readableBytes = 0 := by
  induction ws generalizing s acts with
  | nil => exact ⟨0, le_rfl, s, rfl, rfl, rfl, hopen, by simpa using hroom⟩
  | cons w ws ih =>
    rcases Nat.eq_zero_or_pos s.conn.outputBuffer.readableBytes with hzero | hpos
    · exact ⟨0, Nat.zero_le _, s, rfl, rfl, rfl, hopen, hzero⟩
    · obtain ⟨v, -, hc, -⟩ := run_carriesOut hrun
      obtain ⟨m, hm, hheard, hgiven, hopen', hidle', hbytes⟩ := step_writable hc hopen hidle hpos w
      rw [List.map_cons, List.sum_cons] at hroom
      have hrun₁ : run h (start fd sameLoop context) (acts ++ [writable w]) = some m :=
        Run.run_concat.mpr ⟨s, hrun, hm⟩
      obtain ⟨k, hk, s', hrun', hheard', hgiven', hopen'', hzero⟩ := ih hrun₁ hopen' hidle' (by omega)
      refine ⟨k + 1, Nat.succ_le_succ hk, s', ?_, hheard'.trans hheard, hgiven'.trans hgiven, hopen'',
        hzero⟩
      rw [List.take_succ_cons, List.map_cons, run, Run.run_cons, hm]
      exact hrun'

/-- **Everything is delivered.** From every state of a run in which the connection is open and the loop
waits for events: if the results of the writes to come make room for the output buffer, in whatever
pieces and with failures in between, then after some of them everything that was sent is on the wire, but
for the messages whose direct write has failed, and the write side is shut down behind it exactly if the
conversation has asked for that. -/
theorem served_delivers (hrun : run h (start fd sameLoop context) acts = some s)
    (hopen : s.conn.state ≠ .kDisconnected) (hidle : s.conn.loop.callingPendingFunctors = false)
    (ws : List WriteResult)
    (hroom : s.conn.outputBuffer.readableBytes ≤ (ws.map WriteResult.accepts).sum) :
    ∃ k ≤ ws.length, ∃ s' v, run h s ((ws.take k).map writable) = some s' ∧
      Conversation.run h { context } s.heard = some v ∧ s.given.map Given.message = v.sent ∧
      (acts.all Act.calm = true → ∀ g ∈ s.given, g.lost = false) ∧
      wire s'.conn.log = (keptOf s.given).flatten ∧
      shutdowns [] s'.conn.log = if v.isOpen then [] else [((keptOf s.given).flatten, [])] := by
  obtain ⟨k, hk, s', hrun', hheard, hgiven, -, hzero⟩ := run_writable hrun hopen hidle ws hroom
  have hwhole : run h (start fd sameLoop context) (acts ++ (ws.take k).map writable) = some s' :=
    Run.run_append_eq_some.mpr ⟨s, hrun, hrun'⟩
  obtain ⟨v, hv, hc, -⟩ := run_carriesOut hwhole
  obtain ⟨-, -, -, hcalm⟩ := run_carriesOut hrun
  have hpeek : s'.conn.outputBuffer.peek = [] := s'.conn.outputBuffer.readableBytes_eq_zero.mp hzero
  refine ⟨k, hk, s', v, hrun', hheard ▸ hv, hgiven ▸ hc.given, hcalm, ?_, ?_⟩
  · rw [← hgiven, ← hc.conn.stream, hpeek, List.append_nil]
  · rw [← hgiven, hc.conn.shutdowns, hpeek]
    cases v.isOpen with
    | true => rfl
    | false => rfl

/-- A callback answers with what has arrived and shuts down; half of it is written directly, and the
next write fails. -/
theorem served_delivers_half : ∃ (s' : Served ℕ) (k : ℕ), k ≤ 2 ∧
    wire s'.conn.log = [7, 8] ∧ shutdowns [] s'.conn.log = [([7, 8], [])] := by
  let answer : MessageCallback ℕ := fun n _ contents =>
    some ⟨n + 1, contents.length, [.send contents, .shutdown]⟩
  let acts : List Act := [.dispatch POLLIN {} (.bytes [7, 8]) (.room 0) [.room 1]]
  have hsome : ((run answer (start 5 true 0) acts).map fun s => (s.heard,
      s.conn.outputBuffer.readableBytes, s.conn.state, s.conn.loop.callingPendingFunctors)) =
      some ([⟨[7, 8], {}⟩], 1, .kDisconnecting, false) := by decide +kernel
  obtain ⟨s, hs, hfacts⟩ := Option.map_eq_some_iff.mp hsome
  simp only [Prod.mk.injEq] at hfacts
  obtain ⟨hheard, hbytes, hstate, hidle⟩ := hfacts
  obtain ⟨k, hk, s', v, -, hv, hgiven, hcalm, hwire, hshut⟩ :=
    served_delivers hs (by simp [hstate]) hidle [.error .ewouldblock, .room 9] (by rw [hbytes]; decide)
  rw [hheard] at hv
  cases hv
  have hkept : keptOf s.given = [[7, 8]] := (keptOf_of_forall (hcalm (by decide))).trans hgiven
  rw [hkept] at hwire hshut
  exact ⟨s', k, hk, hwire, hshut⟩

end Served

end MuduoCpp11.Net
