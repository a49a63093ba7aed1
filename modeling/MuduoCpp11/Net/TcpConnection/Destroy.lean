import MuduoCpp11.Net.TcpConnection.LifeCycle

/-! # Destroying the server of a connection

`~TcpServer` runs `ConnectDestroyed` on every connection it still holds. On a connected one this takes
the connection down; on a closed one, whose removal has not reached the server, it only removes the
channel. A connection in `kDisconnecting` is neither: nothing stores `kDisconnected`, the channel is
removed with its events still set, and the user never hears that the connection is down
(`destroyed_iff`). -/

namespace MuduoCpp11.Net.TcpConnection

open MuduoCpp11.Lib.Run

/-- `~TcpServer` as far as this connection is concerned: the server is gone, and `ConnectDestroyed`
runs. -/
def destroyServer (c : TcpConnection) (script : List UserCall) : TcpConnection :=
  { c.connectDestroyed script with
    owner := { c.owner with holds := false, removePending := false } }

namespace LifeCycle

/-- The connection is destroyed in order: it is disconnected, removed from the poller without events,
no assertion has failed, the user has been told exactly once that it is down, and nothing that still
runs changes that until `~TcpConnection`. -/
structure Destroyed (c : TcpConnection) : Prop where
  state : c.state = .kDisconnected
  events : c.channel.events = kNoneEvent
  removed : c.channel.addedToLoop = false ∧ .removeChannel ∈ c.log
  asserts : ∀ a, .assertFailed a ∉ c.log
  down : c.log.count (.connectionCallback .kDisconnected) = 1
  life : ∀ acts c', run step c acts = some c' → c'.state = .kDisconnected ∧
    c'.log.count (.connectionCallback .kDisconnected) = 1 ∧ ∀ a, .assertFailed a ∉ c'.log

variable {c : TcpConnection} {p : Phase}

theorem count_down_of_removed {told : Bool} (h : Inv c (.removed told)) :
    c.log.count (.connectionCallback .kDisconnected) = 1 := by
  have hdowns := Phase.run_count Phase.next_downs h.log
  simp only [Phase.downs, Phase.isDown] at hdowns
  simpa using hdowns.symm

/-- A removed connection is destroyed in order. -/
theorem Inv.destroyed (told : Bool) (h : Inv c (.removed told)) (hadded : c.channel.addedToLoop = false)
    (hmem : .removeChannel ∈ c.log) : Destroyed c where
  state := h.state
  events := h.quiet rfl
  removed := ⟨hadded, hmem⟩
  asserts := Phase.not_assertFailed h.log
  down := count_down_of_removed h
  life := by
    intro acts c' hrun
    obtain ⟨p', -, h', hkeep⟩ := run_inv_rest h (Or.inr (Or.inr ⟨told, rfl⟩)) hrun
    have hp' := hkeep rfl nofun
    subst hp'
    exact ⟨h'.state, count_down_of_removed h', Phase.not_assertFailed h'.log⟩

theorem state_removeChannel (c : TcpConnection) : c.removeChannel.state = c.state := by
  simp only [TcpConnection.removeChannel, TcpConnection.assert]
  split_ifs <;> rfl

/-- The channel of a connection that is down is removed, the owner being gone. -/
theorem destroyed_removeChannel (hl : run Phase.next .connecting c.log = some p) (told : Bool)
    (hn : p.next .removeChannel = some (.removed told)) (hst : c.state = .kDisconnected)
    (he : c.channel.events = kNoneEvent) (hq : destroysQueued c = 0) (owner : Owner) :
    Destroyed { c.removeChannel with owner := { owner with holds := false, removePending := false } } := by
  rw [removeChannel_eq he]
  refine Inv.destroyed told ⟨run_emit (c := { c with channel := c.channel.remove }) hl hn, hst,
    fun _ => he, rfl, rfl, hq⟩ rfl ?_
  simp [emit]

/-- **When destroying a server is safe.** For every state of a connection that its server still holds,
`ConnectDestroyed` destroys the connection in order if and only if it is not in `kDisconnecting`. -/
theorem destroyed_iff {fd : ℤ} {highWatermark : ℕ} {writeComplete highWater sameLoop : Bool}
    {script : List UserCall} {acts : List Act}
    (h : run step ((new fd highWatermark writeComplete highWater sameLoop).connectEstablished script)
      acts = some c) (hholds : c.owner.holds = true) (script' : List UserCall) :
    Destroyed (c.destroyServer script') ↔ c.state ≠ .kDisconnecting := by
  obtain ⟨p₀, hp₀, h₀⟩ :=
    inv_connectEstablished fd highWatermark writeComplete highWater sameLoop script
  obtain ⟨p, hp, hinv, -⟩ := run_inv_rest h₀ (Or.inl hp₀) h
  constructor
  · intro hd hst
    have hkept := hd.state
    simp only [destroyServer, connectDestroyed, hst, reduceCtorEq, if_false, state_removeChannel]
      at hkept
  · intro hst
    rcases hp with ho | rfl | ⟨told, rfl⟩
    · have hconn : c.state = .kConnected := by
        rcases Phase.state_of_isOpen ho with hs | hs
        · exact hinv.state.trans hs
        · exact absurd (hinv.state.trans hs) hst
      have hdown := hinv.takeDown ho script'
      obtain ⟨-, -, hq⟩ : Owned _ := hdown.owner
      simp only [destroyServer, connectDestroyed, if_pos hconn]
      exact destroyed_removeChannel hdown.log false rfl hdown.state (hdown.quiet rfl) hq _
    · have hne : c.state ≠ .kConnected := by rw [hinv.state]; decide
      have hq : destroysQueued c = 0 := by
        obtain ⟨-, -, hq⟩ | ⟨-, hh, -⟩ := hinv.owner
        · exact hq
        · simp [hh] at hholds
      simp only [destroyServer, connectDestroyed, if_neg hne]
      exact destroyed_removeChannel hinv.log true rfl hinv.state (hinv.quiet rfl) hq _
    · simp [hinv.owner.2.1] at hholds

/-- A connection in use, with output on its way. -/
theorem destroyed_iff_connected : ∃ c,
    run step ((new 5 64 false false false).connectEstablished [])
      [.user [.send [1, 2] (.room 1)]] = some c ∧ c.owner.holds = true ∧
    (Destroyed (c.destroyServer []) ↔ c.state ≠ .kDisconnecting) := by
  have hrun : (run step ((new 5 64 false false false).connectEstablished [])
      [.user [.send [1, 2] (.room 1)]]).map (fun c => c.owner.holds) = some true := by decide +kernel
  obtain ⟨c, hc, hh⟩ := Option.map_eq_some_iff.mp hrun
  exact ⟨c, hc, hh, destroyed_iff hc hh []⟩

/-- Behind `Shutdown` the connection is not taken down, its channel is removed with the read events
set, and no report is made. -/
theorem not_destroyed_disconnecting : ∃ c,
    run step ((new 5 64 false false true).connectEstablished []) [.user [.shutdown]] = some c ∧
    c.owner.holds = true ∧ (c.destroyServer []).state = .kDisconnecting ∧
    (c.destroyServer []).channel.events = kReadEvent ∧
    .assertFailed .remove ∈ (c.destroyServer []).log ∧
    (c.destroyServer []).log.count (.connectionCallback .kDisconnected) = 0 ∧
    ¬ Destroyed (c.destroyServer []) := by
  have hrun : (run step ((new 5 64 false false true).connectEstablished []) [.user [.shutdown]]).map
      (fun c => (c.owner.holds, (c.destroyServer []).state, (c.destroyServer []).channel.events,
        decide (.assertFailed .remove ∈ (c.destroyServer []).log),
        (c.destroyServer []).log.count (.connectionCallback .kDisconnected))) =
      some (true, .kDisconnecting, kReadEvent, true, 0) := by decide +kernel
  obtain ⟨c, hc, hv⟩ := Option.map_eq_some_iff.mp hrun
  simp only [Prod.mk.injEq, decide_eq_true_eq] at hv
  obtain ⟨hh, hst, he, hassert, hdown⟩ := hv
  refine ⟨c, hc, hh, hst, he, hassert, hdown, fun hd => ?_⟩
  rw [hd.state] at hst
  cases hst

end LifeCycle

end MuduoCpp11.Net.TcpConnection
