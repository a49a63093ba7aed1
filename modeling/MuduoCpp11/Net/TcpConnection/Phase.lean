import MuduoCpp11.Lib.Run
import MuduoCpp11.Net.TcpConnection

/-! # The life cycle of a connection

What the life of a connection should look like from outside, as an automaton that reads the log of its
effects: it is reported up once, serves, is closed by a fixed sequence (`kDisconnected` is stored, the
channel is disabled, the connection is reported down, the owner is told), and is removed from the
poller. An effect that is out of place, a failed assertion among them, is rejected.

What a log that is read to its end says about the callbacks, the states and the channel is read off
the automaton, one transition at a time. -/

namespace MuduoCpp11.Net.TcpConnection

open MuduoCpp11.Lib.Run

inductive Phase where
  | connecting
  /-- `kConnected` is stored. -/
  | establishing
  /-- Reported up. -/
  | up
  /-- The same, with `kDisconnecting` stored. -/
  | disconnecting
  /-- `kDisconnected` is stored. -/
  | closing
  /-- The channel is disabled. -/
  | disabled
  /-- Reported down. -/
  | down
  /-- The owner has been told. -/
  | closed
  /-- The channel is removed from the poller; the owner has been `told`, or has done it by itself. -/
  | removed (told : Bool)
  deriving DecidableEq, Repr

namespace Phase

/-- The value of `state_`. -/
def state : Phase → StateE
  | .connecting => .kConnecting
  | .establishing | .up => .kConnected
  | .disconnecting => .kDisconnecting
  | .closing | .disabled | .down | .closed | .removed _ => .kDisconnected

/-- The connection can be used. -/
def isOpen : Phase → Bool
  | .up | .disconnecting => true
  | _ => false

/-- The channel has been disabled for good. -/
def isQuiet : Phase → Bool
  | .disabled | .down | .closed | .removed _ => true
  | _ => false

/-- Reported down, at rest or not. -/
def isDown : Phase → Bool
  | .down | .closed | .removed _ => true
  | _ => false

/-- **The automaton.** -/
def next (p : Phase) : Effect → Option Phase
  | .setState .kConnecting => none
  | .setState .kConnected => if p = .connecting then some .establishing else none
  | .setState .kDisconnecting => if p.isOpen then some .disconnecting else none
  | .setState .kDisconnected => if p.isOpen then some .closing else none
  | .updateChannel events =>
    if p = .establishing ∨ p.isOpen then some p
    else if p = .closing ∧ events = kNoneEvent then some .disabled else none
  | .connectionCallback s =>
    if p = .establishing ∧ s = .kConnected then some .up
    else if p = .disabled ∧ s = .kDisconnected then some .down else none
  | .closeCallback => if p = .down then some .closed else none
  | .removeChannel =>
    if p = .down then some (.removed false) else if p = .closed then some (.removed true) else none
  | .write _ | .messageCallback => if p.isOpen then some p else none
  | .shutdownWrite _ | .writeCompleteCallback | .highWatermarkCallback _ =>
    if p.isOpen ∨ p.isDown then some p else none
  | .assertFailed _ => none

/-- The effects that leave the phase as it is. -/
def Serves (p : Phase) : Effect → Prop
  | .updateChannel _ => p = .establishing ∨ p.isOpen
  | .write _ | .messageCallback => p.isOpen
  | .shutdownWrite _ | .writeCompleteCallback | .highWatermarkCallback _ => p.isOpen ∨ p.isDown
  | _ => False

/-- The transitions, one by one. -/
inductive Next : Phase → Effect → Phase → Prop
  | connect : Next .connecting (.setState .kConnected) .establishing
  | reportUp : Next .establishing (.connectionCallback .kConnected) .up
  | disconnect {p : Phase} (h : p.isOpen) : Next p (.setState .kDisconnecting) .disconnecting
  | close {p : Phase} (h : p.isOpen) : Next p (.setState .kDisconnected) .closing
  | disable : Next .closing (.updateChannel kNoneEvent) .disabled
  | reportDown : Next .disabled (.connectionCallback .kDisconnected) .down
  | tellOwner : Next .down .closeCallback .closed
  | removeDown : Next .down .removeChannel (.removed false)
  | removeClosed : Next .closed .removeChannel (.removed true)
  | serve {p : Phase} {e : Effect} (h : p.Serves e) : Next p e p

theorem next_serves {p : Phase} {e : Effect} (h : p.Serves e) : p.next e = some p := by
  cases e <;> first | exact if_pos h | exact False.elim h

theorem next_cases {p p' : Phase} {e : Effect} (h : p.next e = some p') : Next p e p' := by
  cases e with
  | setState s =>
    cases s <;> simp only [next, reduceCtorEq] at h <;> split_ifs at h with hp <;> cases h
    · exact .close hp
    · exact hp ▸ .connect
    · exact .disconnect hp
  | updateChannel events =>
    simp only [next] at h
    split_ifs at h with hp hq <;> cases h
    · exact .serve hp
    · obtain ⟨rfl, rfl⟩ := hq
      exact .disable
  | connectionCallback s =>
    simp only [next] at h
    split_ifs at h with hp hq <;> cases h
    · obtain ⟨rfl, rfl⟩ := hp
      exact .reportUp
    · obtain ⟨rfl, rfl⟩ := hq
      exact .reportDown
  | closeCallback =>
    simp only [next] at h
    split_ifs at h with hp
    cases h
    exact hp ▸ .tellOwner
  | removeChannel =>
    simp only [next] at h
    split_ifs at h with hp hq <;> cases h
    · exact hp ▸ .removeDown
    · exact hq ▸ .removeClosed
  | assertFailed a => simp [next] at h
  | _ =>
    simp only [next] at h
    split_ifs at h with hp
    cases h
    exact .serve hp

/-! ### What an accepted log says -/

/-- The moves of `state_`; `kDisconnecting` may be skipped and stored again. -/
def forward : StateE → StateE → Bool
  | .kConnecting, .kConnected => true
  | .kConnected, .kDisconnecting => true
  | .kConnected, .kDisconnected => true
  | .kDisconnecting, .kDisconnecting => true
  | .kDisconnecting, .kDisconnected => true
  | _, _ => false

/-- The value stored, if the effect is a store to `state_`. -/
def stored : Effect → Option StateE
  | .setState s => some s
  | _ => none

theorem state_of_isOpen {p : Phase} (h : p.isOpen) :
    p.state = .kConnected ∨ p.state = .kDisconnecting := by
  cases p <;> simp_all [isOpen, state]

theorem stored_of_serves {p : Phase} {e : Effect} (h : p.Serves e) : stored e = none := by
  cases e <;> first | rfl | exact False.elim h

/-- A transition stores the state of the new phase, in a forward move, or keeps it. -/
theorem next_state {p p' : Phase} {e : Effect} (h : p.next e = some p') :
    match stored e with
    | some s => forward p.state s = true ∧ p'.state = s
    | none => p'.state = p.state := by
  cases next_cases h with
  | disconnect hp =>
    rcases state_of_isOpen hp with hs | hs <;> rw [hs] <;> exact ⟨rfl, rfl⟩
  | close hp => rcases state_of_isOpen hp with hs | hs <;> rw [hs] <;> exact ⟨rfl, rfl⟩
  | serve hs => rw [stored_of_serves hs]
  | _ => first | rfl | exact ⟨rfl, rfl⟩

/-- **The states of a connection go forward.** -/
theorem run_states : ∀ {l : List Effect} {p p' : Phase}, run next p l = some p' →
    List.IsChain (fun s t => forward s t = true) (p.state :: l.filterMap stored)
  | [], p, p', _ => by simp
  | e :: l, p, p', h => by
    obtain ⟨m, hm, hrest⟩ := Option.bind_eq_some_iff.mp h
    have hs := next_state hm
    have ih := run_states hrest
    cases hst : stored e with
    | none =>
      rw [hst] at hs
      rw [List.filterMap_cons_none hst, ← hs]
      exact ih
    | some s =>
      rw [hst] at hs
      rw [List.filterMap_cons_some hst, List.isChain_cons_cons, ← hs.2]
      exact ⟨hs.2 ▸ hs.1, ih⟩

/-- The last one is the state of the phase. -/
theorem run_getLast : ∀ {l : List Effect} {p p' : Phase}, run next p l = some p' →
    (p.state :: l.filterMap stored).getLast (by simp) = p'.state
  | [], p, p', h => by
    simp only [run_nil, Option.some.injEq] at h
    simp [h]
  | e :: l, p, p', h => by
    obtain ⟨m, hm, hrest⟩ := Option.bind_eq_some_iff.mp h
    have hs := next_state hm
    have ih := run_getLast hrest
    cases hst : stored e with
    | none =>
      rw [hst] at hs
      simp only [List.filterMap_cons_none hst, ← hs]
      exact ih
    | some s =>
      rw [hst] at hs
      simp only [List.filterMap_cons_some hst, ← hs.2]
      rw [List.getLast_cons (by simp)]
      exact ih

theorem not_assertFailed : ∀ {l : List Effect} {p p' : Phase}, run next p l = some p' →
    ∀ a, .assertFailed a ∉ l
  | [], _, _, _, a => by simp
  | e :: l, p, p', h, a => by
    obtain ⟨m, hm, hrest⟩ := Option.bind_eq_some_iff.mp h
    intro hmem
    rcases List.mem_cons.mp hmem with rfl | hmem
    · cases next_cases hm with
      | serve hs => exact False.elim hs
    · exact not_assertFailed hrest a hmem

/-- Reports up so far. -/
def ups : Phase → ℕ
  | .connecting | .establishing => 0
  | _ => 1

/-- Reports down so far. -/
def downs (p : Phase) : ℕ := if p.isDown then 1 else 0

/-- Calls of the owner so far. -/
def closes : Phase → ℕ
  | .closed | .removed true => 1
  | _ => 0

/-- An effect that leaves the phase is no report to the user or the owner. -/
theorem not_report_of_serves {p : Phase} {e : Effect} (h : p.Serves e) (s : StateE) :
    e ≠ .connectionCallback s ∧ e ≠ .closeCallback := by
  cases e with
  | connectionCallback s => exact False.elim h
  | closeCallback => exact False.elim h
  | _ => exact ⟨nofun, nofun⟩

theorem next_ups {p p' : Phase} {e : Effect} (h : p.next e = some p') :
    p'.ups = p.ups + if e = .connectionCallback .kConnected then 1 else 0 := by
  cases next_cases h with
  | serve hs => simp [(not_report_of_serves hs .kConnected).1]
  | disconnect hp => cases p <;> first | rfl | simp [isOpen] at hp
  | close hp => cases p <;> first | rfl | simp [isOpen] at hp
  | _ => rfl

theorem next_downs {p p' : Phase} {e : Effect} (h : p.next e = some p') :
    p'.downs = p.downs + if e = .connectionCallback .kDisconnected then 1 else 0 := by
  cases next_cases h with
  | serve hs => simp [(not_report_of_serves hs .kDisconnected).1]
  | disconnect hp => cases p <;> first | rfl | simp [isOpen] at hp
  | close hp => cases p <;> first | rfl | simp [isOpen] at hp
  | _ => rfl

theorem next_closes {p p' : Phase} {e : Effect} (h : p.next e = some p') :
    p'.closes = p.closes + if e = .closeCallback then 1 else 0 := by
  cases next_cases h with
  | serve hs => simp [(not_report_of_serves hs .kConnected).2]
  | disconnect hp => cases p <;> first | rfl | simp [isOpen] at hp
  | close hp => cases p <;> first | rfl | simp [isOpen] at hp
  | _ => rfl

/-- A count of an effect, as a number that the phases keep. -/
theorem run_count {f : Phase → ℕ} {e₀ : Effect}
    (hf : ∀ {p p' : Phase} {e : Effect}, p.next e = some p' → f p' = f p + if e = e₀ then 1 else 0)
    {l : List Effect} {p p' : Phase} (h : run next p l = some p') : f p' = f p + l.count e₀ :=
  run_countP (q := (· == e₀)) (fun _ _ _ hn => by simpa using hf hn) h

/-- **Down comes after up.** -/
theorem up_mem_of_down {pre : List Effect} (post : List Effect) {p : Phase}
    (h : run next .connecting (pre ++ .connectionCallback .kDisconnected :: post) = some p) :
    .connectionCallback .kConnected ∈ pre := by
  obtain ⟨m, hpre, hrest⟩ := run_append_eq_some.mp h
  obtain ⟨m', hm, -⟩ := Option.bind_eq_some_iff.mp hrest
  have hups : m.ups = 1 := by
    cases next_cases hm with
    | reportDown => rfl
    | serve hs => exact False.elim hs
  have hcount := run_count next_ups hpre
  rw [hups] at hcount
  exact List.count_pos_iff.mp (by simp only [ups] at hcount; omega)

/-- Behind `kDisconnected`, the channel is updated only to no events. -/
theorem updateChannel_of_disconnected : ∀ {l : List Effect} {p p' : Phase},
    run next p l = some p' → p.state = .kDisconnected → ∀ events, .updateChannel events ∈ l →
      events = kNoneEvent
  | [], _, _, _, _, events, hmem => by simp at hmem
  | e :: l, p, p', h, hst, events, hmem => by
    obtain ⟨m, hm, hrest⟩ := Option.bind_eq_some_iff.mp h
    have hmst : m.state = .kDisconnected := by
      have hs := next_state hm
      rw [hst] at hs
      cases hstored : stored e with
      | none => rw [hstored] at hs; exact hs
      | some s => rw [hstored] at hs; cases s <;> simp [forward] at hs
    rcases List.mem_cons.mp hmem with rfl | hmem
    · cases next_cases hm with
      | disable => rfl
      | serve hs =>
        rcases (hs : p = .establishing ∨ p.isOpen = true) with rfl | hs
        · cases hst
        · rcases state_of_isOpen hs with hs | hs <;> simp [hst] at hs
    · exact updateChannel_of_disconnected hrest hmst events hmem

end Phase

end MuduoCpp11.Net.TcpConnection
