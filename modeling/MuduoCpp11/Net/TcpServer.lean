import MuduoCpp11.Lib.Run
import MuduoCpp11.Net.InetAddress

/-! # The connections of a server

`TcpServer` keeps its connections in a map from names. `NewConnection` numbers the connections and
prints the address of the server and the number into a buffer of 32 bytes behind its own name;
`RemoveConnectionInLoop` erases by name. Both run in the loop thread of the server, in any order.

The buffer has room for `29 - n` digits, `n` the length of the printed address. With more digits two
numbers print alike, and the later connection takes the place of the earlier one in the map; with no
more, names are keys. So the map is right for as many connections as these digits can count, which for
`n ≤ 19` is more than an `int` can (`keyed_iff`). -/

namespace MuduoCpp11.Net

open MuduoCpp11.Lib MuduoCpp11.Lib.Decimal

def INT_MAX : ℕ := 2 ^ 31 - 1

/-- A `TcpConnection` as the server sees it: the object, told by its number, and its name. -/
structure Connection where
  id : ℕ
  name : List Char
  deriving DecidableEq, Repr

/-- `accepted` are all connections so far, `live` those that have not been removed. -/
structure TcpServer where
  hostport : List Char
  name : List Char
  nextConnId : ℕ := 1
  connections : List Char → Option Connection := fun _ => none
  accepted : List Connection := []
  live : List Connection := []

namespace TcpServer

def new (listenAddr : InetAddress) (name : List Char) : TcpServer where
  hostport := listenAddr.toIpPort
  name := name

variable (s : TcpServer)

/-- The name for a number: `snprintf(buf, sizeof buf, ":%s#%d", ...)` with `char buf[32]`. -/
def connName (id : ℕ) : List Char :=
  s.name ++ snprintf 32 (':' :: s.hostport ++ '#' :: decimal id)

def newConnection : TcpServer :=
  let conn : Connection := ⟨s.nextConnId, s.connName s.nextConnId⟩
  { s with
    nextConnId := s.nextConnId + 1
    connections := Function.update s.connections conn.name (some conn)
    accepted := conn :: s.accepted
    live := conn :: s.live }

/-- `RemoveConnectionInLoop`, with the number of erased entries. -/
def removeConnectionInLoop (conn : Connection) : ℕ × TcpServer :=
  (if (s.connections conn.name).isSome then 1 else 0,
    { s with
      connections := Function.update s.connections conn.name none
      live := s.live.erase conn })

inductive Act where
  | newConnection
  | removeConnectionInLoop (conn : Connection)
  deriving DecidableEq

/-- Connections are accepted as long as `++next_conn_id_` does not overflow. A connection is removed
once, and the assertion `n == 1` ends the run if it fails. -/
def step (s : TcpServer) : Act → Option TcpServer
  | .newConnection => if s.nextConnId < INT_MAX then some s.newConnection else none
  | .removeConnectionInLoop conn =>
    if conn ∈ s.live ∧ (s.removeConnectionInLoop conn).1 = 1 then
      some (s.removeConnectionInLoop conn).2
    else none

def run : TcpServer → List Act → Option TcpServer := Run.run step

def Act.accepts : Act → Bool
  | .newConnection => true
  | .removeConnectionInLoop _ => false

/-! ### Names -/

/-- The digits of a number that the buffer has room for. -/
def digits : ℕ := 29 - s.hostport.length

variable {s} {s' : TcpServer}

theorem connName_eq (id : ℕ) :
    s.connName id = s.name ++ snprintf 32 ((':' :: s.hostport ++ ['#']) ++ decimal id) := by
  unfold connName
  rw [List.append_cons _ '#' (decimal id)]

theorem digits_eq : 32 - 1 - (':' :: s.hostport ++ ['#']).length = s.digits := by
  unfold digits
  simp only [List.length_append, List.length_cons, List.length_nil]
  omega

theorem length_lt (h : s.hostport.length ≤ 21) :
    (':' :: s.hostport ++ ['#']).length + 1 < 32 := by
  simp only [List.length_append, List.length_cons, List.length_nil]
  omega

theorem connName_inj (h : s.hostport.length ≤ 21) {i j : ℕ} (hi : i < 10 ^ s.digits)
    (hj : j < 10 ^ s.digits) (heq : s.connName i = s.connName j) : i = j := by
  rw [connName_eq, connName_eq] at heq
  rw [← digits_eq] at hi hj
  exact snprintf_decimal_inj (length_lt h) hi hj (List.append_cancel_left heq)

/-- The first number with too many digits takes the name of an earlier one. -/
theorem connName_ten_pow (h : s.hostport.length ≤ 21) :
    s.connName (10 ^ s.digits) = s.connName (10 ^ (s.digits - 1)) := by
  rw [connName_eq, connName_eq, ← digits_eq, snprintf_decimal_ten_pow (length_lt h)]

/-! ### The map -/

/-- **Names are keys**: different connections have different names, the map takes each name of a live
connection to this connection and has no other entries, and `RemoveConnectionInLoop` erases one entry
and leaves the other live connections where they are. -/
structure Keyed (s : TcpServer) : Prop where
  names : ∀ c ∈ s.accepted, ∀ d ∈ s.accepted, c.name = d.name → c = d
  connections : ∀ key c, s.connections key = some c ↔ c ∈ s.live ∧ c.name = key
  erases : ∀ c ∈ s.live, (s.removeConnectionInLoop c).1 = 1 ∧ ∀ d ∈ s.live, d ≠ c →
    (s.removeConnectionInLoop c).2.connections d.name = some d

/-- Connections are numbered. The map is right as long as the numbers have room. -/
structure Numbered (s : TcpServer) : Prop where
  hostport : s.hostport.length ≤ 21
  nextConnId : s.nextConnId ≤ INT_MAX
  accepted : ∀ c ∈ s.accepted, c.id < s.nextConnId ∧ c.name = s.connName c.id
  live : ∀ c ∈ s.live, c ∈ s.accepted
  nodup : s.live.Nodup
  connections : s.nextConnId ≤ 10 ^ s.digits →
    ∀ key c, s.connections key = some c ↔ c ∈ s.live ∧ c.name = key

theorem numbered_new (listenAddr : InetAddress) (name : List Char) :
    (new listenAddr name).Numbered where
  hostport := listenAddr.length_toIpPort
  nextConnId := Nat.one_le_two_pow.trans (by decide : 2 ^ 30 ≤ INT_MAX)
  accepted := by simp [new]
  live := by simp [new]
  nodup := List.nodup_nil
  connections := by simp [new]

theorem Numbered.eq_of_name (h : s.Numbered) (hn : s.nextConnId ≤ 10 ^ s.digits) {c d : Connection}
    (hc : c ∈ s.accepted) (hd : d ∈ s.accepted) (heq : c.name = d.name) : c = d := by
  obtain ⟨hcid, hcname⟩ := h.accepted c hc
  obtain ⟨hdid, hdname⟩ := h.accepted d hd
  have hid : c.id = d.id := by
    rw [hcname, hdname] at heq
    exact connName_inj h.hostport (by omega) (by omega) heq
  cases c
  cases d
  simp_all

/-- The next name is new. -/
theorem Numbered.fresh (h : s.Numbered) (hn : s.nextConnId < 10 ^ s.digits) :
    s.connections (s.connName s.nextConnId) = none := by
  rw [Option.eq_none_iff_forall_not_mem]
  intro c hc
  obtain ⟨hlive, hname⟩ := (h.connections hn.le _ c).mp hc
  obtain ⟨hid, hcname⟩ := h.accepted c (h.live c hlive)
  rw [hcname] at hname
  have := connName_inj h.hostport (by omega) hn hname
  omega

theorem Numbered.newConnection (h : s.Numbered) (hlt : s.nextConnId < INT_MAX) :
    s.newConnection.Numbered := by
  refine ⟨h.hostport, hlt, ?_, ?_, ?_, ?_⟩
  · intro c hc
    rcases List.mem_cons.mp hc with rfl | hc
    · exact ⟨Nat.lt_succ_self _, rfl⟩
    · obtain ⟨hid, hname⟩ := h.accepted c hc
      exact ⟨Nat.lt_succ_of_lt hid, hname⟩
  · intro c hc
    rcases List.mem_cons.mp hc with rfl | hc
    · exact List.mem_cons_self
    · exact List.mem_cons_of_mem _ (h.live c hc)
  · refine List.nodup_cons.mpr ⟨fun hc => ?_, h.nodup⟩
    exact lt_irrefl _ (h.accepted _ (h.live _ hc)).1
  · intro hn key c
    have hn : s.nextConnId < 10 ^ s.digits := hn
    have hfresh := h.fresh hn
    show Function.update s.connections (s.connName s.nextConnId) _ key = some c ↔
      c ∈ _ :: s.live ∧ c.name = key
    by_cases hkey : key = s.connName s.nextConnId
    · subst hkey
      rw [Function.update_self]
      constructor
      · rintro ⟨rfl⟩
        exact ⟨List.mem_cons_self, rfl⟩
      · rintro ⟨hc, hname⟩
        rcases List.mem_cons.mp hc with rfl | hc
        · rfl
        · rw [(h.connections hn.le _ c).mpr ⟨hc, hname⟩] at hfresh
          cases hfresh
    · rw [Function.update_of_ne hkey, h.connections hn.le]
      constructor
      · rintro ⟨hc, hname⟩
        exact ⟨List.mem_cons_of_mem _ hc, hname⟩
      · rintro ⟨hc, hname⟩
        rcases List.mem_cons.mp hc with rfl | hc
        · exact absurd hname.symm hkey
        · exact ⟨hc, hname⟩

/-- The entries after a removal. -/
theorem Numbered.connections_remove (h : s.Numbered) (hn : s.nextConnId ≤ 10 ^ s.digits)
    {conn : Connection} (hconn : conn ∈ s.live) (key : List Char) (c : Connection) :
    (s.removeConnectionInLoop conn).2.connections key = some c ↔
      c ∈ s.live.erase conn ∧ c.name = key := by
  show Function.update s.connections conn.name none key = some c ↔ _
  by_cases hkey : key = conn.name
  · subst hkey
    rw [Function.update_self]
    constructor
    · rintro ⟨⟩
    · rintro ⟨hc, hname⟩
      have hlive := h.live c (List.mem_of_mem_erase hc)
      rw [h.eq_of_name hn hlive (h.live conn hconn) hname] at hc
      exact absurd hc h.nodup.not_mem_erase
  · rw [Function.update_of_ne hkey, h.connections hn]
    constructor
    · rintro ⟨hc, rfl⟩
      have hne : c ≠ conn := by
        rintro rfl
        exact hkey rfl
      exact ⟨(List.mem_erase_of_ne hne).mpr hc, rfl⟩
    · rintro ⟨hc, hname⟩
      exact ⟨List.mem_of_mem_erase hc, hname⟩

theorem Numbered.removeConnectionInLoop (h : s.Numbered) {conn : Connection} (hconn : conn ∈ s.live) :
    (s.removeConnectionInLoop conn).2.Numbered where
  hostport := h.hostport
  nextConnId := h.nextConnId
  accepted := h.accepted
  live c hc := h.live c (List.mem_of_mem_erase hc)
  nodup := h.nodup.erase conn
  connections hn := h.connections_remove hn hconn

theorem Numbered.step (h : s.Numbered) {act : Act} (hs : s.step act = some s') : s'.Numbered := by
  cases act with
  | newConnection =>
    obtain ⟨hlt, hs⟩ := Option.ite_none_right_eq_some.mp hs
    cases hs
    exact h.newConnection hlt
  | removeConnectionInLoop conn =>
    obtain ⟨⟨hconn, -⟩, hs⟩ := Option.ite_none_right_eq_some.mp hs
    cases hs
    exact h.removeConnectionInLoop hconn

theorem Numbered.keyed (h : s.Numbered) (hn : s.nextConnId ≤ 10 ^ s.digits) : s.Keyed where
  names _ hc _ hd := h.eq_of_name hn hc hd
  connections := h.connections hn
  erases c hc := by
    refine ⟨?_, fun d hd hne => ?_⟩
    · have hentry := (h.connections hn c.name c).mpr ⟨hc, rfl⟩
      simp [TcpServer.removeConnectionInLoop, hentry]
    · exact (h.connections_remove hn hc d.name d).mpr ⟨(List.mem_erase_of_ne hne).mpr hd, rfl⟩

/-! ### Runs -/

variable {acts : List Act}

/-- The members that are `const`. -/
theorem run_const (hr : run s acts = some s') : s'.hostport = s.hostport ∧ s'.name = s.name := by
  refine Run.run_inv (P := fun m : TcpServer => m.hostport = s.hostport ∧ m.name = s.name)
    ?_ hr ⟨rfl, rfl⟩
  intro m act m' hs hm
  cases act with
  | newConnection =>
    obtain ⟨-, hs⟩ := Option.ite_none_right_eq_some.mp hs
    cases hs
    exact hm
  | removeConnectionInLoop conn =>
    obtain ⟨-, hs⟩ := Option.ite_none_right_eq_some.mp hs
    cases hs
    exact hm

theorem run_nextConnId (hr : run s acts = some s') :
    s'.nextConnId = s.nextConnId + acts.countP Act.accepts := by
  refine Run.run_countP (f := TcpServer.nextConnId) (q := Act.accepts) ?_ hr
  intro m act m' hs
  cases act with
  | newConnection =>
    obtain ⟨-, hs⟩ := Option.ite_none_right_eq_some.mp hs
    cases hs
    rfl
  | removeConnectionInLoop conn =>
    obtain ⟨-, hs⟩ := Option.ite_none_right_eq_some.mp hs
    cases hs
    rfl

section
variable {listenAddr : InetAddress} {name : List Char}

theorem numbered_of_run (hr : run (new listenAddr name) acts = some s) : s.Numbered :=
  Run.run_inv (fun _ _ _ hs h => Numbered.step h hs) hr (numbered_new listenAddr name)

theorem digits_of_run (hr : run (new listenAddr name) acts = some s) :
    s.digits = 29 - listenAddr.toIpPort.length := by
  unfold digits
  rw [(run_const hr).1]
  rfl

/-- The numbers of a run have room if few connections are accepted, or if an `int` has room. -/
theorem nextConnId_le (hr : run (new listenAddr name) acts = some s) {N : ℕ}
    (hN : acts.countP Act.accepts ≤ N)
    (h : listenAddr.toIpPort.length ≤ 19 ∨ N < 10 ^ (29 - listenAddr.toIpPort.length)) :
    s.nextConnId ≤ 10 ^ s.digits := by
  have hnext : s.nextConnId = 1 + acts.countP Act.accepts := run_nextConnId hr
  rw [digits_of_run hr]
  rcases h with hlen | hlt
  · have hten : 10 ^ 10 ≤ 10 ^ (29 - listenAddr.toIpPort.length) :=
      Nat.pow_le_pow_right (by decide) (by omega)
    have hint : INT_MAX ≤ 10 ^ 10 := by decide
    exact (numbered_of_run hr).nextConnId.trans (hint.trans hten)
  · omega

theorem run_newConnection {s₀ : TcpServer} (hr : run s₀ acts = some s) (hlt : s.nextConnId < INT_MAX) :
    run s₀ (acts ++ [.newConnection]) = some s.newConnection :=
  Run.run_concat.mpr ⟨s, hr, if_pos hlt⟩

variable (listenAddr name) in
/-- A server that only accepts: all connections are live, and the last one is in the map. -/
theorem run_accept : ∀ n < INT_MAX,
    ∃ s, run (new listenAddr name) (List.replicate n .newConnection) = some s ∧
      (∀ i, 0 < i → i ≤ n → ⟨i, s.connName i⟩ ∈ s.live) ∧
      (0 < n → s.connections (s.connName n) = some ⟨n, s.connName n⟩) := by
  intro n
  induction n with
  | zero => exact fun _ => ⟨_, rfl, fun i hi hle => by omega, fun h => by omega⟩
  | succ n ih =>
    intro hn
    obtain ⟨m, hm, hlive, -⟩ := ih (by omega)
    have hnext : m.nextConnId = n + 1 := by
      have := run_nextConnId hm
      rw [List.countP_replicate] at this
      simpa [Act.accepts, new, Nat.add_comm] using this
    refine ⟨m.newConnection, ?_, ?_, fun _ => ?_⟩
    · rw [List.replicate_succ']
      exact run_newConnection hm (by omega)
    · intro i hi hle
      rcases Nat.lt_or_ge n i with hlt | hge
      · obtain rfl : i = m.nextConnId := by omega
        exact List.mem_cons_self
      · exact List.mem_cons_of_mem _ (hlive i hi hge)
    · rw [← hnext]
      exact Function.update_self _ _ _

variable (name) in
/-- Where the numbers run out of room a live connection loses its entry. -/
theorem overwritten (hlen : 20 ≤ listenAddr.toIpPort.length) :
    ∃ s, run (new listenAddr name)
        (List.replicate (10 ^ (29 - listenAddr.toIpPort.length)) .newConnection) = some s ∧
      ∃ c ∈ s.live, ∃ d ∈ s.live, c ≠ d ∧ c.name = d.name ∧ s.connections c.name = some d := by
  have hle := listenAddr.length_toIpPort
  have hpow : 10 ^ (29 - listenAddr.toIpPort.length) < INT_MAX :=
    (Nat.pow_le_pow_right (by decide) (by omega : _ ≤ 9)).trans_lt (by decide)
  have hlt : 10 ^ (29 - listenAddr.toIpPort.length - 1) < 10 ^ (29 - listenAddr.toIpPort.length) :=
    Nat.pow_lt_pow_right (by decide) (by omega)
  obtain ⟨s, hr, hlive, hlast⟩ := run_accept listenAddr name _ hpow
  have hname := connName_ten_pow (numbered_of_run hr).hostport
  rw [digits_of_run hr] at hname
  refine ⟨s, hr, _, hlive _ (by positivity) hlt.le, _, hlive _ (by positivity) le_rfl, ?_,
    hname.symm, ?_⟩
  · intro heq
    exact hlt.ne (congrArg Connection.id heq)
  · show s.connections (s.connName _) = _
    rw [← hname]
    exact hlast (by positivity)

end

/-- **Names are keys of the map, in all runs with at most `N` connections, if and only if** the printed
address has at most 19 characters or the numbers up to `N` have room behind it. A new connection then
never takes the place of another one. -/
theorem keyed_iff (listenAddr : InetAddress) (name : List Char) (N : ℕ) :
    (∀ acts s, acts.countP Act.accepts ≤ N → run (new listenAddr name) acts = some s →
      s.Keyed ∧ (acts.countP Act.accepts < N → s.nextConnId < INT_MAX →
        s.connections (s.connName s.nextConnId) = none)) ↔
      listenAddr.toIpPort.length ≤ 19 ∨ N < 10 ^ (29 - listenAddr.toIpPort.length) := by
  constructor
  · intro h
    by_contra hcon
    simp only [not_or, not_le, not_lt] at hcon
    obtain ⟨hlen, hN⟩ := hcon
    obtain ⟨s, hr, c, hc, d, -, hne, -, hentry⟩ := overwritten name hlen
    have hcount : (List.replicate (10 ^ (29 - listenAddr.toIpPort.length)) Act.newConnection).countP
        Act.accepts ≤ N := List.countP_le_length.trans (by rwa [List.length_replicate])
    obtain ⟨hkeyed, -⟩ := h _ s hcount hr
    rw [(hkeyed.connections c.name c).mpr ⟨hc, rfl⟩] at hentry
    exact hne (Option.some.inj hentry)
  · intro h acts s hN hr
    refine ⟨(numbered_of_run hr).keyed (nextConnId_le hr hN h), fun hlt hint => ?_⟩
    have hcount : (acts ++ [Act.newConnection]).countP Act.accepts ≤ N := by
      rw [List.countP_append]
      exact hlt
    exact (numbered_of_run hr).fresh (nextConnId_le (run_newConnection hr hint) hcount h)

/-- Behind an address of 21 characters there is room for 8 digits: the connections 10000000 and
100000000 have one name, and the second one takes the entry of the first. -/
theorem overwritten_at_21_chars : ∃ s,
    run (new ⟨192, 168, 100, 200, 65535⟩ "server".toList) (List.replicate (10 ^ 8) .newConnection) =
      some s ∧
    ∃ c ∈ s.live, ∃ d ∈ s.live, c ≠ d ∧ c.name = d.name ∧ s.connections c.name = some d := by
  have hlen : (⟨192, 168, 100, 200, 65535⟩ : InetAddress).toIpPort.length = 21 := by decide
  have h := overwritten "server".toList (hlen.symm.le.trans' (by decide : 20 ≤ 21))
  rwa [hlen] at h

end TcpServer

end MuduoCpp11.Net
