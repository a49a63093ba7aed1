import MuduoCpp11.Net.Http.Grammar
import MuduoCpp11.Net.Http.Incremental
import MuduoCpp11.Net.Http.Session

/-! # Pipelined requests

`OnMessage` dispatches at most one request a call. A second one that is complete in the buffer stays
there until more bytes arrive; it is there exactly when the buffer, with the chunk appended, holds the
end of the current request and another complete one (`HoldsTwoRequests`).

`requests` counts the requests of a byte string. Every call keeps the number dispatched and the
number still in the buffer together (`requests_deliver`), so the number dispatched is a function of
the bytes as soon as none is left behind by the last call (`deliverAll_pipeline`). -/

namespace MuduoCpp11.Net.Http

open MuduoCpp11.Base MuduoCpp11.Lib MuduoCpp11.Lib.Search

/-- The bytes `p` end a request that has been read up to the state `st`. -/
def EndsRequest (st : HttpRequestParseState) (p : List UInt8) : Prop :=
  match st with
  | .kExpectRequestLine => ∃ rl hs e, IsLine rl ∧ IsRequestLine rl ∧ Block hs e ∧
      p = rl ++ kCRLF ++ endLines (hs ++ [e])
  | .kExpectHeaders => ∃ hs e, Block hs e ∧ p = endLines (hs ++ [e])
  | .kExpectBody | .kGotAll => False

/-- The buffer with the chunk appended holds the rest of the current request and another one. -/
def HoldsTwoRequests (conn : HttpConnection) (c : Chunk) : Prop :=
  ∃ p q rest, conn.inputBuffer.peek ++ c.data = p ++ (q ++ rest) ∧
    EndsRequest conn.context.state p ∧ EndsRequest .kExpectRequestLine q

def HttpAction.isRequest : HttpAction → Bool
  | .httpCallback _ _ => true
  | _ => false

/-- The number of requests passed to `http_callback_`. -/
def dispatched (acts : List HttpAction) : ℕ := acts.countP HttpAction.isRequest

theorem acceptsLine_iff {context : HttpContext} (hm : context.request.method = .kInvalid)
    {line : List UInt8} : AcceptsLine context line ↔ IsRequestLine line := by
  constructor
  · rintro ⟨c, hc⟩
    by_contra hline
    by_cases hn : NamesMethod line
    · obtain ⟨c', hc', -⟩ := processRequestLine_of_not_isRequestLine hm hn hline
      simp [hc] at hc'
    · simp [processRequestLine_of_not_namesMethod hm hn] at hc
  · rintro ⟨m, target, v, hline⟩
    exact ⟨_, processRequestLine_of_requestLine hm hline⟩

/-- **The parser completes a request exactly on its end.** -/
theorem parse_complete_iff {context : HttpContext} (h : context.Ready) (s rest : List UInt8) :
    (∃ c, parse context s = .returned ⟨.complete, c, rest⟩) ↔
      ∃ p, EndsRequest context.state p ∧ s = p ++ rest := by
  rcases h with ⟨hst, hm⟩ | hst
  · simp only [parse_complete _ hst, acceptsLine_iff hm, hst, EndsRequest]
    constructor
    · rintro ⟨rl, hs, e, hl, hr, hb, rfl⟩
      exact ⟨_, ⟨rl, hs, e, hl, hr, hb, rfl⟩, by simp⟩
    · rintro ⟨p, ⟨rl, hs, e, hl, hr, hb, rfl⟩, rfl⟩
      exact ⟨rl, hs, e, hl, hr, hb, by simp⟩
  · simp only [parse_of_headers hst, Outcome.returned.injEq, hst, EndsRequest]
    constructor
    · rintro ⟨c, hc⟩
      obtain ⟨hs, e, hb, he⟩ := block_of_parseHeaders context s (by rw [hc])
      exact ⟨_, ⟨hs, e, hb, rfl⟩, by rw [hc] at he; exact he⟩
    · rintro ⟨p, ⟨hs, e, hb, rfl⟩, rfl⟩
      exact ⟨_, parseHeaders_of_block context rest hb⟩

/-! ### Counting requests -/

theorem parse_complete_length {context c : HttpContext} {s rest : List UInt8}
    (h : parse context s = .returned ⟨.complete, c, rest⟩) : rest.length < s.length := by
  rcases parse_cases h with ⟨hst, -⟩ | ⟨-, hv⟩
  · obtain ⟨rl, hs, e, -, -, -, rfl⟩ := (parse_complete _ hst).mp ⟨c, h⟩
    simp [kCRLF]; omega
  · obtain ⟨hs, e, -, he⟩ := block_of_parseHeaders context s (by rw [← hv])
    rw [← hv] at he
    rw [he]
    simp [endLines, kCRLF]; omega

/-- The number of requests the bytes complete, one after the other. -/
def requests (context : HttpContext) (s : List UInt8) : ℕ :=
  match h : parse context s with
  | .returned ⟨.complete, c, rest⟩ => requests c.reset rest + 1
  | _ => 0
termination_by s.length
decreasing_by exact parse_complete_length h

theorem requests_of_complete {context c : HttpContext} {s rest : List UInt8}
    (h : parse context s = .returned ⟨.complete, c, rest⟩) :
    requests context s = requests c.reset rest + 1 := by
  rw [requests]; split <;> simp_all

theorem requests_eq_zero {context : HttpContext} {s : List UInt8} :
    requests context s = 0 ↔ ∀ c rest, parse context s ≠ .returned ⟨.complete, c, rest⟩ := by
  rw [requests]; split <;> simp_all

theorem requests_congr {context context' : HttpContext} {s s' : List UInt8}
    (h : parse context s = parse context' s') : requests context s = requests context' s' := by
  by_cases h0 : requests context s = 0
  · rw [h0, eq_comm, requests_eq_zero, ← h, ← requests_eq_zero, h0]
  · rw [requests_eq_zero] at h0
    push Not at h0
    obtain ⟨c, rest, hp⟩ := h0
    have hp' := h ▸ hp
    rw [requests_of_complete hp, requests_of_complete hp']

/-! ### One call -/

theorem mem_eraseTime_shutdown {acts : List HttpAction} :
    .shutdown ∈ acts.map HttpAction.eraseTime ↔ .shutdown ∈ acts := by
  constructor
  · intro h
    obtain ⟨a, ha, he⟩ := List.mem_map.mp h
    cases a <;> simp_all [HttpAction.eraseTime]
  · exact fun h => List.mem_map.mpr ⟨_, h, rfl⟩

theorem dispatched_eraseTime (acts : List HttpAction) :
    dispatched (acts.map HttpAction.eraseTime) = dispatched acts := by
  unfold dispatched
  rw [List.countP_map]
  congr 1
  funext a
  cases a <;> rfl

@[simp] theorem dispatched_append (acts acts' : List HttpAction) :
    dispatched (acts ++ acts') = dispatched acts + dispatched acts' := List.countP_append

/-- **What a call without a parse error does**: it dispatches nothing and waits, or dispatches one
request and is reset. -/
theorem deliver_cases {conn conn' : HttpConnection} {c : Chunk} {acts : List HttpAction}
    (h : deliver conn c = .returned (conn', acts)) (hno : .shutdown ∉ acts) :
    (dispatched acts = 0 ∧ parse conn.session.context (conn.session.pending ++ c.data) =
      .returned ⟨.incomplete, conn'.session.context, conn'.session.pending⟩) ∨
    (dispatched acts = 1 ∧ ∃ ctx, ctx.reset = conn'.session.context ∧
      parse conn.session.context (conn.session.pending ++ c.data) =
        .returned ⟨.complete, ctx, conn'.session.pending⟩) := by
  obtain ⟨⟨verdict, ctx, rest⟩, hp, ha⟩ := Outcome.map_eq_returned.mp (deliver_returned h)
  rw [← mem_eraseTime_shutdown] at hno
  rw [← dispatched_eraseTime, hp]
  cases verdict with
  | error =>
    simp only [View.answer, Prod.mk.injEq] at ha
    rw [← ha.2] at hno
    simp at hno
  | incomplete =>
    simp only [View.answer, Prod.mk.injEq] at ha
    rw [← ha.1, ← ha.2]
    exact Or.inl ⟨rfl, rfl⟩
  | complete =>
    simp only [View.answer, Prod.mk.injEq] at ha
    rw [← ha.1, ← ha.2]
    exact Or.inr ⟨rfl, ctx, rfl, rfl⟩

/-- The requests of the bytes are those dispatched and those still to come. -/
theorem requests_deliver {conn conn' : HttpConnection} {c : Chunk} {acts : List HttpAction}
    (h : deliver conn c = .returned (conn', acts)) (hno : .shutdown ∉ acts) (more : List UInt8) :
    requests conn.session.context (conn.session.pending ++ c.data ++ more) =
      dispatched acts + requests conn'.session.context (conn'.session.pending ++ more) := by
  rcases deliver_cases h hno with ⟨h0, hp⟩ | ⟨h1, ctx, hctx, hp⟩
  · rw [h0, Nat.zero_add]
    refine requests_congr ?_
    rw [parse_append, hp]
    rfl
  · have hp' : parse conn.session.context (conn.session.pending ++ c.data ++ more) =
        .returned ⟨.complete, ctx, conn'.session.pending ++ more⟩ := by
      rw [parse_append, hp]
      rfl
    rw [requests_of_complete hp', h1, hctx, Nat.add_comm]

/-- **What a call leaves behind.** -/
theorem reachesGotAll_deliver {conn conn' : HttpConnection} {c : Chunk} {acts : List HttpAction}
    (hready : conn.context.Ready) (h : deliver conn c = .returned (conn', acts))
    (hno : .shutdown ∉ acts) (t : Timestamp) :
    (∃ rest, ReachesGotAll conn'.inputBuffer conn'.context t rest) ↔ HoldsTwoRequests conn c := by
  have hready' : conn.session.context.Ready := hready
  have hends := parse_complete_iff hready' (conn.session.pending ++ c.data)
  simp only [reachesGotAll_iff]
  rcases deliver_cases h hno with ⟨-, hp⟩ | ⟨-, ctx, hctx, hp⟩
  · have hwait := parse_wait hp
    constructor
    · rintro ⟨rest, ctx', hp'⟩
      have := hwait.symm.trans hp'
      simp at this
    · rintro ⟨p, q, rest, hb, hfirst, -⟩
      obtain ⟨ctx', hp'⟩ := (hends (q ++ rest)).mpr ⟨p, hfirst, hb⟩
      simp [hp] at hp'
  · have hnext := parse_complete_iff ctx.ready_reset conn'.session.pending
    rw [hctx] at hnext
    constructor
    · rintro ⟨rest, hc⟩
      obtain ⟨q, hq, hrest⟩ := (hnext rest).mp hc
      obtain ⟨p, hfirst, hb⟩ := (hends conn'.session.pending).mp ⟨ctx, hp⟩
      rw [← hctx] at hq
      exact ⟨p, q, rest, by rw [← hrest]; exact hb, hfirst, hq⟩
    · rintro ⟨p, q, rest, hb, hfirst, hq⟩
      obtain ⟨ctx', hp'⟩ := (hends (q ++ rest)).mpr ⟨p, hfirst, hb⟩
      rw [hp, Outcome.returned.injEq, View.mk.injEq] at hp'
      exact ⟨rest, (hnext rest).mpr ⟨q, by rw [← hctx]; exact hq, hp'.2.2⟩⟩

/-! ### All calls -/

theorem requests_deliverAll : ∀ (cs : List Chunk) {conn conn' : HttpConnection}
    {acts : List HttpAction}, deliverAll conn cs = .returned (conn', acts) → .shutdown ∉ acts →
    requests conn.session.context (conn.session.pending ++ bytesOf cs) =
      dispatched acts + requests conn'.session.context conn'.session.pending
  | [], conn, conn', acts, h, _ => by
    simp only [deliverAll, Outcome.returned.injEq, Prod.mk.injEq] at h
    obtain ⟨rfl, rfl⟩ := h
    simp [dispatched]
  | c :: cs, conn, conn', acts, h, hno => by
    obtain ⟨⟨conn₁, acts₁⟩, hd, h⟩ := Outcome.bind_eq_returned.mp h
    obtain ⟨⟨conn₂, acts₂⟩, hds, he⟩ := Outcome.map_eq_returned.mp h
    simp only [Prod.mk.injEq] at he
    obtain ⟨rfl, rfl⟩ := he
    simp only [List.mem_append, not_or] at hno
    rw [bytesOf_cons, ← List.append_assoc, requests_deliver hd hno.1, requests_deliverAll cs hds hno.2,
      dispatched_append, Nat.add_assoc]

/-- The last chunk arrives on a buffer that then holds two requests. -/
def LastHoldsTwo (ip : List UInt8) (cs : List Chunk) : Prop :=
  ∃ pre c conn acts, cs = pre ++ [c] ∧ deliverAll (onConnection ip) pre = .returned (conn, acts) ∧
    HoldsTwoRequests conn c

theorem requests_new (ip : List UInt8) : requests (onConnection ip).session.context
    (onConnection ip).session.pending = 0 := by
  have hpend : (onConnection ip).session.pending = [] := Buffer.peek_new _
  rw [requests_eq_zero, hpend]
  intro c rest h
  have := parse_complete_length h
  simp at this

/-- Nothing is left behind by the last call. -/
theorem requests_last {ip : List UInt8} {cs : List Chunk} {conn : HttpConnection}
    {acts : List HttpAction} (h : deliverAll (onConnection ip) cs = .returned (conn, acts))
    (hno : .shutdown ∉ acts) (hlast : ¬ LastHoldsTwo ip cs) :
    requests conn.session.context conn.session.pending = 0 := by
  rcases List.eq_nil_or_concat cs with rfl | ⟨pre, c, rfl⟩
  · simp only [deliverAll, Outcome.returned.injEq, Prod.mk.injEq] at h
    rw [← h.1]
    exact requests_new ip
  · rw [List.concat_eq_append, deliverAll_concat] at h
    obtain ⟨⟨conn₁, acts₁⟩, hpre, h⟩ := Outcome.bind_eq_returned.mp h
    obtain ⟨⟨conn₂, acts₂⟩, hd, he⟩ := Outcome.map_eq_returned.mp h
    simp only [Prod.mk.injEq] at he
    obtain ⟨rfl, rfl⟩ := he
    simp only [List.mem_append, not_or] at hno
    rw [requests_eq_zero]
    intro ctx rest hp
    have hreach : ∃ rest, ReachesGotAll conn₂.inputBuffer conn₂.context {} rest :=
      ⟨rest, reachesGotAll_iff.mpr ⟨ctx, hp⟩⟩
    rw [reachesGotAll_deliver (ready_of_deliver (ready_or_spoiled hpre) hd) hd hno.2] at hreach
    exact hlast ⟨pre, c, conn₁, acts₁, by simp, hpre, hreach⟩

/-- **Complete requests in the buffer.** A call that reports no error leaves no complete request
behind if and only if the buffer with the chunk did not hold two; and the requests dispatched do not
depend on how the bytes were cut, as long as the last call leaves none behind. -/
theorem deliverAll_pipeline (ip : List UInt8) :
    (∀ cs conn acts c conn' acts' t, deliverAll (onConnection ip) cs = .returned (conn, acts) →
      deliver conn c = .returned (conn', acts') → .shutdown ∉ acts' →
      ((¬ ∃ rest, ReachesGotAll conn'.inputBuffer conn'.context t rest) ↔
        ¬ HoldsTwoRequests conn c)) ∧
    ∀ cs cs' conn conn' acts acts', bytesOf cs = bytesOf cs' →
      deliverAll (onConnection ip) cs = .returned (conn, acts) →
      deliverAll (onConnection ip) cs' = .returned (conn', acts') →
      .shutdown ∉ acts → .shutdown ∉ acts' → ¬ LastHoldsTwo ip cs → ¬ LastHoldsTwo ip cs' →
      dispatched acts = dispatched acts' := by
  constructor
  · intro cs conn acts c conn' acts' t h hd hno
    exact not_congr (reachesGotAll_deliver (ready_of_deliver (ready_or_spoiled h) hd) hd hno t)
  · intro cs cs' conn conn' acts acts' hbytes h h' hno hno' hlast hlast'
    have hc := requests_deliverAll cs h hno
    have hc' := requests_deliverAll cs' h' hno'
    rw [requests_last h hno hlast] at hc
    rw [requests_last h' hno' hlast', ← hbytes] at hc'
    omega

theorem HoldsTwoRequests.count {conn : HttpConnection} {c : Chunk} (h : HoldsTwoRequests conn c) :
    3 ≤ (conn.inputBuffer.peek ++ c.data).count 13 := by
  obtain ⟨p, q, rest, hb, hp, rl, hs, e, -, -, -, rfl⟩ := h
  have hone : 1 ≤ p.count 13 := by
    cases hst : conn.context.state with
    | kExpectRequestLine =>
      rw [hst] at hp
      obtain ⟨rl, hs, e, -, -, -, rfl⟩ := hp
      simp [kCRLF]; omega
    | kExpectHeaders =>
      rw [hst] at hp
      obtain ⟨hs, e, -, rfl⟩ := hp
      simp [endLines, kCRLF]; omega
    | kExpectBody => rw [hst] at hp; exact hp.elim
    | kGotAll => rw [hst] at hp; exact hp.elim
  rw [hb]
  simp [endLines, kCRLF]; omega

/-- One request, whole or cut in two. -/
theorem deliverAll_pipeline_get : ∃ conn acts conn' acts',
    deliverAll (onConnection (ascii "10.0.0.1")) [⟨ascii "GET / HTTP/1.1\r\n\r\n", {}⟩] =
      .returned (conn, acts) ∧
    deliverAll (onConnection (ascii "10.0.0.1"))
      [⟨ascii "GET / HT", {}⟩, ⟨ascii "TP/1.1\r\n\r\n", {}⟩] = .returned (conn', acts') ∧
    (¬ ∃ rest, ReachesGotAll conn.inputBuffer conn.context {} rest) ∧
    dispatched acts = dispatched acts' := by
  have hempty : (onConnection (ascii "10.0.0.1")).inputBuffer.peek = [] := Buffer.peek_new _
  have hwhole : (deliver (onConnection (ascii "10.0.0.1"))
      ⟨ascii "GET / HTTP/1.1\r\n\r\n", {}⟩).map (fun r => decide (.shutdown ∈ r.2)) =
        .returned false := by decide +kernel
  have hfirst : (deliverAll (onConnection (ascii "10.0.0.1")) [⟨ascii "GET / HT", {}⟩]).map
      (fun r => r.1.inputBuffer.peek) = .returned (ascii "GET / HT") := by decide +kernel
  have hcut : (deliverAll (onConnection (ascii "10.0.0.1"))
      [⟨ascii "GET / HT", {}⟩, ⟨ascii "TP/1.1\r\n\r\n", {}⟩]).map
        (fun r => decide (.shutdown ∈ r.2)) = .returned false := by decide +kernel
  obtain ⟨⟨conn, acts⟩, hd, hno⟩ := Outcome.map_eq_returned.mp hwhole
  obtain ⟨⟨conn', acts'⟩, hd', hno'⟩ := Outcome.map_eq_returned.mp hcut
  have hall : deliverAll (onConnection (ascii "10.0.0.1"))
      [⟨ascii "GET / HTTP/1.1\r\n\r\n", {}⟩] = .returned (conn, acts) := by
    simp [deliverAll, hd]
  have htwo : ¬ HoldsTwoRequests (onConnection (ascii "10.0.0.1"))
      ⟨ascii "GET / HTTP/1.1\r\n\r\n", {}⟩ := by
    intro h
    have := h.count
    rw [hempty] at this
    exact absurd this (by decide)
  have hlast : ¬ LastHoldsTwo (ascii "10.0.0.1") [⟨ascii "GET / HTTP/1.1\r\n\r\n", {}⟩] := by
    rintro ⟨pre, c, conn, acts, he, hpre, h⟩
    rw [← List.nil_append [_]] at he
    obtain ⟨rfl, hc⟩ := List.append_inj' he rfl
    simp only [List.cons.injEq, and_true] at hc
    simp only [deliverAll, Outcome.returned.injEq, Prod.mk.injEq] at hpre
    exact htwo (by rw [hc, hpre.1]; exact h)
  have hlast' : ¬ LastHoldsTwo (ascii "10.0.0.1")
      [⟨ascii "GET / HT", {}⟩, ⟨ascii "TP/1.1\r\n\r\n", {}⟩] := by
    rintro ⟨pre, c, conn, acts, he, hpre, h⟩
    rw [← List.singleton_append] at he
    obtain ⟨rfl, hc⟩ := List.append_inj' he rfl
    simp only [List.cons.injEq, and_true] at hc
    rw [hpre, Outcome.map_returned, Outcome.returned.injEq] at hfirst
    have := h.count
    rw [hfirst, ← hc] at this
    exact absurd this (by decide)
  obtain ⟨hone, hnum⟩ := deliverAll_pipeline (ascii "10.0.0.1")
  exact ⟨conn, acts, conn', acts', hall, hd',
    (hone [] _ [] _ conn acts {} rfl hd (by simpa using hno)).mpr htwo,
    hnum _ _ conn conn' acts acts' (by decide) hall hd' (by simpa using hno) (by simpa using hno')
      hlast hlast'⟩

/-- Two requests in one chunk: the second stays in the buffer. Cut between them, both are
dispatched. -/
theorem deliver_two_requests :
    ¬ ((∀ conn acts, deliver (onConnection (ascii "10.0.0.1"))
          ⟨ascii "GET / HTTP/1.1\r\n\r\nGET / HTTP/1.1\r\n\r\n", {}⟩ = .returned (conn, acts) →
        .shutdown ∉ acts → ¬ ∃ rest, ReachesGotAll conn.inputBuffer conn.context {} rest) ∨
      (deliverAll (onConnection (ascii "10.0.0.1"))
          [⟨ascii "GET / HTTP/1.1\r\n\r\nGET / HTTP/1.1\r\n\r\n", {}⟩]).map
            (fun r => dispatched r.2) =
        (deliverAll (onConnection (ascii "10.0.0.1"))
          [⟨ascii "GET / HTTP/1.1\r\n\r\n", {}⟩, ⟨ascii "GET / HTTP/1.1\r\n\r\n", {}⟩]).map
            (fun r => dispatched r.2)) := by
  rintro (h | h)
  · have hd : ((deliver (onConnection (ascii "10.0.0.1"))
        ⟨ascii "GET / HTTP/1.1\r\n\r\nGET / HTTP/1.1\r\n\r\n", {}⟩).bind fun r =>
          (parseRequest r.1.inputBuffer r.1.context {}).map fun p =>
            (decide (.shutdown ∈ r.2), p.context.gotAll)) = .returned (false, true) := by
      decide +kernel
    obtain ⟨⟨conn, acts⟩, hd, hp⟩ := Outcome.bind_eq_returned.mp hd
    obtain ⟨p, hp, hgot⟩ := Outcome.map_eq_returned.mp hp
    simp only [Prod.mk.injEq, decide_eq_false_iff_not] at hgot
    exact h conn acts hd hgot.1 ⟨_, p, hp, hgot.2, rfl⟩
  · exact absurd h (by decide +kernel)

end MuduoCpp11.Net.Http
