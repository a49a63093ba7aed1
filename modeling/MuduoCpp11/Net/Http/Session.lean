import MuduoCpp11.Net.Http.Parse
import MuduoCpp11.Net.Http.RequestLine

/-! # Sessions: the calls of `OnMessage` on one connection

A session is what the parser sees of a connection: the context and the bytes not consumed. A chunk
that arrives is a call of `parse` and an answer to its view; `OnMessage` does the same with the buffer
(`deliver_view`).

Between the calls a session is *ready*, with no method set where a request line is expected, or it is
*spoiled*: a line with a known method was rejected, its method stayed set and the line stayed in the
buffer. A ready session returns from every call (`Ready.receive`); a spoiled one fails the assertion
of `set_method` at the next (`Spoiled.receive`). So the server is aborted exactly when a call follows
one that spoils the session (`deliverAll_ne_aborted_iff`). -/

namespace MuduoCpp11.Net.Http

open MuduoCpp11.Lib MuduoCpp11.Lib.Search

/-- The action without the receive time of the request. -/
def HttpAction.eraseTime : HttpAction → HttpAction
  | .httpCallback request keepalive => .httpCallback request.eraseTime keepalive
  | a => a

structure Session where
  context : HttpContext
  pending : List UInt8

/-- What the parser sees of a connection. -/
def HttpConnection.session (conn : HttpConnection) : Session :=
  ⟨conn.context.eraseTime, conn.inputBuffer.peek⟩

/-- What `OnMessage` does with the result of the parser. -/
def View.answer (v : View) : Session × List HttpAction :=
  match v.verdict with
  | .error =>
    (⟨v.context, v.rest⟩, [.send (ascii "HTTP/1.1 400 Bad Request\r\n\r\n"), .shutdown])
  | .incomplete => (⟨v.context, v.rest⟩, [])
  | .complete => (⟨v.context.reset, v.rest⟩, [onRequest v.context.request])

/-- Bytes arrive. -/
def Session.receive (s : Session) (data : List UInt8) : Outcome (Session × List HttpAction) :=
  (parse s.context (s.pending ++ data)).map View.answer

/-- **`OnMessage` answers the parser.** -/
theorem deliver_view (conn : HttpConnection) (c : Chunk) :
    (deliver conn c).map (fun r => (r.1.session, r.2.map HttpAction.eraseTime)) =
      conn.session.receive c.data := by
  have hview := parseRequest_view (conn.inputBuffer.append c.data) conn.context c.time
  rw [Buffer.peek_append] at hview
  unfold Session.receive HttpConnection.session
  simp only [← hview, deliver, onMessage]
  rcases hp : parseRequest (conn.inputBuffer.append c.data) conn.context c.time with p | _ | _
  · rw [hp, Outcome.map_returned] at hview
    have hgot := parse_gotAll hview.symm
    obtain ⟨ok, buf, context⟩ := p
    simp only [Parsed.view, Parsed.verdict] at hgot
    have hgot' : context.eraseTime.gotAll = context.gotAll := rfl
    rw [hgot'] at hgot
    cases ok with
    | true =>
      cases hg : context.gotAll <;>
        simp only [Outcome.map_returned, Parsed.view, Parsed.verdict, View.answer, hg] <;> rfl
    | false =>
      have hg : context.gotAll = false := by simpa using hgot
      simp only [Outcome.map_returned, Parsed.view, Parsed.verdict, View.answer, hg]
      rfl
  · rfl
  · rfl

theorem deliver_returned {conn conn' : HttpConnection} {c : Chunk} {acts : List HttpAction}
    (h : deliver conn c = .returned (conn', acts)) :
    conn.session.receive c.data = .returned (conn'.session, acts.map HttpAction.eraseTime) := by
  rw [← deliver_view, h]; rfl

/-! ### Ready and spoiled sessions -/

/-- A context in which `ParseRequest` cannot fail the assertion. -/
def HttpContext.Ready (context : HttpContext) : Prop :=
  context.state = .kExpectRequestLine ∧ context.request.method = .kInvalid ∨
    context.state = .kExpectHeaders

/-- A line that `ProcessRequestLine` rejects behind a known method. -/
def SpoilingLine (line : List UInt8) : Prop := NamesMethod line ∧ ¬ IsRequestLine line

/-- The method of a rejected line stayed set, and the line stayed in the buffer. -/
structure Session.Spoiled (s : Session) : Prop where
  state : s.context.state = .kExpectRequestLine
  method : s.context.request.method ≠ .kInvalid
  line : ∃ line rest, cut kCRLF s.pending = some (line, rest) ∧ SpoilingLine line

/-- A request line is expected, and the first line there is names a known method but is no request
line. -/
def Spoils (context : HttpContext) (s : List UInt8) : Prop :=
  context.state = .kExpectRequestLine ∧ ∃ line rest, cut kCRLF s = some (line, rest) ∧
    SpoilingLine line

theorem HttpContext.ready_reset (context : HttpContext) : context.reset.Ready := Or.inl ⟨rfl, rfl⟩

/-- The parser on such a line: the method stays set. -/
theorem parse_of_spoils (context : HttpContext) (h : context.Ready) {s : List UInt8}
    (hs : Spoils context s) :
    ∃ c, parse context s = .returned ⟨.error, c, s⟩ ∧ c.state = .kExpectRequestLine ∧
      c.request.method ≠ .kInvalid := by
  obtain ⟨hst, line, rest, hcut, hn, hline⟩ := hs
  have hm : context.request.method = .kInvalid := by
    rcases h with h | h
    · exact h.2
    · rw [hst] at h; cases h
  obtain ⟨c, hp, hcm⟩ := processRequestLine_of_not_isRequestLine hm hn hline
  refine ⟨c, by simp [parse, hst, hcut, hp], (processRequestLine_state hp).trans hst, hcm⟩

/-- The parser otherwise: a complete request, an unfinished one, or a rejected line that changes
nothing. -/
theorem parse_of_not_spoils {context : HttpContext} (h : context.Ready) {s : List UInt8}
    (hs : ¬ Spoils context s) :
    (∃ c rest, parse context s = .returned ⟨.complete, c, rest⟩) ∨
    (∃ c rest, parse context s = .returned ⟨.incomplete, c, rest⟩ ∧
      (c = context ∨ c.state = .kExpectHeaders)) ∨
    parse context s = .returned ⟨.error, context, s⟩ := by
  have hheaders : ∀ (c : HttpContext) (s' : List UInt8), c.state = .kExpectHeaders →
      parse context s = .returned (parseHeaders c s') →
      (∃ c rest, parse context s = .returned ⟨.complete, c, rest⟩) ∨
      (∃ c rest, parse context s = .returned ⟨.incomplete, c, rest⟩ ∧
        (c = context ∨ c.state = .kExpectHeaders)) ∨
      parse context s = .returned ⟨.error, context, s⟩ := by
    intro c s' hc hp
    rw [hp]
    rcases parseHeaders_state c s' with ⟨h1, -⟩ | ⟨h1, h2⟩
    · exact Or.inl ⟨_, _, by rw [← h1]⟩
    · exact Or.inr (Or.inl ⟨_, _, by rw [← h1], Or.inr (h2.trans hc)⟩)
  rcases h with ⟨hst, hm⟩ | hst
  · rcases hc : cut kCRLF s with _ | ⟨line, rest⟩
    · exact Or.inr (Or.inl ⟨context, s, by simp [parse, hst, hc], Or.inl rfl⟩)
    · have hp : parse context s = (processRequestLine line context).map fun r =>
          if r.1 then parseHeaders r.2.receiveRequestLine rest else ⟨.error, r.2, s⟩ := by
        simp only [parse, hst, hc]
      by_cases hn : NamesMethod line
      · have hline : IsRequestLine line := by
          by_contra hline
          exact hs ⟨hst, line, rest, hc, hn, hline⟩
        obtain ⟨m, target, v, hl⟩ := hline
        rw [processRequestLine_of_requestLine hm hl] at hp
        exact hheaders _ _ rfl hp
      · rw [processRequestLine_of_not_namesMethod hm hn] at hp
        exact Or.inr (Or.inr hp)
  · exact hheaders context s hst (parse_of_headers hst s)

/-- **A ready session returns**: it is spoiled behind a call that spoils it, and ready behind any
other. -/
theorem Session.receive_of_ready {s : Session} (h : s.context.Ready) (data : List UInt8) :
    ∃ s' acts, s.receive data = .returned (s', acts) ∧
      (Spoils s.context (s.pending ++ data) ∧ s'.Spoiled ∨
        ¬ Spoils s.context (s.pending ++ data) ∧ s'.context.Ready) := by
  unfold Session.receive
  by_cases hs : Spoils s.context (s.pending ++ data)
  · obtain ⟨c, hp, hcst, hcm⟩ := parse_of_spoils _ h hs
    exact ⟨_, _, by rw [hp]; rfl, Or.inl ⟨hs, hcst, hcm, hs.2⟩⟩
  · rcases parse_of_not_spoils h hs with ⟨c, rest, hp⟩ | ⟨c, rest, hp, hc⟩ | hp
    · exact ⟨_, _, by rw [hp]; rfl, Or.inr ⟨hs, c.ready_reset⟩⟩
    · refine ⟨_, _, by rw [hp]; rfl, Or.inr ⟨hs, ?_⟩⟩
      rcases hc with rfl | hc
      · exact h
      · exact Or.inr hc
    · exact ⟨⟨s.context, s.pending ++ data⟩, _, by rw [hp]; rfl, Or.inr ⟨hs, h⟩⟩

/-- **A spoiled session aborts.** -/
theorem Session.Spoiled.receive {s : Session} (h : s.Spoiled) (data : List UInt8) :
    s.receive data = .aborted := by
  obtain ⟨line, rest, hcut, hn, -⟩ := h.line
  obtain ⟨m, r, rfl, -⟩ := hn
  simp [Session.receive, parse, h.state, cut_append kCRLF_ne_nil hcut data,
    processRequestLine_of_set h.method]

/-! ### All calls -/

/-- The call with `c` spoils the connection. -/
def HttpConnection.Spoils (conn : HttpConnection) (c : Chunk) : Prop :=
  Http.Spoils conn.context (conn.inputBuffer.peek ++ c.data)

theorem deliver_of_ready {conn : HttpConnection} (h : conn.context.Ready) (c : Chunk) :
    ∃ conn' acts, deliver conn c = .returned (conn', acts) ∧
      (conn.Spoils c ∧ conn'.session.Spoiled ∨ ¬ conn.Spoils c ∧ conn'.context.Ready) := by
  obtain ⟨s', acts, hs, hor⟩ := Session.receive_of_ready (s := conn.session) h c.data
  rw [← deliver_view, Outcome.map_eq_returned] at hs
  obtain ⟨⟨conn', acts'⟩, hd, he⟩ := hs
  simp only [Prod.mk.injEq] at he
  obtain ⟨rfl, rfl⟩ := he
  exact ⟨conn', acts', hd, hor⟩

theorem deliver_of_spoiled {conn : HttpConnection} (h : conn.session.Spoiled) (c : Chunk) :
    deliver conn c = .aborted := by
  have hs := deliver_view conn c
  rw [h.receive] at hs
  cases hd : deliver conn c <;> simp_all

theorem deliverAll_concat (c : Chunk) : ∀ (pre : List Chunk) (conn : HttpConnection),
    deliverAll conn (pre ++ [c]) = (deliverAll conn pre).bind fun r =>
      (deliver r.1 c).map fun r' => (r'.1, r.2 ++ r'.2)
  | [], conn => by
    simp only [List.nil_append, deliverAll, Outcome.returned_bind]
    cases deliver conn c <;> simp
  | d :: pre, conn => by
    simp only [List.cons_append, deliverAll]
    rcases deliver conn d with r | _ | _
    · simp only [Outcome.returned_bind, deliverAll_concat c pre, Outcome.map_bind, Outcome.bind_map]
      rcases deliverAll r.1 pre with r' | _ | _
      · simp only [Outcome.returned_bind]
        cases deliver r'.1 c <;> simp
      · rfl
      · rfl
    · rfl
    · rfl

/-- **The invariant rule**: what every call preserves, all calls preserve. The invariant may speak
of what has been done so far. -/
theorem deliverAll_inv {P : List HttpAction → HttpConnection → Prop}
    (hstep : ∀ done conn c conn' acts, deliver conn c = .returned (conn', acts) → P done conn →
      P (done ++ acts) conn') : ∀ (cs : List Chunk) (done : List HttpAction)
    {conn conn' : HttpConnection} {acts : List HttpAction},
    deliverAll conn cs = .returned (conn', acts) → P done conn → P (done ++ acts) conn'
  | [], done, conn, conn', acts, h, hp => by
    simp only [deliverAll, Outcome.returned.injEq, Prod.mk.injEq] at h
    obtain ⟨rfl, rfl⟩ := h
    simpa using hp
  | c :: cs, done, conn, conn', acts, h, hp => by
    obtain ⟨⟨conn₁, acts₁⟩, hd, h⟩ := Outcome.bind_eq_returned.mp h
    obtain ⟨⟨conn₂, acts₂⟩, hds, he⟩ := Outcome.map_eq_returned.mp h
    simp only [Prod.mk.injEq] at he
    obtain ⟨rfl, rfl⟩ := he
    rw [← List.append_assoc]
    exact deliverAll_inv hstep cs _ hds (hstep done conn c conn₁ acts₁ hd hp)

/-- A connection on which a call returns was ready. -/
theorem ready_of_deliver {conn : HttpConnection} (h : conn.context.Ready ∨ conn.session.Spoiled)
    {c : Chunk} {r : HttpConnection × List HttpAction} (hd : deliver conn c = .returned r) :
    conn.context.Ready := by
  rcases h with hready | hspoiled
  · exact hready
  · simp [deliver_of_spoiled hspoiled c] at hd

theorem ready_or_spoiled_deliver {conn conn' : HttpConnection} {c : Chunk} {acts : List HttpAction}
    (hd : deliver conn c = .returned (conn', acts))
    (h : conn.context.Ready ∨ conn.session.Spoiled) :
    conn'.context.Ready ∨ conn'.session.Spoiled := by
  obtain ⟨conn'', acts', hd', hor⟩ := deliver_of_ready (ready_of_deliver h hd) c
  rw [hd, Outcome.returned.injEq, Prod.mk.injEq] at hd'
  obtain ⟨rfl, rfl⟩ := hd'
  rcases hor with ⟨-, h1⟩ | ⟨-, h1⟩
  · exact Or.inr h1
  · exact Or.inl h1

/-- A connection that has been reached is ready or spoiled. -/
theorem ready_or_spoiled {ip : List UInt8} {cs : List Chunk} {conn : HttpConnection}
    {acts : List HttpAction} (h : deliverAll (onConnection ip) cs = .returned (conn, acts)) :
    conn.context.Ready ∨ conn.session.Spoiled :=
  deliverAll_inv (P := fun _ conn => conn.context.Ready ∨ conn.session.Spoiled)
    (fun _ _ _ _ _ hd hp => ready_or_spoiled_deliver hd hp) cs [] h
    (Or.inl (Or.inl ⟨rfl, rfl⟩))

/-- The header lines leave the request line alone. -/
theorem parseHeaders_tidy (context : HttpContext) (s : List UInt8) (ht : context.Tidy) :
    (parseHeaders context s).context.Tidy := by
  induction context, s using parseHeaders.induct with
  | case1 context s h => rw [parseHeaders_none h]; exact ht
  | case2 context s line rest h hcol ih =>
    rw [parseHeaders_some h, if_pos hcol]
    exact ih ht
  | case3 context s line rest h hcol =>
    rw [parseHeaders_some h, if_neg hcol]
    exact ht

theorem parse_tidy {context : HttpContext} {s : List UInt8} {v : View}
    (h : parse context s = .returned v) (ht : context.Tidy) : v.context.Tidy := by
  rcases parse_cases h with ⟨-, rfl | ⟨line, rest, ok, c, hp, rfl⟩⟩ | ⟨-, rfl⟩
  · exact ht
  · have hc := processRequestLine_tidy hp ht
    cases ok with
    | true => exact parseHeaders_tidy c.receiveRequestLine rest hc
    | false => exact hc
  · exact parseHeaders_tidy context s ht

theorem deliver_tidy {conn conn' : HttpConnection} {c : Chunk} {acts : List HttpAction}
    (hd : deliver conn c = .returned (conn', acts)) (ht : conn.context.Tidy) :
    conn'.context.Tidy := by
  obtain ⟨v, hv, hanswer⟩ := Outcome.map_eq_returned.mp (deliver_returned hd)
  have htidy : v.context.Tidy := parse_tidy hv ht
  have hsession : v.answer.1.context = conn'.session.context := by rw [hanswer]
  unfold View.answer at hsession
  have hconn : conn'.session.context.Tidy := by
    rw [← hsession]
    split
    · exact htidy
    · exact htidy
    · exact fun _ => rfl
  exact hconn

/-- **A connection with no method set has an empty query.** -/
theorem query_eq_nil_of_deliverAll {ip : List UInt8} {cs : List Chunk} {conn : HttpConnection}
    {acts : List HttpAction} (h : deliverAll (onConnection ip) cs = .returned (conn, acts))
    (hm : conn.context.request.method = .kInvalid) : conn.context.request.query = [] :=
  deliverAll_inv (P := fun _ conn => conn.context.Tidy)
    (fun _ _ _ _ _ hd hp => deliver_tidy hd hp) cs [] h (fun _ => rfl) hm

theorem deliverAll_aborted_iff : ∀ (cs : List Chunk) (conn : HttpConnection), conn.context.Ready →
    (deliverAll conn cs = .aborted ↔ ∃ pre c c' post conn' acts, cs = pre ++ c :: c' :: post ∧
      deliverAll conn pre = .returned (conn', acts) ∧ conn'.Spoils c)
  | [], conn, _ => by simp [deliverAll]
  | c :: cs, conn, h => by
    obtain ⟨conn₁, acts₁, hd, ⟨hs, hspoiled⟩ | ⟨hs, hready⟩⟩ := deliver_of_ready h c
    · cases cs with
      | nil =>
        simp only [deliverAll, hd, Outcome.returned_bind, Outcome.map_returned, reduceCtorEq,
          false_iff]
        rintro ⟨pre, d, d', post, conn', acts, he, -⟩
        have := congrArg List.length he
        simp at this; omega
      | cons c' post =>
        simp only [deliverAll, hd, deliver_of_spoiled hspoiled c', Outcome.returned_bind,
          Outcome.aborted_bind, Outcome.map_aborted, true_iff]
        exact ⟨[], c, c', post, conn, [], rfl, rfl, hs⟩
    · have ih := deliverAll_aborted_iff cs conn₁ hready
      have hcons : deliverAll conn (c :: cs) = .aborted ↔ deliverAll conn₁ cs = .aborted := by
        simp only [deliverAll, hd, Outcome.returned_bind]
        cases deliverAll conn₁ cs <;> simp
      rw [hcons, ih]
      constructor
      · rintro ⟨pre, d, d', post, conn', acts, rfl, hpre, hsp⟩
        exact ⟨c :: pre, d, d', post, conn', acts₁ ++ acts, rfl, by simp [deliverAll, hd, hpre], hsp⟩
      · rintro ⟨pre, d, d', post, conn', acts, he, hpre, hsp⟩
        cases pre with
        | nil =>
          simp only [deliverAll, Outcome.returned.injEq, Prod.mk.injEq] at hpre
          simp only [List.nil_append, List.cons.injEq] at he
          exact absurd (he.1 ▸ hpre.1 ▸ hsp) hs
        | cons b pre =>
          simp only [List.cons_append, List.cons.injEq] at he
          obtain ⟨rfl, rfl⟩ := he
          simp only [deliverAll, hd, Outcome.returned_bind, Outcome.map_eq_returned,
            Prod.mk.injEq] at hpre
          obtain ⟨⟨conn'', acts'⟩, hpre, rfl, -⟩ := hpre
          exact ⟨pre, d, d', post, conn'', acts', rfl, hpre, hsp⟩

/-- **When the server is not aborted.** For every byte stream cut into chunks, the assertion of
`set_method` holds throughout if and only if no call but the last is made on a buffer in which a
request line is expected and the first line names a known method without being a request line. -/
theorem deliverAll_ne_aborted_iff (ip : List UInt8) (cs : List Chunk) :
    deliverAll (onConnection ip) cs ≠ .aborted ↔
      ∀ pre c c' post conn acts, cs = pre ++ c :: c' :: post →
        deliverAll (onConnection ip) pre = .returned (conn, acts) → ¬ conn.Spoils c := by
  rw [ne_eq, deliverAll_aborted_iff cs (onConnection ip) (Or.inl ⟨rfl, rfl⟩)]
  constructor
  · intro h pre c c' post conn acts hcs hpre hs
    exact h ⟨pre, c, c', post, conn, acts, hcs, hpre, hs⟩
  · rintro h ⟨pre, c, c', post, conn, acts, hcs, hpre, hs⟩
    exact h pre c c' post conn acts hcs hpre hs

/-- `"GET / BAD\r\n"` is answered with 400; one more byte aborts the server. -/
theorem deliverAll_aborted_after_bad_request :
    deliverAll (onConnection (ascii "10.0.0.1"))
      [⟨ascii "GET / BAD\r\n", {}⟩, ⟨ascii "x", {}⟩] = .aborted := by
  refine (deliverAll_aborted_iff _ _ (Or.inl ⟨rfl, rfl⟩)).mpr
    ⟨[], _, _, [], _, [], rfl, rfl, rfl, ascii "GET / BAD", [], ?_, ?_, ?_⟩
  · simp only [onConnection, Buffer.peek_new]; decide
  · exact ⟨ascii "GET", ascii "/ BAD", by decide, by decide⟩
  · rintro ⟨m, target, v, hline⟩
    have hm : (HttpContext.new []).request.method = .kInvalid := rfl
    have hp := processRequestLine_of_requestLine hm hline
    have hok : (processRequestLine (ascii "GET / BAD") (HttpContext.new [])).map Prod.fst =
      .returned true := by rw [hp]; rfl
    exact absurd hok (by decide)

end MuduoCpp11.Net.Http
