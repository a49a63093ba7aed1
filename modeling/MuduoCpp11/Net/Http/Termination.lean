import MuduoCpp11.Net.Http.Session

/-! # The loop of `ParseRequest` ends

In `kExpectBody` and in `kGotAll` no branch of the loop changes `has_more`: a turn leaves everything as
it is and the loop goes on (`parseRequestLoop_diverges`). A context that waits for a line does not get
there: a turn behind which the loop goes on leaves it waiting for a line, and has taken a line with its
CRLF out of the buffer (`Continues.of_waiting`). Between the calls of `OnMessage` the context waits for
a line, since a completed one is reset at once (`HttpContext.Reached.waiting`). -/

namespace MuduoCpp11.Net.Http

open MuduoCpp11.Base MuduoCpp11.Lib MuduoCpp11.Lib.Search

/-- The contexts that `OnConnection` and any calls of `OnMessage` lead to, whatever the buffer holds
at each call. -/
inductive HttpContext.Reached : HttpContext → Prop
  | onConnection (ip : List UInt8) : Reached (onConnection ip).context
  | onMessage {context : HttpContext} {buf : Buffer} {t : Timestamp} {conn : HttpConnection}
      {acts : List HttpAction} (h : Reached context)
      (hm : onMessage ⟨context, buf⟩ t = .returned (conn, acts)) : Reached conn.context

/-- A turn of the loop behind which `has_more` is still set. -/
def Continues (t : Timestamp) (p p' : Parsed) : Prop := parseRequestTurn p t = .returned (true, p')

/-- The context waits for a line: it is neither in `kExpectBody` nor in `kGotAll`. -/
def HttpContext.Waiting (context : HttpContext) : Prop :=
  context.state = .kExpectRequestLine ∨ context.state = .kExpectHeaders

/-! ### One turn -/

theorem processRequestLine_ne_diverges (line : List UInt8) (context : HttpContext) :
    processRequestLine line context ≠ .diverges := by
  by_cases hm : context.request.method = .kInvalid
  · obtain ⟨r, hr⟩ := processRequestLine_of_invalid line hm
    simp [hr]
  · simp only [processRequestLine, HttpRequest.setMethod, if_neg hm, Outcome.aborted_bind]
    split_ifs <;> simp

/-- A turn on a context that waits for a line ends. -/
theorem parseRequestTurn_ne_diverges {p : Parsed} (h : p.context.Waiting) (t : Timestamp) :
    parseRequestTurn p t ≠ .diverges := by
  rcases h with hst | hst
  · rcases hc : cut kCRLF p.buf.peek with _ | ⟨line, rest⟩
    · simp [parseRequestTurn, HttpContext.expectRequestLine, hst, Buffer.findCRLF_eq, hc]
    · obtain ⟨buf, -, hturn⟩ := parseRequestTurn_requestLine_some (t := t) hst hc
      have hline := processRequestLine_ne_diverges line p.context
      rw [hturn]
      rcases hp : processRequestLine line p.context with ⟨ok, context⟩ | _ | _
      · cases ok <;> simp
      · simp
      · exact absurd hp hline
  · rcases hc : cut kCRLF p.buf.peek with _ | ⟨line, rest⟩
    · simp [parseRequestTurn_headers_none hst hc]
    · obtain ⟨buf, -, hturn⟩ := parseRequestTurn_headers_some (t := t) hst hc
      rw [hturn]
      split_ifs <;> simp

/-- A request line behind which the loop goes on is taken out of the buffer, and the headers are
expected. -/
theorem Continues.of_requestLine {t : Timestamp} {p p' : Parsed} (h : Continues t p p')
    (hst : p.context.state = .kExpectRequestLine) :
    p'.context.state = .kExpectHeaders ∧ ∃ line, p.buf.peek = line ++ kCRLF ++ p'.buf.peek := by
  unfold Continues at h
  rcases hc : cut kCRLF p.buf.peek with _ | ⟨line, rest⟩
  · simp [parseRequestTurn, HttpContext.expectRequestLine, hst, Buffer.findCRLF_eq, hc] at h
  · obtain ⟨-, hpeek⟩ := (cut_eq_some kCRLF_ne_nil).mp hc
    obtain ⟨buf, hbuf, hturn⟩ := parseRequestTurn_requestLine_some (t := t) hst hc
    rw [hturn, Outcome.bind_eq_returned] at h
    obtain ⟨⟨ok, context⟩, -, h⟩ := h
    cases ok with
    | true =>
      simp only [if_true, Outcome.returned.injEq, Prod.mk.injEq, true_and] at h
      subst h
      exact ⟨rfl, line, by rw [hpeek, hbuf]⟩
    | false => simp at h

/-- So is a header line, and the headers are still expected. -/
theorem Continues.of_headers {t : Timestamp} {p p' : Parsed} (h : Continues t p p')
    (hst : p.context.state = .kExpectHeaders) :
    p'.context.state = .kExpectHeaders ∧ ∃ line, p.buf.peek = line ++ kCRLF ++ p'.buf.peek := by
  unfold Continues at h
  rcases hc : cut kCRLF p.buf.peek with _ | ⟨line, rest⟩
  · simp [parseRequestTurn_headers_none hst hc] at h
  · obtain ⟨-, hpeek⟩ := (cut_eq_some kCRLF_ne_nil).mp hc
    obtain ⟨buf, hbuf, hturn⟩ := parseRequestTurn_headers_some (t := t) hst hc
    rw [hturn] at h
    split_ifs at h with hcol
    · simp only [Outcome.returned.injEq, Prod.mk.injEq, true_and] at h
      subst h
      exact ⟨hst, line, by rw [hpeek, hbuf]⟩
    · simp at h

/-- **The step lemma**: behind a turn that continues a line is awaited, and a line with its CRLF has
left the buffer. -/
theorem Continues.of_waiting {t : Timestamp} {p p' : Parsed} (h : Continues t p p')
    (hw : p.context.Waiting) :
    p'.context.Waiting ∧ ∃ line, p.buf.peek = line ++ kCRLF ++ p'.buf.peek := by
  rcases hw with hst | hst
  · obtain ⟨hst', hline⟩ := h.of_requestLine hst
    exact ⟨Or.inr hst', hline⟩
  · obtain ⟨hst', hline⟩ := h.of_headers hst
    exact ⟨Or.inr hst', hline⟩

/-- At least two bytes have left the buffer. -/
theorem Continues.readableBytes_le {t : Timestamp} {p p' : Parsed} (h : Continues t p p')
    (hw : p.context.Waiting) : p'.buf.readableBytes + 2 ≤ p.buf.readableBytes := by
  obtain ⟨-, line, hpeek⟩ := h.of_waiting hw
  have hlen := congrArg List.length hpeek
  simp only [List.length_append, Buffer.length_peek, kCRLF, List.length_cons,
    List.length_nil] at hlen
  omega

/-! ### All turns -/

/-- Every turn of the loop finds a context that waits for a line. -/
theorem waiting_of_turns {t : Timestamp} {p p' : Parsed} (hw : p.context.Waiting)
    (h : Relation.ReflTransGen (Continues t) p p') : p'.context.Waiting := by
  induction h with
  | refl => exact hw
  | tail _ hstep ih => exact (hstep.of_waiting ih).1

/-- There are at most half as many turns as bytes. -/
theorem turns_le {t : Timestamp} {f : ℕ → Parsed} (hw : (f 0).context.Waiting)
    (hf : ∀ n, Continues t (f n) (f (n + 1))) :
    ∀ n, (f n).context.Waiting ∧ (f n).buf.readableBytes + 2 * n ≤ (f 0).buf.readableBytes
  | 0 => ⟨hw, by omega⟩
  | n + 1 => by
    obtain ⟨hwn, hle⟩ := turns_le hw hf n
    have hstep := (hf n).readableBytes_le hwn
    exact ⟨((hf n).of_waiting hwn).1, by omega⟩

/-- The loop ends when it is given more turns than the buffer has bytes. -/
theorem parseRequestLoop_ne_diverges (t : Timestamp) : ∀ (fuel : ℕ) {p : Parsed},
    p.context.Waiting → p.buf.readableBytes < fuel → parseRequestLoop t fuel p ≠ .diverges
  | 0, p, _, hlt => by omega
  | fuel + 1, p, hw, hlt => by
    have hturn := parseRequestTurn_ne_diverges hw t
    rw [parseRequestLoop]
    rcases hp : parseRequestTurn p t with ⟨hasMore, p'⟩ | _ | _
    · cases hasMore with
      | true =>
        have hc : Continues t p p' := hp
        have hle := hc.readableBytes_le hw
        exact parseRequestLoop_ne_diverges t fuel (hc.of_waiting hw).1 (by omega)
      | false => simp
    · simp
    · exact absurd hp hturn

/-! ### Between the calls -/

/-- The header lines leave a context that is complete or waits for the next one. -/
theorem parseHeaders_waiting (context : HttpContext) (hst : context.state = .kExpectHeaders)
    (s : List UInt8) :
    (parseHeaders context s).context.gotAll = true ∨ (parseHeaders context s).context.Waiting := by
  rcases parseHeaders_state context s with ⟨-, h⟩ | ⟨-, h⟩
  · exact Or.inl (by simp [HttpContext.gotAll, h])
  · exact Or.inr (Or.inr (h.trans hst))

/-- A call of the parser leaves a context that is complete or waits for a line. -/
theorem parse_waiting {context : HttpContext} {s : List UInt8} {v : View}
    (h : parse context s = .returned v) : v.context.gotAll = true ∨ v.context.Waiting := by
  rcases parse_cases h with ⟨hst, rfl | ⟨line, rest, ok, c, hp, rfl⟩⟩ | ⟨hst, rfl⟩
  · exact Or.inr (Or.inl hst)
  · cases ok with
    | true => exact parseHeaders_waiting c.receiveRequestLine rfl rest
    | false => exact Or.inr (Or.inl ((processRequestLine_state hp).trans hst))
  · exact parseHeaders_waiting context hst s

/-- `OnMessage` leaves a context that waits for a line: a complete one has been reset. -/
theorem onMessage_waiting {conn conn' : HttpConnection} {t : Timestamp} {acts : List HttpAction}
    (h : onMessage conn t = .returned (conn', acts)) : conn'.context.Waiting := by
  obtain ⟨p, hp, he⟩ := Outcome.map_eq_returned.mp h
  have hview := parseRequest_view conn.inputBuffer conn.context t
  rw [hp, Outcome.map_returned] at hview
  have hw : p.context.gotAll = true ∨ p.context.Waiting := parse_waiting hview.symm
  by_cases hg : p.context.gotAll = true
  · simp only [hg, if_true, Prod.mk.injEq] at he
    rw [← he.1]
    exact Or.inl rfl
  · simp only [hg, Bool.false_eq_true, if_false, Prod.mk.injEq] at he
    rw [← he.1]
    exact hw.resolve_left hg

/-- **`ParseRequest` is entered with a context that waits for a line.** -/
theorem HttpContext.Reached.waiting {context : HttpContext} (h : context.Reached) :
    context.Waiting := by
  cases h with
  | onConnection ip => exact Or.inl rfl
  | onMessage _ hm => exact onMessage_waiting hm

/-- The connections that chunks of bytes lead to have such contexts. -/
theorem reached_of_deliverAll {ip : List UInt8} {cs : List Chunk} {conn : HttpConnection}
    {acts : List HttpAction} (h : deliverAll (onConnection ip) cs = .returned (conn, acts)) :
    conn.context.Reached :=
  deliverAll_inv (P := fun _ conn => conn.context.Reached)
    (fun _ _ _ _ _ hd hp => .onMessage hp hd) cs [] h (.onConnection ip)

/-- **The loop of `ParseRequest` ends.** For every context that `OnConnection` and calls of
`OnMessage` lead to and every buffer: the loop is entered, and every turn of it begins, with a context
that is neither in `kExpectBody` nor in `kGotAll`; a turn behind which the loop goes on takes a line
with its CRLF out of the buffer; there is no endless sequence of such turns; and the call ends. -/
theorem parseRequest_terminates {context : HttpContext} (h : context.Reached) (buf : Buffer)
    (t : Timestamp) :
    (∀ p, Relation.ReflTransGen (Continues t) ⟨true, buf, context⟩ p →
      p.context.state ≠ .kExpectBody ∧ p.context.state ≠ .kGotAll ∧
      ∀ p', Continues t p p' → ∃ line, p.buf.peek = line ++ kCRLF ++ p'.buf.peek) ∧
    (¬ ∃ f : ℕ → Parsed, f 0 = ⟨true, buf, context⟩ ∧ ∀ n, Continues t (f n) (f (n + 1))) ∧
    parseRequest buf context t ≠ .diverges := by
  have hw := h.waiting
  refine ⟨fun p hp => ?_, ?_, ?_⟩
  · have hwp : p.context.Waiting := waiting_of_turns (p := ⟨true, buf, context⟩) hw hp
    refine ⟨?_, ?_, fun p' hc => (hc.of_waiting hwp).2⟩
    · rcases hwp with hst | hst <;> simp [hst]
    · rcases hwp with hst | hst <;> simp [hst]
  · rintro ⟨f, hf0, hf⟩
    have hle := (turns_le (by rw [hf0]; exact hw) hf (buf.readableBytes + 1)).2
    rw [hf0] at hle
    simp only at hle
    omega
  · exact parseRequestLoop_ne_diverges t _ (p := ⟨true, buf, context⟩) hw (Nat.lt_succ_self _)

/-- Behind a first call with a request line, on a buffer with a header line and half of another. -/
theorem parseRequest_terminates_headers :
    ∃ conn acts, deliver (onConnection (ascii "10.0.0.1")) ⟨ascii "GET / HTTP/1.1\r\n", {}⟩ =
        .returned (conn, acts) ∧
      parseRequest (Buffer.new.append (ascii "Host: a\r\nAcc")) conn.context {} ≠ .diverges := by
  have hready : (onConnection (ascii "10.0.0.1")).context.Ready := Or.inl ⟨rfl, rfl⟩
  obtain ⟨conn, acts, hd, -⟩ := deliver_of_ready hready ⟨ascii "GET / HTTP/1.1\r\n", {}⟩
  have hreached : conn.context.Reached := .onMessage (.onConnection (ascii "10.0.0.1")) hd
  exact ⟨conn, acts, hd, (parseRequest_terminates hreached _ _).2.2⟩

end MuduoCpp11.Net.Http
