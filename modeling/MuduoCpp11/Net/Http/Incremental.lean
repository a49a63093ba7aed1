import MuduoCpp11.Net.Http.Parse

/-! # Incremental parsing is one-shot parsing

`feed` appends the chunks to a buffer one by one and runs `ParseRequest` after each, up to the first
call that decides. Between the calls the parser waits for a line, and what it has seen by then does
not depend on where the bytes were cut (`feed_view`). -/

namespace MuduoCpp11.Net.Http

open MuduoCpp11.Base MuduoCpp11.Lib

/-- The bytes of the chunks. -/
def bytesOf (cs : List Chunk) : List UInt8 := (cs.map Chunk.data).flatten

@[simp] theorem bytesOf_nil : bytesOf [] = [] := rfl

@[simp] theorem bytesOf_cons (c : Chunk) (cs : List Chunk) :
    bytesOf (c :: cs) = c.data ++ bytesOf cs := rfl

/-- Chunk by chunk until a call returns false or completes a request; the bytes not consumed are what
is left in the buffer and the chunks not fed. -/
def feed (context : HttpContext) (buf : Buffer) : List Chunk → Outcome View
  | [] => .returned ⟨.incomplete, context, buf.peek⟩
  | c :: cs => (parseRequest (buf.append c.data) context c.time).bind fun p =>
    if p.verdict = .incomplete then feed p.context p.buf cs
    else .returned ⟨p.verdict, p.context, p.buf.peek ++ bytesOf cs⟩

/-- What is seen, the receive time apart. -/
def View.eraseTime (v : View) : View := { v with context := v.context.eraseTime }

theorem feed_view : ∀ (cs : List Chunk) (context : HttpContext) (buf : Buffer),
    parse context.eraseTime buf.peek = .returned ⟨.incomplete, context.eraseTime, buf.peek⟩ →
      (feed context buf cs).map View.eraseTime = parse context.eraseTime (buf.peek ++ bytesOf cs)
  | [], context, buf, hwait => by simp [feed, hwait, View.eraseTime]
  | c :: cs, context, buf, hwait => by
    have hview := parseRequest_view (buf.append c.data) context c.time
    rw [Buffer.peek_append] at hview
    rw [bytesOf_cons, ← List.append_assoc, parse_append, ← hview, feed, Outcome.map_bind,
      Outcome.bind_map]
    rcases hp : parseRequest (buf.append c.data) context c.time with p | _ | _
    · simp only [Outcome.returned_bind]
      rw [hp, Outcome.map_returned] at hview
      by_cases hv : p.verdict = .incomplete
      · have hp' : parse context.eraseTime (buf.peek ++ c.data) =
            .returned ⟨.incomplete, p.context.eraseTime, p.buf.peek⟩ := by
          rw [← hview, ← hv]
          rfl
        have hwait' := parse_wait hp'
        rw [if_pos hv, feed_view cs p.context p.buf hwait']
        simp [View.resume, Parsed.view, hv]
      · simp [View.resume, Parsed.view, hv, View.eraseTime]
    · rfl
    · rfl

/-- **Incremental parsing equals one-shot parsing.** -/
theorem feed_eq_feed_once (a : List UInt8) (cs : List Chunk) (t : Timestamp) :
    ∃ v v', feed (HttpContext.new a) Buffer.new cs = .returned v ∧
      feed (HttpContext.new a) Buffer.new [⟨bytesOf cs, t⟩] = .returned v' ∧
      v.verdict = v'.verdict ∧ v.context.state = v'.context.state ∧
      v.context.request.method = v'.context.request.method ∧
      v.context.request.version = v'.context.request.version ∧
      v.context.request.path = v'.context.request.path ∧
      v.context.request.query = v'.context.request.query ∧
      v.context.request.headers = v'.context.request.headers ∧
      v.rest = v'.rest := by
  have hwait : parse (HttpContext.new a).eraseTime (Buffer.new).peek =
      .returned ⟨.incomplete, (HttpContext.new a).eraseTime, (Buffer.new).peek⟩ := by
    rw [Buffer.peek_new]; rfl
  have h1 := feed_view cs (HttpContext.new a) Buffer.new hwait
  have h2 := feed_view [⟨bytesOf cs, t⟩] (HttpContext.new a) Buffer.new hwait
  obtain ⟨w, hw⟩ := parse_returned (HttpContext.new a).eraseTime rfl rfl (bytesOf cs)
  simp only [Buffer.peek_new, List.nil_append, bytesOf_cons, bytesOf_nil, List.append_nil, hw,
    Outcome.map_eq_returned] at h1 h2
  obtain ⟨v, hv, rfl⟩ := h1
  obtain ⟨v', hv', he⟩ := h2
  have hview : v.verdict = v'.verdict ∧ v.context.eraseTime = v'.context.eraseTime ∧
      v.rest = v'.rest := by
    simpa [View.eraseTime, eq_comm] using he
  obtain ⟨hverdict, hctx, hrest⟩ := hview
  have hreq := congrArg HttpContext.request hctx
  exact ⟨v, v', hv, hv', hverdict, (congrArg HttpContext.state hctx :),
    (congrArg HttpRequest.method hreq :), (congrArg HttpRequest.version hreq :),
    (congrArg HttpRequest.path hreq :), (congrArg HttpRequest.query hreq :),
    (congrArg HttpRequest.headers hreq :), hrest⟩

end MuduoCpp11.Net.Http
