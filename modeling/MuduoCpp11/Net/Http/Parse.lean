import MuduoCpp11.Net.Http.HttpServer

/-! # The parser on byte strings

`parse` is `ParseRequest` without the buffer, the fuel and the receive time: a function of the context
and of the readable bytes. The model's loop computes it whenever it has more turns than there are
bytes (`parseRequestLoop_view`), so `ParseRequest` does (`parseRequest_view`).

The parser stops where a line is missing; bytes appended behind what it has seen change nothing that
has been decided, and continue what has not (`parse_append`). -/

namespace MuduoCpp11.Net.Http

open MuduoCpp11.Base MuduoCpp11.Lib MuduoCpp11.Lib.Search

inductive Verdict where
  | error | complete | incomplete
  deriving DecidableEq, Repr

/-- What a call of the parser shows: its verdict, the context and the bytes not consumed. -/
structure View where
  verdict : Verdict
  context : HttpContext
  rest : List UInt8
  deriving DecidableEq

/-- The verdict of a call of `ParseRequest`. -/
def Parsed.verdict (p : Parsed) : Verdict :=
  if p.ok then if p.context.gotAll then .complete else .incomplete else .error

/-- What is seen of a call, the receive time apart. -/
def Parsed.view (p : Parsed) : View := ⟨p.verdict, p.context.eraseTime, p.buf.peek⟩

/-- A header line enters the header map. -/
def HttpContext.addLine (context : HttpContext) (line : List UInt8) : HttpContext :=
  context.modify (·.addHeader line (line.idxOf 58))

/-- The parser on the lines of a header block. -/
def parseHeaders (context : HttpContext) (s : List UInt8) : View :=
  match h : cut kCRLF s with
  | none => ⟨.incomplete, context, s⟩
  | some (line, rest) =>
    if 58 ∈ line then parseHeaders (context.addLine line) rest
    else ⟨.complete, context.receiveHeaders, rest⟩
termination_by s.length
decreasing_by exact cut_length_lt kCRLF_ne_nil h

/-- **The parser.** -/
def parse (context : HttpContext) (s : List UInt8) : Outcome View :=
  match context.state with
  | .kExpectRequestLine =>
    match cut kCRLF s with
    | none => .returned ⟨.incomplete, context, s⟩
    | some (line, rest) =>
      (processRequestLine line context).map fun (ok, context) =>
        if ok then parseHeaders context.receiveRequestLine rest else ⟨.error, context, s⟩
  | .kExpectHeaders => .returned (parseHeaders context s)
  | .kExpectBody | .kGotAll => .diverges

/-! ### Equations -/

theorem parseHeaders_none {context : HttpContext} {s : List UInt8} (h : cut kCRLF s = none) :
    parseHeaders context s = ⟨.incomplete, context, s⟩ := by
  rw [parseHeaders]; split <;> simp_all

theorem parseHeaders_some {context : HttpContext} {s line rest : List UInt8}
    (h : cut kCRLF s = some (line, rest)) :
    parseHeaders context s =
      if 58 ∈ line then parseHeaders (context.addLine line) rest
      else ⟨.complete, context.receiveHeaders, rest⟩ := by
  rw [parseHeaders]; split <;> simp_all

/-! ### Fields the parser does not look at -/

/-- A change of the request that touches nothing the parser reads or writes. -/
structure Inert (f : HttpRequest → HttpRequest) : Prop where
  method : ∀ r, (f r).method = r.method
  setMethod : ∀ r m, { f r with method := m } = f { r with method := m }
  setPath : ∀ r p, (f r).setPath p = f (r.setPath p)
  setQuery : ∀ r q, (f r).setQuery q = f (r.setQuery q)
  setVersion : ∀ r v, (f r).setVersion v = f (r.setVersion v)
  addHeader : ∀ r line colon, (f r).addHeader line colon = f (r.addHeader line colon)

theorem inert_eraseTime : Inert HttpRequest.eraseTime where
  method _ := rfl
  setMethod _ _ := rfl
  setPath _ _ := rfl
  setQuery _ _ := rfl
  setVersion _ _ := rfl
  addHeader _ _ _ := rfl

section inert

variable {f : HttpRequest → HttpRequest} (hf : Inert f)
include hf

theorem setTarget_inert (r : HttpRequest) (target : List UInt8) :
    setTarget (f r) target = f (setTarget r target) := by
  simp only [setTarget, hf.setPath, hf.setQuery, apply_ite f]

theorem processRequestLine_inert (line : List UInt8) (context : HttpContext) :
    processRequestLine line (context.modify f) =
      (processRequestLine line context).map fun r => (r.1, r.2.modify f) := by
  unfold processRequestLine
  simp only [HttpContext.modify]
  by_cases hs : line.idxOf 32 ≠ line.length
  · simp only [hs, if_true, HttpRequest.setMethod, ne_eq, not_false_eq_true, hf.method, hf.setMethod]
    by_cases hm : context.request.method = .kInvalid
    · simp only [hm, if_true, Outcome.returned_bind, setTarget_inert hf, hf.setVersion]
      split_ifs <;> rfl
    · simp [hm]
  · simp [hs]

theorem addLine_inert (context : HttpContext) (line : List UInt8) :
    (context.modify f).addLine line = (context.addLine line).modify f := by
  simp only [HttpContext.addLine, HttpContext.modify, hf.addHeader]

end inert

/-! ### The loop computes the parser -/

/-- A turn of the loop on a header block: nothing to do without a line. -/
theorem parseRequestTurn_headers_none {p : Parsed} {t : Timestamp}
    (hst : p.context.state = .kExpectHeaders) (h : cut kCRLF p.buf.peek = none) :
    parseRequestTurn p t = .returned (false, p) := by
  simp [parseRequestTurn, HttpContext.expectRequestLine, HttpContext.expectHeaders, hst,
    Buffer.findCRLF_eq, h]

/-- With a line, it is taken out of the buffer; it is a header if it has a colon, and ends the
block if it has none. -/
theorem parseRequestTurn_headers_some {p : Parsed} {t : Timestamp} {line rest : List UInt8}
    (hst : p.context.state = .kExpectHeaders) (h : cut kCRLF p.buf.peek = some (line, rest)) :
    ∃ buf : Buffer, buf.peek = rest ∧ parseRequestTurn p t =
      if 58 ∈ line then .returned (true, { p with buf, context := p.context.addLine line })
      else .returned (false, { p with buf, context := p.context.receiveHeaders }) := by
  obtain ⟨-, hpeek⟩ := (cut_eq_some kCRLF_ne_nil).mp h
  refine ⟨p.buf.retrieveUntil (line.length + 2), by simp [hpeek, kCRLF], ?_⟩
  have htake : p.buf.peek.take line.length = line := by simp [hpeek]
  have hcolon : line.idxOf 58 ≠ line.length ↔ 58 ∈ line := by
    have := List.idxOf_le_length (a := (58 : UInt8)) (l := line)
    rw [← List.idxOf_lt_length_iff]; omega
  simp only [parseRequestTurn, HttpContext.expectRequestLine, HttpContext.expectHeaders, hst,
    Buffer.findCRLF_eq, h, Option.map_some, htake, hcolon, reduceCtorEq, decide_false, decide_true,
    Bool.false_eq_true, if_false, if_true]
  rfl

theorem parseRequestLoop_headers (t : Timestamp) : ∀ (fuel : ℕ) (p : Parsed),
    p.context.state = .kExpectHeaders → p.ok = true → p.buf.readableBytes < fuel →
      (parseRequestLoop t fuel p).map Parsed.view =
        .returned (parseHeaders p.context.eraseTime p.buf.peek)
  | 0, p, _, _, hf => by omega
  | fuel + 1, p, hst, hok, hf => by
    rcases hc : cut kCRLF p.buf.peek with _ | ⟨line, rest⟩
    · rw [parseRequestLoop, parseRequestTurn_headers_none hst hc, parseHeaders_none hc]
      simp [Parsed.view, Parsed.verdict, hok, HttpContext.gotAll, hst]
    · obtain ⟨buf, hbuf, hturn⟩ := parseRequestTurn_headers_some (t := t) hst hc
      have hlt := cut_length_lt kCRLF_ne_nil hc
      rw [parseRequestLoop, hturn, parseHeaders_some hc]
      by_cases hcol : 58 ∈ line
      · simp only [hcol, if_true, Outcome.returned_bind]
        rw [parseRequestLoop_headers t fuel ⟨p.ok, buf, p.context.addLine line⟩ hst hok
          (by rw [← Buffer.length_peek] at hf ⊢; simp only [hbuf]; omega)]
        simp only [hbuf, HttpContext.eraseTime, addLine_inert inert_eraseTime]
      · simp only [hcol, if_false, Outcome.returned_bind, Bool.false_eq_true, Outcome.map_returned,
          Parsed.view, Parsed.verdict, hok, hbuf]
        rfl

/-- A turn of the loop on a request line. -/
theorem parseRequestTurn_requestLine_some {p : Parsed} {t : Timestamp} {line rest : List UInt8}
    (hst : p.context.state = .kExpectRequestLine)
    (h : cut kCRLF p.buf.peek = some (line, rest)) :
    ∃ buf : Buffer, buf.peek = rest ∧ parseRequestTurn p t =
      (processRequestLine line p.context).bind fun (ok, context) =>
        if ok then
          .returned (true, ⟨ok, buf,
            (context.modify (·.setReceivetime t)).receiveRequestLine⟩)
        else .returned (false, ⟨ok, p.buf, context⟩) := by
  obtain ⟨-, hpeek⟩ := (cut_eq_some kCRLF_ne_nil).mp h
  refine ⟨p.buf.retrieveUntil (line.length + 2), by simp [hpeek, kCRLF], ?_⟩
  have htake : p.buf.peek.take line.length = line := by simp [hpeek]
  simp only [parseRequestTurn, HttpContext.expectRequestLine, hst, Buffer.findCRLF_eq, h,
    Option.map_some, htake, decide_true, if_true]

/-- A loop that waits for a body, or for nothing, never ends. -/
theorem parseRequestLoop_diverges (t : Timestamp) : ∀ (fuel : ℕ) (p : Parsed),
    p.context.state = .kExpectBody ∨ p.context.state = .kGotAll →
      parseRequestLoop t fuel p = .diverges
  | 0, p, _ => rfl
  | fuel + 1, p, hst => by
    have hturn : parseRequestTurn p t = .returned (true, p) := by
      rcases hst with h | h <;>
        simp [parseRequestTurn, HttpContext.expectRequestLine, HttpContext.expectHeaders, h]
    simpa [parseRequestLoop, hturn] using parseRequestLoop_diverges t fuel p hst

/-- **The loop of `ParseRequest` computes the parser** as soon as it has more turns than bytes. -/
theorem parseRequestLoop_view (t : Timestamp) (fuel : ℕ) (buf : Buffer) (context : HttpContext)
    (hf : buf.readableBytes < fuel) :
    (parseRequestLoop t fuel ⟨true, buf, context⟩).map Parsed.view =
      parse context.eraseTime buf.peek := by
  have hst' : context.eraseTime.state = context.state := rfl
  unfold parse
  rw [hst']
  cases hst : context.state with
  | kExpectRequestLine =>
    obtain ⟨fuel, rfl⟩ : ∃ n, fuel = n + 1 := ⟨fuel - 1, by omega⟩
    rcases hc : cut kCRLF buf.peek with _ | ⟨line, rest⟩
    · simp [parseRequestLoop, parseRequestTurn, HttpContext.expectRequestLine, hst,
        Buffer.findCRLF_eq, hc, Parsed.view, Parsed.verdict, HttpContext.gotAll]
    · obtain ⟨buf', hbuf, hturn⟩ := parseRequestTurn_requestLine_some (t := t)
        (p := ⟨true, buf, context⟩) hst hc
      have hlt := cut_length_lt kCRLF_ne_nil hc
      simp only [parseRequestLoop, hturn, HttpContext.eraseTime, processRequestLine_inert inert_eraseTime]
      rcases processRequestLine line context with ⟨ok, c⟩ | _ | _
      · cases ok with
        | true =>
          simp only [Outcome.returned_bind, if_true, Outcome.map_returned]
          rw [parseRequestLoop_headers t fuel _ rfl rfl
            (by rw [← Buffer.length_peek] at hf ⊢; simp only [hbuf]; omega)]
          simp only [hbuf]
          rfl
        | false => rfl
      · rfl
      · rfl
  | kExpectHeaders => exact parseRequestLoop_headers t fuel _ hst rfl hf
  | kExpectBody => simp [parseRequestLoop_diverges t fuel ⟨true, buf, context⟩ (Or.inl hst)]
  | kGotAll => simp [parseRequestLoop_diverges t fuel ⟨true, buf, context⟩ (Or.inr hst)]

/-- `ParseRequest` computes the parser. -/
theorem parseRequest_view (buf : Buffer) (context : HttpContext) (t : Timestamp) :
    (parseRequest buf context t).map Parsed.view = parse context.eraseTime buf.peek :=
  parseRequestLoop_view t _ buf context (Nat.lt_succ_self _)

/-! ### Bytes behind what the parser has seen -/

/-- A header block is never rejected; it is complete or waits for a line in the same state. -/
theorem parseHeaders_state (context : HttpContext) (s : List UInt8) :
    (parseHeaders context s).verdict = .complete ∧
        (parseHeaders context s).context.state = .kGotAll ∨
      (parseHeaders context s).verdict = .incomplete ∧
        (parseHeaders context s).context.state = context.state := by
  induction context, s using parseHeaders.induct with
  | case1 context s h => rw [parseHeaders_none h]; simp
  | case2 context s line rest h hcol ih =>
    rw [parseHeaders_some h, if_pos hcol]
    exact ih
  | case3 context s line rest h hcol =>
    rw [parseHeaders_some h, if_neg hcol]
    exact Or.inl ⟨rfl, rfl⟩

theorem parseHeaders_append (context : HttpContext) (s c : List UInt8) :
    parseHeaders context (s ++ c) =
      if (parseHeaders context s).verdict = .incomplete then
        parseHeaders (parseHeaders context s).context ((parseHeaders context s).rest ++ c)
      else { parseHeaders context s with rest := (parseHeaders context s).rest ++ c } := by
  induction context, s using parseHeaders.induct with
  | case1 context s h => simp [parseHeaders_none h]
  | case2 context s line rest h hcol ih =>
    rw [parseHeaders_some h, if_pos hcol, ← ih,
      parseHeaders_some (cut_append kCRLF_ne_nil h c), if_pos hcol]
  | case3 context s line rest h hcol =>
    rw [parseHeaders_some h, if_neg hcol, parseHeaders_some (cut_append kCRLF_ne_nil h c),
      if_neg hcol]
    simp

/-- The parser resumed: an undecided result goes on with the bytes appended, a decided one hands
them through. -/
def View.resume (v : View) (c : List UInt8) : Outcome View :=
  if v.verdict = .incomplete then parse v.context (v.rest ++ c)
  else .returned { v with rest := v.rest ++ c }

theorem parse_of_headers {context : HttpContext} (h : context.state = .kExpectHeaders)
    (s : List UInt8) : parse context s = .returned (parseHeaders context s) := by
  simp [parse, h]

theorem parseHeaders_resume (context : HttpContext) (h : context.state = .kExpectHeaders)
    (s c : List UInt8) :
    (parseHeaders context s).resume c = .returned (parseHeaders context (s ++ c)) := by
  rw [parseHeaders_append]
  unfold View.resume
  rcases parseHeaders_state context s with ⟨h1, -⟩ | ⟨h1, h2⟩
  · rw [if_neg (by simp [h1]), if_neg (by simp [h1])]
  · rw [if_pos h1, if_pos h1, parse_of_headers (h2.trans h)]

/-- **Appended bytes**: parsing `s ++ c` is parsing `s` and continuing with `c`. -/
theorem parse_append (context : HttpContext) (s c : List UInt8) :
    parse context (s ++ c) = (parse context s).bind (·.resume c) := by
  cases hst : context.state with
  | kExpectRequestLine =>
    rcases hc : cut kCRLF s with _ | ⟨line, rest⟩
    · have : parse context s = .returned ⟨.incomplete, context, s⟩ := by simp [parse, hst, hc]
      simp [this, View.resume]
    · have hp : ∀ s', cut kCRLF s' = some (line, rest ++ c) → parse context s' =
          (processRequestLine line context).map fun (ok, context) =>
            if ok then parseHeaders context.receiveRequestLine (rest ++ c)
            else ⟨.error, context, s'⟩ := fun s' h => by simp [parse, hst, h]
      have hp0 : parse context s = (processRequestLine line context).map fun (ok, context) =>
          if ok then parseHeaders context.receiveRequestLine rest else ⟨.error, context, s⟩ := by
        simp [parse, hst, hc]
      rw [hp _ (cut_append kCRLF_ne_nil hc c), hp0]
      rcases processRequestLine line context with ⟨ok, c'⟩ | _ | _
      · cases ok with
        | true => simp [parseHeaders_resume c'.receiveRequestLine rfl]
        | false => simp [View.resume]
      · rfl
      · rfl
  | kExpectHeaders =>
    simp [parse_of_headers hst, parseHeaders_resume _ hst]
  | kExpectBody => simp [parse, hst]
  | kGotAll => simp [parse, hst]

/-- Where the parser waits, it waits again. -/
theorem parse_wait {context context' : HttpContext} {s s' : List UInt8}
    (h : parse context s = .returned ⟨.incomplete, context', s'⟩) :
    parse context' s' = .returned ⟨.incomplete, context', s'⟩ := by
  have := parse_append context s []
  rw [List.append_nil, h] at this
  simpa [View.resume] using this.symm

/-! ### The assertion of `set_method` -/

/-- A request line is processed without abort while the method is unset. -/
theorem processRequestLine_of_invalid (line : List UInt8) {context : HttpContext}
    (h : context.request.method = .kInvalid) :
    ∃ r, processRequestLine line context = .returned r := by
  simp only [processRequestLine, HttpRequest.setMethod, h, if_true, Outcome.returned_bind]
  split_ifs <;> exact ⟨_, rfl⟩

/-- The parser returns while the method of an expected request is unset. -/
theorem parse_returned (context : HttpContext) (hst : context.state = .kExpectRequestLine)
    (hm : context.request.method = .kInvalid) (s : List UInt8) :
    ∃ v, parse context s = .returned v := by
  simp only [parse, hst]
  rcases cut kCRLF s with _ | ⟨line, rest⟩
  · exact ⟨_, rfl⟩
  · obtain ⟨r, hr⟩ := processRequestLine_of_invalid line hm
    simp only [hr, Outcome.map_returned]
    exact ⟨_, rfl⟩

/-! ### When a request is complete -/

/-- `ProcessRequestLine` does not move the parse state. -/
theorem processRequestLine_state {line : List UInt8} {context : HttpContext}
    {r : Bool × HttpContext} (h : processRequestLine line context = .returned r) :
    r.2.state = context.state := by
  by_cases hs : line.idxOf 32 ≠ line.length
  · by_cases hm : context.request.method = .kInvalid
    · simp only [processRequestLine, HttpRequest.setMethod, if_pos hs, if_pos hm,
        Outcome.returned_bind] at h
      split_ifs at h <;> cases h <;> rfl
    · simp [processRequestLine, HttpRequest.setMethod, hs, hm] at h
  · simp only [processRequestLine, if_neg hs] at h
    cases h; rfl

/-- What a call of the parser can return: on a request line it waits, or processes the line and goes on
to the headers if the line is accepted; otherwise it is on the headers. -/
theorem parse_cases {context : HttpContext} {s : List UInt8} {v : View}
    (h : parse context s = .returned v) :
    context.state = .kExpectRequestLine ∧ (v = ⟨.incomplete, context, s⟩ ∨
        ∃ line rest ok c, processRequestLine line context = .returned (ok, c) ∧
          v = if ok then parseHeaders c.receiveRequestLine rest else ⟨.error, c, s⟩) ∨
      context.state = .kExpectHeaders ∧ v = parseHeaders context s := by
  cases hst : context.state with
  | kExpectRequestLine =>
    refine Or.inl ⟨rfl, ?_⟩
    rcases hc : cut kCRLF s with _ | ⟨line, rest⟩
    · simp only [parse, hst, hc, Outcome.returned.injEq] at h
      exact Or.inl h.symm
    · simp only [parse, hst, hc, Outcome.map_eq_returned] at h
      obtain ⟨⟨ok, c⟩, hp, rfl⟩ := h
      exact Or.inr ⟨line, rest, ok, c, hp, rfl⟩
  | kExpectHeaders =>
    rw [parse_of_headers hst, Outcome.returned.injEq] at h
    exact Or.inr ⟨rfl, h.symm⟩
  | kExpectBody => simp [parse, hst] at h
  | kGotAll => simp [parse, hst] at h

/-- The parser leaves the context in `kGotAll` exactly when it completes a request. -/
theorem parse_gotAll {context : HttpContext} {s : List UInt8} {v : View}
    (h : parse context s = .returned v) : v.context.gotAll = true ↔ v.verdict = .complete := by
  have hheaders : ∀ (c : HttpContext) (s : List UInt8), c.state = .kExpectHeaders →
      ((parseHeaders c s).context.gotAll = true ↔ (parseHeaders c s).verdict = .complete) := by
    intro c s hc
    rcases parseHeaders_state c s with ⟨h1, h2⟩ | ⟨h1, h2⟩ <;> simp [HttpContext.gotAll, h1, h2, hc]
  rcases parse_cases h with ⟨hst, rfl | ⟨line, rest, ok, c, hp, rfl⟩⟩ | ⟨hst, rfl⟩
  · simp [HttpContext.gotAll, hst]
  · have hcs := processRequestLine_state hp
    cases ok with
    | true => exact hheaders _ _ rfl
    | false => simp [HttpContext.gotAll, show c.state = _ from hcs.trans hst]
  · exact hheaders context s hst

/-- `ParseRequest` reaches `kGotAll` and leaves `rest` in the buffer. -/
def ReachesGotAll (buf : Buffer) (context : HttpContext) (t : Timestamp) (rest : List UInt8) :
    Prop :=
  ∃ p, parseRequest buf context t = .returned p ∧ p.context.gotAll = true ∧ p.buf.peek = rest

theorem reachesGotAll_iff {buf : Buffer} {context : HttpContext} {t : Timestamp}
    {rest : List UInt8} :
    ReachesGotAll buf context t rest ↔
      ∃ c, parse context.eraseTime buf.peek = .returned ⟨.complete, c, rest⟩ := by
  have hview := parseRequest_view buf context t
  constructor
  · rintro ⟨p, hp, hgot, rfl⟩
    rw [hp, Outcome.map_returned] at hview
    have hv := (parse_gotAll hview.symm).mp hgot
    exact ⟨p.context.eraseTime, by rw [← hview, ← hv]; rfl⟩
  · rintro ⟨c, hc⟩
    rw [hc, Outcome.map_eq_returned] at hview
    obtain ⟨p, hp, hv⟩ := hview
    have hgot := (parse_gotAll hc).mpr rfl
    refine ⟨p, hp, ?_, congrArg View.rest hv⟩
    rw [← congrArg View.context hv] at hgot
    exact hgot

end MuduoCpp11.Net.Http
