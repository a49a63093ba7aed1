import MuduoCpp11.Net.Http.Pipeline

/-! # Requests of one connection

What a request on a kept connection owes to the ones before it. `Reset` leaves the version behind,
which the next request line overwrites (`parse_complete_version`), and the empty address, which
nothing overwrites (`parse_inert`): the peer's address is known to the first request only
(`deliver_eq_fresh_iff`). -/

namespace MuduoCpp11.Net.Http

open MuduoCpp11.Base MuduoCpp11.Lib MuduoCpp11.Lib.Search

theorem inert_setRemoteAddr (a : List UInt8) : Inert (·.setRemoteAddr a) where
  method _ := rfl
  setMethod _ _ := rfl
  setPath _ _ := rfl
  setQuery _ _ := rfl
  setVersion _ _ := rfl
  addHeader _ _ _ := rfl

/-- The view with a change of the request. -/
def View.modify (v : View) (f : HttpRequest → HttpRequest) : View :=
  { v with context := v.context.modify f }

theorem parseHeaders_inert {f : HttpRequest → HttpRequest} (hf : Inert f) (context : HttpContext)
    (s : List UInt8) :
    parseHeaders (context.modify f) s = (parseHeaders context s).modify f := by
  induction context, s using parseHeaders.induct with
  | case1 context s h => rw [parseHeaders_none h, parseHeaders_none h]; rfl
  | case2 context s line rest h hcol ih =>
    rw [parseHeaders_some h, parseHeaders_some h, if_pos hcol, if_pos hcol, addLine_inert hf, ih]
  | case3 context s line rest h hcol =>
    rw [parseHeaders_some h, parseHeaders_some h, if_neg hcol, if_neg hcol]; rfl

/-- **The parser carries along what it does not look at.** -/
theorem parse_inert {f : HttpRequest → HttpRequest} (hf : Inert f) (context : HttpContext)
    (s : List UInt8) : parse (context.modify f) s = (parse context s).map (·.modify f) := by
  have hst : (context.modify f).state = context.state := rfl
  unfold parse
  rw [hst]
  cases context.state with
  | kExpectRequestLine =>
    rcases cut kCRLF s with _ | ⟨line, rest⟩
    · rfl
    · simp only [processRequestLine_inert hf]
      rcases processRequestLine line context with ⟨ok, c⟩ | _ | _
      · cases ok with
        | true => exact congrArg Outcome.returned (parseHeaders_inert hf c.receiveRequestLine rest)
        | false => rfl
      · rfl
      · rfl
  | kExpectHeaders => exact congrArg Outcome.returned (parseHeaders_inert hf context s)
  | kExpectBody => rfl
  | kGotAll => rfl

theorem parse_remoteAddr {context : HttpContext} {s : List UInt8} {v : View}
    (h : parse context s = .returned v) :
    v.context.request.remoteAddr = context.request.remoteAddr := by
  have hmod := parse_inert (inert_setRemoteAddr context.request.remoteAddr) context s
  rw [show context.modify (·.setRemoteAddr context.request.remoteAddr) = context from rfl, h] at hmod
  simp only [Outcome.map_returned, Outcome.returned.injEq] at hmod
  rw [hmod]
  rfl

/-- **A complete request does not depend on the version left behind.** -/
theorem parse_complete_version (context : HttpContext) {c : HttpContext} {s rest : List UInt8}
    (hst : context.state = .kExpectRequestLine) (hm : context.request.method = .kInvalid)
    (h : parse context s = .returned ⟨.complete, c, rest⟩) (w : Version) :
    parse (context.modify (·.setVersion w)) s = .returned ⟨.complete, c, rest⟩ := by
  have hst' : (context.modify (·.setVersion w)).state = .kExpectRequestLine := hst
  have hm' : (context.modify (·.setVersion w)).request.method = .kInvalid := hm
  simp only [parse, hst'] at h ⊢
  simp only [hst] at h
  rcases hc : cut kCRLF s with _ | ⟨line, r⟩
  · simp [hc] at h
  · simp only [hc, Outcome.map_eq_returned] at h
    obtain ⟨⟨ok, c'⟩, hp, hv⟩ := h
    cases ok with
    | false => simp at hv
    | true =>
      obtain ⟨m, target, v, hline⟩ := (acceptsLine_iff hm).mp ⟨c', hp⟩
      rw [processRequestLine_of_requestLine hm hline] at hp
      simp only [Outcome.returned.injEq, Prod.mk.injEq, true_and] at hp
      have hsame : (setTarget { (context.modify (·.setVersion w)).request with method := methodOf m }
          target).setVersion v =
          (setTarget { context.request with method := methodOf m } target).setVersion v := by
        simp only [setTarget]
        split_ifs <;> rfl
      simp only [processRequestLine_of_requestLine hm' hline, Outcome.map_returned, if_true, hsame,
        ← hv, ← hp]
      rfl

/-! ### What is left of the requests before -/

/-- A connection behind the actions `done`: the address is there as long as nothing was dispatched,
and between two requests only the version may differ from a fresh context. -/
structure Between (ip : List UInt8) (done : List HttpAction) (conn : HttpConnection) : Prop where
  kind : conn.context.Ready ∨ conn.session.Spoiled
  addr : conn.session.context.request.remoteAddr = if dispatched done = 0 then ip else []
  fresh : conn.session.context.state = .kExpectRequestLine →
    conn.session.context.request.method = .kInvalid →
    conn.session.context =
      ((HttpContext.new ip).modify (·.setVersion conn.session.context.request.version)).modify
        (·.setRemoteAddr conn.session.context.request.remoteAddr)

theorem between_onConnection (ip : List UInt8) : Between ip [] (onConnection ip) :=
  ⟨Or.inl (Or.inl ⟨rfl, rfl⟩), rfl, fun _ _ => rfl⟩

/-- The parser changes a context that expects a request line only by setting the method. -/
theorem parse_fresh {context : HttpContext} (hready : context.Ready) {s : List UInt8} {v : View}
    (h : parse context s = .returned v) (hst : v.context.state = .kExpectRequestLine)
    (hm : v.context.request.method = .kInvalid) : v.context = context := by
  by_cases hs : Spoils context s
  · obtain ⟨c, hp, -, hcm⟩ := parse_of_spoils _ hready hs
    rw [h, Outcome.returned.injEq] at hp
    subst hp
    exact absurd hm hcm
  · rcases parse_of_not_spoils hready hs with ⟨c, rest, hp⟩ | ⟨c, rest, hp, hc⟩ | hp
    · have hgot := (parse_gotAll hp).mpr rfl
      rw [h, Outcome.returned.injEq] at hp
      subst hp
      rw [HttpContext.gotAll, show c.state = _ from hst] at hgot
      simp at hgot
    · rw [h, Outcome.returned.injEq] at hp
      subst hp
      rcases hc with hc | hc
      · exact hc
      · exact absurd (hc.symm.trans hst) (by simp)
    · rw [h, Outcome.returned.injEq] at hp
      rw [hp]

theorem between_deliver {ip : List UInt8} {done acts : List HttpAction}
    {conn conn' : HttpConnection} {c : Chunk} (hd : deliver conn c = .returned (conn', acts))
    (h : Between ip done conn) : Between ip (done ++ acts) conn' := by
  have hready : conn.session.context.Ready := ready_of_deliver h.kind hd
  have hkind := ready_or_spoiled_deliver hd h.kind
  obtain ⟨⟨verdict, ctx, rest⟩, hp, ha⟩ := Outcome.map_eq_returned.mp (deliver_returned hd)
  have haddr := parse_remoteAddr hp
  have hkept : dispatched acts = 0 → conn'.session.context = ctx →
      Between ip (done ++ acts) conn' := by
    intro h0 hctx
    refine ⟨hkind, ?_, fun hst hm => ?_⟩
    · rw [dispatched_append, h0, hctx]
      exact haddr.trans h.addr
    · rw [hctx] at hst hm
      have hctx' : ctx = conn.session.context := parse_fresh hready hp hst hm
      rw [hctx, hctx']
      exact h.fresh (hctx' ▸ hst) (hctx' ▸ hm)
  rw [← dispatched_eraseTime] at hkept
  cases verdict with
  | error =>
    simp only [View.answer, Prod.mk.injEq] at ha
    exact hkept (by rw [← ha.2]; rfl) (by rw [← ha.1])
  | incomplete =>
    simp only [View.answer, Prod.mk.injEq] at ha
    exact hkept (by rw [← ha.2]; rfl) (by rw [← ha.1])
  | complete =>
    simp only [View.answer, Prod.mk.injEq] at ha
    have h1 : dispatched acts = 1 := by rw [← dispatched_eraseTime, ← ha.2]; rfl
    refine ⟨hkind, ?_, fun _ _ => ?_⟩
    · rw [dispatched_append, h1, if_neg (by omega), ← ha.1]
      rfl
    · rw [← ha.1]
      rfl

theorem between_deliverAll {ip : List UInt8} {cs : List Chunk} {conn : HttpConnection}
    {acts : List HttpAction} (h : deliverAll (onConnection ip) cs = .returned (conn, acts)) :
    Between ip acts conn :=
  deliverAll_inv (P := Between ip) (fun _ _ _ _ _ hd hb => between_deliver hd hb) cs
    [] h (between_onConnection ip)

/-! ### The request of a kept connection -/

/-- A dispatched request is the one the parser completed. -/
theorem deliver_httpCallback {conn conn' : HttpConnection} {c : Chunk} {acts : List HttpAction}
    {r : HttpRequest} {k : Bool} (hd : deliver conn c = .returned (conn', acts))
    (hr : .httpCallback r k ∈ acts) :
    ∃ ctx rest, parse conn.session.context (conn.session.pending ++ c.data) =
      .returned ⟨.complete, ctx, rest⟩ ∧ r.eraseTime = ctx.request := by
  obtain ⟨⟨verdict, ctx, rest⟩, hp, ha⟩ := Outcome.map_eq_returned.mp (deliver_returned hd)
  have hr' : HttpAction.httpCallback r.eraseTime k ∈ acts.map HttpAction.eraseTime :=
    List.mem_map.mpr ⟨_, hr, rfl⟩
  rw [hp]
  cases verdict with
  | error =>
    simp only [View.answer, Prod.mk.injEq] at ha
    rw [← ha.2] at hr'
    simp at hr'
  | incomplete =>
    simp only [View.answer, Prod.mk.injEq] at ha
    rw [← ha.2] at hr'
    simp at hr'
  | complete =>
    simp only [View.answer, Prod.mk.injEq] at ha
    rw [← ha.2, List.mem_singleton, onRequest, HttpAction.httpCallback.injEq] at hr'
    exact ⟨ctx, rest, rfl, hr'.1⟩

/-- Conversely, a completed request is dispatched. -/
theorem deliver_of_complete {conn : HttpConnection} {c : Chunk} {ctx : HttpContext}
    {rest : List UInt8} (hp : parse conn.session.context (conn.session.pending ++ c.data) =
      .returned ⟨.complete, ctx, rest⟩) :
    ∃ conn' r k, deliver conn c = .returned (conn', [.httpCallback r k]) ∧
      r.eraseTime = ctx.request := by
  have hview := deliver_view conn c
  rw [Session.receive, hp, Outcome.map_returned, Outcome.map_eq_returned] at hview
  obtain ⟨⟨conn', acts⟩, hd, ha⟩ := hview
  simp only [View.answer, Prod.mk.injEq, List.map_eq_singleton_iff] at ha
  obtain ⟨-, a, rfl, ha⟩ := ha
  cases a with
  | httpCallback r k =>
    rw [HttpAction.eraseTime, onRequest, HttpAction.httpCallback.injEq] at ha
    exact ⟨conn', r, k, hd, ha.1⟩
  | send m => simp [HttpAction.eraseTime, onRequest] at ha
  | shutdown => simp [HttpAction.eraseTime, onRequest] at ha

/-- **What a request owes to the ones before it**: where its bytes complete a request on a fresh
connection to the same peer, they do so here, and all but the address is the same. -/
theorem deliver_eq_fresh {ip : List UInt8} {cs : List Chunk} {conn conn₀ : HttpConnection}
    {acts acts₀ : List HttpAction} {c : Chunk} {t : Timestamp} {r₀ : HttpRequest} {k₀ : Bool}
    (h : deliverAll (onConnection ip) cs = .returned (conn, acts))
    (hst : conn.context.state = .kExpectRequestLine)
    (hfresh : deliver (onConnection ip) ⟨conn.inputBuffer.peek ++ c.data, t⟩ =
      .returned (conn₀, acts₀))
    (hr₀ : .httpCallback r₀ k₀ ∈ acts₀) :
    r₀.remoteAddr = ip ∧ ∃ conn' r k, deliver conn c = .returned (conn', [.httpCallback r k]) ∧
      r.eraseTime = { r₀.eraseTime with remoteAddr := if dispatched acts = 0 then ip else [] } := by
  obtain ⟨hkind, haddr, hbetween⟩ := between_deliverAll h
  obtain ⟨ctx, rest, hp, hreq⟩ := deliver_httpCallback hfresh hr₀
  have hnil : (onConnection ip).session.pending = [] := Buffer.peek_new _
  rw [hnil, List.nil_append] at hp
  have hp' : parse (HttpContext.new ip) (conn.session.pending ++ c.data) =
      .returned ⟨.complete, ctx, rest⟩ := hp
  have hm : conn.session.context.request.method = .kInvalid := by
    rcases hkind with (⟨-, hm⟩ | hst') | hspoiled
    · exact hm
    · simp [hst] at hst'
    · -- the spoiling line is still in front, and a fresh context rejects it too
      obtain ⟨line, rest', hcut, hline⟩ := hspoiled.line
      obtain ⟨c', hc', -⟩ := parse_of_spoils (HttpContext.new ip) (Or.inl ⟨rfl, rfl⟩)
        ⟨rfl, line, _, cut_append kCRLF_ne_nil hcut c.data, hline⟩
      simp [hp'] at hc'
  have hsame := hbetween hst hm
  have hversion := parse_complete_version (HttpContext.new ip) rfl rfl hp'
    conn.session.context.request.version
  have hconn : parse conn.session.context (conn.session.pending ++ c.data) =
      .returned ⟨.complete,
        ctx.modify (·.setRemoteAddr conn.session.context.request.remoteAddr), rest⟩ := by
    rw [hsame, parse_inert (inert_setRemoteAddr _), hversion]
    rfl
  obtain ⟨conn', r, k, hd, hr⟩ := deliver_of_complete hconn
  have hctx : ctx.request.remoteAddr = ip := parse_remoteAddr hp'
  have hip₀ : r₀.eraseTime.remoteAddr = ip := (congrArg HttpRequest.remoteAddr hreq).trans hctx
  refine ⟨hip₀, conn', r, k, hd, ?_⟩
  rw [hr, hreq, haddr]
  rfl

/-- **Requests of a kept connection.** Let a connection have been reached by any chunks, expecting a
request line, and let the bytes then in its buffer complete a request on a fresh connection to the
same peer. They do so here, and the request is the fresh one, with the peer's address, if and only if
none was dispatched before (or the address is the empty string). -/
theorem deliver_eq_fresh_iff {ip : List UInt8} {cs : List Chunk} {conn conn₀ : HttpConnection}
    {acts acts₀ : List HttpAction} {c : Chunk} {t : Timestamp} {r₀ : HttpRequest} {k₀ : Bool}
    (h : deliverAll (onConnection ip) cs = .returned (conn, acts))
    (hst : conn.context.state = .kExpectRequestLine)
    (hfresh : deliver (onConnection ip) ⟨conn.inputBuffer.peek ++ c.data, t⟩ =
      .returned (conn₀, acts₀))
    (hr₀ : .httpCallback r₀ k₀ ∈ acts₀) :
    ∃ conn' r k, deliver conn c = .returned (conn', [.httpCallback r k]) ∧
      ((r.eraseTime = r₀.eraseTime ∧ r.remoteAddr = ip) ↔ (dispatched acts = 0 ∨ ip = [])) := by
  obtain ⟨hip₀, conn', r, k, hd, hr⟩ := deliver_eq_fresh h hst hfresh hr₀
  refine ⟨conn', r, k, hd, ?_⟩
  have hraddr : r.remoteAddr = if dispatched acts = 0 then ip else [] :=
    congrArg HttpRequest.remoteAddr hr
  constructor
  · rintro ⟨-, hra⟩
    by_cases h0 : dispatched acts = 0
    · exact Or.inl h0
    · rw [hraddr, if_neg h0] at hra
      exact Or.inr hra.symm
  · intro hor
    have hip : (if dispatched acts = 0 then ip else []) = ip := by
      rcases hor with h0 | rfl
      · rw [if_pos h0]
      · rw [ite_self]
    refine ⟨?_, hraddr.trans hip⟩
    rw [hr, hip, ← hip₀]
    rfl

/-- The second of two requests. -/
theorem deliver_eq_fresh_iff_second : ∃ conn acts c conn' r k,
    deliverAll (onConnection (ascii "10.0.0.1")) [⟨ascii "GET /a?b HTTP/1.0\r\nA: b\r\n\r\n", {}⟩] =
      .returned (conn, acts) ∧
    deliver conn c = .returned (conn', [.httpCallback r k]) ∧
    (r.eraseTime = (⟨.kGet, .kHttp11, ascii "/", [], ascii "10.0.0.1", {}, ∅⟩ : HttpRequest) ∧
      r.remoteAddr = ascii "10.0.0.1" ↔ dispatched acts = 0 ∨ ascii "10.0.0.1" = []) := by
  have hfirst : (deliverAll (onConnection (ascii "10.0.0.1"))
      [⟨ascii "GET /a?b HTTP/1.0\r\nA: b\r\n\r\n", {}⟩]).map
        (fun r => (r.1.context.state, r.1.inputBuffer.peek)) =
          .returned (.kExpectRequestLine, []) := by decide +kernel
  have hfresh : (deliver (onConnection (ascii "10.0.0.1"))
      ⟨ascii "GET / HTTP/1.1\r\n\r\n", {}⟩).map Prod.snd =
        .returned [.httpCallback ⟨.kGet, .kHttp11, ascii "/", [], ascii "10.0.0.1", {}, ∅⟩ true] := by
    decide +kernel
  obtain ⟨⟨conn, acts⟩, h, hs⟩ := Outcome.map_eq_returned.mp hfirst
  obtain ⟨⟨conn₀, acts₀⟩, h₀, rfl⟩ := Outcome.map_eq_returned.mp hfresh
  simp only [Prod.mk.injEq] at hs
  obtain ⟨conn', r, k, hd, hiff⟩ := deliver_eq_fresh_iff (c := ⟨ascii "GET / HTTP/1.1\r\n\r\n", {}⟩)
    (t := {}) h hs.1 (by rw [hs.2]; exact h₀) (List.mem_singleton_self _)
  exact ⟨conn, acts, _, conn', r, k, h, hd, hiff⟩

/-- The same request twice: the second time without the peer's address. -/
theorem second_request_without_address :
    ¬ ∀ conn acts r k, deliverAll (onConnection (ascii "10.0.0.1"))
        [⟨ascii "GET / HTTP/1.1\r\n\r\n", {}⟩, ⟨ascii "GET / HTTP/1.1\r\n\r\n", {}⟩] =
          .returned (conn, acts) →
      .httpCallback r k ∈ acts → r.remoteAddr = ascii "10.0.0.1" := by
  intro h
  have hall : (deliverAll (onConnection (ascii "10.0.0.1"))
      [⟨ascii "GET / HTTP/1.1\r\n\r\n", {}⟩, ⟨ascii "GET / HTTP/1.1\r\n\r\n", {}⟩]).map Prod.snd =
        .returned [.httpCallback ⟨.kGet, .kHttp11, ascii "/", [], ascii "10.0.0.1", {}, ∅⟩ true,
          .httpCallback ⟨.kGet, .kHttp11, ascii "/", [], [], {}, ∅⟩ true] := by
    decide +kernel
  obtain ⟨⟨conn, acts⟩, hd, rfl⟩ := Outcome.map_eq_returned.mp hall
  exact absurd (h conn _ _ _ hd (List.mem_cons_of_mem _ (List.mem_singleton_self _))) (by decide)

end MuduoCpp11.Net.Http
