import MuduoCpp11.Net.Http.Parse

/-! # The language of the parser

A line is a byte string in which, with a CRLF behind it, the first CRLF is that one. The parser
completes a request exactly on a request line it accepts, lines with a colon, and a line without one
(`parse_complete`); these lines are determined by the bytes (`Block.unique`). The line that ends the
headers is meant to be the empty one; it is for every input in which the first line of the header
block without a colon is empty, and for no other (`reachesGotAll_iff_isRequest`). -/

namespace MuduoCpp11.Net.Http

open MuduoCpp11.Base MuduoCpp11.Lib MuduoCpp11.Lib.Search

/-- The first CRLF of `l ++ CRLF` is the appended one. -/
def IsLine (l : List UInt8) : Prop := IsSegment kCRLF l

instance (l : List UInt8) : Decidable (IsLine l) := inferInstanceAs (Decidable (IsSegment _ _))

/-- The lines, each followed by a CRLF. -/
def endLines (ls : List (List UInt8)) : List UInt8 := (ls.map (· ++ kCRLF)).flatten

@[simp] theorem endLines_nil : endLines [] = [] := rfl

@[simp] theorem endLines_cons (l : List UInt8) (ls : List (List UInt8)) :
    endLines (l :: ls) = l ++ kCRLF ++ endLines ls := by simp [endLines]

/-- The lines of a header block as the parser reads it: lines with a colon, then one without. -/
structure Block (hs : List (List UInt8)) (e : List UInt8) : Prop where
  header : ∀ h ∈ hs, IsLine h ∧ 58 ∈ h
  last : IsLine e ∧ 58 ∉ e

theorem Block.nil {e : List UInt8} (he : IsLine e ∧ 58 ∉ e) : Block [] e := ⟨by simp, he⟩

theorem Block.cons {h e : List UInt8} {hs : List (List UInt8)} (hh : IsLine h ∧ 58 ∈ h)
    (hb : Block hs e) : Block (h :: hs) e :=
  ⟨by simpa using ⟨hh, hb.header⟩, hb.last⟩

theorem Block.tail {h e : List UInt8} {hs : List (List UInt8)} (hb : Block (h :: hs) e) :
    Block hs e := ⟨fun h' hh' => hb.header h' (List.mem_cons_of_mem _ hh'), hb.last⟩

/-- The parser completes a header block on its lines. -/
theorem parseHeaders_of_block {e : List UInt8} : ∀ {hs : List (List UInt8)} (context : HttpContext)
    (rest : List UInt8), Block hs e →
      parseHeaders context (endLines (hs ++ [e]) ++ rest) =
        ⟨.complete, (hs.foldl HttpContext.addLine context).receiveHeaders, rest⟩
  | [], context, rest, hb => by
    have hc : cut kCRLF (endLines ([] ++ [e]) ++ rest) = some (e, rest) :=
      (cut_eq_some kCRLF_ne_nil).mpr ⟨hb.last.1, by simp⟩
    rw [parseHeaders_some hc, if_neg hb.last.2]
    rfl
  | h :: hs, context, rest, hb => by
    obtain ⟨hline, hcol⟩ := hb.header h (by simp)
    have hc : cut kCRLF (endLines (h :: hs ++ [e]) ++ rest) =
        some (h, endLines (hs ++ [e]) ++ rest) :=
      (cut_eq_some kCRLF_ne_nil).mpr ⟨hline, by simp⟩
    rw [parseHeaders_some hc, if_pos hcol, parseHeaders_of_block _ rest hb.tail]
    rfl

/-- A completed header block consists of such lines. -/
theorem block_of_parseHeaders (context : HttpContext) (s : List UInt8)
    (h : (parseHeaders context s).verdict = .complete) :
    ∃ hs e, Block hs e ∧ s = endLines (hs ++ [e]) ++ (parseHeaders context s).rest := by
  induction context, s using parseHeaders.induct with
  | case1 context s hc => simp [parseHeaders_none hc] at h
  | case2 context s line rest hc hcol ih =>
    rw [parseHeaders_some hc, if_pos hcol] at h ⊢
    obtain ⟨hline, rfl⟩ := (cut_eq_some kCRLF_ne_nil).mp hc
    obtain ⟨hs, e, hb, hs'⟩ := ih h
    refine ⟨line :: hs, e, hb.cons ⟨hline, hcol⟩, ?_⟩
    nth_rewrite 1 [hs']
    simp
  | case3 context s line rest hc hcol =>
    rw [parseHeaders_some hc, if_neg hcol]
    obtain ⟨hline, rfl⟩ := (cut_eq_some kCRLF_ne_nil).mp hc
    exact ⟨[], line, Block.nil ⟨hline, hcol⟩, by simp⟩

/-- **The lines of a block are determined by the bytes.** -/
theorem Block.unique {e e' r r' : List UInt8} : ∀ {hs hs' : List (List UInt8)}, Block hs e →
    Block hs' e' → endLines (hs ++ [e]) ++ r = endLines (hs' ++ [e']) ++ r' →
      hs = hs' ∧ e = e' ∧ r = r'
  | [], [], hb, hb', h => by
    have := hb.last.1.unique kCRLF_ne_nil hb'.last.1 (by simpa using h)
    exact ⟨rfl, this⟩
  | [], h' :: hs', hb, hb', h => by
    obtain ⟨hl', hc'⟩ := hb'.header h' (by simp)
    have he : e ++ kCRLF ++ r = h' ++ kCRLF ++ (endLines (hs' ++ [e']) ++ r') := by simpa using h
    have := hb.last.1.unique kCRLF_ne_nil hl' he
    exact absurd (this.1 ▸ hc') hb.last.2
  | h :: hs, [], hb, hb', he => by
    obtain ⟨hl, hc⟩ := hb.header h (by simp)
    have he' : h ++ kCRLF ++ (endLines (hs ++ [e]) ++ r) = e' ++ kCRLF ++ r' := by simpa using he
    have := hl.unique kCRLF_ne_nil hb'.last.1 he'
    exact absurd (this.1 ▸ hc) hb'.last.2
  | h :: hs, h' :: hs', hb, hb', he => by
    have hlines : h ++ kCRLF ++ (endLines (hs ++ [e]) ++ r) =
        h' ++ kCRLF ++ (endLines (hs' ++ [e']) ++ r') := by simpa using he
    obtain ⟨rfl, he'⟩ := (hb.header h (by simp)).1.unique kCRLF_ne_nil
      (hb'.header h' (by simp)).1 hlines
    obtain ⟨rfl, h2, h3⟩ := Block.unique hb.tail hb'.tail he'
    exact ⟨rfl, h2, h3⟩

/-! ### Complete requests -/

/-- `ProcessRequestLine` accepts the line. -/
def AcceptsLine (context : HttpContext) (line : List UInt8) : Prop :=
  ∃ c, processRequestLine line context = .returned (true, c)

/-- The parser completes a request: an accepted line, then a header block. -/
theorem parse_complete (context : HttpContext) (hst : context.state = .kExpectRequestLine)
    {s rest : List UInt8} :
    (∃ c, parse context s = .returned ⟨.complete, c, rest⟩) ↔
      ∃ rl hs e, IsLine rl ∧ AcceptsLine context rl ∧ Block hs e ∧
        s = rl ++ kCRLF ++ (endLines (hs ++ [e]) ++ rest) := by
  constructor
  · rintro ⟨c, h⟩
    simp only [parse, hst] at h
    rcases hc : cut kCRLF s with _ | ⟨rl, r⟩
    · simp [hc] at h
    · simp only [hc, Outcome.map_eq_returned] at h
      obtain ⟨⟨ok, c'⟩, hp, hv⟩ := h
      cases ok with
      | false => simp at hv
      | true =>
        simp only [if_true] at hv
        obtain ⟨hline, rfl⟩ := (cut_eq_some kCRLF_ne_nil).mp hc
        obtain ⟨hs, e, hb, hr⟩ := block_of_parseHeaders c'.receiveRequestLine r (by rw [hv])
        rw [hv] at hr
        exact ⟨rl, hs, e, hline, ⟨c', hp⟩, hb, by rw [hr]⟩
  · rintro ⟨rl, hs, e, hline, ⟨c', hp⟩, hb, rfl⟩
    have hc := (cut_eq_some kCRLF_ne_nil (l := rl ++ kCRLF ++ (endLines (hs ++ [e]) ++ rest))).mpr
      ⟨hline, rfl⟩
    refine ⟨(hs.foldl HttpContext.addLine c'.receiveRequestLine).receiveHeaders, ?_⟩
    simp only [parse, hst, hc, hp, Outcome.map_returned, if_true]
    rw [parseHeaders_of_block _ rest hb]

/-! ### The end of the header block -/

/-- A request as it is meant: an accepted request line, non-empty lines with a colon, and the empty
line, each with its CRLF. -/
def IsRequest (context : HttpContext) (p : List UInt8) : Prop :=
  ∃ rl hs, IsLine rl ∧ AcceptsLine context rl ∧ (∀ h ∈ hs, IsLine h ∧ h ≠ [] ∧ 58 ∈ h) ∧
    p = rl ++ kCRLF ++ endLines hs ++ kCRLF

/-- An accepted request line and lines with a colon are followed by a line that is not empty and has
no colon. -/
def HasColonlessLine (context : HttpContext) (s : List UInt8) : Prop :=
  ∃ rl hs e rest, IsLine rl ∧ AcceptsLine context rl ∧ (∀ h ∈ hs, IsLine h ∧ 58 ∈ h) ∧
    IsLine e ∧ e ≠ [] ∧ 58 ∉ e ∧ s = rl ++ kCRLF ++ endLines hs ++ e ++ kCRLF ++ rest

theorem isRequest_append {context : HttpContext} {s rest : List UInt8} :
    (∃ p, IsRequest context p ∧ s = p ++ rest) ↔
      ∃ rl hs, IsLine rl ∧ AcceptsLine context rl ∧ Block hs [] ∧
        s = rl ++ kCRLF ++ (endLines (hs ++ [[]]) ++ rest) := by
  have hempty : IsLine [] ∧ (58 : UInt8) ∉ [] := by decide
  constructor
  · rintro ⟨p, ⟨rl, hs, hline, hacc, hhs, rfl⟩, rfl⟩
    refine ⟨rl, hs, hline, hacc, ⟨fun h hh => ⟨(hhs h hh).1, (hhs h hh).2.2⟩, hempty⟩, ?_⟩
    simp [endLines]
  · rintro ⟨rl, hs, hline, hacc, hb, rfl⟩
    refine ⟨_, ⟨rl, hs, hline, hacc, fun h hh => ?_, rfl⟩, by simp [endLines]⟩
    obtain ⟨h1, h2⟩ := hb.header h hh
    exact ⟨h1, List.ne_nil_of_mem h2, h2⟩

/-- Without such a line, the requests completed are the requests meant. -/
theorem reachesGotAll_of_not_hasColonlessLine (context : HttpContext)
    (hst : context.state = .kExpectRequestLine) {buf : Buffer} {t : Timestamp}
    (h : ¬ HasColonlessLine context.eraseTime buf.peek) (rest : List UInt8) :
    ReachesGotAll buf context t rest ↔
      ∃ p, IsRequest context.eraseTime p ∧ buf.peek = p ++ rest := by
  rw [reachesGotAll_iff, parse_complete context.eraseTime hst, isRequest_append]
  constructor
  · rintro ⟨rl, hs, e, hline, hacc, hb, hpeek⟩
    have he : e = [] := by
      by_contra hne
      exact h ⟨rl, hs, e, rest, hline, hacc, hb.header, hb.last.1, hne, hb.last.2, by
        rw [hpeek]; simp [endLines]⟩
    exact ⟨rl, hs, hline, hacc, he ▸ hb, he ▸ hpeek⟩
  · rintro ⟨rl, hs, hline, hacc, hb, hpeek⟩
    exact ⟨rl, hs, [], hline, hacc, hb, hpeek⟩

/-- With one, `ParseRequest` stops behind it, where no request that is meant ends. -/
theorem hasColonlessLine_reaches (context : HttpContext)
    (hst : context.state = .kExpectRequestLine) {buf : Buffer} {t : Timestamp}
    (h : HasColonlessLine context.eraseTime buf.peek) :
    ∃ rest, ReachesGotAll buf context t rest ∧
      ¬ ∃ p, IsRequest context.eraseTime p ∧ buf.peek = p ++ rest := by
  obtain ⟨rl, hs, e, rest, hline, hacc, hhs, hle, hne, hcol, hpeek⟩ := h
  have hb : Block hs e := ⟨hhs, hle, hcol⟩
  have hpeek' : buf.peek = rl ++ kCRLF ++ (endLines (hs ++ [e]) ++ rest) := by
    rw [hpeek]; simp [endLines]
  refine ⟨rest, ?_, ?_⟩
  · rw [reachesGotAll_iff, parse_complete context.eraseTime hst]
    exact ⟨rl, hs, e, hline, hacc, hb, hpeek'⟩
  · rw [isRequest_append]
    rintro ⟨rl', hs', hline', -, hb', hpeek''⟩
    obtain ⟨-, hrest⟩ := hline.unique kCRLF_ne_nil hline' (hpeek'.symm.trans hpeek'')
    exact hne (hb.unique hb' hrest).2.1

/-- **Where a request ends.** For every byte string in a buffer, `ParseRequest` on a fresh context
reaches `kGotAll` on the requests meant and consumes exactly them, if and only if no non-empty line
without a colon follows the header lines. -/
theorem reachesGotAll_iff_isRequest (a : List UInt8) (buf : Buffer) (t : Timestamp) :
    (∀ rest, ReachesGotAll buf (HttpContext.new a) t rest ↔
        ∃ p, IsRequest (HttpContext.new a) p ∧ buf.peek = p ++ rest) ↔
      ¬ HasColonlessLine (HttpContext.new a) buf.peek := by
  constructor
  · intro h hbad
    obtain ⟨rest, hreach, hno⟩ := hasColonlessLine_reaches (HttpContext.new a) (t := t) rfl hbad
    exact hno ((h rest).mp hreach)
  · exact fun h rest => reachesGotAll_of_not_hasColonlessLine (HttpContext.new a) rfl h rest

/-- On `"GET / HTTP/1.1\r\nfoo\r\n"` the line `foo` ends the request. -/
theorem reachesGotAll_colonless :
    ¬ ∀ rest, ReachesGotAll (Buffer.new.append (ascii "GET / HTTP/1.1\r\nfoo\r\n"))
        (HttpContext.new (ascii "10.0.0.1")) {} rest ↔
      ∃ p, IsRequest (HttpContext.new (ascii "10.0.0.1")) p ∧
        (Buffer.new.append (ascii "GET / HTTP/1.1\r\nfoo\r\n")).peek = p ++ rest := by
  intro h
  have hbad : HasColonlessLine (HttpContext.new (ascii "10.0.0.1"))
      (Buffer.new.append (ascii "GET / HTTP/1.1\r\nfoo\r\n")).peek := by
    refine ⟨ascii "GET / HTTP/1.1", [], ascii "foo", [], by decide, ⟨_, rfl⟩, by simp, by decide,
      by decide, by decide, ?_⟩
    rw [Buffer.peek_append, Buffer.peek_new]
    decide
  obtain ⟨rest, hreach, hno⟩ := hasColonlessLine_reaches (HttpContext.new (ascii "10.0.0.1"))
    (t := {}) rfl hbad
  exact hno ((h rest).mp hreach)

end MuduoCpp11.Net.Http
