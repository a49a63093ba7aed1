import MuduoCpp11.Lib.Fields
import MuduoCpp11.Net.Http.Grammar

/-! # What a header block is decoded to

A header line is a field name, a colon, and a value between spaces (`IsField`): the name ends at the
first colon, the value neither begins nor ends with a space. `AddHeader` enters exactly that pair
(`isField_iff`), so a block of such lines leaves the map in which each name has the value of its last
line (`parseRequest_headers`). -/

namespace MuduoCpp11.Net.Http

open MuduoCpp11.Base MuduoCpp11.Lib MuduoCpp11.Lib.Fields

/-- The line binds `name` to `value`. -/
def IsField (line name value : List UInt8) : Prop :=
  ∃ text, line = name ++ 58 :: text ∧ 58 ∉ name ∧ IsTrim isspace text value

/-- The pair that `AddHeader` enters for a line. -/
def field (line : List UInt8) : List UInt8 × List UInt8 :=
  (line.take (line.idxOf 58),
    ((line.drop (line.idxOf 58 + 1)).dropWhile isspace).rdropWhile isspace)

theorem isField_iff {line name value : List UInt8} (h : 58 ∈ line) :
    IsField line name value ↔ field line = (name, value) := by
  obtain ⟨name', text', rfl, hname'⟩ := List.eq_append_cons_of_mem h
  have hfield : field (name' ++ 58 :: text') =
      (name', (text'.dropWhile isspace).rdropWhile isspace) := by
    simp [field, idxOf_append_cons hname']
  rw [hfield, Prod.mk.injEq]
  constructor
  · rintro ⟨text, heq, hname, htrim⟩
    obtain ⟨rfl, rfl⟩ := append_cons_inj hname' hname heq
    exact ⟨rfl, (isTrim_iff.mp htrim).symm⟩
  · rintro ⟨rfl, rfl⟩
    exact ⟨text', rfl, hname', isTrim_iff.mpr rfl⟩

/-- The header lines enter the map one after the other and touch nothing else. -/
theorem foldl_addLine : ∀ (ls : List (List UInt8)) (context : HttpContext),
    ls.foldl HttpContext.addLine context = { context with
      request := { context.request with
        headers := ls.foldl (fun m l => m.insert (field l).1 (field l).2) context.request.headers } }
  | [], _ => rfl
  | l :: ls, context => by rw [List.foldl_cons, foldl_addLine ls]; rfl

/-- **The header block.** On lines with a colon, a CRLF behind each, and one CRLF more, `ParseRequest`
returns true with a complete request, leaves what follows, and each name has the value of its last
line. -/
theorem parseRequest_headers (buf : Buffer) (context : HttpContext) (t : Timestamp)
    (ls : List (List UInt8)) (rest : List UInt8) (hst : context.state = .kExpectHeaders)
    (hempty : context.request.headers = ∅) (hls : ∀ l ∈ ls, 58 ∈ l ∧ IsLine l)
    (hpeek : buf.peek = endLines ls ++ kCRLF ++ rest) :
    ∃ p, parseRequest buf context t = .returned p ∧ p.ok = true ∧
      p.context.state = .kGotAll ∧ p.buf.peek = rest ∧
      ∀ name value, p.context.request.headers[name]? = some value ↔
        ∃ pre line post, ls = pre ++ line :: post ∧ IsField line name value ∧
          ∀ l ∈ post, ∀ value', ¬ IsField l name value' := by
  have hblock : Block ls [] := ⟨fun l hl => (hls l hl).symm, by decide⟩
  have hlines : endLines ls ++ kCRLF ++ rest = endLines (ls ++ [[]]) ++ rest := by simp [endLines]
  have hst' : context.eraseTime.state = .kExpectHeaders := hst
  have hview := parseRequest_view buf context t
  rw [parse_of_headers hst', hpeek, hlines,
    parseHeaders_of_block _ rest hblock, foldl_addLine, Outcome.map_eq_returned] at hview
  obtain ⟨p, hp, hv⟩ := hview
  have hverdict : p.verdict = .complete := congrArg View.verdict hv
  have hcontext := congrArg View.context hv
  have hheaders : p.context.request.headers =
      ls.foldl (fun m l => m.insert (field l).1 (field l).2) ∅ :=
    (congrArg (·.request.headers) hcontext).trans (by rw [← hempty]; rfl)
  refine ⟨p, hp, ?_, congrArg HttpContext.state hcontext, congrArg View.rest hv,
    fun name value => ?_⟩
  · by_contra hok
    simp [Parsed.verdict, hok] at hverdict
  · rw [hheaders, getElem?_foldl_insert field]
    constructor
    · rintro (⟨pre, line, post, rfl, hline, hpost⟩ | ⟨-, hnone⟩)
      · refine ⟨pre, line, post, rfl, (isField_iff (hls line (by simp)).1).mpr hline, ?_⟩
        intro l hl value' hfield
        rw [isField_iff (hls l (by simp [hl])).1] at hfield
        exact hpost l hl (by rw [hfield])
      · simp at hnone
    · rintro ⟨pre, line, post, rfl, hline, hpost⟩
      refine Or.inl ⟨pre, line, post, rfl, (isField_iff (hls line (by simp)).1).mp hline, ?_⟩
      intro l hl hname
      exact hpost l hl (field l).2
        ((isField_iff (hls l (by simp [hl])).1).mpr (Prod.ext hname rfl))

/-- A name that comes twice, the second time with spaces around its value. -/
theorem parseRequest_headers_of_twice :
    ∃ p, parseRequest (Buffer.new.append (ascii "a:1\r\na: \t2 \r\n\r\nGET"))
        ⟨.kExpectHeaders, {}⟩ {} = .returned p ∧ p.ok = true ∧ p.context.state = .kGotAll ∧
      p.buf.peek = ascii "GET" ∧ p.context.request.headers[ascii "a"]? = some (ascii "2") := by
  have hfield : IsField (ascii "a: \t2 ") (ascii "a") (ascii "2") :=
    (isField_iff (by decide)).mpr (by decide)
  obtain ⟨p, hp, hok, hst, hrest, hheaders⟩ := parseRequest_headers
    (Buffer.new.append (ascii "a:1\r\na: \t2 \r\n\r\nGET")) ⟨.kExpectHeaders, {}⟩ {}
    [ascii "a:1", ascii "a: \t2 "] (ascii "GET") rfl rfl (by decide)
    (by rw [Buffer.peek_append, Buffer.peek_new]; decide)
  exact ⟨p, hp, hok, hst, hrest,
    (hheaders _ _).mpr ⟨[ascii "a:1"], ascii "a: \t2 ", [], rfl, hfield, by simp⟩⟩

end MuduoCpp11.Net.Http
