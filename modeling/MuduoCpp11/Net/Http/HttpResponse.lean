import MuduoCpp11.Lib.Decimal
import MuduoCpp11.Lib.Fields
import MuduoCpp11.Net.Buffer.SizeT
import MuduoCpp11.Net.Http.Grammar

/-! # Responses

`AppendToBuffer` writes a status line, header lines and the body of a response. With keep-alive on, the
header lines begin with the length of the body, which is what a reader needs to find its end: `decode`
is such a reader, and gives back the response and what follows it (`decode_text`), so a stream of
responses is read back one by one (`decodeAll_texts`).

Every piece goes through a `StringPiece`, whose length is an `int`. A piece of `2 ^ 31` bytes or more
is not written as it is: of a status message of `2 ^ 32` bytes nothing is left
(`appendToBuffer_drops_message`). -/

namespace MuduoCpp11.Net

open MuduoCpp11.Lib MuduoCpp11.Lib.Decimal MuduoCpp11.Lib.Fields MuduoCpp11.Lib.Search

/-- `Append(const StringPiece&)` of a string: its length goes through an `int` and back to a
`size_t`. -/
def Buffer.appendPiece (b : Buffer) (str : List UInt8) : Option Buffer :=
  (copyFrom str 0 (UInt64.ofNat str.length).toUInt32.toInt32.toInt64.toUInt64.toNat).map b.append

theorem Buffer.appendPiece_eq (b : Buffer) {str : List UInt8} (h : str.length < 2 ^ 31) :
    b.appendPiece str = some (b.append str) := by
  have hlen : (UInt64.ofNat str.length).toNat = str.length :=
    UInt64.toNat_ofNat_of_lt' (by show str.length < 2 ^ 64; omega)
  rw [Buffer.appendPiece, RawBuffer.toNat_int (by omega), hlen]
  simp [copyFrom]

theorem Buffer.appendPiece_of_zero (b : Buffer) {str : List UInt8}
    (h : (UInt64.ofNat str.length).toUInt32.toInt32.toInt64.toUInt64.toNat = 0) :
    b.appendPiece str = some (b.append []) := by
  rw [Buffer.appendPiece, h, copyFrom, if_pos (Nat.zero_le _), List.take_zero, Option.map_some]

namespace Http

inductive HttpStatusCode where
  | kUnknown | k200Ok | k301MovedPermanently | k400BadRequest | k404NotFound
  deriving DecidableEq, Repr

/-- The value of the enumerator. -/
def HttpStatusCode.code : HttpStatusCode → ℕ
  | .kUnknown => 0
  | .k200Ok => 200
  | .k301MovedPermanently => 301
  | .k400BadRequest => 400
  | .k404NotFound => 404

structure HttpResponse where
  headers : Std.ExtTreeMap (List UInt8) (List UInt8) := ∅
  statusCode : HttpStatusCode := .kUnknown
  statusMessage : List UInt8 := []
  keepalive : Bool
  body : List UInt8 := []

/-- Characters of the source as bytes. -/
def bytes (text : List Char) : List UInt8 := text.map fun c => c.toNat.toUInt8

/-- The turn of the loop over the headers. -/
def appendHeader (output : Buffer) (it : List UInt8 × List UInt8) : Option Buffer := do
  let output ← output.appendPiece it.1
  let output ← output.appendPiece (ascii ": ")
  let output ← output.appendPiece it.2
  output.appendPiece (ascii "\r\n")

/-- `AppendToBuffer`; both texts with a number go through `char buf[32]`. -/
def HttpResponse.appendToBuffer (r : HttpResponse) (output : Buffer) : Option Buffer := do
  let buf := bytes (snprintf 32 ("HTTP/1.1 ".toList ++ decimal r.statusCode.code ++ " ".toList))
  let output ← output.appendPiece buf
  let output ← output.appendPiece r.statusMessage
  let output ← output.appendPiece (ascii "\r\n")
  let output ←
    if !r.keepalive then output.appendPiece (ascii "Connection: close\r\n")
    else do
      let buf := bytes (snprintf 32
        ("Content-Length: ".toList ++ decimal r.body.length ++ "\r\n".toList))
      let output ← output.appendPiece buf
      output.appendPiece (ascii "Connection: Keep-Alive\r\n")
  let output ← r.headers.toList.foldlM appendHeader output
  let output ← output.appendPiece (ascii "\r\n")
  output.appendPiece r.body

/-! ### A reader of responses -/

/-- The number that a text of digits stands for. -/
def readNumber (text : List UInt8) : Option ℕ :=
  readDecimal (text.map fun b => Char.ofNat b.toNat)

/-- The status line: the version, the code up to the next space, the message. -/
def decodeStatusLine (line : List UInt8) : Option (HttpStatusCode × List UInt8) := do
  let (version, line) ← cut (ascii " ") line
  let (code, statusMessage) ← cut (ascii " ") line
  let number ← readNumber code
  let statusCode ← [.kUnknown, .k200Ok, .k301MovedPermanently, .k400BadRequest, .k404NotFound].find?
    fun c : HttpStatusCode => c.code = number
  if version = ascii "HTTP/1.1" then some (statusCode, statusMessage) else none

/-- Header lines up to the empty line, each cut at its first `": "`. -/
def decodeFields (s : List UInt8) : Option (List (List UInt8 × List UInt8) × List UInt8) :=
  match h : cut kCRLF s with
  | none => none
  | some (line, rest) =>
    have := cut_length_lt kCRLF_ne_nil h
    if line = [] then some ([], rest)
    else
      match cut (ascii ": ") line with
      | none => none
      | some field => (decodeFields rest).map fun r => (field :: r.1, r.2)
termination_by s.length

theorem decodeFields_some {s line rest : List UInt8} (h : cut kCRLF s = some (line, rest)) :
    decodeFields s =
      if line = [] then some ([], rest)
      else
        match cut (ascii ": ") line with
        | none => none
        | some field => (decodeFields rest).map fun r => (field :: r.1, r.2) := by
  rw [decodeFields]; split <;> simp_all

/-- The fields that say where a response ends and what comes after it. -/
def Framing (name : List UInt8) : Prop := name = ascii "Content-Length" ∨ name = ascii "Connection"

instance (name : List UInt8) : Decidable (Framing name) := inferInstanceAs (Decidable (_ ∨ _))

/-- **The reader**: the status line up to the first CRLF, the header lines, and as many bytes of body as
the content length says; and the bytes behind. -/
def decode (s : List UInt8) : Option (HttpResponse × List UInt8) := do
  let (line, s) ← cut kCRLF s
  let (statusCode, statusMessage) ← decodeStatusLine line
  let (fields, s) ← decodeFields s
  let text ← fields.lookup (ascii "Content-Length")
  let length ← readNumber text
  let headers := headerMap (fields.filter fun f => ¬ Framing f.1)
  let keepalive : Bool := fields.lookup (ascii "Connection") = some (ascii "Keep-Alive")
  if length ≤ s.length then
    some ({ headers, statusCode, statusMessage, keepalive, body := s.take length }, s.drop length)
  else none

/-! ### What is written -/

theorem ascii_crlf : ascii "\r\n" = kCRLF := by decide

theorem bytes_append (s t : List Char) : bytes (s ++ t) = bytes s ++ bytes t := List.map_append

theorem toNat_of_isDigit {c : Char} (h : c.isDigit) : 48 ≤ c.toNat ∧ c.toNat ≤ 57 := by
  simp only [Char.isDigit, Bool.and_eq_true, decide_eq_true_eq] at h
  exact h

/-- The byte of a digit is its character. -/
theorem toNat_toUInt8_of_isDigit {c : Char} (h : c.isDigit) :
    c.toNat.toUInt8.toNat = c.toNat := by
  have := toNat_of_isDigit h
  exact UInt8.toNat_ofNat_of_lt' (by show c.toNat < 256; omega)

theorem not_mem_bytes_decimal {n : ℕ} {b : UInt8} (h : b < 48 ∨ 57 < b) :
    b ∉ bytes (decimal n) := by
  intro hb
  obtain ⟨c, hc, rfl⟩ := List.mem_map.mp hb
  have hdigit := isDigit_of_mem_decimal hc
  have hrange := toNat_of_isDigit hdigit
  rw [UInt8.lt_iff_toNat_lt, UInt8.lt_iff_toNat_lt, toNat_toUInt8_of_isDigit hdigit] at h
  have h48 : (48 : UInt8).toNat = 48 := rfl
  have h57 : (57 : UInt8).toNat = 57 := rfl
  omega

/-- Bytes of digits are read back. -/
theorem readNumber_decimal (n : ℕ) : readNumber (bytes (decimal n)) = some n := by
  have hchars : (bytes (decimal n)).map (fun b => Char.ofNat b.toNat) = decimal n := by
    rw [bytes, List.map_map]
    refine (List.map_congr_left fun c hc => ?_).trans (List.map_id _)
    simp only [Function.comp_apply, toNat_toUInt8_of_isDigit (isDigit_of_mem_decimal hc),
      Char.ofNat_toNat, id_eq]
  rw [readNumber, hchars, readDecimal_decimal]

namespace HttpResponse

variable (r : HttpResponse)

/-- The fields of a response with keep-alive on, in the order of the text. -/
def fields : List (List UInt8 × List UInt8) :=
  (ascii "Content-Length", bytes (decimal r.body.length)) ::
    (ascii "Connection", ascii "Keep-Alive") :: r.headers.toList

def statusLine : List UInt8 :=
  ascii "HTTP/1.1 " ++ bytes (decimal r.statusCode.code) ++ ascii " " ++ r.statusMessage

/-- The line of a field. -/
def fieldLine (f : List UInt8 × List UInt8) : List UInt8 := f.1 ++ ascii ": " ++ f.2

/-- What `AppendToBuffer` writes with keep-alive on. -/
def text : List UInt8 :=
  r.statusLine ++ kCRLF ++ (endLines (r.fields.map fieldLine) ++ kCRLF ++ r.body)

/-- Lengths that fit an `int`. -/
structure Short : Prop where
  message : r.statusMessage.length < 2 ^ 31
  header : ∀ f ∈ r.headers.toList, f.1.length < 2 ^ 31 ∧ f.2.length < 2 ^ 31
  body : r.body.length < 2 ^ 31

/-- Keep-alive is on, no text contains a CR or LF, no name a colon, and no name is one of those that
`AppendToBuffer` writes itself. -/
structure Plain : Prop where
  keepalive : r.keepalive = true
  message : 13 ∉ r.statusMessage ∧ 10 ∉ r.statusMessage
  name : ∀ f ∈ r.headers.toList, 13 ∉ f.1 ∧ 10 ∉ f.1 ∧ 58 ∉ f.1 ∧ ¬ Framing f.1
  value : ∀ f ∈ r.headers.toList, 13 ∉ f.2 ∧ 10 ∉ f.2

theorem appendHeaders : ∀ (hs : List (List UInt8 × List UInt8)) (output : Buffer),
    (∀ f ∈ hs, f.1.length < 2 ^ 31 ∧ f.2.length < 2 ^ 31) →
      ∃ b, hs.foldlM appendHeader output = some b ∧
        b.peek = output.peek ++ endLines (hs.map fieldLine)
  | [], output, _ => ⟨output, rfl, by simp⟩
  | f :: hs, output, h => by
    obtain ⟨⟨h1, h2⟩, hhs⟩ := List.forall_mem_cons.mp h
    have hstep : appendHeader output f = some
        ((((output.append f.1).append (ascii ": ")).append f.2).append (ascii "\r\n")) := by
      have hsep : (ascii ": ").length < 2 ^ 31 := by decide
      have hend : (ascii "\r\n").length < 2 ^ 31 := by decide
      simp only [appendHeader, Buffer.appendPiece_eq _ h1, Buffer.appendPiece_eq _ h2,
        Buffer.appendPiece_eq _ hsep, Buffer.appendPiece_eq _ hend, Option.bind_eq_bind,
        Option.bind_some]
    obtain ⟨b, hb, hpeek⟩ := appendHeaders hs
      ((((output.append f.1).append (ascii ": ")).append f.2).append (ascii "\r\n")) hhs
    refine ⟨b, ?_, ?_⟩
    · rw [List.foldlM_cons, hstep]
      exact hb
    · simp only [hpeek, Buffer.peek_append, List.map_cons, endLines_cons, fieldLine, ascii_crlf,
        List.append_assoc]

theorem snprintf_status (c : HttpStatusCode) :
    bytes (snprintf 32 ("HTTP/1.1 ".toList ++ decimal c.code ++ " ".toList)) =
      ascii "HTTP/1.1 " ++ bytes (decimal c.code) ++ ascii " " := by
  cases c <;> decide

/-- The buffer has room for a length of 13 digits. -/
theorem snprintf_contentLength {n : ℕ} (h : n < 10 ^ 13) :
    bytes (snprintf 32 ("Content-Length: ".toList ++ decimal n ++ "\r\n".toList)) =
      fieldLine (ascii "Content-Length", bytes (decimal n)) ++ kCRLF := by
  have hdigits : (decimal n).length ≤ 13 := (length_decimal_le_iff (by decide)).mpr h
  rw [snprintf_of_length_lt (by simp; omega), bytes_append, bytes_append]
  rfl

theorem length_bytes_snprintf (t : List Char) : (bytes (snprintf 32 t)).length < 2 ^ 31 := by
  simp only [bytes, snprintf, List.length_map, List.length_take]
  omega

/-- **What `AppendToBuffer` writes.** -/
theorem appendToBuffer_text {r : HttpResponse} (hk : r.keepalive = true) (h : r.Short)
    (output : Buffer) : ∃ b, r.appendToBuffer output = some b ∧ b.peek = output.peek ++ r.text := by
  have hlength := snprintf_contentLength (h.body.trans (by decide))
  have hkeep : ascii "Connection: Keep-Alive\r\n" =
      fieldLine (ascii "Connection", ascii "Keep-Alive") ++ kCRLF := by decide
  have hend : kCRLF.length < 2 ^ 31 := by decide
  have hkeep' : (fieldLine (ascii "Connection", ascii "Keep-Alive") ++ kCRLF).length < 2 ^ 31 := by
    decide
  obtain ⟨b, hb, hpeek⟩ := appendHeaders r.headers.toList _ h.header
  refine ⟨(b.append kCRLF).append r.body, ?_, ?_⟩
  · simp only [appendToBuffer, hk, ascii_crlf, hkeep,
      Buffer.appendPiece_eq _ (length_bytes_snprintf _), Buffer.appendPiece_eq _ h.message,
      Buffer.appendPiece_eq _ hend, Buffer.appendPiece_eq _ hkeep', Bool.not_true, Bool.false_eq_true, if_false,
      Option.bind_eq_bind, Option.bind_some]
    rw [hb, Option.bind_some, Buffer.appendPiece_eq _ h.body]
  · simp only [Buffer.peek_append, hpeek, snprintf_status, hlength]
    simp only [text, statusLine, fields, List.map_cons, endLines_cons, List.append_assoc]

/-! ### Reading it back -/

theorem decodeStatusLine_statusLine : decodeStatusLine r.statusLine =
    some (r.statusCode, r.statusMessage) := by
  have hversion : cut (ascii " ") r.statusLine = some (ascii "HTTP/1.1",
      bytes (decimal r.statusCode.code) ++ ascii " " ++ r.statusMessage) := by
    refine (cut_eq_some (by decide)).mpr ⟨by decide, ?_⟩
    simp only [statusLine, ← List.append_assoc]
    rfl
  have hcode : cut (ascii " ") (bytes (decimal r.statusCode.code) ++ ascii " " ++ r.statusMessage) =
      some (bytes (decimal r.statusCode.code), r.statusMessage) :=
    (cut_eq_some (by decide)).mpr
      ⟨IsSegment.of_not_mem (not_mem_bytes_decimal (Or.inl (by decide))), rfl⟩
  have hfind : [.kUnknown, .k200Ok, .k301MovedPermanently, .k400BadRequest, .k404NotFound].find?
      (fun c : HttpStatusCode => c.code = r.statusCode.code) = some r.statusCode := by
    cases r.statusCode <;> decide
  simp only [decodeStatusLine, hversion, hcode, readNumber_decimal, hfind, Option.bind_eq_bind,
    Option.bind_some, if_true]

/-- The header lines are cut into their fields, whatever comes behind the empty line. -/
theorem decodeFields_fieldLines (s : List UInt8) : ∀ {fs : List (List UInt8 × List UInt8)},
    (∀ f ∈ fs, 13 ∉ f.1 ∧ 58 ∉ f.1 ∧ 13 ∉ f.2) →
      decodeFields (endLines (fs.map fieldLine) ++ kCRLF ++ s) = some (fs, s)
  | [], _ => by
    have hcut : cut kCRLF (kCRLF ++ s) = some ([], s) :=
      (cut_eq_some kCRLF_ne_nil).mpr ⟨by decide, rfl⟩
    rw [List.map_nil, endLines_nil, List.nil_append, decodeFields_some hcut, if_pos rfl]
  | f :: fs, h => by
    obtain ⟨⟨h13, h58, h13'⟩, hfs⟩ := List.forall_mem_cons.mp h
    have hline : 13 ∉ fieldLine f := by
      have hsep : (13 : UInt8) ∉ ascii ": " := by decide
      simp only [fieldLine, List.mem_append, not_or]
      exact ⟨⟨h13, hsep⟩, h13'⟩
    have hcut : cut kCRLF (endLines ((f :: fs).map fieldLine) ++ kCRLF ++ s) =
        some (fieldLine f, endLines (fs.map fieldLine) ++ kCRLF ++ s) :=
      (cut_eq_some kCRLF_ne_nil).mpr
        ⟨IsSegment.of_not_mem hline, by simp only [List.map_cons, endLines_cons, List.append_assoc]⟩
    have hne : fieldLine f ≠ [] := by simp [fieldLine, show ascii ": " = [58, 32] by decide]
    have hfield : cut (ascii ": ") (fieldLine f) = some f :=
      (cut_eq_some (by decide)).mpr ⟨IsSegment.of_not_mem h58, rfl⟩
    rw [decodeFields_some hcut, if_neg hne, hfield, decodeFields_fieldLines s hfs]
    rfl

variable {r}

theorem decode_text (h : r.Plain) (t : List UInt8) : decode (r.text ++ t) = some (r, t) := by
  have hstatus : 13 ∉ r.statusLine := by
    have h1 : (13 : UInt8) ∉ ascii "HTTP/1.1 " := by decide
    have h2 : (13 : UInt8) ∉ ascii " " := by decide
    simp only [statusLine, List.mem_append, not_or]
    exact ⟨⟨⟨h1, not_mem_bytes_decimal (Or.inl (by decide))⟩, h2⟩, h.message.1⟩
  have hline : cut kCRLF (r.text ++ t) = some (r.statusLine,
      endLines (r.fields.map fieldLine) ++ kCRLF ++ (r.body ++ t)) :=
    (cut_eq_some kCRLF_ne_nil).mpr
      ⟨IsSegment.of_not_mem hstatus, by simp only [text, List.append_assoc]⟩
  have hplain : ∀ f ∈ r.fields, 13 ∉ f.1 ∧ 58 ∉ f.1 ∧ 13 ∉ f.2 := by
    intro f hf
    rw [fields, List.mem_cons, List.mem_cons] at hf
    rcases hf with rfl | rfl | hf
    · exact ⟨(by decide : (13 : UInt8) ∉ ascii "Content-Length"),
        (by decide : (58 : UInt8) ∉ ascii "Content-Length"),
        not_mem_bytes_decimal (Or.inl (by decide))⟩
    · decide
    · exact ⟨(h.name f hf).1, (h.name f hf).2.2.1, (h.value f hf).1⟩
  have hfields := decodeFields_fieldLines (r.body ++ t) hplain
  have hlookup : r.fields.lookup (ascii "Content-Length") = some (bytes (decimal r.body.length)) := by
    rw [fields, List.lookup_cons_self]
  have hkeep : r.fields.lookup (ascii "Connection") = some (ascii "Keep-Alive") := by
    rw [fields, List.lookup_cons, List.lookup_cons_self]
    rfl
  have hheaders : r.fields.filter (fun f => ¬ Framing f.1) = r.headers.toList := by
    have hno : ∀ f ∈ r.headers.toList, decide (¬ Framing f.1) = true := fun f hf =>
      decide_eq_true (h.name f hf).2.2.2
    have hlength : Framing (ascii "Content-Length") := Or.inl rfl
    have hconnection : Framing (ascii "Connection") := Or.inr rfl
    simp only [fields, List.filter_cons, hlength, hconnection, not_true_eq_false, decide_false,
      Bool.false_eq_true, if_false, List.filter_eq_self.mpr hno]
  have hlen : r.body.length ≤ (r.body ++ t).length := by simp
  simp only [decode, hline, decodeStatusLine_statusLine, hfields, hlookup, readNumber_decimal,
    hheaders, headerMap, foldl_insert_toList, hkeep, Option.bind_eq_bind, Option.bind_some, if_pos hlen,
    List.take_left, List.drop_left, decide_true]
  rw [← h.keepalive]

end HttpResponse

/-! ### A stream of responses -/

theorem decodeFields_length_le {s : List UInt8} : ∀ {fs : List (List UInt8 × List UInt8)}
    {rest : List UInt8}, decodeFields s = some (fs, rest) → rest.length ≤ s.length := by
  induction s using decodeFields.induct with
  | case1 s hcut =>
    intro fs rest h
    rw [decodeFields] at h
    split at h <;> simp_all
  | case2 s rest' hcut =>
    intro fs rest h
    have hlt := cut_length_lt kCRLF_ne_nil hcut
    rw [decodeFields_some hcut, if_pos rfl, Option.some.injEq, Prod.mk.injEq] at h
    rw [← h.2]
    exact hlt.le
  | case3 s line rest' hcut hlt hne hnone =>
    intro fs rest h
    rw [decodeFields_some hcut, if_neg hne, hnone] at h
    cases h
  | case4 s line rest' hcut hlt hne field hfield ih =>
    intro fs rest h
    rw [decodeFields_some hcut, if_neg hne, hfield, Option.map_eq_some_iff] at h
    obtain ⟨⟨fs', r⟩, hr, he⟩ := h
    have hle : r.length ≤ rest'.length := ih hr
    simp only [Prod.mk.injEq] at he
    rw [← he.2]
    omega

theorem decode_length_lt {s rest : List UInt8} {r : HttpResponse} (h : decode s = some (r, rest)) :
    rest.length < s.length := by
  unfold decode at h
  obtain ⟨⟨line, s₁⟩, hcut, h⟩ := Option.bind_eq_some_iff.mp h
  obtain ⟨⟨statusCode, statusMessage⟩, -, h⟩ := Option.bind_eq_some_iff.mp h
  obtain ⟨⟨fields, s₂⟩, hfields, h⟩ := Option.bind_eq_some_iff.mp h
  obtain ⟨text, -, h⟩ := Option.bind_eq_some_iff.mp h
  obtain ⟨length, -, h⟩ := Option.bind_eq_some_iff.mp h
  have hlt := cut_length_lt kCRLF_ne_nil hcut
  have hle := decodeFields_length_le hfields
  by_cases hbody : length ≤ s₂.length
  · simp only [if_pos hbody, Option.some.injEq, Prod.mk.injEq] at h
    rw [← h.2, List.length_drop]
    omega
  · simp [if_neg hbody] at h

/-- Responses up to the end of the stream. -/
def decodeAll (s : List UInt8) : Option (List HttpResponse) :=
  if s = [] then some []
  else
    match h : decode s with
    | none => none
    | some (r, rest) =>
      have := decode_length_lt h
      (decodeAll rest).map (r :: ·)
termination_by s.length

theorem decodeAll_some {s rest : List UInt8} {r : HttpResponse} (h : decode s = some (r, rest)) :
    decodeAll s = (decodeAll rest).map (r :: ·) := by
  have hne : s ≠ [] := by
    rintro rfl
    simpa using decode_length_lt h
  rw [decodeAll, if_neg hne]
  split <;> simp_all

theorem decodeAll_texts : ∀ {rs : List HttpResponse}, (∀ r ∈ rs, r.Plain) →
    decodeAll (rs.map HttpResponse.text).flatten = some rs
  | [], _ => by simp [decodeAll]
  | r :: rs, h => by
    obtain ⟨hr, hrs⟩ := List.forall_mem_cons.mp h
    rw [List.map_cons, List.flatten_cons, decodeAll_some (HttpResponse.decode_text hr _),
      decodeAll_texts hrs, Option.map_some]

theorem appendAll_texts : ∀ {rs : List HttpResponse} (output : Buffer),
    (∀ r ∈ rs, r.keepalive = true ∧ r.Short) →
      ∃ b, rs.foldlM (fun output r => r.appendToBuffer output) output = some b ∧
        b.peek = output.peek ++ (rs.map HttpResponse.text).flatten
  | [], output, _ => ⟨output, rfl, by simp⟩
  | r :: rs, output, h => by
    obtain ⟨⟨hk, hr⟩, hrs⟩ := List.forall_mem_cons.mp h
    obtain ⟨b₁, hb₁, hpeek₁⟩ := HttpResponse.appendToBuffer_text hk hr output
    obtain ⟨b, hb, hpeek⟩ := appendAll_texts b₁ hrs
    refine ⟨b, ?_, ?_⟩
    · rw [List.foldlM_cons, hb₁]
      exact hb
    · rw [hpeek, hpeek₁, List.map_cons, List.flatten_cons, List.append_assoc]

/-- **Responses delimit themselves.** What `AppendToBuffer` writes is read back as the response, with
the bytes behind it left over; a list of responses written one after the other is read back. -/
theorem decode_appendToBuffer :
    (∀ r : HttpResponse, r.Plain → r.Short → ∀ (output : Buffer) (t : List UInt8),
      ∃ b w, r.appendToBuffer output = some b ∧ b.peek = output.peek ++ w ∧
        decode (w ++ t) = some (r, t)) ∧
    ∀ rs : List HttpResponse, (∀ r ∈ rs, r.Plain ∧ r.Short) → ∀ output : Buffer,
      ∃ b w, rs.foldlM (fun output r => r.appendToBuffer output) output = some b ∧
        b.peek = output.peek ++ w ∧ decodeAll w = some rs := by
  constructor
  · intro r hplain hshort output t
    obtain ⟨b, hb, hpeek⟩ := HttpResponse.appendToBuffer_text hplain.keepalive hshort output
    exact ⟨b, r.text, hb, hpeek, HttpResponse.decode_text hplain t⟩
  · intro rs h output
    obtain ⟨b, hb, hpeek⟩ := appendAll_texts output fun r hr => ⟨(h r hr).1.keepalive, (h r hr).2⟩
    exact ⟨b, _, hb, hpeek, decodeAll_texts fun r hr => (h r hr).1⟩

/-- Two responses, one with a CRLF CRLF in its body. -/
theorem decode_appendToBuffer_of_two :
    let ok : HttpResponse :=
      { headers := Std.ExtTreeMap.insert ∅ (ascii "Server") (ascii "Muduo")
        statusCode := .k200Ok, statusMessage := ascii "OK", keepalive := true
        body := ascii "a\r\n\r\nb" }
    let notFound : HttpResponse :=
      { statusCode := .k404NotFound, statusMessage := ascii "Not Found", keepalive := true }
    ∃ b w, [ok, notFound].foldlM (fun output r => r.appendToBuffer output) Buffer.new = some b ∧
      b.peek = Buffer.new.peek ++ w ∧ decodeAll w = some [ok, notFound] := by
  intro ok notFound
  have hok : ok.Plain ∧ ok.Short :=
    ⟨⟨rfl, by decide, by decide, by decide⟩, ⟨by decide, by decide, by decide⟩⟩
  have hnotFound : notFound.Plain ∧ notFound.Short :=
    ⟨⟨rfl, by decide, by decide, by decide⟩, ⟨by decide, by decide, by decide⟩⟩
  exact decode_appendToBuffer.2 [ok, notFound]
    (List.forall_mem_cons.mpr ⟨hok, by simpa using hnotFound⟩) Buffer.new

/-- A response with a message of `n` bytes. -/
def withMessage (n : ℕ) : HttpResponse :=
  { keepalive := true, statusMessage := List.replicate n 97 }

theorem length_withMessage (n : ℕ) : (withMessage n).statusMessage.length = n :=
  List.length_replicate

theorem plain_withMessage (n : ℕ) : (withMessage n).Plain := by
  refine ⟨rfl, ?_, by simp [withMessage], by simp [withMessage]⟩
  constructor <;> exact fun h => absurd (List.eq_of_mem_replicate h) (by decide)

theorem short_withMessage {n : ℕ} (h : n < 2 ^ 31) : (withMessage n).Short :=
  ⟨by rwa [length_withMessage], by simp [withMessage], by simp [withMessage]⟩

/-- A message whose length is 0 as an `int` is not written. -/
theorem appendToBuffer_withMessage {n : ℕ}
    (h : (UInt64.ofNat n).toUInt32.toInt32.toInt64.toUInt64.toNat = 0) (output : Buffer) :
    (withMessage n).appendToBuffer output = (withMessage 0).appendToBuffer output := by
  have hpiece : ∀ b : Buffer, b.appendPiece (withMessage n).statusMessage =
      b.appendPiece (withMessage 0).statusMessage := by
    intro b
    rw [b.appendPiece_of_zero (by rwa [length_withMessage]), b.appendPiece_of_zero (by rfl)]
  simp only [HttpResponse.appendToBuffer, hpiece]
  rfl

/-- With a message of `2 ^ 32` bytes the reader finds none. -/
theorem appendToBuffer_drops_message :
    (withMessage (2 ^ 32)).Plain ∧ (withMessage (2 ^ 32)).body.length < 2 ^ 31 ∧
      ¬ ∃ b, (withMessage (2 ^ 32)).appendToBuffer Buffer.new = some b ∧
        decode b.peek = some (withMessage (2 ^ 32), []) := by
  have hzero : (UInt64.ofNat (2 ^ 32)).toUInt32.toInt32.toInt64.toUInt64.toNat = 0 := by decide
  refine ⟨plain_withMessage _, by rw [withMessage]; decide, ?_⟩
  rintro ⟨b, hb, hdecode⟩
  obtain ⟨b', hb', hpeek⟩ := HttpResponse.appendToBuffer_text (r := withMessage 0) rfl
    (short_withMessage (by decide)) Buffer.new
  rw [appendToBuffer_withMessage hzero, hb', Option.some.injEq] at hb
  subst hb
  have hread := HttpResponse.decode_text (plain_withMessage 0) []
  rw [List.append_nil] at hread
  rw [hpeek, Buffer.peek_new, List.nil_append, hread, Option.some.injEq, Prod.mk.injEq] at hdecode
  have hlength := congrArg (fun r => r.statusMessage.length) hdecode.1
  rw [length_withMessage, length_withMessage] at hlength
  omega

end Http

end MuduoCpp11.Net
