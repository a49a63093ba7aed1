import MuduoCpp11.Lib.Fields
import MuduoCpp11.Net.Http.HttpServer

/-! # Request lines

`ProcessRequestLine` accepts a line exactly when it is a known method, a target without a space and
`HTTP/1.0` or `HTTP/1.1`, with a space between them; the bytes determine the three parts, and the
fields of the request are read off them (`processRequestLine_fields`). On a line that it does not
accept, what matters is whether the line names a known method: if so the method stays set behind the
failure (`processRequestLine_of_not_isRequestLine`), otherwise the request is left as it was
(`processRequestLine_of_not_namesMethod`). With a method set, any line with a space runs into the
assertion of `set_method` (`processRequestLine_of_set`). -/

namespace MuduoCpp11.Net.Http

open MuduoCpp11.Lib MuduoCpp11.Lib.Fields

/-- The protocol token of a version. -/
def versionText : Version → List UInt8
  | .kHttp10 => ascii "HTTP/1.0"
  | .kHttp11 => ascii "HTTP/1.1"
  | .kUnknown => []

/-- The line consists of the method `m`, the target and the version `v`. -/
structure RequestLine (line m target : List UInt8) (v : Version) : Prop where
  eq : line = m ++ 32 :: (target ++ 32 :: versionText v)
  method : methodOf m ≠ .kInvalid
  target : 32 ∉ target
  version : v ≠ .kUnknown

def IsRequestLine (line : List UInt8) : Prop := ∃ m target v, RequestLine line m target v

/-- The line begins with a known method and a space. -/
def NamesMethod (line : List UInt8) : Prop := ∃ m r, line = m ++ 32 :: r ∧ methodOf m ≠ .kInvalid

theorem not_space_mem_of_methodOf {m : List UInt8} (h : methodOf m ≠ .kInvalid) : 32 ∉ m := by
  unfold methodOf at h
  split_ifs at h with h1 h2 h3 h4 h5
  · subst h1; decide
  · subst h2; decide
  · subst h3; decide
  · subst h4; decide
  · subst h5; decide
  · exact absurd rfl h

/-- The test of the protocol token, by its last character. -/
theorem eq_token_iff {p : List UInt8} {d : UInt8} :
    (p.length = 8 ∧ p.take 7 = ascii "HTTP/1.") ∧ p[7]? = some d ↔ p = ascii "HTTP/1." ++ [d] := by
  constructor
  · rintro ⟨⟨hl, ht⟩, hd⟩
    obtain ⟨h7, hd⟩ := List.getElem?_eq_some_iff.mp hd
    rw [← List.take_append_drop 7 p, ht, List.drop_eq_getElem_cons h7, hd,
      List.drop_eq_nil_of_le (by omega)]
  · rintro rfl
    have hl : (ascii "HTTP/1.").length = 7 := by decide
    refine ⟨⟨by simp [hl], ?_⟩, ?_⟩
    · rw [← hl, List.take_left]
    · rw [← hl, List.getElem?_append_right le_rfl]; simp

/-! ### With no method set -/

section unset

variable {context : HttpContext} (hm : context.request.method = .kInvalid)
include hm

theorem processRequestLine_of_not_namesMethod {line : List UInt8} (h : ¬ NamesMethod line) :
    processRequestLine line context = .returned (false, context) := by
  by_cases hs : 32 ∈ line
  · obtain ⟨m, r, rfl, h32⟩ := List.eq_append_cons_of_mem hs
    have hinv : methodOf m = .kInvalid := by
      by_contra hne
      exact h ⟨m, r, rfl, hne⟩
    have hreq : ({ context.request with method := .kInvalid } : HttpRequest) = context.request := by
      rw [← hm]
    simp [processRequestLine, idxOf_append_cons h32, HttpRequest.setMethod, hm, hinv, hreq]
  · simp [processRequestLine, List.idxOf_eq_length_iff.mpr hs]

/-- Behind a known method, without a second space. -/
theorem processRequestLine_no_target {m r : List UInt8} (hk : methodOf m ≠ .kInvalid)
    (h32 : 32 ∉ r) :
    processRequestLine (m ++ 32 :: r) context =
      .returned (false, { context with request := { context.request with method := methodOf m } }) := by
  simp [processRequestLine, idxOf_append_cons (not_space_mem_of_methodOf hk), HttpRequest.setMethod,
    hm, hk, List.idxOf_eq_length_iff.mpr h32]

/-- Behind a known method and a target. -/
theorem processRequestLine_target {m target p : List UInt8} (hk : methodOf m ≠ .kInvalid)
    (h32 : 32 ∉ target) :
    processRequestLine (m ++ 32 :: (target ++ 32 :: p)) context =
      let request := setTarget { context.request with method := methodOf m } target
      if p = versionText .kHttp11 then
        .returned (true, { context with request := request.setVersion .kHttp11 })
      else if p = versionText .kHttp10 then
        .returned (true, { context with request := request.setVersion .kHttp10 })
      else .returned (false, { context with request }) := by
  have h11 := eq_token_iff (p := p) (d := 49)
  have h10 := eq_token_iff (p := p) (d := 48)
  rw [show ascii "HTTP/1." ++ [49] = versionText .kHttp11 by decide] at h11
  rw [show ascii "HTTP/1." ++ [48] = versionText .kHttp10 by decide] at h10
  have hcall : processRequestLine (m ++ 32 :: (target ++ 32 :: p)) context =
      let request := setTarget { context.request with method := methodOf m } target
      if p.length = 8 ∧ p.take 7 = ascii "HTTP/1." then
        if p[7]? = some 49 then
          .returned (true, { context with request := request.setVersion .kHttp11 })
        else if p[7]? = some 48 then
          .returned (true, { context with request := request.setVersion .kHttp10 })
        else .returned (false, { context with request })
      else .returned (false, { context with request }) := by
    simp [processRequestLine, idxOf_append_cons (not_space_mem_of_methodOf hk),
      idxOf_append_cons h32, HttpRequest.setMethod, hm, hk]
  rw [hcall]
  simp only [← h11, ← h10]
  by_cases htoken : p.length = 8 ∧ p.take 7 = ascii "HTTP/1." <;> simp [htoken]

theorem processRequestLine_of_requestLine {line m target : List UInt8} {v : Version}
    (h : RequestLine line m target v) :
    processRequestLine line context = .returned (true, { context with
      request := (setTarget { context.request with method := methodOf m } target).setVersion v }) := by
  rw [h.eq, processRequestLine_target hm h.method h.target]
  cases v with
  | kHttp11 => simp
  | kHttp10 =>
    have hne : versionText .kHttp10 ≠ versionText .kHttp11 := by decide
    simp [hne]
  | kUnknown => exact absurd rfl h.version

/-- A known method stays set when the rest of the line is rejected. -/
theorem processRequestLine_of_not_isRequestLine {line : List UInt8} (hn : NamesMethod line)
    (h : ¬ IsRequestLine line) :
    ∃ c, processRequestLine line context = .returned (false, c) ∧ c.request.method ≠ .kInvalid := by
  obtain ⟨m, r, rfl, hk⟩ := hn
  by_cases hs : 32 ∈ r
  · obtain ⟨target, p, rfl, h32⟩ := List.eq_append_cons_of_mem hs
    have h11 : p ≠ versionText .kHttp11 := fun hp => h ⟨m, target, _, by rw [hp], hk, h32, by simp⟩
    have h10 : p ≠ versionText .kHttp10 := fun hp => h ⟨m, target, _, by rw [hp], hk, h32, by simp⟩
    have hcall := processRequestLine_target (p := p) hm hk h32
    simp only [if_neg h11, if_neg h10] at hcall
    refine ⟨_, hcall, ?_⟩
    simp only [setTarget]
    split_ifs <;> exact hk
  · exact ⟨_, processRequestLine_no_target hm hk hs, hk⟩

theorem processRequestLine_succeeds_iff {line : List UInt8} :
    (∃ c, processRequestLine line context = .returned (true, c)) ↔ IsRequestLine line := by
  constructor
  · rintro ⟨c, hc⟩
    by_contra hline
    by_cases hn : NamesMethod line
    · obtain ⟨c', hc', -⟩ := processRequestLine_of_not_isRequestLine hm hn hline
      simp [hc'] at hc
    · simp [processRequestLine_of_not_namesMethod hm hn] at hc
  · rintro ⟨m, target, v, hl⟩
    exact ⟨_, processRequestLine_of_requestLine hm hl⟩

end unset

/-! ### The parts of an accepted line -/

/-- The methods by name. -/
def methodNames : List (List UInt8 × Method) :=
  [(ascii "GET", .kGet), (ascii "POST", .kPost), (ascii "HEAD", .kHead), (ascii "PUT", .kPut),
    (ascii "DELETE", .kDelete)]

/-- The versions by their last digit. -/
def versionDigits : List (UInt8 × Version) := [(48, .kHttp10), (49, .kHttp11)]

/-- The line is `M T HTTP/1.d`. -/
structure Splits (l M T : List UInt8) (d : UInt8) : Prop where
  eq : l = M ++ ascii " " ++ T ++ ascii " " ++ ascii "HTTP/1." ++ [d]
  method : M ∈ methodNames.map Prod.fst
  target : 32 ∉ T
  digit : d ∈ versionDigits.map Prod.fst

theorem mem_methodNames_iff {m : List UInt8} {k : Method} :
    (m, k) ∈ methodNames ↔ methodOf m = k ∧ k ≠ .kInvalid := by
  constructor
  · intro h
    simp only [methodNames, List.mem_cons, Prod.mk.injEq, List.not_mem_nil, or_false] at h
    rcases h with ⟨rfl, rfl⟩ | ⟨rfl, rfl⟩ | ⟨rfl, rfl⟩ | ⟨rfl, rfl⟩ | ⟨rfl, rfl⟩ <;> decide
  · rintro ⟨rfl, h⟩
    unfold methodOf at h ⊢
    split_ifs at h ⊢ with h1 h2 h3 h4 h5
    · subst h1; decide
    · subst h2; decide
    · subst h3; decide
    · subst h4; decide
    · subst h5; decide
    · exact absurd rfl h

theorem mem_map_methodNames_iff {m : List UInt8} :
    m ∈ methodNames.map Prod.fst ↔ methodOf m ≠ .kInvalid := by
  constructor
  · rw [List.mem_map]
    rintro ⟨⟨m, k⟩, hmem, rfl⟩
    obtain ⟨rfl, hk⟩ := mem_methodNames_iff.mp hmem
    exact hk
  · exact fun h => List.mem_map_of_mem (f := Prod.fst) (mem_methodNames_iff.mpr ⟨rfl, h⟩)

theorem versionText_of_digit {d : UInt8} {v : Version} (h : (d, v) ∈ versionDigits) :
    ascii "HTTP/1." ++ [d] = versionText v ∧ v ≠ .kUnknown := by
  simp only [versionDigits, List.mem_cons, Prod.mk.injEq, List.not_mem_nil, or_false] at h
  rcases h with ⟨rfl, rfl⟩ | ⟨rfl, rfl⟩ <;> decide

theorem exists_digit {v : Version} (h : v ≠ .kUnknown) : ∃ d, (d, v) ∈ versionDigits := by
  cases v with
  | kUnknown => exact absurd rfl h
  | kHttp10 => exact ⟨48, by decide⟩
  | kHttp11 => exact ⟨49, by decide⟩

/-- A request line with a named version is one with its digit. -/
theorem splits_iff {l M T : List UInt8} {d : UInt8} :
    Splits l M T d ↔ ∃ v, (d, v) ∈ versionDigits ∧ RequestLine l M T v := by
  have hspace : ascii " " = [32] := by decide
  constructor
  · rintro ⟨heq, hM, hT, hd⟩
    obtain ⟨⟨d, v⟩, hmem, rfl⟩ := List.mem_map.mp hd
    obtain ⟨htext, hv⟩ := versionText_of_digit hmem
    refine ⟨v, hmem, ?_, mem_map_methodNames_iff.mp hM, hT, hv⟩
    rw [heq, ← htext, hspace]
    simp
  · rintro ⟨v, hmem, hl⟩
    refine ⟨?_, mem_map_methodNames_iff.mpr hl.method, hl.target,
      List.mem_map_of_mem (f := Prod.fst) hmem⟩
    rw [hl.eq, ← (versionText_of_digit hmem).1, hspace]
    simp

theorem isRequestLine_iff_splits {l : List UInt8} :
    IsRequestLine l ↔ ∃ M T d, Splits l M T d := by
  constructor
  · rintro ⟨M, T, v, hl⟩
    obtain ⟨d, hd⟩ := exists_digit hl.version
    exact ⟨M, T, d, splits_iff.mpr ⟨v, hd, hl⟩⟩
  · rintro ⟨M, T, d, hs⟩
    obtain ⟨v, -, hl⟩ := splits_iff.mp hs
    exact ⟨M, T, v, hl⟩

/-- The bytes of an accepted line determine its parts. -/
theorem Splits.unique {l M T M' T' : List UInt8} {d d' : UInt8} (h : Splits l M T d)
    (h' : Splits l M' T' d') : M' = M ∧ T' = T ∧ d' = d := by
  have hspace : ascii " " = [32] := by decide
  have heq := h'.eq.symm.trans h.eq
  simp only [hspace, List.append_assoc, List.singleton_append] at heq
  obtain ⟨hM, hrest⟩ := append_cons_inj
    (not_space_mem_of_methodOf (mem_map_methodNames_iff.mp h'.method))
    (not_space_mem_of_methodOf (mem_map_methodNames_iff.mp h.method)) heq
  obtain ⟨hT, hversion⟩ := append_cons_inj h'.target h.target hrest
  exact ⟨hM, hT, by simpa using hversion⟩

/-- The target with a `'?'` is cut in front of the first one. -/
theorem setTarget_append_cons (r : HttpRequest) {path : List UInt8} (hp : 63 ∉ path)
    (q : List UInt8) : setTarget r (path ++ 63 :: q) = (r.setPath path).setQuery (63 :: q) := by
  simp [setTarget, idxOf_append_cons hp]

/-- Without one it is the path, and the query stays as it was. -/
theorem setTarget_of_not_mem (r : HttpRequest) {T : List UInt8} (h : 63 ∉ T) :
    setTarget r T = r.setPath T := by
  simp [setTarget, List.idxOf_eq_length_iff.mpr h]

/-- **The request line.** With no method set, `ProcessRequestLine` succeeds on a line exactly when it
is a known method, a target without a space and a known version; the three are unique, the method and
the version become theirs, and the target becomes the path up to its first `'?'` and the query from
there on. Without a `'?'` the query is left alone; it is empty on every connection that has no method
set (`query_eq_nil_of_deliverAll`). -/
theorem processRequestLine_fields (context : HttpContext) (hm : context.request.method = .kInvalid)
    (l : List UInt8) :
    ((∃ c, processRequestLine l context = .returned (true, c)) ↔ ∃ M T d, Splits l M T d) ∧
    ∀ M T d, Splits l M T d →
      (∀ M' T' d', Splits l M' T' d' → M' = M ∧ T' = T ∧ d' = d) ∧
      ∀ c, processRequestLine l context = .returned (true, c) →
        (M, c.request.method) ∈ methodNames ∧ (d, c.request.version) ∈ versionDigits ∧
        63 ∉ c.request.path ∧ (63 ∉ T → c.request.query = context.request.query) ∧
        (63 ∈ T ∨ context.request.query = [] →
          c.request.path ++ c.request.query = T ∧
          (c.request.query ≠ [] → c.request.query.head? = some 63)) := by
  refine ⟨?_, fun M T d hs => ⟨fun M' T' d' hs' => hs.unique hs', fun c hc => ?_⟩⟩
  · rw [← isRequestLine_iff_splits]
    exact processRequestLine_succeeds_iff hm
  · obtain ⟨v, hd, hl⟩ := splits_iff.mp hs
    rw [processRequestLine_of_requestLine hm hl] at hc
    simp only [Outcome.returned.injEq, Prod.mk.injEq, true_and] at hc
    subst hc
    by_cases hq : 63 ∈ T
    · obtain ⟨path, q, rfl, hp⟩ := List.eq_append_cons_of_mem hq
      simp only [setTarget_append_cons _ hp]
      exact ⟨mem_methodNames_iff.mpr ⟨rfl, hl.method⟩, hd, hp, fun h => absurd hq h,
        fun _ => ⟨rfl, fun _ => rfl⟩⟩
    · simp only [setTarget_of_not_mem _ hq]
      refine ⟨mem_methodNames_iff.mpr ⟨rfl, hl.method⟩, hd, hq, fun _ => rfl, fun h => ?_⟩
      have hempty : context.request.query = [] := h.resolve_left hq
      simp [HttpRequest.setPath, HttpRequest.setVersion, hempty]

/-- On `"GET /a?b=1 HTTP/1.1"` of a new connection. -/
theorem processRequestLine_fields_of_get :
    ∃ c, processRequestLine (ascii "GET /a?b=1 HTTP/1.1") (HttpContext.new []) =
        .returned (true, c) ∧ (ascii "GET", c.request.method) ∈ methodNames ∧
      (49, c.request.version) ∈ versionDigits ∧
      c.request.path ++ c.request.query = ascii "/a?b=1" := by
  have hs : Splits (ascii "GET /a?b=1 HTTP/1.1") (ascii "GET") (ascii "/a?b=1") 49 :=
    ⟨by decide, by decide, by decide, by decide⟩
  obtain ⟨hiff, hparts⟩ := processRequestLine_fields (HttpContext.new []) rfl
    (ascii "GET /a?b=1 HTTP/1.1")
  obtain ⟨c, hc⟩ := hiff.mpr ⟨_, _, _, hs⟩
  obtain ⟨hmethod, hversion, -, -, htarget⟩ := (hparts _ _ _ hs).2 c hc
  exact ⟨c, hc, hmethod, hversion, (htarget (Or.inr rfl)).1⟩

/-! ### With a method set -/

/-- Any line with a space fails the assertion; a line without one changes nothing. -/
theorem processRequestLine_of_set {context : HttpContext} (hm : context.request.method ≠ .kInvalid)
    (line : List UInt8) :
    processRequestLine line context =
      if 32 ∈ line then .aborted else .returned (false, context) := by
  have hidx : line.idxOf 32 ≠ line.length ↔ 32 ∈ line := by
    rw [ne_eq, List.idxOf_eq_length_iff, not_not]
  simp only [processRequestLine, HttpRequest.setMethod, if_neg hm, hidx, Outcome.aborted_bind]

/-- A query comes with a method. -/
def HttpContext.Tidy (context : HttpContext) : Prop :=
  context.request.method = .kInvalid → context.request.query = []

theorem processRequestLine_tidy {line : List UInt8} {context : HttpContext}
    {r : Bool × HttpContext} (h : processRequestLine line context = .returned r)
    (ht : context.Tidy) : r.2.Tidy := by
  by_cases hm : context.request.method = .kInvalid
  · by_cases hn : NamesMethod line
    · by_cases hline : IsRequestLine line
      · obtain ⟨m, target, v, hl⟩ := hline
        rw [processRequestLine_of_requestLine hm hl, Outcome.returned.injEq] at h
        subst h
        intro hinv
        simp only [HttpRequest.setVersion, setTarget] at hinv
        split_ifs at hinv <;> exact absurd hinv hl.method
      · obtain ⟨c, hc, hne⟩ := processRequestLine_of_not_isRequestLine hm hn hline
        rw [hc, Outcome.returned.injEq] at h
        subst h
        exact fun hinv => absurd hinv hne
    · rw [processRequestLine_of_not_namesMethod hm hn, Outcome.returned.injEq] at h
      subst h
      exact ht
  · rw [processRequestLine_of_set hm] at h
    split_ifs at h
    rw [Outcome.returned.injEq] at h
    subst h
    exact ht

end MuduoCpp11.Net.Http
