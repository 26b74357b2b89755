import DialServer.Lib.CString
import DialServer.Lib.Http
import Mathlib.Tactic.TFAE

/-!
# Parsing a request

`parse_http_request` cuts the head of a request into words where it stands: a method and a
URI, each up to a blank, a version, up to the end of the line, and then headers, a name up to a
colon and a value up to the end of the line, until a name is empty or there are sixteen of
them. All of this is done by `skip_quoted`, and what it does is said once, for any delimiters
(`DialServer.skipQuoted_eq_iff`): a text is a word, a delimiter and a gap, and the rest.

What can be read is read back from the text it is written as
(`DialServer.parseHttpRequest_text`), and nothing else comes out
(`DialServer.parseHttpRequest_range`).
-/

namespace DialServer

open CLib Http

/-! ### Words -/

/-- `strcspn`. -/
def strcspn (s reject : CStr) : ℕ := (s.bytes.takeWhile (· ∉ reject.bytes)).length

/-- `strspn`. -/
def strspn (s accept : CStr) : ℕ := (s.bytes.takeWhile (· ∈ accept.bytes)).length

/-- `skip_quoted`, without a quote character, as both its callers use it: the word, and where
`*buf` points then. Behind the end of the text there is nothing to skip. -/
def skipQuoted (buf delimiters whitespace : CStr) : CStr × CStr :=
  let endWord := strcspn buf delimiters
  let behind := buf.drop (endWord + 1)
  (buf.take endWord, behind.drop (strspn behind whitespace))

/-- `skip`. -/
def skip (buf delimiters : CStr) : CStr × CStr := skipQuoted buf delimiters delimiters

/-- A text does not start with any of these. -/
def StartsOutside (set text : List UInt8) : Prop := ∀ c ∈ text.head?, c ∉ set

instance (set text : List UInt8) : Decidable (StartsOutside set text) :=
  inferInstanceAs (Decidable (∀ c ∈ text.head?, c ∉ set))

/-- How a text is cut: the word is all there is, or a delimiter and a gap stand between it and
the rest. -/
inductive Cut (delims gaps word rest : List UInt8) : List UInt8 → Prop
  | last : rest = [] → Cut delims gaps word rest word
  | between (d : UInt8) (gap : List UInt8) : d ∈ delims → (∀ c ∈ gap, c ∈ gaps) →
      StartsOutside gaps rest → Cut delims gaps word rest (word ++ d :: (gap ++ rest))

theorem startsOutside_dropWhile (set text : List UInt8) :
    StartsOutside set (text.dropWhile (· ∈ set)) := by
  intro c hc
  have hnot := List.head?_dropWhile_not (· ∈ set) text
  rw [Option.mem_def.mp hc] at hnot
  simpa using hnot

theorem dropWhile_of_startsOutside {set text : List UInt8} (h : StartsOutside set text) :
    text.dropWhile (· ∈ set) = text := by
  cases text with
  | nil => rfl
  | cons c text =>
    have hc : c ∉ set := h c rfl
    exact List.dropWhile_cons_of_neg (by simpa using hc)

/-- What is skipped in front of a text that starts outside is the gap. -/
theorem dropWhile_gap {set gap text : List UInt8} (hgap : ∀ c ∈ gap, c ∈ set)
    (h : StartsOutside set text) : (gap ++ text).dropWhile (· ∈ set) = text := by
  rw [List.dropWhile_append_of_pos fun c hc => by simpa using hgap c hc,
    dropWhile_of_startsOutside h]

/-- What stands behind the longest prefix of its kind. -/
theorem drop_length_takeWhile (p : UInt8 → Bool) (l : List UInt8) :
    l.drop (l.takeWhile p).length = l.dropWhile p := by
  have h := List.prefix_iff_eq_append.mp (List.takeWhile_prefix (l := l) p)
  exact List.append_cancel_left (h.trans List.takeWhile_append_dropWhile.symm)

section Words

variable {buf delimiters whitespace word rest : CStr}

theorem bytes_skipQuoted_fst : (skipQuoted buf delimiters whitespace).1.bytes =
    buf.bytes.takeWhile (· ∉ delimiters.bytes) := by
  have h := List.prefix_iff_eq_take.mp
    (List.takeWhile_prefix (l := buf.bytes) (fun c => decide (c ∉ delimiters.bytes)))
  exact h.symm

theorem bytes_skipQuoted_snd : (skipQuoted buf delimiters whitespace).2.bytes =
    (buf.bytes.dropWhile (· ∉ delimiters.bytes)).tail.dropWhile (· ∈ whitespace.bytes) := by
  simp only [skipQuoted, strcspn, strspn, CStr.bytes_drop]
  rw [drop_length_takeWhile, ← List.drop_drop, drop_length_takeWhile, List.drop_one]

/-- **What `skip_quoted` does**: it cuts the text behind the first word. -/
theorem skipQuoted_eq_iff : skipQuoted buf delimiters whitespace = (word, rest) ↔
    (∀ c ∈ word.bytes, c ∉ delimiters.bytes) ∧
      Cut delimiters.bytes whitespace.bytes word.bytes rest.bytes buf.bytes := by
  rw [Prod.ext_iff, CStr.ext_iff, CStr.ext_iff, bytes_skipQuoted_fst, bytes_skipQuoted_snd]
  constructor
  · rintro ⟨hword, hrest⟩
    have hfree : ∀ c ∈ word.bytes, c ∉ delimiters.bytes := by
      intro c hc
      rw [← hword] at hc
      simpa using List.mem_takeWhile_imp hc
    refine ⟨hfree, ?_⟩
    have hbuf := List.takeWhile_append_dropWhile (p := (· ∉ delimiters.bytes)) (l := buf.bytes)
    rw [hword] at hbuf
    cases hbehind : buf.bytes.dropWhile (· ∉ delimiters.bytes) with
    | nil =>
      rw [hbehind] at hrest hbuf
      rw [← hbuf, List.append_nil]
      exact .last hrest.symm
    | cons d behind =>
      rw [hbehind] at hrest hbuf
      have hd : d ∈ delimiters.bytes := by
        have hnot := List.head?_dropWhile_not (· ∉ delimiters.bytes) buf.bytes
        rw [hbehind] at hnot
        simpa using hnot
      rw [List.tail_cons] at hrest
      rw [← hbuf, ← List.takeWhile_append_dropWhile (p := (· ∈ whitespace.bytes)) (l := behind),
        hrest]
      refine .between d _ hd (fun c hc => by simpa using List.mem_takeWhile_imp hc) ?_
      exact hrest ▸ startsOutside_dropWhile _ _
  · rintro ⟨hfree, hcut⟩
    have hall : ∀ c ∈ word.bytes, decide (c ∉ delimiters.bytes) = true := fun c hc => by
      simpa using hfree c hc
    generalize hb : buf.bytes = text at hcut
    cases hcut with
    | last hrest =>
      rw [List.takeWhile_eq_self_iff.mpr hall, List.dropWhile_eq_nil_iff.mpr hall, hrest]
      exact ⟨rfl, rfl⟩
    | between d gap hd hgap hstart =>
      have hd' : ¬(fun c => decide (c ∉ delimiters.bytes)) d = true := by simpa using hd
      rw [List.takeWhile_append_of_pos hall, List.dropWhile_append_of_pos hall,
        List.takeWhile_cons_of_neg (p := fun c => decide (c ∉ delimiters.bytes)) hd',
        List.dropWhile_cons_of_neg (p := fun c => decide (c ∉ delimiters.bytes)) hd',
        List.append_nil, List.tail_cons, dropWhile_gap hgap hstart]
      exact ⟨rfl, rfl⟩

end Words

/-! ### Requests -/

/-- What `parse_http_request` fills in of `mg_request_info`. -/
structure RequestInfo where
  requestMethod : CStr
  uri : CStr
  httpVersion : CStr
  httpHeaders : List (CStr × CStr)
  deriving DecidableEq

/-- `parse_http_headers`, with room for so many more headers. -/
def parseHttpHeaders : ℕ → CStr → List (CStr × CStr)
  | 0, _ => []
  | room + 1, buf =>
    let (name, buf) := skipQuoted buf (.lit ":") (.lit " ")
    let (value, buf) := skip buf (.lit "\r\n")
    if name.bytes = [] then [] else (name, value) :: parseHttpHeaders room buf

/-- `is_valid_http_method`. -/
def isValidHttpMethod (method : CStr) : Bool :=
  method = .lit "GET" || method = .lit "POST" || method = .lit "DELETE" || method = .lit "OPTIONS"

/-- The number of elements of `http_headers`. -/
def maxHeaders : ℕ := 16

/-- `parse_http_request`. -/
def parseHttpRequest (buf : CStr) : Option RequestInfo :=
  let buf := buf.drop (buf.bytes.takeWhile isspace).length
  let (requestMethod, buf) := skip buf (.lit " ")
  let (uri, buf) := skip buf (.lit " ")
  let (httpVersion, buf) := skip buf (.lit "\r\n")
  if isValidHttpMethod requestMethod && httpVersion.eqN (.lit "HTTP/") 5 then
    some ⟨requestMethod, uri, httpVersion.drop 5, parseHttpHeaders maxHeaders buf⟩
  else none

/-- A header that can be read: its name is not empty, does not start on a new line and has no
colon, and its value is on one line and does not start with a blank. -/
structure ReadableHeader (header : CStr × CStr) : Prop where
  name_ne : header.1.bytes ≠ []
  name_starts : StartsOutside crlf header.1.bytes
  name_word : 58 ∉ header.1.bytes
  value_starts : StartsOutside [32] header.2.bytes
  value_line : OneLine header.2.bytes

/-- A request that can be read. -/
structure RequestInfo.Readable (r : RequestInfo) : Prop where
  method : isValidHttpMethod r.requestMethod = true
  uri_ne : r.uri.bytes ≠ []
  uri_word : 32 ∉ r.uri.bytes
  version_line : OneLine r.httpVersion.bytes
  headers : ∀ header ∈ r.httpHeaders, ReadableHeader header

/-- The line of a header. -/
def headerLine (header : CStr × CStr) : List UInt8 := header.1.bytes ++ [58, 32] ++ header.2.bytes

/-- The line a request starts with. -/
def RequestInfo.line (r : RequestInfo) : List UInt8 :=
  r.requestMethod.bytes ++ 32 :: (r.uri.bytes ++ 32 :: ((CStr.lit "HTTP/").bytes ++
    r.httpVersion.bytes))

/-- The lines of a request. -/
def RequestInfo.lines (r : RequestInfo) : List UInt8 :=
  Http.lines (r.line :: r.httpHeaders.map headerLine)

/-! ### What comes out can be read -/

theorem bytes_crlf : (CStr.lit "\r\n").bytes = crlf := rfl

theorem oneLine_iff {l : List UInt8} : OneLine l ↔ ∀ c ∈ l, c ∉ crlf := by
  constructor
  · rintro ⟨hcr, hlf⟩ c hc hmem
    rcases List.mem_pair.mp hmem with rfl | rfl
    · exact hcr hc
    · exact hlf hc
  · exact fun h => ⟨fun hc => h _ hc (by decide), fun hc => h _ hc (by decide)⟩

/-- The first byte of a word that is not empty is the first byte of the text. -/
theorem Cut.startsOutside {delims gaps word rest text set : List UInt8}
    (h : Cut delims gaps word rest text) (hstart : StartsOutside set text) :
    StartsOutside set word := by
  intro c hc
  cases word with
  | nil => cases hc
  | cons d word =>
    cases h with
    | last => exact hstart c hc
    | between => exact hstart c hc

/-- The rest starts behind the gap. -/
theorem Cut.rest_starts {delims gaps word rest text : List UInt8}
    (h : Cut delims gaps word rest text) : StartsOutside gaps rest := by
  cases h with
  | last hrest => rw [hrest]; exact nofun
  | between _ _ _ _ hstart => exact hstart

/-- **Headers that are read can be read**, and are no more than there is room for. -/
theorem readable_parseHttpHeaders (room : ℕ) {buf : CStr}
    (hstart : StartsOutside crlf buf.bytes) :
    (∀ header ∈ parseHttpHeaders room buf, ReadableHeader header) ∧
      (parseHttpHeaders room buf).length ≤ room := by
  induction room generalizing buf with
  | zero => exact ⟨nofun, le_rfl⟩
  | succ room ih =>
    rw [parseHttpHeaders]
    rcases hname : skipQuoted buf (.lit ":") (.lit " ") with ⟨name, behind⟩
    rcases hvalue : skip behind (.lit "\r\n") with ⟨value, next⟩
    obtain ⟨hcolon, hcut⟩ := skipQuoted_eq_iff.mp hname
    obtain ⟨hline, hcut'⟩ := skipQuoted_eq_iff.mp hvalue
    simp only [hvalue]
    split
    · exact ⟨nofun, Nat.zero_le _⟩
    · rename_i hne
      obtain ⟨hreadable, hlen⟩ := ih hcut'.rest_starts
      refine ⟨fun header hmem => ?_, Nat.succ_le_succ hlen⟩
      rcases List.mem_cons.mp hmem with rfl | hmem
      · exact ⟨hne, hcut.startsOutside hstart, fun hc => hcolon _ hc (by decide),
          hcut'.startsOutside hcut.rest_starts, oneLine_iff.mpr hline⟩
      · exact hreadable header hmem

/-- **A request that is read can be read.** -/
theorem readable_parseHttpRequest {buf : CStr} {r : RequestInfo}
    (h : parseHttpRequest buf = some r) : r.Readable ∧ r.httpHeaders.length ≤ maxHeaders := by
  rw [parseHttpRequest] at h
  rcases hmethod : skip (buf.drop (buf.bytes.takeWhile isspace).length) (.lit " ") with
    ⟨method, behind⟩
  rcases huri : skip behind (.lit " ") with ⟨uri, behind'⟩
  rcases hversion : skip behind' (.lit "\r\n") with ⟨version, fields⟩
  obtain ⟨-, hcut⟩ := skipQuoted_eq_iff.mp hmethod
  obtain ⟨hblank, hcut'⟩ := skipQuoted_eq_iff.mp huri
  obtain ⟨hline, hcut''⟩ := skipQuoted_eq_iff.mp hversion
  simp only [hmethod, huri, hversion] at h
  split at h
  · rename_i hvalid
    rw [Bool.and_eq_true] at hvalid
    cases h
    obtain ⟨hheaders, hlen⟩ := readable_parseHttpHeaders maxHeaders hcut''.rest_starts
    refine ⟨⟨hvalid.1, fun hnil => ?_, fun hc => hblank _ hc (by decide),
      oneLine_iff.mpr fun c hc => hline c (List.mem_of_mem_drop hc), hheaders⟩, hlen⟩
    -- An empty URI is the end of the text, and then there is no version.
    have hend : behind'.bytes = [] := by
      have hstarts := hcut.rest_starts
      generalize hb : behind.bytes = text at hcut' hstarts
      change uri.bytes = [] at hnil
      rw [hnil] at hcut'
      cases hcut' with
      | last hrest => exact hrest
      | between d gap hd => exact absurd hd (hstarts d rfl)
    have hempty : version.bytes = [] := by
      rw [hend] at hcut''
      generalize hb : ([] : List UInt8) = text at hcut''
      cases hcut'' with
      | last => rfl
      | between d gap => exact absurd hb (by simp)
    have hnone : version = ⟨[], List.not_mem_nil⟩ := CStr.ext hempty
    rw [hnone] at hvalid
    exact absurd hvalid.2 (by decide)
  · cases h

/-! ### What can be read is read back -/

theorem isWord_of_isValidHttpMethod {method : CStr} (h : isValidHttpMethod method = true) :
    IsWord method.bytes := by
  simp only [isValidHttpMethod, Bool.or_eq_true, decide_eq_true_iff] at h
  rcases h with ((rfl | rfl) | rfl) | rfl <;> decide +kernel

theorem Cut.mem_of_mem_rest {delims gaps word rest text : List UInt8} {c : UInt8}
    (h : Cut delims gaps word rest text) (hc : c ∈ rest) : c ∈ text := by
  cases h with
  | last hrest => rw [hrest] at hc; cases hc
  | between d gap =>
    exact List.mem_append_right _ (List.mem_cons_of_mem _ (List.mem_append_right _ hc))

/-- A text that can be cut is cut. -/
theorem Cut.skipQuoted_eq {buf delimiters whitespace word : CStr} {rest : List UInt8}
    (h : Cut delimiters.bytes whitespace.bytes word.bytes rest buf.bytes)
    (hfree : ∀ c ∈ word.bytes, c ∉ delimiters.bytes) :
    ∃ next, skipQuoted buf delimiters whitespace = (word, next) ∧ next.bytes = rest :=
  ⟨⟨rest, fun hc => buf.nul_free (h.mem_of_mem_rest hc)⟩, skipQuoted_eq_iff.mpr ⟨hfree, h⟩, rfl⟩

/-- Where `*buf` points behind a line, with `text` to come. -/
def behindLine (text : List UInt8) : List UInt8 := text.dropWhile (· ∈ crlf)

/-- What stands behind a line is cut off. -/
theorem cut_line {delims gaps word : List UInt8} (hcr : 13 ∈ delims) (hgaps : gaps = crlf)
    (text : List UInt8) : Cut delims gaps word (behindLine text) (word ++ crlf ++ text) := by
  subst hgaps
  have hdrop : (10 :: text).dropWhile (· ∈ crlf) = behindLine text :=
    List.dropWhile_cons_of_pos (by decide)
  have hsplit : word ++ crlf ++ text =
      word ++ 13 :: ((10 :: text).takeWhile (· ∈ crlf) ++ behindLine text) := by
    rw [← hdrop, List.takeWhile_append_dropWhile, List.append_assoc]
    rfl
  rw [hsplit]
  exact .between 13 _ hcr (fun c hc => by simpa using List.mem_takeWhile_imp hc)
    (startsOutside_dropWhile _ _)

theorem StartsOutside.append {set word : List UInt8} (h : StartsOutside set word) (hne : word ≠ [])
    (text : List UInt8) : StartsOutside set (word ++ text) := by
  cases word with
  | nil => exact absurd rfl hne
  | cons c word => exact h

/-- A value that does not start with a blank does not on its line either. -/
theorem StartsOutside.line {value : List UInt8} (h : StartsOutside [32] value)
    (text : List UInt8) : StartsOutside [32] (value ++ crlf ++ text) := by
  cases value with
  | nil => exact fun c hc => by cases hc; decide
  | cons c value => exact h

/-- **The headers are read back**, as many as there is room for. -/
theorem parseHttpHeaders_lines {headers : List (CStr × CStr)}
    (hheaders : ∀ header ∈ headers, ReadableHeader header) {tail : List UInt8}
    (htail : ∀ c ∈ tail, c ∈ crlf) (room : ℕ) {buf : CStr}
    (hbuf : buf.bytes = behindLine (Http.lines (headers.map headerLine) ++ tail)) :
    parseHttpHeaders room buf = headers.take room := by
  induction headers generalizing room buf with
  | nil =>
    have hnil : buf.bytes = [] := by
      rw [hbuf]
      exact List.dropWhile_eq_nil_iff.mpr fun c hc => by simpa using htail c hc
    cases room with
    | zero => rfl
    | succ room =>
      have hname : (skipQuoted buf (.lit ":") (.lit " ")).1.bytes = [] := by
        rw [bytes_skipQuoted_fst, hnil]
        rfl
      simp only [parseHttpHeaders]
      rw [if_pos hname, List.take_nil]
  | cons header headers ih =>
    obtain ⟨name, value⟩ := header
    have h := hheaders _ List.mem_cons_self
    cases room with
    | zero => rfl
    | succ room =>
      have htext : buf.bytes = name.bytes ++ 58 :: ([32] ++ (value.bytes ++ crlf ++
          (Http.lines (headers.map headerLine) ++ tail))) := by
        rw [hbuf, behindLine, List.map_cons, lines_cons, headerLine,
          dropWhile_of_startsOutside]
        · simp
        · simp only [List.append_assoc]
          exact h.name_starts.append h.name_ne _
      obtain ⟨behind, hname, hbehind⟩ : ∃ next, skipQuoted buf (.lit ":") (.lit " ") =
          (name, next) ∧ next.bytes = value.bytes ++ crlf ++
            (Http.lines (headers.map headerLine) ++ tail) := by
        refine Cut.skipQuoted_eq ?_ fun c hc hmem => ?_
        · rw [htext]
          exact .between 58 [32] (by decide) (List.forall_mem_singleton.mpr (by decide))
            (h.value_starts.line _)
        · rw [List.mem_singleton.mp hmem] at hc
          exact h.name_word hc
      obtain ⟨next, hvalue, hnext⟩ : ∃ next, skip behind (.lit "\r\n") = (value, next) ∧
          next.bytes = behindLine (Http.lines (headers.map headerLine) ++ tail) := by
        refine Cut.skipQuoted_eq ?_ (oneLine_iff.mp h.value_line)
        rw [hbehind]
        exact cut_line (by decide) bytes_crlf _
      simp only [parseHttpHeaders, hname, hvalue]
      rw [if_neg h.name_ne, List.take_succ_cons,
        ih (fun header hmem => hheaders header (List.mem_cons_of_mem _ hmem)) room hnext]

/-- **A request is read back from its text**, with the headers there is room for. -/
theorem parseHttpRequest_text {r : RequestInfo} (h : r.Readable) {tail : List UInt8}
    (htail : ∀ c ∈ tail, c ∈ crlf) {buf : CStr} (hbuf : buf.bytes = r.lines ++ tail) :
    parseHttpRequest buf = some { r with httpHeaders := r.httpHeaders.take maxHeaders } := by
  have hmethod := isWord_of_isValidHttpMethod h.method
  have hspace : buf.drop (buf.bytes.takeWhile isspace).length = buf := by
    refine CStr.ext ?_
    rw [CStr.bytes_drop, drop_length_takeWhile, hbuf, RequestInfo.lines, lines_cons,
      RequestInfo.line]
    simp only [List.append_assoc]
    exact hmethod.skipSpace_append _
  have hblank : 32 ∉ r.requestMethod.bytes := fun hc =>
    absurd (hmethod.2 32 hc) (by decide)
  have hfields : (r.lines ++ tail) = r.requestMethod.bytes ++ 32 :: ([] ++ (r.uri.bytes ++
      32 :: ([] ++ ((CStr.lit "HTTP/" ++ r.httpVersion).bytes ++ crlf ++
        (Http.lines (r.httpHeaders.map headerLine) ++ tail))))) := by
    rw [RequestInfo.lines, lines_cons, RequestInfo.line, CStr.bytes_append]
    simp
  have huri : ∀ text, StartsOutside [32] (r.uri.bytes ++ text) := by
    refine StartsOutside.append (fun c hc hmem => ?_) h.uri_ne
    rw [List.mem_singleton.mp hmem] at hc
    exact h.uri_word (List.mem_of_mem_head? hc)
  have hversion : OneLine (CStr.lit "HTTP/" ++ r.httpVersion).bytes :=
    OneLine.append (by decide) h.version_line
  obtain ⟨behind, hskip, hbehind⟩ : ∃ next, skip buf (.lit " ") = (r.requestMethod, next) ∧
      next.bytes = r.uri.bytes ++ 32 :: ([] ++ ((CStr.lit "HTTP/" ++ r.httpVersion).bytes ++
        crlf ++ (Http.lines (r.httpHeaders.map headerLine) ++ tail))) := by
    refine Cut.skipQuoted_eq ?_ fun c hc hmem => ?_
    · rw [hbuf, hfields]
      exact .between 32 [] (by decide) nofun (huri _)
    · rw [List.mem_singleton.mp hmem] at hc
      exact hblank hc
  obtain ⟨behind', hskip', hbehind'⟩ : ∃ next, skip behind (.lit " ") = (r.uri, next) ∧
      next.bytes = (CStr.lit "HTTP/" ++ r.httpVersion).bytes ++
        crlf ++ (Http.lines (r.httpHeaders.map headerLine) ++ tail) := by
    refine Cut.skipQuoted_eq ?_ fun c hc hmem => ?_
    · rw [hbehind]
      exact .between 32 [] (by decide) nofun fun c hc => by cases hc; decide
    · rw [List.mem_singleton.mp hmem] at hc
      exact h.uri_word hc
  obtain ⟨fields, hskip'', hnext⟩ : ∃ next, skip behind' (.lit "\r\n") =
      (CStr.lit "HTTP/" ++ r.httpVersion, next) ∧
      next.bytes = behindLine (Http.lines (r.httpHeaders.map headerLine) ++ tail) := by
    refine Cut.skipQuoted_eq ?_ (oneLine_iff.mp hversion)
    rw [hbehind']
    exact cut_line (by decide) bytes_crlf _
  have hdrop : (CStr.lit "HTTP/" ++ r.httpVersion).drop 5 = r.httpVersion := CStr.ext rfl
  have hprefix : (CStr.lit "HTTP/" ++ r.httpVersion).eqN (.lit "HTTP/") 5 = true :=
    CStr.eqN_strlen.mpr (List.prefix_append _ _)
  simp only [parseHttpRequest, hspace, hskip, hskip', hskip'']
  rw [h.method, hprefix, Bool.and_self, if_pos rfl, hdrop,
    parseHttpHeaders_lines h.headers htail _ hnext]

theorem zero_notMem_headerLine (header : CStr × CStr) : (0 : UInt8) ∉ headerLine header := by
  rw [headerLine, List.mem_append, List.mem_append]
  exact not_or.mpr ⟨not_or.mpr ⟨header.1.nul_free, by decide⟩, header.2.nul_free⟩

/-- The text of a request. -/
def RequestInfo.text (r : RequestInfo) : CStr where
  bytes := r.lines
  nul_free h := by
    obtain ⟨line, hline, h⟩ := List.mem_flatMap.mp h
    rcases List.mem_append.mp h with h | h
    · rcases List.mem_cons.mp hline with rfl | hline
      · have hversion := (CStr.lit "HTTP/" ++ r.httpVersion).nul_free
        rw [CStr.bytes_append] at hversion
        simp [RequestInfo.line, r.requestMethod.nul_free, r.uri.nul_free, hversion] at h
      · obtain ⟨header, -, rfl⟩ := List.mem_map.mp hline
        exact zero_notMem_headerLine header h
    · exact absurd h (by decide)

/-- **Which requests come out**: those that can be read, with as many headers as there is room
for; and each of them comes out of its own text. -/
theorem parseHttpRequest_range (r : RequestInfo) :
    [∃ buf, parseHttpRequest buf = some r, r.Readable ∧ r.httpHeaders.length ≤ maxHeaders,
      parseHttpRequest r.text = some r].TFAE := by
  tfae_have 1 → 2 := fun ⟨_, h⟩ => readable_parseHttpRequest h
  tfae_have 2 → 3 := by
    rintro ⟨h, hlen⟩
    have htext : r.text.bytes = r.lines ++ [] := (List.append_nil _).symm
    have hnone : ∀ c ∈ ([] : List UInt8), c ∈ crlf := nofun
    rw [parseHttpRequest_text h hnone htext, List.take_of_length_le hlen]
  tfae_have 3 → 1 := fun h => ⟨_, h⟩
  tfae_finish

end DialServer
