import Mathlib.Data.List.Basic

/-!
# The framing of HTTP messages

A message is a status line, header lines and an empty line, each of them ended by CRLF,
and then a body. `Http.Message` is that grammar, of the whole text and nothing less: a
text in which the empty line is missing is not a message
(`Http.not_message_of_unfinished`), whatever its header lines are, because a line without
a CR can only be cut off where it was put (`Http.line_inj`).

For the same reason a message has one head (`Http.lines_inj`), and what is left of it when it
is cut short is a message if and only if the head is whole (`Http.message_take_iff`).
-/

namespace Http

/-- What ends a line. -/
def crlf : List UInt8 := [13, 10]

/-- Bytes that stay on one line. -/
def OneLine (l : List UInt8) : Prop := 13 ∉ l ∧ 10 ∉ l

instance (l : List UInt8) : Decidable (OneLine l) := instDecidableAnd

/-- The characters of the name of a header. -/
def isTchar (c : UInt8) : Bool :=
  (0x30 ≤ c ∧ c ≤ 0x39) ∨ (0x41 ≤ c ∧ c ≤ 0x5A) ∨ (0x61 ≤ c ∧ c ≤ 0x7A) ∨
    c ∈ [0x21, 0x23, 0x24, 0x25, 0x26, 0x27, 0x2A, 0x2B, 0x2D, 0x2E, 0x5E, 0x5F, 0x60, 0x7C, 0x7E]

/-- A name of a header. -/
def IsToken (name : List UInt8) : Prop := name ≠ [] ∧ name.all isTchar = true

instance (name : List UInt8) : Decidable (IsToken name) := instDecidableAnd

/-- A header line: a name, a colon and a value. -/
def FieldLine (l : List UInt8) : Prop :=
  ∃ name value, l = name ++ 0x3A :: value ∧ IsToken name ∧ OneLine value

/-- A status line: the version, three digits and a reason. -/
def StatusLine (l : List UInt8) : Prop :=
  ∃ code reason, l = [0x48, 0x54, 0x54, 0x50, 0x2F, 0x31, 0x2E, 0x31, 0x20] ++ code ++
    0x20 :: reason ∧ code.length = 3 ∧ (∀ c ∈ code, 0x30 ≤ c ∧ c ≤ 0x39) ∧ OneLine reason

/-- Lines, each of them ended. -/
def lines (ls : List (List UInt8)) : List UInt8 := ls.flatMap (· ++ crlf)

/-- **A complete message.** -/
def Message (text : List UInt8) : Prop :=
  ∃ start fields body, text = start ++ crlf ++ (lines fields ++ (crlf ++ body)) ∧
    StatusLine start ∧ ∀ l ∈ fields, FieldLine l

/-! ### Lines -/

section Lines

variable {l l' rest rest' : List UInt8}

theorem OneLine.append (h : OneLine l) (h' : OneLine l') : OneLine (l ++ l') := by
  rw [OneLine, List.mem_append, List.mem_append]
  exact ⟨not_or.mpr ⟨h.1, h'.1⟩, not_or.mpr ⟨h.2, h'.2⟩⟩

theorem oneLine_append_iff : OneLine (l ++ l') ↔ OneLine l ∧ OneLine l' := by
  simp only [OneLine, List.mem_append, not_or]
  exact and_and_and_comm

/-- Where a line ends is determined by the text. -/
theorem line_inj (h : 13 ∉ l) (h' : 13 ∉ l') (heq : l ++ crlf ++ rest = l' ++ crlf ++ rest') :
    l = l' ∧ rest = rest' := by
  induction l generalizing l' with
  | nil =>
    cases l' with
    | nil => exact ⟨rfl, by simpa [crlf] using heq⟩
    | cons c l' =>
      obtain rfl : 13 = c := (List.cons.inj heq).1
      exact absurd List.mem_cons_self h'
  | cons c l ih =>
    cases l' with
    | nil =>
      obtain rfl : c = 13 := (List.cons.inj heq).1
      exact absurd List.mem_cons_self h
    | cons c' l' =>
      obtain ⟨rfl, htail⟩ := List.cons.inj heq
      obtain ⟨rfl, hrest⟩ := ih (fun hc => h (List.mem_cons_of_mem _ hc))
        (fun hc => h' (List.mem_cons_of_mem _ hc)) htail
      exact ⟨rfl, hrest⟩

theorem lines_cons (l : List UInt8) (ls : List (List UInt8)) :
    lines (l :: ls) = l ++ crlf ++ lines ls := rfl

theorem lines_append (ls ls' : List (List UInt8)) : lines (ls ++ ls') = lines ls ++ lines ls' :=
  List.flatMap_append

/-- A name stays on one line. -/
theorem IsToken.oneLine (h : IsToken l) : OneLine l :=
  ⟨fun hcr => absurd (List.all_eq_true.mp h.2 13 hcr) (by decide),
    fun hlf => absurd (List.all_eq_true.mp h.2 10 hlf) (by decide)⟩

/-- A header line is a line, and not an empty one. -/
theorem FieldLine.oneLine (h : FieldLine l) : OneLine l ∧ l ≠ [] := by
  obtain ⟨name, value, rfl, hname, hvalue⟩ := h
  refine ⟨hname.oneLine.append ?_, by simp⟩
  have hcolon : OneLine [0x3A] := by decide
  exact hcolon.append hvalue

/-- A status line is a line. -/
theorem StatusLine.oneLine (h : StatusLine l) : OneLine l := by
  obtain ⟨code, reason, rfl, -, hdigits, hreason⟩ := h
  have hversion : OneLine [0x48, 0x54, 0x54, 0x50, 0x2F, 0x31, 0x2E, 0x31, 0x20] := by decide
  have hcode : OneLine code :=
    ⟨fun hcr => absurd (hdigits 13 hcr) (by decide), fun hlf => absurd (hdigits 10 hlf) (by decide)⟩
  have hspace : OneLine [0x20] := by decide
  exact (hversion.append hcode).append (hspace.append hreason)

end Lines

/-! ### Messages -/

/-- Lines that are not empty do not spell an empty line. -/
theorem lines_ne {ls fields : List (List UInt8)} (hls : ∀ l ∈ ls, OneLine l ∧ l ≠ [])
    (hfields : ∀ l ∈ fields, OneLine l) (body : List UInt8) :
    lines ls ≠ lines fields ++ (crlf ++ body) := by
  induction ls generalizing fields with
  | nil => cases fields <;> simp [lines, crlf]
  | cons l ls ih =>
    have hl := hls l List.mem_cons_self
    intro heq
    rw [lines_cons] at heq
    cases fields with
    | nil =>
      have heq' : l ++ crlf ++ lines ls = [] ++ crlf ++ body := heq
      exact hl.2 (line_inj hl.1.1 List.not_mem_nil heq').1
    | cons l' fields =>
      rw [lines_cons, List.append_assoc _ (lines fields)] at heq
      have hl' := hfields l' List.mem_cons_self
      exact ih (fun m hm => hls m (List.mem_cons_of_mem _ hm))
        (fun m hm => hfields m (List.mem_cons_of_mem _ hm)) (line_inj hl.1.1 hl'.1 heq).2

/-- **Without the empty line it is no message.** -/
theorem not_message_of_unfinished {start : List UInt8} {ls : List (List UInt8)}
    (hstart : OneLine start) (hls : ∀ l ∈ ls, OneLine l ∧ l ≠ []) :
    ¬Message (start ++ crlf ++ lines ls) := by
  rintro ⟨start', fields, body, heq, hstart', hfields⟩
  exact lines_ne hls (fun l hl => (hfields l hl).oneLine.1) body
    (line_inj hstart.1 hstart'.oneLine.1 heq).2

/-- Where the lines end is determined by the text. -/
theorem lines_inj {fields fields' : List (List UInt8)}
    (hfields : ∀ l ∈ fields, OneLine l ∧ l ≠ [])
    (hfields' : ∀ l ∈ fields', OneLine l ∧ l ≠ []) {body body' : List UInt8}
    (heq : lines fields ++ (crlf ++ body) = lines fields' ++ (crlf ++ body')) :
    fields = fields' ∧ body = body' := by
  induction fields generalizing fields' with
  | nil =>
    cases fields' with
    | nil => exact ⟨rfl, List.append_cancel_left heq⟩
    | cons l' fields' =>
      have hl' := hfields' l' List.mem_cons_self
      rw [lines_cons, List.append_assoc _ (lines fields')] at heq
      have hempty : [] ++ crlf ++ body = l' ++ crlf ++ (lines fields' ++ (crlf ++ body')) := heq
      exact absurd (line_inj List.not_mem_nil hl'.1.1 hempty).1.symm hl'.2
  | cons l fields ih =>
    have hl := hfields l List.mem_cons_self
    rw [lines_cons, List.append_assoc _ (lines fields)] at heq
    cases fields' with
    | nil =>
      have hempty : l ++ crlf ++ (lines fields ++ (crlf ++ body)) = [] ++ crlf ++ body' := heq
      exact absurd (line_inj hl.1.1 List.not_mem_nil hempty).1 hl.2
    | cons l' fields' =>
      have hl' := hfields' l' List.mem_cons_self
      rw [lines_cons, List.append_assoc _ (lines fields')] at heq
      obtain ⟨rfl, hrest⟩ := line_inj hl.1.1 hl'.1.1 heq
      obtain ⟨rfl, hbody⟩ := ih (fun m hm => hfields m (List.mem_cons_of_mem _ hm))
        (fun m hm => hfields' m (List.mem_cons_of_mem _ hm)) hrest
      exact ⟨rfl, hbody⟩

/-- The head of a message: the status line, the header lines and the empty line. -/
def messageHead (start : List UInt8) (fields : List (List UInt8)) : List UInt8 :=
  start ++ crlf ++ (lines fields ++ crlf)

/-- **A message that is cut short** is one if and only if its head is whole. -/
theorem message_take_iff {start body : List UInt8} {fields : List (List UInt8)}
    (hstart : StatusLine start) (hfields : ∀ l ∈ fields, FieldLine l) (k : ℕ) :
    Message ((messageHead start fields ++ body).take k) ↔
      (messageHead start fields).length ≤ k := by
  constructor
  · rintro ⟨start', fields', body', heq, hstart', hfields'⟩
    have hwhole : start ++ crlf ++ (lines fields ++ (crlf ++ body)) =
        start' ++ crlf ++ (lines fields' ++ (crlf ++
          (body' ++ (messageHead start fields ++ body).drop k))) := by
      have h := List.take_append_drop k (messageHead start fields ++ body)
      rw [heq] at h
      simpa [messageHead] using h.symm
    obtain ⟨rfl, hrest⟩ := line_inj hstart.oneLine.1 hstart'.oneLine.1 hwhole
    obtain ⟨rfl, -⟩ := lines_inj (fun l hl => (hfields l hl).oneLine)
      (fun l hl => (hfields' l hl).oneLine) hrest
    have hprefix : messageHead start fields <+: (messageHead start fields ++ body).take k :=
      ⟨body', by rw [heq, messageHead]; simp⟩
    exact Nat.le_trans hprefix.length_le (List.length_take_le _ _)
  · intro hle
    refine ⟨start, fields, body.take (k - (messageHead start fields).length), ?_, hstart, hfields⟩
    rw [List.take_append, List.take_of_length_le hle, messageHead]
    simp

end Http
