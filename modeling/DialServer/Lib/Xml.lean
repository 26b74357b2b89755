import Mathlib.Data.List.Infix
import Mathlib.Tactic.Linarith

/-!
# Well-formed XML

An XML document is read from its characters as a sequence of `Xml.Event`s – tags and
characters of text. `Xml.Writes` is the grammar of content, with one rule for each way of
writing something: a character as it is, by a reference or in a CDATA section, a tag, and
the comments and processing instructions that a reader skips. `Xml.Document` adds what
makes a text a document: its line ends are normalized, it starts with a declaration if it
has one, and what it writes is one element whose tags match. Documents with a document
type declaration are left out.

`Xml.plainText` writes events without escaping anything. The main result,
`Xml.document_plainText_iff`, says exactly when that is faithful: a document written so is
read back as the events it was written for if and only if its texts contain no character
that XML reserves. The argument is one of length. No way of writing a character is shorter
than the character, and every one but the character itself is longer
(`Xml.Writes.length_le`, `Xml.Writes.uncons`), so a reading that uses all of a plain text
has no room for any other.
-/

namespace Xml

/-! ### Characters -/

/-- The bytes of a text in UTF-8. -/
def utf8 (cs : List Char) : List UInt8 := cs.flatMap String.utf8EncodeChar

@[simp] theorem utf8_nil : utf8 [] = [] := rfl

@[simp] theorem utf8_append (cs cs' : List Char) : utf8 (cs ++ cs') = utf8 cs ++ utf8 cs' :=
  List.flatMap_append

/-- The encoding of a character tells where it ends. -/
theorem utf8EncodeChar_append_inj {c c' : Char} {l l' : List UInt8}
    (h : String.utf8EncodeChar c ++ l = String.utf8EncodeChar c' ++ l') : c = c' := by
  have hdecode : ∀ (d : Char) (r : List UInt8),
      ByteArray.utf8DecodeChar? (String.utf8EncodeChar d ++ r).toByteArray 0 = some d := by
    intro d r
    rw [List.toByteArray_append]
    exact ByteArray.utf8DecodeChar?_utf8EncodeChar_append
  exact Option.some.inj ((hdecode c l).symm.trans (h ▸ hdecode c' l'))

/-- **UTF-8 loses nothing.** -/
theorem utf8_injective : Function.Injective utf8 := by
  intro cs
  induction cs with
  | nil =>
    rintro (_ | ⟨c, cs'⟩) h
    · rfl
    · exact absurd (List.append_eq_nil_iff.mp h.symm).1 String.utf8EncodeChar_ne_nil
  | cons c cs ih =>
    rintro (_ | ⟨c', cs'⟩) h
    · exact absurd (List.append_eq_nil_iff.mp h).1 String.utf8EncodeChar_ne_nil
    · obtain rfl : c = c' := utf8EncodeChar_append_inj h
      exact congrArg (c :: ·) (ih (List.append_cancel_left h))

/-- White space. -/
def IsSpace (c : Char) : Prop := c = ' ' ∨ c = '\t' ∨ c = '\n' ∨ c = '\r'

/-- The characters of XML; surrogates are no characters in the first place. -/
def IsChar (c : Char) : Prop :=
  c = '\t' ∨ c = '\n' ∨ c = '\r' ∨
    (0x20 ≤ c.toNat ∧ c.toNat ≠ 0xFFFE ∧ c.toNat ≠ 0xFFFF)

/-- Whether a character belongs to one of the given ranges. -/
def inRanges (ranges : List (ℕ × ℕ)) (c : Char) : Bool :=
  ranges.any fun r => decide (r.1 ≤ c.toNat) && decide (c.toNat ≤ r.2)

/-- The characters a name can start with. -/
def nameStartRanges : List (ℕ × ℕ) :=
  [(0x3A, 0x3A), (0x41, 0x5A), (0x5F, 0x5F), (0x61, 0x7A), (0xC0, 0xD6), (0xD8, 0xF6),
    (0xF8, 0x2FF), (0x370, 0x37D), (0x37F, 0x1FFF), (0x200C, 0x200D), (0x2070, 0x218F),
    (0x2C00, 0x2FEF), (0x3001, 0xD7FF), (0xF900, 0xFDCF), (0xFDF0, 0xFFFD),
    (0x10000, 0xEFFFF)]

/-- The characters a name can contain besides. -/
def nameRanges : List (ℕ × ℕ) :=
  [(0x2D, 0x2E), (0x30, 0x39), (0xB7, 0xB7), (0x300, 0x36F), (0x203F, 0x2040)]

/-- Whether a name can contain a character. -/
def isNameChar (c : Char) : Bool := inRanges (nameStartRanges ++ nameRanges) c

/-- A name. -/
def IsName (n : List Char) : Prop :=
  n.head?.any (inRanges nameStartRanges) = true ∧ n.all isNameChar = true

/-- Text that is all white space. -/
def Blank (cs : List Char) : Prop := ∀ c ∈ cs, IsSpace c

instance : DecidablePred IsSpace := fun c =>
  inferInstanceAs (Decidable (c = ' ' ∨ c = '\t' ∨ c = '\n' ∨ c = '\r'))

instance : DecidablePred IsChar := fun c =>
  inferInstanceAs (Decidable (c = '\t' ∨ c = '\n' ∨ c = '\r' ∨
    (0x20 ≤ c.toNat ∧ c.toNat ≠ 0xFFFE ∧ c.toNat ≠ 0xFFFF)))

instance : DecidablePred IsName := fun n =>
  inferInstanceAs
    (Decidable (n.head?.any (inRanges nameStartRanges) = true ∧ n.all isNameChar = true))

/-- The normalization of line ends: a carriage return, alone or before a line feed, is
read as a line feed. -/
def endOfLines : List Char → List Char
  | '\r' :: '\n' :: cs => '\n' :: endOfLines cs
  | '\r' :: cs => '\n' :: endOfLines cs
  | c :: cs => c :: endOfLines cs
  | [] => []

/-! ### Events -/

/-- What a reader is told of: the tags of a document, and its text character by
character. -/
inductive Event
  /-- A start-tag with its attributes. -/
  | startTag (name : List Char) (attributes : List (List Char × List Char))
  /-- An end-tag. -/
  | endTag (name : List Char)
  /-- The tag of an empty element. -/
  | emptyTag (name : List Char) (attributes : List (List Char × List Char))
  /-- A character of text. -/
  | char (c : Char)
  deriving DecidableEq

/-- The events of a text. -/
def text (t : List Char) : List Event := t.map .char

theorem text_append (t t' : List Char) : text (t ++ t') = text t ++ text t' :=
  List.map_append

/-- The element with the given content. -/
def element (name : List Char) (content : List Event) : List Event :=
  .startTag name [] :: content ++ [.endTag name]

/-- The rest of a document in which the given elements are open, the innermost first:
every end-tag closes the innermost one, and the end of the outermost one is the end. -/
def Closes : List (List Char) → List Event → Prop
  | [], es => es = []
  | _ :: _, [] => False
  | n :: stack, .startTag m _ :: es => Closes (m :: n :: stack) es
  | n :: stack, .endTag m :: es => m = n ∧ Closes stack es
  | n :: stack, .emptyTag _ _ :: es => Closes (n :: stack) es
  | n :: stack, .char _ :: es => Closes (n :: stack) es

/-- One element: its tags match, and nothing is outside of it. -/
def IsElement : List Event → Prop
  | .startTag n _ :: es => Closes [n] es
  | [.emptyTag _ _] => True
  | _ => False

@[simp] theorem closes_text {n : List Char} {stack : List (List Char)} {t : List Char}
    {es : List Event} : Closes (n :: stack) (text t ++ es) ↔ Closes (n :: stack) es := by
  induction t with
  | nil => exact Iff.rfl
  | cons c t ih => exact ih

/-! ### The grammar -/

/-- `t` ends where `stop` first appears behind it. -/
def EndsAt (stop t : List Char) : Prop := ¬stop <:+: t ++ stop.dropLast

/-- The value of a digit. -/
def digit (base : ℕ) (c : Char) : Option ℕ :=
  let n := if c.isDigit then c.toNat - '0'.toNat
    else if 'a' ≤ c ∧ c ≤ 'f' then c.toNat - 'a'.toNat + 10
    else if 'A' ≤ c ∧ c ≤ 'F' then c.toNat - 'A'.toNat + 10
    else base
  if n < base then some n else none

/-- The value of a sequence of digits. -/
def numeral (base : ℕ) (ds : List Char) : Option ℕ :=
  ds.foldlM (fun n d => (digit base d).map (base * n + ·)) 0

/-- The entities every document has. -/
def predefined : List (List Char × Char) :=
  [("amp".toList, '&'), ("lt".toList, '<'), ("gt".toList, '>'), ("apos".toList, '\''),
    ("quot".toList, '"')]

/-- A reference, and the character it stands for. -/
inductive Refers : List Char → Char → Prop
  | entity {n : List Char} {c : Char} : (n, c) ∈ predefined → Refers ('&' :: n ++ [';']) c
  | decimal {ds : List Char} {c : Char} : ds ≠ [] → numeral 10 ds = some c.toNat → IsChar c →
      Refers ('&' :: '#' :: ds ++ [';']) c
  | hexadecimal {ds : List Char} {c : Char} : ds ≠ [] → numeral 16 ds = some c.toNat →
      IsChar c → Refers ('&' :: '#' :: 'x' :: ds ++ [';']) c

/-- The inside of an attribute in quotes `q`, and the value it is read as. -/
inductive Value (q : Char) : List Char → List Char → Prop
  | nil : Value q [] []
  | char {c : Char} {v w : List Char} : IsChar c → c ≠ '<' → c ≠ '&' → c ≠ q → Value q v w →
      Value q (c :: v) ((if IsSpace c then ' ' else c) :: w)
  | reference {r : List Char} {c : Char} {v w : List Char} : Refers r c → Value q v w →
      Value q (r ++ v) (c :: w)

/-- White space, a name, an equality sign and `v` in quotes `q`. -/
def Assigns (cs n v : List Char) (q : Char) : Prop :=
  ∃ s e₁ e₂, cs = s ++ n ++ e₁ ++ '=' :: e₂ ++ q :: v ++ [q] ∧ s ≠ [] ∧
    Blank s ∧ Blank e₁ ∧ Blank e₂ ∧ (q = '"' ∨ q = '\'')

/-- The attributes of a tag. -/
inductive Attributes : List Char → List (List Char × List Char) → Prop
  | nil : Attributes [] []
  | cons {a cs n v w : List Char} {q : Char} {as : List (List Char × List Char)} :
      Assigns a n v q → IsName n → Value q v w → Attributes cs as →
      Attributes (a ++ cs) ((n, w) :: as)

/-- A comment. -/
def IsComment (p : List Char) : Prop :=
  ∃ t, p = "<!--".toList ++ t ++ "-->".toList ∧ (∀ c ∈ t, IsChar c) ∧
    EndsAt "--".toList t

/-- A processing instruction; the name `xml` is reserved. -/
def IsInstruction (p : List Char) : Prop :=
  ∃ n d, p = "<?".toList ++ n ++ d ++ "?>".toList ∧ IsName n ∧
    n.map Char.toLower ≠ "xml".toList ∧ (∀ c ∈ d.head?, IsSpace c) ∧ (∀ c ∈ d, IsChar c) ∧
    EndsAt "?>".toList d

/-- **The content of an element**, and the events it is read as. -/
inductive Writes : List Char → List Event → Prop
  | nil : Writes [] []
  /-- A character as it is. -/
  | char {c : Char} {cs : List Char} {es : List Event} : IsChar c → c ≠ '<' → c ≠ '&' →
      ¬"]]>".toList <+: c :: cs → Writes cs es → Writes (c :: cs) (.char c :: es)
  /-- A character by a reference. -/
  | reference {r cs : List Char} {c : Char} {es : List Event} : Refers r c → Writes cs es →
      Writes (r ++ cs) (.char c :: es)
  /-- A CDATA section. -/
  | cdata {t cs : List Char} {es : List Event} : (∀ c ∈ t, IsChar c) →
      EndsAt "]]>".toList t → Writes cs es →
      Writes ("<![CDATA[".toList ++ t ++ "]]>".toList ++ cs) (text t ++ es)
  | comment {p cs : List Char} {es : List Event} : IsComment p → Writes cs es →
      Writes (p ++ cs) es
  | instruction {p cs : List Char} {es : List Event} : IsInstruction p → Writes cs es →
      Writes (p ++ cs) es
  | startTag {n a s cs : List Char} {as : List (List Char × List Char)} {es : List Event} :
      IsName n → Attributes a as → (as.map Prod.fst).Nodup → Blank s → Writes cs es →
      Writes ('<' :: n ++ a ++ s ++ '>' :: cs) (.startTag n as :: es)
  | endTag {n s cs : List Char} {es : List Event} : IsName n → Blank s → Writes cs es →
      Writes ('<' :: '/' :: n ++ s ++ '>' :: cs) (.endTag n :: es)
  | emptyTag {n a s cs : List Char} {as : List (List Char × List Char)} {es : List Event} :
      IsName n → Attributes a as → (as.map Prod.fst).Nodup → Blank s → Writes cs es →
      Writes ('<' :: n ++ a ++ s ++ '/' :: '>' :: cs) (.emptyTag n as :: es)

/-- What can stand beside the element of a document. -/
inductive Misc : List Char → Prop
  | nil : Misc []
  | space {c : Char} {cs : List Char} : IsSpace c → Misc cs → Misc (c :: cs)
  | comment {p cs : List Char} : IsComment p → Misc cs → Misc (p ++ cs)
  | instruction {p cs : List Char} : IsInstruction p → Misc cs → Misc (p ++ cs)

/-- The declaration at the front of a document: its version, its encoding and whether it
stands alone. -/
def IsDeclaration (d : List Char) : Prop :=
  ∃ version encoding standalone s,
    d = "<?xml".toList ++ version ++ encoding ++ standalone ++ s ++ "?>".toList ∧
    (∃ v q, Assigns version "version".toList ("1.".toList ++ v) q ∧ v ≠ [] ∧
      v.all Char.isDigit = true) ∧
    (encoding = [] ∨ ∃ v q, Assigns encoding "encoding".toList v q ∧
      v.map Char.toLower = "utf-8".toList) ∧
    (standalone = [] ∨ ∃ v q, Assigns standalone "standalone".toList v q ∧
      v ∈ ["yes".toList, "no".toList]) ∧
    Blank s

/-- **A document**, and the events it is read as. -/
def Document (cs : List Char) (es : List Event) : Prop :=
  ∃ d m b m', endOfLines cs = d ++ m ++ b ++ m' ∧ (d = [] ∨ IsDeclaration d) ∧
    Misc m ∧ Writes b es ∧ IsElement es ∧ Misc m'

/-! ### Writing without escaping -/

/-- Attributes as they are. -/
def attributesText (as : List (List Char × List Char)) : List Char :=
  as.flatMap fun a => ' ' :: a.1 ++ '=' :: '"' :: a.2 ++ ['"']

/-- An event as it is. -/
def Event.plainText : Event → List Char
  | .startTag n as => '<' :: n ++ attributesText as ++ ['>']
  | .endTag n => '<' :: '/' :: n ++ ['>']
  | .emptyTag n as => '<' :: n ++ attributesText as ++ ['/', '>']
  | .char c => [c]

/-- Events as they are. -/
def plainText (es : List Event) : List Char := es.flatMap Event.plainText

/-- The shortest declaration. -/
def xmlDeclaration : List Char := "<?xml version=\"1.0\"?>".toList

/-- A character that can stand in a text as it is. -/
def TextChar (c : Char) : Prop := IsChar c ∧ c ≠ '<' ∧ c ≠ '&' ∧ c ≠ '\r'

/-- A text that can stand in a document as it is. -/
structure IsPlainText (t : List Char) : Prop where
  chars : ∀ c ∈ t, TextChar c
  no_cdata_end : ¬"]]>".toList <:+: t

/-- Events whose texts can be written as they are. -/
structure IsPlain (es : List Event) : Prop where
  chars : ∀ c, .char c ∈ es → TextChar c
  no_cdata_end : ¬text "]]>".toList <:+: es

/-- A character that can stand in the value of an attribute as it is. -/
def ValueChar (c : Char) : Prop :=
  IsChar c ∧ c ≠ '<' ∧ c ≠ '&' ∧ c ≠ '"' ∧ (IsSpace c → c = ' ')

instance : DecidablePred ValueChar := fun c =>
  inferInstanceAs
    (Decidable (IsChar c ∧ c ≠ '<' ∧ c ≠ '&' ∧ c ≠ '"' ∧ (IsSpace c → c = ' ')))

/-- Attributes that can be written as they are. -/
structure TidyAttributes (as : List (List Char × List Char)) : Prop where
  nodup : (as.map Prod.fst).Nodup
  names : ∀ a ∈ as, IsName a.1
  values : ∀ a ∈ as, ∀ c ∈ a.2, ValueChar c

instance : DecidablePred TidyAttributes := fun as =>
  decidable_of_iff ((as.map Prod.fst).Nodup ∧
      (as.all fun a => decide (IsName a.1) && a.2.all fun c => decide (ValueChar c)) = true) (by
    simp only [List.all_eq_true, Bool.and_eq_true, decide_eq_true_eq]
    exact ⟨fun h => ⟨h.1, fun a ha => (h.2 a ha).1, fun a ha => (h.2 a ha).2⟩,
      fun h => ⟨h.nodup, fun a ha => ⟨h.names a ha, h.values a ha⟩⟩⟩)

/-- An event that is no tag, or a tag that can be written as it is. -/
def Event.Tidy : Event → Prop
  | .startTag n as => IsName n ∧ TidyAttributes as
  | .endTag n => IsName n
  | .emptyTag n as => IsName n ∧ TidyAttributes as
  | .char _ => True

/-! ### Nothing is shorter than what it stands for -/

theorem Refers.one_lt_length {r : List Char} {c : Char} (h : Refers r c) : 1 < r.length := by
  cases h <;> simp

theorem Value.length_le {q : Char} {v w : List Char} (h : Value q v w) :
    w.length ≤ v.length := by
  induction h with
  | nil => exact le_rfl
  | char _ _ _ _ _ ih => exact Nat.succ_le_succ ih
  | reference hr _ ih =>
    have hlen := hr.one_lt_length
    rw [List.length_cons, List.length_append]
    omega

theorem Assigns.length_le {cs n v : List Char} {q : Char} (h : Assigns cs n v q) :
    n.length + v.length + 4 ≤ cs.length := by
  obtain ⟨s, e₁, e₂, rfl, hs, -⟩ := h
  have hpos := List.length_pos_iff.mpr hs
  simp only [List.length_append, List.length_cons, List.length_nil]
  omega

theorem Attributes.length_le {a : List Char} {as : List (List Char × List Char)}
    (h : Attributes a as) : (attributesText as).length ≤ a.length := by
  induction h with
  | nil => exact le_rfl
  | cons ha _ hv _ ih =>
    have hassign := ha.length_le
    have hvalue := hv.length_le
    simp only [attributesText, List.flatMap_cons, List.length_append, List.length_cons,
      List.length_nil] at ih ⊢
    omega

theorem IsComment.length_pos {p : List Char} (h : IsComment p) : 0 < p.length := by
  obtain ⟨t, rfl, -⟩ := h
  exact Nat.succ_pos _

theorem IsInstruction.length_pos {p : List Char} (h : IsInstruction p) : 0 < p.length := by
  obtain ⟨n, d, rfl, -⟩ := h
  exact Nat.succ_pos _

/-- No declaration is shorter than `Xml.xmlDeclaration`. -/
theorem IsDeclaration.length_le {d : List Char} (h : IsDeclaration d) :
    xmlDeclaration.length ≤ d.length := by
  obtain ⟨version, encoding, standalone, s, rfl, ⟨v, q, hversion, hv, -⟩, -⟩ := h
  have hassign := hversion.length_le
  have hpos := List.length_pos_iff.mpr hv
  have hxml : xmlDeclaration.length = 21 := by decide
  have hfront : "<?xml".toList.length = 5 := by decide
  have hname : "version".toList.length = 7 := by decide
  have hone : "1.".toList.length = 2 := by decide
  have hback : "?>".toList.length = 2 := by decide
  simp only [List.length_append] at hassign ⊢
  omega

@[simp] theorem plainText_cons (e : Event) (es : List Event) :
    plainText (e :: es) = e.plainText ++ plainText es := List.flatMap_cons

@[simp] theorem plainText_append (es es' : List Event) :
    plainText (es ++ es') = plainText es ++ plainText es' := List.flatMap_append

@[simp] theorem plainText_text (t : List Char) : plainText (text t) = t := by
  induction t with
  | nil => rfl
  | cons c t ih => exact congrArg (c :: ·) ih

/-- **No writing of events is shorter than the plain one.** -/
theorem Writes.length_le {cs : List Char} {es : List Event} (h : Writes cs es) :
    (plainText es).length ≤ cs.length := by
  induction h with
  | nil => exact le_rfl
  | char _ _ _ _ _ ih => exact Nat.succ_le_succ ih
  | reference hr _ ih =>
    have hlen := hr.one_lt_length
    simp only [plainText_cons, Event.plainText, List.length_append, List.length_singleton]
    omega
  | cdata _ _ _ ih =>
    simp only [plainText_append, plainText_text, List.length_append]
    omega
  | comment _ _ ih | instruction _ _ ih =>
    rw [List.length_append]
    omega
  | startTag _ ha _ _ _ ih | emptyTag _ ha _ _ _ ih =>
    have hattributes := ha.length_le
    simp only [plainText_cons, Event.plainText, List.length_append, List.length_cons,
      List.length_nil]
    omega
  | endTag _ _ _ ih =>
    simp only [plainText_cons, Event.plainText, List.length_append, List.length_cons,
      List.length_nil]
    omega

/-- **An event with no room to spare** leaves none for the events behind it, and a
character is written as it is. -/
theorem Writes.uncons {cs : List Char} {e : Event} {es : List Event} (h : Writes cs (e :: es))
    (hroom : cs.length ≤ (plainText (e :: es)).length) :
    ∃ cs', Writes cs' es ∧ cs'.length ≤ (plainText es).length ∧ cs' <:+ cs ∧
      ∀ c, e = .char c → cs = c :: cs' ∧ IsChar c ∧ c ≠ '<' ∧ c ≠ '&' ∧
        ¬"]]>".toList <+: cs := by
  generalize hes : e :: es = es' at h
  cases h with
  | nil => exact absurd hes (by simp)
  | char hc hlt hamp hend hw =>
    obtain ⟨rfl, rfl⟩ := List.cons.inj hes
    refine ⟨_, hw, Nat.le_of_succ_le_succ hroom, List.suffix_cons _ _, fun d hd => ?_⟩
    obtain rfl := Event.char.inj hd
    exact ⟨rfl, hc, hlt, hamp, hend⟩
  | reference hr hw =>
    obtain ⟨rfl, rfl⟩ := List.cons.inj hes
    have hlen := hr.one_lt_length
    have hrest := hw.length_le
    simp only [plainText_cons, Event.plainText, List.length_append, List.length_singleton]
      at hroom
    omega
  | cdata _ _ hw =>
    have hopen : 0 < "<![CDATA[".toList.length := by decide
    have hrest := hw.length_le
    simp only [hes, plainText_append, plainText_text, List.length_append] at hroom
    omega
  | comment hp hw | instruction hp hw =>
    have hpos := hp.length_pos
    have hrest := hw.length_le
    rw [hes, List.length_append] at hroom
    omega
  | @startTag n a s _ _ _ _ ha _ _ hw =>
    obtain ⟨rfl, rfl⟩ := List.cons.inj hes
    have hattributes := ha.length_le
    refine ⟨_, hw, ?_, ⟨'<' :: n ++ a ++ s ++ ['>'], by simp⟩, fun c hc => absurd hc (by simp)⟩
    simp only [plainText_cons, Event.plainText, List.length_append, List.length_cons,
      List.length_nil] at hroom
    omega
  | @emptyTag n a s _ _ _ _ ha _ _ hw =>
    obtain ⟨rfl, rfl⟩ := List.cons.inj hes
    have hattributes := ha.length_le
    refine ⟨_, hw, ?_, ⟨'<' :: n ++ a ++ s ++ ['/', '>'], by simp⟩,
      fun c hc => absurd hc (by simp)⟩
    simp only [plainText_cons, Event.plainText, List.length_append, List.length_cons,
      List.length_nil] at hroom
    omega
  | @endTag n s _ _ _ _ hw =>
    obtain ⟨rfl, rfl⟩ := List.cons.inj hes
    refine ⟨_, hw, ?_, ⟨'<' :: '/' :: n ++ s ++ ['>'], by simp⟩, fun c hc => absurd hc (by simp)⟩
    simp only [plainText_cons, Event.plainText, List.length_append, List.length_cons,
      List.length_nil] at hroom
    omega

/-- A text with no room to spare is written as it is. -/
theorem Writes.prefix {cs t : List Char} {es : List Event} (h : Writes cs (text t ++ es))
    (hroom : cs.length ≤ (plainText (text t ++ es)).length) : t <+: cs := by
  induction t generalizing cs with
  | nil => exact List.nil_prefix
  | cons c t ih =>
    obtain ⟨cs', hw, hroom', -, hchar⟩ := Writes.uncons h hroom
    obtain ⟨rfl, -⟩ := hchar c rfl
    exact List.cons_prefix_cons.mpr ⟨rfl, ih hw hroom'⟩

/-- **Events with no room to spare are plain.** -/
theorem Writes.isPlain {cs : List Char} {es : List Event} (h : Writes cs es)
    (hroom : cs.length ≤ (plainText es).length) (hcr : '\r' ∉ cs) : IsPlain es := by
  induction es generalizing cs with
  | nil => exact ⟨fun c hc => absurd hc List.not_mem_nil, by decide⟩
  | cons e es ih =>
    obtain ⟨cs', hw, hroom', hsuffix, hchar⟩ := h.uncons hroom
    obtain ⟨hchars, hend⟩ := ih hw hroom' fun hmem => hcr (hsuffix.subset hmem)
    constructor
    · intro c hc
      rcases List.mem_cons.mp hc with rfl | hc
      · obtain ⟨rfl, hc, hlt, hamp, -⟩ := hchar c rfl
        exact ⟨hc, hlt, hamp, fun heq => hcr (heq ▸ List.mem_cons_self)⟩
      · exact hchars c hc
    · rw [List.infix_cons_iff]
      rintro (⟨rest, hrest⟩ | hinfix)
      · have hprefix : "]]>".toList <+: cs := Writes.prefix (hrest ▸ h) (hrest ▸ hroom)
        obtain ⟨-, -, -, -, hnot⟩ := hchar _ (List.cons.inj hrest).1.symm
        exact hnot hprefix
      · exact hend hinfix

/-! ### Plain events are read back -/

theorem Value.plain {w : List Char} (h : ∀ c ∈ w, ValueChar c) : Value '"' w w := by
  induction w with
  | nil => exact .nil
  | cons c w ih =>
    obtain ⟨hc, hlt, hamp, hquote, hspace⟩ := h c List.mem_cons_self
    have hvalue := Value.char hc hlt hamp hquote (ih fun d hd => h d (List.mem_cons_of_mem _ hd))
    by_cases hs : IsSpace c
    · rwa [if_pos hs, ← hspace hs] at hvalue
    · rwa [if_neg hs] at hvalue

theorem Attributes.plain {as : List (List Char × List Char)} (h : TidyAttributes as) :
    Attributes (attributesText as) as := by
  obtain ⟨-, hnames, hvalues⟩ := h
  induction as with
  | nil => exact .nil
  | cons a as ih =>
    obtain ⟨n, w⟩ := a
    have hassigns : Assigns (' ' :: n ++ '=' :: '"' :: w ++ ['"']) n w '"' :=
      ⟨[' '], [], [], by simp, by simp, by simp [Blank, IsSpace], by simp [Blank],
        by simp [Blank], .inl rfl⟩
    exact .cons hassigns (hnames _ List.mem_cons_self)
      (Value.plain (hvalues _ List.mem_cons_self))
      (ih (fun b hb => hnames b (List.mem_cons_of_mem _ hb))
        fun b hb => hvalues b (List.mem_cons_of_mem _ hb))

/-- Characters at the front of plain events that are no tag are the first events. -/
theorem text_prefix_of_prefix {t : List Char} {es : List Event} (ht : '<' ∉ t)
    (h : t <+: plainText es) : text t <+: es := by
  induction t generalizing es with
  | nil => exact List.nil_prefix
  | cons c t ih =>
    rw [List.mem_cons, not_or] at ht
    rcases es with _ | ⟨_ | _ | _ | d, es⟩
    · exact absurd h (by simp [plainText])
    · exact absurd (List.cons_prefix_cons.mp h).1 (Ne.symm ht.1)
    · exact absurd (List.cons_prefix_cons.mp h).1 (Ne.symm ht.1)
    · exact absurd (List.cons_prefix_cons.mp h).1 (Ne.symm ht.1)
    · obtain ⟨rfl, htail⟩ := List.cons_prefix_cons.mp h
      exact List.cons_prefix_cons.mpr ⟨rfl, ih ht.2 htail⟩

/-- **Plain events are read back.** -/
theorem Writes.plain {es : List Event} (htidy : ∀ e ∈ es, e.Tidy) (h : IsPlain es) :
    Writes (plainText es) es := by
  obtain ⟨hchars, hend⟩ := h
  induction es with
  | nil => exact .nil
  | cons e es ih =>
    have hw : Writes (plainText es) es := ih (fun e he => htidy e (List.mem_cons_of_mem _ he))
      (fun c hc => hchars c (List.mem_cons_of_mem _ hc))
      fun hinfix => hend (List.infix_cons hinfix)
    have hhead := htidy e List.mem_cons_self
    rw [plainText_cons]
    cases e with
    | startTag n as =>
      have htag := Writes.startTag (s := []) hhead.1 (Attributes.plain hhead.2) hhead.2.nodup
        (by simp [Blank]) hw
      simpa [Event.plainText] using htag
    | endTag n =>
      have htag := Writes.endTag (s := []) hhead (by simp [Blank]) hw
      simpa [Event.plainText] using htag
    | emptyTag n as =>
      have htag := Writes.emptyTag (s := []) hhead.1 (Attributes.plain hhead.2) hhead.2.nodup
        (by simp [Blank]) hw
      simpa [Event.plainText] using htag
    | char c =>
      obtain ⟨hc, hlt, hamp, -⟩ := hchars c List.mem_cons_self
      refine .char hc hlt hamp (fun hprefix => hend ?_) hw
      have hevents : text "]]>".toList <+: .char c :: es :=
        text_prefix_of_prefix (by decide) hprefix
      exact hevents.isInfix

/-! ### Plain texts between tags -/

theorem text_infix_text {s t : List Char} : text s <:+: text t ↔ s <:+: t := by
  constructor
  · intro h
    obtain ⟨l, hl, heq⟩ := List.infix_map_iff.mp h
    rwa [List.map_injective_iff.mpr (fun _ _ => Event.char.inj) heq]
  · exact fun h => List.IsInfix.map _ h

/-- What is written of characters does not reach across a tag. -/
theorem text_infix_append_cons {s t : List Char} {e : Event} {es : List Event}
    (he : ∀ c, e ≠ .char c) : text s <:+: text t ++ e :: es ↔ s <:+: t ∨ text s <:+: es := by
  have hnil : ∀ r, r ⊆ text s → r <+: e :: es → r = [] := by
    rintro (_ | ⟨d, r⟩) hsub hprefix
    · rfl
    · obtain ⟨c, -, hc⟩ := List.mem_map.mp (hsub List.mem_cons_self)
      exact absurd ((List.cons_prefix_cons.mp hprefix).1.symm.trans hc.symm) (he c)
  constructor
  · intro h
    rcases List.infix_append_iff.mp h with hleft | hright | ⟨l, r, hsplit, hl, hr⟩
    · exact .inl (text_infix_text.mp hleft)
    · rcases List.infix_cons_iff.mp hright with hprefix | hinfix
      · obtain rfl := List.map_eq_nil_iff.mp (hnil _ (List.Subset.refl _) hprefix)
        exact .inl List.nil_infix
      · exact .inr hinfix
    · obtain rfl := hnil r (hsplit ▸ List.subset_append_right l r) hr
      rw [List.append_nil] at hsplit
      exact .inl (text_infix_text.mp (hsplit ▸ hl.isInfix))
  · rintro (h | h)
    · exact (text_infix_text.mpr h).trans List.infix_append_left
    · exact h.trans ((List.infix_cons List.infix_rfl).trans List.infix_append_right)

/-- **A text in front of a tag** is plain or not for itself. -/
theorem isPlain_append_cons {t : List Char} {e : Event} {es : List Event}
    (he : ∀ c, e ≠ .char c) : IsPlain (text t ++ e :: es) ↔ IsPlainText t ∧ IsPlain es := by
  have hmem : ∀ c, .char c ∈ text t ++ e :: es ↔ c ∈ t ∨ .char c ∈ es := fun c => by
    simp [text, (he c).symm]
  constructor
  · rintro ⟨hchars, hend⟩
    rw [text_infix_append_cons he, not_or] at hend
    exact ⟨⟨fun c hc => hchars c ((hmem c).mpr (.inl hc)), hend.1⟩,
      ⟨fun c hc => hchars c ((hmem c).mpr (.inr hc)), hend.2⟩⟩
  · rintro ⟨⟨ht, htend⟩, ⟨hes, hesend⟩⟩
    refine ⟨fun c hc => ((hmem c).mp hc).elim (ht c) (hes c), ?_⟩
    rw [text_infix_append_cons he, not_or]
    exact ⟨htend, hesend⟩

/-- A tag in front changes nothing. -/
theorem isPlain_cons {e : Event} {es : List Event} (he : ∀ c, e ≠ .char c) :
    IsPlain (e :: es) ↔ IsPlain es :=
  (isPlain_append_cons (t := []) he).trans (and_iff_right ⟨by simp, by decide⟩)

theorem isPlain_nil : IsPlain [] := ⟨by simp, by decide⟩

theorem isPlainText_iff {t : List Char} :
    IsPlainText t ↔ (∀ c ∈ t, TextChar c) ∧ ¬"]]>".toList <:+: t :=
  ⟨fun h => ⟨h.chars, h.no_cdata_end⟩, fun h => ⟨h.1, h.2⟩⟩

instance : DecidablePred TextChar := fun c =>
  inferInstanceAs (Decidable (IsChar c ∧ c ≠ '<' ∧ c ≠ '&' ∧ c ≠ '\r'))

instance : DecidablePred IsPlainText := fun t =>
  decidable_of_iff (t.all (fun c => decide (TextChar c)) = true ∧ ¬"]]>".toList <:+: t) (by
    rw [isPlainText_iff, List.all_eq_true]
    simp only [decide_eq_true_eq])

/-- A letter in front of a text changes nothing. -/
theorem isPlainText_cons {c : Char} {t : List Char} (hc : TextChar c) (hbracket : c ≠ ']') :
    IsPlainText (c :: t) ↔ IsPlainText t := by
  have hend : "]]>".toList <:+: c :: t ↔ "]]>".toList <:+: t := by
    rw [List.infix_cons_iff, or_iff_right]
    exact fun hprefix => hbracket (List.cons_prefix_cons.mp hprefix).1.symm
  rw [isPlainText_iff, isPlainText_iff, hend, List.forall_mem_cons, and_iff_right hc]

/-! ### Line ends -/

theorem endOfLines_cons {c : Char} (h : c ≠ '\r') (cs : List Char) :
    endOfLines (c :: cs) = c :: endOfLines cs := by
  rw [endOfLines] <;> simp [h]

theorem endOfLines_append {a : List Char} (h : '\r' ∉ a) (b : List Char) :
    endOfLines (a ++ b) = a ++ endOfLines b := by
  induction a with
  | nil => rfl
  | cons c a ih =>
    rw [List.mem_cons, not_or] at h
    rw [List.cons_append, endOfLines_cons (Ne.symm h.1), ih h.2, List.cons_append]

theorem length_endOfLines_le (cs : List Char) : (endOfLines cs).length ≤ cs.length := by
  fun_induction endOfLines cs with
  | case1 cs ih =>
    simp only [List.length_cons]
    omega
  | case2 cs _ ih | case3 c cs _ _ ih => exact Nat.succ_le_succ ih
  | case4 => exact le_rfl

theorem notMem_endOfLines (cs : List Char) : '\r' ∉ endOfLines cs := by
  fun_induction endOfLines cs with
  | case1 cs ih | case2 cs _ ih =>
    rw [List.mem_cons, not_or]
    exact ⟨by decide, ih⟩
  | case3 c cs _ hc ih =>
    rw [List.mem_cons, not_or]
    exact ⟨fun heq => hc heq.symm, ih⟩
  | case4 => exact List.not_mem_nil

theorem IsName.notMem {n : List Char} (h : IsName n) : '\r' ∉ n := fun hmem =>
  absurd (List.all_eq_true.mp h.2 _ hmem) (by decide)

theorem TidyAttributes.notMem {as : List (List Char × List Char)} (h : TidyAttributes as) :
    '\r' ∉ attributesText as := by
  rw [attributesText, List.mem_flatMap]
  rintro ⟨a, ha, hmem⟩
  have hname := (h.names a ha).notMem
  have hvalue : '\r' ∉ a.2 := fun hmem =>
    absurd ((h.values a ha _ hmem).2.2.2.2 (by decide)) (by decide)
  simp [hname, hvalue] at hmem

/-- Among the events that can be written as they are, only a character of text can be a
carriage return. -/
theorem Event.Tidy.eq_char {e : Event} (h : e.Tidy) (hmem : '\r' ∈ e.plainText) :
    e = .char '\r' := by
  cases e with
  | startTag n as =>
    have hname := h.1.notMem
    have hattributes := h.2.notMem
    simp [Event.plainText, hname, hattributes] at hmem
  | endTag n =>
    have hname := IsName.notMem h
    simp [Event.plainText, hname] at hmem
  | emptyTag n as =>
    have hname := h.1.notMem
    have hattributes := h.2.notMem
    simp [Event.plainText, hname, hattributes] at hmem
  | char c => rw [List.mem_singleton.mp hmem]

/-! ### The declaration -/

/-- A run of characters of one kind is cut in one way. -/
theorem run_unique {p : Char → Prop} [DecidablePred p] {a b x y : List Char}
    (ha : ∀ c ∈ a, p c) (hb : ∀ c ∈ b, p c) (hx : ∀ c ∈ x.head?, ¬p c)
    (hy : ∀ c ∈ y.head?, ¬p c) (h : a ++ x = b ++ y) : a = b := by
  have hrun : ∀ l z : List Char, (∀ c ∈ l, p c) → (∀ c ∈ z.head?, ¬p c) →
      (l ++ z).takeWhile (fun c => decide (p c)) = l := by
    intro l z hl hz
    rw [List.takeWhile_append_of_pos fun c hc => decide_eq_true (hl c hc)]
    cases z with
    | nil => exact List.append_nil l
    | cons c z => rw [List.takeWhile_cons_of_neg (by simpa using hz c rfl), List.append_nil]
  rw [← hrun a x ha hx, h, hrun b y hb hy]

/-- The front of `Xml.xmlDeclaration` is no processing instruction. -/
theorem IsInstruction.ne_declaration {p x y : List Char} (h : IsInstruction p) :
    p ++ x ≠ "<?xml ".toList ++ y := by
  obtain ⟨n, d, rfl, ⟨-, hn⟩, hxml, hd, -⟩ := h
  intro heq
  have hstop : ∀ c ∈ (d ++ '?' :: '>' :: x).head?, ¬isNameChar c = true := by
    cases d with
    | nil =>
      rintro c ⟨rfl⟩
      decide
    | cons e d =>
      rintro c ⟨rfl⟩
      rcases hd e rfl with rfl | rfl | rfl | rfl <;> decide
  have hcut : n ++ (d ++ '?' :: '>' :: x) = "xml".toList ++ (' ' :: y) := by
    have htail := congrArg (List.drop 2) heq
    simpa using htail
  have hname : n = "xml".toList :=
    run_unique (List.all_eq_true.mp hn) (List.all_eq_true.mp (by decide)) hstop
      (by rintro c ⟨rfl⟩; decide) hcut
  exact hxml (by rw [hname]; decide)

theorem IsComment.ne_declaration {p x y : List Char} (h : IsComment p) :
    p ++ x ≠ "<?xml ".toList ++ y := by
  obtain ⟨t, rfl, -⟩ := h
  intro heq
  exact absurd (List.cons.inj (List.cons.inj heq).2).1 (by decide)

theorem Misc.ne_declaration {m x y : List Char} (h : Misc m) (hm : m ≠ []) :
    m ++ x ≠ "<?xml ".toList ++ y := by
  cases h with
  | nil => exact absurd rfl hm
  | space hc _ =>
    intro heq
    rw [(List.cons.inj heq).1] at hc
    exact absurd hc (by decide)
  | comment hp _ =>
    rw [List.append_assoc]
    exact hp.ne_declaration
  | instruction hp _ =>
    rw [List.append_assoc]
    exact hp.ne_declaration

theorem Writes.ne_declaration {b x y : List Char} {es : List Event} (h : Writes b es)
    (hes : es ≠ []) : b ++ x ≠ "<?xml ".toList ++ y := by
  have hname : ∀ {n z w : List Char}, IsName n → n ++ z ≠ '?' :: w := by
    rintro (_ | ⟨c, n⟩) z w ⟨hstart, -⟩ heq
    · exact absurd hstart (by decide)
    · rw [(List.cons.inj heq).1] at hstart
      have hmark : inRanges nameStartRanges '?' = true := hstart
      exact absurd hmark (by decide)
  intro heq
  cases h with
  | nil => exact hes rfl
  | char _ hlt => exact hlt (List.cons.inj heq).1
  | reference hr =>
    cases hr with
    | entity | decimal | hexadecimal => exact absurd (List.cons.inj heq).1 (by decide)
  | cdata => exact absurd (List.cons.inj (List.cons.inj heq).2).1 (by decide)
  | comment hp _ =>
    rw [List.append_assoc] at heq
    exact hp.ne_declaration heq
  | instruction hp _ =>
    rw [List.append_assoc] at heq
    exact hp.ne_declaration heq
  | startTag hn | emptyTag hn =>
    simp only [List.cons_append, List.append_assoc] at heq
    exact hname hn (List.cons.inj heq).2
  | endTag => exact absurd (List.cons.inj (List.cons.inj heq).2).1 (by decide)

theorem isDeclaration_xmlDeclaration : IsDeclaration xmlDeclaration := by
  refine ⟨" version=\"1.0\"".toList, [], [], [], by decide, ⟨['0'], '"', ?_, by decide, by decide⟩,
    .inl rfl, .inl rfl, by simp [Blank]⟩
  exact ⟨[' '], [], [], by decide, by decide, by simp [Blank, IsSpace], by simp [Blank],
    by simp [Blank], .inl rfl⟩

/-- **Writing an element without escaping is faithful exactly when its texts are plain.** -/
theorem document_plainText_iff {es : List Event} (hes : IsElement es)
    (htidy : ∀ e ∈ es, e.Tidy) :
    Document (xmlDeclaration ++ plainText es) es ↔ IsPlain es := by
  have hdecl : endOfLines (xmlDeclaration ++ plainText es) =
      xmlDeclaration ++ endOfLines (plainText es) := endOfLines_append (by decide) _
  constructor
  · rintro ⟨d, m, b, m', heq, hd, hm, hw, -, -⟩
    rcases hd with rfl | hd
    · -- without a declaration, the front of the text is read as something else
      have hfront : m ++ (b ++ m') = "<?xml ".toList ++
          ("version=\"1.0\"?>".toList ++ endOfLines (plainText es)) := by
        rw [← List.append_assoc, ← List.nil_append m, ← heq, hdecl, ← List.append_assoc]
        exact congrArg (· ++ _) (by decide)
      by_cases hnil : m = []
      · rw [hnil, List.nil_append] at hfront
        refine absurd hfront (hw.ne_declaration ?_)
        rintro rfl
        exact hes
      · exact absurd hfront (hm.ne_declaration hnil)
    · have hlen := congrArg List.length (hdecl.symm.trans heq)
      have hdlen := hd.length_le
      have hle := length_endOfLines_le (plainText es)
      simp only [List.length_append] at hlen
      refine hw.isPlain (by omega) fun hmem => ?_
      have hnot := notMem_endOfLines (xmlDeclaration ++ plainText es)
      rw [heq] at hnot
      exact hnot (List.mem_append_left _ (List.mem_append_right _ hmem))
  · intro h
    have hself : endOfLines (plainText es) = plainText es := by
      have hnot : '\r' ∉ plainText es := by
        rw [plainText, List.mem_flatMap]
        rintro ⟨e, he, hmem⟩
        obtain rfl := (htidy e he).eq_char hmem
        exact (h.chars _ he).2.2.2 rfl
      have happend := endOfLines_append hnot []
      simpa [endOfLines] using happend
    refine ⟨xmlDeclaration, [], plainText es, [], ?_, .inr isDeclaration_xmlDeclaration, .nil,
      .plain htidy h, hes, .nil⟩
    rw [hdecl, hself, List.append_nil, List.append_nil]

end Xml
