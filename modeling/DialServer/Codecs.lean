import DialServer.Concatenation

/-!
# Encodings undone

`url_encode` writes a text so that `urldecode` reads it back, and `xmlencode` writes one so
that it means itself in XML. Here both are taken with the objects they write to: what fits,
what is written, and which bytes are left alone.

* `url_encode` followed by `urldecode` is the identity, whatever the bytes
  (`DialServer.urldecodeLoop_encodes` for the text, `DialServer.urlEncode_spec` for the buffer).
  Only the number `urldecode` returns is not always that of the bytes it wrote: it is an
  `int` (`DialServer.urlEncode_undone_iff`).
* `xmlencode` writes the escaped text cut at the limit, nothing behind the limit, and a text
  from which the source can be read when the limit leaves six bytes for every character
  (`DialServer.xmlencode_bounded`).
-/

namespace DialServer

open CLib

/-! ### `url_encode` -/

/-- The characters that are written as they are. -/
def isUnreserved (c : UInt8) : Bool :=
  isalnum c || c = '-'.toUInt8 || c = '_'.toUInt8 || c = '.'.toUInt8 || c = '~'.toUInt8

/-- Converts an integer value to its hex character. A `char` is signed. -/
def toHex (code : Int8) : UInt8 :=
  (CStr.lit "0123456789abcdef").bytes.getD (code &&& 15).toNatClampNeg 0

/-- The loop of `url_encode`: the source left, the object and the index `pbuf` stands
at. -/
def urlEncodeLoop : List UInt8 → Block → ℕ → Except Fault Block
  | [], b, pbuf => b.store pbuf 0
  | c :: src, b, pbuf =>
    if isUnreserved c then do
      let b ← b.store pbuf c
      urlEncodeLoop src b (pbuf + 1)
    else if c = ' '.toUInt8 then do
      let b ← b.store pbuf '+'.toUInt8
      urlEncodeLoop src b (pbuf + 1)
    else do
      let b ← b.store pbuf '%'.toUInt8
      let b ← b.store (pbuf + 1) (toHex (c.toInt8 >>> 4))
      let b ← b.store (pbuf + 2) (toHex (c.toInt8 &&& 15))
      urlEncodeLoop src b (pbuf + 3)

/-- Returns a url-encoded version of the string, in an object of its own. -/
def urlEncode (str : CStr) : Except Fault Block :=
  urlEncodeLoop str.bytes (Block.malloc (str.strlen * 3 + 1)) 0

/-- What is written for a character that is not written as it is. -/
def urlEntity (c : UInt8) : Option (List UInt8) :=
  if isUnreserved c then none
  else if c = ' '.toUInt8 then some ['+'.toUInt8]
  else some ['%'.toUInt8, toHex (c.toInt8 >>> 4), toHex (c.toInt8 &&& 15)]

/-- The encoded text. -/
def urlEncoded (src : List UInt8) : List UInt8 := Escape.substitute urlEntity src

theorem glyph_urlEntity (c : UInt8) :
    Escape.glyph urlEntity c =
      if isUnreserved c then [c]
      else if c = ' '.toUInt8 then ['+'.toUInt8]
      else ['%'.toUInt8, toHex (c.toInt8 >>> 4), toHex (c.toInt8 &&& 15)] := by
  rw [Escape.glyph, urlEntity]
  split_ifs <;> rfl

theorem urlEncoded_cons (c : UInt8) (src : List UInt8) :
    urlEncoded (c :: src) = Escape.glyph urlEntity c ++ urlEncoded src :=
  Escape.substitute_cons ..

/-- One character is written as its glyph. -/
theorem urlEncodeLoop_cons {b : Block} {text : List UInt8} (c : UInt8) (src : List UInt8)
    (hroom : text.length + (Escape.glyph urlEntity c).length ≤ b.size) (hb : b.Starts text) :
    ∃ b', urlEncodeLoop (c :: src) b text.length =
        urlEncodeLoop src b' (text ++ Escape.glyph urlEntity c).length ∧
      b'.Starts (text ++ Escape.glyph urlEntity c) ∧ b'.size = b.size := by
  have hone : ∀ (l : List UInt8) (v : UInt8), (l ++ [v]).length = l.length + 1 := by simp
  rw [urlEncodeLoop]
  rw [glyph_urlEntity] at hroom ⊢
  split_ifs at hroom ⊢ with hplain hblank
  · obtain ⟨b₁, hstore, hstarts, hsize⟩ := hb.store (Nat.lt_of_succ_le hroom) c
    refine ⟨b₁, ?_, hstarts, hsize⟩
    rw [hstore, hone]
    rfl
  · obtain ⟨b₁, hstore, hstarts, hsize⟩ := hb.store (Nat.lt_of_succ_le hroom) '+'.toUInt8
    refine ⟨b₁, ?_, hstarts, hsize⟩
    rw [hstore, hone]
    rfl
  · -- the three bytes are written one after the other
    rw [List.length_cons, List.length_cons, List.length_singleton] at hroom
    obtain ⟨b₁, hstore₁, hstarts₁, hsize₁⟩ := hb.store (by omega) '%'.toUInt8
    obtain ⟨b₂, hstore₂, hstarts₂, hsize₂⟩ :=
      hstarts₁.store (by rw [hone, hsize₁]; omega) (toHex (c.toInt8 >>> 4))
    obtain ⟨b₃, hstore₃, hstarts₃, hsize₃⟩ :=
      hstarts₂.store (by rw [hone, hone, hsize₂, hsize₁]; omega) (toHex (c.toInt8 &&& 15))
    rw [hone] at hstore₂
    rw [hone, hone] at hstore₃
    refine ⟨b₃, ?_, by simpa using hstarts₃, hsize₃.trans (hsize₂.trans hsize₁)⟩
    simp only [hstore₁, hstore₂, hstore₃, bind, Except.bind, List.length_append, List.length_cons,
      List.length_nil]

/-- The loop writes the encoded text behind what is there. -/
theorem urlEncodeLoop_spec {b : Block} {text : List UInt8} (src : List UInt8)
    (hroom : text.length + (urlEncoded src).length < b.size) (hb : b.Starts text) :
    ∃ b', urlEncodeLoop src b text.length = .ok b' ∧
      b'.Starts (text ++ urlEncoded src ++ [0]) ∧ b'.size = b.size := by
  induction src generalizing b text with
  | nil =>
    obtain ⟨b', hstore, hstarts, hsize⟩ := hb.store (by omega) 0
    exact ⟨b', hstore, by rwa [urlEncoded, Escape.substitute_nil, List.append_nil], hsize⟩
  | cons c src ih =>
    rw [urlEncoded_cons, List.length_append] at hroom
    obtain ⟨b₁, hstep, hstarts₁, hsize₁⟩ := urlEncodeLoop_cons c src (by omega) hb
    obtain ⟨b', hloop, hstarts, hsize⟩ :=
      ih (by rw [List.length_append, hsize₁]; omega) hstarts₁
    refine ⟨b', hstep.trans hloop, ?_, hsize.trans hsize₁⟩
    rwa [urlEncoded_cons, ← List.append_assoc]

/-- No character takes more than three bytes. -/
theorem length_urlEncoded_le (src : List UInt8) : (urlEncoded src).length ≤ 3 * src.length := by
  refine Escape.length_substitute_le _ (fun c => ?_) src
  rw [glyph_urlEntity]
  split_ifs <;> simp

/-- **The buffer of `url_encode`** has room for the encoded text. -/
theorem urlEncode_spec (str : CStr) :
    ∃ buf, urlEncode str = .ok buf ∧ buf.Starts (urlEncoded str.bytes ++ [0]) ∧
      buf.size = str.strlen * 3 + 1 := by
  have hsize : (Block.malloc (str.strlen * 3 + 1)).size = str.strlen * 3 + 1 :=
    List.length_replicate
  have hlen := length_urlEncoded_le str.bytes
  have hroom : ([] : List UInt8).length + (urlEncoded str.bytes).length <
      (Block.malloc (str.strlen * 3 + 1)).size := by
    rw [hsize, CStr.strlen, List.length_nil]
    omega
  obtain ⟨buf, hloop, hstarts, hsize'⟩ :=
    urlEncodeLoop_spec str.bytes hroom (Block.starts_nil _)
  exact ⟨buf, hloop, hstarts, hsize'.trans hsize⟩

/-! ### `urldecode` of what was encoded -/

/-- **The two hex digits of a byte are read as the byte**, whatever its sign. -/
theorem appendCharFromHex_toHex (c : UInt8) :
    appendCharFromHex (toHex (c.toInt8 >>> 4)) (toHex (c.toInt8 &&& 15)) = some c := by
  revert c
  refine forall_byte ?_
  decide +kernel

/-- The encoded text is one that `urldecode` reads as the source. -/
theorem encodes_urlEncoded (src : List UInt8) :
    Escape.Encodes percentCode (urlEncoded src) src := by
  induction src with
  | nil => exact .nil
  | cons c src ih =>
    rw [urlEncoded_cons, glyph_urlEntity]
    split
    · rename_i hplain
      refine .plain ?_ ?_ ih
      · rintro rfl
        exact absurd hplain (by decide)
      · rintro rfl
        exact absurd hplain (by decide)
    · split
      · rename_i hblank
        rw [hblank]
        exact .blank ih
      · exact .pair (appendCharFromHex_toHex c) ih

/-- All of `t` is written behind `text`, with a NUL behind it, and nothing else. -/
def WritesAll (text t : List UInt8) (b : Block) (result : Except Fault (Block × ℕ)) : Prop :=
  ∃ b', result = .ok (b', (text ++ t).length) ∧ b'.Starts (text ++ t ++ [0]) ∧
    b'.cells.drop ((text ++ t).length + 1) = b.cells.drop ((text ++ t).length + 1)

/-- **Reading what something was encoded as** writes all of it. -/
theorem urldecodeLoop_encodes {enc t : List UInt8} (h : Escape.Encodes percentCode enc t)
    {b : Block} {text : List UInt8} {maxSize : ℕ} (hmax : text.length + t.length ≤ maxSize)
    (hroom : text.length + t.length < b.size) (hb : b.Starts text) :
    WritesAll text t b (urldecodeLoop maxSize enc text.length b) := by
  have r := Escape.read percentCode enc
  obtain ⟨hvalues, htail⟩ := Prod.mk.inj (r.decode_eq.symm.trans h.decode_eq)
  have hlen : r.tokens.length = t.length := by rw [← hvalues, List.length_map]
  have hall : (r.tokens.take (maxSize - text.length)).map Escape.Token.value = t := by
    rw [List.take_of_length_le (by omega), hvalues]
  have hloop := urldecodeLoop_reading (b := b) (show text.length ≤ maxSize by omega) r.tokens
    r.stuck
  rw [r.spells, hall, if_neg fun hmal => hmal.1 htail] at hloop
  obtain ⟨b', hstore, hstarts, -⟩ := hb.storeEach (t ++ [0]) (by
    rw [List.length_append, List.length_singleton]
    omega)
  rw [hstore] at hloop
  have hcount : text.length + min (maxSize - text.length) r.tokens.length =
      (text ++ t).length := by
    rw [List.length_append]
    omega
  refine ⟨b', ?_, by rwa [List.append_assoc], Block.drop_storeEach hstore fun i hi => ?_⟩
  · rw [hloop, hcount]
    rfl
  · rw [Block.indices_consecutive] at hi
    have hlt := hi.2
    simp only [List.length_append, List.length_singleton] at hlt ⊢
    omega

/-- `urldecode` with the number it returns, which is an `int`. -/
def urldecodeInt (dst : Block) (src : CStr) (maxSize : ℕ) : Except Fault (Block × ℤ) :=
  (urldecode dst src maxSize).map fun result => (result.1, intOfSize result.2)

/-- A lowercase hex digit. -/
def isLowerHex (c : UInt8) : Bool :=
  ('0'.toUInt8 ≤ c && c ≤ '9'.toUInt8) || ('a'.toUInt8 ≤ c && c ≤ 'f'.toUInt8)

/-- **The texts `url_encode` writes**: unreserved characters, `+`, and `%` followed by two
lowercase hex digits. -/
inductive UrlText : List UInt8 → Prop
  | nil : UrlText []
  | unreserved {c s} : isUnreserved c = true → UrlText s → UrlText (c :: s)
  | plus {s} : UrlText s → UrlText ('+'.toUInt8 :: s)
  | hex {x y s} : isLowerHex x = true → isLowerHex y = true → UrlText s →
    UrlText ('%'.toUInt8 :: x :: y :: s)

theorem isLowerHex_toHex (code : Int8) : isLowerHex (toHex code) = true := by
  have hall : ∀ c : UInt8, isLowerHex (toHex c.toInt8) = true := by
    refine forall_byte ?_
    decide +kernel
  exact hall code.toUInt8

theorem urlText_urlEncoded (src : List UInt8) : UrlText (urlEncoded src) := by
  induction src with
  | nil => exact .nil
  | cons c src ih =>
    rw [urlEncoded_cons, glyph_urlEntity]
    split
    · rename_i hplain
      exact .unreserved hplain ih
    · split
      · exact .plus ih
      · exact .hex (isLowerHex_toHex _) (isLowerHex_toHex _) ih

/-- Different texts are encoded differently. -/
theorem urlEncoded_injective : Function.Injective urlEncoded := by
  intro s t h
  have hs := (encodes_urlEncoded s).decode_eq
  rw [h, (encodes_urlEncoded t).decode_eq] at hs
  exact (congrArg Prod.fst hs).symm

/-- The characters of an encoded text. -/
theorem UrlText.isUnreserved_of_mem {s : List UInt8} (h : UrlText s) {c : UInt8} (hc : c ∈ s) :
    isUnreserved c = true ∨ c = '+'.toUInt8 ∨ c = '%'.toUInt8 := by
  have hhex : ∀ x : UInt8, isLowerHex x = true → isUnreserved x = true :=
    forall_byte (P := fun x => isLowerHex x = true → isUnreserved x = true) (by decide +kernel)
  induction h with
  | nil => exact absurd hc List.not_mem_nil
  | unreserved hd _ ih =>
    rcases List.mem_cons.mp hc with rfl | hmem
    · exact Or.inl hd
    · exact ih hmem
  | plus _ ih =>
    rcases List.mem_cons.mp hc with rfl | hmem
    · exact Or.inr (Or.inl rfl)
    · exact ih hmem
  | hex hx hy _ ih =>
    rcases List.mem_cons.mp hc with rfl | hc
    · exact Or.inr (Or.inr rfl)
    · rcases List.mem_cons.mp hc with rfl | hc
      · exact Or.inl (hhex _ hx)
      · rcases List.mem_cons.mp hc with rfl | hmem
        · exact Or.inl (hhex _ hy)
        · exact ih hmem

/-- A character that is none of them does not occur in it. -/
theorem UrlText.notMem {s : List UInt8} (h : UrlText s) {c : UInt8}
    (hc : ¬(isUnreserved c = true ∨ c = '+'.toUInt8 ∨ c = '%'.toUInt8)) : c ∉ s :=
  fun hmem => hc (h.isUnreserved_of_mem hmem)

/-- A text without NUL is encoded without one. -/
theorem UrlText.zero_notMem {s : List UInt8} (h : UrlText s) : (0 : UInt8) ∉ s :=
  h.notMem (by decide)

/-- The characters that take three bytes. -/
def isHexEncoded (c : UInt8) : Bool := !isUnreserved c && c ≠ ' '.toUInt8

/-- **How long an encoded text is.** -/
theorem length_urlEncoded (src : List UInt8) :
    (urlEncoded src).length = src.length + 2 * src.countP isHexEncoded := by
  induction src with
  | nil => rfl
  | cons c src ih =>
    have hglyph : (Escape.glyph urlEntity c).length =
        1 + 2 * (if isHexEncoded c then 1 else 0) := by
      rw [glyph_urlEntity, isHexEncoded]
      split_ifs <;> simp_all
    rw [urlEncoded_cons, List.length_append, ih, hglyph, List.length_cons, List.countP_cons]
    omega

/-- The string `url_encode` returns. -/
def encodedString (str : CStr) : Except Fault CStr := urlEncode str >>= Block.cstr

theorem encodedString_eq (str : CStr) :
    encodedString str = .ok (.ofBuffer (urlEncoded str.bytes)) := by
  obtain ⟨buf, hbuf, hstarts, -⟩ := urlEncode_spec str
  rw [encodedString, hbuf]
  exact hstarts.cstr

theorem bytes_encodedString {str enc : CStr} (h : encodedString str = .ok enc) :
    enc.bytes = urlEncoded str.bytes := by
  rw [encodedString_eq] at h
  rw [← Except.ok.inj h]
  exact CStr.bytes_ofBuffer (urlText_urlEncoded str.bytes).zero_notMem

/-- **What is promised of encoding a string.** -/
structure UrlEncodeUndone (str : CStr) : Prop where
  /-- It fits in the buffer made for it, and uses the characters of an encoded text. -/
  fits : ∃ buf enc, urlEncode str = .ok buf ∧ buf.size = 3 * str.strlen + 1 ∧
    buf.cstr = .ok enc ∧ UrlText enc.bytes
  /-- `urldecode` writes the string with its terminator and nothing behind it, and returns
  its length. -/
  undone : ∀ enc, encodedString str = .ok enc → ∀ (maxSize : ℕ) (dst : Block),
    str.strlen ≤ maxSize → str.strlen < dst.size →
    ∃ dst', urldecodeInt dst enc maxSize = .ok (dst', (str.strlen : ℤ)) ∧
      dst'.Starts (str.bytes ++ [0]) ∧
      dst'.cells.drop (str.strlen + 1) = dst.cells.drop (str.strlen + 1)
  /-- No other string is encoded the same. -/
  injective : ∀ str', encodedString str' = encodedString str → str' = str

/-- Decoding what was encoded, with the number as it is counted. -/
theorem urldecode_encodedString {str enc : CStr} (h : encodedString str = .ok enc) {maxSize : ℕ}
    {dst : Block} (hmax : str.strlen ≤ maxSize) (hroom : str.strlen < dst.size) :
    ∃ dst', urldecodeInt dst enc maxSize = .ok (dst', intOfSize str.strlen) ∧
      dst'.Starts (str.bytes ++ [0]) ∧
      dst'.cells.drop (str.strlen + 1) = dst.cells.drop (str.strlen + 1) := by
  have hencodes : Escape.Encodes percentCode enc.bytes str.bytes := by
    rw [bytes_encodedString h]
    exact encodes_urlEncoded str.bytes
  rw [CStr.strlen] at hmax hroom
  obtain ⟨dst', hresult, hstarts, hframe⟩ := @urldecodeLoop_encodes _ _ hencodes dst [] maxSize
    (by simpa using hmax) (by simpa using hroom) (Block.starts_nil dst)
  refine ⟨dst', ?_, hstarts, hframe⟩
  rw [List.length_nil, List.nil_append] at hresult
  rw [urldecodeInt, urldecode, hresult]
  rfl

/-- A number that is returned right is one an `int` can hold. -/
theorem UrlEncodeUndone.strlen_lt {str : CStr} (h : UrlEncodeUndone str) :
    str.strlen < 2 ^ 31 := by
  have hsize : str.strlen < (Block.malloc (str.strlen + 1)).size := by
    rw [Block.malloc, Block.size, List.length_replicate]
    exact Nat.lt_succ_self _
  obtain ⟨dst', hresult, -⟩ := h.undone _ (encodedString_eq str) _ _ (Nat.le_refl _) hsize
  obtain ⟨dst'', hresult', -⟩ :=
    urldecode_encodedString (encodedString_eq str) (Nat.le_refl _) hsize
  rw [hresult] at hresult'
  have hpair := Except.ok.inj hresult'
  exact intOfSize_eq.mp (congrArg Prod.snd hpair).symm

/-- **Encoding is undone** just if an `int` can hold the length of the string. -/
theorem urlEncode_undone_iff (str : CStr) : UrlEncodeUndone str ↔ str.strlen < 2 ^ 31 := by
  refine ⟨UrlEncodeUndone.strlen_lt, fun hlen => ⟨?_, ?_, ?_⟩⟩
  · obtain ⟨buf, hbuf, hstarts, hsize⟩ := urlEncode_spec str
    refine ⟨buf, _, hbuf, by rw [hsize, Nat.mul_comm], hstarts.cstr, ?_⟩
    rw [CStr.bytes_ofBuffer (urlText_urlEncoded str.bytes).zero_notMem]
    exact urlText_urlEncoded str.bytes
  · intro enc henc maxSize dst hmax hroom
    have hresult := urldecode_encodedString henc hmax hroom
    rwa [intOfSize_eq.mpr hlen] at hresult
  · intro str' h
    rw [encodedString_eq str] at h
    have hbytes := bytes_encodedString h
    rw [CStr.bytes_ofBuffer (urlText_urlEncoded str.bytes).zero_notMem] at hbytes
    exact CStr.ext (urlEncoded_injective hbytes).symm

/-- A string of 2³¹ characters: its length is returned as a negative number. -/
theorem not_urlEncode_undone_long :
    ¬UrlEncodeUndone ⟨List.replicate (2 ^ 31) 'a'.toUInt8, by
      rw [List.mem_replicate]
      decide⟩ := by
  intro h
  have hlen := h.strlen_lt
  rw [CStr.strlen, List.length_replicate] at hlen
  exact absurd hlen (Nat.lt_irrefl _)

/-! ### `xmlencode` -/

/-- Bounded concatenation writes no index above the one the bound gives, and ends at most
there. -/
theorem smartstrcatLoop_frame {maxChars k : ℕ} (src : List UInt8) {copied dest p : ℕ}
    {b b' : Block} (h : smartstrcatLoop maxChars src copied b dest = .ok (b', p))
    (hk : dest + (maxChars - copied) < k) :
    b'.cells.drop k = b.cells.drop k ∧ p ≤ dest + (maxChars - copied) ∧
      p ≤ dest + src.length := by
  rw [smartstrcatLoop_eq] at h
  cases hstore : b.storeEach (smartstrcatWrites maxChars src copied dest).1 with
  | error f =>
    rw [hstore] at h
    exact absurd h (by simp [Except.map])
  | ok b₁ =>
    rw [hstore] at h
    obtain ⟨rfl, rfl⟩ := Prod.mk.inj (Except.ok.inj h)
    have hp : (smartstrcatWrites maxChars src copied dest).2 =
        dest + min src.length (maxChars - copied) := smartstrcatWrites_snd src copied dest
    refine ⟨Block.drop_storeEach hstore fun i hi => ?_, by omega, by omega⟩
    rw [indices_smartstrcatWrites] at hi
    exact hi.2.trans_lt (by omega)

/-- **`xmlencode` writes no index above the limit**: the counter is never behind the index
that is written at. -/
theorem xmlencodeLoop_frame {maxSize k : ℕ} (src : List UInt8) {currentSize dst : ℕ}
    {b b' : Block} (h : xmlencodeLoop maxSize src currentSize b dst = .ok b')
    (hdst : dst ≤ currentSize) (hmax : dst ≤ maxSize) (hk : maxSize < k) :
    b'.cells.drop k = b.cells.drop k := by
  induction src generalizing currentSize b dst with
  | nil => exact Block.drop_store h (by omega)
  | cons c src ih =>
    rw [xmlencodeLoop] at h
    split at h
    · rename_i hmore
      rcases hentity : xmlEntity c with _ | entity
      · rw [hentity] at h
        rcases h₁ : b.store dst c with f | b₁
        · simp [h₁, bind, Except.bind] at h
        · simp only [h₁, bind, Except.bind] at h
          exact (ih h (by omega) (by omega)).trans (Block.drop_store h₁ (by omega))
      · rw [hentity] at h
        rcases h₁ : smartstrcat b dst entity (maxSize - currentSize) with f | ⟨b₁, p⟩
        · simp [h₁, bind, Except.bind] at h
        · simp only [h₁, bind, Except.bind] at h
          obtain ⟨hframe, hle, hle'⟩ := smartstrcatLoop_frame entity.bytes h₁
            (show dst + (maxSize - currentSize - 0) < k by omega)
          rw [← CStr.strlen] at hle'
          exact (ih h (by omega) (by omega)).trans hframe
    · exact Block.drop_store h (by omega)

/-- The entities and what they stand for. -/
def xmlNames : List (List UInt8 × UInt8) :=
  [((CStr.lit "&amp;").bytes, '&'.toUInt8), ((CStr.lit "&quot;").bytes, '\"'.toUInt8),
    ((CStr.lit "&apos;").bytes, '\''.toUInt8), ((CStr.lit "&lt;").bytes, '<'.toUInt8),
    ((CStr.lit "&gt;").bytes, '>'.toUInt8)]

/-- The text an escaped text means in XML. -/
def xmlUnescaped (s : List UInt8) : List UInt8 := Escape.resolve xmlNames 0 s

/-- The entities of `xmlencode` can be told apart. -/
theorem xmlNames_resolvable : Escape.Resolvable (fun c => (xmlEntity c).map CStr.bytes) xmlNames
    '&'.toUInt8 where
  complete c e h := by
    obtain ⟨entity, hentity, rfl⟩ := Option.map_eq_some_iff.mp h
    rw [xmlEntity] at hentity
    split_ifs at hentity with h₁ h₂ h₃ h₄ h₅
    all_goals
      rw [← Option.some.inj hentity]
      simp [xmlNames, *]
  marked := by decide
  mark_escaped := by decide
  prefixFree := by decide

/-- An entity has six bytes at most. -/
theorem length_xmlEscaped_le (src : List UInt8) : (xmlEscaped src).length ≤ 6 * src.length := by
  have hnames : ∀ name ∈ xmlNames, name.1.length ≤ 6 := by decide
  refine Escape.length_substitute_le _ (fun c => ?_) src
  rw [Escape.glyph]
  rcases hc : (xmlEntity c).map CStr.bytes with _ | e
  · simp
  · exact hnames _ (xmlNames_resolvable.complete c e hc)

/-- The characters that mean something in XML, except the mark of an entity. -/
def xmlSpecial : List UInt8 := ['<'.toUInt8, '>'.toUInt8, '\"'.toUInt8, '\''.toUInt8]

/-- None of them is in an escaped text. -/
theorem notMem_xmlEscaped {c : UInt8} (hc : c ∈ xmlSpecial) (src : List UInt8) :
    c ∉ xmlEscaped src := by
  have hescaped : ∀ c ∈ xmlSpecial, ((xmlEntity c).map CStr.bytes).isSome := by
    decide +kernel
  have hnames : ∀ name ∈ xmlNames, ∀ c ∈ xmlSpecial, c ∉ name.1 := by decide +kernel
  refine Escape.notMem_substitute _ (fun d => ?_) src
  rw [Escape.glyph]
  rcases hd : (xmlEntity d).map CStr.bytes with _ | e
  · rw [Option.getD_none, List.mem_singleton]
    rintro rfl
    have hsome := hescaped _ hc
    rw [hd] at hsome
    exact absurd hsome (by simp)
  · exact hnames _ (xmlNames_resolvable.complete d e hd) c hc

/-- **What `xmlencode` leaves in an object** with room for the limit and a terminator. -/
structure XmlEncoded (dst : Block) (src : CStr) (n : ℕ) (dst' : Block) (text : CStr) : Prop where
  /-- The object starts with the escaped source, cut at the limit, and a NUL. -/
  starts : dst'.Starts ((xmlEscaped src.bytes).take n ++ [0])
  /-- No index above the limit was written. -/
  frame : dst'.cells.drop (n + 1) = dst.cells.drop (n + 1)
  /-- So this is the string the object holds. -/
  cstr : dst'.cstr = .ok text
  bytes : text.bytes = (xmlEscaped src.bytes).take n
  /-- It has none of the characters that were escaped, but `&`. -/
  special : ∀ c ∈ xmlSpecial, c ∉ text.bytes
  /-- If nothing can have been cut, it means the source. -/
  unescaped : 6 * src.strlen ≤ n → xmlUnescaped text.bytes = src.bytes

/-- **Escaping is bounded**: whatever the source and the limit. -/
theorem xmlencode_bounded (dst : Block) (src : CStr) (n : ℕ) (h : n < dst.size) :
    ∃ dst' text, xmlencode dst src n = .ok dst' ∧ XmlEncoded dst src n dst' text := by
  obtain ⟨dst', hresult, hstarts, -⟩ := xmlencode_spec src h
  have hnul : (0 : UInt8) ∉ (xmlEscaped src.bytes).take n := fun hzero =>
    zero_notMem_xmlEscaped src.nul_free (List.mem_of_mem_take hzero)
  have hbytes : (CStr.ofBuffer ((xmlEscaped src.bytes).take n)).bytes =
      (xmlEscaped src.bytes).take n := CStr.bytes_ofBuffer hnul
  refine ⟨dst', .ofBuffer ((xmlEscaped src.bytes).take n), hresult, hstarts, ?_, hstarts.cstr,
    hbytes, fun c hc hmem => ?_, fun hroom => ?_⟩
  · exact xmlencodeLoop_frame src.bytes hresult (Nat.le_refl _) (Nat.zero_le _) (Nat.lt_succ_self _)
  · rw [hbytes] at hmem
    exact notMem_xmlEscaped hc src.bytes (List.mem_of_mem_take hmem)
  · have hlen := length_xmlEscaped_le src.bytes
    rw [CStr.strlen] at hroom
    rw [hbytes, List.take_of_length_le (by omega), xmlUnescaped]
    exact xmlNames_resolvable.resolve_substitute src.bytes

/-- An entity is cut in two at the limit of three bytes. -/
theorem xmlencode_bounded_cut : ∃ dst' text,
    xmlencode (Block.malloc 4) (.lit "a<b") 3 = .ok dst' ∧
      XmlEncoded (Block.malloc 4) (.lit "a<b") 3 dst' text :=
  xmlencode_bounded (Block.malloc 4) (.lit "a<b") 3 (by decide)

end DialServer
