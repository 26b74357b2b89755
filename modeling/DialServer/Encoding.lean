import DialServer.Lib.Escape
import DialServer.Lib.Stores
import DialServer.Handlers

/-!
# What the encoders leave in their buffers

The loops of `smartstrcat`, `urldecode` and `xmlencode` write byte by byte and stop in
several ways. Each of them comes down to one equation: the buffer starts with so many
bytes of the text it should get, and a NUL behind them. For `smartstrcat` this is the
concatenation cut at the capacity (`DialServer.smartstrcat_spec`), for `urldecode` what
can be read of the source (`DialServer.urldecodeLoop_reading` on its tokens,
`DialServer.urldecode_spec` on the whole), and for `xmlencode` the escaped source cut at
the limit (`DialServer.xmlencode_spec`).

A capacity that is the whole size of the buffer is one byte too much: the concatenation
that just fills it writes its terminator behind the end.
-/

namespace DialServer

open CLib Escape

/-! ### Bounded concatenation -/

section Smartstrcat

variable {b : Block} {text : List UInt8}

/-- The loop of `smartstrcat`, from a buffer that starts with `text`: it writes what the
count still allows and a NUL, and the largest index it writes is that of the NUL. -/
theorem smartstrcatLoop_spec {maxChars : ℕ} (src : List UInt8) (copied : ℕ)
    (hcopied : copied ≤ maxChars) (hb : b.Starts text) :
    if text.length + min src.length (maxChars - copied) < b.size then
      ∃ b', smartstrcatLoop maxChars src copied b text.length =
          .ok (b', text.length + min src.length (maxChars - copied)) ∧
        b'.Starts (text ++ src.take (maxChars - copied) ++ [0]) ∧ b'.size = b.size
    else smartstrcatLoop maxChars src copied b text.length = .error .outOfBounds := by
  induction src generalizing copied b text with
  | nil =>
    rw [List.length_nil, Nat.zero_min, Nat.add_zero]
    split
    · rename_i hroom
      -- the loop copies the NUL, and the line behind it writes it again
      obtain ⟨b', hstore, hstarts, hsize⟩ := hb.store hroom 0
      obtain ⟨b'', hstore', hstarts', hsize'⟩ := hstarts.of_append.store (hsize ▸ hroom) 0
      refine ⟨b'', ?_, ?_, hsize'.trans hsize⟩
      · rw [smartstrcatLoop, hstore]
        simp only [bind, Except.bind, hstore', pure, Except.pure]
      · rwa [List.take_nil, List.append_nil]
    · rename_i hroom
      rw [smartstrcatLoop, Block.store_of_le (by omega)]
      rfl
  | cons c src ih =>
    by_cases hroom : text.length < b.size
    · obtain ⟨b', hstore, hstarts, hsize⟩ := hb.store hroom c
      rw [smartstrcatLoop, hstore]
      simp only [bind, Except.bind]
      by_cases hmore : copied < maxChars
      · -- the byte stays, and the rest is the loop again
        have hnext := ih (copied + 1) hmore hstarts
        have hleft : maxChars - copied = (maxChars - (copied + 1)) + 1 := by omega
        rw [List.length_append, List.length_singleton, hsize] at hnext
        rw [if_pos hmore, hleft, List.length_cons, List.take_succ_cons, Nat.succ_min_succ]
        rw [Nat.add_assoc, Nat.add_comm 1] at hnext
        rwa [List.append_assoc text, List.singleton_append] at hnext
      · -- the byte is overwritten by the terminator
        obtain ⟨b'', hstore', hstarts', hsize'⟩ := hstarts.of_append.store (hsize ▸ hroom) 0
        have hleft : maxChars - copied = 0 := by omega
        rw [if_neg hmore, hstore', hleft, Nat.min_zero, Nat.add_zero, if_pos hroom]
        exact ⟨b'', rfl, by rwa [List.take_zero, List.append_nil], hsize'.trans hsize⟩
    · rw [if_neg (by omega), smartstrcatLoop, Block.store_of_le (by omega)]
      rfl

/-- **One step of a concatenation with capacity `N`** cuts the text at `N`, and leaves
its buffer just if the text then has no room for its terminator. -/
theorem smartstrcat_spec {N : ℕ} (src : CStr) (hN : text.length ≤ N) (hb : b.Starts text) :
    if min (text ++ src.bytes).length N < b.size then
      ∃ b', smartstrcat b text.length src (N - text.length) =
          .ok (b', ((text ++ src.bytes).take N).length) ∧
        b'.Starts ((text ++ src.bytes).take N ++ [0]) ∧ b'.size = b.size
    else smartstrcat b text.length src (N - text.length) = .error .outOfBounds := by
  have hspec := smartstrcatLoop_spec src.bytes 0 (Nat.zero_le (N - text.length)) hb
  have hcount : text.length + min src.bytes.length (N - text.length - 0) =
      min (text ++ src.bytes).length N := by
    rw [List.length_append]
    omega
  have hcut : (text ++ src.bytes).take N = text ++ src.bytes.take (N - text.length - 0) := by
    rw [List.take_append, List.take_of_length_le hN, Nat.sub_zero]
  rw [hcount] at hspec
  rwa [smartstrcat, List.length_take, Nat.min_comm N, hcut]

/-- What is cut already can be cut again. -/
theorem take_take_append (l m : List UInt8) (N : ℕ) : (l.take N ++ m).take N = (l ++ m).take N := by
  rcases Nat.le_total l.length N with hle | hle
  · rw [List.take_of_length_le hle]
  · rw [List.take_append_of_le_length hle, List.take_append_of_le_length, List.take_take,
      Nat.min_self]
    rw [List.length_take, Nat.min_eq_left hle]

theorem min_length_take_append (l m : List UInt8) (N : ℕ) :
    min (l.take N ++ m).length N = min (l ++ m).length N := by
  rw [List.length_append, List.length_append, List.length_take]
  omega

/-- The calls `p = smartstrcat(p, s, end - p)` for one string after the other, with `end`
at index `N`. -/
def appendAll (N : ℕ) : List CStr → Block → ℕ → Except Fault (Block × ℕ)
  | [], b, p => .ok (b, p)
  | s :: strings, b, p => do
    let (b, p) ← smartstrcat b p s (N - p)
    appendAll N strings b p

/-- **A concatenation of many strings** is one of all their text. -/
theorem appendAll_spec {N : ℕ} (strings : List CStr) (hN : text.length ≤ N)
    (hb : b.Starts (text ++ [0])) :
    if min (text ++ strings.flatMap CStr.bytes).length N < b.size then
      ∃ b', appendAll N strings b text.length =
          .ok (b', ((text ++ strings.flatMap CStr.bytes).take N).length) ∧
        b'.Starts ((text ++ strings.flatMap CStr.bytes).take N ++ [0]) ∧ b'.size = b.size
    else appendAll N strings b text.length = .error .outOfBounds := by
  induction strings generalizing b text with
  | nil =>
    have hroom : text.length < b.size := by
      have hlen := hb.length_le
      rwa [List.length_append, List.length_singleton] at hlen
    rw [List.flatMap_nil, List.append_nil, Nat.min_eq_left hN, if_pos hroom,
      List.take_of_length_le hN]
    exact ⟨b, rfl, hb, rfl⟩
  | cons s strings ih =>
    have hstep := smartstrcat_spec s hN hb.of_append
    rw [List.flatMap_cons, ← List.append_assoc, appendAll]
    by_cases hroom : min (text ++ s.bytes).length N < b.size
    · rw [if_pos hroom] at hstep
      obtain ⟨b', hcat, hstarts, hsize⟩ := hstep
      -- the induction is on the strings: what was cut off already is cut off again
      have hrest := ih (List.length_take_le _ _) hstarts
      rw [take_take_append, hsize, min_length_take_append] at hrest
      rw [hcat]
      exact hrest
    · rw [if_neg hroom] at hstep
      rw [if_neg, hstep]
      · rfl
      · rw [List.length_append]
        omega

end Smartstrcat

/-! ### Decoding -/

/-- The encoding `urldecode` reads. -/
def percentCode : Escape.PairCode UInt8 where
  plus := '+'.toUInt8
  blank := ' '.toUInt8
  mark := '%'.toUInt8
  pair := appendCharFromHex
  plus_ne_mark := by decide

/-- What `urldecode` reads in a text: everything up to its first malformed `%`. -/
def urlDecoded (src : List UInt8) : List UInt8 := (Escape.decode percentCode src).1

/-- There is a malformed `%` among the first `n` characters that stand for something. -/
def Malformed (src : List UInt8) (n : ℕ) : Prop :=
  (Escape.decode percentCode src).2 ≠ [] ∧ (urlDecoded src).length < n

instance (src : List UInt8) (n : ℕ) : Decidable (Malformed src n) :=
  inferInstanceAs (Decidable (_ ∧ _))

/-- What `urldecode` should leave in a buffer that starts with `text`, and return. -/
def DecodesTo (maxSize : ℕ) (src text : List UInt8) (b : Block)
    (result : Except Fault (Block × ℕ)) : Prop :=
  ∃ b', result = .ok (b', if Malformed src (maxSize - text.length) then 0
      else (text ++ (urlDecoded src).take (maxSize - text.length)).length) ∧
    b'.Starts (text ++ (urlDecoded src).take (maxSize - text.length) ++ [0]) ∧ b'.size = b.size

section Urldecode

variable {b : Block} {maxSize len : ℕ}

/-- Where there is no room for more, the text is terminated. -/
theorem urldecodeLoop_of_le (hfull : maxSize ≤ len) (src : List UInt8) :
    urldecodeLoop maxSize src len b = (b.storeEach [(len, 0)]).map fun b => (b, len) := by
  rw [← Block.bind_map_storeEach]
  cases src with
  | nil => rfl
  | cons c src =>
    rw [urldecodeLoop.eq_def]
    exact if_neg (Nat.not_lt.mpr hfull)

/-- A token is read as its character. -/
theorem urldecodeLoop_token (hmore : len < maxSize) (t : Token percentCode) (src : List UInt8) :
    urldecodeLoop maxSize (t.text ++ src) len b =
      b.store len t.value >>= fun b => urldecodeLoop maxSize src (len + 1) b := by
  cases t with
  | plus =>
    rw [urldecodeLoop.eq_def]
    exact (if_pos hmore).trans (if_pos rfl)
  | pair x y h =>
    have hpair : appendCharFromHex x y = some (Token.pair x y h).value := (Option.some_get h).symm
    have htext : (Token.pair x y h).text ++ src = '%'.toUInt8 :: x :: y :: src := rfl
    rw [htext, urldecodeLoop.eq_def]
    dsimp only
    rw [if_pos hmore, if_neg (by decide), if_pos rfl, hpair]
  | plain c hplus hmark =>
    rw [urldecodeLoop.eq_def]
    exact (if_pos hmore).trans ((if_neg hplus).trans (if_neg hmark))

/-- Where no token begins, the text is terminated: at its end with its length, and at a
malformed `%` with zero. -/
theorem urldecodeLoop_stuck (hmore : len < maxSize) {tail : List UInt8}
    (hstuck : Stuck percentCode tail) :
    urldecodeLoop maxSize tail len b =
      (b.storeEach [(len, 0)]).map fun b => (b, if tail ≠ [] then 0 else len) := by
  rw [← Block.bind_map_storeEach]
  rcases hstuck with rfl | ⟨src, rfl, hbad⟩
  · rfl
  · rw [show percentCode.mark = '%'.toUInt8 from rfl, if_pos (List.cons_ne_nil _ _),
      urldecodeLoop.eq_def]
    dsimp only
    rw [if_pos hmore, if_neg (by decide), if_pos rfl]
    rcases src with _ | ⟨x, _ | ⟨y, src⟩⟩
    · rfl
    · rfl
    · have hpair : appendCharFromHex x y = none := hbad x y src rfl
      dsimp only
      rw [hpair]
      rfl

/-- **The loop of `urldecode` on a reading**: the characters of the first tokens are written
one behind the other, and a NUL. -/
theorem urldecodeLoop_reading (hlen : len ≤ maxSize) (ts : List (Token percentCode))
    {tail : List UInt8} (hstuck : Stuck percentCode tail) :
    urldecodeLoop maxSize (ts.flatMap Token.text ++ tail) len b =
      (b.storeEach (Block.consecutive len
        ((ts.take (maxSize - len)).map Token.value ++ [0]))).map fun b =>
          (b, if tail ≠ [] ∧ ts.length < maxSize - len then 0
            else len + min (maxSize - len) ts.length) := by
  induction ts generalizing len b with
  | nil =>
    rcases hlen.lt_or_eq with hmore | rfl
    · have hleft : 0 < maxSize - len := by omega
      rw [List.flatMap_nil, List.nil_append, urldecodeLoop_stuck hmore hstuck]
      simp [Block.consecutive, hleft]
    · rw [urldecodeLoop_of_le (Nat.le_refl _)]
      simp [Block.consecutive]
  | cons t ts ih =>
    rcases hlen.lt_or_eq with hmore | rfl
    · have hleft : maxSize - len = maxSize - (len + 1) + 1 := by omega
      have hcount : len + min (maxSize - len) (t :: ts).length =
          len + 1 + min (maxSize - (len + 1)) ts.length := by
        rw [List.length_cons]
        omega
      rw [List.flatMap_cons, List.append_assoc, urldecodeLoop_token hmore, hcount, hleft]
      simp only [ih hmore, Block.bind_map_storeEach, List.take_succ_cons, List.map_cons,
        List.cons_append, Block.consecutive, List.length_cons, Nat.add_lt_add_iff_right]
    · rw [urldecodeLoop_of_le (Nat.le_refl _)]
      simp [Block.consecutive]

/-- **What `urldecode` leaves** is what can be read of the source, up to the limit. -/
theorem urldecode_spec (src : CStr) (hroom : maxSize < b.size) :
    DecodesTo maxSize src.bytes [] b (urldecode b src maxSize) := by
  have r := Escape.read percentCode src.bytes
  have hdecoded : urlDecoded src.bytes = r.tokens.map Token.value := congrArg Prod.fst r.decode_eq
  have hmal : Malformed src.bytes maxSize ↔ r.tail ≠ [] ∧ r.tokens.length < maxSize := by
    rw [Malformed, urlDecoded, r.decode_eq, List.length_map]
  have hloop := urldecodeLoop_reading (b := b) (Nat.zero_le maxSize) r.tokens r.stuck
  have hlen : ((r.tokens.take maxSize).map Token.value ++ [0]).length ≤ maxSize + 1 := by
    simp
  obtain ⟨b', hstore, hstarts, hsize⟩ := (Block.starts_nil b).storeEach
    ((r.tokens.take maxSize).map Token.value ++ [0]) (by rw [List.length_nil]; omega)
  rw [List.length_nil] at hstore
  rw [r.spells, Nat.sub_zero, hstore] at hloop
  refine ⟨b', ?_, ?_, hsize⟩
  · rw [urldecode, hloop, List.length_nil, Nat.sub_zero, hdecoded, List.nil_append,
      List.length_take, List.length_map, Nat.zero_add]
    simp only [hmal]
    rfl
  · rwa [List.length_nil, Nat.sub_zero, hdecoded, List.nil_append, ← List.map_take]

end Urldecode

/-! ### Escaping -/

/-- A text with the characters that mean something in XML escaped. -/
def xmlEscaped (s : List UInt8) : List UInt8 :=
  Escape.substitute (fun c => (xmlEntity c).map CStr.bytes) s

/-- Escaping brings in no NUL. -/
theorem zero_notMem_xmlEscaped {s : List UInt8} (h : (0 : UInt8) ∉ s) :
    (0 : UInt8) ∉ xmlEscaped s := by
  intro hzero
  obtain ⟨c, hc, hglyph⟩ := List.mem_flatMap.mp hzero
  rw [Escape.glyph] at hglyph
  rcases hentity : xmlEntity c with _ | entity
  · rw [hentity, Option.map_none, Option.getD_none, List.mem_singleton] at hglyph
    exact h (hglyph ▸ hc)
  · rw [hentity, Option.map_some, Option.getD_some] at hglyph
    exact entity.nul_free hglyph

section Xmlencode

variable {b : Block} {text : List UInt8} {maxSize : ℕ}

/-- At the limit only the terminator is written. -/
theorem xmlencodeLoop_of_le {src : List UInt8} {currentSize dst : ℕ} (h : maxSize ≤ currentSize) :
    xmlencodeLoop maxSize src currentSize b dst = b.store dst 0 := by
  rcases src with _ | ⟨c, src⟩
  · rfl
  · rw [xmlencodeLoop, if_neg (Nat.not_lt.mpr h)]

/-- The loop of `xmlencode`, from a buffer that starts with `text`: while no entity was
cut, the counter is the index written at. -/
theorem xmlencodeLoop_spec (src : List UInt8) (hlen : text.length ≤ maxSize)
    (hroom : maxSize < b.size) (hb : b.Starts text) :
    ∃ b', xmlencodeLoop maxSize src text.length b text.length = .ok b' ∧
      b'.Starts ((text ++ xmlEscaped src).take maxSize ++ [0]) ∧ b'.size = b.size := by
  induction src generalizing b text with
  | nil =>
    obtain ⟨b', hstore, hstarts, hsize⟩ := hb.store (by omega) 0
    refine ⟨b', hstore, ?_, hsize⟩
    rwa [xmlEscaped, Escape.substitute_nil, List.append_nil, List.take_of_length_le hlen]
  | cons c src ih =>
    rw [xmlencodeLoop]
    split
    · rename_i hmore
      rcases hentity : xmlEntity c with _ | entity
      · -- a plain character
        have hglyph : xmlEscaped (c :: src) = [c] ++ xmlEscaped src := by
          rw [xmlEscaped, Escape.substitute_cons, Escape.glyph, hentity]
          rfl
        obtain ⟨b₁, hstore, hstarts, hsize⟩ := hb.store (by omega) c
        have hone : (text ++ [c]).length = text.length + 1 := by simp
        obtain ⟨b', hloop, hstarts', hsize'⟩ := ih (by omega) (hsize ▸ hroom) hstarts
        rw [hone] at hloop
        refine ⟨b', ?_, ?_, hsize'.trans hsize⟩
        · simp only [hstore, bind, Except.bind, hloop]
        · rwa [hglyph, ← List.append_assoc]
      · -- an entity, which `smartstrcat` may cut
        have hglyph : xmlEscaped (c :: src) = entity.bytes ++ xmlEscaped src := by
          rw [xmlEscaped, Escape.substitute_cons, Escape.glyph, hentity]
          rfl
        have hstep := smartstrcat_spec entity hlen hb
        rw [if_pos (lt_of_le_of_lt (Nat.min_le_right _ _) hroom)] at hstep
        obtain ⟨b₁, hcat, hstarts, hsize⟩ := hstep
        simp only [hcat, bind, Except.bind]
        by_cases hfits : (text ++ entity.bytes).length ≤ maxSize
        · -- the entity is there as a whole
          rw [List.take_of_length_le hfits] at hstarts ⊢
          obtain ⟨b', hloop, hstarts', hsize'⟩ := ih hfits (hsize ▸ hroom) hstarts.of_append
          rw [List.length_append] at hloop ⊢
          refine ⟨b', hloop, ?_, hsize'.trans hsize⟩
          rwa [hglyph, ← List.append_assoc]
        · -- the entity was cut, and the counter is over the limit
          have hcount : maxSize ≤ text.length + entity.strlen := by
            rw [CStr.strlen, ← List.length_append]
            omega
          obtain ⟨b', hstore, hstarts', hsize'⟩ := hstarts.of_append.store
            (by rw [List.length_take, hsize]; omega) 0
          refine ⟨b', by rw [xmlencodeLoop_of_le hcount, hstore], ?_, hsize'.trans hsize⟩
          rwa [hglyph, ← List.append_assoc, List.take_append_of_le_length (by omega)]
    · rename_i hfull
      obtain ⟨b', hstore, hstarts, hsize⟩ := hb.store (by omega) 0
      refine ⟨b', hstore, ?_, hsize⟩
      rwa [List.take_append_of_le_length (by omega), List.take_of_length_le hlen]

/-- **What `xmlencode` leaves** is the escaped source cut at the limit, whatever entity
is cut in two. -/
theorem xmlencode_spec (src : CStr) (hroom : maxSize < b.size) :
    ∃ b', xmlencode b src maxSize = .ok b' ∧
      b'.Starts ((xmlEscaped src.bytes).take maxSize ++ [0]) ∧ b'.size = b.size :=
  xmlencodeLoop_spec src.bytes (Nat.zero_le _) hroom (Block.starts_nil b)

end Xmlencode

end DialServer
