import DialServer.Concurrency
import DialServer.HeaderCase
import DialServer.RequestParsing
import DialServer.RequestReading
import DialServer.RequestUri

/-!
# A connection

`process_new_connection` reads the head of a request, parses it and hands it to the callback;
the callback reads the body with `mg_connection::read`, partly from what came into the buffer
behind the head and partly from the socket, and no more of it than `Content-Length` says.

What the reads of a callback deliver, one after the other, is one text, the content
(`DialServer.Conn.reads_flatten`): the bytes of the stream behind the head, as many of them as
there should be, wherever the boundary between buffer and socket is. So how the bytes of a
request come does not matter to what the server does with it, as long as there is no control
character in it (`DialServer.processNewConnection_congr`).

If the length is below -1, the assertion of `mg_connection::read` fails
(`DialServer.Conn.safe_iff`), and the server is gone once a callback reads the body
(`DialServer.readsBody`).
-/

namespace DialServer

open CLib Chunks Http

/-! ### Reading the body -/

/-- The fields of `mg_connection` that reading goes by; `buf` are the `data_len` bytes in the
buffer. -/
structure Conn where
  buf : List UInt8
  requestLen : ℕ
  contentLen : ℤ
  consumedContent : ℕ
  sock : Socket

/-- The loop at the end of `mg_connection::read`, of at most `fuel` calls of `pull`, with `len`
bytes to go; `pull` is given `(int) len`, and less than none is an error. What it delivers, and what
is left to come. -/
def pullLoop : ℕ → ℕ → Socket → List UInt8 × Socket
  | fuel + 1, len, sock =>
    if 0 < len then
      let (data, sock') := pull (Int.bmod len (2 ^ 32)).toNat sock
      if data = [] then ([], sock')
      else
        let more := pullLoop fuel (len - data.length) sock'
        (data ++ more.1, more.2)
    else ([], sock)
  | 0, _, sock => ([], sock)

/-- How many bytes `mg_connection::read` is to deliver if `toRead` are left: with
`to_read < (int64_t) len`, `len` becomes `(int) to_read`, a `size_t` again. -/
def readLength (toRead : ℤ) (len : ℕ) : ℕ :=
  if toRead < Int.bmod len (2 ^ 64) then (Int.bmod toRead (2 ^ 32) % 2 ^ 64).toNat else len

/-- So many bytes were delivered. -/
def Conn.advance (c : Conn) (n : ℕ) (sock : Socket) : Conn :=
  { c with consumedContent := c.consumedContent + n, sock }

section Advance

variable (c : Conn) (n : ℕ) (sock : Socket)

@[simp] theorem Conn.buf_advance : (c.advance n sock).buf = c.buf := rfl

@[simp] theorem Conn.requestLen_advance : (c.advance n sock).requestLen = c.requestLen := rfl

@[simp] theorem Conn.contentLen_advance : (c.advance n sock).contentLen = c.contentLen := rfl

@[simp] theorem Conn.consumedContent_advance :
    (c.advance n sock).consumedContent = c.consumedContent + n := rfl

@[simp] theorem Conn.sock_advance : (c.advance n sock).sock = sock := rfl

end Advance

/-- `mg_connection::read`, without its assertion. -/
def Conn.read (c : Conn) (len : ℕ) : List UInt8 × Conn :=
  if c.consumedContent < c.contentLen then
    let len := readLength (c.contentLen - c.consumedContent) len
    let buffered := (c.buf.drop (c.requestLen + c.consumedContent)).take len
    let pulled := pullLoop (len - buffered.length) (len - buffered.length) c.sock
    (buffered ++ pulled.1, c.advance (buffered.length + pulled.1.length) pulled.2)
  else ([], c)

/-- The bytes behind the head that were not read yet. -/
def Conn.pending (c : Conn) : List UInt8 :=
  c.buf.drop (c.requestLen + c.consumedContent) ++ c.sock.flatten

/-- What can still be read: the pending bytes, as many as there should be. -/
def Conn.content (c : Conn) : List UInt8 :=
  c.pending.take (c.contentLen - c.consumedContent).toNat

/-- What the assertion of `read` demands. -/
def Conn.Asserted (c : Conn) : Prop :=
  c.contentLen = -1 ∧ c.consumedContent = 0 ∨ c.consumedContent ≤ c.contentLen

instance (c : Conn) : Decidable c.Asserted := instDecidableOr

/-- A number that an `int` can hold, and one that an `int64_t` can. -/
theorem bmod_int {n : ℤ} (hmin : 0 ≤ n) (hmax : n < 2 ^ 31) : Int.bmod n (2 ^ 32) = n :=
  Int.bmod_eq_of_le (by omega) (by omega)

theorem bmod_int64 {n : ℤ} (hmin : 0 ≤ n) (hmax : n < 2 ^ 63) : Int.bmod n (2 ^ 64) = n :=
  Int.bmod_eq_of_le (by omega) (by omega)

/-- The loop delivers so many bytes, if an `int` can say how many. -/
theorem pullLoop_eq {fuel len : ℕ} {sock : Socket} (hs : Solid sock) (hlen : len < 2 ^ 31)
    (hfuel : len ≤ fuel) :
    (pullLoop fuel len sock).1 = sock.flatten.take len ∧
      (pullLoop fuel len sock).2.flatten = sock.flatten.drop len := by
  induction fuel generalizing len sock with
  | zero =>
    rw [Nat.le_zero.mp hfuel]
    exact ⟨rfl, rfl⟩
  | succ fuel ih =>
    rw [pullLoop, bmod_int (Int.natCast_nonneg len) (by omega), Int.toNat_natCast]
    split
    · rename_i hpos
      have hpull := pull_append len sock
      have hle := length_pull_le len sock
      dsimp only
      split
      · rename_i hnil
        rw [pull_eq_nil hs hpos hnil]
        exact ⟨List.take_nil.symm, List.drop_nil.symm⟩
      · rename_i hne
        have hdata := List.length_pos_iff.mpr hne
        have hless : len - (pull len sock).1.length < 2 ^ 31 := by omega
        obtain ⟨htake, hdrop⟩ := ih hs.pull hless (by omega)
        rw [htake, hdrop, ← hpull, List.take_append, List.drop_append,
          List.take_of_length_le hle, List.drop_eq_nil_of_le hle]
        exact ⟨rfl, rfl⟩
    · rename_i hzero
      rw [Nat.eq_zero_of_not_pos hzero]
      exact ⟨rfl, rfl⟩

theorem solid_pullLoop {fuel len : ℕ} {sock : Socket} (hs : Solid sock) :
    Solid (pullLoop fuel len sock).2 := by
  induction fuel generalizing len sock with
  | zero => exact hs
  | succ fuel ih =>
    rw [pullLoop]
    split
    · dsimp only
      split
      · exact hs.pull
      · exact ih hs.pull
    · exact hs

/-- **It never delivers more than `m` bytes**, if `m` is what it is asked for up to the conversion:
as long as there are less, at most what is missing is asked for. -/
theorem length_pullLoop_le {len m : ℕ} (h : (len : ℤ) % 2 ^ 32 = m % 2 ^ 32) (fuel : ℕ)
    (sock : Socket) : (pullLoop fuel len sock).1.length ≤ m := by
  induction fuel generalizing len m sock with
  | zero => exact Nat.zero_le _
  | succ fuel ih =>
    rw [pullLoop]
    split
    · dsimp only
      split
      · exact Nat.zero_le _
      · rename_i hne
        have hdata := List.length_pos_iff.mpr hne
        have hle := length_pull_le (Int.bmod len (2 ^ 32)).toNat sock
        generalize (pull (Int.bmod len (2 ^ 32)).toNat sock).1 = data at hdata hle ⊢
        have hbmod := Int.bmod_def (len : ℤ) (2 ^ 32)
        have hroom : data.length ≤ m ∧ data.length ≤ len := by
          split_ifs at hbmod <;> omega
        have hless : ((len - data.length : ℕ) : ℤ) % 2 ^ 32 = (m - data.length : ℕ) % 2 ^ 32 := by
          omega
        have hmore := ih hless (pull (Int.bmod len (2 ^ 32)).toNat sock).2
        rw [List.length_append]
        omega
    · exact Nat.zero_le _

/-- What one read delivers, and what it leaves. -/
structure Conn.Read (c : Conn) (n : ℕ) (r : List UInt8 × Conn) : Prop where
  data : r.1 = c.pending.take n
  pending : r.2.pending = c.pending.drop n
  contentLen : r.2.contentLen = c.contentLen
  consumed : r.2.consumedContent = c.consumedContent + r.1.length
  solid : Solid r.2.sock

/-- How many bytes a read asks for: without the conversions, as many as it is given, or as there
are still to come. -/
theorem readLength_eq {toRead : ℤ} {len : ℕ} (hlen : len < 2 ^ 31) (hpos : 0 < toRead) :
    readLength toRead len = min len toRead.toNat := by
  have hcast : Int.bmod len (2 ^ 64) = len := bmod_int64 (Int.natCast_nonneg len) (by omega)
  unfold readLength
  rw [hcast]
  by_cases hle : toRead < len
  · rw [if_pos hle, bmod_int hpos.le (by omega)]
    omega
  · rw [if_neg hle]
    omega

/-- **One read** delivers the first of the pending bytes. -/
theorem Conn.read_spec {c : Conn} (hs : Solid c.sock) {len : ℕ} (hlen : len < 2 ^ 31) :
    c.Read (min len (c.contentLen - c.consumedContent).toNat) (c.read len) := by
  by_cases hmore : c.consumedContent < c.contentLen
  · rw [read, if_pos hmore, readLength_eq hlen (by omega)]
    have hn : min len (c.contentLen - c.consumedContent).toNat < 2 ^ 31 := by omega
    generalize min len (c.contentLen - c.consumedContent).toNat = n at hn
    dsimp only
    generalize hb : c.buf.drop (c.requestLen + c.consumedContent) = b
    have hless : n - (b.take n).length < 2 ^ 31 := by omega
    obtain ⟨hdata, hrest⟩ := pullLoop_eq hs hless le_rfl
    have hsplit : n - (b.take n).length = n - b.length := by
      rw [List.length_take]
      omega
    have hpending : c.pending = b ++ c.sock.flatten := congrArg (· ++ c.sock.flatten) hb
    refine ⟨?_, ?_, c.contentLen_advance _ _, ?_, solid_pullLoop hs⟩
    · rw [hdata, hpending, List.take_append, hsplit]
    · -- Either the buffer has all there is to deliver, or nothing is left in it.
      have hbuf : c.buf.drop (c.requestLen + (c.consumedContent + ((b.take n).length +
          (c.sock.flatten.take (n - (b.take n).length)).length))) = b.drop n := by
        rw [← Nat.add_assoc c.requestLen, ← List.drop_drop, hb]
        by_cases hle : n ≤ b.length
        · rw [hsplit, Nat.sub_eq_zero_of_le hle, List.take_zero, List.length_take,
            Nat.min_eq_left hle]
          rfl
        · rw [List.drop_eq_nil_of_le (i := n) (by omega), List.drop_eq_nil_of_le]
          rw [List.length_take]
          omega
      rw [hpending, List.drop_append, ← hsplit, pending, buf_advance, requestLen_advance,
        consumedContent_advance, sock_advance, hdata, hrest, hbuf]
    · rw [consumedContent_advance, List.length_append]
  · have hn : min len (c.contentLen - c.consumedContent).toNat = 0 := by omega
    rw [hn, read, if_neg hmore]
    exact ⟨rfl, rfl, rfl, rfl, hs⟩

/-- **One read takes the first bytes of the content**, and leaves the others. -/
theorem Conn.read_content {c : Conn} (hs : Solid c.sock) {len : ℕ} (hlen : len < 2 ^ 31) :
    (c.read len).1 = c.content.take len ∧ (c.read len).2.content = c.content.drop len := by
  have h := read_spec hs hlen
  generalize hm : (c.contentLen - c.consumedContent).toNat = m at h
  have hcontent : c.content = c.pending.take m := congrArg (c.pending.take ·) hm
  refine ⟨by rw [h.data, hcontent, List.take_take], ?_⟩
  have hleft : ((c.read len).2.contentLen - (c.read len).2.consumedContent).toNat =
      m - (c.read len).1.length := by
    rw [h.contentLen, h.consumed]
    omega
  rw [content, hleft, h.pending, hcontent, List.drop_take, h.data, List.length_take]
  rcases Nat.le_total (min len m) c.pending.length with hle | hle
  · rw [Nat.min_eq_left hle]
    rcases Nat.le_total len m with hlen | hlen
    · rw [Nat.min_eq_left hlen]
    · rw [Nat.min_eq_right hlen, Nat.sub_self, Nat.sub_eq_zero_of_le hlen, List.take_zero,
        List.take_zero]
  · -- If less was read than asked for, there was no more.
    rw [List.drop_eq_nil_of_le hle, List.take_nil]
    rcases Nat.le_total len m with hlen | hlen
    · rw [Nat.min_eq_left hlen] at hle
      rw [List.drop_eq_nil_of_le hle, List.take_nil]
    · rw [Nat.sub_eq_zero_of_le hlen, List.take_zero]

/-- The reads of a callback, one after the other. -/
def Conn.reads (c : Conn) : List ℕ → List (List UInt8) × Conn
  | [] => ([], c)
  | len :: lens => ((c.read len).1 :: ((c.read len).2.reads lens).1, ((c.read len).2.reads lens).2)

/-- **Together the reads deliver the content**, as much of it as was asked for, if each asks for no
more than an `int` can say. -/
theorem Conn.reads_flatten {c : Conn} (hs : Solid c.sock) {lens : List ℕ}
    (hlens : ∀ len ∈ lens, len < 2 ^ 31) :
    (c.reads lens).1.flatten = c.content.take lens.sum := by
  induction lens generalizing c with
  | nil => rfl
  | cons len lens ih =>
    have hlen : len < 2 ^ 31 := hlens len List.mem_cons_self
    obtain ⟨hdata, hcontent⟩ := read_content hs hlen
    rw [reads, List.flatten_cons, List.sum_cons, ih (read_spec hs hlen).solid fun n hn =>
      hlens n (List.mem_cons_of_mem _ hn), hdata, hcontent, List.take_add]

/-- A body of two bytes, one of them in the buffer, with a third byte behind it. -/
def splitConn : Conn := ⟨[71, 10, 10, 104], 3, 2, 0, [[105, 33]]⟩

/-- It is delivered in two reads. -/
theorem Conn.reads_flatten_split : (splitConn.reads [1, 5]).1.flatten = [104, 105] :=
  reads_flatten (c := splitConn) (by simp [splitConn, Solid])
    (show ∀ len ∈ [1, 5], len < 2 ^ 31 by simp)

/-- The assertion of `read` holds before each of these reads. -/
def Conn.AssertedIn (c : Conn) : List ℕ → Prop
  | [] => True
  | len :: lens => c.Asserted ∧ (c.read len).2.AssertedIn lens

/-- `body_len` in `discard_current_request_from_buffer`, an `int`. -/
def Conn.bodyLen (c : Conn) : ℤ :=
  let bufferedLen : ℤ := c.buf.length - c.requestLen
  if c.contentLen = -1 then 0
  else if c.contentLen < bufferedLen then Int.bmod c.contentLen (2 ^ 32)
  else bufferedLen

/-- What `discard_current_request_from_buffer` moves to the front is part of the buffer. -/
def Conn.DiscardInBounds (c : Conn) : Prop :=
  0 ≤ c.requestLen + c.bodyLen ∧ c.requestLen + c.bodyLen ≤ c.buf.length

/-- Reading moves neither the buffer nor the lengths. -/
structure Conn.SameBuffer (c c' : Conn) : Prop where
  buf : c'.buf = c.buf
  requestLen : c'.requestLen = c.requestLen
  contentLen : c'.contentLen = c.contentLen

theorem Conn.sameBuffer_read (c : Conn) (len : ℕ) : c.SameBuffer (c.read len).2 := by
  by_cases hmore : c.consumedContent < c.contentLen
  · rw [read, if_pos hmore]
    exact ⟨buf_advance .., requestLen_advance .., contentLen_advance ..⟩
  · rw [read, if_neg hmore]
    exact ⟨rfl, rfl, rfl⟩

theorem Conn.sameBuffer_reads (c : Conn) (lens : List ℕ) : c.SameBuffer (c.reads lens).2 := by
  induction lens generalizing c with
  | nil => exact ⟨rfl, rfl, rfl⟩
  | cons len lens ih =>
    have hread := c.sameBuffer_read len
    have hreads := ih (c.read len).2
    exact ⟨hreads.buf.trans hread.buf, hreads.requestLen.trans hread.requestLen,
      hreads.contentLen.trans hread.contentLen⟩

/-- With the conversions, what a read asks for behind the bytes it takes from the buffer is, up to a
multiple of `2 ^ 32`, no more than is left. -/
theorem readLength_bound {toRead : ℤ} {len buffered : ℕ} (hlen : len < 2 ^ 63) (hpos : 0 < toRead)
    (hbuffered : buffered < 2 ^ 31) (hle : buffered ≤ readLength toRead len) :
    ∃ m : ℕ, buffered + m ≤ toRead ∧
      ((readLength toRead len - buffered : ℕ) : ℤ) % 2 ^ 32 = m % 2 ^ 32 := by
  have hcast : Int.bmod len (2 ^ 64) = len := bmod_int64 (Int.natCast_nonneg len) (by omega)
  unfold readLength at hle ⊢
  rw [hcast] at hle ⊢
  by_cases hless : toRead < len
  · rw [if_pos hless] at hle ⊢
    have hbmod := Int.bmod_def toRead (2 ^ 32)
    refine ⟨toRead.toNat - buffered, ?_, ?_⟩
    · split_ifs at hbmod <;> omega
    · split_ifs at hbmod <;> omega
  · rw [if_neg hless] at hle ⊢
    exact ⟨len - buffered, by omega, rfl⟩

/-- **No read takes more than there should be.** -/
theorem Conn.asserted_read {c : Conn} (hbuf : c.buf.length < 2 ^ 31) (h : c.Asserted) {len : ℕ}
    (hlen : len < 2 ^ 63) : (c.read len).2.Asserted := by
  by_cases hmore : c.consumedContent < c.contentLen
  · rw [read, if_pos hmore]
    generalize hn : readLength (c.contentLen - c.consumedContent) len = n
    have hbuffered : ((c.buf.drop (c.requestLen + c.consumedContent)).take n).length ≤
        c.buf.length := (List.length_take_le' _ _).trans (List.drop_sublist _ _).length_le
    have htake := List.length_take_le n (c.buf.drop (c.requestLen + c.consumedContent))
    dsimp only
    generalize (c.buf.drop (c.requestLen + c.consumedContent)).take n = buffered at *
    have hpos : 0 < c.contentLen - c.consumedContent := by omega
    have hsmall : buffered.length < 2 ^ 31 := by omega
    obtain ⟨m, hm, hmod⟩ := readLength_bound hlen hpos hsmall (by omega)
    rw [hn] at hmod
    have hdata := length_pullLoop_le hmod (n - buffered.length) c.sock
    rw [Asserted, contentLen_advance, consumedContent_advance]
    omega
  · rw [read, if_neg hmore]
    exact h

/-- **Whatever is read, the assertion of `read` holds and the rest is found in the buffer** if
and only if the length of the body is not below -1. -/
theorem Conn.safe_iff {c : Conn} (hnew : c.consumedContent = 0)
    (hbuf : c.buf.length < 2 ^ 31) (hrequest : c.requestLen ≤ c.buf.length) :
    (∀ lens, (∀ len ∈ lens, len < 2 ^ 63) →
      c.AssertedIn lens ∧ (c.reads lens).2.DiscardInBounds) ↔ -1 ≤ c.contentLen := by
  constructor
  · intro hall
    have h := (hall [0] (by simp)).1.1
    rw [Asserted, hnew] at h
    omega
  · intro hcontentLen lens hlens
    constructor
    · have h : c.Asserted := by
        rw [Asserted, hnew]
        omega
      clear hcontentLen hnew hrequest
      induction lens generalizing c with
      | nil => trivial
      | cons len lens ih =>
        refine ⟨h, ih ?_ (fun n hn => hlens n (List.mem_cons_of_mem _ hn))
          (asserted_read hbuf h (hlens len List.mem_cons_self))⟩
        rwa [(c.sameBuffer_read len).buf]
    · have hsame := c.sameBuffer_reads lens
      have hmod : c.contentLen < c.buf.length - c.requestLen →
          Int.bmod c.contentLen (2 ^ 32) = c.contentLen := fun hlt => by
        rw [Int.bmod_eq_of_le] <;> omega
      rw [DiscardInBounds, bodyLen, hsame.buf, hsame.requestLen, hsame.contentLen]
      split
      · omega
      · split
        · rename_i hlt
          rw [hmod hlt]
          omega
        · omega

/-- Reading the body of two bytes is safe. -/
theorem Conn.safe_iff_split :
    (∀ lens, (∀ len ∈ lens, len < 2 ^ 63) →
      splitConn.AssertedIn lens ∧ (splitConn.reads lens).2.DiscardInBounds) ↔
      -1 ≤ splitConn.contentLen :=
  safe_iff rfl (by decide) (by decide)

/-! ### The length of the body -/

/-- The number a run of digits denotes. -/
def digitsValue (digits : List UInt8) : ℕ :=
  digits.foldl (fun n c => 10 * n + (c - '0'.toUInt8).toNat) 0

/-- `strtoll` in base 10, for a `long long` of 64 bits. -/
def strtoll (s : CStr) : ℤ :=
  let text := skipSpace s.bytes
  let negative : Bool := text.head? = some '-'.toUInt8
  let unsigned := if negative || text.head? = some '+'.toUInt8 then text.tail else text
  let n := digitsValue (unsigned.takeWhile isdigit)
  if negative then max (-n) (-2 ^ 63) else min n (2 ^ 63 - 1)

/-- What `process_new_connection` takes for the length of the body. -/
def contentLength (httpHeaders : List (CStr × CStr)) : ℤ :=
  match getHeader httpHeaders (.lit "Content-Length") with
  | none => -1
  | some cl => strtoll cl

/-- The byte of a digit. -/
theorem toNat_digit {c : Char} (h : c.isDigit = true) :
    (UInt8.ofNat c.toNat).toNat = c.toNat ∧ 48 ≤ c.toNat ∧ c.toNat ≤ 57 := by
  obtain ⟨hmin, hmax⟩ : 48 ≤ c.toNat ∧ c.toNat ≤ 57 := Char.isDigit_iff_toNat.mp h
  exact ⟨UInt8.toNat_ofNat_of_lt' (by rw [UInt8.size]; omega), hmin, hmax⟩

theorem bytes_ofNat (n : ℕ) :
    (CStr.ofNat n).bytes = (Nat.toDigits 10 n).map fun c => UInt8.ofNat c.toNat := by
  rw [CStr.ofNat, Nat.toString_eq_ofList_toDigits]
  simp only [CStr.lit, String.toList_ofList]
  refine List.filter_eq_self.mpr fun b hb => ?_
  obtain ⟨c, hc, rfl⟩ := List.mem_map.mp hb
  obtain ⟨hbyte, hmin, -⟩ := toNat_digit (Nat.isDigit_of_mem_toDigits (by decide) (by decide) hc)
  rw [decide_eq_true_iff, Ne, ← UInt8.toNat_inj, hbyte, UInt8.toNat_zero]
  omega

/-- The digits of a number denote it. -/
theorem digitsValue_ofNat (n : ℕ) : digitsValue (CStr.ofNat n).bytes = n := by
  have hfold : ∀ (l : List Char), (∀ c ∈ l, c.isDigit = true) → ∀ k : ℕ,
      (l.map fun c => UInt8.ofNat c.toNat).foldl
        (fun n c => 10 * n + (c - '0'.toUInt8).toNat) k = Nat.ofDigitChars 10 l k := by
    intro l
    induction l with
    | nil => exact fun _ k => Nat.ofDigitChars_nil.symm
    | cons c l ih =>
      intro hl k
      obtain ⟨hbyte, hmin, -⟩ := toNat_digit (hl c List.mem_cons_self)
      have hdigit : (UInt8.ofNat c.toNat - '0'.toUInt8).toNat = c.toNat - '0'.toNat := by
        have hle : '0'.toUInt8 ≤ UInt8.ofNat c.toNat := by
          rw [UInt8.le_iff_toNat_le, hbyte]
          exact hmin
        rw [UInt8.toNat_sub_of_le _ _ hle, hbyte]
        rfl
      rw [List.map_cons, List.foldl_cons, hdigit, Nat.ofDigitChars_cons,
        ih fun d hd => hl d (List.mem_cons_of_mem _ hd)]
  rw [digitsValue, bytes_ofNat, hfold _ fun c hc =>
    Nat.isDigit_of_mem_toDigits (by decide) (by decide) hc]
  exact Nat.ofDigitChars_ten_toDigits

theorem not_special_of_isdigit (c : UInt8) : isdigit c = true →
    isspace c = false ∧ c ≠ '-'.toUInt8 ∧ c ≠ '+'.toUInt8 := by
  revert c
  refine forall_byte ?_
  decide +kernel

/-- **A length is read as it is written.** -/
theorem strtoll_ofNat {n : ℕ} (h : n < 2 ^ 63) : strtoll (CStr.ofNat n) = n := by
  have hdigits : ∀ c ∈ (CStr.ofNat n).bytes, isdigit c = true := fun c hc => by
    rw [isdigit, Bool.and_eq_true, decide_eq_true_iff, decide_eq_true_iff]
    exact digit_of_mem_ofNat hc
  have hne : (CStr.ofNat n).bytes ≠ [] := by
    rw [bytes_ofNat, Ne, List.map_eq_nil_iff]
    exact Nat.toDigits_ne_nil
  have hword : IsWord (CStr.ofNat n).bytes :=
    ⟨hne, fun c hc => (not_special_of_isdigit c (hdigits c hc)).1⟩
  have hskip : skipSpace (CStr.ofNat n).bytes = (CStr.ofNat n).bytes := by
    have := hword.skipSpace_append []
    rwa [List.append_nil] at this
  have hhead : ∀ c, c = '-'.toUInt8 ∨ c = '+'.toUInt8 → (CStr.ofNat n).bytes.head? ≠ some c := by
    rintro c hc hsome
    obtain ⟨-, hminus, hplus⟩ := not_special_of_isdigit c (hdigits c (List.mem_of_mem_head? hsome))
    exact hc.elim hminus hplus
  have hvalue : digitsValue ((CStr.ofNat n).bytes.takeWhile isdigit) = n := by
    rw [List.takeWhile_eq_self_iff.mpr hdigits, digitsValue_ofNat]
  simp only [strtoll, hskip, hhead _ (.inl rfl), hhead _ (.inr rfl), decide_false, Bool.or_self,
    Bool.false_eq_true, if_false, hvalue]
  omega

/-- The length that was written into the header. -/
theorem contentLength_of_getHeader {httpHeaders : List (CStr × CStr)} {n : ℕ}
    (h : getHeader httpHeaders (.lit "Content-Length") = some (.ofNat n)) (hn : n < 2 ^ 63) :
    contentLength httpHeaders = n := by
  rw [contentLength, h]
  exact strtoll_ofNat hn

/-! ### Requests -/

/-- `MAX_REQUEST_SIZE`. -/
def maxRequestSize : ℕ := 4096

/-- What has come over a connection, as `process_new_connection` tells it apart. -/
inductive Received
  /-- The buffer is full. -/
  | tooLarge
  /-- The other side has closed the connection, or what it sent is malformed. -/
  | nothing
  /-- It cannot be parsed. What is left of it in the buffer is the white space in front of it
  and its first word. -/
  | garbage (text : CStr)
  /-- The version is strange. -/
  | strange
  /-- A request, and the connection to read its body from. -/
  | request (info : RequestInfo) (conn : Conn)

/-- What `process_new_connection` makes of the head of a request, `requestLen` bytes at the start
of `buf`, with `sock` to read on from. -/
def receiveHead (requestLen : ℕ) (buf : List UInt8) (sock : Socket) : Received :=
  -- a NUL is put over the last byte of the head
  let text := CStr.ofBuffer (buf.take (requestLen - 1))
  let blanks := (text.bytes.takeWhile isspace).length
  match parseHttpRequest text with
  | none => .garbage (text.take (blanks + (skip (text.drop blanks) (.lit " ")).1.strlen))
  | some info =>
    if info.httpVersion ≠ .lit "1.0" ∧ info.httpVersion ≠ .lit "1.1" then .strange
    else .request info ⟨buf, requestLen, contentLength info.httpHeaders, 0, sock⟩

/-- The part of `process_new_connection` up to where it knows what has come. -/
def receive (sock : Socket) : Received :=
  let (requestLen, buf, sock) := readRequest maxRequestSize sock
  if requestLen = 0 ∧ buf.length = maxRequestSize then .tooLarge
  else if requestLen ≤ 0 then .nothing
  else receiveHead requestLen.toNat buf sock

/-- The request as the callback sees it. -/
def RequestInfo.toRequest (info : RequestInfo) (laddr raddr : InAddr) (body : List UInt8) :
    MgRequest where
  requestMethod := info.requestMethod
  uri := (requestUri info.uri).1
  queryString := (requestUri info.uri).2
  httpHeaders := info.httpHeaders
  localAddr := laddr
  remoteAddr := raddr
  body := body

variable {σ : Type}

/-- A handler that reads the body of its request. -/
def Action.readsBody : Action → Bool
  | .start => true
  | .dialData usePayload => usePayload
  | _ => false

/-- The callback gets to the point where it reads the body: nothing stops the request, and the
application is found. -/
def readsBody (w : World σ) (r : MgRequest) : Bool :=
  match firstStep w r with
  | .inl _ => false
  | .inr (action, appName) => action.readsBody && (lookupApp w.apps appName.str).isSome

/-- **What it does otherwise does not depend on the body.** -/
theorem requestHandler_congr_body (H : Host σ) {w : World σ} {r : MgRequest}
    (h : readsBody w r = false) (body : List UInt8) :
    requestHandler H w { r with body } = requestHandler H w r := by
  have hfirst : firstStep w { r with body } = firstStep w r := rfl
  rw [requestHandler_eq_steps, requestHandler_eq_steps, hfirst]
  rw [readsBody] at h
  cases hstep : firstStep w r with
  | inl o => rfl
  | inr passed =>
    obtain ⟨action, appName⟩ := passed
    rw [hstep, Bool.and_eq_false_iff, Option.isSome_eq_false_iff, Option.isNone_iff_eq_none] at h
    have hhandle : handle H w { r with body } action appName.str =
        handle H w r action appName.str := by
      rcases h with hreads | hlookup
      · cases action with
        | start => exact absurd hreads (by decide)
        | dialData usePayload =>
          cases usePayload with
          | true => exact absurd hreads (by decide)
          | false => rfl
        | _ => rfl
      · cases action with
        | start =>
          simp only [handle, handleAppStart, lookupApp] at hlookup ⊢
          rw [hlookup]
        | dialData usePayload =>
          simp only [handle, handleDialData, lookupApp] at hlookup ⊢
          rw [hlookup]
        | _ => rfl
    exact congrArg (fun o => comparing w appName True (freeAppName appName o)) hhandle

/-- `process_new_connection`. The callback reads the body in one piece or in several; what it
can read is the content. It does nothing before it reads, so nothing has happened if the assertion
of `mg_connection::read` fails. -/
def processNewConnection (H : Host σ) (w : World σ) (laddr raddr : InAddr) (sock : Socket) :
    Outcome σ :=
  match receive sock with
  | .tooLarge => ⟨w, [], [.httpError 413 (.lit "Request Too Large") (.lit "")], none⟩
  | .nothing => ⟨w, [], [], none⟩
  | .garbage text => ⟨w, [], [.httpError 400 (.lit "Bad Request")
      (.lit "Cannot parse HTTP request: [" ++ text ++ .lit "]")], none⟩
  | .strange => ⟨w, [], [.httpError 505 (.lit "HTTP version not supported") (.lit "")], none⟩
  | .request info conn =>
    let r := info.toRequest laddr raddr conn.content
    if readsBody w r ∧ ¬conn.Asserted then .crash w [] .abort else requestHandler H w r

/-! ### What does not matter -/

/-- No control characters. -/
def Clean (text : List UInt8) : Prop := text.all (!isControl ·) = true

instance (text : List UInt8) : Decidable (Clean text) :=
  inferInstanceAs (Decidable (text.all (!isControl ·) = true))

/-- The same has come, up to where the body is read from. -/
inductive Received.Same : Received → Received → Prop
  | tooLarge : Same .tooLarge .tooLarge
  | nothing : Same .nothing .nothing
  | garbage {text} : Same (.garbage text) (.garbage text)
  | strange : Same .strange .strange
  | request {info conn conn'} : conn.content = conn'.content → (conn.Asserted ↔ conn'.Asserted) →
    Same (.request info conn) (.request info conn')

theorem Received.Same.symm {r r' : Received} (h : r.Same r') : r'.Same r := by
  cases h with
  | tooLarge => exact .tooLarge
  | nothing => exact .nothing
  | garbage => exact .garbage
  | strange => exact .strange
  | request hcontent hasserted => exact .request hcontent.symm hasserted.symm

theorem Received.Same.trans {r r' r'' : Received} (h : r.Same r') (h' : r'.Same r'') :
    r.Same r'' := by
  cases h with
  | tooLarge => exact h'
  | nothing => exact h'
  | garbage => exact h'
  | strange => exact h'
  | request hcontent hasserted =>
    cases h' with
    | request hcontent' hasserted' =>
      exact .request (hcontent.trans hcontent') (hasserted.trans hasserted')

/-- Where the buffer ends does not matter. -/
theorem same_receiveHead {p buf stream : List UInt8} {sock : Socket} (hp : p <+: buf)
    (hstream : buf ++ sock.flatten = stream) :
    (receiveHead p.length buf sock).Same (receiveHead p.length p [stream.drop p.length]) := by
  have htext : buf.take (p.length - 1) = p.take (p.length - 1) := by
    obtain ⟨t, rfl⟩ := hp
    rw [List.take_append_of_le_length (Nat.sub_le _ _)]
  rw [receiveHead, receiveHead, htext]
  split
  · exact .garbage
  · split
    · exact .strange
    · refine .request ?_ Iff.rfl
      have hpending : buf.drop p.length ++ sock.flatten = stream.drop p.length := by
        rw [← hstream, List.drop_append_of_le_length hp.length_le]
      simp only [Conn.content, Conn.pending, Nat.add_zero, hpending, List.drop_length,
        List.flatten_singleton, List.nil_append]

/-- A head that is found in the first bytes of a stream is the head of the stream. -/
theorem Head.of_take {p stream : List UInt8} {n : ℕ} (h : Head p (stream.take n)) :
    Head p stream ∧ p.length ≤ n := by
  have hlen : p.length ≤ n := h.prefix_of.length_le.trans (List.length_take_le _ _)
  refine ⟨⟨h.prefix_of.trans (List.take_prefix _ _), h.ends, fun q hq hends => ?_⟩, hlen⟩
  by_cases hqn : q.length ≤ n
  · exact h.first q (List.prefix_take_iff.mpr ⟨hq, hqn⟩) hends
  · omega

/-- A head without control characters is what is received. -/
theorem same_receive {p : List UInt8} {sock : Socket} (hs : Solid sock) (h : Head p sock.flatten)
    (hp : p.length ≤ maxRequestSize) (hclean : Clean p) :
    (receive sock).Same (receiveHead p.length p [sock.flatten.drop p.length]) := by
  obtain ⟨hlen, hprefix, -, hstream⟩ := readRequest_delivers hs h hp hclean
  have hpos := h.length_pos
  rw [receive]
  dsimp only
  rw [hlen, if_neg fun h' => by omega, if_neg (by omega), Int.toNat_natCast]
  exact same_receiveHead hprefix hstream

/-- **What is received does not depend on how it comes**, unless there are control characters
in it. -/
theorem receive_congr {sock sock' : Socket} (hs : Solid sock) (hs' : Solid sock')
    (hstream : sock.flatten = sock'.flatten) (hclean : Clean (sock.flatten.take maxRequestSize)) :
    (receive sock).Same (receive sock') := by
  by_cases hhead : HasHead (sock.flatten.take maxRequestSize)
  · obtain ⟨p, hp⟩ := exists_head hhead
    have hp' : Clean p := List.all_eq_true.mpr fun c hc =>
      List.all_eq_true.mp hclean c (hp.prefix_of.subset hc)
    obtain ⟨hstart, hlen⟩ := hp.of_take
    have h := same_receive hs hstart hlen hp'
    have h' := same_receive hs' (hstream ▸ hstart) hlen hp'
    rw [← hstream] at h'
    exact h.trans h'.symm
  · -- Then all that counts is whether the buffer is full.
    obtain ⟨hlen, hbuf⟩ := readRequest_full hs hhead hclean
    obtain ⟨hlen', hbuf'⟩ := readRequest_full hs' (hstream ▸ hhead) (hstream ▸ hclean)
    rw [receive, receive]
    dsimp only
    rw [hlen, hlen', hbuf, hbuf', ← hstream]
    split
    · exact .tooLarge
    · exact .nothing

/-- **How a request comes does not matter to the server**: not the chunks, not where the buffer
ends, whatever it is, unless there are control characters in what fits into the buffer. -/
theorem processNewConnection_congr (H : Host σ) (w : World σ) (laddr raddr : InAddr)
    {sock sock' : Socket} (hs : Solid sock) (hs' : Solid sock')
    (hstream : sock.flatten = sock'.flatten) (hclean : Clean (sock.flatten.take maxRequestSize)) :
    processNewConnection H w laddr raddr sock = processNewConnection H w laddr raddr sock' := by
  have h := receive_congr hs hs' hstream hclean
  rw [processNewConnection, processNewConnection]
  generalize receive sock = r at h
  generalize receive sock' = r' at h
  cases h with
  | tooLarge => rfl
  | nothing => rfl
  | garbage => rfl
  | strange => rfl
  | request hcontent hasserted => simp only [hcontent, hasserted]

/-- A request with a body of two bytes. -/
def probeInfo : RequestInfo :=
  ⟨.lit "POST", .lit "/apps/YouTube", .lit "1.1",
    [(.lit "Host", .lit "localhost"), (.lit "Content-Length", .ofNat 2)]⟩

/-- Its body. -/
def probeBody : List UInt8 := [104, 105]

/-- Its bytes: its lines, an empty line and the body. -/
def probeBytes : List UInt8 := probeInfo.lines ++ crlf ++ probeBody

/-- They come in three chunks, cut in the first line and in the body, or in one. -/
theorem processNewConnection_congr_body :
    processNewConnection probeHost (probeWorld (.lit "YouTube")) (127, 0, 0, 1) (127, 0, 0, 1)
        [probeBytes.take 9, (probeBytes.drop 9).dropLast, [105]] =
      processNewConnection probeHost (probeWorld (.lit "YouTube")) (127, 0, 0, 1) (127, 0, 0, 1)
        [probeBytes] :=
  processNewConnection_congr probeHost (probeWorld (.lit "YouTube")) _ _ (by decide +kernel)
    (by decide +kernel) (by decide +kernel) (by decide +kernel)

/-! ### Requests as they should be -/

/-- A request that can be sent: it can be read, and none of its lines is more than one. -/
structure RequestInfo.Sendable (r : RequestInfo) : Prop extends r.Readable where
  room : r.httpHeaders.length ≤ maxHeaders
  version : r.httpVersion = .lit "1.0" ∨ r.httpVersion = .lit "1.1"
  uri_line : OneLine r.uri.bytes
  names : ∀ header ∈ r.httpHeaders, OneLine header.1.bytes

/-- The head of a request: its lines, and an empty line. -/
def RequestInfo.head (r : RequestInfo) : List UInt8 := r.lines ++ crlf

/-- Bytes in front of which no empty line begins. -/
theorem head_append {l p buf : List UInt8} (hl : 10 ∉ l) (h : Head p buf) :
    Head (l ++ p) (l ++ buf) := by
  induction l with
  | nil => exact h
  | cons c l ih =>
    obtain ⟨hc, hl'⟩ := not_or.mp (fun h' => hl (List.mem_cons.mpr h'))
    refine (head_cons ?_ ?_).mpr (ih hl')
    · exact fun hp => hc (List.cons_prefix_cons.mp hp).1
    · exact fun hp => hc (List.cons_prefix_cons.mp hp).1

/-- **The first empty line is the one behind the lines.** -/
theorem head_lines {ls : List (List UInt8)} (hls : ∀ l ∈ ls, OneLine l ∧ l ≠ [])
    (rest : List UInt8) :
    Head (10 :: (lines ls ++ crlf)) (10 :: (lines ls ++ crlf ++ rest)) := by
  induction ls with
  | nil => exact head_of_three ⟨rest, rfl⟩
  | cons l ls ih =>
    obtain ⟨hline, hne⟩ := hls l List.mem_cons_self
    have htail := ih fun l' hl' => hls l' (List.mem_cons_of_mem _ hl')
    have hcr : 10 ∉ l ++ [13] := by
      rw [List.mem_append]
      exact not_or.mpr ⟨hline.2, by decide⟩
    have h := head_append hcr htail
    obtain ⟨c, l, rfl⟩ := List.exists_cons_of_ne_nil hne
    have hc : c ≠ 10 ∧ c ≠ 13 := ⟨fun heq => hline.2 (heq ▸ List.mem_cons_self),
      fun heq => hline.1 (heq ▸ List.mem_cons_self)⟩
    have hshape : ∀ t, lines ((c :: l) :: ls) ++ t = (c :: l ++ [13]) ++ 10 :: (lines ls ++ t) :=
      fun t => by simp [lines_cons, crlf]
    rw [List.append_assoc, hshape, hshape, ← List.append_assoc (lines ls)]
    refine (head_cons ?_ ?_).mpr h
    · exact fun hp => hc.1 (List.cons_prefix_cons.mp (List.cons_prefix_cons.mp hp).2).1.symm
    · exact fun hp => hc.2 (List.cons_prefix_cons.mp (List.cons_prefix_cons.mp hp).2).1.symm

/-- **Lines and an empty line behind them are a head.** -/
theorem head_messageHead {start : List UInt8} {fields : List (List UInt8)}
    (hstart : OneLine start) (hfields : ∀ l ∈ fields, OneLine l ∧ l ≠ []) (rest : List UInt8) :
    Head (messageHead start fields) (messageHead start fields ++ rest) := by
  have hcr : 10 ∉ start ++ [13] := by
    rw [List.mem_append]
    exact not_or.mpr ⟨hstart.2, by decide⟩
  have hshape : ∀ t, messageHead start fields ++ t =
      (start ++ [13]) ++ 10 :: (lines fields ++ crlf ++ t) := fun t => by
    simp [messageHead, crlf]
  have hwhole := hshape []
  rw [List.append_nil, List.append_nil] at hwhole
  rw [hshape, hwhole]
  exact head_append hcr (head_lines hfields rest)

theorem oneLine_headerLine {header : CStr × CStr} (h : ReadableHeader header)
    (hname : OneLine header.1.bytes) : OneLine (headerLine header) ∧ headerLine header ≠ [] := by
  have hsep : OneLine [58, 32] := by decide
  refine ⟨(hname.append hsep).append h.value_line, ?_⟩
  rw [headerLine]
  exact List.append_ne_nil_of_left_ne_nil (List.append_ne_nil_of_left_ne_nil h.name_ne _) _

theorem RequestInfo.Sendable.oneLine_line {r : RequestInfo} (h : r.Sendable) :
    OneLine r.line ∧ r.line ≠ [] := by
  have hword := isWord_of_isValidHttpMethod h.method
  have hmethod : OneLine r.requestMethod.bytes :=
    ⟨fun hc => absurd (hword.2 13 hc) (by decide), fun hc => absurd (hword.2 10 hc) (by decide)⟩
  have hblank : OneLine [32] := by decide
  have hhttp : OneLine (CStr.lit "HTTP/").bytes := by decide
  refine ⟨?_, by rw [RequestInfo.line]; exact List.append_ne_nil_of_left_ne_nil hword.1 _⟩
  exact hmethod.append (hblank.append (h.uri_line.append (hblank.append
    (hhttp.append h.version_line))))

/-- **The head of a request ends where it should.** -/
theorem RequestInfo.Sendable.head_head {r : RequestInfo} (h : r.Sendable) (rest : List UInt8) :
    Head r.head (r.head ++ rest) := by
  have hhead : r.head = messageHead r.line (r.httpHeaders.map headerLine) :=
    List.append_assoc _ _ _
  rw [hhead]
  refine head_messageHead h.oneLine_line.1 (fun l hl => ?_) rest
  obtain ⟨header, hmem, rfl⟩ := List.mem_map.mp hl
  exact oneLine_headerLine (h.headers header hmem) (h.names header hmem)

/-- What is received of a request. -/
theorem RequestInfo.Sendable.same_receive {r : RequestInfo} (h : r.Sendable) {sock : Socket}
    (hs : Solid sock) {rest : List UInt8} (hstream : sock.flatten = r.head ++ rest)
    (hlen : r.head.length ≤ maxRequestSize) (hclean : Clean r.head) :
    ∃ conn, receive sock = .request r conn ∧
      conn.content = rest.take (contentLength r.httpHeaders).toNat ∧
      (conn.Asserted ↔ -1 ≤ contentLength r.httpHeaders) := by
  have hsame := DialServer.same_receive hs (hstream ▸ h.head_head rest) hlen hclean
  have htext : (CStr.ofBuffer (r.head.take (r.head.length - 1))).bytes = r.lines ++ [13] := by
    have hhead : r.head = r.lines ++ [13] ++ [10] := by simp [RequestInfo.head, crlf]
    rw [← List.dropLast_eq_take, hhead, List.dropLast_concat, CStr.bytes_ofBuffer]
    rw [List.mem_append]
    exact not_or.mpr ⟨r.text.nul_free, by decide⟩
  have hcr : ∀ c ∈ [13], c ∈ crlf := List.forall_mem_singleton.mpr (by decide)
  have hparse := parseHttpRequest_text h.toReadable hcr htext
  rw [List.take_of_length_le h.room] at hparse
  have hversion : ¬(r.httpVersion ≠ .lit "1.0" ∧ r.httpVersion ≠ .lit "1.1") := fun h' =>
    h.version.elim h'.1 h'.2
  rw [receiveHead] at hsame
  simp only [hparse] at hsame
  rw [if_neg hversion] at hsame
  generalize hr : receive sock = received at hsame
  cases hsame with
  | request hcontent hasserted =>
    refine ⟨_, rfl, hcontent.trans ?_, hasserted.trans ?_⟩
    · simp [Conn.content, Conn.pending, hstream]
    · rw [Conn.Asserted]
      dsimp only
      omega

theorem processNewConnection_of_receive {H : Host σ} {w : World σ} {laddr raddr : InAddr}
    {sock : Socket} {info : RequestInfo} {conn : Conn} (h : receive sock = .request info conn)
    (hasserted : conn.Asserted) :
    processNewConnection H w laddr raddr sock =
      requestHandler H w (info.toRequest laddr raddr conn.content) := by
  rw [processNewConnection, h]
  exact if_neg fun h' => h'.2 hasserted

/-- **From the wire to the callback**: a request that says how long its body is, and does not say
that it is shorter than nothing, reaches the callback as it was meant, with its body, however it
comes and whatever comes behind it. -/
theorem processNewConnection_request (H : Host σ) (w : World σ) (laddr raddr : InAddr)
    {r : RequestInfo} (h : r.Sendable) {body rest : List UInt8}
    (hmin : -1 ≤ contentLength r.httpHeaders)
    (hbody : (contentLength r.httpHeaders).toNat = body.length)
    (hlen : r.head.length ≤ maxRequestSize) (hclean : Clean r.head)
    {sock : Socket} (hs : Solid sock) (hstream : sock.flatten = r.head ++ (body ++ rest)) :
    processNewConnection H w laddr raddr sock =
      requestHandler H w (r.toRequest laddr raddr body) := by
  obtain ⟨conn, hreceive, hcontent, hasserted⟩ := h.same_receive hs hstream hlen hclean
  rw [processNewConnection_of_receive hreceive (hasserted.mpr hmin), hcontent, hbody,
    List.take_left]

theorem sendable_probeInfo : probeInfo.Sendable where
  method := by decide +kernel
  uri_ne := by decide +kernel
  uri_word := by decide +kernel
  version_line := by decide +kernel
  headers header hmem := by
    rcases List.mem_pair.mp hmem with rfl | rfl
    · constructor <;> decide +kernel
    · constructor <;> decide +kernel
  room := by decide
  version := .inr rfl
  uri_line := by decide +kernel
  names := by decide +kernel

theorem contentLength_probeInfo : contentLength probeInfo.httpHeaders = probeBody.length :=
  contentLength_of_getHeader (n := 2) (by decide +kernel) (by decide)

/-- It comes in three chunks, and something behind it. -/
theorem processNewConnection_request_probe :
    processNewConnection probeHost (probeWorld .nil) (127, 0, 0, 1) (127, 0, 0, 1)
        [probeInfo.head.take 9, probeInfo.head.drop 9 ++ [104], [105, 33]] =
      requestHandler probeHost (probeWorld .nil)
        (probeInfo.toRequest (127, 0, 0, 1) (127, 0, 0, 1) probeBody) := by
  have hstream : [probeInfo.head.take 9, probeInfo.head.drop 9 ++ [104], [105, 33]].flatten =
      probeInfo.head ++ (probeBody ++ [33]) := by decide +kernel
  exact processNewConnection_request probeHost (probeWorld .nil) _ _ sendable_probeInfo
    (by rw [contentLength_probeInfo]; decide) (by rw [contentLength_probeInfo]; rfl)
    (by decide +kernel) (by decide +kernel) (by decide +kernel) hstream

end DialServer
