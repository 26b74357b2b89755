import DialServer.Lib.Chunks
import DialServer.Lib.CString
import Mathlib.Tactic.Ring

/-!
# Reading a request

`read_request` reads from the socket into the buffer of the connection until
`get_request_len` finds the empty line that ends the head of a request, or a malformed
request, or the buffer is full. The socket is a list of chunks: `recv` delivers what the
network has brought together, and no more than it was asked for.

What `get_request_len` computes is stated with prefixes: the length of the first prefix that
ends with an empty line, however it is written (`DialServer.getRequestLen_pos`), and -1 if
there is none, but a control character (`DialServer.getRequestLen_eq_neg_one`). The loop goes
on after it has found a control character, so a request with one in its head is malformed
only if its end has not come yet: whether it is accepted depends on how it is cut into chunks.
Without one it does not (`DialServer.readRequest_uniform_iff`).
-/

namespace DialServer

open CLib Chunks

/-- What is to come from a socket: each chunk is what one `recv` can deliver. -/
abbrev Socket := List (List UInt8)

/-! ### The end of the head -/

/-- `isprint`, in the C locale. -/
def isprint (c : UInt8) : Bool := 32 ≤ c && c ≤ 126

/-- A character that is not allowed in the head of a request. -/
def isControl (c : UInt8) : Bool := !isprint c && c ≠ 13 && c ≠ 10 && c < 128

/-- The loop of `get_request_len`, from where `s` points, `i` bytes behind `buf`: it runs while
there is a byte behind the one looked at. -/
def getRequestLenLoop : ℕ → ℤ → List UInt8 → ℤ
  | i, len, c :: d :: rest =>
    if len ≤ 0 then
      getRequestLenLoop (i + 1)
        (if isControl c then -1
        else if c = 10 ∧ d = 10 then i + 2
        else if c = 10 ∧ d = 13 ∧ rest.head? = some 10 then i + 3
        else len) (d :: rest)
    else len
  | _, len, _ => len

/-- `get_request_len`. -/
def getRequestLen (buf : List UInt8) : ℤ := getRequestLenLoop 0 0 buf

/-- A text ends with an empty line. -/
def EndsHead (l : List UInt8) : Prop := [10, 10] <:+ l ∨ [10, 13, 10] <:+ l

instance (l : List UInt8) : Decidable (EndsHead l) := instDecidableOr

/-- Some prefix of the text ends with an empty line. -/
def HasHead (buf : List UInt8) : Prop := ∃ p, p <+: buf ∧ EndsHead p

/-- The first prefix that ends with an empty line. -/
structure Head (p buf : List UInt8) : Prop where
  prefix_of : p <+: buf
  ends : EndsHead p
  first : ∀ q, q <+: buf → EndsHead q → p.length ≤ q.length

/-- A text whose first three bytes are not an empty line. -/
theorem endsHead_cons {c : UInt8} {q : List UInt8} (h2 : c :: q ≠ [10, 10])
    (h3 : c :: q ≠ [10, 13, 10]) : EndsHead (c :: q) ↔ EndsHead q := by
  constructor
  · rintro (h | h) <;> rcases List.suffix_cons_iff.mp h with heq | h'
    · exact absurd heq.symm h2
    · exact .inl h'
    · exact absurd heq.symm h3
    · exact .inr h'
  · rintro (h | h)
    · exact .inl (h.trans (List.suffix_cons c q))
    · exact .inr (h.trans (List.suffix_cons c q))

theorem not_endsHead_nil : ¬EndsHead [] := by decide

theorem not_endsHead_singleton (c : UInt8) : ¬EndsHead [c] := by
  rintro (h | h)
  · exact absurd h.length_le (by simp)
  · exact absurd h.length_le (by simp)

/-- The first end of a head is one byte further behind a byte that is not part of it. -/
theorem head_cons {c : UInt8} {p buf : List UInt8} (h2 : ¬[10, 10] <+: c :: buf)
    (h3 : ¬[10, 13, 10] <+: c :: buf) : Head (c :: p) (c :: buf) ↔ Head p buf := by
  have hshift : ∀ q, q <+: buf → (EndsHead (c :: q) ↔ EndsHead q) := by
    intro q hq
    have hq' : c :: q <+: c :: buf := (List.prefix_cons_inj c).mpr hq
    exact endsHead_cons (fun heq => h2 (heq ▸ hq')) fun heq => h3 (heq ▸ hq')
  constructor
  · intro h
    have hp := (List.prefix_cons_inj c).mp h.prefix_of
    refine ⟨hp, (hshift p hp).mp h.ends, fun q hq hends => ?_⟩
    have := h.first (c :: q) ((List.prefix_cons_inj c).mpr hq) ((hshift q hq).mpr hends)
    simpa using this
  · intro h
    refine ⟨(List.prefix_cons_inj c).mpr h.prefix_of, (hshift p h.prefix_of).mpr h.ends,
      fun q hq hends => ?_⟩
    cases q with
    | nil => exact absurd hends not_endsHead_nil
    | cons d q =>
      obtain ⟨rfl, hq'⟩ := List.cons_prefix_cons.mp hq
      exact Nat.succ_le_succ (h.first q hq' ((hshift q hq').mp hends))

theorem head_of_two {buf : List UInt8} (h : [10, 10] <+: buf) : Head [10, 10] buf where
  prefix_of := h
  ends := .inl (List.suffix_refl _)
  first q _ hends := by
    rcases hends with h | h <;> have := h.length_le <;> simp at this ⊢ <;> omega

theorem head_of_three {buf : List UInt8} (h : [10, 13, 10] <+: buf) : Head [10, 13, 10] buf where
  prefix_of := h
  ends := .inr (List.suffix_refl _)
  first q hq hends := by
    rcases hends with h' | h'
    · -- Two bytes would have to be both.
      by_contra hlt
      have hlen : q.length = 2 := by
        have := h'.length_le
        simp at this hlt
        omega
      have hq' : q = [10, 13] := by
        have := List.prefix_of_prefix_length_le hq h (by simp [hlen])
        rw [List.prefix_iff_eq_take, hlen] at this
        exact this
      subst hq'
      exact absurd h' (by decide)
    · exact h'.length_le

/-- **There is a first end if there is one.** -/
theorem exists_head {buf : List UInt8} (h : HasHead buf) : ∃ p, Head p buf := by
  induction buf with
  | nil =>
    obtain ⟨p, hp, hends⟩ := h
    rw [List.prefix_nil.mp hp] at hends
    exact absurd hends not_endsHead_nil
  | cons c buf ih =>
    by_cases h2 : [10, 10] <+: c :: buf
    · exact ⟨_, head_of_two h2⟩
    by_cases h3 : [10, 13, 10] <+: c :: buf
    · exact ⟨_, head_of_three h3⟩
    obtain ⟨q, hq, hends⟩ := h
    cases q with
    | nil => exact absurd hends not_endsHead_nil
    | cons d q =>
      obtain ⟨rfl, hq'⟩ := List.cons_prefix_cons.mp hq
      have hends' := (endsHead_cons (fun heq => h2 (heq ▸ hq)) fun heq => h3 (heq ▸ hq)).mp hends
      obtain ⟨p, hp⟩ := ih ⟨q, hq', hends'⟩
      exact ⟨d :: p, (head_cons h2 h3).mpr hp⟩

/-- There is one first end. -/
theorem Head.unique {p q buf : List UInt8} (h : Head p buf) (h' : Head q buf) : p = q := by
  have hlen := Nat.le_antisymm (h.first q h'.prefix_of h'.ends) (h'.first p h.prefix_of h.ends)
  exact (List.prefix_of_prefix_length_le h.prefix_of h'.prefix_of hlen.le).eq_of_length hlen

theorem Head.restrict {p q buf : List UInt8} (h : Head p buf) (hq : q <+: buf)
    (hlen : p.length ≤ q.length) : Head p q where
  prefix_of := List.prefix_of_prefix_length_le h.prefix_of hq hlen
  ends := h.ends
  first r hr hends := h.first r (hr.trans hq) hends

/-- A text that is shorter than the first end has none. -/
theorem Head.not_hasHead {p q buf : List UInt8} (h : Head p buf) (hq : q <+: buf)
    (hlen : q.length < p.length) : ¬HasHead q := by
  rintro ⟨r, hr, hends⟩
  have h₁ := h.first r (hr.trans hq) hends
  have h₂ := hr.length_le
  omega

/-! ### What the loop computes -/

/-- Once the end is found, the loop stops. -/
theorem getRequestLenLoop_pos {i : ℕ} {len : ℤ} (h : 0 < len) (buf : List UInt8) :
    getRequestLenLoop i len buf = len := by
  match buf with
  | [] => rfl
  | [_] => rfl
  | c :: d :: rest => rw [getRequestLenLoop, if_neg (by omega)]

theorem starts_two_iff {c d : UInt8} {rest : List UInt8} :
    [10, 10] <+: c :: d :: rest ↔ c = 10 ∧ d = 10 := by
  rw [List.cons_prefix_cons, List.cons_prefix_cons]
  simp [eq_comm]

theorem starts_three_iff {c d : UInt8} {rest : List UInt8} :
    [10, 13, 10] <+: c :: d :: rest ↔ c = 10 ∧ d = 13 ∧ rest.head? = some 10 := by
  rw [List.cons_prefix_cons, List.cons_prefix_cons]
  cases rest with
  | nil => simp
  | cons e rest =>
    rw [List.cons_prefix_cons]
    simp [eq_comm]

/-- **The loop finds the first end**, wherever control characters are. -/
theorem getRequestLenLoop_head {p buf : List UInt8} (h : Head p buf) (i : ℕ) {len : ℤ}
    (hlen : len ≤ 0) : getRequestLenLoop i len buf = i + p.length := by
  induction buf generalizing p i len with
  | nil =>
    have hends := h.ends
    rw [List.prefix_nil.mp h.prefix_of] at hends
    exact absurd hends not_endsHead_nil
  | cons c buf ih =>
    cases buf with
    | nil =>
      have hends := h.ends
      obtain rfl | ⟨t, rfl, ht⟩ := List.prefix_cons_iff.mp h.prefix_of
      · exact absurd hends not_endsHead_nil
      · rw [List.prefix_nil.mp ht] at hends
        exact absurd hends (not_endsHead_singleton c)
    | cons d rest =>
      rw [getRequestLenLoop, if_pos hlen]
      by_cases h2 : [10, 10] <+: c :: d :: rest
      · obtain ⟨rfl, rfl⟩ := starts_two_iff.mp h2
        rw [h.unique (head_of_two h2), if_neg (by decide), if_pos ⟨rfl, rfl⟩,
          getRequestLenLoop_pos (by omega)]
        rfl
      by_cases h3 : [10, 13, 10] <+: c :: d :: rest
      · obtain ⟨rfl, rfl, hrest⟩ := starts_three_iff.mp h3
        rw [h.unique (head_of_three h3), if_neg (by decide), if_neg (by decide),
          if_pos ⟨rfl, rfl, hrest⟩, getRequestLenLoop_pos (by omega)]
        rfl
      rw [if_neg fun heq => h2 (starts_two_iff.mpr heq),
        if_neg fun heq => h3 (starts_three_iff.mpr heq)]
      cases p with
      | nil => exact absurd h.ends not_endsHead_nil
      | cons c' p =>
        obtain ⟨rfl, -⟩ := List.cons_prefix_cons.mp h.prefix_of
        have hlen' : (if isControl c' then (-1 : ℤ) else len) ≤ 0 := by
          split
          · decide
          · exact hlen
        rw [ih ((head_cons h2 h3).mp h) (i + 1) hlen', List.length_cons]
        push_cast
        ring

/-- **Without an end it looks for control characters**, except at the last byte. -/
theorem getRequestLenLoop_none {buf : List UInt8} (h : ¬HasHead buf) (i : ℕ) {len : ℤ}
    (hlen : len ≤ 0) :
    getRequestLenLoop i len buf = if buf.dropLast.any isControl then -1 else len := by
  induction buf generalizing i len with
  | nil => rfl
  | cons c buf ih =>
    cases buf with
    | nil => rfl
    | cons d rest =>
      have h2 : ¬[10, 10] <+: c :: d :: rest := fun h' => h ⟨_, h', (head_of_two h').ends⟩
      have h3 : ¬[10, 13, 10] <+: c :: d :: rest := fun h' => h ⟨_, h', (head_of_three h').ends⟩
      have hrest : ¬HasHead (d :: rest) := by
        intro h'
        obtain ⟨p, hp⟩ := exists_head h'
        have hp' := (head_cons h2 h3).mpr hp
        exact h ⟨_, hp'.prefix_of, hp'.ends⟩
      have hlen' : (if isControl c then (-1 : ℤ) else len) ≤ 0 := by
        split
        · decide
        · exact hlen
      rw [getRequestLenLoop, if_pos hlen, if_neg fun heq => h2 (starts_two_iff.mpr heq),
        if_neg fun heq => h3 (starts_three_iff.mpr heq), ih hrest (i + 1) hlen',
        List.dropLast_cons_cons, List.any_cons]
      cases isControl c with
      | true => simp
      | false => simp

variable {buf p : List UInt8}

/-- **The length of the head**, if it has come. -/
theorem getRequestLen_head (h : Head p buf) : getRequestLen buf = p.length := by
  rw [getRequestLen, getRequestLenLoop_head h 0 le_rfl]
  push_cast
  ring

theorem getRequestLen_none (h : ¬HasHead buf) :
    getRequestLen buf = if buf.dropLast.any isControl then -1 else 0 :=
  getRequestLenLoop_none h 0 le_rfl

theorem Head.length_pos (h : Head p buf) : 0 < p.length := by
  cases p with
  | nil => exact absurd h.ends not_endsHead_nil
  | cons c p => exact Nat.succ_pos _

/-- The result is positive exactly when the head has come. -/
theorem getRequestLen_pos : 0 < getRequestLen buf ↔ HasHead buf := by
  constructor
  · intro hpos
    by_contra h
    rw [getRequestLen_none h] at hpos
    split at hpos <;> exact absurd hpos (by decide)
  · intro h
    obtain ⟨p, hp⟩ := exists_head h
    have := hp.length_pos
    rw [getRequestLen_head hp]
    omega

/-- It is -1 exactly when the head has not come, but a control character that is not the last
byte. -/
theorem getRequestLen_eq_neg_one :
    getRequestLen buf = -1 ↔ ¬HasHead buf ∧ buf.dropLast.any isControl = true := by
  by_cases h : HasHead buf
  · have := getRequestLen_pos.mpr h
    constructor
    · intro heq
      omega
    · exact fun h' => absurd h h'.1
  · rw [getRequestLen_none h]
    cases hany : buf.dropLast.any isControl with
    | true => simp [h]
    | false => simp

theorem getRequestLen_eq_zero :
    getRequestLen buf = 0 ↔ ¬HasHead buf ∧ buf.dropLast.any isControl = false := by
  by_cases h : HasHead buf
  · have := getRequestLen_pos.mpr h
    constructor
    · intro heq
      omega
    · exact fun h' => absurd h h'.1
  · rw [getRequestLen_none h]
    cases hany : buf.dropLast.any isControl with
    | true => simp
    | false => simp [h]

/-! ### Reading -/

/-- The loop of `read_request`, with at most `fuel` reads: the request length, the buffer and
what is left to come. -/
def readRequestLoop (bufsiz : ℕ) : ℕ → List UInt8 → Socket → ℤ × List UInt8 × Socket
  | 0, buf, sock => (0, buf, sock)
  | fuel + 1, buf, sock =>
    if buf.length < bufsiz then
      let (data, sock') := pull (bufsiz - buf.length) sock
      if data = [] then (0, buf, sock')
      else if getRequestLen (buf ++ data) = 0 then
        readRequestLoop bufsiz fuel (buf ++ data) sock'
      else (getRequestLen (buf ++ data), buf ++ data, sock')
    else (0, buf, sock)

/-- `read_request`, for a buffer with nothing in it. Each read puts at least one byte into the
buffer, so there are no more than it holds. -/
def readRequest (bufsiz : ℕ) (sock : Socket) : ℤ × List UInt8 × Socket :=
  readRequestLoop bufsiz bufsiz [] sock

/-- There is something to say about the request. -/
def decided (buf : List UInt8) : Bool := getRequestLen buf ≠ 0

theorem readRequestLoop_eq {bufsiz fuel : ℕ} {sock : Socket} (h : decided buf = false) :
    readRequestLoop bufsiz fuel buf sock =
      (getRequestLen (fill bufsiz decided fuel buf sock).1, fill bufsiz decided fuel buf sock) := by
  have h0 : ∀ {b}, decided b = false → getRequestLen b = 0 := fun {b} hb => by
    simpa [decided] using hb
  induction fuel generalizing buf sock with
  | zero => rw [readRequestLoop, fill, h0 h]
  | succ fuel ih =>
    simp only [readRequestLoop, fill]
    split
    · split
      · rw [h0 h]
      · cases hd : decided (buf ++ (pull (bufsiz - buf.length) sock).1) with
        | true =>
          have hne : getRequestLen (buf ++ (pull (bufsiz - buf.length) sock).1) ≠ 0 := by
            simpa [decided] using hd
          simp [hne]
        | false =>
          rw [if_pos (h0 hd), ih hd]
          simp
    · rw [h0 h]

/-- **Reading is filling the buffer** until the request is decided. -/
theorem readRequest_eq (bufsiz : ℕ) (sock : Socket) :
    readRequest bufsiz sock =
      (getRequestLen (fill bufsiz decided bufsiz [] sock).1,
        fill bufsiz decided bufsiz [] sock) :=
  readRequestLoop_eq rfl

theorem any_dropLast_mono {q : List UInt8} (h : buf <+: q)
    (hany : buf.dropLast.any isControl = true) : q.dropLast.any isControl = true := by
  obtain ⟨c, hc, hcontrol⟩ := List.any_eq_true.mp hany
  refine List.any_eq_true.mpr ⟨c, ?_, hcontrol⟩
  obtain ⟨t, rfl⟩ := h
  cases t with
  | nil => rwa [List.append_nil]
  | cons d t =>
    rw [List.dropLast_append_cons]
    exact List.mem_append_left _ (List.mem_of_mem_dropLast hc)

/-- What is decided stays decided. -/
theorem decided_mono {q : List UInt8} (h : buf <+: q) (hd : decided buf = true) :
    decided q = true := by
  have hne : getRequestLen buf ≠ 0 := by simpa [decided] using hd
  have hq : getRequestLen q ≠ 0 := by
    rw [Ne, getRequestLen_eq_zero] at hne ⊢
    rintro ⟨hhead, hcontrol⟩
    refine hne ⟨fun ⟨p, hp, hends⟩ => hhead ⟨p, hp.trans h, hends⟩, ?_⟩
    cases hany : buf.dropLast.any isControl with
    | true => rw [any_dropLast_mono h hany] at hcontrol; cases hcontrol
    | false => rfl
  simpa [decided] using hq

/-- What `read_request` is to give for the head `p` of a stream: its length, and a buffer that
starts with it. -/
def Delivers (bufsiz : ℕ) (p stream : List UInt8) (r : ℤ × List UInt8 × Socket) : Prop :=
  r.1 = p.length ∧ p <+: r.2.1 ∧ r.2.1.length ≤ bufsiz ∧ r.2.1 ++ r.2.2.flatten = stream

/-- **A request without control characters is read whole**, however it comes. -/
theorem readRequest_delivers {bufsiz : ℕ} {sock : Socket} (hs : Solid sock)
    (h : Head p sock.flatten) (hp : p.length ≤ bufsiz) (hcontrol : p.all (!isControl ·) = true) :
    Delivers bufsiz p sock.flatten (readRequest bufsiz sock) := by
  have hdecided : decided p = true := by
    have hlen := getRequestLen_head (h.restrict h.prefix_of le_rfl)
    have := h.length_pos
    have hne : getRequestLen p ≠ 0 := by omega
    simpa [decided] using hne
  have happend := fill_append bufsiz decided bufsiz [] sock
  rw [List.nil_append] at happend
  have hstop : decided (fill bufsiz decided bufsiz [] sock).1 = true := by
    refine (stop_fill (fun _ _ hq hd => decided_mono hq hd) hs (Nat.le_add_left _ _)
      h.prefix_of hp hdecided).resolve_right fun hnil => ?_
    have hpos := h.length_pos
    rw [List.prefix_nil.mp hnil.2] at hpos
    exact absurd hpos (Nat.lt_irrefl 0)
  have hprefix : (fill bufsiz decided bufsiz [] sock).1 <+: sock.flatten :=
    happend ▸ List.prefix_append _ _
  -- What was read is not shorter than the head: shorter texts are not decided.
  have hge : p.length ≤ (fill bufsiz decided bufsiz [] sock).1.length := by
    by_contra hlt
    have hlt' := Nat.lt_of_not_le hlt
    have hsub := List.prefix_of_prefix_length_le hprefix h.prefix_of hlt'.le
    have hzero : getRequestLen (fill bufsiz decided bufsiz [] sock).1 = 0 := by
      refine getRequestLen_eq_zero.mpr ⟨h.not_hasHead hprefix hlt', ?_⟩
      rw [List.any_eq_false]
      intro c hc
      have hmem := hsub.subset (List.mem_of_mem_dropLast hc)
      simpa using List.all_eq_true.mp hcontrol c hmem
    rw [decided, hzero] at hstop
    exact absurd hstop (by decide)
  have hhead := h.restrict hprefix hge
  rw [readRequest_eq]
  exact ⟨getRequestLen_head hhead, hhead.prefix_of, length_fill_le (Nat.zero_le _), happend⟩

/-- The last two bytes of a head are no control characters. -/
theorem eq_append_of_endsHead (h : EndsHead p) :
    ∃ w x, p = w ++ [x, 10] ∧ isControl x = false := by
  obtain ⟨w, rfl⟩ | ⟨w, rfl⟩ := h
  · exact ⟨w, 10, rfl, rfl⟩
  · exact ⟨w ++ [10], 13, by simp, rfl⟩

/-- **How a request is read does not depend on how it comes** if and only if there is no
control character in its head: with one, it is malformed if the last byte comes later. -/
theorem readRequest_uniform_iff {bufsiz : ℕ} {stream : List UInt8} (h : Head p stream)
    (hp : p.length ≤ bufsiz) :
    (∀ sock, Solid sock → sock.flatten = stream →
      Delivers bufsiz p stream (readRequest bufsiz sock)) ↔ p.all (!isControl ·) = true := by
  constructor
  · intro hall
    by_contra hcontrol
    obtain ⟨w, x, rfl, hx⟩ := eq_append_of_endsHead h.ends
    have hw : w.any isControl = true := by
      by_contra hnone
      refine hcontrol ?_
      rw [Bool.not_eq_true, List.any_eq_false] at hnone
      rw [List.all_append, Bool.and_eq_true]
      refine ⟨List.all_eq_true.mpr fun c hc => by simpa using hnone c hc, ?_⟩
      rw [List.all_cons, List.all_cons, hx]
      rfl
    obtain ⟨rest, hrest⟩ := h.prefix_of
    have hq : w ++ [x] <+: stream := ⟨10 :: rest, by rw [← hrest]; simp⟩
    have hlen : (w ++ [x]).length < (w ++ [x, 10]).length := by simp
    have hbad : getRequestLen (w ++ [x]) = -1 := by
      refine getRequestLen_eq_neg_one.mpr ⟨h.not_hasHead hq hlen, ?_⟩
      rwa [List.dropLast_concat]
    -- All but the last byte comes first.
    have hread := (hall [w ++ [x], 10 :: rest] (by simp [Solid]) (by rw [← hrest]; simp)).1
    have hfits : (w ++ [x]).length ≤ bufsiz := hlen.le.trans hp
    obtain ⟨fuel, rfl⟩ : ∃ fuel, bufsiz = fuel + 1 := ⟨bufsiz - 1, by
      rw [List.length_append, List.length_singleton] at hfits
      omega⟩
    have hpull : pull (fuel + 1 - ([] : List UInt8).length) [w ++ [x], 10 :: rest] =
        (w ++ [x], [10 :: rest]) := by
      rw [pull, List.length_nil, Nat.sub_zero, List.take_of_length_le hfits, if_pos hfits]
    rw [readRequest, readRequestLoop, if_pos (by simp), hpull] at hread
    simp only [List.nil_append, hbad] at hread
    rw [if_neg (by simp), if_neg (by decide)] at hread
    simp only at hread
    omega
  · rintro hcontrol sock hs rfl
    exact readRequest_delivers hs h hp hcontrol

/-- A bell in front of the method, and the last byte may decide. -/
theorem readRequest_uniform_iff_bell :
    ¬∀ sock, Solid sock → sock.flatten = [7, 71, 10, 10] →
      Delivers 8 [7, 71, 10, 10] [7, 71, 10, 10] (readRequest 8 sock) := by
  have hhead : Head [7, 71, 10, 10] [7, 71, 10, 10] :=
    (head_cons (by decide) (by decide)).mpr
      ((head_cons (by decide) (by decide)).mpr (head_of_two (List.prefix_refl _)))
  intro hall
  exact absurd ((readRequest_uniform_iff hhead (by decide)).mp hall) (by decide)

/-- **A head that does not fit** fills the buffer, and the request is not read. -/
theorem readRequest_full {bufsiz : ℕ} {sock : Socket} (hs : Solid sock)
    (hnone : ¬HasHead (sock.flatten.take bufsiz))
    (hcontrol : (sock.flatten.take bufsiz).all (!isControl ·) = true) :
    (readRequest bufsiz sock).1 = 0 ∧
      (readRequest bufsiz sock).2.1 = sock.flatten.take bufsiz := by
  have hzero : ∀ q, q <+: sock.flatten.take bufsiz → getRequestLen q = 0 := by
    intro q hq
    refine getRequestLen_eq_zero.mpr ⟨fun ⟨p, hp, hends⟩ => hnone ⟨p, hp.trans hq, hends⟩, ?_⟩
    rw [List.any_eq_false]
    intro c hc
    simpa using List.all_eq_true.mp hcontrol c (hq.subset (List.mem_of_mem_dropLast hc))
  have hfill : (fill bufsiz decided bufsiz [] sock).1 = sock.flatten.take bufsiz :=
    fill_eq_take hs (Nat.le_add_left _ _) (Nat.zero_le _) fun q hq => by
      rw [decided, hzero q hq]
      rfl
  rw [readRequest_eq]
  exact ⟨(congrArg getRequestLen hfill).trans (hzero _ (List.prefix_refl _)), hfill⟩

end DialServer
