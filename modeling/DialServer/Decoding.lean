import DialServer.Lib.Stores
import DialServer.Codecs

/-!
# The grammar of `urldecode`

A text for `urldecode` is a sequence of tokens: a `+` is a blank, a `%` and two
hexadecimal digits of either case are a byte, and any other character except `%` is
itself. Every text has one reading as tokens, up to a `%` that is malformed
(`Escape.Reading`, for `DialServer.hexCode`).

`DialServer.urldecodeCells` is the loop with its source as an object, byte by byte from
where `src` points, so that a read behind the object is a fault; an escape that is cut
off is met at each of the three places where the condition of the loop can fail. What it
does is one equation about a reading, `DialServer.urldecodeLoop_reading`: the characters of
the first tokens and a NUL are written one behind the other.

So `urldecode` accepts exactly its grammar, with one exception. The number of tokens is a
`size_t` and is returned as an `int`; `DialServer.decodesExactly_iff` shows that nothing
else goes wrong.
-/

namespace DialServer

open CLib Escape

open CLib.Block

/-! ### The grammar -/

/-- The value of a hexadecimal digit of either case. -/
def hexValue (c : UInt8) : Option ℕ :=
  strchr (CStr.lit "0123456789abcdef").bytes c <|> strchr (CStr.lit "0123456789ABCDEF").bytes c

/-- The byte two hexadecimal digits stand for. -/
def hexPair (x y : UInt8) : Option UInt8 := do
  let high ← hexValue x
  let low ← hexValue y
  return UInt8.ofNat (16 * high + low)

/-- The grammar. -/
def hexCode : PairCode UInt8 where
  plus := '+'.toUInt8
  blank := ' '.toUInt8
  mark := '%'.toUInt8
  pair := hexPair
  plus_ne_mark := percentCode.plus_ne_mark

theorem hexDigit_eq (c : UInt8) : hexDigit c = (hexValue c).map UInt8.ofNat := by
  revert c
  refine forall_byte ?_
  decide +kernel

/-- **The digits are read as they should be.** -/
theorem appendCharFromHex_eq (x y : UInt8) : appendCharFromHex x y = hexPair x y := by
  rw [appendCharFromHex, hexPair, hexDigit_eq, hexDigit_eq]
  cases hexValue x with
  | none => rfl
  | some high =>
    cases hexValue y with
    | none => rfl
    | some low =>
      refine congrArg some ?_
      rw [UInt8.ofNat_add, UInt8.ofNat_mul]
      rfl

/-- **The encoding the loop reads** is the grammar. -/
theorem percentCode_eq : percentCode = hexCode := by
  have hpair : appendCharFromHex = hexPair := funext₂ appendCharFromHex_eq
  simp only [percentCode, hexCode, hpair]

/-! ### The source as an object -/

/-- The loop of `urldecode`, from where `src` points: the bytes of its object from there
on, the count `len`, which is also the index `dst` stands at, and the object written to. -/
def urldecodeCells (maxSize : ℕ) (src : List (Option UInt8)) (len : ℕ) (b : Block) :
    Except Fault (Block × ℕ) :=
  if len < maxSize then
    match src with
    | [] => .error .outOfBounds
    | none :: _ => .error .indeterminate
    | some c :: src =>
      if c = 0 then do
        let b ← b.store len 0
        return (b, len)
      else if c = '+'.toUInt8 then do
        let b ← b.store len ' '.toUInt8
        urldecodeCells maxSize src (len + 1) b
      else if c = '%'.toUInt8 then
        match src with
        | [] => .error .outOfBounds
        | none :: _ => .error .indeterminate
        | some x :: src =>
          -- `!*(++src)`
          if x = 0 then do
            let b ← b.store len 0
            return (b, 0)
          else
            match src with
            | [] => .error .outOfBounds
            | none :: _ => .error .indeterminate
            | some y :: src =>
              -- `!*(++src)` again
              if y = 0 then do
                let b ← b.store len 0
                return (b, 0)
              else
                match appendCharFromHex x y with
                | none => do
                  let b ← b.store len 0
                  return (b, 0)
                | some v => do
                  let b ← b.store len v
                  urldecodeCells maxSize src (len + 1) b
      else do
        let b ← b.store len c
        urldecodeCells maxSize src (len + 1) b
  else do
    let b ← b.store len 0
    return (b, len)

/-- `urldecode` of what `src` points to; the count is returned as an `int`. -/
def urldecodeAt (dst : Block) (src : List (Option UInt8)) (maxSize : ℕ) :
    Except Fault (Block × ℤ) :=
  (urldecodeCells maxSize src 0 dst).map fun result => (result.1, intOfSize result.2)

/-- A string with its NUL, and whatever is behind it. -/
def cellsOf (src : List UInt8) (behind : List (Option UInt8)) : List (Option UInt8) :=
  src.map some ++ some 0 :: behind

theorem cellsOf_cons (c : UInt8) (src : List UInt8) (behind : List (Option UInt8)) :
    cellsOf (c :: src) behind = some c :: cellsOf src behind := rfl

/-- **No byte behind the NUL is read**: the loop does the same whatever is there, also if
nothing is there. -/
theorem urldecodeCells_cellsOf {maxSize : ℕ} (src : List UInt8) (hnul : 0 ∉ src)
    (behind : List (Option UInt8)) (len : ℕ) (b : Block) :
    urldecodeCells maxSize (cellsOf src behind) len b = urldecodeLoop maxSize src len b := by
  fun_induction urldecodeLoop maxSize src len b with
  | case1 len b =>
    rw [urldecodeCells.eq_def]
    split
    · exact if_pos rfl
    · rfl
  | case2 src len b hmore ih =>
    have hsrc := (List.ne_and_not_mem_of_not_mem_cons hnul).2
    rw [urldecodeCells.eq_def, cellsOf_cons]
    dsimp only
    rw [if_pos hmore, if_neg (by decide), if_pos rfl]
    simp only [ih _ hsrc]
  | case3 len b hmore x y src v hpair hplus ih =>
    obtain ⟨-, hx, hy, hsrc⟩ : '%'.toUInt8 ≠ 0 ∧ x ≠ 0 ∧ y ≠ 0 ∧ 0 ∉ src := by
      simpa [eq_comm, not_or] using hnul
    rw [urldecodeCells.eq_def, cellsOf_cons, cellsOf_cons, cellsOf_cons]
    dsimp only
    rw [if_pos hmore, if_neg (by decide), if_neg hplus, if_pos rfl, if_neg hx, if_neg hy, hpair]
    simp only [ih _ hsrc]
  | case4 len b hmore x y src hpair hplus =>
    obtain ⟨-, hx, hy, -⟩ : '%'.toUInt8 ≠ 0 ∧ x ≠ 0 ∧ y ≠ 0 ∧ 0 ∉ src := by
      simpa [eq_comm, not_or] using hnul
    rw [urldecodeCells.eq_def, cellsOf_cons, cellsOf_cons, cellsOf_cons]
    dsimp only
    rw [if_pos hmore, if_neg (by decide), if_neg hplus, if_pos rfl, if_neg hx, if_neg hy, hpair]
  | case5 src len b hmore hshort hplus =>
    -- the NUL is the first or the second character behind the mark
    rw [urldecodeCells.eq_def, cellsOf_cons]
    dsimp only
    rw [if_pos hmore, if_neg (by decide), if_neg hplus, if_pos rfl]
    rcases src with _ | ⟨x, _ | ⟨y, src⟩⟩
    · exact if_pos rfl
    · have hx : x ≠ 0 := by
        rintro rfl
        exact hnul (by simp)
      exact (if_neg hx).trans (if_pos rfl)
    · exact absurd rfl (hshort x y src)
  | case6 c src len b hmore hplus hmark ih =>
    obtain ⟨hc, hsrc⟩ := List.ne_and_not_mem_of_not_mem_cons hnul
    rw [urldecodeCells.eq_def, cellsOf_cons]
    dsimp only
    rw [if_pos hmore, if_neg (Ne.symm hc), if_neg hplus, if_neg hmark]
    simp only [ih _ hsrc]
  | case7 c src len b hfull =>
    rw [urldecodeCells.eq_def, if_neg hfull]

/-- So it is `urldecode` of the string. -/
theorem urldecodeAt_cellsOf (dst : Block) (src : CStr) (behind : List (Option UInt8))
    (maxSize : ℕ) : urldecodeAt dst (cellsOf src.bytes behind) maxSize =
      urldecodeInt dst src maxSize := by
  rw [urldecodeAt, urldecodeCells_cellsOf _ src.nul_free]
  rfl

/-! ### What `urldecode` accepts -/

section Accepts

variable {src : CStr} (r : Reading hexCode src.bytes) (n : ℕ)

/-- **`urldecode` on a reading**, for every object and whatever is behind the NUL. -/
theorem urldecodeAt_eq (behind : List (Option UInt8)) (dst : Block) :
    urldecodeAt dst (cellsOf src.bytes behind) n =
      (dst.storeEach (consecutive 0 ((r.tokens.take n).map Token.value ++ [0]))).map
        fun b => (b, if r.tail ≠ [] ∧ r.tokens.length < n then 0
          else intOfSize (min n r.tokens.length)) := by
  have hcode := @urldecodeLoop_reading dst n 0 (Nat.zero_le n)
  rw [percentCode_eq] at hcode
  have hloop := hcode r.tokens r.stuck
  rw [r.spells, Nat.sub_zero, Nat.zero_add] at hloop
  rw [urldecodeAt_cellsOf, urldecodeInt, urldecode, hloop]
  cases dst.storeEach _ with
  | error f => rfl
  | ok dst' =>
    simp only [Except.map]
    split <;> rfl

/-- With room for `n` characters and a NUL, nothing goes wrong. -/
theorem exists_urldecodeAt (behind : List (Option UInt8)) {dst : Block} (hroom : n < dst.size) :
    ∃ dst', urldecodeAt dst (cellsOf src.bytes behind) n =
        .ok (dst', if r.tail ≠ [] ∧ r.tokens.length < n then 0
          else intOfSize (min n r.tokens.length)) ∧
      dst'.Starts ((r.tokens.take n).map Token.value ++ [0]) := by
  have hlen : ((r.tokens.take n).map Token.value ++ [0]).length ≤ n + 1 := by
    simp
  obtain ⟨dst', hstore, hstarts, -⟩ := (starts_nil dst).storeEach
    ((r.tokens.take n).map Token.value ++ [0]) (by rw [List.length_nil]; omega)
  rw [List.length_nil] at hstore
  refine ⟨dst', ?_, hstarts⟩
  rw [urldecodeAt_eq r, hstore]
  rfl

/-- **`urldecode` accepts exactly its grammar**: for the reading of the source, and up to
`n` tokens. -/
structure DecodesExactly : Prop where
  /-- A malformed `%` among the first `n` tokens: what is in front of it is decoded. -/
  malformed : r.tail ≠ [] → r.tokens.length < n →
    ∀ (behind : List (Option UInt8)) (dst : Block), n < dst.size →
      ∃ dst', urldecodeAt dst (cellsOf src.bytes behind) n = .ok (dst', 0) ∧
        dst'.Starts (r.tokens.map Token.value ++ [0])
  /-- Otherwise the first `n` tokens are decoded, and their number is returned. -/
  decoded : r.tail = [] ∨ n ≤ r.tokens.length →
    ∀ (behind : List (Option UInt8)) (dst : Block), n < dst.size →
      ∃ dst', urldecodeAt dst (cellsOf src.bytes behind) n =
          .ok (dst', ((min n r.tokens.length : ℕ) : ℤ)) ∧
        dst'.Starts ((r.tokens.take n).map Token.value ++ [0])
  /-- No index above `n` is written, and what is done does not depend on what is behind the
  NUL of the source, even if that is the end of its object. -/
  bounded : ∃ writes result, (∀ i ∈ indices writes, i ≤ n) ∧
    ∀ (behind : List (Option UInt8)) (dst : Block),
      urldecodeAt dst (cellsOf src.bytes behind) n =
        (dst.storeEach writes).map fun b => (b, result)

variable {r n}

/-- A number that is returned right is one an `int` can hold. -/
theorem DecodesExactly.lt (h : DecodesExactly r n) :
    (r.tail ≠ [] ∧ r.tokens.length < n) ∨ n < 2 ^ 31 ∨ r.tokens.length < 2 ^ 31 := by
  by_cases hmal : r.tail ≠ [] ∧ r.tokens.length < n
  · exact .inl hmal
  · right
    have hroom : n < (Block.malloc (n + 1)).size := by
      rw [size_malloc]
      exact Nat.lt_succ_self n
    have hend : r.tail = [] ∨ n ≤ r.tokens.length := by
      by_contra hend
      exact hmal ⟨fun h => hend (.inl h), not_le.mp fun h => hend (.inr h)⟩
    obtain ⟨dst', hresult, -⟩ := h.decoded hend [] _ hroom
    obtain ⟨dst'', hresult', -⟩ := exists_urldecodeAt r n [] hroom
    rw [hresult, if_neg hmal] at hresult'
    exact min_lt_iff.mp (intOfSize_eq.mp (congrArg Prod.snd (Except.ok.inj hresult')).symm)

/-- **`urldecode` accepts exactly its grammar** just if the number it returns is one an
`int` can hold. -/
theorem decodesExactly_iff (src : CStr) (r : Reading hexCode src.bytes) (n : ℕ) :
    DecodesExactly r n ↔
      (r.tail ≠ [] ∧ r.tokens.length < n) ∨ n < 2 ^ 31 ∨ r.tokens.length < 2 ^ 31 := by
  refine ⟨DecodesExactly.lt, fun h => ⟨fun htail hlen behind dst hroom => ?_,
    fun hend behind dst hroom => ?_, _, _, fun i hi => ?_, urldecodeAt_eq r n⟩⟩
  · obtain ⟨dst', hresult, hstarts⟩ := exists_urldecodeAt r n behind hroom
    rw [if_pos ⟨htail, hlen⟩] at hresult
    rw [List.take_of_length_le hlen.le] at hstarts
    exact ⟨dst', hresult, hstarts⟩
  · obtain ⟨dst', hresult, hstarts⟩ := exists_urldecodeAt r n behind hroom
    have hmal : ¬(r.tail ≠ [] ∧ r.tokens.length < n) := by
      rintro ⟨htail, hlen⟩
      exact hend.elim htail fun hle => absurd hlen (Nat.not_lt.mpr hle)
    rw [if_neg hmal, intOfSize_eq.mpr (min_lt_iff.mpr (h.resolve_left hmal))] at hresult
    exact ⟨dst', hresult, hstarts⟩
  · rw [indices_consecutive] at hi
    have hlt := hi.2
    simp only [List.length_append, List.length_map, List.length_take, List.length_singleton] at hlt
    omega

end Accepts

/-- An escape that is cut off by the end of the string. -/
example : urldecodeAt (.calloc 4) (cellsOf (CStr.lit "%26+%4").bytes []) 3 =
    .ok (⟨[some 38, some 32, some 0, some 0]⟩, 0) := by decide +kernel

/-- A string of 2³¹ characters. -/
def longSource : CStr where
  bytes := List.replicate (2 ^ 31) 'a'.toUInt8
  nul_free h := absurd (List.eq_of_mem_replicate h) (by decide)

/-- Every one of them is a token. -/
def longReading : Reading hexCode longSource.bytes where
  tokens := List.replicate (2 ^ 31) (.plain 'a'.toUInt8 (by decide) (by decide))
  tail := []
  spells := by
    rw [List.append_nil, List.flatMap_replicate]
    exact List.flatten_replicate_singleton
  stuck := .inl rfl

/-- Their number is returned as a negative one. -/
theorem not_decodesExactly_long : ¬DecodesExactly (Escape.read hexCode longSource.bytes) (2 ^ 31) := by
  rw [Subsingleton.elim (Escape.read hexCode longSource.bytes) longReading]
  intro h
  have hlen : longReading.tokens.length = 2 ^ 31 := List.length_replicate
  rcases h.lt with ⟨htail, -⟩ | hlt
  · exact htail rfl
  · rw [hlen, or_self] at hlt
    exact absurd hlt (Nat.lt_irrefl _)

end DialServer
