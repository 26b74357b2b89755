import DialServer.Decoding
import DialServer.Lib.InPlace

/-!
# The URI of a request

`handle_request` cuts the query off the URI, decodes the percent escapes in it, and takes out
of it what might lead out of a directory; both are done where the URI stands. Because they come
in this order, no escape gets round it: whatever is sent, the handler sees no separator with
two dots behind it (`DialServer.not_climbs_requestUri`).

Doubled separators are another matter. They are taken out only as far as they are in the text
before the dots are: `/../x` becomes `//x`. Which paths reach the handler as they were meant is
decided exactly (`DialServer.requestUri_eq_iff`).
-/

namespace DialServer

open CLib Escape InPlace

/-! ### Percent escapes -/

/-- `isdigit`. -/
def isdigit (c : UInt8) : Bool := '0'.toUInt8 ≤ c && c ≤ '9'.toUInt8

/-- `isxdigit`. -/
def isxdigit (c : UInt8) : Bool :=
  isdigit c || ('a'.toUInt8 ≤ c && c ≤ 'f'.toUInt8) || ('A'.toUInt8 ≤ c && c ≤ 'F'.toUInt8)

/-- `HEXTOI`. -/
def hextoi (x : UInt8) : UInt8 := if isdigit x then x - '0'.toUInt8 else x - 'W'.toUInt8

/-- The body of the loop of `url_decode`: what is put at `dst[j]` for `c` at `src[i]`, and how
far `i` moves besides. Behind the text stands a NUL. -/
def urlDecodeRule (isFormUrlEncoded : Bool) (c : UInt8) (rest : List UInt8) : UInt8 × ℕ :=
  let x := rest.headD 0
  let y := rest.tail.headD 0
  if c = '%'.toUInt8 && isxdigit x && isxdigit y then
    ((hextoi (tolower x) <<< 4) ||| hextoi (tolower y), 2)
  else if isFormUrlEncoded && c = '+'.toUInt8 then (' '.toUInt8, 0)
  else (c, 0)

/-- `url_decode` into the string itself, with room for as much as there is. -/
def urlDecode (s : CStr) (isFormUrlEncoded : Bool) : CStr :=
  let r := run (urlDecodeRule isFormUrlEncoded) s.strlen s.bytes 0 0
  .ofBuffer (r.1.take r.2)

/-- The escapes of a URI: a plus is a plus. -/
def uriCode : PairCode UInt8 where
  plus := '+'.toUInt8
  blank := '+'.toUInt8
  mark := '%'.toUInt8
  pair := hexPair
  plus_ne_mark := hexCode.plus_ne_mark

theorem hextoi_eq (c : UInt8) :
    (hexValue c).isSome = isxdigit c ∧
      ∀ n ∈ hexValue c, n < 16 ∧ hextoi (tolower c) = UInt8.ofNat n := by
  revert c
  refine forall_byte ?_
  decide +kernel

theorem shift_or : ∀ m n : Fin 16,
    (UInt8.ofNat m <<< 4) ||| UInt8.ofNat n = UInt8.ofNat (16 * m + n) := by
  decide +kernel

/-- **A pair of digits is read as what it stands for.** -/
theorem urlDecodeRule_pair {x y v : UInt8} (h : hexPair x y = some v) (form : Bool)
    (rest : List UInt8) : urlDecodeRule form '%'.toUInt8 (x :: y :: rest) = (v, 2) := by
  simp only [hexPair, Option.bind_eq_bind, Option.bind_eq_some_iff, Option.pure_def,
    Option.some.injEq] at h
  obtain ⟨high, hx, low, hy, rfl⟩ := h
  obtain ⟨hxd, hxv⟩ := hextoi_eq x
  obtain ⟨hyd, hyv⟩ := hextoi_eq y
  obtain ⟨hhigh, hx'⟩ := hxv high hx
  obtain ⟨hlow, hy'⟩ := hyv low hy
  have hdigits : isxdigit x = true ∧ isxdigit y = true := by
    rw [← hxd, ← hyd, hx, hy]
    exact ⟨rfl, rfl⟩
  simp only [urlDecodeRule, List.headD_cons, List.tail_cons, hdigits.1, hdigits.2, decide_true,
    Bool.and_self, if_true, hx', hy']
  exact Prod.ext (shift_or ⟨high, hhigh⟩ ⟨low, hlow⟩) rfl

theorem urlDecodeRule_plain {c : UInt8} (hc : c ≠ '%'.toUInt8) (rest : List UInt8) :
    urlDecodeRule false c rest = (c, 0) := by
  simp [urlDecodeRule, hc]

/-- **What is written with escapes is decoded.** -/
theorem rewrite_urlDecodeRule {s t : List UInt8} (h : Encodes uriCode s t) :
    rewrite (urlDecodeRule false) 0 s = t := by
  induction h with
  | nil => rfl
  | blank _ ih =>
    rw [rewrite_cons, urlDecodeRule_plain (by decide), List.drop_zero, ih]
    rfl
  | pair hpair _ ih =>
    rw [rewrite_cons, uriCode, urlDecodeRule_pair hpair, List.drop_succ_cons, List.drop_succ_cons,
      List.drop_zero, ih]
  | plain _ hmark _ ih => rw [rewrite_cons, urlDecodeRule_plain hmark, List.drop_zero, ih]

/-- In place or not. -/
theorem urlDecode_eq (s : CStr) (form : Bool) :
    urlDecode s form = .ofBuffer (rewrite (urlDecodeRule form) 0 s.bytes) := by
  exact congrArg CStr.ofBuffer (run_whole _ s.bytes)

/-! ### Dots and slashes -/

/-- A slash or a backslash. -/
def isSlash (c : UInt8) : Bool := c = '/'.toUInt8 || c = '\\'.toUInt8

/-- The pairs of dots a text starts with: how many bytes they are. -/
def dotsLength : List UInt8 → ℕ
  | c :: d :: rest => if c = '.'.toUInt8 && d = '.'.toUInt8 then 2 + dotsLength rest else 0
  | _ => 0

/-- The body of the loop of `remove_double_dots_and_double_slashes`: a byte is copied, and
behind a separator further ones, and then dots, are passed over. -/
def removeRule (c : UInt8) (rest : List UInt8) : UInt8 × ℕ :=
  if isSlash c then
    let slashes := (rest.takeWhile isSlash).length
    (c, slashes + dotsLength (rest.drop slashes))
  else (c, 0)

/-- `remove_double_dots_and_double_slashes`. -/
def removeDoubleDotsAndDoubleSlashes (s : CStr) : CStr :=
  let r := run removeRule s.strlen s.bytes 0 0
  .ofBuffer (r.1.take r.2)

/-- A separator with two dots behind it. -/
def Climbs (text : List UInt8) : Prop :=
  ∃ c, isSlash c = true ∧ [c, '.'.toUInt8, '.'.toUInt8] <:+: text

/-- Two separators in a row. -/
def Doubled (text : List UInt8) : Prop :=
  ∃ c d, isSlash c = true ∧ isSlash d = true ∧ [c, d] <:+: text

theorem removeRule_fst (c : UInt8) (rest : List UInt8) : (removeRule c rest).1 = c := by
  rw [removeRule]
  split <;> rfl

theorem dotsLength_le (text : List UInt8) : dotsLength text ≤ text.length := by
  fun_induction dotsLength text with
  | case1 c d rest _ ih => simp only [List.length_cons]; omega
  | case2 => exact Nat.zero_le _
  | case3 => exact Nat.zero_le _

theorem removeRule_snd_le (c : UInt8) (rest : List UInt8) :
    (removeRule c rest).2 ≤ rest.length := by
  rw [removeRule]
  split
  · have h := dotsLength_le (rest.drop (rest.takeWhile isSlash).length)
    have h' := (List.takeWhile_prefix (l := rest) isSlash).length_le
    rw [List.length_drop] at h
    dsimp only
    omega
  · exact Nat.zero_le _

/-- Behind the pairs of dots there is none. -/
theorem not_dots_drop (text : List UInt8) :
    ¬['.'.toUInt8, '.'.toUInt8] <+: text.drop (dotsLength text) := by
  fun_induction dotsLength text with
  | case1 c d rest _ ih =>
    rw [Nat.add_comm, List.drop_succ_cons, List.drop_succ_cons]
    exact ih
  | case2 c d rest h =>
    rw [List.drop_zero, List.cons_prefix_cons, List.cons_prefix_cons]
    rintro ⟨rfl, rfl, -⟩
    exact h rfl
  | case3 text h =>
    rintro ⟨rest, hrest⟩
    rw [List.drop_zero] at hrest
    exact h _ _ _ hrest.symm

theorem dotsLength_eq_zero {text : List UInt8} :
    dotsLength text = 0 ↔ ¬['.'.toUInt8, '.'.toUInt8] <+: text := by
  constructor
  · intro h
    have hnot := not_dots_drop text
    rwa [h, List.drop_zero] at hnot
  · intro h
    fun_cases dotsLength text with
    | case1 c d rest hdots =>
      simp only [Bool.and_eq_true, decide_eq_true_iff] at hdots
      obtain ⟨rfl, rfl⟩ := hdots
      exact absurd ⟨rest, rfl⟩ h
    | case2 => rfl
    | case3 => rfl

/-- The first byte stays the first. -/
theorem head?_rewrite (text : List UInt8) : (rewrite removeRule 0 text).head? = text.head? := by
  cases text with
  | nil => rfl
  | cons c rest => rw [rewrite_cons, removeRule_fst]; rfl

/-- A text that does not start with two dots does not when it is rewritten. -/
theorem not_dots_rewrite {text : List UInt8} (h : ¬['.'.toUInt8, '.'.toUInt8] <+: text) :
    ¬['.'.toUInt8, '.'.toUInt8] <+: rewrite removeRule 0 text := by
  cases text with
  | nil => exact h
  | cons c rest =>
    rw [rewrite_cons, removeRule_fst, List.cons_prefix_cons]
    rintro ⟨rfl, tail, htail⟩
    rw [removeRule, if_neg (by decide), List.drop_zero] at htail
    have hhead := head?_rewrite rest
    rw [← htail] at hhead
    cases rest with
    | nil => cases hhead
    | cons d rest =>
      obtain rfl := Option.some.inj hhead
      exact h ⟨rest, rfl⟩

/-- **Behind a separator there are no two dots.** -/
theorem not_climbs_rewrite (text : List UInt8) : ¬Climbs (rewrite removeRule 0 text) := by
  induction hn : text.length using Nat.strong_induction_on generalizing text with
  | _ n ih =>
    subst hn
    rintro ⟨c, hc, hinfix⟩
    cases text with
    | nil => exact absurd (List.infix_nil.mp hinfix) (List.cons_ne_nil _ _)
    | cons d rest =>
      rw [rewrite_cons, removeRule_fst, List.infix_cons_iff] at hinfix
      rcases hinfix with hprefix | hinfix
      · obtain ⟨rfl, hdots⟩ := List.cons_prefix_cons.mp hprefix
        rw [removeRule, if_pos hc, ← List.drop_drop] at hdots
        exact not_dots_rewrite (not_dots_drop _) hdots
      · refine ih _ ?_ (rest.drop (removeRule d rest).2) rfl ⟨c, hc, hinfix⟩
        rw [List.length_drop, List.length_cons]
        omega

/-- When nothing is passed over. -/
theorem removeRule_snd_eq_zero {c : UInt8} {rest : List UInt8} : (removeRule c rest).2 = 0 ↔
    (isSlash c = true → (∀ d ∈ rest.head?, isSlash d = false) ∧
      ¬['.'.toUInt8, '.'.toUInt8] <+: rest) := by
  rw [removeRule]
  cases hc : isSlash c with
  | false => simp
  | true =>
    have hslashes : (rest.takeWhile isSlash).length = 0 ↔
        ∀ d ∈ rest.head?, isSlash d = false := by
      cases rest with
      | nil => simp
      | cons d rest => cases hd : isSlash d with
        | true => simp [hd]
        | false => simp [hd]
    rw [if_pos rfl, Nat.add_eq_zero_iff, hslashes, dotsLength_eq_zero]
    constructor
    · rintro ⟨hhead, hdots⟩ -
      rw [hslashes.mpr hhead, List.drop_zero] at hdots
      exact ⟨hhead, hdots⟩
    · intro h
      obtain ⟨hhead, hdots⟩ := h rfl
      rw [hslashes.mpr hhead, List.drop_zero]
      exact ⟨hhead, hdots⟩

/-- **Which texts are left alone.** -/
theorem rewrite_removeRule_eq_self_iff (text : List UInt8) :
    rewrite removeRule 0 text = text ↔ ¬Doubled text ∧ ¬Climbs text := by
  rw [rewrite_eq_self_iff removeRule_fst removeRule_snd_le]
  simp only [removeRule_snd_eq_zero]
  constructor
  · intro hall
    constructor
    · rintro ⟨c, d, hc, hd, hinfix⟩
      obtain ⟨t, ⟨rest, rfl⟩, hsuffix⟩ := List.infix_iff_prefix_suffix.mp hinfix
      exact absurd hd (by simp [((hall c _ hsuffix) hc).1 d rfl])
    · rintro ⟨c, hc, hinfix⟩
      obtain ⟨t, ⟨rest, rfl⟩, hsuffix⟩ := List.infix_iff_prefix_suffix.mp hinfix
      exact ((hall c _ hsuffix) hc).2 ⟨rest, rfl⟩
  · rintro ⟨hdoubled, hclimbs⟩ c rest hsuffix hc
    constructor
    · intro d hd
      cases rest with
      | nil => cases hd
      | cons e rest =>
        obtain rfl := Option.some.inj hd
        by_contra hsep
        rw [Bool.not_eq_false] at hsep
        exact hdoubled ⟨c, e, hc, hsep, List.infix_iff_prefix_suffix.mpr
          ⟨_, ⟨rest, rfl⟩, hsuffix⟩⟩
    · rintro ⟨tail, rfl⟩
      exact hclimbs ⟨c, hc, List.infix_iff_prefix_suffix.mpr ⟨_, ⟨tail, rfl⟩, hsuffix⟩⟩

theorem bytes_removeDoubleDotsAndDoubleSlashes (s : CStr) :
    (removeDoubleDotsAndDoubleSlashes s).bytes = rewrite removeRule 0 s.bytes := by
  have hnul : (0 : UInt8) ∉ rewrite removeRule 0 s.bytes := fun hmem =>
    s.nul_free ((rewrite_sublist removeRule_fst 0 s.bytes).subset hmem)
  exact (congrArg (fun l => (CStr.ofBuffer l).bytes) (run_whole _ s.bytes)).trans
    (CStr.bytes_ofBuffer hnul)

/-! ### The URI -/

/-- What `handle_request` makes of the URI of a request: the URI the handler sees, and the
query string. -/
def requestUri (uri : CStr) : CStr × Option CStr :=
  let clean (path : CStr) := removeDoubleDotsAndDoubleSlashes (urlDecode path false)
  match strchr uri.bytes '?'.toUInt8 with
  | some n => (clean (uri.take n), some (uri.drop (n + 1)))
  | none => (clean uri, none)

/-- **The handler sees no separator with two dots behind it**, whatever was sent. -/
theorem not_climbs_requestUri (uri : CStr) : ¬Climbs (requestUri uri).1.bytes := by
  rw [requestUri]
  split
  · rw [bytes_removeDoubleDotsAndDoubleSlashes]
    exact not_climbs_rewrite _
  · rw [bytes_removeDoubleDotsAndDoubleSlashes]
    exact not_climbs_rewrite _

/-- A URI: a path, and a query behind a question mark, if there is one. -/
def uriText (path : List UInt8) : Option CStr → List UInt8
  | some query => path ++ '?'.toUInt8 :: query.bytes
  | none => path

/-- The query is what stands behind the first question mark. -/
theorem requestUri_eq {uri : CStr} {path : List UInt8} {query : Option CStr}
    (huri : uri.bytes = uriText path query) (hpath : '?'.toUInt8 ∉ path) :
    requestUri uri = (removeDoubleDotsAndDoubleSlashes
      (.ofBuffer (rewrite (urlDecodeRule false) 0 path)), query) := by
  cases query with
  | none =>
    rw [requestUri, huri, uriText, strchr_eq_none.mpr hpath]
    dsimp only
    rw [urlDecode_eq, huri]
    rfl
  | some query =>
    rw [requestUri, huri, uriText, strchr_append_cons hpath]
    have htake : (uri.take path.length).bytes = path := by
      rw [CStr.bytes_take, huri]
      exact List.take_left
    have hdrop : uri.drop (path.length + 1) = query := by
      refine CStr.ext ?_
      rw [CStr.bytes_drop, huri, ← List.drop_drop]
      exact congrArg (List.drop 1) List.drop_left
    dsimp only
    rw [urlDecode_eq, htake, hdrop]

/-- **A path reaches the handler as it was meant**, however it was escaped, if and only if it
has no NUL, no two separators in a row and none with two dots behind it. -/
theorem requestUri_eq_iff {uri : CStr} {path meant : List UInt8} {query : Option CStr}
    (huri : uri.bytes = uriText path query) (hpath : '?'.toUInt8 ∉ path)
    (hmeant : Encodes uriCode path meant) :
    ((requestUri uri).1.bytes = meant ∧ (requestUri uri).2 = query) ↔
      0 ∉ meant ∧ ¬Doubled meant ∧ ¬Climbs meant := by
  rw [requestUri_eq huri hpath, rewrite_urlDecodeRule hmeant,
    bytes_removeDoubleDotsAndDoubleSlashes]
  by_cases hnul : (0 : UInt8) ∈ meant
  · refine iff_of_false ?_ fun h => h.1 hnul
    rintro ⟨heq, -⟩
    rw [← heq] at hnul
    exact (CStr.ofBuffer meant).nul_free
      ((rewrite_sublist removeRule_fst 0 _).subset hnul)
  · rw [CStr.bytes_ofBuffer hnul, rewrite_removeRule_eq_self_iff]
    exact ⟨fun h => ⟨hnul, h.1⟩, fun h => ⟨h.2, rfl⟩⟩

/-- An escaped letter, and a query. -/
theorem requestUri_eq_iff_escape :
    (requestUri (.lit "/apps/You%54ube?v=1")).1.bytes = (CStr.lit "/apps/YouTube").bytes ∧
      (requestUri (.lit "/apps/You%54ube?v=1")).2 = some (.lit "v=1") := by
  have hmeant : Encodes uriCode (CStr.lit "/apps/You%54ube").bytes
      (CStr.lit "/apps/YouTube").bytes := encodes_of_decode uriCode (by decide +kernel)
  have hself : rewrite removeRule 0 (CStr.lit "/apps/YouTube").bytes =
      (CStr.lit "/apps/YouTube").bytes := by decide +kernel
  exact (requestUri_eq_iff (by decide +kernel) (by decide +kernel) hmeant).mpr
    ⟨(CStr.lit "/apps/YouTube").nul_free, (rewrite_removeRule_eq_self_iff _).mp hself⟩

end DialServer
