import DialServer.Lib.CString

/-!
# The memory of one object

A `CLib.Block` is one object of the program – a local array, or what `malloc`
returned – as the list of its bytes, each of them either written or still
indeterminate. Every access is checked against the object: one that leaves it,
that reads a byte nobody has written, or that looks for the end of a string the
object does not hold, is an explicit `CLib.Fault`, because the language gives it
no meaning.
-/

namespace CLib

/-- The operations the language gives no meaning to. -/
inductive Fault
  /-- An access outside the object. -/
  | outOfBounds
  /-- A read of a byte that was never written. -/
  | indeterminate
  /-- A string read that meets no NUL before the end of the object. -/
  | unterminated
  /-- `free` of a pointer that no allocation returned. -/
  | badFree
  /-- A signed sum that its type cannot hold. -/
  | overflow
  /-- A call or an access through a null pointer. -/
  | null
  deriving DecidableEq

namespace CStr

/-- The empty string. -/
def nil : CStr := ⟨[], by simp⟩

@[simp] theorem strlen_nil : nil.strlen = 0 := rfl

@[simp] theorem append_nil (s : CStr) : s ++ nil = s := CStr.ext (List.append_nil _)

@[simp] theorem nil_append (s : CStr) : nil ++ s = s := rfl

theorem strlen_eq_zero {s : CStr} : s.strlen = 0 ↔ s = nil := by
  rw [strlen, List.length_eq_zero_iff, CStr.ext_iff, nil]

/-- A string with one more byte in front. -/
def cons (c : UInt8) (h : c ≠ 0) (s : CStr) : CStr :=
  ⟨c :: s.bytes, by
    rw [List.mem_cons, not_or]
    exact ⟨h.symm, s.nul_free⟩⟩

end CStr

/-- One object: its bytes, `none` where nothing has been written. -/
structure Block where
  /-- The bytes of the object. -/
  cells : List (Option UInt8)
  deriving DecidableEq

namespace Block

/-- The object `malloc(n)` returns: nothing is known of its bytes. -/
def malloc (n : ℕ) : Block := ⟨List.replicate n none⟩

/-- The object `calloc(1, n)` returns, and an array initialized by `{0, }`. -/
def calloc (n : ℕ) : Block := ⟨List.replicate n (some 0)⟩

/-- `sizeof` the object. -/
def size (b : Block) : ℕ := b.cells.length

@[simp] theorem size_malloc (n : ℕ) : (malloc n).size = n := List.length_replicate

@[simp] theorem size_calloc (n : ℕ) : (calloc n).size = n := List.length_replicate

/-- Write one byte at index `i`. -/
def store (b : Block) (i : ℕ) (c : UInt8) : Except Fault Block :=
  if i < b.size then .ok ⟨b.cells.set i (some c)⟩ else .error .outOfBounds

/-- Write the bytes `l` from index `i` on, as `memcpy` does. -/
def storeAll (b : Block) (i : ℕ) (l : List UInt8) : Except Fault Block :=
  if i + l.length ≤ b.size then
    .ok ⟨b.cells.take i ++ l.map some ++ b.cells.drop (i + l.length)⟩
  else .error .outOfBounds

/-- Write a string and its terminator from index `i` on, as `strcpy` and
`sprintf` do. -/
def storeString (b : Block) (i : ℕ) (s : CStr) : Except Fault Block :=
  b.storeAll i (s.bytes ++ [0])

/-- `strncpy`, which writes exactly `n` bytes: the first `n` of the source, or
the whole of it and then NULs. -/
def strncpy (b : Block) (src : CStr) (n : ℕ) : Except Fault Block :=
  if n ≤ b.size then
    .ok ⟨((src.take n).bytes ++ List.replicate (n - src.strlen) 0).map some ++ b.cells.drop n⟩
  else .error .outOfBounds

/-- `snprintf` of a text with `%s`: at most `n` bytes are written, with the terminator. -/
def snprintf (b : Block) (n : ℕ) (s : CStr) : Except Fault Block :=
  if n = 0 then .ok b else b.storeString 0 (s.take (n - 1))

/-- The string that starts at the front of the given bytes. -/
def readString : List (Option UInt8) → Except Fault CStr
  | [] => .error .unterminated
  | none :: _ => .error .indeterminate
  | some c :: b => if h : c = 0 then .ok .nil else (readString b).map (.cons c h)

/-- The string an object holds. -/
def cstr (b : Block) : Except Fault CStr := readString b.cells

/-- `strcat`: a string is written where the string the object holds ends. -/
def strcat (b : Block) (s : CStr) : Except Fault Block := do
  let text ← b.cstr
  b.storeString text.strlen s

/-- Read the first `n` bytes, as what sends them does. -/
def readAll (b : Block) (n : ℕ) : Except Fault (List UInt8) :=
  if n ≤ b.size then
    match (b.cells.take n).mapM id with
    | some l => .ok l
    | none => .error .indeterminate
  else .error .outOfBounds

/-- The bytes of an object that are known, up to the first NUL or unknown
byte: what it holds when no terminator is asked for. -/
def text (b : Block) : CStr := .ofBuffer (b.cells.map fun c => c.getD 0)

/-- A terminated string is read back. -/
theorem readString_append (s : CStr) (b : List (Option UInt8)) :
    readString (s.bytes.map some ++ some 0 :: b) = .ok s := by
  obtain ⟨l, hl⟩ := s
  induction l with
  | nil => rfl
  | cons c l ih =>
    have hc : c ≠ 0 := fun h => hl (by simp [h])
    have hl' : (0 : UInt8) ∉ l := fun h => hl (by simp [h])
    simp only [List.map_cons, List.cons_append, readString, hc, dite_false, ih hl']
    rfl

/-- An array filled to the brim holds no string. -/
theorem readString_map (s : CStr) : readString (s.bytes.map some) = .error .unterminated := by
  obtain ⟨l, hl⟩ := s
  induction l with
  | nil => rfl
  | cons c l ih =>
    have hc : c ≠ 0 := fun h => hl (by simp [h])
    have hl' : (0 : UInt8) ∉ l := fun h => hl (by simp [h])
    simp only [List.map_cons, readString, hc, dite_false, ih hl']
    rfl

/-- Memory that `malloc` returned holds no string. -/
theorem cstr_malloc (n : ℕ) : ∃ f, (malloc n).cstr = .error f := by
  cases n with
  | zero => exact ⟨.unterminated, rfl⟩
  | succ n => exact ⟨.indeterminate, rfl⟩

/-- **What a copy into a zeroed array leaves** while there is room for the terminator. -/
theorem exists_strncpy_calloc {n m : ℕ} {src : CStr} (hm : m ≤ src.strlen) (hlt : m < n) :
    ∃ b, (calloc n).strncpy src m = .ok b ∧ b.cstr = .ok (src.take m) := by
  have hsize : (calloc n).size = n := List.length_replicate
  obtain ⟨k, hk⟩ : ∃ k, n - m = k + 1 := ⟨n - m - 1, by omega⟩
  refine ⟨_, if_pos (by omega), ?_⟩
  rw [Nat.sub_eq_zero_of_le hm]
  simp only [calloc, List.replicate_zero, List.append_nil, List.drop_replicate, hk]
  exact readString_append (src.take m) _

/-- **What a copy that fills a zeroed array leaves**: the bytes, and no terminator. -/
theorem strncpy_calloc_full {n : ℕ} {src : CStr} (hn : n ≤ src.strlen) :
    (calloc n).strncpy src n = .ok ⟨(src.take n).bytes.map some⟩ := by
  have hsize : (calloc n).size = n := List.length_replicate
  rw [strncpy, hsize, if_pos le_rfl, Nat.sub_eq_zero_of_le hn]
  simp only [calloc, List.replicate_zero, List.append_nil, List.drop_replicate, Nat.sub_self]

/-- **What a copy of exactly the string into a zeroed object of its length leaves**:
its bytes, and no terminator. -/
theorem strncpy_calloc_strlen (s : CStr) :
    (calloc s.strlen).strncpy s s.strlen = .ok ⟨s.bytes.map some⟩ := by
  have hsize : (calloc s.strlen).size = s.strlen := List.length_replicate
  have htake : (s.take s.strlen).bytes = s.bytes := List.take_length
  rw [strncpy, hsize, if_pos le_rfl, htake, Nat.sub_self, List.replicate_zero, List.append_nil]
  simp [calloc]

/-- What a copy that covers the whole object writes. -/
theorem strncpy_size (b : Block) (src : CStr) :
    b.strncpy src b.size =
      .ok ⟨((src.take b.size).bytes ++ List.replicate (b.size - src.strlen) 0).map some⟩ := by
  rw [strncpy, if_pos le_rfl, size, List.drop_length, List.append_nil]

/-- An object filled with a string holds its text, terminated or not. -/
theorem text_map (s : CStr) : text ⟨s.bytes.map some⟩ = s := by
  have hmap : (s.bytes.map some).map (fun c => c.getD 0) = s.bytes := by
    rw [List.map_map]
    exact List.map_id _
  rw [text, hmap]
  exact CStr.ext (CStr.bytes_ofBuffer s.nul_free)

/-- **An object holds a string** if it starts with its bytes and a NUL. -/
theorem cstr_eq_ok {b : Block} {s : CStr} :
    b.cstr = .ok s ↔ ∃ rest, b.cells = s.bytes.map some ++ some 0 :: rest := by
  constructor
  · obtain ⟨cells⟩ := b
    intro h
    rw [cstr] at h
    induction cells generalizing s with
    | nil => exact absurd h (by simp [readString])
    | cons c cells ih =>
      rcases c with _ | c
      · exact absurd h (by simp [readString])
      · rw [readString] at h
        split at h
        · rename_i hc
          obtain rfl := Except.ok.inj h
          exact ⟨cells, by rw [hc]; rfl⟩
        · rename_i hc
          rcases htail : readString cells with f | tail
          · rw [htail] at h
            exact absurd h (by simp [Except.map])
          · rw [htail] at h
            obtain rfl := Except.ok.inj h
            obtain ⟨rest, hrest⟩ := ih htail
            exact ⟨rest, congrArg (some c :: ·) hrest⟩
  · rintro ⟨rest, hrest⟩
    rw [cstr, hrest]
    exact readString_append s rest

/-- **A copy that covers the whole object** leaves a string when the source is shorter than
the object, and no string otherwise. -/
theorem exists_strncpy_size (b : Block) (src : CStr) :
    ∃ b', b.strncpy src b.size = .ok b' ∧ b'.size = b.size ∧
      b'.cstr = if src.strlen < b.size then .ok src else .error .unterminated := by
  refine ⟨_, strncpy_size b src, ?_, ?_⟩
  · rw [size, List.length_map, List.length_append, ← CStr.strlen, CStr.strlen_take,
      List.length_replicate]
    omega
  · split
    · rename_i hlt
      obtain ⟨k, hk⟩ : ∃ k, b.size - src.strlen = k + 1 := ⟨b.size - src.strlen - 1, by omega⟩
      refine cstr_eq_ok.mpr ⟨List.replicate k (some 0), ?_⟩
      have htake : (src.take b.size).bytes = src.bytes := List.take_of_length_le hlt.le
      rw [htake, hk, List.map_append, List.map_replicate, List.replicate_succ]
    · rename_i hge
      have hzero : b.size - src.strlen = 0 := by omega
      rw [hzero, List.replicate_zero, List.append_nil]
      exact readString_map (src.take b.size)

/-- A NUL written behind the end of a string changes nothing. -/
theorem exists_store_of_lt {b : Block} {s : CStr} {i : ℕ} (h : b.cstr = .ok s)
    (hi : s.strlen < i) (hroom : i < b.size) :
    ∃ b', b.store i 0 = .ok b' ∧ b'.size = b.size ∧ b'.cstr = .ok s := by
  refine ⟨_, if_pos hroom, List.length_set, ?_⟩
  obtain ⟨rest, hrest⟩ := cstr_eq_ok.mp h
  obtain ⟨k, hk⟩ : ∃ k, i - s.strlen = k + 1 := ⟨i - s.strlen - 1, by omega⟩
  refine cstr_eq_ok.mpr ⟨rest.set k (some 0), ?_⟩
  rw [hrest, List.set_append_right _ _ (by rw [List.length_map, ← CStr.strlen]; omega),
    List.length_map, ← CStr.strlen, hk, List.set_cons_succ]

/-- **A copy that covers the whole object, terminated in its last byte**, leaves the front of
the source. -/
theorem exists_strncpy_store {b : Block} {n : ℕ} (hsize : b.size = n + 1) (src : CStr) :
    ∃ b', (do let b ← b.strncpy src (n + 1); b.store n 0) = .ok b' ∧ b'.size = n + 1 ∧
      b'.cstr = .ok (src.take n) := by
  obtain ⟨b₁, hcopy, hsize₁, hcstr⟩ := exists_strncpy_size b src
  have hcells := strncpy_size b src
  rw [hsize] at hcopy hsize₁ hcstr hcells
  simp only [hcopy, bind, Except.bind]
  rcases Nat.lt_or_ge src.strlen n with hlt | hge
  · rw [if_pos (by omega)] at hcstr
    obtain ⟨b', hstore, hsize', hcstr'⟩ := exists_store_of_lt hcstr hlt (by omega)
    have htake : src.take n = src := CStr.ext (List.take_of_length_le hlt.le)
    exact ⟨b', hstore, by omega, by rw [htake, hcstr']⟩
  · have hroom : n < b₁.size := by omega
    refine ⟨_, if_pos hroom, List.length_set.trans hsize₁, ?_⟩
    have hfront : b₁.cells.take n = (src.take n).bytes.map some := by
      rw [← Except.ok.inj (hcells.symm.trans hcopy), ← List.map_take]
      refine congrArg (List.map some) ?_
      rw [List.take_append_of_le_length (by rw [← CStr.strlen, CStr.strlen_take]; omega),
        CStr.bytes_take, List.take_take, Nat.min_eq_left (Nat.le_succ n), CStr.bytes_take]
    refine cstr_eq_ok.mpr ⟨b₁.cells.drop (n + 1), ?_⟩
    rw [← hfront, List.set_eq_take_append_cons_drop]
    exact if_pos hroom

/-- The text of an object that holds a string is the string. -/
theorem text_of_cstr {b : Block} {s : CStr} (h : b.cstr = .ok s) : b.text = s := by
  obtain ⟨rest, hrest⟩ := cstr_eq_ok.mp h
  have hmap : (s.bytes.map some).map (fun c => c.getD 0) = s.bytes := by
    rw [List.map_map]
    exact List.map_id _
  have hbytes : ∀ c ∈ s.bytes, decide (c ≠ 0) = true := fun c hc =>
    decide_eq_true fun hzero => s.nul_free (hzero ▸ hc)
  refine CStr.ext ?_
  rw [text, CStr.ofBuffer, hrest, List.map_append, hmap]
  simp only [List.map_cons, Option.getD_some]
  rw [List.takeWhile_append_of_pos hbytes, List.takeWhile_cons_of_neg (by simp), List.append_nil]

/-- A string copied with its terminator is read back. -/
theorem cstr_of_storeString {b b' : Block} {s : CStr} (h : b.storeString 0 s = .ok b') :
    b'.cstr = .ok s := by
  rw [storeString, storeAll] at h
  split at h
  · obtain rfl := Except.ok.inj h
    simp only [cstr, List.take_zero, List.nil_append, List.map_append, List.map_cons,
      List.map_nil, List.append_assoc, List.cons_append]
    exact readString_append s _
  · exact absurd h (by simp)

/-- The copy is made when it fits. -/
theorem cstr_storeString {b : Block} {s : CStr} (h : s.strlen < b.size) :
    ∃ b', b.storeString 0 s = .ok b' ∧ b'.cstr = .ok s := by
  have hlen : 0 + (s.bytes ++ [0]).length ≤ b.size := by
    rw [Nat.zero_add, List.length_append]
    exact h
  obtain ⟨b', hb'⟩ : ∃ b', b.storeString 0 s = .ok b' := ⟨_, if_pos hlen⟩
  exact ⟨b', hb', cstr_of_storeString hb'⟩

/-- A string that does not fit with its terminator is written past the end. -/
theorem storeString_of_le {b : Block} {i : ℕ} {s : CStr} (h : b.size ≤ i + s.strlen) :
    b.storeString i s = .error .outOfBounds := by
  rw [storeString, storeAll, if_neg]
  rw [List.length_append, List.length_singleton, ← CStr.strlen]
  omega

/-- **What `sprintf` leaves in an array**: the text, if there is room for it and its
terminator. -/
theorem storeString_calloc_eq_ok {n : ℕ} {s t : CStr} :
    ((calloc n).storeString 0 s >>= cstr) = .ok t ↔ s.strlen < n ∧ t = s := by
  rcases Nat.lt_or_ge s.strlen n with hlt | hge
  · obtain ⟨b', hstore, hcstr⟩ := cstr_storeString (b := calloc n) (by rwa [size_calloc])
    simp only [hstore, hcstr, bind, Except.bind, Except.ok.injEq, hlt, true_and]
    exact eq_comm
  · rw [storeString_of_le (by rw [size_calloc]; omega)]
    exact iff_of_false (by simp [bind, Except.bind]) fun h => Nat.not_lt.mpr hge h.1

/-- Writing leaves the size as it is. -/
theorem size_storeAll {b b' : Block} {i : ℕ} {l : List UInt8} (h : b.storeAll i l = .ok b') :
    b'.size = b.size := by
  rw [storeAll] at h
  split at h
  · rename_i hroom
    obtain rfl := Except.ok.inj h
    rw [size] at hroom ⊢
    simp only [List.length_append, List.length_take, List.length_map, List.length_drop]
    rw [size]
    omega
  · exact absurd h (by simp)

/-- **`snprintf` leaves the front of its text** if the object has room for that. -/
theorem exists_snprintf {b : Block} {n : ℕ} {s : CStr} (hn : 0 < n)
    (hroom : (s.take (n - 1)).strlen < b.size) :
    ∃ b', b.snprintf n s = .ok b' ∧ b'.cstr = .ok (s.take (n - 1)) ∧ b'.size = b.size := by
  obtain ⟨b', hstore, hcstr⟩ := cstr_storeString hroom
  exact ⟨b', by rw [snprintf, if_neg hn.ne', hstore], hcstr, size_storeAll hstore⟩

/-- A bound beyond the object lets a long text be written past its end. -/
theorem snprintf_of_le {b : Block} {n : ℕ} {s : CStr} (hn : 0 < n)
    (hroom : b.size ≤ (s.take (n - 1)).strlen) : b.snprintf n s = .error .outOfBounds := by
  rw [snprintf, if_neg hn.ne', storeString_of_le (by rwa [Nat.zero_add])]

/-- **`strcat` appends** when there is room. -/
theorem cstr_strcat {b : Block} {t s : CStr} (h : b.cstr = .ok t)
    (hroom : t.strlen + s.strlen < b.size) :
    ∃ b', b.strcat s = .ok b' ∧ b'.cstr = .ok (t ++ s) ∧ b'.size = b.size := by
  obtain ⟨rest, hrest⟩ := cstr_eq_ok.mp h
  have hlen : t.strlen + (s.bytes ++ [0]).length ≤ b.size := by
    rw [List.length_append, List.length_singleton, ← CStr.strlen]
    omega
  obtain ⟨b', hstore⟩ : ∃ b', b.storeString t.strlen s = .ok b' := ⟨_, if_pos hlen⟩
  refine ⟨b', by rw [strcat, h]; exact hstore, ?_, size_storeAll hstore⟩
  rw [storeString, storeAll, if_pos hlen] at hstore
  refine cstr_eq_ok.mpr ⟨b.cells.drop (t.strlen + (s.bytes ++ [0]).length), ?_⟩
  have htake : b.cells.take t.strlen = t.bytes.map some := by
    rw [hrest, CStr.strlen, ← List.length_map (f := some), List.take_left]
  rw [← Except.ok.inj hstore, htake]
  simp

/-- Without room it leaves the object. -/
theorem strcat_of_le {b : Block} {t s : CStr} (h : b.cstr = .ok t)
    (hroom : b.size ≤ t.strlen + s.strlen) : b.strcat s = .error .outOfBounds := by
  rw [strcat, h]
  exact storeString_of_le hroom

/-- **An operation appends a text** to the string an object holds: if there is room for
it, and otherwise it fails. -/
def Appends (f : Block → Except Fault Block) (part : CStr) : Prop :=
  ∀ b t, b.cstr = .ok t →
    (t.strlen + part.strlen < b.size →
      ∃ b', f b = .ok b' ∧ b'.cstr = .ok (t ++ part) ∧ b'.size = b.size) ∧
    (b.size ≤ t.strlen + part.strlen → ∃ fault, f b = .error fault)

theorem appends_strcat (s : CStr) : Appends (strcat · s) s :=
  fun _ _ h => ⟨cstr_strcat h, fun hroom => ⟨_, strcat_of_le h hroom⟩⟩

/-- An object that holds a string has room for its terminator. -/
theorem strlen_lt_size {b : Block} {t : CStr} (h : b.cstr = .ok t) : t.strlen < b.size := by
  obtain ⟨rest, hrest⟩ := cstr_eq_ok.mp h
  rw [size, hrest, List.length_append, List.length_map, List.length_cons, ← CStr.strlen]
  omega

/-- Doing nothing appends nothing. -/
theorem appends_ok : Appends .ok .nil := fun b t h => by
  rw [CStr.strlen_nil, CStr.append_nil]
  exact ⟨fun _ => ⟨b, rfl, h, rfl⟩, fun hroom => absurd (strlen_lt_size h) (Nat.not_lt.mpr hroom)⟩

/-- **One operation after the other** appends one text after the other. -/
theorem Appends.bind {f g : Block → Except Fault Block} {p q : CStr} (hf : Appends f p)
    (hg : Appends g q) : Appends (fun b => f b >>= g) (p ++ q) := by
  intro b t h
  rw [CStr.strlen_append, ← CStr.append_assoc, ← Nat.add_assoc]
  rcases Nat.lt_or_ge (t.strlen + p.strlen) b.size with hlt | hge
  · obtain ⟨b₁, hfb, hcstr, hsize⟩ := (hf b t h).1 hlt
    have hrest := hg b₁ (t ++ p) hcstr
    rw [CStr.strlen_append, hsize] at hrest
    simpa only [hfb, Bind.bind, Except.bind] using hrest
  · obtain ⟨fault, hfault⟩ := (hf b t h).2 hge
    refine ⟨fun hroom => absurd hroom (by omega), fun _ => ⟨fault, ?_⟩⟩
    simp only [hfault, Bind.bind, Except.bind]

/-- **What an object holds** that was empty when texts were appended to it. -/
theorem Appends.cstr_calloc {f : Block → Except Fault Block} {part t : CStr} {n : ℕ}
    (hf : Appends f part) (hn : 0 < n) :
    (f (calloc n) >>= cstr) = .ok t ↔ part.strlen < n ∧ t = part := by
  have hempty : (calloc n).cstr = .ok .nil := by
    obtain ⟨m, rfl⟩ := Nat.exists_eq_succ_of_ne_zero hn.ne'
    exact cstr_eq_ok.mpr ⟨List.replicate m (some 0), rfl⟩
  have happends := hf _ _ hempty
  rw [CStr.strlen_nil, Nat.zero_add, size_calloc, CStr.nil_append] at happends
  rcases Nat.lt_or_ge part.strlen n with hlt | hge
  · obtain ⟨b', hfb, hcstr, -⟩ := happends.1 hlt
    simp only [hfb, hcstr, Bind.bind, Except.bind, Except.ok.injEq, hlt, true_and]
    exact eq_comm
  · obtain ⟨fault, hfault⟩ := happends.2 hge
    rw [hfault]
    exact iff_of_false (by simp [Bind.bind, Except.bind]) fun h => Nat.not_lt.mpr hge h.1

/-- Writing one byte leaves the bytes behind it alone. -/
theorem drop_store {b b' : Block} {i k : ℕ} {c : UInt8} (h : b.store i c = .ok b') (hik : i < k) :
    b'.cells.drop k = b.cells.drop k := by
  rw [store] at h
  split at h
  · rw [← Except.ok.inj h]
    exact List.drop_set_of_lt hik
  · exact absurd h (by simp)

/-! ### What an object starts with -/

/-- The object starts with the given bytes. -/
def Starts (b : Block) (l : List UInt8) : Prop := l.map some <+: b.cells

section Starts

variable {b : Block} {l l' : List UInt8}

theorem starts_nil (b : Block) : b.Starts [] := List.nil_prefix

theorem calloc_starts {n : ℕ} (hn : 0 < n) : (calloc n).Starts [0] := by
  obtain ⟨m, rfl⟩ := Nat.exists_eq_succ_of_ne_zero hn.ne'
  exact ⟨List.replicate m (some 0), rfl⟩

theorem Starts.length_le (h : b.Starts l) : l.length ≤ b.size := by
  have hlen := List.IsPrefix.length_le h
  rwa [List.length_map] at hlen

theorem Starts.of_append (h : b.Starts (l ++ l')) : b.Starts l := by
  rw [Starts, List.map_append] at h
  exact (List.prefix_append _ _).trans h

/-- **The next byte is written**, if there is room for it. -/
theorem Starts.store (h : b.Starts l) (hroom : l.length < b.size) (c : UInt8) :
    ∃ b', b.store l.length c = .ok b' ∧ b'.Starts (l ++ [c]) ∧ b'.size = b.size := by
  refine ⟨_, if_pos hroom, ?_, List.length_set⟩
  obtain ⟨rest, hrest⟩ := h
  rw [size, ← hrest, List.length_append, List.length_map] at hroom
  obtain ⟨x, rest, rfl⟩ := List.exists_cons_of_length_pos (l := rest) (by omega)
  refine ⟨rest, ?_⟩
  rw [← hrest, List.set_append_right _ _ (by rw [List.length_map]), List.length_map, Nat.sub_self,
    List.set_cons_zero, List.map_append, List.append_assoc]
  rfl

/-- Without room for it, the write leaves the object. -/
theorem store_of_le {i : ℕ} (h : b.size ≤ i) (c : UInt8) : b.store i c = .error .outOfBounds :=
  if_neg (Nat.not_lt.mpr h)

/-- **The string an object holds** that starts with some bytes and a NUL. -/
theorem Starts.cstr (h : b.Starts (l ++ [0])) : b.cstr = .ok (.ofBuffer l) := by
  obtain ⟨rest, hrest⟩ := h
  rw [Block.cstr, ← hrest]
  clear hrest
  induction l with
  | nil => rfl
  | cons c l ih =>
    rw [List.cons_append, List.map_cons, List.cons_append, readString]
    split
    · rename_i hc
      subst hc
      rfl
    · rename_i hc
      rw [ih]
      refine congrArg Except.ok (CStr.ext ?_)
      simp [CStr.cons, CStr.ofBuffer, hc]

/-- What was written is read back. -/
theorem Starts.readAll (h : b.Starts l) : b.readAll l.length = .ok l := by
  have hmap : ∀ l : List UInt8, (l.map some).mapM id = some l := by
    intro l
    induction l with
    | nil => rfl
    | cons c l ih => simp [ih]
  have htake : b.cells.take l.length = l.map some := by
    obtain ⟨rest, hrest⟩ := h
    rw [← hrest, ← List.length_map (f := some), List.take_left]
  rw [Block.readAll, if_pos h.length_le, htake, hmap]

/-- **Bytes are copied to the front of an object** that has room for them. -/
theorem exists_storeAll (h : l.length ≤ b.size) :
    ∃ b', b.storeAll 0 l = .ok b' ∧ b'.Starts l ∧ b'.size = b.size := by
  obtain ⟨b', hb'⟩ : ∃ b', b.storeAll 0 l = .ok b' := ⟨_, if_pos (by rwa [Nat.zero_add])⟩
  refine ⟨b', hb', ?_, size_storeAll hb'⟩
  rw [storeAll, if_pos (by rwa [Nat.zero_add])] at hb'
  cases hb'
  exact List.prefix_append _ _

/-- A text that fits is printed whole. -/
theorem exists_snprintf_of_lt {n : ℕ} {s : CStr} (h : s.strlen < n) (hroom : n ≤ b.size) :
    ∃ b', b.snprintf n s = .ok b' ∧ b'.Starts s.bytes := by
  have htake : s.take (n - 1) = s := CStr.ext (List.take_of_length_le (Nat.le_sub_one_of_lt h))
  obtain ⟨b', hprint, hcstr, -⟩ := exists_snprintf (b := b) (Nat.zero_lt_of_lt h)
    (by rw [htake]; exact h.trans_le hroom)
  rw [htake] at hcstr
  obtain ⟨rest, hrest⟩ := cstr_eq_ok.mp hcstr
  refine ⟨b', hprint, ?_⟩
  rw [Starts, hrest]
  exact List.prefix_append _ _

end Starts

end Block

end CLib
