import DialServer.Lib.Memory
import Mathlib.Data.List.Basic

/-!
# The configuration file

`initValues` reads `config.ini` line by line. A line is cut at its first ` = `, and a key
the program knows has its value copied into an array; `DialServer.initLine` is the body of
the loop. What it should do is `DialServer.ReadsConfig`: every line is read, a line that
gives nothing changes nothing, and at the end the arrays hold what was given last
(`DialServer.Reflects`).

A line without a separator is taken for a key, and its value is looked for two bytes
behind its start, because `npos + 3` wraps around: a line shorter than that stops the
program, and a line that is a known key sets it. The name of the computer is copied with a
bound one byte beyond its array. `DialServer.readsConfig_iff` shows that a file without
such lines is read as it should be, whatever else is in it.
-/

namespace DialServer

open CLib

/-! ### The loop -/

/-- `MAX_COMPUTERNAME_LENGTH`. -/
def maxComputernameLength : ℕ := 15

/-- `INET_ADDRSTRLEN`. -/
def inetAddrstrlen : ℕ := 22

/-- What ends the loop before the end of the file. -/
inductive Failure
  /-- The exception `std::out_of_range`, which nothing catches. -/
  | outOfRange
  /-- An operation without a meaning. -/
  | fault (f : Fault)
  deriving DecidableEq

/-- The static data of `main.cpp` that the file sets. -/
structure Settings where
  spFriendlyName : Block
  ipAddr : Block
  /-- `defined[0]`. -/
  nameDefined : Bool
  /-- `defined[1]`. -/
  ipDefined : Bool
  deriving DecidableEq

/-- The state before the file is read. -/
def Settings.start : Settings where
  spFriendlyName := .calloc (maxComputernameLength + 1)
  ipAddr := .calloc inetAddrstrlen
  nameDefined := false
  ipDefined := false

/-- The lines `getline` finds in a file, one after the other. -/
def getlines : List UInt8 → List (List UInt8)
  | [] => []
  | c :: s =>
    if c = '\n'.toUInt8 then [] :: getlines s
    else match getlines s with
      | [] => [[c]]
      | line :: lines => (c :: line) :: lines

/-- `std::string::find`; `none` stands for `npos`. -/
def find (s needle : List UInt8) : Option ℕ :=
  (strstr needle s).map fun found => s.length - found.length

/-- `std::string::substr`; without a count, up to the end. -/
def substr (s : List UInt8) (pos : ℕ) (count : Option ℕ) : Except Failure (List UInt8) :=
  if s.length < pos then .error .outOfRange
  else match count with
    | some n => .ok ((s.drop pos).take n)
    | none => .ok (s.drop pos)

/-- ` = `, which separates a key from its value. -/
def separator : List UInt8 := (CStr.lit " = ").bytes

/-- The key of the computer's name. -/
def friendlyNameKey : List UInt8 := (CStr.lit "friendly name").bytes

/-- The key of the address. -/
def ipAddressKey : List UInt8 := (CStr.lit "ip address").bytes

/-- What the body of the loop does with a key and its value. -/
def setValue (s : Settings) (key value : List UInt8) : Except Failure Settings :=
  if key = friendlyNameKey then do
    let spFriendlyName ← (s.spFriendlyName.snprintf (maxComputernameLength + 2)
      (.ofBuffer value)).mapError .fault
    pure { s with spFriendlyName, nameDefined := true }
  else if key = ipAddressKey then do
    let ipAddr ← (s.ipAddr.snprintf inetAddrstrlen (.ofBuffer value)).mapError .fault
    pure { s with ipAddr, ipDefined := true }
  else pure s

/-- The body of the loop. -/
def initLine (s : Settings) (line : List UInt8) : Except Failure Settings := do
  let key ← substr line 0 (find line separator)
  let start := match find line separator with
    | some i => i + 3
    | none => 2 -- `npos + 3` wraps around
  let value ← substr line start (some (sizeSub line.length 1))
  setValue s key value

/-- The loop of `initValues` over a file. -/
def initValues (s : Settings) (content : List UInt8) : Except Failure Settings :=
  (getlines content).foldlM initLine s

/-! ### What the file says -/

/-- The value a line gives to a key, if it does. -/
def valueFor (key line : List UInt8) : Option (List UInt8) :=
  (cutFirst separator line).bind fun cut => if cut.1 = key then some cut.2 else none

/-- The last value that is given to a key. -/
def lastValue (key : List UInt8) (lines : List (List UInt8)) : Option (List UInt8) :=
  (lines.filterMap (valueFor key)).getLast?

/-- An array of `n` bytes holds as much of a value as it has room for, and nothing where
there is none. -/
def HoldsFront (array : Block) (n : ℕ) (value : Option (List UInt8)) : Prop :=
  array.size = n ∧ array.cstr = .ok ((CStr.ofBuffer (value.getD [])).take (n - 1))

/-- **The settings are what the lines say.** -/
structure Reflects (s : Settings) (lines : List (List UInt8)) : Prop where
  name : HoldsFront s.spFriendlyName (maxComputernameLength + 1) (lastValue friendlyNameKey lines)
  name_defined : s.nameDefined = (lastValue friendlyNameKey lines).isSome
  ip : HoldsFront s.ipAddr inetAddrstrlen (lastValue ipAddressKey lines)
  ip_defined : s.ipDefined = (lastValue ipAddressKey lines).isSome

/-- **A file is read as it should be**: the loop gets to its end and leaves what the lines
say, and a line that gives a value to neither key changes nothing, whatever the state. -/
structure ReadsConfig (content : List UInt8) : Prop where
  read : ∃ s, initValues .start content = .ok s ∧ Reflects s (getlines content)
  ignored : ∀ line ∈ getlines content, valueFor friendlyNameKey line = none →
    valueFor ipAddressKey line = none → ∀ s, initLine s line = .ok s

/-- A line the loop reads as it should. -/
structure TameLine (line : List UInt8) : Prop where
  /-- A line without a separator is no known key, and not too short. -/
  separated : cutFirst separator line = none →
    2 ≤ line.length ∧ line ≠ friendlyNameKey ∧ line ≠ ipAddressKey
  /-- The name of the computer is short. -/
  short : ∀ value, valueFor friendlyNameKey line = some value →
    (CStr.ofBuffer value).strlen ≤ maxComputernameLength

/-! ### One line -/

/-- **A line is cut at its first separator.** -/
theorem initLine_of_cut {line key value : List UInt8}
    (h : cutFirst separator line = some (key, value)) (s : Settings) :
    initLine s line = setValue s key value := by
  obtain ⟨hline, hstrstr⟩ := cutFirst_eq_some h
  have hfind : find line separator = some key.length := by
    rw [find, hstrstr, Option.map_some, hline]
    refine congrArg some ?_
    simp only [List.length_append]
    omega
  have hthree : separator.length = 3 := by decide
  have hkey : substr line 0 (some key.length) = .ok key := by
    rw [substr, if_neg (Nat.not_lt_zero _), hline, List.append_assoc]
    simp
  have hvalue : substr line (key.length + 3) (some (sizeSub line.length 1)) = .ok value := by
    have hlen : line.length = key.length + 3 + value.length := by
      rw [hline, List.length_append, List.length_append, hthree]
    have hdrop : line.drop (key.length + 3) = value := by
      rw [hline, ← hthree, ← List.length_append, List.drop_left]
    rw [substr, if_neg (by omega), hdrop, sizeSub_of_le (by omega)]
    exact congrArg Except.ok (List.take_of_length_le (by omega))
  simp only [initLine, hfind, hkey, hvalue, bind, Except.bind]

/-- **A line without a separator** is taken for a key, if it is long enough. -/
theorem initLine_of_not_cut {line : List UInt8} (h : cutFirst separator line = none)
    (s : Settings) :
    initLine s line =
      if line.length < 2 then .error .outOfRange else setValue s line (line.drop 2) := by
  have hfind : find line separator = none := by
    rw [find, (cutFirst_eq_none (by decide)).mp h, Option.map_none]
  have hkey : substr line 0 none = .ok line := by
    rw [substr, if_neg (Nat.not_lt_zero _), List.drop_zero]
  rcases Nat.lt_or_ge line.length 2 with hshort | hlong
  · have hvalue : substr line 2 (some (sizeSub line.length 1)) = .error .outOfRange :=
      if_pos hshort
    simp only [initLine, hfind, hkey, hvalue, bind, Except.bind, if_pos hshort]
  · have hvalue : substr line 2 (some (sizeSub line.length 1)) = .ok (line.drop 2) := by
      rw [substr, if_neg (by omega), sizeSub_of_le (by omega)]
      exact congrArg Except.ok (List.take_of_length_le (by rw [List.length_drop]; omega))
    simp only [initLine, hfind, hkey, hvalue, bind, Except.bind, if_neg (Nat.not_lt.mpr hlong)]

/-- A key the program does not know is ignored. -/
theorem setValue_of_unknown {key : List UInt8} (hname : key ≠ friendlyNameKey)
    (hip : key ≠ ipAddressKey) (s : Settings) (value : List UInt8) :
    setValue s key value = .ok s := by
  rw [setValue, if_neg hname, if_neg hip]
  rfl

/-- The name of the computer is copied when it is short. -/
theorem setValue_friendlyName {s : Settings} {value : List UInt8}
    (hsize : s.spFriendlyName.size = maxComputernameLength + 1)
    (hshort : (CStr.ofBuffer value).strlen ≤ maxComputernameLength) :
    ∃ b, setValue s friendlyNameKey value =
        .ok { s with spFriendlyName := b, nameDefined := true } ∧
      HoldsFront b (maxComputernameLength + 1) (some value) := by
  have htake : (CStr.ofBuffer value).take (maxComputernameLength + 2 - 1) = .ofBuffer value :=
    CStr.ext (List.take_of_length_le (by rw [← CStr.strlen]; omega))
  have htake' : (CStr.ofBuffer value).take (maxComputernameLength + 1 - 1) = .ofBuffer value :=
    CStr.ext (List.take_of_length_le (by rw [← CStr.strlen]; omega))
  obtain ⟨b, hb, hcstr, hbsize⟩ := Block.exists_snprintf (b := s.spFriendlyName)
    (n := maxComputernameLength + 2) (s := .ofBuffer value) (by decide) (by rw [htake]; omega)
  refine ⟨b, ?_, hbsize.trans hsize, ?_⟩
  · rw [setValue, if_pos rfl, hb]
    rfl
  · rw [Option.getD_some, htake', hcstr, htake]

/-- A long one is written past the end of its array. -/
theorem setValue_friendlyName_of_lt {s : Settings} {value : List UInt8}
    (hsize : s.spFriendlyName.size = maxComputernameLength + 1)
    (hlong : maxComputernameLength < (CStr.ofBuffer value).strlen) :
    setValue s friendlyNameKey value = .error (.fault .outOfBounds) := by
  rw [setValue, if_pos rfl, Block.snprintf_of_le (by decide) (by
    rw [CStr.strlen_take]
    omega)]
  rfl

/-- The address is copied as far as there is room for it. -/
theorem setValue_ipAddress {s : Settings} (hsize : s.ipAddr.size = inetAddrstrlen)
    (value : List UInt8) :
    ∃ b, setValue s ipAddressKey value = .ok { s with ipAddr := b, ipDefined := true } ∧
      HoldsFront b inetAddrstrlen (some value) := by
  obtain ⟨b, hb, hcstr, hbsize⟩ := Block.exists_snprintf (b := s.ipAddr) (n := inetAddrstrlen)
    (s := .ofBuffer value) (by decide) (by
      rw [CStr.strlen_take, hsize]
      exact (min_le_left _ _).trans_lt (by decide))
  refine ⟨b, ?_, hbsize.trans hsize, hcstr⟩
  rw [setValue, if_neg (by decide), if_pos rfl, hb]
  rfl

/-! ### The whole file -/

theorem lastValue_append (key : List UInt8) (lines : List (List UInt8)) (line : List UInt8) :
    lastValue key (lines ++ [line]) = (valueFor key line).or (lastValue key lines) := by
  rw [lastValue, List.filterMap_append]
  cases h : valueFor key line with
  | none => simp [h, lastValue]
  | some v => simp [h]

theorem reflects_start : Reflects .start [] := by
  refine ⟨⟨rfl, ?_⟩, rfl, ⟨rfl, ?_⟩, rfl⟩ <;> decide

theorem valueFor_of_cut {line key value : List UInt8}
    (h : cutFirst separator line = some (key, value)) (k : List UInt8) :
    valueFor k line = if key = k then some value else none := by
  rw [valueFor, h, Option.bind_some]

theorem valueFor_of_not_cut {line : List UInt8} (h : cutFirst separator line = none)
    (k : List UInt8) : valueFor k line = none := by
  rw [valueFor, h, Option.bind_none]

/-- What a line with a separator changes. -/
theorem lastValue_append_of_cut {line key value : List UInt8}
    (h : cutFirst separator line = some (key, value)) (k : List UInt8)
    (lines : List (List UInt8)) :
    lastValue k (lines ++ [line]) = if key = k then some value else lastValue k lines := by
  rw [lastValue_append, valueFor_of_cut h]
  split <;> rfl

/-- A line that says nothing leaves the settings what the lines say. -/
theorem Reflects.ignore {s : Settings} {lines : List (List UInt8)} {line : List UInt8}
    (h : Reflects s lines) (hname : valueFor friendlyNameKey line = none)
    (hip : valueFor ipAddressKey line = none) : Reflects s (lines ++ [line]) := by
  have hnlast := lastValue_append friendlyNameKey lines line
  have hilast := lastValue_append ipAddressKey lines line
  rw [hname, Option.none_or] at hnlast
  rw [hip, Option.none_or] at hilast
  exact ⟨hnlast ▸ h.name, hnlast ▸ h.name_defined, hilast ▸ h.ip, hilast ▸ h.ip_defined⟩

/-- **One line does what it says.** -/
theorem Reflects.step {s : Settings} {lines : List (List UInt8)} {line : List UInt8}
    (h : Reflects s lines) (hline : TameLine line) :
    ∃ s', initLine s line = .ok s' ∧ Reflects s' (lines ++ [line]) := by
  cases hcut : cutFirst separator line with
  | none =>
    obtain ⟨hlong, hname, hip⟩ := hline.separated hcut
    refine ⟨s, ?_, h.ignore (valueFor_of_not_cut hcut _) (valueFor_of_not_cut hcut _)⟩
    rw [initLine_of_not_cut hcut, if_neg (Nat.not_lt.mpr hlong), setValue_of_unknown hname hip]
  | some cut =>
    obtain ⟨key, value⟩ := cut
    rw [initLine_of_cut hcut]
    have hfor := valueFor_of_cut hcut
    have hlast := fun k => lastValue_append_of_cut hcut k lines
    by_cases hname : key = friendlyNameKey
    · subst hname
      have hother := hlast ipAddressKey
      rw [if_neg (by decide)] at hother
      obtain ⟨b, hb, hholds⟩ :=
        setValue_friendlyName h.name.1 (hline.short value (by rw [hfor, if_pos rfl]))
      refine ⟨_, hb, ?_, ?_, hother ▸ h.ip, hother ▸ h.ip_defined⟩
      · rw [hlast, if_pos rfl]
        exact hholds
      · rw [hlast, if_pos rfl]
        rfl
    · by_cases hip : key = ipAddressKey
      · subst hip
        have hother := hlast friendlyNameKey
        rw [if_neg (by decide)] at hother
        obtain ⟨b, hb, hholds⟩ := setValue_ipAddress h.ip.1 value
        refine ⟨_, hb, hother ▸ h.name, hother ▸ h.name_defined, ?_, ?_⟩
        · rw [hlast, if_pos rfl]
          exact hholds
        · rw [hlast, if_pos rfl]
          rfl
      · refine ⟨s, setValue_of_unknown hname hip s value, h.ignore ?_ ?_⟩
        · rw [hfor, if_neg hname]
        · rw [hfor, if_neg hip]

/-- **A file of tame lines is read.** -/
theorem reflects_foldlM {lines : List (List UInt8)} (h : ∀ line ∈ lines, TameLine line) :
    ∃ s, lines.foldlM initLine Settings.start = .ok s ∧ Reflects s lines := by
  -- one more line at the end, behind lines that have been read
  induction lines using List.reverseRecOn with
  | nil => exact ⟨_, rfl, reflects_start⟩
  | append_singleton lines line ih =>
    obtain ⟨s, hs, hholds⟩ := ih fun l hl => h l (List.mem_append_left _ hl)
    obtain ⟨s', hs', hholds'⟩ := hholds.step (h line (List.mem_append_right _ List.mem_cons_self))
    refine ⟨s', ?_, hholds'⟩
    simp only [List.foldlM_append, hs, bind, Except.bind, List.foldlM_cons, hs']
    rfl

/-! ### What a file that is read looks like -/

/-- The arrays have their declared sizes. -/
def Settings.Sized (s : Settings) : Prop :=
  s.spFriendlyName.size = maxComputernameLength + 1 ∧ s.ipAddr.size = inetAddrstrlen

theorem setValue_ok {s s' : Settings} {key value : List UInt8} (hsize : s.Sized)
    (h : setValue s key value = .ok s') :
    s'.Sized ∧
      (key = friendlyNameKey → (CStr.ofBuffer value).strlen ≤ maxComputernameLength) := by
  by_cases hname : key = friendlyNameKey
  · subst hname
    rcases Nat.lt_or_ge maxComputernameLength (CStr.ofBuffer value).strlen with hlong | hshort
    · rw [setValue_friendlyName_of_lt hsize.1 hlong] at h
      exact absurd h (by simp)
    · obtain ⟨b, hb, hholds⟩ := setValue_friendlyName hsize.1 hshort
      obtain rfl := Except.ok.inj (hb.symm.trans h)
      exact ⟨⟨hholds.1, hsize.2⟩, fun _ => hshort⟩
  · refine ⟨?_, fun heq => absurd heq hname⟩
    by_cases hip : key = ipAddressKey
    · subst hip
      obtain ⟨b, hb, hholds⟩ := setValue_ipAddress hsize.2 value
      obtain rfl := Except.ok.inj (hb.symm.trans h)
      exact ⟨hsize.1, hholds.1⟩
    · rw [setValue_of_unknown hname hip] at h
      exact Except.ok.inj h ▸ hsize

/-- **A line the loop gets through** has a separator or is long enough, and gives the
computer a short name if it gives it one. -/
theorem initLine_ok {s s' : Settings} {line : List UInt8} (hsize : s.Sized)
    (h : initLine s line = .ok s') :
    s'.Sized ∧ (cutFirst separator line = none → 2 ≤ line.length) ∧
      ∀ value, valueFor friendlyNameKey line = some value →
        (CStr.ofBuffer value).strlen ≤ maxComputernameLength := by
  cases hcut : cutFirst separator line with
  | none =>
    rw [initLine_of_not_cut hcut] at h
    split at h
    · exact absurd h (by simp)
    · rename_i hlong
      refine ⟨(setValue_ok hsize h).1, fun _ => Nat.not_lt.mp hlong, fun value hvalue => ?_⟩
      rw [valueFor_of_not_cut hcut] at hvalue
      exact absurd hvalue (by simp)
  | some cut =>
    obtain ⟨key, value⟩ := cut
    rw [initLine_of_cut hcut] at h
    obtain ⟨hsize', hshort⟩ := setValue_ok hsize h
    refine ⟨hsize', fun hnone => absurd hnone (by simp), fun v hv => ?_⟩
    rw [valueFor_of_cut hcut] at hv
    split at hv
    · rename_i hkey
      exact Option.some.inj hv ▸ hshort hkey
    · exact absurd hv (by simp)

/-- The loop gets to the end of a file only through all of its lines. -/
theorem foldlM_ok {lines : List (List UInt8)} {s s' : Settings} (hsize : s.Sized)
    (h : lines.foldlM initLine s = .ok s') :
    ∀ line ∈ lines, (cutFirst separator line = none → 2 ≤ line.length) ∧
      ∀ value, valueFor friendlyNameKey line = some value →
        (CStr.ofBuffer value).strlen ≤ maxComputernameLength := by
  induction lines generalizing s with
  | nil => exact fun line hline => absurd hline List.not_mem_nil
  | cons first lines ih =>
    rw [List.foldlM_cons] at h
    cases hfirst : initLine s first with
    | error f =>
      rw [hfirst] at h
      exact absurd h (by simp [bind, Except.bind])
    | ok s₁ =>
      rw [hfirst] at h
      obtain ⟨hsize₁, hok⟩ := initLine_ok hsize hfirst
      intro line hline
      rcases List.mem_cons.mp hline with rfl | hline
      · exact hok
      · exact ih hsize₁ h line hline

/-- A line without a separator that is a known key sets it. -/
theorem initLine_ne_of_key {line : List UInt8}
    (hkey : line = friendlyNameKey ∨ line = ipAddressKey) :
    initLine .start line ≠ .ok .start := by
  rcases hkey with rfl | rfl <;> decide +kernel

/-- **A configuration file is read as it should be if and only if** every line of it
without a separator is long enough and no known key, and every name it gives the computer
is short. -/
theorem readsConfig_iff (content : List UInt8) :
    ReadsConfig content ↔ ∀ line ∈ getlines content, TameLine line := by
  constructor
  · rintro ⟨⟨s, hs, -⟩, hignored⟩ line hline
    obtain ⟨hlong, hshort⟩ := foldlM_ok ⟨rfl, rfl⟩ hs line hline
    refine ⟨fun hcut => ?_, hshort⟩
    have hstart := hignored line hline (valueFor_of_not_cut hcut _) (valueFor_of_not_cut hcut _)
      .start
    exact ⟨hlong hcut, fun hkey => initLine_ne_of_key (.inl hkey) hstart,
      fun hkey => initLine_ne_of_key (.inr hkey) hstart⟩
  · intro h
    refine ⟨reflects_foldlM h, fun line hline hname hip s => ?_⟩
    cases hcut : cutFirst separator line with
    | none =>
      obtain ⟨hlong, hne, hne'⟩ := (h line hline).separated hcut
      rw [initLine_of_not_cut hcut, if_neg (Nat.not_lt.mpr hlong), setValue_of_unknown hne hne']
    | some cut =>
      obtain ⟨key, value⟩ := cut
      rw [valueFor_of_cut hcut] at hname hip
      rw [initLine_of_cut hcut]
      refine setValue_of_unknown (fun hkey => ?_) (fun hkey => ?_) s value
      · rw [if_pos hkey] at hname
        exact absurd hname (by simp)
      · rw [if_pos hkey] at hip
        exact absurd hip (by simp)

/-- A blank line stops the program. -/
theorem not_readsConfig_blank :
    ¬ReadsConfig (CStr.lit "friendly name = PC\n\nip address = 10.0.0.2\n").bytes := by
  rintro ⟨⟨s, hs, -⟩, -⟩
  have hstop : initValues .start (CStr.lit "friendly name = PC\n\nip address = 10.0.0.2\n").bytes =
      .error .outOfRange := by decide +kernel
  exact absurd (hstop.symm.trans hs) (by simp)

end DialServer
