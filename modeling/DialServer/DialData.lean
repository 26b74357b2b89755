import DialServer.Lib.Memory

/-!
# Persisting dial data

`dial_data.h` and `dial_data.cpp`: the list of key-value pairs an application
holds, and the file it is kept in. A pair is two heap objects, and how large they
are and whether a terminator ever reaches them depends on who filled them, so
they are kept as objects (`CLib.Block`) and not as strings.

The file system is a map from path strings to contents. Whether a file can be
opened for writing is the environment's business, and `storeDialData` takes it as
an argument; when it cannot, the process exits.
-/

namespace DialServer

open CLib

/-- One key-value pair of an application's dial data. -/
structure DIALData where
  /-- The object `key` points to. -/
  key : Block
  /-- The object `value` points to. -/
  value : Block
  deriving DecidableEq

/-- A `char` array of `n` bytes that holds a string. -/
@[ext] structure CharArray (n : ℕ) where
  /-- The string in the array. -/
  str : CStr
  /-- The string and its terminator fit. -/
  fits : str.strlen < n
  deriving DecidableEq

/-- The files, by path. -/
abbrev Files := CStr → Option (List UInt8)

/-- How a run of the process ends other than by returning. -/
inductive Halt
  /-- `exit(code)`. -/
  | exit (code : ℕ)
  /-- An assertion that fails. -/
  | abort
  /-- An operation without a meaning. -/
  | fault (f : Fault)
  deriving DecidableEq

/-- The largest dial data body the specification asks for. -/
def dialDataMaxPayload : ℕ := 4096

/-- The url path where dial data is posted. -/
def dialDataUri : CStr := .lit "/dial_data"

/-- The directory dial data is kept in unless `set_dial_data_dir` names another
one. -/
def defaultDialDataDir : CharArray 256 := ⟨.lit "/tmp/", by decide⟩

/-! ### The path of a file -/

/-- The path where data is stored for the given application. -/
def getAppPath (dialDataDir : CharArray 256) (appName : CStr) : CStr :=
  let nameSize := appName.strlen + 256 + 1
  dialDataDir.str.take nameSize ++ appName.take (nameSize - 256)

/-- **The bounds of the two `strncat` calls never cut**: the path is the
directory and the name. -/
theorem getAppPath_eq (dir : CharArray 256) (appName : CStr) :
    getAppPath dir appName = dir.str ++ appName := by
  have hdir := dir.fits
  refine CStr.ext ?_
  rw [CStr.strlen] at hdir
  rw [getAppPath, CStr.bytes_append, CStr.bytes_take, CStr.bytes_take, CStr.strlen,
    List.take_of_length_le (by omega), List.take_of_length_le (by omega), CStr.bytes_append]

/-- Different applications have different files. -/
theorem getAppPath_injective (dir : CharArray 256) :
    Function.Injective (getAppPath dir) := by
  intro s t h
  rw [getAppPath_eq, getAppPath_eq] at h
  have hb : dir.str.bytes ++ s.bytes = dir.str.bytes ++ t.bytes := congrArg CStr.bytes h
  exact CStr.ext (List.append_cancel_left hb)

/-! ### Writing the file -/

/-- The line `fprintf` writes for one pair. -/
def dataLine (d : DIALData) : Except Fault CStr := do
  let key ← d.key.cstr
  let value ← d.value.cstr
  return key ++ .lit " " ++ value ++ .lit "\n"

/-- The bytes the loop of `store_dial_data` writes. -/
def dataLines : List DIALData → Except Fault (List UInt8)
  | [] => .ok []
  | d :: data => do
    let line ← dataLine d
    let lines ← dataLines data
    return line.bytes ++ lines

/-- Write the pairs to the file of an application. -/
def storeDialData (canOpen : CStr → Bool) (dir : CharArray 256) (files : Files)
    (appName : CStr) (data : List DIALData) : Except Halt Files :=
  let filename := getAppPath dir appName
  if canOpen filename then
    match dataLines data with
    | .error f => .error (.fault f)
    | .ok content => .ok fun path => if path = filename then some content else files path
  else
    -- the file cannot be opened: a message, and `exit(1)`
    .error (.exit 1)

/-- Writing the file of one application leaves every other file alone. -/
theorem storeDialData_frame {canOpen : CStr → Bool} {dir : CharArray 256} {files files' : Files}
    {appName : CStr} {data : List DIALData}
    (h : storeDialData canOpen dir files appName data = .ok files') {path : CStr}
    (hp : path ≠ getAppPath dir appName) : files' path = files path := by
  rw [storeDialData] at h
  split at h
  · split at h
    · exact absurd h (by simp)
    · obtain rfl := Except.ok.inj h
      exact if_neg hp
  · exact absurd h (by simp)

/-! ### Reading the file back -/

/-- The node made for a pair that was read: each field is `calloc`ed with the
length of the string and filled by `strncpy` with that same length. -/
def newNode (key value : CStr) : Except Fault DIALData := do
  let k ← (Block.calloc key.strlen).strncpy key key.strlen
  let v ← (Block.calloc value.strlen).strncpy value value.strlen
  return ⟨k, v⟩

/-- A word that is there is consumed. -/
theorem length_scanWordN_lt (width : ℕ) (hw : 0 < width) {s t : List UInt8}
    (h : skipSpace s = t) (ht : t ≠ []) : (scanWordN width t).2.length < t.length := by
  have hpos : 0 < t.length := List.length_pos_iff.mpr ht
  obtain ⟨c, t', rfl⟩ := List.exists_cons_of_ne_nil ht
  have hc : isspace c = false := by
    have hhead := List.head?_dropWhile_not isspace s
    rw [← skipSpace, h] at hhead
    exact hhead
  have hword : 0 < (scanWordN width (c :: t')).1.length := by
    simp only [scanWordN, scanWord, List.span_eq_takeWhile_dropWhile, hc, List.takeWhile_cons,
      Bool.not_false, reduceIte, List.length_take, List.length_cons]
    omega
  simp only [scanWordN, List.length_drop] at hword ⊢
  omega

/-- The loop of `retrieve_dial_data`, over what is left of the file, the array
`value` (which keeps its string from one iteration to the next) and the list
built so far. -/
def retrieveLoop (rest : List UInt8) (value : Option CStr) (result : List DIALData) :
    Except Fault (List DIALData) :=
  match _h : skipSpace rest with
  | [] => .ok result -- nothing was converted: `EOF`
  | c :: s =>
    let key := CStr.ofBuffer (scanWordN 255 (c :: s)).1
    match _h' : skipSpace (scanWordN 255 (c :: s)).2 with
    | [] =>
      -- one conversion is not `EOF` either, and `value` is as it was
      match value with
      | none => .error .indeterminate
      | some old => do
        let node ← newNode key old
        .ok (node :: result)
    | c' :: s' =>
      let new := CStr.ofBuffer (scanWordN 255 (c' :: s')).1
      match newNode key new with
      | .error f => .error f
      | .ok node =>
        retrieveLoop (skipSpace (scanWordN 255 (c' :: s')).2) (some new) (node :: result)
termination_by rest.length
decreasing_by
  have h1 := length_scanWordN_lt 255 (by decide) _h (by simp)
  have h2 := length_scanWordN_lt 255 (by decide) _h' (by simp)
  have h3 : (skipSpace (scanWordN 255 (c' :: s')).2).length ≤ _ := List.length_dropWhile_le _ _
  have h4 : (skipSpace rest).length ≤ _ := List.length_dropWhile_le _ _
  have h5 : (skipSpace (scanWordN 255 (c :: s)).2).length ≤ _ := List.length_dropWhile_le _ _
  rw [_h] at h4
  rw [_h'] at h5
  omega

/-- Read the pairs of an application back from its file. -/
def retrieveDialData (dir : CharArray 256) (files : Files) (appName : CStr) :
    Except Fault (List DIALData) :=
  match files (getAppPath dir appName) with
  | none => .ok [] -- no dial data found, that's fine
  | some content => retrieveLoop content none []

end DialServer
