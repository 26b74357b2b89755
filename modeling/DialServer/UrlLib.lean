import DialServer.DialData

/-!
# The string functions of `url_lib`

The functions of `url_lib.cpp` the server calls, loop by loop. Those that write
into a buffer of their caller take that buffer as an object and check every
write against it; a source pointer that only moves forwards is the part of the
string that is left.

`parseAppName` is the one function here that hands out either a string literal
or memory from the heap, and its caller frees the result in both cases, so the
result says which of the two it is.
-/

namespace DialServer

open CLib

/-! ### Bounded concatenation -/

/-- The copying loop of `smartstrcat`: the source left to copy, the count, the
object and the index `dest` stands at. Where the loop stops, the byte just
written is overwritten by the terminator. -/
def smartstrcatLoop (maxChars : ℕ) :
    List UInt8 → ℕ → Block → ℕ → Except Fault (Block × ℕ)
  | [], _, b, dest => do
    let b ← b.store dest 0
    let b ← b.store dest 0
    return (b, dest)
  | c :: src, copied, b, dest => do
    let b ← b.store dest c
    if copied < maxChars then
      smartstrcatLoop maxChars src (copied + 1) b (dest + 1)
    else
      let b ← b.store dest 0
      return (b, dest)

/-- Concatenate at most `maxChars` characters of `src` at index `dest`, and
return the index of the terminator. -/
def smartstrcat (b : Block) (dest : ℕ) (src : CStr) (maxChars : ℕ) :
    Except Fault (Block × ℕ) :=
  smartstrcatLoop maxChars src.bytes 0 b dest

/-! ### Decoding -/

/-- The value of a hexadecimal digit. -/
def hexDigit (a : UInt8) : Option UInt8 :=
  if 'a'.toUInt8 ≤ a ∧ a ≤ 'f'.toUInt8 then some (10 + a - 'a'.toUInt8)
  else if 'A'.toUInt8 ≤ a ∧ a ≤ 'F'.toUInt8 then some (10 + a - 'A'.toUInt8)
  else if '0'.toUInt8 ≤ a ∧ a ≤ '9'.toUInt8 then some (a - '0'.toUInt8)
  else none

/-- The byte two hexadecimal digits stand for, if they are digits. -/
def appendCharFromHex (a b : UInt8) : Option UInt8 := do
  let a ← hexDigit a
  let b ← hexDigit b
  return 16 * a + b

/-- The loop of `urldecode`: the source left, the count `len`, which is also the
index `dst` stands at, and the object written to. -/
def urldecodeLoop (maxSize : ℕ) :
    List UInt8 → ℕ → Block → Except Fault (Block × ℕ)
  | [], len, b => do
    let b ← b.store len 0
    return (b, len)
  | c :: src, len, b =>
    if len < maxSize then
      if c = '+'.toUInt8 then do
        let b ← b.store len ' '.toUInt8
        urldecodeLoop maxSize src (len + 1) b
      else if c = '%'.toUInt8 then
        match src with
        | x :: y :: src =>
          match appendCharFromHex x y with
          | some v => do
            let b ← b.store len v
            urldecodeLoop maxSize src (len + 1) b
          | none => do
            let b ← b.store len 0
            return (b, 0)
        | _ => do
          let b ← b.store len 0
          return (b, 0)
      else do
        let b ← b.store len c
        urldecodeLoop maxSize src (len + 1) b
    else do
      let b ← b.store len 0
      return (b, len)

/-- Decode at most `maxSize` characters of `src` into the object `dst`. -/
def urldecode (dst : Block) (src : CStr) (maxSize : ℕ) : Except Fault (Block × ℕ) :=
  urldecodeLoop maxSize src.bytes 0 dst

/-- The entity `xmlencode` writes for a character, for those it escapes. -/
def xmlEntity (c : UInt8) : Option CStr :=
  if c = '&'.toUInt8 then some (.lit "&amp;")
  else if c = '\"'.toUInt8 then some (.lit "&quot;")
  else if c = '\''.toUInt8 then some (.lit "&apos;")
  else if c = '<'.toUInt8 then some (.lit "&lt;")
  else if c = '>'.toUInt8 then some (.lit "&gt;")
  else none

/-- The loop of `xmlencode`: the source left, the counter `current_size`, the
object and the index `dst` stands at. The counter grows by the whole entity even
when the entity was cut. -/
def xmlencodeLoop (maxSize : ℕ) :
    List UInt8 → ℕ → Block → ℕ → Except Fault Block
  | [], _, b, dst => b.store dst 0
  | c :: src, currentSize, b, dst =>
    if currentSize < maxSize then
      match xmlEntity c with
      | some entity => do
        let (b, dst) ← smartstrcat b dst entity (maxSize - currentSize)
        xmlencodeLoop maxSize src (currentSize + entity.strlen) b dst
      | none => do
        let b ← b.store dst c
        xmlencodeLoop maxSize src (currentSize + 1) b (dst + 1)
    else b.store dst 0

/-- Escape the characters of `src` that mean something in XML, writing to the
object `dst`. -/
def xmlencode (dst : Block) (src : CStr) (maxSize : ℕ) : Except Fault Block :=
  xmlencodeLoop maxSize src.bytes 0 dst 0

/-! ### The name in a url -/

/-- The name that `request_handler` goes by, and how it is kept. -/
structure AppName where
  /-- The bytes of the name. -/
  str : CStr
  /-- Whether freeing it does no harm, or nobody does; otherwise it is a literal. -/
  onHeap : Bool
  /-- Whether it fills its array, so that no terminator stands behind it. -/
  full : Bool
  deriving DecidableEq

/-- The backward scan `while (begin != uri && *--begin != '/')`, as the index it
stops at. -/
def scanBack (uri : List UInt8) : ℕ → ℕ
  | 0 => 0
  | i + 1 => if uri[i]? = some '/'.toUInt8 then i else scanBack uri i

/-- Parse the application name out of a url such as `/app/YouTube/dial_data`. -/
def parseAppName (uri : Option CStr) : AppName :=
  match uri with
  | none => ⟨.lit "unknown", false, false⟩
  | some uri =>
    match strrchr uri.bytes '/'.toUInt8 with
    | none => ⟨.lit "unknown", false, false⟩
    | some 0 => ⟨.lit "unknown", false, false⟩
    | some slash =>
      let start := scanBack uri.bytes slash + 1 -- skip the slash
      ⟨(uri.drop start).take (slash - start), true, false⟩

@[simp] theorem full_parseAppName (uri : Option CStr) : (parseAppName uri).full = false := by
  cases uri with
  | none => rfl
  | some uri =>
    rw [parseAppName]
    split <;> rfl

/-! ### Query strings -/

/-- The scan `while (*start && *start++ != c)`. -/
def skipPast (c : UInt8) : List UInt8 → List UInt8
  | [] => []
  | b :: s => if b = c then s else skipPast c s

/-- Parse the value of the parameter with the given name from a query string. -/
def parseParam (queryString : Option CStr) (paramName : CStr) : Option CStr :=
  match queryString with
  | none => none
  | some query =>
    match strstr paramName.bytes query.bytes with
    | none => none
    | some start =>
      some (.ofBuffer ((skipPast '='.toUInt8 start).takeWhile (· ≠ '&'.toUInt8)))

/-- What `sscanf(segment, "%[^=]=%s", key, value)` leaves in the two objects:
the run of characters before the first `=` must not be empty, the `=` must be
there, and `%s` skips white space and needs a character after it. -/
def scanKeyValue (segment : List UInt8) (key value : Block) : Except Fault DIALData :=
  let k := segment.takeWhile (· ≠ '='.toUInt8)
  if k = [] then .ok ⟨key, value⟩
  else do
    let key ← key.storeAll 0 (k ++ [0])
    match segment.drop k.length with
    | [] => return ⟨key, value⟩
    | _ :: rest =>
      let v := (scanWord (skipSpace rest)).1
      if v = [] then return ⟨key, value⟩
      else do
        let value ← value.storeAll 0 (v ++ [0])
        return ⟨key, value⟩

/-- The loop of `parse_params` over the tokens of `strtok`; a new node goes in
front of the list. -/
def parseSegments : List (List UInt8) → List DIALData → Except Fault (List DIALData)
  | [], result => .ok result
  | segment :: segments, result => do
    let node ←
      scanKeyValue segment (Block.malloc segment.length) (Block.malloc segment.length)
    parseSegments segments (node :: result)

/-- Parse a list of pairs out of a query string. -/
def parseParams (queryString : Option CStr) : Except Fault (List DIALData) :=
  match queryString with
  | none => .ok []
  | some query =>
    if query.strlen ≤ 2 then .ok []
    else
      -- skip leading question mark
      let query := if query.bytes.head? = some '?'.toUInt8 then query.drop 1 else query
      parseSegments (strtok '&'.toUInt8 query.bytes) []

end DialServer
