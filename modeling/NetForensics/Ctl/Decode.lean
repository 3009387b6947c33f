import NetForensics.Ipc.Request
import NetForensics.Ipc.Server

/-!
# The control client

`cpe_ctl` sends a request to the agent and hands the answer to Lua. `cpe_ipc_client_request` reads
until a newline has come, and `ipc_call` turns what it has read into a Lua value. It does not parse:
it searches the text for the data, counts brackets to find where they end, and then goes from quote
to quote for names and what stands behind them.
-/

namespace NetForensics

/-! ## The answer -/

/-- The receive loop of `cpe_ipc_client_request`: `got` is what has come so far, and every call of
`recv` takes no more than there is room for. The peer's end of the stream is the empty text. -/
def recvLoop : CStr → List CStr → CStr
  | got, [] => got
  | got, chunk :: chunks =>
    if chunk ≠ [] ∧ got.length + 1 < cpeIpcLineMax then
      let got := got ++ chunk.take (cpeIpcLineMax - got.length - 1)
      if 10 ∈ got then got else recvLoop got chunks
    else got

/-- What `cpe_ipc_client_request` leaves in the buffer: without newlines and carriage returns at its
end, and up to the first NUL, since it is read as a C string. -/
def clientResponse (chunks : List CStr) : CStr :=
  (((recvLoop [] chunks).reverse.dropWhile fun b ↦ b == 10 || b == 13).reverse).takeWhile (· ≠ 0)

/-! ## `strtod` -/

/-- How many bytes of the text are digits with at most one point among them, and a digit at
least. -/
def mantissaLength (digit : UInt8 → Bool) (s : CStr) : ℕ :=
  let whole := (s.takeWhile digit).length
  match s.drop whole with
  | 46 :: t =>
    let part := (t.takeWhile digit).length
    if whole + part = 0 then 0 else whole + 1 + part
  | _ => whole

def exponentLength (mark : CStr) : CStr → ℕ
  | [] => 0
  | e :: s =>
    let sign := if s.head? = some 43 ∨ s.head? = some 45 then 1 else 0
    let digits := ((s.drop sign).takeWhile isDigit).length
    if e ∈ mark ∧ digits ≠ 0 then 1 + sign + digits else 0

/-- The text starts with the word, in whatever case; the word is in lower case. -/
def startsWithWord (word s : CStr) : Prop :=
  word <+: s.map fun b ↦ if 65 ≤ b ∧ b ≤ 90 then b + 32 else b

instance (word s : CStr) : Decidable (startsWithWord word s) :=
  inferInstanceAs (Decidable (word <+: _))

/-- The parenthesis that may follow `nan`. -/
def nanSuffixLength : CStr → ℕ
  | 40 :: s =>
    let word := s.takeWhile fun b ↦
      isDigit b || (65 ≤ b && b ≤ 90) || (97 ≤ b && b ≤ 122) || b == 95
    if (s.drop word.length).head? = some 41 then word.length + 2 else 0
  | _ => 0

def unsignedLength (s : CStr) : ℕ :=
  if startsWithWord (ascii "infinity") s then 8
  else if startsWithWord (ascii "inf") s then 3
  else if startsWithWord (ascii "nan") s then 3 + nanSuffixLength (s.drop 3)
  else
    let hex := mantissaLength (fun b ↦ (Json.hexVal b).isSome) (s.drop 2)
    if startsWithWord (ascii "0x") s ∧ hex ≠ 0 then
      2 + hex + exponentLength (ascii "pP") (s.drop (2 + hex))
    else
      let whole := mantissaLength isDigit s
      if whole = 0 then 0 else whole + exponentLength (ascii "eE") (s.drop whole)

/-- The number at the start of a text without blanks in front, as it stands there, and the text
behind it. Without a number nothing is used up. -/
def strtod (s : CStr) : CStr × CStr :=
  let sign := if s.head? = some 43 ∨ s.head? = some 45 then 1 else 0
  let length := unsignedLength (s.drop sign)
  s.splitAt (if length = 0 then 0 else sign + length)

/-! ## Lua values -/

/-- The keys of a table. -/
inductive LuaKey where
  | name (s : CStr)
  | index (n : ℕ)
  deriving DecidableEq

/-- A number is kept as the text `strtod` has read it from. The fields of a table are in the order
in which they were set, the latest first. -/
inductive LuaValue where
  | nil
  | bool (b : Bool)
  | num (lexeme : CStr)
  | str (s : CStr)
  | table (fields : List (LuaKey × LuaValue))

namespace LuaValue

def lookup (key : LuaKey) (fields : List (LuaKey × LuaValue)) : LuaValue :=
  ((fields.find? fun f ↦ f.1 = key).map Prod.snd).getD nil

/-- `v[key]` -/
def field (v : LuaValue) (key : LuaKey) : LuaValue :=
  match v with
  | table fields => lookup key fields
  | _ => nil

end LuaValue

/-! ## Finding the data -/

def isOpening (b : UInt8) : Bool := b == 123 || b == 91

def isClosing (b : UInt8) : Bool := b == 125 || b == 93

/-- The loop that looks for the end of the data: the text up to the bracket with which the depth
comes back to zero, or all of it. -/
def cutAtClose : ℤ → CStr → CStr
  | _, [] => []
  | depth, b :: s =>
    if isOpening b then b :: cutAtClose (depth + 1) s
    else if isClosing b then if depth - 1 = 0 then [b] else b :: cutAtClose (depth - 1) s
    else b :: cutAtClose depth s

/-- The loop over an array or an object among the fields: the text behind it. -/
def skipNested : ℤ → CStr → CStr
  | _, [] => []
  | depth, b :: s =>
    let depth := if isOpening b then depth + 1 else if isClosing b then depth - 1 else depth
    if 0 < depth then skipNested depth s else s

/-! ## Going through the fields -/

/-- The loop over a string, for a buffer with room for so many bytes: the string and the text behind
it. -/
def readString : ℕ → CStr → CStr × CStr
  | 0, s => ([], s)
  | _ + 1, [] => ([], [])
  | _ + 1, 34 :: s => ([], 34 :: s)
  | room + 1, 92 :: c :: s => let (val, rest) := readString room s; (c :: val, rest)
  | room + 1, b :: s => let (val, rest) := readString room s; (b :: val, rest)

def skipQuote : CStr → CStr
  | 34 :: s => s
  | s => s

/-- The name behind a quote, and the text from the value on. -/
def readKey (q : CStr) : CStr × CStr :=
  let key := (q.takeWhile (· ≠ 34)).take 63
  (key, (((skipQuote (q.drop key.length)).dropWhile (· ≠ 58)).drop 1).dropWhile isBlank)

/-- The value behind a name: what the field is set to, if it is set, and the text behind it. Nothing
comes back where the loop ends. -/
def readValue (q : CStr) : Option (Option LuaValue × CStr) :=
  match q with
  | [] => none
  | 34 :: q =>
    let (val, rest) := readString 255 q
    some (some (.str val), skipQuote rest)
  | b :: s =>
    if b = 116 ∨ b = 102 then
      some (some (.bool (b == 116)), (b :: s).dropWhile fun c ↦ c ≠ 44 ∧ c ≠ 125)
    else if isDigit b ∨ b = 45 ∨ b = 46 then
      some (some (.num (strtod (b :: s)).1), (strtod (b :: s)).2)
    else if isOpening b then some (none, skipNested 0 (b :: s))
    else none

/-- The loop over the fields. Every turn uses up a quote, so that the length of the text is fuel
enough. -/
def scanFields : ℕ → List (LuaKey × LuaValue) → CStr → List (LuaKey × LuaValue)
  | 0, fields, _ => fields
  | fuel + 1, fields, q =>
    match q.dropWhile (· ≠ 34) with
    | [] => fields
    | _ :: q =>
      let (key, q) := readKey q
      match readValue q with
      | none => fields
      | some (val, q) =>
        let fields := (val.map fun v ↦ (LuaKey.name key, v)).toList ++ fields
        let q := q.dropWhile fun b ↦ b = 32 ∨ b = 44 ∨ b = 9
        if q.head? = some 125 then fields else scanFields fuel fields q

/-- The table for an object or an array. -/
def dataTable (data : CStr) : LuaValue :=
  let copy := cutAtClose 0 data
  .table (scanFields copy.length [(.name (ascii "_json"), .str copy)]
    (if copy.head? = some 123 then copy.drop 1 else copy))

/-- The message of an error, as far as it is found. -/
def errorMessage (resp : CStr) : CStr :=
  match (afterFirst (quoted (ascii "error")) resp).map (List.dropWhile (· ≠ 58)) with
  | some (_ :: p) => ((p.dropWhile fun b ↦ b = 32 ∨ b = 34).takeWhile (· ≠ 34)).take 127
  | _ => []

/-- `ipc_call` from the answer on. -/
def ipcCall (resp : CStr) : Except CStr LuaValue :=
  if (afterFirst (quoted (ascii "ok") ++ ascii ":false") resp).isSome ∨
      (afterFirst (quoted (ascii "ok") ++ ascii ": false") resp).isSome then
    .error (if errorMessage resp ≠ [] then errorMessage resp else resp)
  else
    match afterFirst (quoted (ascii "data") ++ [58]) resp with
    | none => .ok (.str resp)
    | some data =>
      let data := data.dropWhile isBlank
      if ascii "null" <+: data then .ok .nil
      else if ascii "true" <+: data then .ok (.bool true)
      else if ascii "false" <+: data then .ok (.bool false)
      else
        match data with
        | [] => .ok (.str resp)
        | b :: s =>
          if isOpening b then
            .ok (if data.getLast? = some 125 then dataTable data else .str data)
          else if isDigit b ∨ b = 45 then .ok (.num (strtod data).1)
          else if b = 34 then .ok (.str ((s.takeWhile (· ≠ 34)).take 511))
          else .ok (.str resp)

end NetForensics
