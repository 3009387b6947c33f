import NetForensics.Egress.Segments
import NetForensics.Ipc.Request
import NetForensics.Util.Loop
import NetForensics.Util.Reads
import NetForensics.Util.Writes

/-!
# The ClickHouse client

`http_post_sql` of `ctl_ch_query.c`: one POST with the statement as its body, and the response, of
which only the body is wanted. The response is received into a buffer of its own, up to 8191 bytes
more than the caller has asked for, and a body that seems to be chunked is put together again.

A pointer into the response is an offset. What is read there as a string goes up to a NUL, at the
latest to the one behind the last byte; the bytes of a chunk are copied with every read and write
checked. The numbers of the response are read into an `unsigned long`, and added to a `size_t`, of
the width the target has (`WordSize`).
-/

namespace NetForensics

/-! ## Numbers in the response -/

/-- `isxdigit` -/
def isHexDigit (b : UInt8) : Bool := (Json.hexVal b).isSome

/-- The number a run of hexadecimal digits stands for. -/
def hexNumber (s : CStr) : ℕ := s.foldl (fun n b ↦ 16 * n + (Json.hexVal b).getD 0) 0

/-- The `0x` that `strtoul` accepts before hexadecimal digits. -/
def takeHexPrefix : CStr → CStr
  | 48 :: x :: d :: s => if (x = 120 ∨ x = 88) ∧ isHexDigit d then d :: s else 48 :: x :: d :: s
  | s => s

/-- `strtoul(s, &end, 16)`: the number and what `end` points to, or `none` without
digits. -/
def strtoulHex (w : WordSize) (s : CStr) : Option (ℕ × CStr) :=
  let (neg, t) := takeSign (s.dropWhile isSpace)
  let digits := (takeHexPrefix t).takeWhile isHexDigit
  if digits = [] then none
  else
    let n := hexNumber digits
    some (if 2 ^ w.bits ≤ n then 2 ^ w.bits - 1
        else if neg then (2 ^ w.bits - n) % 2 ^ w.bits else n,
      (takeHexPrefix t).dropWhile isHexDigit)

/-- `atoi`, as the C library computes it: a `long` that is cut to an `int`. -/
def atoi (w : WordSize) (s : CStr) : ℤ :=
  let (neg, t) := takeSign (s.dropWhile isSpace)
  let n : ℕ := (t.takeWhile isDigit).foldl (fun n b ↦ 10 * n + (b.toNat - 48)) 0
  let long : ℤ :=
    if neg then max (-(n : ℤ)) (-2 ^ (w.bits - 1)) else min n (2 ^ (w.bits - 1) - 1)
  long.bmod (2 ^ 32)

/-! ## Strings in the response -/

/-- `strstr`: what follows the first occurrence of a pattern before the NUL. -/
def strstr (pat : CStr) : CStr → Option CStr
  | [] => none
  | b :: s =>
    if b = 0 then none
    else if pat <+: b :: s then some ((b :: s).drop pat.length)
    else strstr pat s

theorem length_strstr {pat s next : CStr} (h : strstr pat s = some next) :
    next.length + pat.length ≤ s.length := by
  induction s with
  | nil => exact nomatch h
  | cons b s ih =>
    rw [strstr] at h
    split_ifs at h with hnul hpre
    · obtain rfl := Option.some_inj.mp h
      have hle := hpre.length_le
      rw [List.length_drop]
      omega
    · exact (ih h).trans (Nat.le_succ _)

/-- `tolower` -/
def toLower (b : UInt8) : UInt8 := if 65 ≤ b ∧ b ≤ 90 then b + 32 else b

/-- `strncasecmp(s, pat, n) == 0`, for a pattern of `n` lower-case bytes. -/
def startsWithCase (pat s : CStr) : Bool := (s.take pat.length).map toLower == pat

/-- `\r\n` -/
def crlf : CStr := [13, 10]

/-- The status of the response: the number behind the first blank. -/
def responseStatus (w : WordSize) (resp : CStr) : ℤ :=
  if ascii "HTTP/" <+: resp then
    match strstr [32] resp with
    | some s => atoi w s
    | none => 0
  else 0

/-- The body: what follows the first empty line, or all of it. -/
def responseBody (resp : CStr) : CStr :=
  ((strstr (crlf ++ crlf) resp).orElse fun _ ↦ strstr [10, 10] resp).getD resp

/-- The search for `Transfer-Encoding: chunked`, from one line of the header on. The first seventeen
bytes of `Transfer-Encoding:` are compared, and what follows them is taken for the value; the colon
is the eighteenth. -/
def headerChunked (body : CStr) (h : CStr) : Bool :=
  if h.length ≤ body.length + 17 then false
  else if startsWithCase (ascii "transfer-encoding") h then
    startsWithCase (ascii "chunked") ((h.drop 17).dropWhile isBlank)
  else
    match _hnext : strstr crlf h with
    | none => false
    | some next => if next.length + 2 ≤ body.length then false else headerChunked body next
termination_by h.length
decreasing_by
  have hle := length_strstr _hnext
  rw [crlf, List.length_cons, List.length_singleton] at hle
  omega

/-- The guess by content: a chunk size, and then a brace. -/
def looksChunked (w : WordSize) (body : CStr) : Bool :=
  match strtoulHex w body with
  | some (size, 13 :: 10 :: 123 :: _) => 0 < size
  | some (size, 10 :: 123 :: _) => 0 < size
  | _ => false

def treatedAsChunked (w : WordSize) (resp : CStr) : Bool :=
  headerChunked (responseBody resp) resp || looksChunked w (responseBody resp)

/-! ## Putting chunks together -/

/-- `*p`, where the list goes up to the terminator. -/
def firstByte (s : CStr) : UInt8 := s.headD 0

/-- A carriage return and a line feed are skipped, each if it is there. -/
def skipEol (s : CStr) : CStr :=
  let s := if firstByte s = 13 then s.tail else s
  if firstByte s = 10 then s.tail else s

/-- The offset behind the end of a line, if there is one at `p`. -/
def afterEol (resp : List UInt8) (p : ℕ) : ℕ := resp.length - (skipEol (resp.drop p)).length

/-- The variables of the chunk loop: an offset into the response, one into `out`, and `out`. -/
structure DechunkState where
  p : ℕ
  o : ℕ
  out : List UInt8

/-- The size line at an offset: the announced size, and the offset behind the line. -/
def sizeLine (w : WordSize) (resp : List UInt8) (p : ℕ) : Option (ℕ × ℕ) :=
  (strtoulHex w (resp.drop p)).map fun (chunk, rest) ↦ (chunk, resp.length - (skipEol rest).length)

/-- The bytes that are copied of a chunk. The sum may wrap around. -/
def chunkSize (w : WordSize) (outSz o chunk : ℕ) : ℕ :=
  if outSz ≤ (o + chunk) % 2 ^ w.bits then outSz - o - 1 else chunk

/-- One turn of the chunk loop. -/
def dechunkStep (w : WordSize) (resp : List UInt8) (outSz : ℕ) (s : DechunkState) :
    Option (Turn DechunkState) :=
  if firstByte (resp.drop s.p) = 0 ∨ outSz ≤ s.o + 1 then some (.stop s)
  else
    match sizeLine w resp s.p with
    | none => some (.stop s)
    | some (chunk, p) =>
      if chunk = 0 then some (.stop { s with p := p })
      else
        let chunk := chunkSize w outSz s.o chunk
        (readSlice resp p chunk).bind fun bytes ↦
          (writeSlice s.out s.o bytes).map fun out ↦
            .go ⟨afterEol resp (p + chunk), s.o + chunk, out⟩

/-! ## The response -/

/-- How a call can turn out. -/
inductive SqlResult where
  /-- -1, with the message -/
  | failed (err : CStr)
  /-- 0, with what `out` holds before its terminator -/
  | stored (text : List UInt8)
  /-- It left a buffer. -/
  | outside
  /-- It is still in the loop. -/
  | running

def dechunkOutcome : Option (Turn DechunkState) → SqlResult
  | none => .outside
  | some (.go _) => .running
  | some (.stop s) =>
    match writeSlice s.out s.o [0] with
    | none => .outside
    | some out => .stored (out.take s.o)

/-- A body that is not chunked is copied as far as it fits. -/
def copyBody (body : CStr) (outSz : ℕ) (out : List UInt8) : SqlResult :=
  let text := (body.takeWhile (· ≠ 0)).take (outSz - 1)
  match (writeSlice out 0 text).bind fun out ↦ writeSlice out text.length [0] with
  | none => .outside
  | some out => .stored (out.take text.length)

/-- The part of `http_post_sql` that has the whole response. -/
def storeResponse (w : WordSize) (resp : List UInt8) (outSz errLen : ℕ) (out : List UInt8)
    (fuel : ℕ) : SqlResult :=
  let body := responseBody resp
  if responseStatus w resp ≠ 200 then
    .failed (copyStr errLen (ascii "HTTP " ++ signedDecimal (responseStatus w resp) ++
      ascii ": " ++ (body.takeWhile (· ≠ 0)).take 160))
  else if treatedAsChunked w resp then
    dechunkOutcome (loop (dechunkStep w resp outSz) fuel ⟨resp.length - body.length, 0, out⟩)
  else copyBody body outSz out

/-- The receive loop, with a buffer of `cap` bytes, one of them for the terminator. -/
def receiveLoop (cap : ℕ) : List CStr → List UInt8 → List UInt8
  | [], resp => resp
  | piece :: pieces, resp =>
    if cap ≤ resp.length + 1 then resp
    else receiveLoop cap pieces (resp ++ piece.take (cap - resp.length - 1))

/-! ## The call -/

/-- The arguments of `http_post_sql` that make the request. -/
structure SqlCall where
  host : CStr
  port : CStr
  user : CStr
  password : CStr
  sql : CStr

/-- Outcomes of the calls `http_post_sql` makes. -/
structure SqlEnv where
  /-- the message of a failed `tcp_connect` -/
  connectErr : Option CStr
  alloc : Bool
  send : Bool
  /-- what comes before the end of the stream, or before fifteen seconds without a byte -/
  arrival : Arrival

def SqlCall.request (c : SqlCall) : CStr :=
  ascii "POST /?default_format=JSONEachRow HTTP/1.1\r\nHost: " ++ c.host ++
    ascii "\r\nContent-Type: text/plain; charset=utf-8\r\nContent-Length: " ++
    decimal c.sql.length ++ ascii "\r\nConnection: close\r\n" ++
    (if c.user ≠ [] then ascii "X-ClickHouse-User: " ++ c.user ++ crlf else []) ++
    (if c.password ≠ [] then ascii "X-ClickHouse-Key: " ++ c.password ++ crlf else []) ++
    crlf ++ c.sql

/-- `http_post_sql`. Each part of the request is checked against what is left of its buffer, so that
the last check is one of all of it. -/
def httpPostSql (w : WordSize) (env : SqlEnv) (c : SqlCall) (outSz errLen : ℕ) (out : List UInt8)
    (fuel : ℕ) : SqlResult :=
  if outSz < 8 then .failed []
  else
    match env.connectErr with
    | some err => .failed (copyStr errLen err)
    | none =>
      if !env.alloc then .failed (copyStr errLen (ascii "oom"))
      else if c.sql.length + 768 ≤ c.request.length then .failed []
      else if !env.send then .failed (copyStr errLen (ascii "send failed"))
      else
        storeResponse w (receiveLoop (outSz + 8192) env.arrival.pieces []) outSz errLen out fuel

end NetForensics
