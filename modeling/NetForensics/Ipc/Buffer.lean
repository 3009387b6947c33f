import NetForensics.Ipc.Lists
import NetForensics.Util.Writes

/-!
# The answer in the caller's buffer

`cpe_ipc_handle_request` is given a buffer and its size, and the only bound it checks is 32 bytes.
Here an answer is printed into such a buffer, with every write checked and with the subtraction
`cap - *off` of unsigned numbers. The list queries do not check the first piece of their answer: the
array of a query with rows has to have begun inside the buffer, or the next size wraps around
(`handleRequestIn_inside_iff`). With the buffer the server uses the answer is the one of `render`.
-/

namespace NetForensics

/-! ## Printing into a buffer -/

/-- Why the printing of an answer stops. -/
inductive PrintStop where
  /-- The size for `snprintf` would be negative, and wraps around to a huge one. -/
  | underflow
  /-- A write does not lie inside the buffer. -/
  | outside
  /-- -1 is returned. -/
  | failed

/-- The buffer, and the offset behind what has been printed. -/
structure PrintState where
  buf : List UInt8
  off : ℕ

namespace PrintState

/-- `snprintf(out + off, out_sz - off, ...)`: what fits is written, and a NUL; with a size of zero
nothing is. -/
def snprintf (s : PrintState) (text : CStr) : Except PrintStop (List UInt8) :=
  if s.buf.length < s.off then .error .underflow
  else if s.buf.length = s.off then .ok s.buf
  else
    match writeSlice s.buf s.off (text.take (s.buf.length - s.off - 1) ++ [0]) with
    | none => .error .outside
    | some buf => .ok buf

/-- The same with the check that the text has fit. -/
def append (s : PrintState) (text : CStr) : Except PrintStop PrintState :=
  (s.snprintf text).bind fun buf ↦
    if s.buf.length - s.off ≤ text.length then .error .failed
    else .ok ⟨buf, s.off + text.length⟩

/-- `out[off++] = b` -/
def put (s : PrintState) (b : UInt8) : Except PrintStop PrintState :=
  match writeSlice s.buf s.off [b] with
  | none => .error .outside
  | some buf => .ok ⟨buf, s.off + 1⟩

/-- `out[off] = '\0'` -/
def close (s : PrintState) : Except PrintStop (List UInt8) :=
  match writeSlice s.buf s.off [0] with
  | none => .error .outside
  | some buf => .ok buf

/-- The loop of the two list queries over the rows. -/
def appendRows : Bool → PrintState → List CStr → Except PrintStop PrintState
  | _, s, [] => .ok s
  | first, s, row :: rows =>
    (if first then .ok s
      else if s.buf.length ≤ s.off + 1 then .error .failed else s.put 44).bind fun s ↦
    (s.append row).bind fun s ↦ appendRows false s rows

/-- The loop of `flow_list`. -/
def appendFlows : Bool → PrintState → List CStr → Except PrintStop PrintState
  | _, s, [] => .ok s
  | first, s, row :: rows =>
    (s.append (if first then row else 44 :: row)).bind fun s ↦ appendFlows false s rows

end PrintState

/-- An answer that is printed by one `snprintf`. -/
def printOnce (buf : List UInt8) (text : CStr) : Except PrintStop (List UInt8) :=
  (PrintState.append ⟨buf, 0⟩ text).map PrintState.buf

def rowsOpen (verb : IpcVerb) : CStr := okOpen verb ++ [91]

/-- What stands before the flows of `flow_list`. -/
def flowsOpen : CStr := okOpen .flowList ++ 123 :: (quoted (ascii "flows") ++ [58, 91])

/-- An answer in a buffer: the memory after a return value of 0. -/
def IpcReply.renderIn (buf : List UInt8) : IpcReply → Except PrintStop (List UInt8)
  | value verb data => printOnce buf (okText verb data)
  | fields verb ms => printOnce buf (okText verb (object ms))
  | error op msg =>
    printOnce buf (errText (if op ≠ [] then op else ascii "unknown")
      (if msg ≠ [] then msg else ascii "error"))
  | row verb ms =>
    (PrintState.append ⟨buf, 0⟩ (okOpen verb)).bind fun s ↦ (s.append (object ms)).bind fun s ↦
      if s.buf.length ≤ s.off + 2 then .error .failed
      else (s.put 125).bind PrintState.close
  | rows verb rs =>
    -- the first piece is not compared with the size
    (PrintState.snprintf ⟨buf, 0⟩ (rowsOpen verb)).bind fun buf ↦
      (PrintState.appendRows true ⟨buf, (rowsOpen verb).length⟩ (rs.map object)).bind fun s ↦
        if s.buf.length ≤ s.off + 3 then .error .failed
        else (s.put 93).bind fun s ↦ (s.put 125).bind PrintState.close
  | flows rs count =>
    (PrintState.append ⟨buf, 0⟩ flowsOpen).bind fun s ↦
      (PrintState.appendFlows true s (rs.map object)).bind fun s ↦
        (s.append (93 :: 44 :: (member "count" (decimal count) ++ [125, 125]))).map PrintState.buf

/-- `cpe_ipc_handle_request` with a buffer of any size. -/
def IpcState.handleRequestIn (env : IpcEnv) (s : IpcState) (req : CStr) (buf : List UInt8) :
    IpcState × Except PrintStop (List UInt8) :=
  if buf.length < 32 then (s, .error .failed)
  else ((s.answer env req).1, (s.answer env req).2.renderIn buf)

/-! ## What has been printed -/

/-- The text is what has been printed, and it leaves room for a byte. -/
structure PrintState.Holds (n : ℕ) (text : CStr) (s : PrintState) : Prop where
  size : s.buf.length = n
  off : s.off = text.length
  printed : text <+: s.buf
  room : text.length < n

/-- The text stands in the buffer, with a NUL behind it. -/
structure Terminated (n : ℕ) (text : CStr) (buf : List UInt8) : Prop where
  size : buf.length = n
  printed : text ++ [0] <+: buf

/-- A step of the printing fails, or it leaves a text, of which `P` tells where it is. With the
buffer of the server it is the text expected. -/
inductive Printing {α : Type} (n : ℕ) (P : CStr → α → Prop) (expected : Option CStr) :
    Except PrintStop α → Prop
  | failed (h : n = cpeIpcLineMax → expected = none) : Printing n P expected (.error .failed)
  | done {a : α} {text : CStr} (ha : P text a) (h : n = cpeIpcLineMax → expected = some text) :
      Printing n P expected (.ok a)

section Printing

variable {α β : Type} {n : ℕ} {P : CStr → α → Prop} {Q : CStr → β → Prop}
  {expected : Option CStr} {r : Except PrintStop α}

theorem Printing.congr (h : Printing n P expected r) {expected' : Option CStr}
    (heq : n = cpeIpcLineMax → expected = expected') : Printing n P expected' r := by
  cases h with
  | failed h => exact .failed fun hmax ↦ (heq hmax).symm.trans (h hmax)
  | done ha h => exact .done ha fun hmax ↦ (heq hmax).symm.trans (h hmax)

theorem Printing.bind (h : Printing n P expected r) {f : CStr → Option CStr}
    {g : α → Except PrintStop β} (hg : ∀ {text a}, P text a → Printing n Q (f text) (g a)) :
    Printing n Q (expected.bind f) (r.bind g) := by
  cases h with
  | failed h =>
    refine .failed fun hmax ↦ ?_
    rw [h hmax]
    rfl
  | done ha h =>
    refine Printing.congr (hg ha) fun hmax ↦ ?_
    rw [h hmax]
    rfl

end Printing

variable {n : ℕ} {s : PrintState} {text : CStr}

/-- A text that begins inside the buffer stays inside: it is there completely, or cut. -/
theorem PrintState.Holds.snprintf (hs : s.Holds n text) (more : CStr) :
    ∃ buf, s.snprintf more = .ok buf ∧ buf.length = n ∧
      text ++ (more.take (n - text.length - 1) ++ [0]) <+: buf := by
  have hroom := hs.room
  have hle : text.length + (more.take (n - text.length - 1) ++ [0]).length ≤ s.buf.length := by
    rw [List.length_append, List.length_take, List.length_singleton, hs.size]
    omega
  obtain ⟨buf, hwrite, hstart, hsize⟩ := exists_writeSlice hs.printed _ hle
  refine ⟨buf, ?_, hsize.trans hs.size, hstart⟩
  rw [PrintState.snprintf, hs.size, hs.off, if_neg (Nat.lt_asymm hroom), if_neg hroom.ne', hwrite]

/-- A piece that fits comes behind the text; another one is refused. -/
theorem PrintState.Holds.append_cases (hs : s.Holds n text) (more : CStr) :
    n - text.length ≤ more.length ∧ s.append more = .error .failed ∨
      more.length < n - text.length ∧ ∃ t : PrintState, s.append more = .ok t ∧
        t.Holds n (text ++ more) ∧ Terminated n (text ++ more) t.buf := by
  obtain ⟨buf, hprint, hsize, hstart⟩ := hs.snprintf more
  have happend : s.append more = if n - text.length ≤ more.length then .error .failed
      else .ok ⟨buf, text.length + more.length⟩ := by
    rw [PrintState.append, hprint, ← hs.size, ← hs.off]
    rfl
  rw [happend]
  by_cases hfull : n - text.length ≤ more.length
  · exact .inl ⟨hfull, if_pos hfull⟩
  · have hlt := Nat.lt_of_not_le hfull
    rw [List.take_of_length_le (by omega), ← List.append_assoc] at hstart
    refine .inr ⟨hlt, _, if_neg hfull, ⟨hsize, List.length_append.symm, ?_, ?_⟩, hsize, hstart⟩
    · exact (List.prefix_append _ _).trans hstart
    · rw [List.length_append]
      omega

theorem PrintState.Holds.append (hs : s.Holds n text) (more : CStr) :
    Printing n (PrintState.Holds n) (appendText text more) (s.append more) := by
  rcases hs.append_cases more with ⟨hfull, heq⟩ | ⟨hlt, t, heq, ht, -⟩
  · rw [heq]
    exact .failed fun hmax ↦ if_neg (Nat.not_lt_of_le (hmax ▸ hfull))
  · rw [heq]
    exact .done ht fun hmax ↦ if_pos (hmax ▸ hlt)

theorem PrintState.Holds.append_last (hs : s.Holds n text) (more : CStr) :
    Printing n (Terminated n) (appendText text more) ((s.append more).map PrintState.buf) := by
  rcases hs.append_cases more with ⟨hfull, heq⟩ | ⟨hlt, t, heq, -, hterminated⟩
  · rw [heq]
    exact .failed fun hmax ↦ if_neg (Nat.not_lt_of_le (hmax ▸ hfull))
  · rw [heq]
    exact .done hterminated fun hmax ↦ if_pos (hmax ▸ hlt)

theorem PrintState.Holds.put (hs : s.Holds n text) (h : text.length + 1 < n) (b : UInt8) :
    ∃ t : PrintState, s.put b = .ok t ∧ t.Holds n (text ++ [b]) := by
  obtain ⟨buf, hwrite, hstart, hsize⟩ := exists_writeSlice hs.printed [b] (by
    rw [List.length_singleton, hs.size]
    exact h.le)
  refine ⟨⟨buf, text.length + 1⟩, ?_, hsize.trans hs.size, ?_, hstart, ?_⟩
  · rw [PrintState.put, hs.off, hwrite]
  · rw [List.length_append, List.length_singleton]
  · rwa [List.length_append]

theorem PrintState.Holds.close (hs : s.Holds n text) :
    ∃ buf, s.close = .ok buf ∧ Terminated n text buf := by
  obtain ⟨buf, hwrite, hstart, hsize⟩ := exists_writeSlice hs.printed [0] (by
    rw [List.length_singleton, hs.size]
    exact hs.room)
  refine ⟨buf, ?_, hsize.trans hs.size, hstart⟩
  rw [PrintState.close, hs.off, hwrite]

/-! ## The loops -/

theorem PrintState.Holds.appendRows (hs : s.Holds n text) (first : Bool) (rows : List CStr) :
    Printing n (PrintState.Holds n) (NetForensics.appendRows first text rows)
      (s.appendRows first rows) := by
  induction rows generalizing first s text with
  | nil => exact .done hs fun _ ↦ rfl
  | cons row rows ih =>
    have hcomma : Printing n (PrintState.Holds n)
        (if first then some text
          else if text.length + 1 < cpeIpcLineMax then some (text ++ [44]) else none)
        (if first then .ok s
          else if s.buf.length ≤ s.off + 1 then .error .failed else s.put 44) := by
      cases first with
      | true => exact .done hs fun _ ↦ rfl
      | false =>
        rw [if_neg Bool.false_ne_true, if_neg Bool.false_ne_true, hs.size, hs.off]
        by_cases hfull : n ≤ text.length + 1
        · rw [if_pos hfull]
          exact .failed fun hmax ↦ if_neg (Nat.not_lt_of_le (hmax ▸ hfull))
        · obtain ⟨t, hput, ht⟩ := hs.put (Nat.lt_of_not_le hfull) 44
          rw [if_neg hfull, hput]
          exact .done ht fun hmax ↦ if_pos (hmax ▸ Nat.lt_of_not_le hfull)
    rw [NetForensics.appendRows, PrintState.appendRows]
    exact hcomma.bind fun ht ↦ (ht.append row).bind fun hu ↦ ih hu false

theorem PrintState.Holds.appendFlows (hs : s.Holds n text) (first : Bool) (rows : List CStr) :
    Printing n (PrintState.Holds n) (NetForensics.appendFlows first text rows)
      (s.appendFlows first rows) := by
  induction rows generalizing first s text with
  | nil => exact .done hs fun _ ↦ rfl
  | cons row rows ih =>
    rw [NetForensics.appendFlows, PrintState.appendFlows]
    exact (hs.append _).bind fun ht ↦ ih ht false

/-! ## The answers -/

variable {buf : List UInt8}

theorem holds_nil (h : 0 < buf.length) : PrintState.Holds buf.length [] ⟨buf, 0⟩ :=
  ⟨rfl, rfl, List.nil_prefix, h⟩

theorem printOnce_printing (h : 0 < buf.length) (text : CStr) :
    Printing buf.length (Terminated buf.length) (fitText cpeIpcLineMax text)
      (printOnce buf text) :=
  (holds_nil h).append_last text

/-- The first piece of an answer that is short enough for the buffer of the server. -/
theorem append_open (h : 0 < buf.length) {text : CStr} (htext : text.length < cpeIpcLineMax) :
    Printing buf.length (PrintState.Holds buf.length) (some text)
      (PrintState.append ⟨buf, 0⟩ text) :=
  ((holds_nil h).append text).congr fun _ ↦ if_pos htext

theorem PrintState.Holds.finish_row (hs : s.Holds n text) :
    Printing n (Terminated n)
      (if text.length + 2 < cpeIpcLineMax then some (text ++ [125]) else none)
      (if s.buf.length ≤ s.off + 2 then .error .failed else (s.put 125).bind PrintState.close) := by
  rw [hs.size, hs.off]
  by_cases hfull : n ≤ text.length + 2
  · rw [if_pos hfull]
    exact .failed fun hmax ↦ if_neg (Nat.not_lt_of_le (hmax ▸ hfull))
  · obtain ⟨t, hput, ht⟩ := hs.put (by omega) 125
    obtain ⟨buf, hclose, hbuf⟩ := ht.close
    have hdone : Except.bind (.ok t) PrintState.close = .ok buf := hclose
    rw [if_neg hfull, hput, hdone]
    exact .done hbuf fun hmax ↦ if_pos (hmax ▸ Nat.lt_of_not_le hfull)

theorem PrintState.Holds.finish_rows (hs : s.Holds n text) :
    Printing n (Terminated n)
      (if text.length + 3 < cpeIpcLineMax then some (text ++ [93, 125]) else none)
      (if s.buf.length ≤ s.off + 3 then .error .failed
        else (s.put 93).bind fun s ↦ (s.put 125).bind PrintState.close) := by
  rw [hs.size, hs.off]
  by_cases hfull : n ≤ text.length + 3
  · rw [if_pos hfull]
    exact .failed fun hmax ↦ if_neg (Nat.not_lt_of_le (hmax ▸ hfull))
  · obtain ⟨t, hput, ht⟩ := hs.put (by omega) 93
    obtain ⟨u, hput', hu⟩ := ht.put (by rw [List.length_append, List.length_singleton]; omega) 125
    obtain ⟨buf, hclose, hbuf⟩ := hu.close
    have hdone : Except.bind (.ok t) (fun s ↦ (s.put 125).bind PrintState.close) = .ok buf := by
      have hnext : Except.bind (.ok t) (fun s ↦ (s.put 125).bind PrintState.close)
          = (t.put 125).bind PrintState.close := rfl
      rw [hnext, hput']
      exact hclose
    rw [if_neg hfull, hput, hdone]
    rw [List.append_assoc] at hbuf
    exact .done hbuf fun hmax ↦ if_pos (hmax ▸ Nat.lt_of_not_le hfull)

/-- If an array is printed, it has begun inside the buffer. -/
def IpcReply.RowsBegin (n : ℕ) (reply : IpcReply) : Prop :=
  ∀ verb rs, reply = .rows verb rs → (rowsOpen verb).length < n

theorem IpcReply.renderIn_printing {reply : IpcReply} (h : 0 < buf.length)
    (hrows : reply.RowsBegin buf.length) :
    Printing buf.length (Terminated buf.length) reply.render (reply.renderIn buf) := by
  have hopen : ∀ verb, (okOpen verb).length < cpeIpcLineMax := fun verb ↦ by
    cases verb <;> decide
  cases reply with
  | value verb data => exact printOnce_printing h _
  | fields verb ms => exact printOnce_printing h _
  | error op msg => exact printOnce_printing h _
  | row verb ms =>
    exact ((append_open h (hopen verb)).bind fun hs ↦ (hs.append _).bind fun ht ↦
      ht.finish_row)
  | rows verb rs =>
    have hlt := hrows verb rs rfl
    obtain ⟨buf', hprint, hsize, hstart⟩ := (holds_nil h).snprintf (rowsOpen verb)
    rw [List.nil_append, List.length_nil, List.take_of_length_le (by omega)] at hstart
    have hbegun : PrintState.Holds buf.length (rowsOpen verb) ⟨buf', (rowsOpen verb).length⟩ :=
      ⟨hsize, rfl, (List.prefix_append _ _).trans hstart, hlt⟩
    rw [IpcReply.renderIn, hprint]
    exact (hbegun.appendRows true (rs.map object)).bind fun ht ↦ ht.finish_rows
  | flows rs count =>
    exact ((append_open h (by decide)).bind fun hs ↦ (hs.appendFlows true _).bind fun ht ↦
      ht.append_last _)

/-- No write leaves the buffer and no size wraps around, and what is answered ends in the buffer. -/
inductive Inside (n : ℕ) : Except PrintStop (List UInt8) → Prop
  | failed : Inside n (.error .failed)
  | terminated {buf : List UInt8} {text : CStr} (h : Terminated n text buf) : Inside n (.ok buf)

theorem Printing.inside {expected : Option CStr} {r : Except PrintStop (List UInt8)}
    (h : Printing n (Terminated n) expected r) : Inside n r := by
  cases h with
  | failed _ => exact .failed
  | done hterminated _ => exact .terminated hterminated

/-- Behind the end of the buffer the size wraps around; right at its end the text is refused. -/
theorem PrintState.append_behind {s : PrintState} (h : s.buf.length ≤ s.off) (more : CStr) :
    s.append more = .error (if s.buf.length = s.off then .failed else .underflow) := by
  by_cases heq : s.buf.length = s.off
  · have hprint : s.snprintf more = .ok s.buf := by
      rw [PrintState.snprintf, if_neg (Nat.not_lt_of_le heq.ge), if_pos heq]
    have hfull : s.buf.length - s.off ≤ more.length := by omega
    rw [PrintState.append, hprint, if_pos heq]
    exact if_pos hfull
  · have hprint : s.snprintf more = .error .underflow := if_pos (Nat.lt_of_le_of_ne h heq)
    rw [PrintState.append, hprint, if_neg heq]
    rfl

/-- An array that has not begun inside the buffer is refused when it has no rows, or when its
beginning ends with the buffer. -/
theorem IpcReply.renderIn_rows_inside_iff (verb : IpcVerb) (rs : List (List (String × CStr)))
    (h : 0 < buf.length) (hlong : buf.length ≤ (rowsOpen verb).length) :
    Inside buf.length ((IpcReply.rows verb rs).renderIn buf) ↔
      rs = [] ∨ buf.length = (rowsOpen verb).length := by
  obtain ⟨buf', hprint, hsize, -⟩ := (holds_nil h).snprintf (rowsOpen verb)
  have hnext : (IpcReply.rows verb rs).renderIn buf
      = (PrintState.appendRows true ⟨buf', (rowsOpen verb).length⟩ (rs.map object)).bind fun s ↦
        if s.buf.length ≤ s.off + 3 then .error .failed
        else (s.put 93).bind fun s ↦ (s.put 125).bind PrintState.close := by
    rw [IpcReply.renderIn, hprint]
    rfl
  rw [hnext]
  cases rs with
  | nil =>
    have hshort : buf'.length ≤ (rowsOpen verb).length + 3 := by omega
    have hfailed : (if buf'.length ≤ (rowsOpen verb).length + 3 then .error .failed
        else (PrintState.put ⟨buf', (rowsOpen verb).length⟩ 93).bind fun s ↦
          (s.put 125).bind PrintState.close) = Except.error PrintStop.failed := if_pos hshort
    refine iff_of_true ?_ (.inl rfl)
    rw [List.map_nil, PrintState.appendRows, Except.bind, hfailed]
    exact .failed
  | cons ms rs =>
    have hbehind := PrintState.append_behind (s := ⟨buf', (rowsOpen verb).length⟩)
      (hsize.trans_le hlong) (object ms)
    have hstop : ∀ {f : PrintState → Except PrintStop (List UInt8)},
        (PrintState.appendRows true ⟨buf', (rowsOpen verb).length⟩
          (object ms :: rs.map object)).bind f
          = .error (if buf'.length = (rowsOpen verb).length then .failed else .underflow) := by
      intro f
      have hrow : PrintState.appendRows true ⟨buf', (rowsOpen verb).length⟩
          (object ms :: rs.map object)
          = (PrintState.append ⟨buf', (rowsOpen verb).length⟩ (object ms)).bind fun s ↦
            s.appendRows false (rs.map object) := rfl
      rw [hrow, hbehind]
      rfl
    rw [List.map_cons, hstop, ← hsize]
    by_cases heq : buf'.length = (rowsOpen verb).length
    · rw [if_pos heq]
      exact iff_of_true .failed (.inr heq)
    · rw [if_neg heq]
      exact iff_of_false nofun fun h ↦ h.elim nofun heq

theorem IpcReply.renderIn_inside_iff {reply : IpcReply} (h : 0 < buf.length) :
    Inside buf.length (reply.renderIn buf) ↔
      ∀ verb rs, reply = .rows verb rs → rs ≠ [] → (rowsOpen verb).length ≤ buf.length := by
  by_cases hrows : reply.RowsBegin buf.length
  · refine iff_of_true (renderIn_printing h hrows).inside fun verb rs hreply _ ↦ ?_
    exact (hrows verb rs hreply).le
  · rw [RowsBegin] at hrows
    push Not at hrows
    obtain ⟨verb, rs, rfl, hlong⟩ := hrows
    rw [renderIn_rows_inside_iff verb rs h hlong]
    constructor
    · rintro hor verb' rs' hreply hne
      obtain ⟨rfl, rfl⟩ := IpcReply.rows.inj hreply
      exact (hor.resolve_left hne).ge
    · intro hall
      by_cases hne : rs = []
      · exact .inl hne
      · exact .inr (hlong.antisymm (hall verb rs rfl hne))

/-! ## The handler -/

theorem counted_ne_rows (verb : IpcVerb) (field msg : String) (n : ℤ) {v : IpcVerb}
    {rs : List (List (String × CStr))} : IpcState.counted verb field msg n ≠ .rows v rs := by
  rw [IpcState.counted]
  split <;> exact nofun

theorem latency_ne_rows (s : IpcState) {v : IpcVerb} {rs : List (List (String × CStr))} :
    s.latency ≠ .rows v rs := by
  rw [IpcState.latency]
  split <;> exact nofun

theorem flowList_ne_rows (a : CpeAgent) (snap : CpeFlowSnapshot) (limit : ℕ) {v : IpcVerb}
    {rs : List (List (String × CStr))} : IpcState.flowList a snap limit ≠ .rows v rs := by
  rw [IpcState.flowList]
  split
  · exact IpcReply.noConfusion
  · split <;> exact IpcReply.noConfusion

theorem tcpByIp_eq_rows_iff (a : CpeAgent) (ip : CStr) {v : IpcVerb}
    {rs : List (List (String × CStr))} :
    IpcState.tcpByIp a ip = .rows v rs ↔
      ip = [] ∧ .tcpByIp = v ∧ (a.tcp.snap.remotes.take 64).map remoteRow = rs := by
  rw [IpcState.tcpByIp]
  by_cases hip : ip = []
  · rw [if_neg (not_not.mpr hip), IpcReply.rows.injEq]
    exact (and_iff_right hip).symm
  · rw [if_pos hip]
    refine iff_of_false ?_ fun h ↦ hip h.1
    split <;> exact IpcReply.noConfusion

theorem tcpByPrefix_eq_rows_iff (a : CpeAgent) (pfx : CStr) {v : IpcVerb}
    {rs : List (List (String × CStr))} :
    IpcState.tcpByPrefix a pfx = .rows v rs ↔
      pfx = [] ∧ .tcpByPrefix = v ∧ (a.tcp.snap.prefixes.take 64).map prefixRow = rs := by
  rw [IpcState.tcpByPrefix]
  by_cases hpfx : pfx = []
  · rw [if_neg (not_not.mpr hpfx), IpcReply.rows.injEq]
    exact (and_iff_right hpfx).symm
  · rw [if_pos hpfx]
    refine iff_of_false ?_ fun h ↦ hpfx h.1
    split <;> exact IpcReply.noConfusion

/-- Only the two list queries answer with an array of rows. -/
theorem serve_eq_rows {env : IpcEnv} {s : IpcState} {req : CStr} {verb v : IpcVerb}
    {rs : List (List (String × CStr))} (h : (s.serve env req verb).2 = .rows v rs) :
    verb = .tcpByIp ∨ verb = .tcpByPrefix := by
  cases verb with
  | tcpByIp => exact .inl rfl
  | tcpByPrefix => exact .inr rfl
  | lastSample =>
    exfalso
    rw [IpcState.serve] at h
    split at h <;> contradiction
  | latency => exact absurd h (latency_ne_rows s)
  | flowList => exact absurd h (flowList_ne_rows _ _ _)
  | emit => exact absurd h (counted_ne_rows _ _ _ _)
  | tcpPoll => exact absurd h (counted_ne_rows _ _ _ _)
  | flowTick => exact absurd h (counted_ne_rows _ _ _ _)
  | tcpEmit => exact absurd h (counted_ne_rows _ _ _ _)
  | _ => contradiction

/-- A list query has rows only if its answer begins inside a buffer of so many bytes. -/
structure ListsFit (s : IpcState) (req : CStr) (n : ℕ) : Prop where
  byIp : requestOp req = ascii "tcp_by_ip" → requestField req "ip" 48 = [] →
    s.agent.tcp.snap.remotes ≠ [] → 36 ≤ n
  byPrefix : requestOp req = ascii "tcp_by_prefix" → requestField req "prefix" 64 = [] →
    s.agent.tcp.snap.prefixes ≠ [] → 40 ≤ n

private theorem take_map_ne_nil {α β : Type} {l : List α} {f : α → β} :
    (l.take 64).map f ≠ [] ↔ l ≠ [] := by
  rw [Ne, List.map_eq_nil_iff, List.take_eq_nil_iff]
  exact not_congr (or_iff_right (by decide))

theorem answer_rows_iff (env : IpcEnv) (s : IpcState) (req : CStr) (n : ℕ) :
    (∀ verb rs, (s.answer env req).2 = .rows verb rs → rs ≠ [] → (rowsOpen verb).length ≤ n) ↔
      ListsFit s req n := by
  constructor
  · intro h
    refine ⟨fun hop hip hne ↦ ?_, fun hop hpfx hne ↦ ?_⟩
    · have hverb : requestOp req = ascii IpcVerb.tcpByIp.name := hop
      have hrows : (s.answer env req).2
          = .rows .tcpByIp ((s.agent.tcp.snap.remotes.take 64).map remoteRow) := by
        rw [IpcState.answer_of_op hverb]
        exact (tcpByIp_eq_rows_iff _ _).mpr ⟨hip, rfl, rfl⟩
      exact h .tcpByIp _ hrows (take_map_ne_nil.mpr hne)
    · have hverb : requestOp req = ascii IpcVerb.tcpByPrefix.name := hop
      have hrows : (s.answer env req).2
          = .rows .tcpByPrefix ((s.agent.tcp.snap.prefixes.take 64).map prefixRow) := by
        rw [IpcState.answer_of_op hverb]
        exact (tcpByPrefix_eq_rows_iff _ _).mpr ⟨hpfx, rfl, rfl⟩
      exact h .tcpByPrefix _ hrows (take_map_ne_nil.mpr hne)
  · intro h verb rs hreply hne
    rw [IpcState.answer] at hreply
    split at hreply
    · contradiction
    · split at hreply
      · contradiction
      · rename_i found hfind
        have hop := IpcVerb.eq_name_of_find hfind
        rcases serve_eq_rows hreply with rfl | rfl
        · obtain ⟨hip, rfl, rfl⟩ := (tcpByIp_eq_rows_iff _ _).mp hreply
          exact h.byIp hop hip (take_map_ne_nil.mp hne)
        · obtain ⟨hpfx, rfl, rfl⟩ := (tcpByPrefix_eq_rows_iff _ _).mp hreply
          exact h.byPrefix hop hpfx (take_map_ne_nil.mp hne)

/-- With the buffer of the server, the answer in it is the one that is sent. -/
theorem handleRequestIn_lineMax (env : IpcEnv) (s : IpcState) (req : CStr)
    (h : buf.length = cpeIpcLineMax) :
    (s.handleRequestIn env req buf).1 = (IpcState.handleRequest env s req).1 ∧
      Printing buf.length (Terminated buf.length) (IpcState.handleRequest env s req).2
        (s.handleRequestIn env req buf).2 := by
  have hmax : cpeIpcLineMax = 8192 := rfl
  have hbegin : (s.answer env req).2.RowsBegin buf.length := by
    intro verb rs _
    have hopen : (rowsOpen verb).length < 8192 := by cases verb <;> decide
    rwa [h, hmax]
  rw [IpcState.handleRequestIn, if_neg (by omega)]
  exact ⟨rfl, IpcReply.renderIn_printing (by omega) hbegin⟩

/-- A request stays inside a buffer of 32 bytes or more, and what it answers ends there, exactly
when it is not a list query with rows whose beginning is longer than the buffer. -/
theorem handleRequestIn_inside_iff (env : IpcEnv) (s : IpcState) (req : CStr) (buf : List UInt8)
    (h : 32 ≤ buf.length) :
    Inside buf.length (s.handleRequestIn env req buf).2 ↔ ListsFit s req buf.length := by
  rw [IpcState.handleRequestIn, if_neg (Nat.not_lt_of_le h), ← answer_rows_iff env]
  exact IpcReply.renderIn_inside_iff (Nat.lt_of_lt_of_le (by decide) h)

/-- An agent that has seen one remote host, and a buffer that holds the beginning of its answer. -/
theorem handleRequestIn_inside_row :
    Inside 64 ((IpcState.create.hostRun (seenHosts 1)).handleRequestIn quietEnv
      (bareRequest "tcp_by_ip") (List.replicate 64 0)).2 :=
  (handleRequestIn_inside_iff quietEnv _ (bareRequest "tcp_by_ip") (List.replicate 64 0)
    (by decide)).mpr ⟨fun _ _ _ ↦ by decide, fun hop ↦ absurd hop (by decide)⟩

/-- With the smallest buffer that is accepted, the size for the first row wraps around. -/
theorem handleRequestIn_outside :
    ¬ Inside 32 ((IpcState.create.hostRun (seenHosts 1)).handleRequestIn quietEnv
      (bareRequest "tcp_by_ip") (List.replicate 32 0)).2 := by
  have hrow : (IpcState.create.hostRun (seenHosts 1)).agent.tcp.snap.remotes ≠ [] := by
    rw [← List.length_pos_iff]
    decide +kernel
  generalize IpcState.create.hostRun (seenHosts 1) = s at hrow
  intro h
  rw [IpcState.handleRequestIn, if_neg (by decide)] at h
  have hfits := (answer_rows_iff quietEnv s (bareRequest "tcp_by_ip") 32).mp
    ((@IpcReply.renderIn_inside_iff (List.replicate 32 0) _ (by decide)).mp h)
  exact absurd (hfits.byIp (by decide) (by decide) hrow) (by decide)

end NetForensics
