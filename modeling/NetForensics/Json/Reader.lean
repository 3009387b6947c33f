import NetForensics.Util.Text

/-!
# Reading JSON

A reader for JSON texts that takes one byte at a time. Its state is what it is in the middle of and
a stack of the arrays and objects it is inside of, so that a text can be read piece by piece:
reading `s ++ t` is reading `s` and then `t` (`run_append`). Strings are decoded as they are read,
numbers are kept as they are written, and the members of an object in the order in which they come.

The grammar is the usual one. An escaped surrogate counts only as half of a pair. The reader does
not look at the encoding of the text; that is `ValidUtf8`, a condition of its own.
-/

namespace NetForensics

/-- A JSON value. -/
inductive Json where
  | null
  | bool (b : Bool)
  | num (lexeme : CStr)
  | str (s : CStr)
  | arr (elems : List Json)
  | obj (members : List (CStr × Json))

namespace Json

/-! ## Inside a string -/

/-- Where in a string the reader is: between characters, after a backslash, among the digits of
`\u`, or on the way to the second half of a surrogate pair. -/
inductive StrState where
  | body
  | esc
  | uni (high : Option ℕ) (digits acc : ℕ)
  | lowEsc (high : ℕ)
  | lowUni (high : ℕ)
  deriving DecidableEq

def hexVal (b : UInt8) : Option ℕ :=
  if 48 ≤ b ∧ b ≤ 57 then some (b.toNat - 48)
  else if 97 ≤ b ∧ b ≤ 102 then some (b.toNat - 87)
  else if 65 ≤ b ∧ b ≤ 70 then some (b.toNat - 55)
  else none

/-- The character a two-character escape stands for. -/
def unescape (b : UInt8) : Option UInt8 :=
  if b = 34 ∨ b = 92 ∨ b = 47 then some b
  else if b = 98 then some 8
  else if b = 102 then some 12
  else if b = 110 then some 10
  else if b = 114 then some 13
  else if b = 116 then some 9
  else none

/-- What the four digits of `\u` stand for. -/
def codeUnit (high : Option ℕ) (unit : ℕ) : Option (StrState × CStr) :=
  match high with
  | none =>
    if 0xD800 ≤ unit ∧ unit < 0xDC00 then some (.lowEsc unit, [])
    else if 0xDC00 ≤ unit ∧ unit < 0xE000 then none
    else some (.body, String.utf8EncodeChar (Char.ofNat unit))
  | some high =>
    if 0xDC00 ≤ unit ∧ unit < 0xE000 then
      some (.body, String.utf8EncodeChar
        (Char.ofNat (0x10000 + 0x400 * (high - 0xD800) + (unit - 0xDC00))))
    else none

/-- One byte of a string, other than the quote that ends it: the bytes it contributes. -/
def StrState.step : StrState → UInt8 → Option (StrState × CStr)
  | .body, b =>
    if b = 34 ∨ b < 32 then none
    else if b = 92 then some (.esc, [])
    else some (.body, [b])
  | .esc, b =>
    if b = 117 then some (.uni none 0 0, []) else (unescape b).map fun c ↦ (.body, [c])
  | .uni high digits acc, b =>
    (hexVal b).bind fun d ↦
      if digits < 3 then some (.uni high (digits + 1) (16 * acc + d), [])
      else codeUnit high (16 * acc + d)
  | .lowEsc high, b => if b = 92 then some (.lowUni high, []) else none
  | .lowUni high, b => if b = 117 then some (.uni (some high) 0 0, []) else none

/-- A stretch of a string, up to but not including the quote that ends it. -/
def StrState.run : StrState → CStr → Option (StrState × CStr)
  | st, [] => some (st, [])
  | st, b :: s =>
    (st.step b).bind fun (st', out) ↦ (st'.run s).map fun (st'', out') ↦ (st'', out ++ out')

/-! ## Inside a number -/

/-- Where in a number the reader is. -/
inductive NumState where
  | minus | zero | int | point | frac | exp | expSign | expDigits
  deriving DecidableEq

def NumState.start (b : UInt8) : Option NumState :=
  if b = 45 then some .minus
  else if b = 48 then some .zero
  else if 49 ≤ b ∧ b ≤ 57 then some .int
  else none

/-- The next byte of a number, if it belongs to it. -/
def NumState.step : NumState → UInt8 → Option NumState
  | .minus, b =>
    if b = 48 then some .zero else if 49 ≤ b ∧ b ≤ 57 then some .int else none
  | .zero, b => if b = 46 then some .point else if b = 101 ∨ b = 69 then some .exp else none
  | .int, b =>
    if 48 ≤ b ∧ b ≤ 57 then some .int
    else if b = 46 then some .point
    else if b = 101 ∨ b = 69 then some .exp
    else none
  | .point, b => if 48 ≤ b ∧ b ≤ 57 then some .frac else none
  | .frac, b =>
    if 48 ≤ b ∧ b ≤ 57 then some .frac else if b = 101 ∨ b = 69 then some .exp else none
  | .exp, b =>
    if b = 43 ∨ b = 45 then some .expSign
    else if 48 ≤ b ∧ b ≤ 57 then some .expDigits
    else none
  | .expSign, b => if 48 ≤ b ∧ b ≤ 57 then some .expDigits else none
  | .expDigits, b => if 48 ≤ b ∧ b ≤ 57 then some .expDigits else none

def NumState.final : NumState → Bool
  | .zero | .int | .frac | .expDigits => true
  | _ => false

/-! ## The reader -/

/-- An array or an object around what is being read. -/
inductive Frame where
  | arr (done : List Json)
  | obj (done : List (CStr × Json)) (key : CStr)

/-- What the reader is in the middle of. -/
inductive Mode where
  /-- before a value -/
  | value
  /-- after `[` -/
  | elemOrEnd
  /-- after an opening brace -/
  | keyOrEnd
  /-- after a comma between members -/
  | key (done : List (CStr × Json))
  | keyStr (done : List (CStr × Json)) (st : StrState) (acc : CStr)
  /-- after the name of a member -/
  | colon (done : List (CStr × Json)) (key : CStr)
  | str (st : StrState) (acc : CStr)
  | num (st : NumState) (acc : CStr)
  /-- inside `null`, `true` or `false` -/
  | lit (rest : CStr) (v : Json)
  /-- after a value -/
  | after (v : Json)

structure Reader where
  mode : Mode
  stack : List Frame

def isSpace (b : UInt8) : Bool := b == 32 || b == 9 || b == 10 || b == 13

namespace Reader

def startValue (stack : List Frame) (b : UInt8) : Option Reader :=
  if b = 34 then some ⟨.str .body [], stack⟩
  else if b = 123 then some ⟨.keyOrEnd, stack⟩
  else if b = 91 then some ⟨.elemOrEnd, stack⟩
  else if b = 110 then some ⟨.lit (ascii "ull") .null, stack⟩
  else if b = 116 then some ⟨.lit (ascii "rue") (.bool true), stack⟩
  else if b = 102 then some ⟨.lit (ascii "alse") (.bool false), stack⟩
  else (NumState.start b).map fun st ↦ ⟨.num st [b], stack⟩

def afterValue (stack : List Frame) (v : Json) (b : UInt8) : Option Reader :=
  if isSpace b then some ⟨.after v, stack⟩
  else
    match stack with
    | [] => none
    | .arr done :: stack =>
      if b = 44 then some ⟨.value, .arr (done ++ [v]) :: stack⟩
      else if b = 93 then some ⟨.after (.arr (done ++ [v])), stack⟩
      else none
    | .obj done key :: stack =>
      if b = 44 then some ⟨.key (done ++ [(key, v)]), stack⟩
      else if b = 125 then some ⟨.after (.obj (done ++ [(key, v)])), stack⟩
      else none

def step (r : Reader) (b : UInt8) : Option Reader :=
  match r.mode with
  | .value => if isSpace b then some r else startValue r.stack b
  | .elemOrEnd =>
    if isSpace b then some r
    else if b = 93 then some ⟨.after (.arr []), r.stack⟩
    else startValue (.arr [] :: r.stack) b
  | .keyOrEnd =>
    if isSpace b then some r
    else if b = 125 then some ⟨.after (.obj []), r.stack⟩
    else if b = 34 then some ⟨.keyStr [] .body [], r.stack⟩
    else none
  | .key done =>
    if isSpace b then some r
    else if b = 34 then some ⟨.keyStr done .body [], r.stack⟩
    else none
  | .keyStr done st acc =>
    if st = .body ∧ b = 34 then some ⟨.colon done acc, r.stack⟩
    else (st.step b).map fun (st, out) ↦ ⟨.keyStr done st (acc ++ out), r.stack⟩
  | .colon done key =>
    if isSpace b then some r
    else if b = 58 then some ⟨.value, .obj done key :: r.stack⟩
    else none
  | .str st acc =>
    if st = .body ∧ b = 34 then some ⟨.after (.str acc), r.stack⟩
    else (st.step b).map fun (st, out) ↦ ⟨.str st (acc ++ out), r.stack⟩
  | .num st acc =>
    match st.step b with
    | some st => some ⟨.num st (acc ++ [b]), r.stack⟩
    | none => if st.final then afterValue r.stack (.num acc) b else none
  | .lit rest v =>
    match rest with
    | [] => none
    | c :: rest =>
      if b = c then
        (if rest = [] then some ⟨.after v, r.stack⟩ else some ⟨.lit rest v, r.stack⟩)
      else none
  | .after v => afterValue r.stack v b

def run : Reader → CStr → Option Reader
  | r, [] => some r
  | r, b :: s => (r.step b).bind fun r ↦ r.run s

def result (r : Reader) : Option Json :=
  match r.mode, r.stack with
  | .after v, [] => some v
  | .num st acc, [] => if st.final then some (.num acc) else none
  | _, _ => none

end Reader

def parse (s : CStr) : Option Json := (Reader.run ⟨.value, []⟩ s).bind Reader.result

/-- The members of an object under a name, in order. -/
def membersOf (name : CStr) : Json → List Json
  | .obj ms => (ms.filter fun m ↦ m.1 = name).map Prod.snd
  | _ => []

/-- The first member under a name, if it is a string. -/
def text (v : Json) (name : String) : Option CStr :=
  match v.membersOf (ascii name) with
  | .str s :: _ => some s
  | _ => none

/-- The first member under a name, if it is a natural number. -/
def nat (v : Json) (name : String) : Option ℕ :=
  match v.membersOf (ascii name) with
  | .num s :: _ => readDecimal s
  | _ => none

/-! ## Running -/

theorem StrState.run_append (st : StrState) (s t : CStr) :
    st.run (s ++ t) = (st.run s).bind fun (st', out) ↦
      (st'.run t).map fun (st'', out') ↦ (st'', out ++ out') := by
  induction s generalizing st with
  | nil =>
    rw [List.nil_append, StrState.run, Option.bind_some]
    dsimp only
    cases st.run t with
    | none => rfl
    | some p => rfl
  | cons b s ih =>
    rw [List.cons_append, StrState.run, StrState.run]
    cases st.step b with
    | none => rfl
    | some p =>
      obtain ⟨st', out⟩ := p
      simp only [Option.bind_some, ih]
      cases st'.run s with
      | none => rfl
      | some q =>
        obtain ⟨st'', out'⟩ := q
        simp only [Option.bind_some, Option.map_some]
        cases st''.run t with
        | none => rfl
        | some p => simp only [Option.map_some, List.append_assoc]

theorem Reader.run_append (r : Reader) (s t : CStr) :
    r.run (s ++ t) = (r.run s).bind fun r ↦ r.run t := by
  induction s generalizing r with
  | nil => rfl
  | cons b s ih =>
    rw [List.cons_append, Reader.run, Reader.run, Option.bind_assoc]
    congr 1
    exact funext fun r ↦ ih r

theorem Reader.run_append_of_eq {r q : Reader} {s : CStr} (h : r.run s = some q) (t : CStr) :
    r.run (s ++ t) = q.run t := by
  rw [Reader.run_append, h, Option.bind_some]

theorem Reader.run_cons_of_eq {r q : Reader} {b : UInt8} (h : r.step b = some q) (s : CStr) :
    r.run (b :: s) = q.run s := by
  rw [Reader.run, h, Option.bind_some]

theorem Reader.run_str {st st' : StrState} {s out : CStr} (h : st.run s = some (st', out))
    (acc : CStr) (stack : List Frame) :
    Reader.run ⟨.str st acc, stack⟩ s = some ⟨.str st' (acc ++ out), stack⟩ := by
  induction s generalizing st acc out with
  | nil =>
    rw [StrState.run, Option.some_inj, Prod.mk.injEq] at h
    rw [← h.1, ← h.2, List.append_nil]
    rfl
  | cons b s ih =>
    rw [StrState.run, Option.bind_eq_some_iff] at h
    obtain ⟨⟨st₁, out₁⟩, hstep, hrest⟩ := h
    obtain ⟨⟨st₂, out₂⟩, hrun, heq⟩ := Option.map_eq_some_iff.mp hrest
    rw [Prod.mk.injEq] at heq
    have hquote : ¬ (st = .body ∧ b = 34) := by
      rintro ⟨rfl, rfl⟩
      exact absurd hstep (by simp [StrState.step])
    have hone : Reader.step ⟨.str st acc, stack⟩ b = some ⟨.str st₁ (acc ++ out₁), stack⟩ := by
      rw [Reader.step]
      dsimp only
      rw [if_neg hquote, hstep]
      rfl
    rw [Reader.run_cons_of_eq hone, ih (heq.1 ▸ hrun), ← heq.2, List.append_assoc]

end Json

end NetForensics
