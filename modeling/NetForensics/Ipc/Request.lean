import NetForensics.Agent.Yaml
import NetForensics.Egress.Http
import NetForensics.Json.Print

/-!
# Reading a request

Requests are not parsed. `json_get_str` and `json_get_u32` look for the quoted key, wherever it
comes first in the line, and read what stands behind the colon after it. A string is copied byte by
byte: a backslash lets the next byte through, whatever it is, and what does not fit is cut off.
-/

namespace NetForensics

/-- The blanks a scanner skips. -/
def isBlank (b : UInt8) : Bool := b == 32 || b == 9

/-- What the two readers of a request point to: the text behind the colon. -/
def jsonValue (json : CStr) (key : String) : Option CStr :=
  match (afterFirst (quoted (ascii key)) json).map (List.dropWhile isBlank) with
  | some (58 :: rest) => some (rest.dropWhile isBlank)
  | _ => none

/-- The loop of `json_get_str`, for a buffer with room for so many bytes. -/
def copyQuoted : ℕ → CStr → CStr
  | 0, _ => []
  | _ + 1, [] => []
  | _ + 1, 34 :: _ => []
  | room + 1, 92 :: c :: s => c :: copyQuoted room s
  | room + 1, b :: s => b :: copyQuoted room s

/-- `json_get_str` -/
def jsonGetStr (json : CStr) (key : String) (outSz : ℕ) : Option CStr :=
  match jsonValue json key with
  | some (34 :: s) => some (copyQuoted (outSz - 1) s)
  | _ => none

/-- `json_get_u32`: digits may be followed by anything, and are cut to 32 bits. -/
def jsonGetU32 (json : CStr) (key : String) : Option UInt32 :=
  (jsonValue json key).bind fun s ↦ (strtoull s).map fun (v, _) ↦ UInt32.ofNat v

/-- The text `json_get_str` leaves in its buffer, which is empty if it finds none. -/
def requestField (json : CStr) (key : String) (outSz : ℕ) : CStr :=
  (jsonGetStr json key outSz).getD []

/-- The `op` of a request. -/
def requestOp (req : CStr) : CStr := requestField req "op" 48

/-! ## Requests as they are meant to be -/

open Json

theorem length_copyQuoted_le (room : ℕ) (s : CStr) : (copyQuoted room s).length ≤ room := by
  fun_induction copyQuoted room s with
  | case1 => exact le_rfl
  | case2 | case3 => exact Nat.zero_le _
  | case4 room c s ih => exact Nat.succ_le_succ ih
  | case5 room b s _ _ ih => exact Nat.succ_le_succ ih

theorem length_requestOp_lt (req : CStr) : (requestOp req).length < 48 := by
  rw [requestOp, requestField, jsonGetStr]
  split
  · exact Nat.lt_succ_of_le (length_copyQuoted_le _ _)
  · exact Nat.zero_lt_succ _

/-- Plain text is copied as it is, up to the quote that ends it. -/
theorem copyQuoted_of_plain {s : CStr} (h : Plain s) (room : ℕ) (t : CStr) :
    copyQuoted room (s ++ 34 :: t) = s.take room := by
  induction s generalizing room with
  | nil => cases room <;> rfl
  | cons b s ih =>
    obtain ⟨-, hquote, hback⟩ := h b List.mem_cons_self
    cases room with
    | zero => rfl
    | succ room =>
      have hstep : copyQuoted (room + 1) (b :: (s ++ 34 :: t))
          = b :: copyQuoted room (s ++ 34 :: t) :=
        copyQuoted.eq_5 _ _ _ (fun heq ↦ hquote heq) fun _ _ heq _ ↦ hback heq
      rw [List.cons_append, hstep, ih fun c hc ↦ h c (List.mem_cons_of_mem b hc),
        List.take_succ_cons]

end NetForensics
