import NetForensics.Ipc.Handler

/-!
# What an answer looks like when it is printed

However an answer is put together, what is printed is its envelope with the data in it, or nothing
if that does not fit. Only the limits differ: a list and a row that were appended need three and two
bytes to spare, everything else only the one for the NUL.
-/

namespace NetForensics

open Json

theorem fitText_eq_some_iff {n : ℕ} {s t : CStr} : fitText n s = some t ↔ s.length < n ∧ t = s := by
  rw [fitText]
  split
  · rename_i h
    rw [Option.some_inj, and_iff_right h, eq_comm]
  · rename_i h
    exact iff_of_false (by simp) fun hc ↦ h hc.1

theorem fitText_of_lt {n : ℕ} {s : CStr} (h : s.length < n) : fitText n s = some s := if_pos h

theorem fitText_of_le {n : ℕ} {s : CStr} (h : n ≤ s.length) : fitText n s = none :=
  if_neg (not_lt.mpr h)

theorem okText_eq (verb : IpcVerb) (data : CStr) :
    okText verb data = okOpen verb ++ (data ++ [125]) := by
  simp [okText, okOpen, object, memberList, member]

theorem length_okOpen_lt (verb : IpcVerb) : (okOpen verb).length < 48 := by
  cases verb <;> decide

/-! ## Appending -/

theorem appendText_eq {buf text : CStr} (hbuf : buf.length < cpeIpcLineMax) :
    appendText buf text = fitText cpeIpcLineMax (buf ++ text) := by
  rw [appendText, fitText, List.length_append]
  exact if_congr (by omega) rfl rfl

theorem fitText_bind_of_eq {n : ℕ} {s t : CStr} {f : CStr → Option CStr}
    (h : s.length < n → f s = fitText n (s ++ t)) :
    (fitText n s).bind f = fitText n (s ++ t) := by
  by_cases hs : s.length < n
  · rw [fitText_of_lt hs, Option.bind_some, h hs]
  · rw [fitText_of_le (not_lt.mp hs), Option.bind_none, fitText_of_le]
    rw [List.length_append]
    omega

/-- Some marks at the end, for which two bytes more than their number are asked for. -/
theorem fitText_bind_marks (s t : CStr) :
    ((fitText cpeIpcLineMax s).bind fun buf ↦
      if buf.length + (t.length + 1) < cpeIpcLineMax then some (buf ++ t) else none)
      = fitText (cpeIpcLineMax - 2 + 1) (s ++ t) := by
  have hline : 2 ≤ cpeIpcLineMax := by decide
  by_cases hs : s.length < cpeIpcLineMax
  · rw [fitText_of_lt hs, Option.bind_some, fitText, List.length_append]
    exact if_congr (by omega) rfl rfl
  · rw [fitText_of_le (not_lt.mp hs), Option.bind_none, fitText_of_le]
    rw [List.length_append]
    omega

def commaRows (rows : List CStr) : CStr := rows.flatMap fun row ↦ 44 :: row

theorem elemList_cons (row : CStr) (rows : List CStr) :
    elemList (row :: rows) = row ++ commaRows rows := by
  induction rows generalizing row with
  | nil => rw [elemList, commaRows, List.flatMap_nil, List.append_nil]
  | cons next rows ih =>
    rw [elemList, ih, commaRows, commaRows, List.flatMap_cons, List.cons_append]

theorem appendRows_comma {buf : CStr} (hbuf : buf.length < cpeIpcLineMax) (rows : List CStr) :
    appendRows false buf rows = fitText cpeIpcLineMax (buf ++ commaRows rows) := by
  induction rows generalizing buf with
  | nil =>
    rw [appendRows, commaRows, List.flatMap_nil, List.append_nil, fitText_of_lt hbuf]
  | cons row rows ih =>
    have hsplit : buf ++ commaRows (row :: rows) = (buf ++ [44]) ++ row ++ commaRows rows := by
      simp [commaRows]
    rw [appendRows, if_neg Bool.false_ne_true, hsplit]
    by_cases hcomma : buf.length + 1 < cpeIpcLineMax
    · have hlen : (buf ++ [44]).length < cpeIpcLineMax := by
        rwa [List.length_append, List.length_singleton]
      rw [if_pos hcomma, Option.bind_some, appendText_eq hlen]
      exact fitText_bind_of_eq fun h ↦ ih h
    · rw [if_neg hcomma, Option.bind_none, fitText_of_le]
      simp only [List.length_append, List.length_singleton]
      omega

theorem appendRows_eq {buf : CStr} (hbuf : buf.length < cpeIpcLineMax) (rows : List CStr) :
    appendRows true buf rows = fitText cpeIpcLineMax (buf ++ elemList rows) := by
  cases rows with
  | nil => rw [appendRows, elemList, List.append_nil, fitText_of_lt hbuf]
  | cons row rows =>
    rw [appendRows, if_pos rfl, Option.bind_some, appendText_eq hbuf, elemList_cons,
      ← List.append_assoc]
    exact fitText_bind_of_eq fun h ↦ appendRows_comma h rows

theorem appendFlows_comma {buf : CStr} (hbuf : buf.length < cpeIpcLineMax) (rows : List CStr) :
    appendFlows false buf rows = fitText cpeIpcLineMax (buf ++ commaRows rows) := by
  induction rows generalizing buf with
  | nil =>
    rw [appendFlows, commaRows, List.flatMap_nil, List.append_nil, fitText_of_lt hbuf]
  | cons row rows ih =>
    have hsplit : buf ++ commaRows (row :: rows) = buf ++ 44 :: row ++ commaRows rows := by
      simp [commaRows]
    rw [appendFlows, if_neg Bool.false_ne_true, appendText_eq hbuf, hsplit]
    exact fitText_bind_of_eq fun h ↦ ih h

theorem appendFlows_eq {buf : CStr} (hbuf : buf.length < cpeIpcLineMax) (rows : List CStr) :
    appendFlows true buf rows = fitText cpeIpcLineMax (buf ++ elemList rows) := by
  cases rows with
  | nil => rw [appendFlows, elemList, List.append_nil, fitText_of_lt hbuf]
  | cons row rows =>
    rw [appendFlows, if_pos rfl, appendText_eq hbuf, elemList_cons, ← List.append_assoc]
    exact fitText_bind_of_eq fun h ↦ appendFlows_comma h rows

/-! ## The envelope -/

namespace IpcReply

/-- An answer as it would be printed with room enough. -/
def text : IpcReply → CStr
  | value verb data => okText verb data
  | fields verb ms => okText verb (object ms)
  | row verb ms => okText verb (object ms)
  | rows verb rs => okText verb (array (rs.map object))
  | flows rs count =>
    okText .flowList (object [("flows", array (rs.map object)), ("count", decimal count)])
  | error op msg =>
    errText (if op ≠ [] then op else ascii "unknown") (if msg ≠ [] then msg else ascii "error")

def room : IpcReply → ℕ
  | row _ _ | rows _ _ => cpeIpcLineMax - 2
  | value _ _ | fields _ _ | flows _ _ | error _ _ => cpeIpcLineMax - 1

/-- An answer is printed as its text, if there is room for it. -/
theorem render_eq (r : IpcReply) : r.render = fitText (r.room + 1) r.text := by
  have hline : 48 + 48 < cpeIpcLineMax := by decide
  cases r with
  | value verb data => rfl
  | fields verb ms => rfl
  | error op msg => rfl
  | row verb ms =>
    have hopen := length_okOpen_lt verb
    rw [render, appendText_eq (by omega), text, okText_eq, ← List.append_assoc]
    exact fitText_bind_marks _ [125]
  | rows verb rs =>
    have hopen := length_okOpen_lt verb
    have hbuf : (okOpen verb ++ [91]).length < cpeIpcLineMax := by
      rw [List.length_append, List.length_singleton]
      omega
    have hsplit : okText verb (array (rs.map object))
        = okOpen verb ++ [91] ++ elemList (rs.map object) ++ [93, 125] := by
      rw [okText_eq, array]
      simp
    rw [render, appendRows_eq hbuf, text, hsplit]
    exact fitText_bind_marks _ [93, 125]
  | flows rs count =>
    have hhead : (okOpen .flowList ++ 123 :: (quoted (ascii "flows") ++ [58, 91])).length
        < cpeIpcLineMax := by decide
    have hsplit : okText .flowList (object [("flows", array (rs.map object)),
          ("count", decimal count)])
        = okOpen .flowList ++ 123 :: (quoted (ascii "flows") ++ [58, 91]) ++
          elemList (rs.map object) ++
          93 :: 44 :: (member "count" (decimal count) ++ [125, 125]) := by
      rw [okText_eq, array]
      simp [object, memberList, member]
    rw [render, appendText_eq (by decide), List.nil_append, fitText_of_lt hhead, Option.bind_some,
      appendFlows_eq hhead, text, hsplit]
    exact fitText_bind_of_eq fun h ↦ appendText_eq h

end IpcReply

end NetForensics
