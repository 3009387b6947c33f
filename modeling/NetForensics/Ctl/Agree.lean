import NetForensics.Ctl.Answer
import NetForensics.Ctl.Kept
import NetForensics.Ipc.Lists

/-!
# The client against the agent

What the agent prints into an answer's data should be what `cpe_ctl` hands to Lua. For an object
that holds when its strings can be read back and `null` is not among its members; for an array it
does not hold, unless the array is empty: the loop over the fields makes one table, and sets in it
what it finds in the first row.
-/

namespace NetForensics

open Json

/-! ## What the client should make of an answer -/

/-- The value a member's text stands for, unless it is null, an object or an array. -/
def scalar : CStr → Option LuaValue
  | 34 :: s => some (.str s.dropLast)
  | 123 :: _ => none
  | 91 :: _ => none
  | 110 :: _ => none
  | 116 :: _ => some (.bool true)
  | 102 :: _ => some (.bool false)
  | s => some (.num s)

/-- The table has a field for every string, number and truth value among the members. -/
def HasMembers (fields : List (LuaKey × LuaValue)) (ms : List (String × CStr)) : Prop :=
  ∀ m ∈ ms, ∀ x ∈ scalar m.2, LuaValue.lookup (.name (ascii m.1)) fields = x

/-- What the client returns represents the data of the answer: an object is a table with its
members, and an array is a table with its elements at the indices from one on. -/
def Represents (res : Except CStr LuaValue) : IpcReply → Prop
  | .value _ data => ∀ ss : List CStr, data = array (ss.map quoted) →
    ∃ fields, res = .ok (.table fields) ∧
      ∀ (i : ℕ) (h : i < ss.length), LuaValue.lookup (.index (i + 1)) fields = .str ss[i]
  | .fields _ ms => ∃ fields, res = .ok (.table fields) ∧ HasMembers fields ms
  | .row _ ms => ∃ fields, res = .ok (.table fields) ∧ HasMembers fields ms
  | .rows _ rs => ∃ fields, res = .ok (.table fields) ∧
    (∀ (i : ℕ) (h : i < rs.length), ∃ sub, LuaValue.lookup (.index (i + 1)) fields = .table sub ∧
      HasMembers sub rs[i]) ∧
    LuaValue.lookup (.index (rs.length + 1)) fields = .nil
  | .flows rs count => ∃ fields, res = .ok (.table fields) ∧
    HasMembers fields [("flows", array (rs.map object)), ("count", decimal count)]
  | .error _ _ => True

/-- However the answer comes in, the client returns what represents it. -/
def Agrees (text : CStr) (reply : IpcReply) : Prop :=
  ∀ chunks, ArrivesAs (responseBytes text) chunks →
    Represents (ipcCall (clientResponse chunks)) reply

/-! ## Members as they are printed -/

namespace Printed

def number (text : CStr) : Printed := .lit text (some (.num text))

def word (s : CStr) : Printed := .lit (quoted s) (some (.str s))

def truth (b : Bool) : Printed := .lit (boolText b) (some (.bool b))

def inner (text : CStr) : Printed := .lit text none

/-- The member is as the agent prints it, and the client is to make of it what it was printed
from. -/
structure Fine (p : Printed) : Prop where
  ok : p.Ok
  scalar : NetForensics.scalar p.text = p.value

theorem scalar_quoted (s : CStr) : NetForensics.scalar (quoted s) = some (.str s) := by
  rw [quoted, List.cons_append, NetForensics.scalar, List.dropLast_concat]

theorem fine_raw {s : CStr} (h : s.length ≤ 255) : (raw s).Fine := ⟨h, scalar_quoted s⟩

theorem fine_word {s : CStr} (h : Word s) (hlen : s.length ≤ 255) : (word s).Fine where
  ok := by
    have htidy : Tidy ("", quoted s) := tidy_quoted (by decide) h
    exact ⟨shows_quoted (clear_of_word h) hlen, htidy.2.1, htidy.2.2.1, by simp, htidy.2.2.2⟩
  scalar := scalar_quoted s

theorem word_of_numeral {s : CStr} (h : Numeral s) : Word s := by
  have hdigits : ∀ {t : CStr}, Digits t → Word t := fun ht b hb ↦
    forall_byte (P := fun b ↦ 48 ≤ b ∧ b ≤ 57 → isWordByte b = true) (by decide +kernel) b (ht b hb)
  obtain ⟨sign, whole, part, rfl, hsign, hwhole, hpart⟩ := h
  have hs : Word sign := by rcases hsign with rfl | rfl <;> decide
  refine hs.append ((hdigits hwhole.2).append ?_)
  rcases hpart with rfl | ⟨e, -, he, rfl⟩
  · exact word_nil
  · exact .cons (by decide) (hdigits he)

theorem scalar_numeral {s : CStr} (h : Numeral s) :
    NetForensics.scalar s = some (.num s) := by
  obtain ⟨b, u, rfl, hb⟩ : ∃ b u, s = b :: u ∧ (48 ≤ b ∧ b ≤ 57 ∨ b = 45) := by
    obtain ⟨sign, whole, part, rfl, rfl | rfl, hwhole, -⟩ := h
    · obtain ⟨b, w, rfl⟩ := List.exists_cons_of_ne_nil hwhole.1
      exact ⟨b, w ++ part, rfl, Or.inl (hwhole.2 b List.mem_cons_self)⟩
    · exact ⟨45, whole ++ part, rfl, Or.inr rfl⟩
  have hspec : b ≠ 34 ∧ b ≠ 123 ∧ b ≠ 91 ∧ b ≠ 110 ∧ b ≠ 116 ∧ b ≠ 102 := by
    exact forall_byte (P := fun b ↦ (48 ≤ b ∧ b ≤ 57 ∨ b = 45) →
      b ≠ 34 ∧ b ≠ 123 ∧ b ≠ 91 ∧ b ≠ 110 ∧ b ≠ 116 ∧ b ≠ 102) (by decide +kernel) b hb
  obtain ⟨h₁, h₂, h₃, h₄, h₅, h₆⟩ := hspec
  unfold NetForensics.scalar
  split <;> simp_all

theorem fine_number {s : CStr} (h : Numeral s) : (number s).Fine where
  ok := by
    have htidy : Tidy ("", s) := tidy_of_word (by decide) (word_of_numeral h)
    exact ⟨shows_numeral h, htidy.2.1, htidy.2.2.1, by simp, htidy.2.2.2⟩
  scalar := scalar_numeral h

theorem fine_decimal (n : ℕ) : (number (decimal n)).Fine := fine_number (numeral_decimal n)

theorem fine_intText (n : ℤ) : (number (intText n)).Fine :=
  fine_number (numeral_signedDecimal _)

theorem fine_fixed (k : ℕ) (q : ℚ) : (number (fixed k q)).Fine := fine_number (numeral_fixed k q)

theorem fine_truth (b : Bool) : (truth b).Fine where
  ok := by
    have htidy : Tidy ("", boolText b) := tidy_bool (by decide) b
    exact ⟨shows_boolText b, htidy.2.1, htidy.2.2.1, by simp, htidy.2.2.2⟩
  scalar := by cases b <;> rfl

theorem bytes_of_tidy {ms : List (String × CStr)} (h : ∀ m ∈ ms, Tidy m) :
    ∀ b ∈ object ms, b ≠ 0 ∧ b ≠ 10 ∧ b ≠ 92 := by
  refine forall_mem_object (by decide) fun m hm ↦ ⟨fun b hb ↦ ?_, (h m hm).2.2.2⟩
  have hclear := clear_of_safe (h m hm).1.1.1 b hb
  exact ⟨hclear.1, hclear.2.1, hclear.2.2.2⟩

theorem fine_object {ms : List (String × CStr)} (h : ∀ m ∈ ms, Tidy m) :
    (inner (object ms)).Fine where
  ok := ⟨shows_bracketed (Or.inl rfl) (Or.inl rfl) (level_memberList fun m hm ↦
      ⟨(h m hm).1.1.2.1, (h m hm).2.1⟩), level_object_of_tidy h, skipsOk_object_of_tidy h, by simp,
    bytes_of_tidy h⟩
  scalar := rfl

theorem fine_rows {rows : List (List (String × CStr))} (h : ∀ ms ∈ rows, ∀ m ∈ ms, Tidy m) :
    (inner (array (rows.map object))).Fine where
  ok := by
    have hlevel : Level (elemList (rows.map object)) := by
      refine level_elemList fun s hs ↦ ?_
      obtain ⟨ms, hms, rfl⟩ := List.mem_map.mp hs
      exact level_object_of_tidy (h ms hms)
    have hskips : SkipsOk (array (rows.map object)) := by
      refine skipsOk_array fun s hs ↦ ?_
      obtain ⟨ms, hms, rfl⟩ := List.mem_map.mp hs
      exact skipsOk_object_of_tidy (h ms hms)
    have hbytes : ∀ b ∈ elemList (rows.map object), b ≠ 0 ∧ b ≠ 10 ∧ b ≠ 92 := by
      have hall : ∀ s ∈ rows.map object, ∀ b ∈ s, b ≠ 0 ∧ b ≠ 10 ∧ b ≠ 92 := by
        intro s hs
        obtain ⟨ms, hms, rfl⟩ := List.mem_map.mp hs
        exact bytes_of_tidy (h ms hms)
      generalize rows.map object = ss at hall
      fun_induction elemList ss with
      | case1 => exact fun b hb ↦ absurd hb List.not_mem_nil
      | case2 s => exact hall s List.mem_cons_self
      | case3 s t ss ih =>
        simp only [List.forall_mem_append, List.forall_mem_cons]
        exact ⟨hall s List.mem_cons_self, by decide,
          ih fun u hu ↦ hall u (List.mem_cons_of_mem s hu)⟩
    refine ⟨shows_bracketed (Or.inr rfl) (Or.inr rfl) hlevel,
      hlevel.bracketed (by decide) (by decide), hskips, by simp, ?_⟩
    simp only [array, List.cons_append, List.forall_mem_cons, List.forall_mem_append]
    exact ⟨by decide, hbytes, by decide, fun b hb ↦ absurd hb List.not_mem_nil⟩
  scalar := rfl

end Printed

/-! ## Answers with an object -/

theorem IpcReply.room_lt (reply : IpcReply) : reply.room < cpeIpcLineMax := by
  have hmax : cpeIpcLineMax = 8192 := rfl
  unfold room
  split <;> omega

/-- Strings that can be read back from where they are printed as they are. -/
def Undisturbed (ss : List CStr) : Prop := (∀ s ∈ ss, Clear s) ∧ NoExcess ss.flatten

section Objects

variable {items : List (String × Printed)}

theorem hasMembers_texts_iff (hfine : ∀ i ∈ items, i.2.Fine) (fields : List (LuaKey × LuaValue)) :
    HasMembers fields (texts items) ↔ HasFields fields items := by
  rw [HasMembers, texts, List.forall_mem_map, HasFields]
  refine forall₂_congr fun i hi ↦ ?_
  rw [(hfine i hi).scalar]

/-- The names, the sizes and the harmless texts of an object. -/
theorem layout_of_fine (hnames : FieldNames (items.map Prod.fst)) (hfine : ∀ i ∈ items, i.2.Fine)
    (hfollowed : Followed items) (hne : items ≠ []) : Layout items :=
  ⟨hnames, fun i hi ↦ (hfine i hi).ok, hfollowed, hne⟩

variable (hnames : FieldNames (items.map Prod.fst)) (hfine : ∀ i ∈ items, i.2.Fine)
  (hfollowed : Followed items) (hne : items ≠ [])

include hnames hfine hfollowed hne

theorem received_render_iff {verb : IpcVerb} {reply : IpcReply} {text : CStr}
    (htext : reply.render = some text) (hreply : reply.text = okText verb (object (texts items)))
    (hrep : ∀ res, Represents res reply ↔
      ∃ fields, res = .ok (.table fields) ∧ HasMembers fields (texts items)) :
    Agrees text reply ↔ (∀ s ∈ raws items, Clear s) ∧ NoExcess (exposed items) := by
  have hlayout := layout_of_fine hnames hfine hfollowed hne
  rw [IpcReply.render_eq, fitText_eq_some_iff] at htext
  obtain ⟨hlen, rfl⟩ := htext
  have hroom := reply.room_lt
  rw [hreply] at hlen
  have hreceived : Layout.Received verb items ↔
      (∀ s ∈ raws items, Clear s) ∧ NoExcess (exposed items) := hlayout.received_iff (by omega)
  rw [← hreceived, Agrees, Layout.Received, hreply]
  refine forall₂_congr fun chunks _ ↦ (hrep _).trans ?_
  exact exists_congr fun fields ↦ and_congr_right fun _ ↦ hasMembers_texts_iff hfine fields

theorem agrees_fields_iff {verb : IpcVerb} {text : CStr}
    (htext : (IpcReply.fields verb (texts items)).render = some text) :
    Agrees text (.fields verb (texts items)) ↔
      (∀ s ∈ raws items, Clear s) ∧ NoExcess (exposed items) :=
  received_render_iff hnames hfine hfollowed hne htext rfl fun _ ↦ Iff.rfl

end Objects

end NetForensics
