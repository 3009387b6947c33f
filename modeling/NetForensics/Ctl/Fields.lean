import NetForensics.Ctl.Brackets
import NetForensics.Ipc.Handler

/-!
# One field

What the control client makes of a member of an object, when the name and the value are printed the
way the request handler prints them: a string without quotes and backslashes, a numeral, a truth
value, or something nested.
-/

namespace NetForensics

open Json

/-- The string can be printed, sent as a part of a line and read back byte by byte. -/
def Clear (s : CStr) : Prop := ∀ b ∈ s, b ≠ 0 ∧ b ≠ 10 ∧ b ≠ 34 ∧ b ≠ 92

instance (s : CStr) : Decidable (Clear s) := inferInstanceAs (Decidable (∀ b ∈ s, _))

theorem Clear.quote_notMem {s : CStr} (h : Clear s) : 34 ∉ s := fun hmem ↦ (h 34 hmem).2.2.1 rfl

theorem Clear.backslash_notMem {s : CStr} (h : Clear s) : 92 ∉ s :=
  fun hmem ↦ (h 92 hmem).2.2.2 rfl

/-- Nothing in the text ends a line or a C string. -/
def OneLine (s : CStr) : Prop := ∀ b ∈ s, b ≠ 0 ∧ b ≠ 10

instance (s : CStr) : Decidable (OneLine s) := inferInstanceAs (Decidable (∀ b ∈ s, _))

theorem Clear.oneLine {s : CStr} (h : Clear s) : OneLine s := fun b hb ↦
  ⟨(h b hb).1, (h b hb).2.1⟩

theorem OneLine.quoted {s : CStr} (h : OneLine s) : OneLine (quoted s) := by
  simp only [OneLine, NetForensics.quoted, List.cons_append, List.forall_mem_cons,
    List.forall_mem_append]
  exact ⟨by decide, h, by decide, List.forall_mem_nil _⟩

theorem clear_of_safe {s : CStr} (h : Safe s) : Clear s := by
  intro b hb
  obtain ⟨hlow, -, hquote, hback⟩ := h b hb
  refine ⟨?_, ?_, hquote, hback⟩
  · rintro rfl
    exact absurd hlow (by decide)
  · rintro rfl
    exact absurd hlow (by decide)

/-! ## Strings -/

/-- Text without quotes and backslashes is copied as far as there is room. -/
theorem readString_append {s : CStr} (hquote : 34 ∉ s) (hback : 92 ∉ s) {room : ℕ}
    (hroom : s.length ≤ room) (t : CStr) :
    readString room (s ++ t)
      = (s ++ (readString (room - s.length) t).1, (readString (room - s.length) t).2) := by
  induction s generalizing room with
  | nil => rfl
  | cons b s ih =>
    obtain ⟨hb, hs⟩ := not_or.mp fun h ↦ hquote (List.mem_cons.mpr h)
    obtain ⟨hb', hs'⟩ := not_or.mp fun h ↦ hback (List.mem_cons.mpr h)
    obtain ⟨room, rfl⟩ := Nat.exists_eq_add_of_lt (Nat.lt_of_lt_of_le (Nat.succ_pos _) hroom)
    rw [zero_add, List.length_cons] at *
    have hstep : readString (room + 1) (b :: (s ++ t))
        = (b :: (readString room (s ++ t)).1, (readString room (s ++ t)).2) :=
      readString.eq_5 _ _ _ (fun heq ↦ hb heq.symm) fun _ _ heq _ ↦ hb' heq.symm
    rw [List.cons_append, hstep, ih hs hs' (by omega), Nat.add_sub_add_right]
    rfl

theorem readString_quote (room : ℕ) (t : CStr) : readString room (34 :: t) = ([], 34 :: t) := by
  cases room <;> rfl

theorem readString_nil (room : ℕ) : readString room [] = ([], []) := by
  cases room <;> rfl

theorem readString_closed {s : CStr} (hquote : 34 ∉ s) (hback : 92 ∉ s) {room : ℕ}
    (hroom : s.length ≤ room) (t : CStr) : readString room (s ++ 34 :: t) = (s, 34 :: t) := by
  rw [readString_append hquote hback hroom, readString_quote, List.append_nil]

theorem readString_open {s : CStr} (hquote : 34 ∉ s) (hback : 92 ∉ s) {room : ℕ}
    (hroom : s.length ≤ room) : readString room s = (s, []) := by
  have happend := readString_append hquote hback hroom []
  simpa only [readString_nil, List.append_nil] using happend

/-! ## Numbers -/

def Numeral (s : CStr) : Prop :=
  ∃ sign whole part : CStr, s = sign ++ (whole ++ part) ∧ (sign = [] ∨ sign = [45]) ∧
    (whole ≠ [] ∧ Digits whole) ∧ (part = [] ∨ ∃ e, e ≠ [] ∧ Digits e ∧ part = 46 :: e)

theorem isDigit_of_digits {s : CStr} (h : Digits s) : ∀ b ∈ s, isDigit b = true := by
  intro b hb
  obtain ⟨hlow, hhigh⟩ := h b hb
  rw [isDigit, decide_eq_true hlow, decide_eq_true hhigh]
  rfl

theorem numeral_decimal (n : ℕ) : Numeral (decimal n) :=
  ⟨[], decimal n, [], (List.append_nil _).symm, Or.inl rfl, ⟨decimal_ne_nil n, digits_decimal n⟩,
    Or.inl rfl⟩

theorem numeral_signedDecimal (n : ℤ) : Numeral (signedDecimal n) := by
  rw [signedDecimal]
  split
  · exact ⟨[45], decimal n.natAbs, [], by rw [List.append_nil]; rfl, Or.inr rfl,
      ⟨decimal_ne_nil _, digits_decimal _⟩, Or.inl rfl⟩
  · exact numeral_decimal n.natAbs

theorem numeral_fixed (k : ℕ) (q : ℚ) : Numeral (fixed k q) := by
  rw [fixed]
  exact ⟨[], decimal _, _, rfl, Or.inl rfl, ⟨decimal_ne_nil _, digits_decimal _⟩,
    Or.inr ⟨_, zeroPad_ne_nil (decimal_ne_nil _), digits_zeroPad (digits_decimal _) k, rfl⟩⟩

def EndsField (c : UInt8) : Prop := c = 44 ∨ c = 125

theorem EndsField.notDigit {c : UInt8} (h : EndsField c) : isDigit c = false := by
  rcases h with rfl | rfl <;> decide

theorem takeWhile_digits {s : CStr} (h : Digits s) {c : UInt8} (hc : isDigit c = false) (t : CStr) :
    (s ++ c :: t).takeWhile isDigit = s := by
  rw [List.takeWhile_append_of_pos (isDigit_of_digits h), List.takeWhile_cons_of_neg
    (by rw [hc]; exact Bool.false_ne_true), List.append_nil]

theorem mantissaLength_numeral {whole part : CStr} (hwhole : whole ≠ [] ∧ Digits whole)
    (hpart : part = [] ∨ ∃ e, e ≠ [] ∧ Digits e ∧ part = 46 :: e) {c : UInt8} (hc : EndsField c)
    (t : CStr) :
    mantissaLength isDigit (whole ++ (part ++ c :: t)) = (whole ++ part).length := by
  have hpos : whole.length ≠ 0 := fun h ↦ hwhole.1 (List.length_eq_zero_iff.mp h)
  rcases hpart with rfl | ⟨e, -, hdigits, rfl⟩
  · rw [List.nil_append, List.append_nil, mantissaLength, takeWhile_digits hwhole.2 hc.notDigit,
      List.drop_left]
    rcases hc with rfl | rfl <;> rfl
  · rw [List.cons_append, mantissaLength, takeWhile_digits hwhole.2 (by decide), List.drop_left]
    change (if whole.length + ((e ++ c :: t).takeWhile isDigit).length = 0 then 0
      else whole.length + 1 + ((e ++ c :: t).takeWhile isDigit).length) = _
    rw [takeWhile_digits hdigits hc.notDigit, if_neg (by omega), List.length_append,
      List.length_cons]
    omega

theorem not_startsWithWord {w : UInt8} {word : CStr} {b : UInt8} (h : isDigit b = true)
    (hw : isDigit w = false) (s : CStr) : ¬ startsWithWord (w :: word) (b :: s) := by
  intro hstart
  rw [startsWithWord, List.map_cons, List.cons_prefix_cons] at hstart
  have hsame : (if 65 ≤ b ∧ b ≤ 90 then b + 32 else b) = b := by
    refine if_neg fun hletter ↦ ?_
    rw [isDigit, Bool.and_eq_true, decide_eq_true_iff, decide_eq_true_iff] at h
    exact absurd (UInt8.le_trans hletter.1 h.2) (by decide)
  rw [hstart.1, hsame, h] at hw
  exact Bool.noConfusion hw

/-- The second byte of a text is neither x nor X, if it is a digit, a point or a delimiter. -/
theorem not_startsWith_hex {a b : UInt8} (h : isDigit b = true ∨ b = 46 ∨ EndsField b) (s : CStr) :
    ¬ startsWithWord (ascii "0x") (a :: b :: s) := by
  have hx : (if 65 ≤ b ∧ b ≤ 90 then b + 32 else b) ≠ 120 := by
    rcases h with hdigit | rfl | rfl | rfl
    · exact forall_byte (P := fun b ↦ isDigit b = true →
        (if 65 ≤ b ∧ b ≤ 90 then b + 32 else b) ≠ 120) (by decide +kernel) b hdigit
    · decide
    · decide
    · decide
  intro hstart
  rw [startsWithWord, List.map_cons, List.map_cons] at hstart
  obtain ⟨-, htail⟩ := List.cons_prefix_cons.mp hstart
  exact hx (List.cons_prefix_cons.mp htail).1.symm

theorem unsignedLength_numeral {whole part : CStr} (hwhole : whole ≠ [] ∧ Digits whole)
    (hpart : part = [] ∨ ∃ e, e ≠ [] ∧ Digits e ∧ part = 46 :: e) {c : UInt8} (hc : EndsField c)
    (t : CStr) : unsignedLength (whole ++ (part ++ c :: t)) = (whole ++ part).length := by
  have hmantissa := mantissaLength_numeral hwhole hpart hc t
  have hlength : (whole ++ part).length ≠ 0 := by
    rw [List.length_append]
    have hpos : whole.length ≠ 0 := fun h ↦ hwhole.1 (List.length_eq_zero_iff.mp h)
    omega
  have hdrop : (whole ++ (part ++ c :: t)).drop (whole ++ part).length = c :: t := by
    rw [← List.append_assoc, List.drop_left]
  obtain ⟨a, whole, rfl⟩ := List.exists_cons_of_ne_nil hwhole.1
  have hdigits := isDigit_of_digits hwhole.2
  have ha : isDigit a = true := hdigits a List.mem_cons_self
  have hhex : ¬ startsWithWord (ascii "0x") (a :: whole ++ (part ++ c :: t)) := by
    cases whole with
    | nil =>
      rcases hpart with rfl | ⟨e, -, -, rfl⟩
      · exact not_startsWith_hex (Or.inr (Or.inr hc)) t
      · exact not_startsWith_hex (Or.inr (Or.inl rfl)) _
    | cons b whole =>
      exact not_startsWith_hex (Or.inl (hdigits b (List.mem_cons_of_mem a List.mem_cons_self))) _
  have hexp : exponentLength (ascii "eE") (c :: t) = 0 := by
    rw [exponentLength]
    exact if_neg fun h ↦ absurd h.1 (by rcases hc with rfl | rfl <;> decide)
  have hword : ∀ w : String, isDigit ((ascii w).headD 48) = false →
      ¬ startsWithWord (ascii w) (a :: whole ++ (part ++ c :: t)) := by
    intro w hw
    cases hcase : ascii w with
    | nil => exact absurd (hcase ▸ hw) (by decide)
    | cons x word => exact not_startsWithWord ha (by rwa [hcase] at hw) _
  rw [unsignedLength, if_neg (hword "infinity" (by decide)), if_neg (hword "inf" (by decide)),
    if_neg (hword "nan" (by decide))]
  dsimp only
  rw [if_neg fun h ↦ hhex h.1, hmantissa, if_neg hlength, hdrop, hexp, Nat.add_zero]

theorem strtod_numeral {s : CStr} (h : Numeral s) {c : UInt8} (hc : EndsField c) (t : CStr) :
    strtod (s ++ c :: t) = (s, c :: t) := by
  obtain ⟨sign, whole, part, rfl, hsign, hwhole, hpart⟩ := h
  have hunsigned := unsignedLength_numeral hwhole hpart hc t
  have hlength : (whole ++ part).length ≠ 0 := by
    rw [List.length_append]
    have hpos : whole.length ≠ 0 := fun h ↦ hwhole.1 (List.length_eq_zero_iff.mp h)
    omega
  have hsplit : ∀ u : CStr, (u ++ c :: t).splitAt u.length = (u, c :: t) := fun u ↦ by
    rw [List.splitAt_eq, List.take_left, List.drop_left]
  rw [strtod]
  rcases hsign with rfl | rfl
  · obtain ⟨a, w, rfl⟩ := List.exists_cons_of_ne_nil hwhole.1
    have ha : isDigit a = true := isDigit_of_digits hwhole.2 a List.mem_cons_self
    have hplain : ¬ ((([] ++ (a :: w ++ part)) ++ c :: t).head? = some 43 ∨
        (([] ++ (a :: w ++ part)) ++ c :: t).head? = some 45) := by
      rintro (heq | heq)
      · exact absurd (Option.some_inj.mp heq ▸ ha) (by decide)
      · exact absurd (Option.some_inj.mp heq ▸ ha) (by decide)
    rw [if_neg hplain, List.drop_zero, List.nil_append, List.append_assoc, hunsigned,
      if_neg hlength, zero_add, ← List.append_assoc, hsplit]
  · have htext : [45] ++ (whole ++ part) ++ c :: t = 45 :: (whole ++ (part ++ c :: t)) := by
      rw [List.singleton_append, List.cons_append, List.append_assoc]
    have hlen : 1 + (whole ++ part).length = ([45] ++ (whole ++ part)).length := by
      rw [List.singleton_append, List.length_cons, Nat.add_comm]
    rw [htext, List.head?_cons, if_pos (Or.inr rfl), List.drop_one, List.tail_cons, hunsigned,
      if_neg hlength, hlen, ← htext, hsplit]

/-! ## Values -/

/-- Behind a name, the text is read to its end and sets the field to the value, if to any. -/
def Shows (text : CStr) (val : Option LuaValue) : Prop :=
  (∃ b ∈ text.head?, isBlank b = false) ∧
    ∀ c, EndsField c → ∀ t, readValue (text ++ c :: t) = some (val, c :: t)

theorem shows_quoted {s : CStr} (h : Clear s) (hlen : s.length ≤ 255) :
    Shows (quoted s) (some (.str s)) := by
  refine ⟨⟨34, rfl, by decide⟩, fun c _ t ↦ ?_⟩
  have htext : quoted s ++ c :: t = 34 :: (s ++ 34 :: c :: t) := by
    rw [quoted, List.append_assoc, List.cons_append, List.singleton_append]
  rw [htext, readValue, readString_closed h.quote_notMem h.backslash_notMem hlen]
  rfl

theorem shows_numeral {s : CStr} (h : Numeral s) : Shows s (some (.num s)) := by
  have hstrtod := fun c (hc : EndsField c) t ↦ strtod_numeral h hc t
  obtain ⟨b, u, rfl, hb⟩ : ∃ b u, s = b :: u ∧ (isDigit b = true ∨ b = 45) := by
    obtain ⟨sign, whole, part, rfl, rfl | rfl, hwhole, -⟩ := h
    · obtain ⟨b, w, rfl⟩ := List.exists_cons_of_ne_nil hwhole.1
      exact ⟨b, w ++ part, rfl, Or.inl (isDigit_of_digits hwhole.2 b List.mem_cons_self)⟩
    · exact ⟨45, whole ++ part, rfl, Or.inr rfl⟩
  have hspec : isBlank b = false ∧ b ≠ 34 ∧ b ≠ 116 ∧ b ≠ 102 := by
    exact forall_byte (P := fun b ↦ isDigit b = true ∨ b = 45 →
      isBlank b = false ∧ b ≠ 34 ∧ b ≠ 116 ∧ b ≠ 102) (by decide +kernel) b hb
  obtain ⟨hblank, hquote, htrue, hfalse⟩ := hspec
  refine ⟨⟨b, rfl, hblank⟩, fun c hc t ↦ ?_⟩
  have hdigit : isDigit b = true ∨ b = 45 ∨ b = 46 := hb.imp_right Or.inl
  rw [List.cons_append, readValue.eq_3 _ _ (fun heq ↦ hquote heq),
    if_neg (not_or.mpr ⟨htrue, hfalse⟩), if_pos hdigit, ← List.cons_append, hstrtod c hc t]

theorem shows_boolText (b : Bool) : Shows (boolText b) (some (.bool b)) := by
  cases b with
  | true =>
    refine ⟨⟨116, rfl, by decide⟩, fun c hc t ↦ ?_⟩
    rcases hc with rfl | rfl <;> rfl
  | false =>
    refine ⟨⟨102, rfl, by decide⟩, fun c hc t ↦ ?_⟩
    rcases hc with rfl | rfl <;> rfl

theorem shows_bracketed {b e : UInt8} (hb : b = 123 ∨ b = 91) (he : e = 125 ∨ e = 93) {s : CStr}
    (h : Level s) : Shows (b :: s ++ [e]) none := by
  have hclose : isOpening e = false ∧ isClosing e = true := by rcases he with rfl | rfl <;> decide
  refine ⟨⟨b, rfl, by rcases hb with rfl | rfl <;> decide⟩, fun c _ t ↦ ?_⟩
  have htext : b :: s ++ [e] ++ c :: t = b :: (s ++ e :: c :: t) := by
    rw [List.append_assoc, List.cons_append, List.singleton_append]
  have hskip : skipNested 0 (b :: (s ++ e :: c :: t)) = c :: t :=
    skipNested_bracketed (by rcases hb with rfl | rfl <;> decide) hclose h (c :: t)
  rw [htext]
  rcases hb with rfl | rfl
  · exact congrArg (fun u ↦ some (none, u)) hskip
  · exact congrArg (fun u ↦ some (none, u)) hskip

/-! ## One turn of the loop -/

/-- The name can be printed as the name of a field and is read back. -/
def FieldName (name : String) : Prop :=
  Safe (ascii name) ∧ Unbracketed (ascii name) ∧ (ascii name).length ≤ 63

instance (name : String) : Decidable (FieldName name) :=
  inferInstanceAs (Decidable (_ ∧ _ ∧ _))

theorem FieldName.quote_notMem {name : String} (h : FieldName name) : 34 ∉ ascii name :=
  (clear_of_safe h.1).quote_notMem

theorem readKey_name {name : String} (h : FieldName name) {v : CStr}
    (hv : ∃ b ∈ v.head?, isBlank b = false) :
    readKey (ascii name ++ 34 :: 58 :: v) = (ascii name, v) := by
  have hkey : ((ascii name ++ 34 :: 58 :: v).takeWhile (· ≠ 34)).take 63 = ascii name := by
    rw [takeWhile_append_cons h.quote_notMem, List.take_of_length_le h.2.2]
  obtain ⟨b, hb, hblank⟩ := hv
  obtain ⟨u, rfl⟩ := List.head?_eq_some_iff.mp (Option.mem_def.mp hb)
  have hvalue : (b :: u).dropWhile isBlank = b :: u :=
    List.dropWhile_cons_of_neg (by rw [hblank]; exact Bool.false_ne_true)
  rw [readKey, hkey, List.drop_left]
  exact Prod.ext rfl hvalue

theorem scanFields_member {name : String} (hname : FieldName name) {v : CStr}
    (hv : ∃ b ∈ v.head?, isBlank b = false) (fuel : ℕ) (fields : List (LuaKey × LuaValue)) :
    scanFields (fuel + 1) fields (member name v)
      = match readValue v with
        | none => fields
        | some (val, q) =>
          let fields := (val.map fun x ↦ (LuaKey.name (ascii name), x)).toList ++ fields
          let q := q.dropWhile fun b ↦ b = 32 ∨ b = 44 ∨ b = 9
          if q.head? = some 125 then fields else scanFields fuel fields q := by
  rw [member_eq, scanFields, List.dropWhile_cons_of_neg (by simp)]
  dsimp only
  rewrite [readKey_name hname hv]
  rfl

def addField (fields : List (LuaKey × LuaValue)) (name : String) (val : Option LuaValue) :
    List (LuaKey × LuaValue) :=
  (val.map fun x ↦ (LuaKey.name (ascii name), x)).toList ++ fields

theorem member_append (name : String) (v t : CStr) : member name v ++ t = member name (v ++ t) := by
  rw [member, member, List.append_assoc, List.cons_append]

theorem head?_append_of_shows {text : CStr} {val : Option LuaValue} (h : Shows text val)
    (t : CStr) : ∃ b ∈ (text ++ t).head?, isBlank b = false := by
  obtain ⟨⟨b, hb, hblank⟩, -⟩ := h
  refine ⟨b, ?_, hblank⟩
  obtain ⟨u, rfl⟩ := List.head?_eq_some_iff.mp (Option.mem_def.mp hb)
  rfl

theorem scanFields_comma {name : String} (hname : FieldName name) {text : CStr}
    {val : Option LuaValue} (h : Shows text val) (fuel : ℕ) (fields : List (LuaKey × LuaValue))
    (t : CStr) :
    scanFields (fuel + 1) fields (member name text ++ 44 :: 34 :: t)
      = scanFields fuel (addField fields name val) (34 :: t) := by
  rw [member_append, scanFields_member hname (head?_append_of_shows h _), h.2 44 (Or.inl rfl)]
  rfl

theorem scanFields_close {name : String} (hname : FieldName name) {text : CStr}
    {val : Option LuaValue} (h : Shows text val) (fuel : ℕ) (fields : List (LuaKey × LuaValue))
    (t : CStr) :
    scanFields (fuel + 1) fields (member name text ++ 125 :: t) = addField fields name val := by
  rw [member_append, scanFields_member hname (head?_append_of_shows h _), h.2 125 (Or.inr rfl)]
  rfl

theorem scanFields_cut {name : String} (hname : FieldName name) {s : CStr} (hs : Clear s)
    (hlen : s.length ≤ 255) (fuel : ℕ) (fields : List (LuaKey × LuaValue)) :
    scanFields (fuel + 1) fields (member name (34 :: s))
      = addField fields name (some (.str s)) := by
  have hend : scanFields fuel (addField fields name (some (.str s))) []
      = addField fields name (some (.str s)) := by cases fuel <;> rfl
  rw [scanFields_member hname ⟨34, rfl, by decide⟩, readValue,
    readString_open hs.quote_notMem hs.backslash_notMem hlen]
  exact hend

end NetForensics
