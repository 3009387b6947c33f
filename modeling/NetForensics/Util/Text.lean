import Mathlib.Data.UInt
import Mathlib.Tactic
import NetForensics.Util.Double

/-!
# C strings and the conversions of `snprintf`

A C string is the list of bytes before its terminating NUL. Only the conversions the program uses
are here: `%s` into a sized buffer, `%u`/`%llu`, `%x` with and without zero padding, and `%.kf` of a
non-negative value.

A line of the wire format is a JSON object printed member by member. `member_cancel` is the one
fact needed to read such a line back: a value without a comma is determined by the text it
starts.
-/

namespace NetForensics

/-- The bytes of a C string, without the NUL. -/
abbrev CStr := List UInt8

/-- What is said of every byte of a string is decided along the string. -/
instance {P : UInt8 → Prop} [DecidablePred P] (s : CStr) : Decidable (∀ b ∈ s, P b) :=
  List.decidableBAll P s

/-- The bytes of a literal. -/
def ascii (s : String) : CStr := s.toList.map fun c ↦ UInt8.ofNat c.toNat

/-- `snprintf(buf, size, "%s", s)`: what a buffer of `size` bytes holds afterwards. -/
def copyStr (size : ℕ) (s : CStr) : CStr := s.take (size - 1)

/-- The bytes of a number in the given base, lower case, without padding. -/
def numeral (base n : ℕ) : CStr := (Nat.toDigits base n).map fun c ↦ UInt8.ofNat c.toNat

/-- `%u` and `%llu`. -/
def decimal (n : ℕ) : CStr := numeral 10 n

/-- `%x`. -/
def hex (n : ℕ) : CStr := numeral 16 n

/-- Zero padding on the left, as in `%04d` and `%08x`. -/
def zeroPad (width : ℕ) (s : CStr) : CStr := List.replicate (width - s.length) 48 ++ s

/-- `%.0f` of a non-negative value. -/
def fixed0 (q : ℚ) : CStr := decimal (roundHalfEven q)

/-- `%.kf` of a non-negative value, for `k` at least one. -/
def fixed (k : ℕ) (q : ℚ) : CStr :=
  let m := roundHalfEven (q * 10 ^ k)
  decimal (m / 10 ^ k) ++ 46 :: zeroPad k (decimal (m % 10 ^ k))

/-! ## Which bytes a conversion can produce -/

theorem forall_byte {P : UInt8 → Prop} (h : ∀ n : Fin 256, P (UInt8.ofNat n)) (b : UInt8) :
    P b := by
  have hb := h ⟨b.toNat, b.toNat_lt⟩
  rwa [UInt8.ofNat_toNat] at hb

/-- The bytes of addresses, ids and numbers: hexadecimal digits, dots and colons. -/
def isToken (b : UInt8) : Bool := (48 ≤ b && b ≤ 58) || (97 ≤ b && b ≤ 102) || b == 46

def Token (s : CStr) : Prop := ∀ b ∈ s, isToken b = true

theorem Token.append {s t : CStr} (hs : Token s) (ht : Token t) : Token (s ++ t) := by
  intro b hb
  rcases List.mem_append.mp hb with h | h
  · exact hs b h
  · exact ht b h

theorem Token.cons {b : UInt8} {s : CStr} (hb : isToken b = true) (hs : Token s) :
    Token (b :: s) := by
  intro c hc
  rcases List.mem_cons.mp hc with rfl | h
  · exact hb
  · exact hs c h

theorem Token.nil : Token [] := fun _ hb ↦ absurd hb List.not_mem_nil

theorem Token.notMem {s : CStr} (hs : Token s) {b : UInt8} (hb : isToken b = false) : b ∉ s := by
  intro h
  rw [hs b h] at hb
  exact Bool.noConfusion hb

theorem Token.lt {s : CStr} (hs : Token s) {b : UInt8} (hb : b ∈ s) : b < 128 := by
  have hb' := hs b hb
  rw [isToken, Bool.or_eq_true, Bool.or_eq_true, Bool.and_eq_true, Bool.and_eq_true,
    decide_eq_true_iff, decide_eq_true_iff, decide_eq_true_iff, decide_eq_true_iff,
    beq_iff_eq] at hb'
  rcases hb' with (⟨-, hhigh⟩ | ⟨-, hhigh⟩) | rfl
  · exact UInt8.lt_of_le_of_lt hhigh (by decide)
  · exact UInt8.lt_of_le_of_lt hhigh (by decide)
  · decide

private theorem isToken_digitChar {n : ℕ} (h : n < 16) :
    isToken (UInt8.ofNat n.digitChar.toNat) = true := by
  interval_cases n <;> decide

private theorem token_toDigits {base : ℕ} (h1 : 1 < base) (h2 : base ≤ 16) (n : ℕ) :
    Token ((Nat.toDigits base n).map fun c ↦ UInt8.ofNat c.toNat) := by
  induction n using Nat.strong_induction_on with
  | _ n ih =>
    rcases lt_or_ge n base with hlt | hge
    · rw [Nat.toDigits_of_lt_base hlt]
      exact Token.cons (isToken_digitChar (hlt.trans_le h2)) Token.nil
    · rw [Nat.toDigits_of_base_le h1 hge, List.map_append]
      refine Token.append (ih _ (Nat.div_lt_self (by omega) h1)) ?_
      exact Token.cons (isToken_digitChar ((Nat.mod_lt n (by omega)).trans_le h2)) Token.nil

theorem token_decimal (n : ℕ) : Token (decimal n) := token_toDigits (by norm_num) (by norm_num) n

theorem token_hex (n : ℕ) : Token (hex n) := token_toDigits (by norm_num) (by norm_num) n

theorem token_zeroPad {width : ℕ} {s : CStr} (hs : Token s) : Token (zeroPad width s) := by
  refine Token.append (fun b hb ↦ ?_) hs
  rw [List.eq_of_mem_replicate hb]
  decide

theorem token_copyStr {size : ℕ} {s : CStr} (hs : Token s) : Token (copyStr size s) :=
  fun b hb ↦ hs b (List.mem_of_mem_take hb)

theorem decimal_ne_nil (n : ℕ) : decimal n ≠ [] := by
  rw [decimal, numeral, Ne, List.map_eq_nil_iff]
  exact Nat.toDigits_ne_nil

theorem hex_ne_nil (n : ℕ) : hex n ≠ [] := by
  rw [hex, numeral, Ne, List.map_eq_nil_iff]
  exact Nat.toDigits_ne_nil

/-! ## Numerals determine their number -/

private theorem toNat_of_isDigit {c : Char} (h : c.isDigit) : 48 ≤ c.toNat ∧ c.toNat ≤ 57 := by
  rw [Char.isDigit, Bool.and_eq_true, decide_eq_true_iff, decide_eq_true_iff] at h
  exact ⟨UInt32.le_iff_toNat_le.mp h.1, UInt32.le_iff_toNat_le.mp h.2⟩

private theorem toNat_ofNat_isDigit {c : Char} (h : c.isDigit) :
    (UInt8.ofNat c.toNat).toNat = c.toNat := by
  have := toNat_of_isDigit h
  rw [UInt8.toNat_ofNat']
  exact Nat.mod_eq_of_lt (by omega)

theorem toNat_of_mem_decimal {n : ℕ} {b : UInt8} (h : b ∈ decimal n) :
    48 ≤ b.toNat ∧ b.toNat ≤ 57 := by
  obtain ⟨c, hmem, rfl⟩ := List.mem_map.mp h
  have hd : c.isDigit := Nat.isDigit_of_mem_toDigits (by norm_num) (by norm_num) hmem
  rw [toNat_ofNat_isDigit hd]
  exact toNat_of_isDigit hd

theorem decimal_eq_cons {n : ℕ} (h : n ≠ 0) :
    ∃ b s, decimal n = b :: s ∧ 49 ≤ b.toNat ∧ b.toNat ≤ 57 := by
  rw [decimal, numeral]
  induction n using Nat.strong_induction_on with
  | _ n ih =>
    rcases lt_or_ge n 10 with hlt | hge
    · rw [Nat.toDigits_of_lt_base hlt]
      refine ⟨_, [], rfl, ?_⟩
      interval_cases n <;> first | exact absurd rfl h | decide
    · obtain ⟨b, s, heq, hb⟩ := ih (n / 10) (Nat.div_lt_self (by omega) (by omega)) (by omega)
      rw [Nat.toDigits_of_base_le (by omega) hge, List.map_append, heq]
      exact ⟨b, _, rfl, hb⟩

private theorem map_char_decimal (n : ℕ) :
    (decimal n).map (fun b ↦ Char.ofNat b.toNat) = Nat.toDigits 10 n := by
  rw [decimal, numeral, List.map_map]
  have hid : ∀ c ∈ Nat.toDigits 10 n,
      ((fun b : UInt8 ↦ Char.ofNat b.toNat) ∘ fun c : Char ↦ UInt8.ofNat c.toNat) c = id c := by
    intro c hc
    have hd : c.isDigit := Nat.isDigit_of_mem_toDigits (by norm_num) (by norm_num) hc
    rw [Function.comp_apply, toNat_ofNat_isDigit hd, Char.ofNat_toNat, id]
  rw [List.map_congr_left hid, List.map_id]

theorem decimal_injective : Function.Injective decimal := by
  intro m n h
  have hdig : Nat.toDigits 10 m = Nat.toDigits 10 n := by
    rw [← map_char_decimal m, ← map_char_decimal n, h]
  rw [← Nat.ofDigitChars_ten_toDigits (n := m), hdig, Nat.ofDigitChars_ten_toDigits]

/-- The number a run of decimal digits stands for. -/
def readDecimal (s : CStr) : Option ℕ :=
  if s ≠ [] ∧ ∀ b ∈ s, 48 ≤ b.toNat ∧ b.toNat ≤ 57 then
    some (s.foldl (fun n b ↦ 10 * n + (b.toNat - 48)) 0)
  else none

theorem readDecimal_decimal (n : ℕ) : readDecimal (decimal n) = some n := by
  have hfold : ∀ (cs : List Char), (∀ c ∈ cs, c.isDigit) → ∀ init : ℕ,
      (cs.map fun c ↦ UInt8.ofNat c.toNat).foldl (fun n b ↦ 10 * n + (b.toNat - 48)) init
        = Nat.ofDigitChars 10 cs init := by
    intro cs
    induction cs with
    | nil => exact fun _ init ↦ (Nat.ofDigitChars_nil).symm
    | cons c cs ih =>
      intro h init
      rw [List.map_cons, List.foldl_cons, Nat.ofDigitChars_cons,
        toNat_ofNat_isDigit (h c List.mem_cons_self),
        ih fun d hd ↦ h d (List.mem_cons_of_mem c hd)]
      rfl
  rw [readDecimal, if_pos ⟨decimal_ne_nil n, fun b hb ↦ toNat_of_mem_decimal hb⟩, decimal, numeral,
    hfold _ fun c hc ↦ Nat.isDigit_of_mem_toDigits (by norm_num) (by norm_num) hc,
    Nat.ofDigitChars_ten_toDigits]

def digits (n : ℕ) : ℕ := (decimal n).length

theorem length_zeroPad {width : ℕ} {s : CStr} (h : s.length ≤ width) :
    (zeroPad width s).length = width := by
  rw [zeroPad, List.length_append, List.length_replicate, Nat.sub_add_cancel h]

theorem length_decimal_le {n k : ℕ} (hk : 0 < k) (h : n < 10 ^ k) : (decimal n).length ≤ k := by
  rw [decimal, numeral, List.length_map]
  exact (Nat.length_toDigits_le_iff (by norm_num) hk).mpr h

/-! ## Copies into buffers -/

theorem copyStr_of_length_lt {size : ℕ} {s : CStr} (h : s.length < size) : copyStr size s = s :=
  List.take_of_length_le (by omega)

theorem length_copyStr_lt {size : ℕ} (hsize : 0 < size) (s : CStr) :
    (copyStr size s).length < size := by
  rw [copyStr, List.length_take]
  omega

/-! ## Objects on one line -/

/-- A value between quotes, printed as it is: the formatters do not escape. -/
def quoted (s : CStr) : CStr := 34 :: s ++ [34]

/-- `"name":value` -/
def member (name : String) (value : CStr) : CStr := quoted (ascii name) ++ 58 :: value

def memberList : List (String × CStr) → CStr
  | [] => []
  | [m] => member m.1 m.2
  | m :: n :: ms => member m.1 m.2 ++ 44 :: memberList (n :: ms)

/-- `{"name":value,…}` -/
def object (ms : List (String × CStr)) : CStr := 123 :: memberList ms ++ [125]

theorem length_ascii (s : String) : (ascii s).length = s.toList.length := List.length_map _

theorem length_quoted (s : CStr) : (quoted s).length = s.length + 2 := by
  rw [quoted, List.length_append, List.length_cons, List.length_singleton]

/-- The size of an object: four marks for each member, and one more brace. -/
theorem length_object {ms : List (String × CStr)} (h : ms ≠ []) :
    (object ms).length = 1 + (ms.map fun m ↦ m.1.toList.length + m.2.length + 4).sum := by
  have hlist : (memberList ms).length + 1
      = (ms.map fun m ↦ m.1.toList.length + m.2.length + 4).sum := by
    induction ms with
    | nil => exact absurd rfl h
    | cons m ms ih =>
      cases ms with
      | nil =>
        simp only [memberList, member, length_quoted, length_ascii, List.length_cons,
          List.length_append, List.map_cons, List.map_nil, List.sum_cons, List.sum_nil]
        omega
      | cons n ms =>
        rw [List.map_cons, List.sum_cons, ← ih (List.cons_ne_nil n ms), memberList, member]
        simp only [length_quoted, length_ascii, List.length_cons, List.length_append]
        omega
  rw [object, List.length_append, List.length_cons, List.length_singleton]
  omega

theorem comma_notMem_of_token {s : CStr} (hs : Token s) : 44 ∉ s := hs.notMem (by decide)

theorem comma_notMem_quoted {s : CStr} (hs : Token s) : 44 ∉ quoted s := by
  rw [quoted, List.cons_append, List.mem_cons, List.mem_append, List.mem_singleton]
  have := comma_notMem_of_token hs
  rintro (h | h | h)
  · exact absurd h (by decide)
  · exact this h
  · exact absurd h (by decide)

theorem quoted_injective : Function.Injective quoted := by
  intro s t h
  rw [quoted, quoted, List.cons_append, List.cons_append, List.cons.injEq] at h
  exact List.append_cancel_right h.2

/-- Text up to the first delimiter is determined by the whole. -/
private theorem append_cons_cancel {α : Type*} {d : α} {r s : List α} :
    ∀ {v w : List α}, d ∉ v → d ∉ w → v ++ d :: r = w ++ d :: s → v = w ∧ r = s
  | [], [], _, _, h => ⟨rfl, (List.cons.inj h).2⟩
  | [], b :: w, _, hw, h => by
    have hb : d = b := (List.cons.inj h).1
    exact absurd (hb ▸ List.mem_cons_self) hw
  | a :: v, [], hv, _, h => by
    have ha : a = d := (List.cons.inj h).1
    exact absurd (ha ▸ List.mem_cons_self) hv
  | a :: v, b :: w, hv, hw, h => by
    obtain ⟨hab, htail⟩ := List.cons.inj h
    obtain ⟨hvw, hrs⟩ := append_cons_cancel (fun hm ↦ hv (List.mem_cons_of_mem a hm))
      (fun hm ↦ hw (List.mem_cons_of_mem b hm)) htail
    exact ⟨by rw [hab, hvw], hrs⟩

theorem member_cancel {name : String} {v w r s : CStr} (hv : 44 ∉ v) (hw : 44 ∉ w)
    (h : member name v ++ 44 :: r = member name w ++ 44 :: s) : v = w ∧ r = s := by
  rw [member, member, List.append_assoc, List.append_assoc] at h
  exact append_cons_cancel hv hw (List.cons.inj (List.append_cancel_left h)).2

/-- The text of an object determines its leading members, as far as their values are known or free
of commas. -/
theorem memberList_take_cancel (k : ℕ) {l l' : List (String × CStr)} (hl : k < l.length)
    (hl' : k < l'.length)
    (hval : ∀ p ∈ (l.take k).zip (l'.take k),
      p.1.1 = p.2.1 ∧ (p.1.2 = p.2.2 ∨ (44 ∉ p.1.2 ∧ 44 ∉ p.2.2)))
    (h : memberList l = memberList l') : l.take k = l'.take k := by
  induction k generalizing l l' with
  | zero => rw [List.take_zero, List.take_zero]
  | succ k ih =>
    match l, l', hl, hl' with
    | (a, v) :: n :: ms, (b, w) :: n' :: ms', hl, hl' =>
      have hhead := hval ((a, v), (b, w)) List.mem_cons_self
      have hname : a = b := hhead.1
      subst hname
      rw [memberList, memberList] at h
      have hrest : v = w ∧ memberList (n :: ms) = memberList (n' :: ms') := by
        rcases hhead.2 with heq | ⟨hv, hw⟩
        · have hvw : v = w := heq
          subst hvw
          exact ⟨rfl, (List.cons.inj (List.append_cancel_left h)).2⟩
        · exact member_cancel hv hw h
      have htail := ih (Nat.lt_of_succ_lt_succ hl) (Nat.lt_of_succ_lt_succ hl')
        (fun p hp ↦ hval p (List.mem_cons_of_mem _ hp)) hrest.2
      rw [List.take_succ_cons, List.take_succ_cons, htail, hrest.1]

theorem memberList_of_object {l l' : List (String × CStr)} (h : object l = object l') :
    memberList l = memberList l' := by
  rw [object, object, List.cons_append, List.cons_append, List.cons.injEq] at h
  exact List.append_cancel_right h.2

end NetForensics
