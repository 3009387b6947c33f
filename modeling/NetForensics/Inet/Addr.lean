import NetForensics.Util.Text

/-!
# Addresses as text

`inet_ntop` and `inet_pton` of the C library, as the program uses them: presentation of IPv4 and
IPv6 addresses and parsing of dotted quads. IPv4 addresses are kept in host order, so the byte
swaps of `htonl` and `ntohl` around every call disappear.

The program compares addresses by their text. For IPv4 nothing is lost: parsing inverts printing
(`inetPton4_inetNtop4`), and an IPv6 text never parses (`inetPton4_of_colon`).
-/

namespace NetForensics

/-- An IPv6 address, in network order. -/
abbrev In6Addr := Fin 16 → UInt8

/-! ## IPv4 -/

/-- The four octets of an address in host order, most significant first. -/
def octets (a : UInt32) : List UInt8 :=
  [UInt8.ofNat (a.toNat / 2 ^ 24), UInt8.ofNat (a.toNat / 2 ^ 16), UInt8.ofNat (a.toNat / 2 ^ 8),
    UInt8.ofNat a.toNat]

def ofOctets (b₀ b₁ b₂ b₃ : UInt8) : UInt32 :=
  UInt32.ofNat (2 ^ 24 * b₀.toNat + 2 ^ 16 * b₁.toNat + 2 ^ 8 * b₂.toNat + b₃.toNat)

/-- `inet_ntop(AF_INET, …)`: the dotted quad. -/
def inetNtop4 (a : UInt32) : CStr :=
  List.intercalate [46] ((octets a).map fun b ↦ decimal b.toNat)

/-- One part of a dotted quad: decimal digits, at most 255, no leading zero. -/
def parseOctet (s : CStr) : Option UInt8 :=
  if s.all (fun b ↦ 48 ≤ b && b ≤ 57) && s ≠ [] && (s.length == 1 || s.head? != some 48) then
    let n := s.foldl (fun n b ↦ 10 * n + (b.toNat - 48)) 0
    if n ≤ 255 then some (UInt8.ofNat n) else none
  else none

/-- `inet_pton(AF_INET, …)`: exactly four octets separated by dots. -/
def inetPton4 (s : CStr) : Option UInt32 :=
  match (s.splitOn 46).map parseOctet with
  | [some b₀, some b₁, some b₂, some b₃] => some (ofOctets b₀ b₁ b₂ b₃)
  | _ => none

/-! ## IPv6 -/

theorem highByte_lt (i : Fin 8) : 2 * i.val < 16 := by omega

theorem lowByte_lt (i : Fin 8) : 2 * i.val + 1 < 16 := by omega

def groups6 (a : In6Addr) : List UInt16 :=
  (List.finRange 8).map fun (i : Fin 8) ↦
    UInt16.ofNat
      (2 ^ 8 * (a ⟨2 * i.val, highByte_lt i⟩).toNat + (a ⟨2 * i.val + 1, lowByte_lt i⟩).toNat)

/-- The first longest run of zero groups, as start and length; `cur` is the run being read. -/
def longestRun : List UInt16 → ℕ → Option (ℕ × ℕ) → Option (ℕ × ℕ) → Option (ℕ × ℕ)
  | [], _, cur, best => longer cur best
  | g :: gs, i, cur, best =>
    if g = 0 then
      match cur with
      | none => longestRun gs (i + 1) (some (i, 1)) best
      | some (b, n) => longestRun gs (i + 1) (some (b, n + 1)) best
    else longestRun gs (i + 1) none (longer cur best)
where
  longer : Option (ℕ × ℕ) → Option (ℕ × ℕ) → Option (ℕ × ℕ)
    | none, best => best
    | some c, none => some c
    | some c, some b => if b.2 < c.2 then some c else some b

/-- The run that is printed as `::`; a single zero group is not shortened. -/
def compressedRun (gs : List UInt16) : Option (ℕ × ℕ) :=
  match longestRun gs 0 none none with
  | some (b, n) => if n < 2 then none else some (b, n)
  | none => none

/-- The last 32 bits, for addresses printed with a dotted tail. -/
def tail32 (a : In6Addr) : UInt32 := ofOctets (a 12) (a 13) (a 14) (a 15)

/-- The groups from index `i` on, given the run to shorten. -/
def printGroups (a : In6Addr) (run : Option (ℕ × ℕ)) : List UInt16 → ℕ → CStr
  | [], _ =>
    match run with
    | some (b, n) => if b + n = 8 then [58] else []
    | none => []
  | g :: gs, i =>
    match run with
    | some (b, n) =>
      if b ≤ i ∧ i < b + n then
        if i = b then 58 :: printGroups a run gs (i + 1) else printGroups a run gs (i + 1)
      else
        -- an encapsulated IPv4 address ends the text
        let sep : CStr := if i = 0 then [] else [58]
        if i = 6 ∧ b = 0 ∧ (n = 6 ∨ (n = 5 ∧ (groups6 a)[5]? = some 0xffff)) then
          sep ++ inetNtop4 (tail32 a)
        else sep ++ hex g.toNat ++ printGroups a run gs (i + 1)
    | none => (if i = 0 then [] else [58]) ++ hex g.toNat ++ printGroups a run gs (i + 1)

/-- `inet_ntop(AF_INET6, …)`. -/
def inetNtop6 (a : In6Addr) : CStr := printGroups a (compressedRun (groups6 a)) (groups6 a) 0

/-- The buffer check of `inet_ntop`: the text and its NUL have to fit. -/
def fitText (size : ℕ) (s : CStr) : Option CStr := if s.length < size then some s else none

theorem eq_of_fitText {n : ℕ} {s t : CStr} (h : fitText n s = some t) : t = s := by
  rw [fitText] at h
  split at h
  · exact (Option.some.inj h).symm
  · exact absurd h (Option.some_ne_none t).symm

/-! ## Printing then parsing -/

/-- What an intercalation holds comes from the separator or from a part. -/
theorem mem_or_mem_of_mem_intercalate {α : Type*} {sep : List α} {a : α} {parts : List (List α)}
    (h : a ∈ sep.intercalate parts) : a ∈ sep ∨ ∃ part ∈ parts, a ∈ part := by
  induction parts with
  | nil => exact absurd h List.not_mem_nil
  | cons part parts ih =>
    by_cases hparts : parts = []
    · rw [hparts, List.intercalate_singleton] at h
      exact Or.inr ⟨part, List.mem_cons_self, h⟩
    · rw [List.intercalate_cons_of_ne_nil hparts, List.mem_append, List.mem_append] at h
      rcases h with (h | h) | h
      · exact Or.inr ⟨part, List.mem_cons_self, h⟩
      · exact Or.inl h
      · exact (ih h).imp_right fun ⟨q, hq, ha⟩ ↦ ⟨q, List.mem_cons_of_mem _ hq, ha⟩

private theorem parseOctet_decimal (b : UInt8) : parseOctet (decimal b.toNat) = some b := by
  have hfin : ∀ n : Fin 256, parseOctet (decimal n) = some (UInt8.ofNat n) := by decide +kernel
  have h := hfin ⟨b.toNat, b.toNat_lt⟩
  rwa [UInt8.ofNat_toNat] at h

private theorem ofOctets_octets (a : UInt32) :
    ofOctets (UInt8.ofNat (a.toNat / 2 ^ 24)) (UInt8.ofNat (a.toNat / 2 ^ 16))
      (UInt8.ofNat (a.toNat / 2 ^ 8)) (UInt8.ofNat a.toNat) = a := by
  have ha : a.toNat < 2 ^ 32 := a.toNat_lt
  apply UInt32.toNat_inj.mp
  rw [ofOctets, UInt32.toNat_ofNat', UInt8.toNat_ofNat', UInt8.toNat_ofNat', UInt8.toNat_ofNat',
    UInt8.toNat_ofNat']
  omega

private theorem dot_notMem_decimal (n : ℕ) : (46 : UInt8) ∉ decimal n := fun h ↦
  absurd (toNat_of_mem_decimal h).1 (by decide)

theorem inetPton4_inetNtop4 (a : UInt32) : inetPton4 (inetNtop4 a) = some a := by
  have hdot : ∀ l ∈ (octets a).map fun b ↦ decimal b.toNat, (46 : UInt8) ∉ l := by
    intro l hl
    obtain ⟨b, -, rfl⟩ := List.mem_map.mp hl
    exact dot_notMem_decimal _
  rw [inetPton4, inetNtop4, List.splitOn_intercalate _ hdot (by simp [octets]), octets]
  simp only [List.map_cons, List.map_nil, parseOctet_decimal, ofOctets_octets]

private theorem parseOctet_of_colon {s : CStr} (h : (58 : UInt8) ∈ s) : parseOctet s = none := by
  have hall : s.all (fun b ↦ 48 ≤ b && b ≤ 57) = false := by
    rw [List.all_eq_false]
    exact ⟨58, h, by decide⟩
  rw [parseOctet, hall]
  rfl

theorem inetPton4_of_colon {s : CStr} (h : (58 : UInt8) ∈ s) : inetPton4 s = none := by
  -- the colon ends up in one of the parts, which is then no octet
  have hjoin : (58 : UInt8) ∈ [46].intercalate (s.splitOn 46) := by
    rwa [List.intercalate_splitOn]
  obtain hdot | ⟨part, hpart, hcolon⟩ := mem_or_mem_of_mem_intercalate hjoin
  · exact absurd hdot (by decide)
  have hnone : none ∈ (s.splitOn 46).map parseOctet :=
    List.mem_map.mpr ⟨part, hpart, parseOctet_of_colon hcolon⟩
  rw [inetPton4]
  split
  · rename_i hparts
    rw [hparts] at hnone
    simp at hnone
  · rfl

/-- What is accepted as a dotted quad consists of digits and dots. -/
theorem token_of_inetPton4 {s : CStr} (h : (inetPton4 s).isSome = true) : Token s := by
  have hparts : ∀ part ∈ s.splitOn 46, (parseOctet part).isSome = true := by
    rw [inetPton4] at h
    split at h
    · rename_i b₀ b₁ b₂ b₃ heq
      intro part hpart
      have hmem := List.mem_map_of_mem (f := parseOctet) hpart
      rw [heq] at hmem
      simp only [List.mem_cons, List.not_mem_nil, or_false] at hmem
      rcases hmem with hp | hp | hp | hp <;> rw [hp] <;> rfl
    · exact absurd h Bool.false_ne_true
  have hdigits : ∀ part ∈ s.splitOn 46, Token part := by
    intro part hpart b hb
    have hsome := hparts part hpart
    rw [parseOctet] at hsome
    split at hsome
    · rename_i hall
      rw [Bool.and_eq_true, Bool.and_eq_true] at hall
      have hdigit := List.all_eq_true.mp hall.1.1 b hb
      rw [Bool.and_eq_true, decide_eq_true_iff, decide_eq_true_iff] at hdigit
      rw [isToken, Bool.or_eq_true, Bool.or_eq_true, Bool.and_eq_true, decide_eq_true_iff,
        decide_eq_true_iff]
      exact Or.inl (Or.inl ⟨hdigit.1, UInt8.le_trans hdigit.2 (by decide)⟩)
    · exact absurd hsome Bool.false_ne_true
  intro b hb
  have hjoin : b ∈ [46].intercalate (s.splitOn 46) := by
    rwa [List.intercalate_splitOn]
  rcases mem_or_mem_of_mem_intercalate hjoin with hdot | ⟨part, hpart, hmem⟩
  · rw [List.mem_singleton.mp hdot]
    decide
  · exact hdigits part hpart b hmem

/-! ## The bytes of an address -/

private theorem inetNtop4_eq (a : UInt32) : ∃ b₀ b₁ b₂ b₃ : UInt8,
    inetNtop4 a = decimal b₀.toNat ++ 46 :: (decimal b₁.toNat ++ 46 :: (decimal b₂.toNat ++
      46 :: decimal b₃.toNat)) := by
  refine ⟨UInt8.ofNat (a.toNat / 2 ^ 24), UInt8.ofNat (a.toNat / 2 ^ 16),
    UInt8.ofNat (a.toNat / 2 ^ 8), UInt8.ofNat a.toNat, ?_⟩
  rw [inetNtop4, octets]
  simp only [List.map_cons, List.map_nil, List.intercalate, List.intersperse, List.flatten_cons,
    List.flatten_nil, List.append_nil, List.cons_append, List.nil_append]

theorem token_inetNtop4 (a : UInt32) : Token (inetNtop4 a) := by
  obtain ⟨b₀, b₁, b₂, b₃, h⟩ := inetNtop4_eq a
  rw [h]
  exact (token_decimal _).append (Token.cons rfl ((token_decimal _).append
    (Token.cons rfl ((token_decimal _).append (Token.cons rfl (token_decimal _))))))

theorem inetNtop4_ne_nil (a : UInt32) : inetNtop4 a ≠ [] := by
  obtain ⟨b₀, b₁, b₂, b₃, h⟩ := inetNtop4_eq a
  rw [h]
  exact List.append_ne_nil_of_left_ne_nil (decimal_ne_nil _) _

theorem length_decimal_octet (b : UInt8) : (decimal b.toNat).length ≤ 3 := by
  rw [decimal, numeral, List.length_map, Nat.length_toDigits_le_iff (by norm_num) (by norm_num)]
  have := b.toNat_lt
  omega

theorem length_inetNtop4_le (a : UInt32) : (inetNtop4 a).length ≤ 15 := by
  obtain ⟨b₀, b₁, b₂, b₃, h⟩ := inetNtop4_eq a
  have h₀ := length_decimal_octet b₀
  have h₁ := length_decimal_octet b₁
  have h₂ := length_decimal_octet b₂
  have h₃ := length_decimal_octet b₃
  rw [h]
  simp only [List.length_append, List.length_cons]
  omega

private theorem token_printGroups (a : In6Addr) (run : Option (ℕ × ℕ)) :
    ∀ (gs : List UInt16) (i : ℕ), Token (printGroups a run gs i) := by
  have hsep : ∀ i : ℕ, Token (if i = 0 then [] else [58] : CStr) := by
    intro i
    split
    · exact Token.nil
    · exact Token.cons rfl Token.nil
  intro gs
  induction gs with
  | nil =>
    intro i
    cases run with
    | none => exact Token.nil
    | some p =>
      rw [printGroups]
      split
      · exact Token.cons rfl Token.nil
      · exact Token.nil
  | cons g gs ih =>
    intro i
    cases run with
    | none => exact ((hsep i).append (token_hex _)).append (ih _)
    | some p =>
      rw [printGroups]
      split
      · split
        · exact Token.cons rfl (ih _)
        · exact ih _
      · dsimp only
        split
        · exact (hsep i).append (token_inetNtop4 _)
        · exact ((hsep i).append (token_hex _)).append (ih _)

theorem token_inetNtop6 (a : In6Addr) : Token (inetNtop6 a) := token_printGroups a _ _ _

private theorem length_hex_group (g : UInt16) : (hex g.toNat).length ≤ 4 := by
  rw [hex, numeral, List.length_map, Nat.length_toDigits_le_iff (by norm_num) (by norm_num)]
  have := g.toNat_lt
  omega

/-- Five bytes a group, and six more when the text ends in a dotted quad. -/
private theorem length_printGroups_le (a : In6Addr) (run : Option (ℕ × ℕ)) :
    ∀ (gs : List UInt16) (i : ℕ), gs.length + i = 8 →
      (printGroups a run gs i).length ≤ 5 * gs.length + 6 := by
  have hsep : ∀ i : ℕ, (if i = 0 then [] else [58] : CStr).length ≤ 1 := by
    intro i
    split <;> simp
  intro gs
  induction gs with
  | nil =>
    intro i _
    cases run with
    | none => exact Nat.zero_le _
    | some p =>
      rw [printGroups]
      split <;> simp
  | cons g gs ih =>
    intro i hi
    rw [List.length_cons] at hi
    have hrec := ih (i + 1) (by omega)
    have hg := length_hex_group g
    have hs := hsep i
    cases run with
    | none =>
      rw [printGroups, List.length_append, List.length_append, List.length_cons]
      omega
    | some p =>
      obtain ⟨b, n⟩ := p
      rw [printGroups]
      split
      · split
        · rw [List.length_cons, List.length_cons]
          omega
        · rw [List.length_cons]
          omega
      · dsimp only
        split
        · have h4 := length_inetNtop4_le (tail32 a)
          rw [List.length_append, List.length_cons]
          omega
        · rw [List.length_append, List.length_append, List.length_cons]
          omega

theorem length_inetNtop6_lt (a : In6Addr) : (inetNtop6 a).length < 48 := by
  have hlen : (groups6 a).length = 8 := by simp [groups6]
  have h := length_printGroups_le a (compressedRun (groups6 a)) (groups6 a) 0 (by omega)
  rw [hlen] at h
  rw [inetNtop6]
  omega

/-- From the second group on, every printed group brings a separator. -/
private theorem colon_mem_printGroups (a : In6Addr) (run : Option (ℕ × ℕ)) (g : UInt16)
    (gs : List UInt16) {i : ℕ} (hi : i ≠ 0)
    (hrun : ∀ p, run = some p → ¬(p.1 < i ∧ i < p.1 + p.2)) :
    (58 : UInt8) ∈ printGroups a run (g :: gs) i := by
  cases run with
  | none => simp [printGroups, hi]
  | some p =>
    have hout := hrun p rfl
    rw [printGroups]
    split
    · rename_i hin
      have hib : i = p.1 := by omega
      simp [hib]
    · dsimp only
      split <;> simp

theorem colon_mem_inetNtop6 (a : In6Addr) : (58 : UInt8) ∈ inetNtop6 a := by
  have hlen : (groups6 a).length = 8 := by simp [groups6]
  obtain ⟨g₀, g₁, gs, hgs⟩ : ∃ g₀ g₁ gs, groups6 a = g₀ :: g₁ :: gs := by
    match h : groups6 a with
    | [] => rw [h] at hlen; simp at hlen
    | [_] => rw [h] at hlen; simp at hlen
    | g₀ :: g₁ :: gs => exact ⟨g₀, g₁, gs, rfl⟩
  rw [inetNtop6, hgs]
  generalize compressedRun (g₀ :: g₁ :: gs) = run
  by_cases hstart : ∃ p, run = some p ∧ p.1 = 0 ∧ 0 < p.2
  · -- the text starts with the shortened run
    obtain ⟨p, rfl, hp0, hp⟩ := hstart
    rw [printGroups, if_pos ⟨by omega, by omega⟩, if_pos hp0.symm]
    exact List.mem_cons_self
  · have hnext : (58 : UInt8) ∈ printGroups a run (g₁ :: gs) 1 := by
      refine colon_mem_printGroups a run g₁ gs (by omega) fun p hp hin ↦ hstart ⟨p, hp, ?_, ?_⟩
      · omega
      · omega
    cases run with
    | none =>
      rw [printGroups]
      exact List.mem_append_right _ hnext
    | some p =>
      rw [printGroups, if_neg (fun h ↦ hstart ⟨p, rfl, by omega, by omega⟩)]
      dsimp only
      rw [if_neg (fun h ↦ absurd h.1 (by omega))]
      exact List.mem_append_right _ hnext

theorem inetNtop6_ne_nil (a : In6Addr) : inetNtop6 a ≠ [] :=
  List.ne_nil_of_mem (colon_mem_inetNtop6 a)

end NetForensics
