import Mathlib.Tactic

/-!
# Base 64

The encoding by its bits. The bits of all bytes form one stream, the most significant bit of a byte
first; it is cut into groups of six, the last one filled up with zeros; each group is a character of
the alphabet, and padding characters make the number of characters a multiple of four.

`decode` goes the other way: the padding has to be as long as it is here, and the bits it stands for
have to be zero. An encoder that works on groups of three bytes is compared with `encode` by
`encode_three`, `encode_two` and `encode_one`.
-/

namespace NetForensics

namespace Base64

/-! ## Numbers and their bits -/

/-- The number with these binary digits, the most significant first. -/
def ofBits (l : List Bool) : ℕ := l.foldl (fun n b ↦ 2 * n + b.toNat) 0

/-- The last `w` binary digits of a number, the most significant first. -/
def toBits : ℕ → ℕ → List Bool
  | 0, _ => []
  | w + 1, n => n.testBit w :: toBits w n

theorem ofBits_append (l r : List Bool) : ofBits (l ++ r) = ofBits l * 2 ^ r.length + ofBits r := by
  induction r using List.reverseRecOn with
  | nil => simp [ofBits]
  | append_singleton r b ih =>
    have hlast : ∀ s : List Bool, ofBits (s ++ [b]) = 2 * ofBits s + b.toNat := fun s ↦ by
      rw [ofBits, List.foldl_append]
      rfl
    rw [← List.append_assoc, hlast, hlast, ih, List.length_append, List.length_singleton, pow_succ]
    ring

theorem ofBits_cons (b : Bool) (l : List Bool) :
    ofBits (b :: l) = b.toNat * 2 ^ l.length + ofBits l := by
  rw [← List.singleton_append, ofBits_append]
  simp [ofBits]

theorem ofBits_lt (l : List Bool) : ofBits l < 2 ^ l.length := by
  induction l with
  | nil => exact Nat.one_pos
  | cons b l ih =>
    have hb : b.toNat * 2 ^ l.length ≤ 1 * 2 ^ l.length :=
      Nat.mul_le_mul_right _ (Bool.toNat_le b)
    rw [ofBits_cons, List.length_cons, pow_succ]
    omega

@[simp] theorem length_toBits (w n : ℕ) : (toBits w n).length = w := by
  induction w with
  | zero => rfl
  | succ w ih => rw [toBits, List.length_cons, ih]

theorem ofBits_toBits (w n : ℕ) : ofBits (toBits w n) = n % 2 ^ w := by
  induction w with
  | zero => rw [pow_zero, Nat.mod_one]; rfl
  | succ w ih =>
    rw [toBits, ofBits_cons, length_toBits, ih, Nat.toNat_testBit, Nat.mod_pow_succ]
    ring

theorem toBits_mod (w n : ℕ) {k : ℕ} (h : w ≤ k) : toBits w (n % 2 ^ k) = toBits w n := by
  induction w with
  | zero => rfl
  | succ w ih =>
    rw [toBits, toBits, ih (Nat.le_of_succ_le h), Nat.testBit_mod_two_pow,
      decide_eq_true (Nat.lt_of_succ_le h), Bool.true_and]

theorem toBits_ofBits (l : List Bool) : toBits l.length (ofBits l) = l := by
  induction l with
  | nil => rfl
  | cons b l ih =>
    have hlt := ofBits_lt l
    have hbit : (ofBits (b :: l)).testBit l.length = b := by
      rw [ofBits_cons, Nat.testBit_eq_decide_div_mod_eq, mul_comm, Nat.mul_add_div (by positivity),
        Nat.div_eq_of_lt hlt]
      cases b <;> rfl
    have hrest : toBits l.length (ofBits (b :: l)) = l := by
      rw [← toBits_mod _ _ le_rfl, ofBits_cons, Nat.mul_add_mod_self_right, Nat.mod_eq_of_lt hlt,
        ih]
    rw [List.length_cons, toBits, hbit, hrest]

theorem toBits_add (v w n : ℕ) : toBits (v + w) n = toBits v (n / 2 ^ w) ++ toBits w n := by
  induction v with
  | zero => rw [Nat.zero_add]; rfl
  | succ v ih =>
    rw [Nat.succ_add, toBits, ih, toBits, Nat.testBit_div_two_pow, List.cons_append]

/-! ## The stream -/

def bits (s : List UInt8) : List Bool := s.flatMap fun b ↦ toBits 8 b.toNat

/-- The groups of six bits, the last one filled up with zeros. -/
def sextets : List Bool → List ℕ
  | [] => []
  | a :: b :: c :: d :: e :: f :: l => ofBits [a, b, c, d, e, f] :: sextets l
  | l => [ofBits (l ++ List.replicate (6 - l.length) false)]

def octets : List Bool → List UInt8
  | a :: b :: c :: d :: e :: f :: g :: h :: l =>
    UInt8.ofNat (ofBits [a, b, c, d, e, f, g, h]) :: octets l
  | _ => []

theorem bits_cons (b : UInt8) (s : List UInt8) : bits (b :: s) = toBits 8 b.toNat ++ bits s := rfl

@[simp] theorem length_bits (s : List UInt8) : (bits s).length = 8 * s.length := by
  induction s with
  | nil => rfl
  | cons b s ih =>
    rw [bits_cons, List.length_append, length_toBits, ih, List.length_cons]
    ring

theorem sextets_append {g : List Bool} (h : g.length = 6) (l : List Bool) :
    sextets (g ++ l) = ofBits g :: sextets l := by
  match g, h with
  | [a, b, c, d, e, f], _ => rfl

theorem sextets_short {l : List Bool} (h0 : l ≠ []) (h : l.length < 6) :
    sextets l = [ofBits (l ++ List.replicate (6 - l.length) false)] := by
  match l, h0, h with
  | [_], _, _ => rfl
  | [_, _], _, _ => rfl
  | [_, _, _], _, _ => rfl
  | [_, _, _, _], _, _ => rfl
  | [_, _, _, _, _], _, _ => rfl

theorem octets_append {g : List Bool} (h : g.length = 8) (l : List Bool) :
    octets (g ++ l) = UInt8.ofNat (ofBits g) :: octets l := by
  match g, h with
  | [a, b, c, d, e, f, g, h], _ => rfl

theorem octets_short {l : List Bool} (h : l.length < 8) : octets l = [] := by
  match l, h with
  | [], _ => rfl
  | [_], _ => rfl
  | [_, _], _ => rfl
  | [_, _, _], _ => rfl
  | [_, _, _, _], _ => rfl
  | [_, _, _, _, _], _ => rfl
  | [_, _, _, _, _, _], _ => rfl
  | [_, _, _, _, _, _, _], _ => rfl

/-- Induction by groups of six. -/
theorem groups_induction {P : List Bool → Prop} (nil : P [])
    (short : ∀ l, l ≠ [] → l.length < 6 → P l)
    (group : ∀ g l, g.length = 6 → P l → P (g ++ l)) (l : List Bool) : P l := by
  induction hn : l.length using Nat.strong_induction_on generalizing l with
  | _ n ih =>
    by_cases h0 : l = []
    · exact h0 ▸ nil
    by_cases hshort : l.length < 6
    · exact short l h0 hshort
    · have hdrop := ih (l.drop 6).length (by rw [List.length_drop]; omega) (l.drop 6) rfl
      have hg : (l.take 6).length = 6 := by
        rw [List.length_take]
        omega
      have hl := group (l.take 6) (l.drop 6) hg hdrop
      rwa [List.take_append_drop] at hl

theorem length_filled {l : List Bool} (h : l.length < 6) :
    (l ++ List.replicate (6 - l.length) false).length = 6 := by
  rw [List.length_append, List.length_replicate]
  omega

/-- What the groups of six stand for is the stream, filled up. -/
theorem flatMap_sextets (l : List Bool) :
    (sextets l).flatMap (toBits 6) = l ++ List.replicate ((6 - l.length % 6) % 6) false := by
  induction l using groups_induction with
  | nil => rfl
  | short l h0 hshort =>
    have hpos : 0 < l.length := List.length_pos_iff.mpr h0
    have hback := toBits_ofBits (l ++ List.replicate (6 - l.length) false)
    rw [length_filled hshort] at hback
    rw [sextets_short h0 hshort, List.flatMap_singleton, hback, Nat.mod_eq_of_lt hshort,
      Nat.mod_eq_of_lt (by omega)]
  | group g l hg ih =>
    have hback := toBits_ofBits g
    rw [hg] at hback
    rw [sextets_append hg, List.flatMap_cons, hback, ih, List.append_assoc, List.length_append, hg,
      Nat.add_mod_left]

theorem lt_of_mem_sextets {l : List Bool} {n : ℕ} (h : n ∈ sextets l) : n < 64 := by
  induction l using groups_induction with
  | nil => exact absurd h List.not_mem_nil
  | short l h0 hshort =>
    have hlt := ofBits_lt (l ++ List.replicate (6 - l.length) false)
    rw [length_filled hshort] at hlt
    rw [sextets_short h0 hshort, List.mem_singleton] at h
    exact h ▸ hlt
  | group g l hg ih =>
    have hlt := ofBits_lt g
    rw [hg] at hlt
    rw [sextets_append hg] at h
    rcases List.mem_cons.mp h with rfl | h
    · exact hlt
    · exact ih h

/-- The bytes come back, whatever is left of an incomplete group. -/
theorem octets_bits_append (s : List UInt8) {z : List Bool} (hz : z.length < 8) :
    octets (bits s ++ z) = s := by
  induction s with
  | nil => exact octets_short hz
  | cons b s ih =>
    have hb : ofBits (toBits 8 b.toNat) = b.toNat := by
      rw [ofBits_toBits]
      exact Nat.mod_eq_of_lt b.toNat_lt
    rw [bits_cons, List.append_assoc, octets_append (length_toBits 8 _), ih, hb, UInt8.ofNat_toNat]

theorem length_sextets (l : List Bool) : (sextets l).length = (l.length + 5) / 6 := by
  have hlen := congrArg List.length (flatMap_sextets l)
  have hsum : ((sextets l).flatMap (toBits 6)).length = 6 * (sextets l).length := by
    rw [List.length_flatMap]
    simp [mul_comm]
  rw [hsum, List.length_append, List.length_replicate] at hlen
  omega

/-! ## Characters -/

/-- Upper case, lower case, digits, `+` and `/`. -/
def alphabet : List UInt8 :=
  (List.range 26).map (fun n ↦ UInt8.ofNat (65 + n)) ++
    (List.range 26).map (fun n ↦ UInt8.ofNat (97 + n)) ++
    (List.range 10).map (fun n ↦ UInt8.ofNat (48 + n)) ++ [43, 47]

/-- The padding character, `=`. -/
def pad : UInt8 := 61

def char (n : ℕ) : UInt8 := alphabet.getD n pad

def value (c : UInt8) : Option ℕ := alphabet.idxOf? c

theorem value_char {n : ℕ} (h : n < 64) : value (char n) = some n := by
  have hall : ∀ k : Fin 64, value (char k) = some k.val := by decide +kernel
  exact hall ⟨n, h⟩

theorem char_ne_pad {n : ℕ} (h : n < 64) : char n ≠ pad := by
  have hall : ∀ k : Fin 64, char k ≠ pad := by decide +kernel
  exact hall ⟨n, h⟩

/-- Characters and padding print: there are no control characters among them. -/
theorem lt_char {n : ℕ} (h : n < 64) : 32 < char n := by
  have hall : ∀ k : Fin 64, 32 < char k := by decide +kernel
  exact hall ⟨n, h⟩

/-! ## Encoding and decoding -/

/-- The characters of the encoding, without the padding. -/
def body (s : List UInt8) : List UInt8 := (sextets (bits s)).map char

/-- The encoding of some bytes. -/
def encode (s : List UInt8) : List UInt8 :=
  body s ++ List.replicate ((4 - (body s).length % 4) % 4) pad

/-- The bytes a text encodes. -/
def decode (t : List UInt8) : Option (List UInt8) :=
  let cs := t.takeWhile (· ≠ pad)
  if t = cs ++ List.replicate ((4 - cs.length % 4) % 4) pad ∧ cs.length % 4 ≠ 1 then
    (cs.mapM value).bind fun ns ↦
      let stream := ns.flatMap (toBits 6)
      let out := octets stream
      if stream = bits out ++ List.replicate (stream.length % 8) false then some out else none
  else none

theorem length_body (s : List UInt8) : (body s).length = (8 * s.length + 5) / 6 := by
  rw [body, List.length_map, length_sextets, length_bits]

theorem length_encode (s : List UInt8) : (encode s).length = 4 * ((s.length + 2) / 3) := by
  rw [encode, List.length_append, List.length_replicate, length_body]
  omega

theorem mapM_value_map_char {ns : List ℕ} (h : ∀ n ∈ ns, n < 64) :
    (ns.map char).mapM value = some ns := by
  induction ns with
  | nil => rfl
  | cons n ns ih =>
    rw [List.map_cons, List.mapM_cons, value_char (h n List.mem_cons_self),
      ih fun m hm ↦ h m (List.mem_cons_of_mem n hm)]
    rfl

theorem decode_encode (s : List UInt8) : decode (encode s) = some s := by
  have hcs : (encode s).takeWhile (· ≠ pad) = body s := by
    have hbody : ∀ c ∈ body s, decide (c ≠ pad) = true := by
      intro c hc
      obtain ⟨n, hn, rfl⟩ := List.mem_map.mp hc
      exact decide_eq_true (char_ne_pad (lt_of_mem_sextets hn))
    rw [encode, List.takeWhile_append_of_pos hbody]
    cases (4 - (body s).length % 4) % 4 with
    | zero => rw [List.replicate_zero, List.takeWhile_nil, List.append_nil]
    | succ k =>
      rw [List.replicate_succ, List.takeWhile_cons_of_neg (by simp), List.append_nil]
  have hlen := length_body s
  have hstream := flatMap_sextets (bits s)
  have hz : (List.replicate ((6 - (bits s).length % 6) % 6) false).length < 8 := by
    rw [List.length_replicate]
    omega
  rw [decode]
  dsimp only
  rw [hcs, if_pos ⟨rfl, by omega⟩, body, mapM_value_map_char fun n ↦ lt_of_mem_sextets,
    Option.bind_some]
  rw [hstream, octets_bits_append s hz, if_pos]
  congr 2
  rw [List.length_append, List.length_replicate, length_bits]
  omega

theorem lt_of_mem_encode {s : List UInt8} {c : UInt8} (h : c ∈ encode s) : 32 < c := by
  rcases List.mem_append.mp h with h | h
  · obtain ⟨n, hn, rfl⟩ := List.mem_map.mp h
    exact lt_char (lt_of_mem_sextets hn)
  · rw [List.eq_of_mem_replicate h]
    decide

/-! ## Groups of three bytes -/

def group (x y z : UInt8) : ℕ := x.toNat * 2 ^ 16 + y.toNat * 2 ^ 8 + z.toNat

/-- A character of a group, counted from the last one. -/
def digit (v k : ℕ) : UInt8 := char (v / 64 ^ k % 64)

variable (x y z : UInt8)

theorem bits_three (s : List UInt8) : bits (x :: y :: z :: s) =
    toBits 6 (group x y z / 64 ^ 3) ++ (toBits 6 (group x y z / 64 ^ 2) ++
      (toBits 6 (group x y z / 64 ^ 1) ++ (toBits 6 (group x y z / 64 ^ 0) ++ bits s))) := by
  have hx := x.toNat_lt
  have hy := y.toNat_lt
  have hz := z.toNat_lt
  -- the 24 bits in three parts and in four
  have hthree : toBits 24 (group x y z) =
      toBits 8 x.toNat ++ (toBits 8 y.toNat ++ toBits 8 z.toNat) := by
    have h1 : group x y z / 2 ^ 16 = x.toNat := by
      rw [group]
      omega
    have h2 : group x y z / 2 ^ 8 % 2 ^ 8 = y.toNat := by
      rw [group]
      omega
    have h3 : group x y z % 2 ^ 8 = z.toNat := by
      rw [group]
      omega
    rw [toBits_add 8 16, h1, toBits_add 8 8, ← toBits_mod 8 (group x y z / 2 ^ 8) le_rfl, h2,
      ← toBits_mod 8 (group x y z) le_rfl, h3]
  have hfour : toBits 24 (group x y z) =
      toBits 6 (group x y z / 2 ^ 18) ++ (toBits 6 (group x y z / 2 ^ 12) ++
        (toBits 6 (group x y z / 2 ^ 6) ++ toBits 6 (group x y z))) := by
    rw [toBits_add 6 18, toBits_add 6 12, toBits_add 6 6]
  simp only [bits_cons, ← List.append_assoc]
  rw [List.append_assoc (toBits 8 _), ← hthree, hfour]
  simp [List.append_assoc]

theorem sextets_toBits (n : ℕ) (l : List Bool) :
    sextets (toBits 6 n ++ l) = n % 64 :: sextets l := by
  rw [sextets_append (length_toBits 6 n), ofBits_toBits]
  rfl

theorem encode_three (s : List UInt8) : encode (x :: y :: z :: s) =
    digit (group x y z) 3 :: digit (group x y z) 2 :: digit (group x y z) 1 ::
      digit (group x y z) 0 :: encode s := by
  have hbody : body (x :: y :: z :: s) =
      digit (group x y z) 3 :: digit (group x y z) 2 :: digit (group x y z) 1 ::
        digit (group x y z) 0 :: body s := by
    rw [body, bits_three]
    simp only [sextets_toBits, List.map_cons]
    rfl
  rw [encode, hbody]
  simp only [List.length_cons, List.cons_append]
  rw [encode]
  congr 6
  omega

theorem encode_two : encode [x, y] =
    [digit (group x y 0) 3, digit (group x y 0) 2, digit (group x y 0) 1, pad] := by
  have hx := x.toNat_lt
  have hy := y.toNat_lt
  have hsplit : bits [x, y] = toBits 6 (x.toNat / 2 ^ 2) ++
      ((toBits 2 x.toNat ++ toBits 4 (y.toNat / 2 ^ 4)) ++ toBits 4 y.toNat) := by
    rw [bits, List.flatMap_cons, List.flatMap_singleton, toBits_add 6 2, toBits_add 4 4]
    simp only [List.append_assoc]
  have hsext : sextets (bits [x, y]) = [group x y 0 / 64 ^ 3 % 64, group x y 0 / 64 ^ 2 % 64,
      group x y 0 / 64 ^ 1 % 64] := by
    rw [hsplit, sextets_toBits, sextets_append (by simp),
      sextets_short (by simp [toBits]) (by simp), ofBits_append, ofBits_append, ofBits_toBits,
      ofBits_toBits, ofBits_toBits, length_toBits, length_toBits, List.length_replicate, group]
    have hzero : ofBits (List.replicate (6 - 4) false) = 0 := rfl
    have hnone : (0 : UInt8).toNat = 0 := rfl
    rw [hzero, hnone]
    simp only [List.cons.injEq, and_true]
    omega
  rw [encode, body, hsext]
  rfl

theorem encode_one : encode [x] =
    [digit (group x 0 0) 3, digit (group x 0 0) 2, pad, pad] := by
  have hx := x.toNat_lt
  have hsplit : bits [x] = toBits 6 (x.toNat / 2 ^ 2) ++ toBits 2 x.toNat := by
    rw [bits, List.flatMap_singleton, toBits_add 6 2]
  have hsext : sextets (bits [x]) = [group x 0 0 / 64 ^ 3 % 64, group x 0 0 / 64 ^ 2 % 64] := by
    rw [hsplit, sextets_toBits, sextets_short (by simp [toBits]) (by simp), ofBits_append,
      ofBits_toBits, length_toBits, List.length_replicate, group]
    have hzero : ofBits (List.replicate (6 - 2) false) = 0 := rfl
    have hnone : (0 : UInt8).toNat = 0 := rfl
    rw [hzero, hnone]
    simp only [List.cons.injEq, and_true]
    omega
  rw [encode, body, hsext]
  rfl

theorem encode_nil : encode [] = [] := rfl

end Base64

end NetForensics
