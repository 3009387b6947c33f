import NetForensics.Egress.Http
import NetForensics.Util.Base64
import NetForensics.Util.Lines
import NetForensics.Util.Loop
import NetForensics.Util.Reads
import NetForensics.Util.Writes

/-!
# The Basic header

The loop of `b64_encode` over its buffers: three bytes, or what is left of them, are packed into one
word and written as four characters, after a check that these and the terminator have room
(`b64Step`). It stays inside its output, ends, and succeeds exactly when the whole encoding and its
terminator fit; what it leaves there is the encoding by bits, and what the recursion `b64Encode`
returns.

`build_basic_auth` encodes with buffers of three sizes. The first of them is the one that counts
(`buildBasicAuth_isSome_iff`).
-/

namespace NetForensics

/-! ## The loop over its buffers -/

/-- The variables of `b64_encode`, its output and what it returns. -/
structure B64State where
  i : ℕ
  o : ℕ
  out : List UInt8
  ret : ℤ

def b64Start (mem : List UInt8) : B64State := ⟨0, 0, mem, 0⟩

/-- The bytes of a turn in one word, the first one on top. -/
def b64Load (inp : CStr) (i : ℕ) : Option UInt32 :=
  let left := inp.length - i
  (readByte inp i).bind fun x ↦
    (if 1 < left then
      (readByte inp (i + 1)).map fun y ↦
        x.toUInt32 <<< (16 : UInt32) ||| y.toUInt32 <<< (8 : UInt32)
    else some (x.toUInt32 <<< (16 : UInt32))).bind fun v ↦
      if 2 < left then (readByte inp (i + 2)).map fun z ↦ v ||| z.toUInt32 else some v

/-- `b64_tbl[v & 63]` -/
def b64Char (v : UInt32) : UInt8 := b64Tbl.getD (v &&& 63).toNat 0

def b64Group (v : UInt32) (left : ℕ) : CStr :=
  [b64Char (v >>> 18), b64Char (v >>> 12), if 1 < left then b64Char (v >>> 6) else 61,
    if 2 < left then b64Char v else 61]

/-- One turn of the loop; behind it the terminator is written. -/
def b64Step (inp : CStr) (outSz : ℕ) (s : B64State) : Option (Turn B64State) :=
  if s.i < inp.length then
    let left := inp.length - s.i
    (b64Load inp s.i).bind fun v ↦
      if outSz ≤ s.o + 4 then some (.stop { s with ret := -1 })
      else
        (writeSlice s.out s.o (b64Group v left)).map fun out ↦
          .go { s with i := s.i + if 3 < left then 3 else left, o := s.o + 4, out := out }
  else (writeSlice s.out s.o [0]).map fun out ↦ .stop { s with out := out, ret := 0 }

/-! ## A turn -/

theorem toNat_b64Word (x y z : UInt8) :
    (x.toUInt32 <<< (16 : UInt32) ||| y.toUInt32 <<< (8 : UInt32) ||| z.toUInt32).toNat =
      Base64.group x y z := by
  have hx := x.toNat_lt
  have hy := y.toNat_lt
  have hxs : (x.toUInt32 <<< (16 : UInt32)).toNat = x.toNat <<< 16 := by
    rw [UInt32.toNat_shiftLeft, UInt8.toNat_toUInt32]
    refine Nat.mod_eq_of_lt ?_
    rw [Nat.shiftLeft_eq]
    exact (Nat.mul_lt_mul_of_pos_right hx (by positivity)).trans_le (by decide)
  have hys : (y.toUInt32 <<< (8 : UInt32)).toNat = y.toNat <<< 8 := by
    rw [UInt32.toNat_shiftLeft, UInt8.toNat_toUInt32]
    refine Nat.mod_eq_of_lt ?_
    rw [Nat.shiftLeft_eq]
    exact (Nat.mul_lt_mul_of_pos_right hy (by positivity)).trans_le (by decide)
  -- the three bytes have no bit in common
  have hxy : x.toNat <<< 16 ||| y.toNat <<< 8 = (x.toNat * 2 ^ 8 + y.toNat) <<< 8 := by
    rw [← Nat.shiftLeft_add_eq_or_of_lt (by rw [Nat.shiftLeft_eq]; omega), Nat.shiftLeft_eq,
      Nat.shiftLeft_eq, Nat.shiftLeft_eq]
    ring
  rw [UInt32.toNat_or, UInt32.toNat_or, hxs, hys, UInt8.toNat_toUInt32, hxy,
    ← Nat.shiftLeft_add_eq_or_of_lt z.toNat_lt, Nat.shiftLeft_eq, Base64.group]
  ring

/-- The table is the alphabet. -/
theorem getD_b64Tbl (n : ℕ) : b64Tbl.getD (n % 64) 0 = Base64.char (n % 64) := by
  have hall : ∀ k : Fin 64, b64Tbl.getD k 0 = Base64.char k := by decide +kernel
  exact hall ⟨n % 64, Nat.mod_lt _ (by norm_num)⟩

theorem b64Char_eq (v : UInt32) : b64Char v = Base64.char (v.toNat % 64) := by
  have hmask : (v &&& 63).toNat = v.toNat % 64 := by
    rw [UInt32.toNat_and]
    exact Nat.and_two_pow_sub_one_eq_mod v.toNat 6
  rw [b64Char, hmask, getD_b64Tbl]

theorem b64Char_shiftRight {v : UInt32} {n : ℕ} (hv : v.toNat = n) :
    b64Char (v >>> 18) = Base64.digit n 3 ∧ b64Char (v >>> 12) = Base64.digit n 2 ∧
      b64Char (v >>> 6) = Base64.digit n 1 ∧ b64Char v = Base64.digit n 0 := by
  have hshift : ∀ k : UInt32, (v >>> k).toNat = n / 2 ^ (k.toNat % 32) := fun k ↦ by
    rw [UInt32.toNat_shiftRight, Nat.shiftRight_eq_div_pow, hv]
  refine ⟨?_, ?_, ?_, ?_⟩
  · rw [b64Char_eq, hshift]
    rfl
  · rw [b64Char_eq, hshift]
    rfl
  · rw [b64Char_eq, hshift]
    rfl
  · rw [b64Char_eq, hv, Base64.digit, pow_zero, Nat.div_one]

variable {inp : CStr} {i : ℕ}

theorem readByte_of_drop {rest : CStr} (h : inp.drop i = rest) (k : ℕ) :
    readByte inp (i + k) = rest[k]? := by
  rw [readByte, ← List.getElem?_drop, h]

/-- The characters of a turn are the encoding of what it takes from the input. -/
theorem exists_b64Load (h : i < inp.length) :
    ∃ v, b64Load inp i = some v ∧ Base64.encode (inp.drop i) =
      b64Group v (inp.length - i) ++
        Base64.encode (inp.drop (i + if 3 < inp.length - i then 3 else inp.length - i)) := by
  have hlen : (inp.drop i).length = inp.length - i := List.length_drop
  have hdrop : ∀ k, inp.drop (i + k) = (inp.drop i).drop k := fun k ↦ List.drop_drop.symm
  rw [hdrop, ← hlen, b64Load, ← hlen]
  cases hrest : inp.drop i with
  | nil =>
    rw [hrest, List.length_nil] at hlen
    omega
  | cons x rest =>
    have hx : readByte inp i = some x := readByte_of_drop hrest 0
    rw [hx, Option.bind_some]
    -- how many bytes are left decides which of them are read
    match rest, hrest with
    | [], _ =>
      have hword : (x.toUInt32 <<< (16 : UInt32)).toNat = Base64.group x 0 0 := by
        simpa using toNat_b64Word x 0 0
      obtain ⟨h3, h2, -, -⟩ := b64Char_shiftRight hword
      refine ⟨_, rfl, ?_⟩
      have hstep : [x].drop (if 3 < [x].length then 3 else [x].length) = [] := rfl
      rw [Base64.encode_one, ← h3, ← h2, hstep, b64Group, if_neg (by simp), if_neg (by simp)]
      rfl
    | [y], hrest =>
      have hy : readByte inp (i + 1) = some y := readByte_of_drop hrest 1
      have hword : (x.toUInt32 <<< (16 : UInt32) ||| y.toUInt32 <<< (8 : UInt32)).toNat =
          Base64.group x y 0 := by
        simpa using toNat_b64Word x y 0
      obtain ⟨h3, h2, h1, -⟩ := b64Char_shiftRight hword
      have hstep : [x, y].drop (if 3 < [x, y].length then 3 else [x, y].length) = [] := rfl
      refine ⟨x.toUInt32 <<< (16 : UInt32) ||| y.toUInt32 <<< (8 : UInt32), by rw [hy]; rfl, ?_⟩
      rw [Base64.encode_two, ← h3, ← h2, ← h1, hstep, b64Group, if_pos (by simp), if_neg (by simp)]
      rfl
    | y :: z :: rest, hrest =>
      have hy : readByte inp (i + 1) = some y := readByte_of_drop hrest 1
      have hz : readByte inp (i + 2) = some z := readByte_of_drop hrest 2
      obtain ⟨h3, h2, h1, h0⟩ := b64Char_shiftRight (toNat_b64Word x y z)
      have hleft : 1 < (x :: y :: z :: rest).length ∧ 2 < (x :: y :: z :: rest).length := by
        simp
      refine ⟨_, by simp only [hy, hz, if_pos hleft.1, if_pos hleft.2]; rfl, ?_⟩
      have hstep : (x :: y :: z :: rest).drop
          (if 3 < (x :: y :: z :: rest).length then 3 else (x :: y :: z :: rest).length) =
            rest := by
        cases rest with
        | nil => rfl
        | cons b rest => rw [if_pos (by simp)]; rfl
      rw [Base64.encode_three, ← h3, ← h2, ← h1, ← h0, hstep, b64Group, if_pos hleft.1,
        if_pos hleft.2]
      rfl

/-! ## The run -/

/-- Between two turns, `text` has been written, and the encoding of the rest is still to come. -/
structure B64State.Writing (inp mem : CStr) (outSz : ℕ) (text : CStr) (s : B64State) : Prop where
  encode_eq : text ++ Base64.encode (inp.drop s.i) = Base64.encode inp
  o_eq : s.o = text.length
  written : text <+: s.out
  lt : s.o < outSz
  size : s.out.length = mem.length
  kept : s.out.drop outSz = mem.drop outSz

/-- What `b64_encode` leaves behind. -/
structure B64State.Done (inp mem : CStr) (outSz : ℕ) (t : B64State) : Prop where
  size : t.out.length = mem.length
  kept : t.out.drop outSz = mem.drop outSz
  ret : t.ret = 0 ∧ (Base64.encode inp).length < outSz ∧ Base64.encode inp ++ [0] <+: t.out ∨
    t.ret = -1 ∧ outSz ≤ (Base64.encode inp).length

variable {mem text : CStr} {outSz : ℕ} {s : B64State}

theorem writing_b64Start (inp mem : CStr) (hpos : 0 < outSz) :
    (b64Start mem).Writing inp mem outSz [] where
  encode_eq := rfl
  o_eq := rfl
  written := List.nil_prefix
  lt := hpos
  size := rfl
  kept := rfl

theorem length_b64Group (v : UInt32) (left : ℕ) : (b64Group v left).length = 4 := rfl

namespace B64State.Writing

theorem terminate (h : s.Writing inp mem outSz text) (hmem : outSz ≤ mem.length)
    (hi : inp.length ≤ s.i) : ∃ t, b64Step inp outSz s = some (.stop t) ∧ t.Done inp mem outSz := by
  have hrest : inp.drop s.i = [] := List.drop_eq_nil_of_le hi
  have htext : text = Base64.encode inp := by
    have heq := h.encode_eq
    rwa [hrest, Base64.encode_nil, List.append_nil] at heq
  have hlt := h.lt
  have hsize := h.size
  have hroom : text.length + [(0 : UInt8)].length ≤ s.out.length := by
    rw [List.length_singleton, ← h.o_eq]
    omega
  obtain ⟨out, hwrite, hpre, hout⟩ := exists_writeSlice h.written [0] hroom
  rw [← h.o_eq] at hwrite
  refine ⟨{ s with out := out, ret := 0 }, ?_, hout.trans h.size, ?_, .inl ⟨rfl, ?_, ?_⟩⟩
  · rw [b64Step, if_neg (Nat.not_lt.mpr hi), hwrite, Option.map_some]
  · rw [drop_of_writeSlice hwrite hlt]
    exact h.kept
  · rw [← htext, ← h.o_eq]
    exact hlt
  · rwa [← htext]

/-- A turn stops for lack of room, or writes the next four characters. -/
theorem turn (h : s.Writing inp mem outSz text) (hmem : outSz ≤ mem.length)
    (hi : s.i < inp.length) :
    (∃ t, b64Step inp outSz s = some (.stop t) ∧ t.Done inp mem outSz) ∨
      ∃ u text', b64Step inp outSz s = some (.go u) ∧ u.Writing inp mem outSz text' ∧
        s.i < u.i := by
  obtain ⟨v, hload, henc⟩ := exists_b64Load hi
  have hsum := h.encode_eq
  rw [henc] at hsum
  by_cases hfull : outSz ≤ s.o + 4
  · refine .inl ⟨{ s with ret := -1 }, ?_, h.size, h.kept, .inr ⟨rfl, ?_⟩⟩
    · rw [b64Step, if_pos hi, hload, Option.bind_some, if_pos hfull]
    · rw [← hsum, List.length_append, List.length_append, length_b64Group, ← h.o_eq]
      omega
  · have hsize := h.size
    have hroom : text.length + (b64Group v (inp.length - s.i)).length ≤ s.out.length := by
      rw [length_b64Group, ← h.o_eq]
      omega
    obtain ⟨out, hwrite, hpre, hout⟩ := exists_writeSlice h.written _ hroom
    rw [← h.o_eq] at hwrite
    let step := if 3 < inp.length - s.i then 3 else inp.length - s.i
    refine .inr ⟨{ s with i := s.i + step, o := s.o + 4, out := out },
      text ++ b64Group v (inp.length - s.i), ?_, ?_, ?_⟩
    · rw [b64Step, if_pos hi, hload, Option.bind_some, if_neg hfull, hwrite, Option.map_some]
    · refine ⟨?_, ?_, hpre, ?_, hout.trans h.size, ?_⟩
      · rw [List.append_assoc]
        exact hsum
      · rw [List.length_append, length_b64Group, ← h.o_eq]
      · exact Nat.not_le.mp hfull
      · rw [drop_of_writeSlice hwrite (by rw [length_b64Group]; omega)]
        exact h.kept
    · have hstep : 0 < step := by
        dsimp only [step]
        split_ifs <;> omega
      exact Nat.lt_add_of_pos_right hstep

theorem ends (h : s.Writing inp mem outSz text) (hmem : outSz ≤ mem.length) :
    ∃ t, Ends (b64Step inp outSz) s t ∧ t.Done inp mem outSz := by
  induction hn : inp.length - s.i using Nat.strong_induction_on generalizing s text with
  | _ n ih =>
    by_cases hi : s.i < inp.length
    · rcases h.turn hmem hi with ⟨t, hstop, ht⟩ | ⟨u, text', hgo, hu, hlt⟩
      · exact ⟨t, ⟨1, loop_of_stop hstop 0⟩, ht⟩
      · obtain ⟨t, ⟨k, hends⟩, ht⟩ := ih (inp.length - u.i) (by omega) hu rfl
        exact ⟨t, ⟨k + 1, (loop_of_go hgo k).trans hends⟩, ht⟩
    · obtain ⟨t, hstop, ht⟩ := h.terminate hmem (Nat.not_lt.mp hi)
      exact ⟨t, ⟨1, loop_of_stop hstop 0⟩, ht⟩

end B64State.Writing

theorem nul_notMem_encode (inp : CStr) : 0 ∉ Base64.encode inp :=
  fun h ↦ absurd (Base64.lt_of_mem_encode h) (by decide)

theorem takeWhile_of_encoded {out : CStr} (h : Base64.encode inp ++ [0] <+: out) :
    out.takeWhile (· ≠ 0) = Base64.encode inp := by
  obtain ⟨rest, rfl⟩ := h
  rw [List.append_assoc]
  exact takeWhile_append_cons (nul_notMem_encode inp) rest

theorem B64State.Done.ret_eq_zero_iff {t : B64State} (h : t.Done inp mem outSz) :
    t.ret = 0 ↔ (Base64.encode inp).length < outSz := by
  rcases h.ret with ⟨hret, hlt, -⟩ | ⟨hret, hle⟩
  · exact iff_of_true hret hlt
  · exact iff_of_false (by rw [hret]; decide) (Nat.not_lt.mpr hle)

theorem B64State.Done.encoded {t : B64State} (h : t.Done inp mem outSz) (hret : t.ret = 0) :
    Base64.encode inp ++ [0] <+: t.out := by
  rcases h.ret with ⟨-, -, hpre⟩ | ⟨hfail, -⟩
  · exact hpre
  · rw [hret] at hfail
    exact absurd hfail (by decide)

/-! ## The recursion -/

theorem b64Digit_eq (v k : ℕ) : b64Digit v k = Base64.digit v k := getD_b64Tbl (v / 64 ^ k)

/-- The recursion gives the encoding if that fits with its terminator. -/
theorem b64Encode_eq (outSz o : ℕ) (inp : CStr) : b64Encode outSz o inp =
    if inp = [] ∨ o + (Base64.encode inp).length < outSz then some (Base64.encode inp)
    else none := by
  fun_induction b64Encode outSz o inp with
  | case1 o => rfl
  | case2 o x h =>
    have hlen : (Base64.encode [x]).length = 4 := by rw [Base64.encode_one]; rfl
    rw [if_neg]
    simp
    omega
  | case3 o x h v =>
    have hlen : (Base64.encode [x]).length = 4 := by rw [Base64.encode_one]; rfl
    have hv : v = Base64.group x 0 0 := by simp [v, Base64.group]
    rw [if_pos (.inr (by omega)), Base64.encode_one, hv, b64Digit_eq, b64Digit_eq]
    rfl
  | case4 o x y h =>
    have hlen : (Base64.encode [x, y]).length = 4 := by rw [Base64.encode_two]; rfl
    rw [if_neg]
    simp
    omega
  | case5 o x y h v =>
    have hlen : (Base64.encode [x, y]).length = 4 := by rw [Base64.encode_two]; rfl
    have hv : v = Base64.group x y 0 := by simp [v, Base64.group]
    rw [if_pos (.inr (by omega)), Base64.encode_two, hv, b64Digit_eq, b64Digit_eq, b64Digit_eq]
    rfl
  | case6 o x y z rest h =>
    rw [Base64.encode_three, if_neg]
    simp
    omega
  | case7 o x y z rest h v ih =>
    rw [ih, Base64.encode_three, b64Digit_eq, b64Digit_eq, b64Digit_eq, b64Digit_eq]
    simp only [List.length_cons, reduceCtorEq, false_or]
    by_cases hrest : rest = []
    · rw [hrest, Base64.encode_nil, if_pos (.inl rfl), if_pos (by rw [List.length_nil]; omega)]
      rfl
    · by_cases hfits : o + 4 + (Base64.encode rest).length < outSz
      · rw [if_pos (.inr hfits), if_pos (by omega)]
        rfl
      · rw [if_neg (not_or.mpr ⟨hrest, hfits⟩), if_neg (by omega)]
        rfl

theorem exists_ends_b64Encode (inp mem : CStr) (hpos : 0 < outSz) (hmem : outSz ≤ mem.length) :
    ∃ t, Ends (b64Step inp outSz) (b64Start mem) t ∧ t.Done inp mem outSz ∧
      b64Encode outSz 0 inp = if t.ret = 0 then some (t.out.takeWhile (· ≠ 0)) else none := by
  obtain ⟨t, hends, hdone⟩ := (writing_b64Start inp mem hpos).ends hmem
  refine ⟨t, hends, hdone, ?_⟩
  rw [b64Encode_eq, Nat.zero_add]
  by_cases hret : t.ret = 0
  · rw [if_pos hret, if_pos (.inr (hdone.ret_eq_zero_iff.mp hret)),
      takeWhile_of_encoded (hdone.encoded hret)]
  · rw [if_neg hret, if_neg]
    rintro (rfl | hlt)
    · exact hret (hdone.ret_eq_zero_iff.mpr hpos)
    · exact hret (hdone.ret_eq_zero_iff.mpr hlt)

/-! ## The header -/

variable {user pass : CStr}

/-- The first of the three buffers is the one that counts. -/
theorem buildBasicAuth_eq (huser : user ≠ []) : buildBasicAuth user pass 512 =
    if user.length + 1 + pass.length ≤ 319 then
      some (ascii "Authorization: Basic " ++ Base64.encode (user ++ 58 :: pass) ++ ascii "\r\n")
    else none := by
  have hlen : (user ++ 58 :: pass).length = user.length + 1 + pass.length := by
    rw [List.length_append, List.length_cons]
    ring
  rw [buildBasicAuth, if_neg (by simp [huser]), fitText, hlen]
  by_cases hfits : user.length + 1 + pass.length ≤ 319
  · have henc : (Base64.encode (user ++ 58 :: pass)).length ≤ 428 := by
      rw [Base64.length_encode, hlen]
      omega
    have hhdr : (ascii "Authorization: Basic " ++ Base64.encode (user ++ 58 :: pass) ++
        ascii "\r\n").length < 512 := by
      have h1 : (ascii "Authorization: Basic ").length = 21 := rfl
      have h2 : (ascii "\r\n").length = 2 := rfl
      rw [List.length_append, List.length_append, h1, h2]
      omega
    rw [if_pos (by omega), if_pos hfits, Option.bind_some, b64Encode_eq, if_pos (.inr (by omega)),
      Option.bind_some, fitText, if_pos hhdr]
  · rw [if_neg (by omega), if_neg hfits]
    rfl

/-- `b64_encode` and `build_basic_auth` -/
theorem basicAuth_encodes (inp mem : CStr) {outSz : ℕ} (hpos : 1 ≤ outSz)
    (hmem : outSz ≤ mem.length) {user : CStr} (huser : user ≠ []) (pass : CStr) :
    (∃ t, Ends (b64Step inp outSz) (b64Start mem) t ∧
      t.out.length = mem.length ∧ t.out.drop outSz = mem.drop outSz ∧
      (t.ret = 0 ∨ t.ret = -1) ∧
      (t.ret = 0 ↔ inp.length = 0 ∨ 4 * ((inp.length + 2) / 3) < outSz) ∧
      (t.ret = 0 → Base64.encode inp ++ [0] <+: t.out ∧
        Base64.decode (t.out.takeWhile (· ≠ 0)) = some inp)) ∧
    ((buildBasicAuth user pass 512).isSome = true ↔ user.length + 1 + pass.length ≤ 319) ∧
    ∀ hdr, buildBasicAuth user pass 512 = some hdr → ∃ line, hdr = line ++ [13, 10] ∧
      line = ascii "Authorization: Basic " ++ Base64.encode (user ++ 58 :: pass) ∧
      13 ∉ line ∧ 10 ∉ line := by
  refine ⟨?_, ?_, fun hdr hhdr ↦ ?_⟩
  · obtain ⟨t, hends, hdone, -⟩ := exists_ends_b64Encode inp mem hpos hmem
    refine ⟨t, hends, hdone.size, hdone.kept, ?_, ?_, fun hret ↦ ⟨hdone.encoded hret, ?_⟩⟩
    · rcases hdone.ret with ⟨hret, -⟩ | ⟨hret, -⟩
      · exact .inl hret
      · exact .inr hret
    · rw [hdone.ret_eq_zero_iff, Base64.length_encode]
      omega
    · rw [takeWhile_of_encoded (hdone.encoded hret), Base64.decode_encode]
  · rw [buildBasicAuth_eq huser]
    split_ifs with hfits
    · exact iff_of_true rfl hfits
    · exact iff_of_false (by simp) hfits
  · rw [buildBasicAuth_eq huser] at hhdr
    split_ifs at hhdr
    -- neither the name of the header nor the encoding has a control character
    have hprint : ∀ c ∈ ascii "Authorization: Basic " ++ Base64.encode (user ++ 58 :: pass),
        31 < c := by
      intro c hc
      rcases List.mem_append.mp hc with hc | hc
      · exact (by decide : ∀ c ∈ ascii "Authorization: Basic ", 31 < c) c hc
      · exact UInt8.lt_trans (by decide) (Base64.lt_of_mem_encode hc)
    exact ⟨_, (Option.some_inj.mp hhdr).symm, rfl, fun h ↦ absurd (hprint 13 h) (by decide),
      fun h ↦ absurd (hprint 10 h) (by decide)⟩

theorem basicAuth_encodes_foobar :
    (∃ t, Ends (b64Step (ascii "foobar") 9) (b64Start (List.replicate 9 255)) t ∧ t.ret = 0 ∧
      ascii "Zm9vYmFy" ++ [0] <+: t.out) ∧
    buildBasicAuth (ascii "u") (ascii "p") 512 = some (ascii "Authorization: Basic dTpw\r\n") := by
  obtain ⟨⟨t, hends, -, -, -, hret, hout⟩, hiff, hhdr⟩ :=
    basicAuth_encodes (ascii "foobar") (List.replicate 9 255) (by norm_num : 1 ≤ 9)
      (by rw [List.length_replicate]) (by decide : ascii "u" ≠ []) (ascii "p")
  have hzero := hret.mpr (.inr (by decide))
  have henc : Base64.encode (ascii "foobar") = ascii "Zm9vYmFy" := by decide +kernel
  refine ⟨⟨t, hends, hzero, henc ▸ (hout hzero).1⟩, ?_⟩
  obtain ⟨hdr, hsome⟩ := Option.isSome_iff_exists.mp (hiff.mpr (by decide))
  obtain ⟨line, rfl, rfl, -⟩ := hhdr hdr hsome
  rw [hsome]
  decide +kernel

end NetForensics
