import NetForensics.Util.EndAround
import NetForensics.Util.Loop
import NetForensics.Util.Text
import NetForensics.Util.Writes

/-!
# The ICMP checksum

`icmp_cksum`, which stands in `live_ping.c` and in `live_trace.c`: the words of the message are
added up in 32 bits, the carries are folded back into 16, and the complement is returned. Words are
read and the checksum is stored in the order of the machine, whichever that is.

A message of an even length up to 64 KiB with its checksum stored in a field that was zero has
checksum zero (`icmpCksum_verifies`). The field adds the complement of the sum, and
`EndAround.digitOf_add_complement` does the rest.
-/

namespace NetForensics

/-! ## Words in memory -/

/-- The order of the bytes of a word. -/
inductive ByteOrder where
  | little | big
  deriving DecidableEq

def ByteOrder.word : ByteOrder → UInt8 → UInt8 → UInt16
  | .little, x, y => UInt16.ofNat (x.toNat + 256 * y.toNat)
  | .big, x, y => UInt16.ofNat (256 * x.toNat + y.toNat)

def ByteOrder.bytes : ByteOrder → UInt16 → List UInt8
  | .little, w => [UInt8.ofNat (w.toNat % 256), UInt8.ofNat (w.toNat / 256)]
  | .big, w => [UInt8.ofNat (w.toNat / 256), UInt8.ofNat (w.toNat % 256)]

theorem ByteOrder.exists_bytes (order : ByteOrder) (w : UInt16) :
    ∃ x y, order.bytes w = [x, y] ∧ order.word x y = w := by
  have hlt := w.toNat_lt
  have hlow : (UInt8.ofNat (w.toNat % 256)).toNat = w.toNat % 256 := by
    rw [UInt8.toNat_ofNat']
    omega
  have hhigh : (UInt8.ofNat (w.toNat / 256)).toNat = w.toNat / 256 := by
    rw [UInt8.toNat_ofNat']
    omega
  cases order with
  | little =>
    refine ⟨_, _, rfl, ?_⟩
    rw [word, hlow, hhigh, Nat.mod_add_div, UInt16.ofNat_toNat]
  | big =>
    refine ⟨_, _, rfl, ?_⟩
    rw [word, hlow, hhigh, Nat.div_add_mod, UInt16.ofNat_toNat]

/-! ## The checksum -/

/-- The first loop of `icmp_cksum`, and the odd byte behind it. -/
def sumWords (order : ByteOrder) : List UInt8 → UInt32 → UInt32
  | [], sum => sum
  | [b], sum => sum + b.toUInt32
  | x :: y :: rest, sum => sumWords order rest (sum + (order.word x y).toUInt32)

/-- One turn of the second loop. -/
def foldStep (sum : UInt32) : Option (Turn UInt32) :=
  if sum >>> (16 : UInt32) ≠ 0 then
    some (.go ((sum &&& (0xffff : UInt32)) + (sum >>> (16 : UInt32))))
  else some (.stop sum)

/-- `icmp_cksum`, if the second loop ends within `fuel` turns. -/
def icmpCksum (order : ByteOrder) (msg : List UInt8) (fuel : ℕ) : Option UInt16 :=
  match loop foldStep fuel (sumWords order msg 0) with
  | some (.stop sum) => some (~~~sum).toUInt16
  | _ => none

/-! ## The sum -/

/-- The words of a message, without an odd byte at its end. -/
def words (order : ByteOrder) : List UInt8 → List UInt16
  | x :: y :: rest => order.word x y :: words order rest
  | _ => []

def wordSum (order : ByteOrder) (msg : List UInt8) : ℕ := ((words order msg).map UInt16.toNat).sum

variable {order : ByteOrder} {msg : List UInt8}

theorem wordSum_cons_cons (order : ByteOrder) (x y : UInt8) (rest : List UInt8) :
    wordSum order (x :: y :: rest) = (order.word x y).toNat + wordSum order rest := by
  rw [wordSum, words, List.map_cons, List.sum_cons, wordSum]

theorem wordSum_append (order : ByteOrder) (t : List UInt8) :
    ∀ s : List UInt8, s.length % 2 = 0 → wordSum order (s ++ t) = wordSum order s + wordSum order t
  | [], _ => (Nat.zero_add _).symm
  | [_], hs => absurd hs (by simp)
  | x :: y :: rest, hs => by
    have hrest : rest.length % 2 = 0 := by
      rw [List.length_cons, List.length_cons] at hs
      omega
    rw [List.cons_append, List.cons_append, wordSum_cons_cons, wordSum_cons_cons,
      wordSum_append order t rest hrest, Nat.add_assoc]

theorem wordSum_le (order : ByteOrder) :
    ∀ msg : List UInt8, wordSum order msg ≤ 65535 * (msg.length / 2)
  | [] => Nat.zero_le _
  | [_] => Nat.zero_le _
  | x :: y :: rest => by
    have hword := (order.word x y).toNat_lt
    have hrest := wordSum_le order rest
    rw [wordSum_cons_cons, List.length_cons, List.length_cons]
    omega

theorem toNat_sumWords (order : ByteOrder) : ∀ (msg : List UInt8) (sum : UInt32),
    msg.length % 2 = 0 → sum.toNat + wordSum order msg < 2 ^ 32 →
    (sumWords order msg sum).toNat = sum.toNat + wordSum order msg
  | [], _, _, _ => rfl
  | [_], _, heven, _ => absurd heven (by simp)
  | x :: y :: rest, sum, heven, h => by
    rw [wordSum_cons_cons] at h ⊢
    have hrest : rest.length % 2 = 0 := by
      rw [List.length_cons, List.length_cons] at heven
      omega
    have hadd : (sum + (order.word x y).toUInt32).toNat = sum.toNat + (order.word x y).toNat := by
      rw [UInt32.toNat_add, UInt16.toNat_toUInt32]
      exact Nat.mod_eq_of_lt (by omega)
    rw [sumWords, toNat_sumWords order rest _ hrest (by rw [hadd]; omega), hadd, Nat.add_assoc]

theorem wordSum_lt (order : ByteOrder) {msg : List UInt8} (h : msg.length ≤ 65536) :
    wordSum order msg < 2 ^ 32 := by
  have hle := wordSum_le order msg
  omega

/-! ## Folding -/

theorem toNat_low (sum : UInt32) : (sum &&& (0xffff : UInt32)).toNat = sum.toNat % 2 ^ 16 := by
  rw [UInt32.toNat_and]
  exact Nat.and_two_pow_sub_one_eq_mod sum.toNat 16

theorem toNat_high (sum : UInt32) : (sum >>> (16 : UInt32)).toNat = sum.toNat / 2 ^ 16 := by
  rw [UInt32.toNat_shiftRight, Nat.shiftRight_eq_div_pow]
  rfl

theorem foldStep_of_lt {sum : UInt32} (h : sum.toNat < 2 ^ 16) :
    foldStep sum = some (.stop sum) := by
  have hhigh : sum >>> (16 : UInt32) = 0 := by
    rw [← UInt32.toNat_inj, toNat_high, Nat.div_eq_of_lt h]
    rfl
  rw [foldStep, hhigh]
  rfl

theorem foldStep_of_le {sum : UInt32} (h : 2 ^ 16 ≤ sum.toNat) :
    ∃ t, foldStep sum = some (.go t) ∧ t.toNat = EndAround.fold (2 ^ 16) sum.toNat := by
  have hhigh : sum >>> (16 : UInt32) ≠ 0 := by
    intro hzero
    rw [← UInt32.toNat_inj, toNat_high, UInt32.toNat_zero] at hzero
    omega
  refine ⟨(sum &&& (0xffff : UInt32)) + (sum >>> (16 : UInt32)), by rw [foldStep, if_pos hhigh], ?_⟩
  have hlt := sum.toNat_lt
  rw [UInt32.toNat_add, toNat_low, toNat_high, EndAround.fold]
  exact Nat.mod_eq_of_lt (by omega)

/-- The loop folds at most twice, and leaves the digit of the sum. -/
theorem loop_foldStep (sum : UInt32) : ∃ t, loop foldStep 3 sum = some (.stop t) ∧
    t.toNat = EndAround.digitOf (2 ^ 16) sum.toNat ∧ t.toNat < 2 ^ 16 := by
  by_cases h1 : sum.toNat < 2 ^ 16
  · exact ⟨sum, loop_of_stop (foldStep_of_lt h1) 2, (EndAround.digitOf_of_lt h1).symm, h1⟩
  obtain ⟨t, hgo, ht⟩ := foldStep_of_le (Nat.not_lt.mp h1)
  rw [loop_of_go hgo, ← EndAround.digitOf_fold (by norm_num) sum.toNat, ← ht]
  by_cases h2 : t.toNat < 2 ^ 16
  · exact ⟨t, loop_of_stop (foldStep_of_lt h2) 1, (EndAround.digitOf_of_lt h2).symm, h2⟩
  obtain ⟨u, hgo', hu⟩ := foldStep_of_le (Nat.not_lt.mp h2)
  rw [loop_of_go hgo', ← EndAround.digitOf_fold (by norm_num) t.toNat, ← hu]
  -- after one fold there is a carry of one at most
  have h3 : u.toNat < 2 ^ 16 := by
    have hlt := sum.toNat_lt
    rw [EndAround.fold] at ht hu
    omega
  exact ⟨u, loop_of_stop (foldStep_of_lt h3) 0, (EndAround.digitOf_of_lt h3).symm, h3⟩

/-! ## Verification -/

theorem exists_icmpCksum (order : ByteOrder) (heven : msg.length % 2 = 0)
    (hlen : msg.length ≤ 65536) :
    ∃ c, (∀ fuel, 3 ≤ fuel → icmpCksum order msg fuel = some c) ∧
      c.toNat = 2 ^ 16 - 1 - EndAround.digitOf (2 ^ 16) (wordSum order msg) := by
  have hsum : (sumWords order msg 0).toNat = wordSum order msg := by
    have hlt := wordSum_lt order hlen
    rw [toNat_sumWords order msg 0 heven (by rw [UInt32.toNat_zero]; omega), UInt32.toNat_zero,
      Nat.zero_add]
  obtain ⟨t, hloop, ht, hlt⟩ := loop_foldStep (sumWords order msg 0)
  refine ⟨(~~~t).toUInt16, fun fuel hfuel ↦ ?_, ?_⟩
  · obtain ⟨k, rfl⟩ := Nat.exists_eq_add_of_le hfuel
    rw [icmpCksum, loop_add hloop]
  · rw [UInt32.toNat_toUInt16, UInt32.toNat_not, ← hsum, ← ht]
    have hsize : UInt32.size = 2 ^ 32 := rfl
    omega

theorem exists_around {k : ℕ} (hzero : (msg.drop k).take 2 = [0, 0]) :
    ∃ pre post, msg = pre ++ (0 :: 0 :: post) ∧ pre.length = k := by
  have hlen := congrArg List.length hzero
  rw [List.length_take, List.length_drop] at hlen
  have hfit : k + 2 ≤ msg.length := by
    have hmin : min 2 (msg.length - k) = 2 := hlen
    omega
  refine ⟨msg.take k, (msg.drop k).drop 2, ?_, ?_⟩
  · have hfield := List.take_append_drop 2 (msg.drop k)
    rw [hzero] at hfield
    have hfield' : (0 : UInt8) :: 0 :: (msg.drop k).drop 2 = msg.drop k := hfield
    rw [hfield', List.take_append_drop]
  · rw [List.length_take]
    omega

/-- Storing the checksum adds it to the sum, and the rest of the message stays as it is. -/
theorem exists_stored {k : ℕ} (hk : k % 2 = 0) (hzero : (msg.drop k).take 2 = [0, 0])
    (c : UInt16) :
    ∃ msg', writeSlice msg k (order.bytes c) = some msg' ∧ msg'.length = msg.length ∧
      wordSum order msg' = wordSum order msg + c.toNat := by
  obtain ⟨pre, post, rfl, rfl⟩ := exists_around hzero
  obtain ⟨x, y, hbytes, hword⟩ := order.exists_bytes c
  refine ⟨pre ++ (x :: y :: post), ?_, ?_, ?_⟩
  · rw [hbytes, writeSlice_of_le (by simp), List.take_left]
    have hdrop : (pre ++ 0 :: 0 :: post).drop (pre.length + [x, y].length) = post := by simp
    rw [hdrop]
    rfl
  · simp
  · have hnone : (order.word 0 0).toNat = 0 := by cases order <;> rfl
    rw [wordSum_append order _ pre hk, wordSum_append order _ pre hk, wordSum_cons_cons,
      wordSum_cons_cons, hword, hnone]
    ring

theorem icmpCksum_stored (order : ByteOrder) (heven : msg.length % 2 = 0)
    (hlen : msg.length ≤ 65536) {k : ℕ} (hk : k % 2 = 0) (hzero : (msg.drop k).take 2 = [0, 0]) :
    ∃ c msg', (∀ fuel, 3 ≤ fuel → icmpCksum order msg fuel = some c) ∧
      writeSlice msg k (order.bytes c) = some msg' ∧
      ∀ fuel, 3 ≤ fuel → icmpCksum order msg' fuel = some 0 := by
  obtain ⟨c, hc, hval⟩ := exists_icmpCksum order heven hlen
  obtain ⟨msg', hstore, hsize, hsum⟩ := exists_stored hk hzero c
  obtain ⟨d, hd, hdval⟩ := exists_icmpCksum order (hsize ▸ heven) (hsize ▸ hlen)
  -- the sum and the complement of its digit
  rw [hsum, hval, EndAround.digitOf_add_complement (by norm_num), Nat.sub_self] at hdval
  have hd0 : d = 0 := UInt16.toNat_inj.mp hdval
  exact ⟨c, msg', hc, hstore, hd0 ▸ hd⟩

/-- For messages of an even length up to 64 KiB the sum does not wrap and folding ends in 16 bits;
with the checksum stored in a field that was zero, the checksum of the whole is zero. -/
theorem icmpCksum_verifies (order : ByteOrder) (msg : List UInt8) (heven : msg.length % 2 = 0)
    (hlen : msg.length ≤ 65536) :
    (∀ m, m % 2 = 0 → (sumWords order (msg.take m) 0).toNat = wordSum order (msg.take m)) ∧
    (∃ sum, Ends foldStep (sumWords order msg 0) sum ∧ sum.toNat < 2 ^ 16) ∧
    ∀ k, k % 2 = 0 → (msg.drop k).take 2 = [0, 0] →
      ∃ c msg', (∀ fuel, 3 ≤ fuel → icmpCksum order msg fuel = some c) ∧
        writeSlice msg k (order.bytes c) = some msg' ∧
        ∀ fuel, 3 ≤ fuel → icmpCksum order msg' fuel = some 0 := by
  refine ⟨fun m hm ↦ ?_, ?_, fun k hk hzero ↦ icmpCksum_stored order heven hlen hk hzero⟩
  · have htake : (msg.take m).length % 2 = 0 := by
      rw [List.length_take]
      omega
    have hlt := wordSum_lt order ((List.length_take_le' m msg).trans hlen)
    rw [toNat_sumWords order _ 0 htake (by rw [UInt32.toNat_zero]; omega), UInt32.toNat_zero,
      Nat.zero_add]
  · obtain ⟨sum, hloop, -, hlt⟩ := loop_foldStep (sumWords order msg 0)
    exact ⟨sum, ⟨3, hloop⟩, hlt⟩

/-- The words of a message that sum up to `0xffff`: stored with it, the checksum is zero itself. -/
theorem icmpCksum_verifies_ones :
    ∃ c msg', icmpCksum .little [0, 0, 255, 255] 3 = some c ∧
      writeSlice [0, 0, 255, 255] 0 (ByteOrder.little.bytes c) = some msg' ∧
      icmpCksum .little msg' 3 = some 0 := by
  obtain ⟨-, -, hstored⟩ :=
    icmpCksum_verifies .little [0, 0, 255, 255] (by decide) (by decide)
  obtain ⟨c, msg', hc, hstore, hzero⟩ := hstored 0 (by decide) (by decide)
  exact ⟨c, msg', hc 3 le_rfl, hstore, hzero 3 le_rfl⟩

/-! ## The echo request -/

/-- `struct cpe_icmp_echo` as both programs fill it in: `htons` brings the identifier and the
sequence number into network order, the checksum stays in the order of the machine. -/
def cpeIcmpEcho (order : ByteOrder) (checksum id seq : UInt16) : List UInt8 :=
  [8, 0] ++ order.bytes checksum ++ ByteOrder.big.bytes id ++ ByteOrder.big.bytes seq ++
    ascii "cpeagent"

theorem exists_cpeIcmpEcho (order : ByteOrder) (id seq : UInt16) :
    ∃ c, icmpCksum order (cpeIcmpEcho order 0 id seq) 3 = some c ∧
      icmpCksum order (cpeIcmpEcho order c id seq) 3 = some 0 := by
  have hlen : (cpeIcmpEcho order 0 id seq).length = 16 := by cases order <;> rfl
  have hfield : ((cpeIcmpEcho order 0 id seq).drop 2).take 2 = [0, 0] := by cases order <;> rfl
  have hstore : ∀ c, writeSlice (cpeIcmpEcho order 0 id seq) 2 (order.bytes c) =
      some (cpeIcmpEcho order c id seq) := by
    intro c
    cases order <;> rfl
  obtain ⟨c, msg', hc, hmsg, hzero⟩ :=
    icmpCksum_stored order (by rw [hlen]) (by rw [hlen]; norm_num) (by norm_num : 2 % 2 = 0) hfield
  rw [hstore, Option.some_inj] at hmsg
  exact ⟨c, hc 3 le_rfl, hmsg ▸ hzero 3 le_rfl⟩

end NetForensics
