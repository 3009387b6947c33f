import NetForensics.Wifi.Family

/-!
# Splitting a netlink batch

Three loops go from message to message in a buffer: `feed_and_apply` feeds the conntrack parser one
at a time, `ctrl_resolve_family` looks for an attribute in each, and `wifi_dump_once` for the
message that ends a dump. All three add the length in the header to the offset before they compare
the sum with the end of the buffer. The sum is a `size_t`: where that has 32 bits, a length close to
2^32 wraps around, passes the test and moves the offset back.

A batch is also said without a program: the messages that fit, one behind the other, and the offset
at which none fits any more (`Batch`). The loops are compared with it.
-/

namespace NetForensics

/-! ## The loops -/

/-- The offset of a loop, and the slices it has gone through. -/
structure BatchWalk where
  off : ℕ
  slices : List (ℕ × ℕ)

/-- The body the three loops share, for a `size_t` of the given width. What is done with a message
can fault and can leave the loop. -/
def splitStep (w : WordSize) (buf : List UInt8) (leaves : ℕ → ℕ → Option Bool) (s : BatchWalk) :
    Option (Turn BatchWalk) :=
  if buf.length < (s.off + 16) % 2 ^ w.bits then some (.stop s)
  else
    match readLe buf s.off 4 with
    | none => none
    | some nlLen =>
      if nlLen < 16 ∨ buf.length < (s.off + nlLen) % 2 ^ w.bits then some (.stop s)
      else
        let slices := s.slices ++ [(s.off, nlLen)]
        match leaves s.off nlLen with
        | none => none
        | some true => some (.stop ⟨s.off, slices⟩)
        | some false => some (.go ⟨(s.off + (nlLen + 3) % 2 ^ 32 / 4 * 4) % 2 ^ w.bits, slices⟩)

/-- The loop of `feed_and_apply`. It leaves when the aligned length is zero. -/
def feedStep (w : WordSize) (buf : List UInt8) : BatchWalk → Option (Turn BatchWalk) :=
  splitStep w buf fun _ nlLen ↦ some (decide ((nlLen + 3) % 2 ^ 32 / 4 * 4 = 0))

/-- Whether `ctrl_resolve_family` finds the id in a message. Its inner loop stays below the end that
is computed here, and so cannot wrap. -/
def familyIn (w : WordSize) (buf : List UInt8) (off len : ℕ) : Option Bool :=
  match readLe buf (off + 4) 2 with
  | none => none
  | some type =>
    if type = genlIdCtrl ∧ 16 + 4 ≤ len then
      (familyAttrs buf (off + (16 + 4)) ((off + len) % 2 ^ w.bits)).map Option.isSome
    else some false

/-- The outer loop of `ctrl_resolve_family`. -/
def resolveStep (w : WordSize) (buf : List UInt8) : BatchWalk → Option (Turn BatchWalk) :=
  splitStep w buf (familyIn w buf)

/-- The loop of `wifi_dump_once` over what it has received; it reads the type of every message. -/
def dumpStep (w : WordSize) (buf : List UInt8) : BatchWalk → Option (Turn BatchWalk) :=
  splitStep w buf fun off _ ↦ (readLe buf (off + 4) 2).map fun _ ↦ false

/-! ## Batches -/

/-- The messages from an offset on that fit, one behind the other, and the offset behind them, at
which none fits. -/
inductive Batch (buf : List UInt8) : ℕ → List (ℕ × ℕ) → ℕ → Prop
  | done {o : ℕ} (h : ¬ ∃ n, Fits buf o n) : Batch buf o [] o
  | message {o n e : ℕ} {ms : List (ℕ × ℕ)} (h : Fits buf o n)
      (rest : Batch buf (o + nflogNlaAlign n) ms e) : Batch buf o ((o, n) :: ms) e

/-- Up to the first message with which a loop leaves. -/
def upTo (leaves : ℕ × ℕ → Bool) : List (ℕ × ℕ) → List (ℕ × ℕ)
  | [] => []
  | m :: ms => if leaves m then [m] else m :: upTo leaves ms

variable {w : WordSize} {buf : List UInt8} {leaves : ℕ → ℕ → Option Bool} {stops : ℕ × ℕ → Bool}
  {s t : BatchWalk} {o n e : ℕ} {ms : List (ℕ × ℕ)}

theorem Fits.unique {m : ℕ} (h : Fits buf o n) (h' : Fits buf o m) : n = m :=
  Option.some_inj.mp (h.len.symm.trans h'.len)

theorem Batch.unique {e' : ℕ} {ms' : List (ℕ × ℕ)} (h : Batch buf o ms e)
    (h' : Batch buf o ms' e') : ms = ms' ∧ e = e' := by
  induction h generalizing ms' with
  | done hnone =>
    cases h' with
    | done => exact ⟨rfl, rfl⟩
    | message hfits => exact absurd ⟨_, hfits⟩ hnone
  | message hfits _ ih =>
    cases h' with
    | done hnone => exact absurd ⟨_, hfits⟩ hnone
    | message hfits' rest' =>
      obtain rfl := hfits.unique hfits'
      obtain ⟨rfl, rfl⟩ := ih rest'
      exact ⟨rfl, rfl⟩

theorem exists_batch (buf : List UInt8) (o : ℕ) : ∃ ms e, Batch buf o ms e := by
  induction hm : buf.length - o using Nat.strong_induction_on generalizing o with
  | _ m ih =>
    by_cases h : ∃ n, Fits buf o n
    · obtain ⟨n, hfits⟩ := h
      have hheader := hfits.header
      have hroom := hfits.room
      have halign := le_nflogNlaAlign n
      obtain ⟨ms, e, hbatch⟩ := ih (buf.length - (o + nflogNlaAlign n)) (by omega) _ rfl
      exact ⟨_, e, .message hfits hbatch⟩
    · exact ⟨[], o, .done h⟩

theorem Batch.end_not_fits (h : Batch buf o ms e) : ¬ ∃ n, Fits buf e n := by
  induction h with
  | done hnone => exact hnone
  | message _ _ ih => exact ih

theorem Batch.end_le (h : Batch buf o ms e) (ho : o ≤ buf.length + 3) : e ≤ buf.length + 3 := by
  induction h with
  | done => exact ho
  | message hfits _ ih =>
    have hroom := hfits.room
    refine ih ?_
    rw [nflogNlaAlign]
    omega

theorem Batch.fits_of_mem (h : Batch buf o ms e) {m : ℕ × ℕ} (hm : m ∈ ms) :
    Fits buf m.1 m.2 := by
  induction h with
  | done => exact absurd hm List.not_mem_nil
  | message hfits _ ih =>
    rcases List.mem_cons.mp hm with rfl | hm
    · exact hfits
    · exact ih hm

/-! ## One turn -/

theorem lt_of_len_lt (hlen : buf.length < 2 ^ 31) (h : o ≤ buf.length + 3) :
    (o + 16) % 2 ^ w.bits = o + 16 := by
  refine Nat.mod_eq_of_lt ?_
  cases w <;> simp only [WordSize.bits] <;> omega

variable (w leaves) in
theorem splitStep_of_fits (hlen : buf.length < 2 ^ 31) (h : Fits buf s.off n) :
    splitStep w buf leaves s = match leaves s.off n with
      | none => none
      | some true => some (.stop ⟨s.off, s.slices ++ [(s.off, n)]⟩)
      | some false => some (.go ⟨s.off + nflogNlaAlign n, s.slices ++ [(s.off, n)]⟩) := by
  have hheader := h.header
  have hroom := h.room
  have hsum : (s.off + n) % 2 ^ w.bits = s.off + n := by
    refine Nat.mod_eq_of_lt ?_
    cases w <;> simp only [WordSize.bits] <;> omega
  have hnext : (s.off + (n + 3) % 2 ^ 32 / 4 * 4) % 2 ^ w.bits = s.off + nflogNlaAlign n := by
    rw [Nat.mod_eq_of_lt (a := n + 3) (by omega), nflogNlaAlign]
    refine Nat.mod_eq_of_lt ?_
    cases w <;> simp only [WordSize.bits] <;> omega
  rw [splitStep, lt_of_len_lt hlen (by omega), if_neg (by omega), h.len]
  dsimp only
  rw [if_neg (by omega), hnext]

def NoWrap (w : WordSize) (buf : List UInt8) (o : ℕ) : Prop :=
  ∀ n, o + 16 ≤ buf.length → readLe buf o 4 = some n → o + n < 2 ^ w.bits

/-- Where no message fits, a loop ends, if the length it finds there does not wrap. -/
theorem splitStep_of_not_fits (hlen : buf.length < 2 ^ 31) (hoff : s.off ≤ buf.length + 3)
    (h : ¬ ∃ n, Fits buf s.off n) (hwrap : NoWrap w buf s.off) :
    splitStep w buf leaves s = some (.stop s) := by
  rw [splitStep, lt_of_len_lt hlen hoff]
  by_cases hroom : buf.length < s.off + 16
  · rw [if_pos hroom]
  · rw [if_neg hroom, readLe_of_le (by omega)]
    have hread : readLe buf s.off 4 = _ := readLe_of_le (by omega)
    generalize leNat ((buf.drop s.off).take 4) = nlLen at hread
    have hlt := hwrap nlLen (by omega) hread
    dsimp only
    rw [Nat.mod_eq_of_lt hlt, if_pos]
    by_contra hnot
    exact h ⟨nlLen, hread, by omega, by omega⟩

theorem splitStep_of_wrap (hlen : buf.length < 2 ^ 31) (hroom : s.off + 16 ≤ buf.length)
    (hread : readLe buf s.off 4 = some n) (hwrap : 2 ^ w.bits ≤ s.off + n) {t : BatchWalk}
    (ht : splitStep w buf leaves s = some (.stop t) ∨ splitStep w buf leaves s = some (.go t)) :
    t.slices = s.slices ++ [(s.off, n)] := by
  have hlt : n < 2 ^ 32 := lt_of_readLe hread
  have hpass : ¬ (n < 16 ∨ buf.length < (s.off + n) % 2 ^ w.bits) := by
    cases w <;> simp only [WordSize.bits] at hwrap ⊢ <;> omega
  rw [splitStep, lt_of_len_lt hlen (by omega), if_neg (by omega), hread] at ht
  dsimp only at ht
  rw [if_neg hpass] at ht
  cases hl : leaves s.off n with
  | none =>
    rw [hl] at ht
    simp at ht
  | some b =>
    rw [hl] at ht
    cases b <;> simp at ht <;> rw [← ht]

/-! ## A whole run -/

theorem slices_of_turn
    (h : splitStep w buf leaves s = some (.stop t) ∨ splitStep w buf leaves s = some (.go t)) :
    s.slices <+: t.slices := by
  unfold splitStep at h
  split at h
  · simp only [Option.some.injEq, Turn.stop.injEq, reduceCtorEq, or_false] at h
    rw [h]
  · split at h
    · simp at h
    · split at h
      · simp only [Option.some.injEq, Turn.stop.injEq, reduceCtorEq, or_false] at h
        rw [h]
      · dsimp only at h
        split at h
        · simp at h
        · simp only [Option.some.injEq, Turn.stop.injEq, reduceCtorEq, or_false] at h
          rw [← h]
          exact List.prefix_append _ _
        · simp only [Option.some.injEq, Turn.go.injEq, reduceCtorEq, false_or] at h
          rw [← h]
          exact List.prefix_append _ _

theorem slices_of_ends (h : Ends (splitStep w buf leaves) s t) : s.slices <+: t.slices := by
  obtain ⟨n, hn⟩ := h
  induction n generalizing s with
  | zero => simp [loop] at hn
  | succ n ih =>
    cases hs : splitStep w buf leaves s with
    | none =>
      rw [loop, hs] at hn
      simp at hn
    | some turn =>
      cases turn with
      | stop u =>
        rw [loop_of_stop hs] at hn
        obtain rfl := Turn.stop.inj (Option.some_inj.mp hn)
        exact slices_of_turn (Or.inl hs)
      | go u =>
        rw [loop_of_go hs] at hn
        exact (slices_of_turn (Or.inr hs)).trans (ih hn)

/-- After a length that wraps, the slice that does not fit stays among those that were used. -/
theorem slices_of_wrap (hlen : buf.length < 2 ^ 31) (hroom : s.off + 16 ≤ buf.length)
    (hread : readLe buf s.off 4 = some n) (hwrap : 2 ^ w.bits ≤ s.off + n)
    (h : Ends (splitStep w buf leaves) s t) : s.slices ++ [(s.off, n)] <+: t.slices := by
  obtain ⟨k, hk⟩ := h
  -- the first turn takes the slice, and no later one gives it back
  cases k with
  | zero => simp [loop] at hk
  | succ k =>
    cases hs : splitStep w buf leaves s with
    | none =>
      rw [loop, hs] at hk
      simp at hk
    | some turn =>
      cases turn with
      | stop u =>
        rw [loop_of_stop hs] at hk
        rw [← Turn.stop.inj (Option.some_inj.mp hk),
          splitStep_of_wrap hlen hroom hread hwrap (Or.inl hs)]
      | go u =>
        rw [loop_of_go hs] at hk
        rw [← splitStep_of_wrap hlen hroom hread hwrap (Or.inr hs)]
        exact slices_of_ends ⟨k, hk⟩

/-- What a body does with the messages of a batch: it leaves with those of a kind. -/
def LeavesWith (buf : List UInt8) (leaves : ℕ → ℕ → Option Bool) (stops : ℕ × ℕ → Bool) : Prop :=
  ∀ o n, Fits buf o n → leaves o n = some (stops (o, n))

/-- A loop goes through a batch up to the first message with which it leaves. -/
theorem ends_upTo (hlen : buf.length < 2 ^ 31) (hleaves : LeavesWith buf leaves stops)
    (h : Batch buf o ms e) (hstop : ∃ m ∈ ms, stops m = true) (past : List (ℕ × ℕ)) :
    ∃ t, Ends (splitStep w buf leaves) ⟨o, past⟩ t ∧ t.slices = past ++ upTo stops ms := by
  induction h generalizing past with
  | done =>
    obtain ⟨m, hm, -⟩ := hstop
    exact absurd hm List.not_mem_nil
  | @message o n e ms hfits rest ih =>
    have hstep := splitStep_of_fits w leaves (s := ⟨o, past⟩) hlen hfits
    rw [hleaves o n hfits] at hstep
    rw [upTo]
    cases hs : stops (o, n) with
    | true =>
      rw [hs] at hstep
      exact ⟨_, ⟨1, loop_of_stop hstep 0⟩, rfl⟩
    | false =>
      rw [hs] at hstep
      have hrest : ∃ m ∈ ms, stops m = true := by
        obtain ⟨m, hm, hmstop⟩ := hstop
        rcases List.mem_cons.mp hm with rfl | hm
        · exact absurd hmstop (Bool.eq_false_iff.mp hs)
        · exact ⟨m, hm, hmstop⟩
      obtain ⟨t, ⟨k, hk⟩, hslices⟩ := ih hrest (past ++ [(o, n)])
      refine ⟨t, ⟨k + 1, (loop_of_go hstep k).trans hk⟩, ?_⟩
      rw [hslices, if_neg Bool.false_ne_true, List.append_assoc]
      rfl

/-- A loop that leaves with no message of a batch comes to its end. -/
theorem reaches_end (hlen : buf.length < 2 ^ 31) (hleaves : LeavesWith buf leaves stops)
    (h : Batch buf o ms e) (hstop : ∀ m ∈ ms, stops m = false) (past : List (ℕ × ℕ)) :
    Reaches (splitStep w buf leaves) ⟨o, past⟩ ⟨e, past ++ ms⟩ := by
  induction h generalizing past with
  | done =>
    rw [List.append_nil]
    exact .refl
  | @message o n e ms hfits rest ih =>
    have hstep := splitStep_of_fits w leaves (s := ⟨o, past⟩) hlen hfits
    rw [hleaves o n hfits, hstop (o, n) List.mem_cons_self] at hstep
    have hrest := ih (fun m hm ↦ hstop m (List.mem_cons_of_mem _ hm)) (past ++ [(o, n)])
    rw [List.append_assoc] at hrest
    exact .head hstep hrest

theorem upTo_of_none (h : ∀ m ∈ ms, stops m = false) : upTo stops ms = ms := by
  induction ms with
  | nil => rfl
  | cons m ms ih =>
    rw [upTo, h m List.mem_cons_self, if_neg Bool.false_ne_true,
      ih fun k hk ↦ h k (List.mem_cons_of_mem m hk)]

theorem mem_of_mem_upTo {m : ℕ × ℕ} (h : m ∈ upTo stops ms) : m ∈ ms := by
  fun_induction upTo stops ms with
  | case1 => exact h
  | case2 k ms hk => exact List.mem_singleton.mp h ▸ List.mem_cons_self
  | case3 k ms hk ih =>
    rcases List.mem_cons.mp h with rfl | h
    · exact List.mem_cons_self
    · exact List.mem_cons_of_mem k (ih h)

/-- The loop ends, and the slices it has used are the messages of the batch, in order, up to the
first with which it may leave; each lies inside the buffer. -/
def Splits (step : BatchWalk → Option (Turn BatchWalk)) (buf : List UInt8)
    (stops : ℕ × ℕ → Bool) : Prop :=
  ∃ ms e t, Batch buf 0 ms e ∧ Ends step ⟨0, []⟩ t ∧ t.slices = upTo stops ms ∧
    ∀ m ∈ t.slices, m.1 + m.2 ≤ buf.length

/-- The loop leaves with a message, or the length that is found behind the last one does not reach
around the word. -/
def EndsInside (w : WordSize) (buf : List UInt8) (stops : ℕ × ℕ → Bool) : Prop :=
  ∀ ms e, Batch buf 0 ms e → (∃ m ∈ ms, stops m = true) ∨ NoWrap w buf e

theorem splits_iff (hlen : buf.length < 2 ^ 31) (hleaves : LeavesWith buf leaves stops) :
    Splits (splitStep w buf leaves) buf stops ↔ EndsInside w buf stops := by
  constructor
  · rintro ⟨ms, e, t, hbatch, hends, hslices, -⟩ ms' e' hbatch'
    obtain ⟨rfl, rfl⟩ := hbatch.unique hbatch'
    by_cases hstop : ∃ m ∈ ms, stops m = true
    · exact Or.inl hstop
    · refine Or.inr fun n hroom hread ↦ ?_
      have hnone : ∀ m ∈ ms, stops m = false := fun m hm ↦
        Bool.eq_false_iff.mpr fun hs ↦ hstop ⟨m, hm, hs⟩
      by_contra hwrap
      have hrest := Ends.of_reaches (reaches_end (w := w) hlen hleaves hbatch hnone []) hends
      rw [upTo_of_none hnone] at hslices
      -- the slice that does not fit is among those of the run, which are the messages
      have hgrow := slices_of_wrap hlen hroom hread (not_lt.mp hwrap) hrest
      have hle := hgrow.length_le
      rw [hslices, List.length_append] at hle
      exact absurd hle (by simp)
  · intro h
    obtain ⟨ms, e, hbatch⟩ := exists_batch buf 0
    have hinside : ∀ {past}, past = upTo stops ms → ∀ m ∈ past, m.1 + m.2 ≤ buf.length :=
      fun hpast m hm ↦ (hbatch.fits_of_mem (mem_of_mem_upTo (hpast ▸ hm))).room
    by_cases hstop : ∃ m ∈ ms, stops m = true
    · obtain ⟨t, hends, hslices⟩ := ends_upTo (w := w) hlen hleaves hbatch hstop []
      exact ⟨ms, e, t, hbatch, hends, hslices, hinside hslices⟩
    · have hnone : ∀ m ∈ ms, stops m = false := fun m hm ↦
        Bool.eq_false_iff.mpr fun hs ↦ hstop ⟨m, hm, hs⟩
      have hstay := (h ms e hbatch).resolve_left hstop
      have hlast : splitStep w buf leaves ⟨e, [] ++ ms⟩ = some (.stop ⟨e, [] ++ ms⟩) :=
        splitStep_of_not_fits hlen (hbatch.end_le (Nat.zero_le _)) hbatch.end_not_fits hstay
      refine ⟨ms, e, ⟨e, ms⟩, hbatch, ?_, (upTo_of_none hnone).symm,
        hinside (upTo_of_none hnone).symm⟩
      exact (reaches_end hlen hleaves hbatch hnone []).ends ⟨1, loop_of_stop hlast 0⟩

theorem endsInside_iff (hlen : buf.length < 2 ^ 31) :
    EndsInside w buf stops ↔ w = .w64 ∨ EndsInside .w32 buf stops := by
  cases w with
  | w32 => simp
  | w64 =>
    refine iff_of_true (fun ms e hbatch ↦ Or.inr fun n _ hread ↦ ?_) (Or.inl rfl)
    have hle := hbatch.end_le (Nat.zero_le _)
    have hlt : n < 2 ^ 32 := lt_of_readLe hread
    simp only [WordSize.bits]
    omega

/-! ## The three loops -/

theorem leavesWith_feed (hlen : buf.length < 2 ^ 31) :
    LeavesWith buf (fun _ nlLen ↦ some (decide ((nlLen + 3) % 2 ^ 32 / 4 * 4 = 0)))
      fun _ ↦ false := by
  intro o n hfits
  have hheader := hfits.header
  have hroom := hfits.room
  dsimp only
  rw [decide_eq_false (by omega)]

theorem leavesWith_dump :
    LeavesWith buf (fun off _ ↦ (readLe buf (off + 4) 2).map fun _ ↦ false) fun _ ↦ false := by
  intro o n hfits
  have hheader := hfits.header
  have hroom := hfits.room
  dsimp only
  rw [readLe_of_le (by omega), Option.map_some]

/-- The message has the id of a family, in the arithmetic that does not wrap. -/
def holdsFamily (buf : List UInt8) (m : ℕ × ℕ) : Bool := familyIn .w64 buf m.1 m.2 == some true

theorem leavesWith_resolve (hlen : buf.length < 2 ^ 31) :
    LeavesWith buf (familyIn w buf) (holdsFamily buf) := by
  intro o n hfits
  have hheader := hfits.header
  have hroom := hfits.room
  have hsum : ∀ w : WordSize, (o + n) % 2 ^ w.bits = o + n := fun w ↦ by
    refine Nat.mod_eq_of_lt ?_
    cases w <;> simp only [WordSize.bits] <;> omega
  have hsame : familyIn w buf o n = familyIn .w64 buf o n := by
    rw [familyIn, familyIn, hsum, hsum]
  have hread : familyIn .w64 buf o n ≠ none := by
    rw [familyIn, readLe_of_le (by omega), hsum]
    dsimp only
    split
    · rw [Ne, Option.map_eq_none_iff]
      exact familyAttrs_ne_none hroom
    · exact Option.some_ne_none _
  obtain ⟨b, hb⟩ := Option.ne_none_iff_exists'.mp hread
  rw [hsame, holdsFamily, hb]
  cases b <;> rfl

/-- With the wider word the loop of `ctrl_resolve_family` goes on where `familyStep` does. -/
theorem resolveStep_go_iff (hlen : buf.length < 2 ^ 31) {off off' : ℕ}
    (hoff : off ≤ buf.length + 3) (past : List (ℕ × ℕ)) (family : Option ℕ) :
    (∃ t, resolveStep .w64 buf ⟨off, past⟩ = some (.go t) ∧ t.off = off') ↔
      familyStep buf ⟨off, family⟩ = some (.go ⟨off', family⟩) := by
  rw [resolveStep, splitStep, familyStep]
  dsimp only
  rw [lt_of_len_lt hlen hoff]
  by_cases hroom : buf.length < off + 16
  · rw [if_pos hroom, if_pos hroom]
    simp
  · have hread : readLe buf off 4 = _ := readLe_of_le (by omega)
    rw [if_neg hroom, if_neg hroom, hread]
    dsimp only
    generalize leNat ((buf.drop off).take 4) = n at hread
    have hlt : n < 2 ^ 32 := lt_of_readLe hread
    have hsum : (off + n) % 2 ^ WordSize.w64.bits = off + n :=
      Nat.mod_eq_of_lt (by simp only [WordSize.bits]; omega)
    have hnext : (off + (n + 3) % 2 ^ 32 / 4 * 4) % 2 ^ WordSize.w64.bits
        = off + (n + 3) % 2 ^ 32 / 4 * 4 :=
      Nat.mod_eq_of_lt (by simp only [WordSize.bits]; omega)
    rw [hsum, hnext, familyIn, hsum, readLe_of_le (by omega)]
    dsimp only
    by_cases hcut : n < 16 ∨ buf.length < off + n
    · rw [if_pos hcut, if_pos hcut]
      simp
    · rw [if_neg hcut, if_neg hcut]
      by_cases hctrl : leNat ((buf.drop (off + 4)).take 2) = genlIdCtrl ∧ 16 + 4 ≤ n
      · rw [if_pos hctrl, if_pos hctrl]
        rcases familyAttrs buf (off + (16 + 4)) (off + n) with - | - | id <;> simp
      · rw [if_neg hctrl, if_neg hctrl]
        simp

/-- On both targets, each loop splits a buffer into its messages exactly when `size_t` is the wider
word, or the length that is found behind the last message, if the loop gets there, does not reach
around the narrower one. -/
theorem batch_splits_iff (w : WordSize) (buf : List UInt8) (hlen : buf.length < 2 ^ 31) :
    (Splits (feedStep w buf) buf (fun _ ↦ false) ↔
      w = .w64 ∨ EndsInside .w32 buf fun _ ↦ false) ∧
    (Splits (dumpStep w buf) buf (fun _ ↦ false) ↔
      w = .w64 ∨ EndsInside .w32 buf fun _ ↦ false) ∧
    (Splits (resolveStep w buf) buf (holdsFamily buf) ↔
      w = .w64 ∨ EndsInside .w32 buf (holdsFamily buf)) :=
  ⟨(splits_iff hlen (leavesWith_feed hlen)).trans (endsInside_iff hlen),
    (splits_iff hlen leavesWith_dump).trans (endsInside_iff hlen),
    (splits_iff hlen (leavesWith_resolve hlen)).trans (endsInside_iff hlen)⟩

/-- A message without a body, and a header that announces `n` bytes, in four. -/
def messageThen (n : List UInt8) : List UInt8 :=
  [16, 0, 0, 0, 3, 0, 0, 0, 0, 0, 0, 0, 0, 0, 0, 0] ++ n ++ [3, 0, 0, 0, 0, 0, 0, 0, 0, 0, 0, 0]

theorem batch_messageThen {n : List UInt8} {k : ℕ}
    (hread : readLe (messageThen n) 16 4 = some k) (hfits : readLe (messageThen n) 0 4 = some 16)
    (hroom : (messageThen n).length = 32) (hk : 16 < k) :
    Batch (messageThen n) 0 [(0, 16)] 16 := by
  refine .message ⟨hfits, le_rfl, by omega⟩ (.done ?_)
  rintro ⟨m, hm⟩
  obtain rfl := Option.some_inj.mp (hread.symm.trans hm.len)
  have hle := hm.room
  change 16 + k ≤ (messageThen n).length at hle
  omega

/-- A length that is too large but does not wrap ends the loops. -/
theorem batch_splits_cut : Splits (feedStep .w32 (messageThen [17, 0, 0, 0]))
    (messageThen [17, 0, 0, 0]) fun _ ↦ false := by
  refine (batch_splits_iff .w32 _ (by decide)).1.mpr (Or.inr fun ms e h ↦ Or.inr ?_)
  have hbatch : Batch (messageThen [17, 0, 0, 0]) 0 [(0, 16)] 16 :=
    batch_messageThen (k := 17) (by decide) (by decide) (by decide) (by decide)
  obtain ⟨-, rfl⟩ := h.unique hbatch
  intro n _ hn
  obtain rfl : 17 = n := Option.some_inj.mp ((by decide :
    readLe (messageThen [17, 0, 0, 0]) 16 4 = some 17).symm.trans hn)
  decide

/-- With a length that wraps to zero, none of them does on the narrower target. -/
theorem batch_wraps :
    ¬ Splits (feedStep .w32 (messageThen [240, 255, 255, 255])) (messageThen [240, 255, 255, 255])
        (fun _ ↦ false) ∧
      ¬ Splits (dumpStep .w32 (messageThen [240, 255, 255, 255]))
        (messageThen [240, 255, 255, 255]) (fun _ ↦ false) ∧
      ¬ Splits (resolveStep .w32 (messageThen [240, 255, 255, 255]))
        (messageThen [240, 255, 255, 255]) (holdsFamily (messageThen [240, 255, 255, 255])) := by
  have hread : readLe (messageThen [240, 255, 255, 255]) 16 4 = some 4294967280 := by decide
  have hbatch : Batch (messageThen [240, 255, 255, 255]) 0 [(0, 16)] 16 :=
    batch_messageThen hread (by decide) (by decide) (by decide)
  have hlen : (messageThen [240, 255, 255, 255]).length < 2 ^ 31 := by decide
  have hwrap : ∀ stops : ℕ × ℕ → Bool, stops (0, 16) = false →
      ¬ EndsInside .w32 (messageThen [240, 255, 255, 255]) stops := by
    intro stops hstop h
    rcases h _ _ hbatch with ⟨m, hm, hms⟩ | hinside
    · rw [List.mem_singleton.mp hm, hstop] at hms
      exact Bool.false_ne_true hms
    · exact absurd (hinside _ (by decide) hread) (by decide)
  exact ⟨(splits_iff hlen (leavesWith_feed hlen)).not.mpr (hwrap _ rfl),
    (splits_iff hlen leavesWith_dump).not.mpr (hwrap _ rfl),
    (splits_iff hlen (leavesWith_resolve hlen)).not.mpr (hwrap _ (by decide))⟩

end NetForensics
