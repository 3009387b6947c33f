import NetForensics.Nflog.Walk

/-!
# Staying inside the buffer

The attributes of a message are walked within the message: lengths are tested before they are
used, and the rounding of the last one makes the signed remainder negative at worst. The walk over
the messages keeps what is left of the buffer in an unsigned variable, and there the rounding
matters: a message at the end of the buffer can be shorter than its rounded length. Most messages
are tested for that. `NLMSG_DONE` and `NLMSG_ERROR` are not, and a length within three of 2^32 is
rounded to zero.
-/

namespace NetForensics

variable {buf : List UInt8}

/-! ## Attributes -/

/-- The payload found so far is inside the buffer. -/
def PacketAttrs.Inside (buf : List UInt8) (s : PacketAttrs) : Prop :=
  ∀ d n, s.payload = some (d, n) → d + n ≤ buf.length

theorem readAttr_inside {s : PacketAttrs} {d dlen : ℕ} (h : d + dlen ≤ buf.length)
    (hs : s.Inside buf) (type : ℕ) :
    ∃ t, readAttr buf s type d dlen = some t ∧ t.Inside buf := by
  unfold readAttr
  split
  · split
    · rw [readBe_of_le (by omega)]
      exact ⟨_, rfl, hs⟩
    · exact ⟨s, rfl, hs⟩
  · split
    · split
      · rw [readBe_of_le (by omega)]
        exact ⟨_, rfl, hs⟩
      · exact ⟨s, rfl, hs⟩
    · split
      · split
        · rw [readBe_of_le (by omega), readBe_of_le (by omega)]
          exact ⟨_, rfl, hs⟩
        · exact ⟨s, rfl, hs⟩
      · split
        · split
          · refine ⟨_, rfl, fun d' n' heq ↦ ?_⟩
            obtain ⟨rfl, rfl⟩ := Prod.mk.inj (Option.some_inj.mp heq)
            exact h
          · exact ⟨s, rfl, hs⟩
        · exact ⟨s, rfl, hs⟩

theorem le_nflogNlaAlign (len : ℕ) : len ≤ nflogNlaAlign len := by
  rw [nflogNlaAlign]
  omega

theorem walkAttrs_inside {off : ℕ} {rem : ℤ} {s : PacketAttrs} (h : off + rem ≤ buf.length)
    (hs : s.Inside buf) : ∃ t, walkAttrs buf off rem s = some t ∧ t.Inside buf := by
  induction hm : rem.toNat using Nat.strong_induction_on generalizing off rem s with
  | _ m ih =>
    rw [walkAttrs]
    by_cases hrem : rem < 4
    · rw [if_pos hrem]
      exact ⟨s, rfl, hs⟩
    · rw [if_neg hrem, readLe_of_le (by omega)]
      generalize leNat ((buf.drop off).take 2) = nlaLen
      dsimp only
      by_cases hok : nlaLen < 4 ∨ rem < nlaLen
      · rw [if_pos hok]
        exact ⟨s, rfl, hs⟩
      · rw [if_neg hok, readLe_of_le (by omega)]
        have hdata : off + 4 + (nlaLen - 4) ≤ buf.length := by omega
        obtain ⟨t, ht, htin⟩ :=
          readAttr_inside hdata hs (leNat ((buf.drop (off + 2)).take 2) % 2 ^ 14)
        have halign := le_nflogNlaAlign nlaLen
        dsimp only
        rw [ht]
        exact ih _ (by omega) (by omega) htin rfl

theorem walkPacketAttrs_inside {off : ℕ} {attrlen : ℤ} (h : off + attrlen ≤ buf.length) :
    walkPacketAttrs buf off attrlen ≠ none := by
  obtain ⟨t, ht, htin⟩ := walkAttrs_inside (s := {}) h fun _ _ heq ↦ nomatch heq
  rw [walkPacketAttrs, ht]
  simp only [Option.bind_eq_bind, Option.bind_some]
  cases hp : t.payload with
  | none => exact Option.some_ne_none _
  | some slice =>
    obtain ⟨d, n⟩ := slice
    dsimp only
    split
    · rw [readSlice_of_le (htin d n hp)]
      exact Option.some_ne_none _
    · exact Option.some_ne_none _

/-! ## One message -/

/-- A message of length `n` starts at offset `o` and fits. -/
structure Fits (buf : List UInt8) (o n : ℕ) : Prop where
  len : readLe buf o 4 = some n
  header : 16 ≤ n
  room : o + n ≤ buf.length

/-- The message at offset `o` is passed over for its type. -/
def ControlAt (buf : List UInt8) (o : ℕ) : Prop :=
  ∃ type, readLe buf (o + 4) 2 = some type ∧ isControl type = true

def WalkState.Tracks (buf : List UInt8) (s : WalkState) : Prop := s.off + s.left = buf.length

/-- The signed length of the attributes is at most the unsigned one. -/
theorem bmod_le (n : ℕ) : Int.bmod (n : ℤ) (2 ^ 32) ≤ n := by
  rw [Int.bmod_def]
  split <;> omega

theorem packet_inside {s : WalkState} {n : ℕ} (h : s.off + n ≤ buf.length) :
    ∃ c d, s.packet buf n = some { s with count := c, delivered := d } := by
  rw [WalkState.packet]
  split
  · rename_i hlen
    have hle := bmod_le (n - 20)
    cases hp : walkPacketAttrs buf (s.off + (16 + 4)) (Int.bmod ((n - (16 + 4) : ℕ) : ℤ) (2 ^ 32))
      with
    | none =>
      refine absurd hp (walkPacketAttrs_inside ?_)
      push_cast at hle ⊢
      omega
    | some p => exact ⟨_, _, rfl⟩
  · exact ⟨s.count, s.delivered, rfl⟩

theorem walkStep_of_not_fits {s : WalkState} (hs : s.Tracks buf) (h : ¬ ∃ n, Fits buf s.off n) :
    walkStep buf s = some (.stop s) := by
  rw [WalkState.Tracks] at hs
  rw [walkStep]
  split
  · rfl
  · rename_i hleft
    cases hlen : readLe buf s.off 4 with
    | none =>
      rw [readLe_eq_none_iff] at hlen
      omega
    | some n =>
      dsimp only
      rw [if_pos]
      by_contra hok
      exact h ⟨n, hlen, by omega, by omega⟩

/-- A message that fits: it is passed over, or looked at and then tested for its rounded length. -/
theorem walkStep_of_fits {s : WalkState} (hs : s.Tracks buf) {n : ℕ} (h : Fits buf s.off n) :
    (ControlAt buf s.off ∧ walkStep buf s = some (.go (s.advance n))) ∨
      (¬ ControlAt buf s.off ∧ ∃ c d, walkStep buf s =
        if s.left < nlmsgAlign n then
          some (.stop { s with off := s.off + nlmsgAlign n, count := c, delivered := d })
        else some (.go (WalkState.advance { s with count := c, delivered := d } n))) := by
  rw [WalkState.Tracks] at hs
  obtain ⟨hlen, hheader, hroom⟩ := h
  have htype : ∃ type, readLe buf (s.off + 4) 2 = some type :=
    ⟨_, readLe_of_le (by omega)⟩
  obtain ⟨type, htype⟩ := htype
  rw [walkStep, if_neg (by omega), hlen]
  dsimp only
  rw [if_neg (by omega), htype]
  dsimp only
  by_cases hcontrol : isControl type = true
  · rw [if_pos hcontrol]
    exact Or.inl ⟨⟨type, htype, hcontrol⟩, rfl⟩
  · rw [if_neg hcontrol]
    refine Or.inr ⟨?_, ?_⟩
    · rintro ⟨type', htype', hcontrol'⟩
      obtain rfl := Option.some_inj.mp (htype.symm.trans htype')
      exact hcontrol hcontrol'
    · by_cases hpacket : isPacket type = true
      · obtain ⟨c, d, hp⟩ := packet_inside hroom
        rw [if_pos hpacket, hp]
        exact ⟨c, d, rfl⟩
      · rw [if_neg hpacket]
        exact ⟨s.count, s.delivered, rfl⟩

/-! ## The walk -/

/-- Messages start at the front of the buffer, and where another that fits ends, rounded up, as long
as this is inside. -/
inductive MessageAt (buf : List UInt8) : ℕ → Prop
  | first : MessageAt buf 0
  | next {o n : ℕ} (start : MessageAt buf o) (fits : Fits buf o n)
      (room : o + nlmsgAlign n ≤ buf.length) : MessageAt buf (o + nlmsgAlign n)

/-- No message has a length that is rounded to zero, and those of type `NLMSG_DONE` and
`NLMSG_ERROR` have room for their rounded length. -/
def RoomForControl (buf : List UInt8) : Prop :=
  ∀ o n, MessageAt buf o → Fits buf o n →
    n ≤ 2 ^ 32 - 4 ∧ (ControlAt buf o → o + nlmsgAlign n ≤ buf.length)

/-- The walk ends, stays inside the buffer, and knows how much of it is left. -/
structure StaysInside (buf : List UInt8) : Prop where
  ends : ∃ fuel ret pkts, nflogNetlinkWalk buf fuel = .returned ret pkts
  inside : ∀ fuel, nflogNetlinkWalk buf fuel ≠ .outside
  left_eq : 16 ≤ buf.length → ∀ s, Reaches (walkStep buf) (walkStart buf) s →
    s.off ≤ buf.length ∧ s.left = buf.length - s.off

theorem tracks_walkStart (buf : List UInt8) : (walkStart buf).Tracks buf := Nat.zero_add _

theorem WalkState.Tracks.advance {s : WalkState} (h : s.Tracks buf) {n : ℕ}
    (hroom : nlmsgAlign n ≤ s.left) : (s.advance n).Tracks buf := by
  rw [WalkState.Tracks] at h ⊢
  rw [WalkState.advance, subSize, if_pos hroom]
  dsimp only
  omega

theorem le_nlmsgAlign {n : ℕ} (h : n ≤ 2 ^ 32 - 4) : n ≤ nlmsgAlign n := by
  rw [nlmsgAlign]
  omega

theorem nlmsgAlign_eq_zero {n : ℕ} (h : 2 ^ 32 - 4 < n) (hlt : n < 2 ^ 32) : nlmsgAlign n = 0 := by
  rw [nlmsgAlign]
  omega

theorem Fits.lt {o n : ℕ} (h : Fits buf o n) : n < 2 ^ 32 := lt_of_readLe h.len

/-- A message that fits is left behind when there is room for its rounded length. -/
theorem walkStep_advance {s : WalkState} (hs : s.Tracks buf) {n : ℕ} (h : Fits buf s.off n)
    (hroom : nlmsgAlign n ≤ s.left) :
    ∃ c d, walkStep buf s
      = some (.go (WalkState.advance { s with count := c, delivered := d } n)) := by
  rcases walkStep_of_fits hs h with ⟨-, hgo⟩ | ⟨-, c, d, hstep⟩
  · exact ⟨s.count, s.delivered, hgo⟩
  · rw [if_neg (Nat.not_lt.mpr hroom)] at hstep
    exact ⟨c, d, hstep⟩

theorem reaches_messageAt {o : ℕ} (h : MessageAt buf o) :
    ∃ s, Reaches (walkStep buf) (walkStart buf) s ∧ s.off = o ∧ s.Tracks buf := by
  induction h with
  | first => exact ⟨_, .refl, rfl, tracks_walkStart buf⟩
  | next start fits room ih =>
    obtain ⟨s, hs, rfl, htracks⟩ := ih
    have hleft : nlmsgAlign _ ≤ s.left := Nat.le_of_add_le_add_left (htracks ▸ room)
    obtain ⟨c, d, hgo⟩ := walkStep_advance htracks fits hleft
    exact ⟨_, .tail hs hgo, rfl, WalkState.Tracks.advance htracks hleft⟩

/-- A length that is rounded to zero keeps the loop where it is. -/
theorem not_ends_of_zero {s t : WalkState} (hs : s.Tracks buf) {n : ℕ} (h : Fits buf s.off n)
    (hzero : nlmsgAlign n = 0) : ¬ Ends (walkStep buf) s t := by
  refine not_ends (P := fun u ↦ u.off = s.off ∧ u.Tracks buf) ?_ ⟨rfl, hs⟩
  rintro u ⟨hoff, htracks⟩
  rw [← hoff] at h
  have hroom : nlmsgAlign n ≤ u.left := hzero ▸ Nat.zero_le _
  obtain ⟨c, d, hgo⟩ := walkStep_advance htracks h hroom
  refine ⟨WalkState.advance { u with count := c, delivered := d } n,
    ⟨?_, WalkState.Tracks.advance htracks hroom⟩, hgo⟩
  rw [WalkState.advance, hzero]
  exact hoff

theorem ends_of_returned {fuel : ℕ} {ret : ℤ} {pkts : List NflogPacket} (hlen : 16 ≤ buf.length)
    (hret : nflogNetlinkWalk buf fuel = .returned ret pkts) :
    ∃ t, Ends (walkStep buf) (walkStart buf) t := by
  rw [nflogNetlinkWalk, if_neg (Nat.not_lt.mpr hlen)] at hret
  cases hloop : loop (walkStep buf) fuel (walkStart buf) with
  | none =>
    rw [hloop] at hret
    exact nomatch hret
  | some turn =>
    cases turn with
    | go t =>
      rw [hloop] at hret
      exact nomatch hret
    | stop t => exact ⟨t, fuel, hloop⟩

def WalkState.OnMessage (buf : List UInt8) (s : WalkState) : Prop :=
  s.Tracks buf ∧ MessageAt buf s.off

theorem walkStep_ne_none {s : WalkState} (hs : s.Tracks buf) : walkStep buf s ≠ none := by
  by_cases hfits : ∃ n, Fits buf s.off n
  · obtain ⟨n, hn⟩ := hfits
    rcases walkStep_of_fits hs hn with ⟨-, hgo⟩ | ⟨-, c, d, hstep⟩
    · rw [hgo]
      exact Option.some_ne_none _
    · rw [hstep]
      split <;> exact Option.some_ne_none _
  · rw [walkStep_of_not_fits hs hfits]
    exact Option.some_ne_none _

theorem onMessage_of_go (hbuf : RoomForControl buf) {s t : WalkState} (hs : s.OnMessage buf)
    (hgo : walkStep buf s = some (.go t)) : t.OnMessage buf ∧ t.left < s.left := by
  obtain ⟨htracks, hat⟩ := hs
  by_cases hfits : ∃ n, Fits buf s.off n
  · obtain ⟨n, hn⟩ := hfits
    obtain ⟨hsmall, hcontrol⟩ := hbuf s.off n hat hn
    have hround := le_nlmsgAlign hsmall
    have hheader := hn.header
    have hnext : ∀ c d, nlmsgAlign n ≤ s.left →
        t = WalkState.advance { s with count := c, delivered := d } n →
        t.OnMessage buf ∧ t.left < s.left := by
      rintro c d hroom rfl
      have hle : s.off + nlmsgAlign n ≤ buf.length := by
        rw [← htracks]
        omega
      refine ⟨⟨WalkState.Tracks.advance htracks hroom, .next hat hn hle⟩, ?_⟩
      rw [WalkState.advance, subSize, if_pos hroom]
      dsimp only
      omega
    rcases walkStep_of_fits htracks hn with ⟨hc, hstep⟩ | ⟨-, c, d, hstep⟩
    · have hroom : nlmsgAlign n ≤ s.left := Nat.le_of_add_le_add_left (htracks ▸ hcontrol hc)
      obtain rfl := Turn.go.inj (Option.some_inj.mp (hstep.symm.trans hgo))
      exact hnext s.count s.delivered hroom rfl
    · rw [hstep] at hgo
      split_ifs at hgo with hroom
      · exact nomatch hgo
      · exact hnext c d (Nat.le_of_not_lt hroom) (Turn.go.inj (Option.some_inj.mp hgo)).symm
  · rw [walkStep_of_not_fits htracks hfits] at hgo
    exact nomatch hgo

/-- The walk ends, every read and every payload is inside the buffer, and what is left never
underflows, if and only if every message of type `NLMSG_DONE` or `NLMSG_ERROR` has room for its
rounded length and no length is rounded to zero. -/
theorem staysInside_iff (buf : List UInt8) : StaysInside buf ↔ RoomForControl buf := by
  constructor
  · intro h o n hat hfits
    have hlen : 16 ≤ buf.length := le_trans hfits.header (le_trans (Nat.le_add_left n o) hfits.room)
    obtain ⟨s, hs, rfl, htracks⟩ := reaches_messageAt hat
    constructor
    · by_contra hbig
      have hzero := nlmsgAlign_eq_zero (Nat.lt_of_not_le hbig) hfits.lt
      obtain ⟨fuel, ret, pkts, hret⟩ := h.ends
      obtain ⟨t, hends⟩ := ends_of_returned hlen hret
      exact not_ends_of_zero htracks hfits hzero (Ends.of_reaches hs hends)
    · intro hcontrol
      rcases walkStep_of_fits htracks hfits with ⟨-, hgo⟩ | ⟨hno, -⟩
      · exact (h.left_eq hlen _ (.tail hs hgo)).1
      · exact absurd hcontrol hno
  · intro hbuf
    have hstart : (walkStart buf).OnMessage buf := ⟨tracks_walkStart buf, .first⟩
    have hreach : ∀ s, Reaches (walkStep buf) (walkStart buf) s → s.OnMessage buf :=
      fun s hs ↦ hs.invariant (fun t u ht hgo ↦ (onMessage_of_go hbuf ht hgo).1) hstart
    refine ⟨?_, ?_, ?_⟩
    · by_cases hlen : buf.length < 16
      · exact ⟨0, -1, [], by rw [nflogNetlinkWalk, if_pos hlen]⟩
      · obtain ⟨t, fuel, hloop⟩ := exists_ends (P := WalkState.OnMessage buf) WalkState.left
          (fun s hs ↦ walkStep_ne_none hs.1) (fun s t hs hgo ↦ onMessage_of_go hbuf hs hgo) hstart
        exact ⟨fuel, t.count, t.delivered, by rw [nflogNetlinkWalk, if_neg hlen, hloop]⟩
    · intro fuel
      have hloop := loop_ne_none (fun t ht ↦ walkStep_ne_none (hreach t ht).1) fuel
      rw [nflogNetlinkWalk]
      split
      · exact nofun
      · split
        · rename_i hnone
          exact absurd hnone hloop
        · exact nofun
        · exact nofun
    · intro _ s hs
      have htracks := (hreach s hs).1
      rw [WalkState.Tracks] at htracks
      omega

/-- A `NLMSG_DONE` message of 17 bytes at the end of the buffer. -/
def doneTail : List UInt8 := [17, 0, 0, 0, 3, 0, 0, 0, 0, 0, 0, 0, 0, 0, 0, 0, 0]

/-- What is left underflows, and the next read is outside. -/
theorem walk_leaves_buffer : ¬ ∀ buf : List UInt8, StaysInside buf := by
  intro h
  exact absurd ((h doneTail).inside 2) (by decide +kernel)

end NetForensics
