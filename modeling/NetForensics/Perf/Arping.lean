import NetForensics.Daemon.Loop
import NetForensics.Nflog.Bounds
import NetForensics.Nflog.Message
import NetForensics.Perf.Icmp
import NetForensics.Util.Budget

/-!
# The ARP probe

`cpe_agent_arping` sends one ARP request and looks at ARP frames until one is a reply from the
target. Every other frame is charged with the time it took, and with a millisecond at least, so that
the wait ends on a busy link as well; but then it can end before the timeout, with the reply still
to come.

A frame is taken for the reply by its sender alone: neither its target nor the Ethernet addresses
matter, and a reply to another host counts (`isArpReplyFor_bytes`).
-/

namespace NetForensics

/-! ## Frames -/

/-- An Ethernet address. -/
abbrev Mac := Fin 6 → UInt8

/-- `struct cpe_eth_arp`, with its numbers in host order. -/
structure CpeEthArp where
  ethDst : Mac
  ethSrc : Mac
  ethType : UInt16
  htype : UInt16
  ptype : UInt16
  hlen : UInt8
  plen : UInt8
  oper : UInt16
  sha : Mac
  spa : UInt32
  tha : Mac
  tpa : UInt32

/-- `htons` -/
def be16 (w : UInt16) : List UInt8 := [UInt8.ofNat (w.toNat / 2 ^ 8), UInt8.ofNat w.toNat]

def macBytes (m : Mac) : List UInt8 := List.ofFn m

def CpeEthArp.bytes (p : CpeEthArp) : List UInt8 :=
  macBytes p.ethDst ++ macBytes p.ethSrc ++ be16 p.ethType ++ be16 p.htype ++ be16 p.ptype ++
    [p.hlen, p.plen] ++ be16 p.oper ++ macBytes p.sha ++ octets p.spa ++ macBytes p.tha ++
    octets p.tpa

def macAt (frame : List UInt8) (off : ℕ) : Mac := fun i ↦ frame.getD (off + i) 0

/-- `is_arp_reply_for`, with the address it copies. -/
def isArpReplyFor (frame : List UInt8) (tpa : UInt32) : Option Mac :=
  if frame.length < 42 then none
  else if readBe frame 12 2 ≠ some 0x0806 then none
  else if readBe frame 14 2 ≠ some 1 ∨ readBe frame 16 2 ≠ some 0x0800 then none
  else if readByte frame 18 ≠ some 6 ∨ readByte frame 19 ≠ some 4 then none
  else if readBe frame 20 2 ≠ some 2 then none
  else if readBe frame 28 4 ≠ some tpa.toNat then none
  else some (macAt frame 22)

def arpRequest (srcMac : Mac) (srcIp dstIp : UInt32) : CpeEthArp where
  ethDst := fun _ ↦ 0xff
  ethSrc := srcMac
  ethType := 0x0806
  htype := 1
  ptype := 0x0800
  hlen := 6
  plen := 4
  oper := 1
  sha := srcMac
  spa := srcIp
  tha := fun _ ↦ 0
  tpa := dstIp

/-- A reply for IPv4 over Ethernet. -/
structure CpeEthArp.IsReply (p : CpeEthArp) : Prop where
  ethType : p.ethType = 0x0806
  htype : p.htype = 1
  ptype : p.ptype = 0x0800
  hlen : p.hlen = 6
  plen : p.plen = 4
  oper : p.oper = 2

/-! ## The wait -/

/-- One turn of the wait, with the clock before it, at the frame, and behind it. -/
structure ArpTurn where
  /-- what `poll` returns -/
  polled : ℤ
  pollIn : Bool
  /-- what `recvfrom` brings, if it does not fail -/
  frame : Option (List UInt8)
  before : UInt64
  recvNs : UInt64
  after : UInt64

namespace ArpTurn

def spentNs (t : ArpTurn) : ℕ := (if t.before < t.after then t.after - t.before else 0).toNat

/-- What the turn is charged with: milliseconds, as an `int`, and one at least. -/
def elapsedMs (t : ArpTurn) : ℤ :=
  let ms := ((t.spentNs / 1000000 : ℕ) : ℤ).bmod (2 ^ 32)
  if ms < 1 then 1 else ms

def reply (dst : UInt32) (t : ArpTurn) : Option Mac :=
  t.frame.bind fun frame ↦ isArpReplyFor (frame.take 256) dst

def rttMs (t0 : UInt64) (t : ArpTurn) : ℚ :=
  if t0 ≤ t.recvNs then (t.recvNs - t0).toNat / 1000000 else 0

/-- A turn of the loop: without a frame it is left. -/
def judge (t0 : UInt64) (dst : UInt32) (t : ArpTurn) : Budget.Verdict (ℚ × Mac) :=
  if t.polled ≤ 0 then .quit
  else if !t.pollIn then .quit
  else
    match t.reply dst with
    | some mac => .take (t.rttMs t0, mac)
    | none => .pay t.elapsedMs

end ArpTurn

/-- What an arping sees of the host and of the network. -/
structure ArpingEnv where
  /-- what `pick_iface` finds -/
  picked : CStr
  /-- `iface_addrs`, where the interface is known -/
  ifaceAddrs : CStr → Option (Mac × UInt32)
  /-- do `socket` and `bind` succeed? -/
  opened : Bool
  sent : Bool
  /-- the clock when the request was sent -/
  t0 : UInt64
  turns : List ArpTurn
  clock : Option WallClock

/-- `timeout_ms` -/
def arpTimeout (cfg : CpeAgentConfig) : UInt32 :=
  if cfg.probeTimeoutMs ≠ 0 then cfg.probeTimeoutMs else 1000

/-- `deadline_left` before the loop: the timeout as an `int`. -/
def arpDeadline (cfg : CpeAgentConfig) : ℤ := ((arpTimeout cfg).toNat : ℤ).bmod (2 ^ 32)

/-- The loop, with the turns that brought something else. -/
def arpWait (cfg : CpeAgentConfig) (env : ArpingEnv) (dst : UInt32) :
    Option (ℚ × Mac) × List ArpTurn :=
  Budget.scan (ArpTurn.judge env.t0 dst) (arpDeadline cfg) env.turns

/-- `cpe_agent_arping`, with the request it sends. -/
def IpcState.arping (s : IpcState) (env : ArpingEnv) (ipv4Opt ifnameOpt : CStr) :
    IpcState × ℤ × Option CpeEthArp :=
  let target := probeTarget s.agent.cfg ipv4Opt
  if target = [] then (s, -1, none)
  else
    match inetPton4 target with
    | none => (s, -1, none)
    | some dst =>
      let ifname := arpingIfname s.agent.cfg ifnameOpt env.picked
      match env.ifaceAddrs ifname with
      | none => (s, -1, none)
      | some (srcMac, srcIp) =>
        if !env.opened then (s, -1, none)
        else
          let req := arpRequest srcMac srcIp dst
          if !env.sent then (s, -1, none)
          else
            let x := arpingSample env.clock target (arpWait s.agent.cfg env dst).1 ifname
            let (s, rc) := IpcState.spoolSample
              { agent := s.agent.eqPush .sampleReady (ascii "sample") 0 0, last := some x } x
            (s, rc, some req)

/-! ## What a frame is -/

theorem toNat_ofNat8 (n : ℕ) : (UInt8.ofNat n).toNat = n % 256 := UInt8.toNat_ofNat

theorem beNat_be16 (w : UInt16) : beNat (be16 w) = w.toNat := by
  have hw := w.toNat_lt
  simp only [be16, beNat, List.foldl_cons, List.foldl_nil, toNat_ofNat8]
  omega

theorem beNat_octets (a : UInt32) : beNat (octets a) = a.toNat := by
  have ha := a.toNat_lt
  simp only [octets, beNat, List.foldl_cons, List.foldl_nil, toNat_ofNat8]
  omega

theorem be16_ofNat (b c : UInt8) : be16 (UInt16.ofNat (2 ^ 8 * b.toNat + c.toNat)) = [b, c] := by
  have hb := b.toNat_lt
  have hc := c.toNat_lt
  rw [be16, UInt16.toNat_ofNat', Nat.mod_eq_of_lt (by omega)]
  congr 1
  · refine UInt8.toNat_inj.mp ?_
    rw [toNat_ofNat8]
    omega
  · congr 1
    refine UInt8.toNat_inj.mp ?_
    rw [toNat_ofNat8]
    omega

theorem octets_ofOctets (b₀ b₁ b₂ b₃ : UInt8) :
    octets (ofOctets b₀ b₁ b₂ b₃) = [b₀, b₁, b₂, b₃] := by
  have h₀ := b₀.toNat_lt
  have h₁ := b₁.toNat_lt
  have h₂ := b₂.toNat_lt
  have h₃ := b₃.toNat_lt
  have hbyte : ∀ {n : ℕ} {b : UInt8}, n % 256 = b.toNat → UInt8.ofNat n = b := fun h ↦
    UInt8.toNat_inj.mp ((toNat_ofNat8 _).trans h)
  rw [octets, ofOctets, UInt32.toNat_ofNat', Nat.mod_eq_of_lt (by omega)]
  rw [hbyte (b := b₀) (by omega), hbyte (b := b₁) (by omega), hbyte (b := b₂) (by omega),
    hbyte (b := b₃) (by omega)]

namespace CpeEthArp

variable (p : CpeEthArp) (pad : List UInt8)

theorem length_bytes : p.bytes.length = 42 := rfl

theorem readBe_bytes {off n : ℕ} {bs : List UInt8} (hle : off + n ≤ 42)
    (hbs : ((p.bytes ++ pad).drop off).take n = bs) :
    readBe (p.bytes ++ pad) off n = some (beNat bs) := by
  rw [readBe_of_le, hbs]
  rw [List.length_append, length_bytes]
  omega

theorem drop_header : (p.bytes ++ pad).drop 12
    = be16 p.ethType ++ be16 p.htype ++ be16 p.ptype ++ [p.hlen, p.plen] ++ be16 p.oper ++
        (macBytes p.sha ++ octets p.spa ++ macBytes p.tha ++ octets p.tpa ++ pad) := by
  have hsplit : p.bytes ++ pad = (macBytes p.ethDst ++ macBytes p.ethSrc) ++
      (be16 p.ethType ++ be16 p.htype ++ be16 p.ptype ++ [p.hlen, p.plen] ++ be16 p.oper ++
        (macBytes p.sha ++ octets p.spa ++ macBytes p.tha ++ octets p.tpa ++ pad)) := by
    simp only [bytes, List.append_assoc]
  rw [hsplit]
  exact List.drop_left' rfl

/-- A number of two bytes in a frame, and one it is compared with. -/
theorem readBe_word_iff {k : ℕ} {w v : UInt16} (hle : 12 + k + 2 ≤ 42)
    (hbs : (((p.bytes ++ pad).drop 12).drop k).take 2 = be16 w) :
    readBe (p.bytes ++ pad) (12 + k) 2 = some v.toNat ↔ w = v := by
  rw [List.drop_drop] at hbs
  rw [p.readBe_bytes pad hle hbs, beNat_be16, Option.some_inj, UInt16.toNat_inj]

theorem macAt_append (pre rest : List UInt8) (m : Mac) {off : ℕ} (h : pre.length = off) :
    macAt (pre ++ (macBytes m ++ rest)) off = m := by
  subst h
  funext i
  rw [macAt, List.getD_eq_getElem?_getD, List.getElem?_append_right (by omega),
    Nat.add_sub_cancel_left]
  fin_cases i <;> rfl

theorem macAt_bytes : macAt (p.bytes ++ pad) 22 = p.sha := by
  have hsplit : p.bytes ++ pad = (macBytes p.ethDst ++ macBytes p.ethSrc ++ be16 p.ethType ++
      be16 p.htype ++ be16 p.ptype ++ [p.hlen, p.plen] ++ be16 p.oper) ++
        (macBytes p.sha ++ (octets p.spa ++ (macBytes p.tha ++ octets p.tpa ++ pad))) := by
    simp only [bytes, List.append_assoc]
  rw [hsplit]
  exact macAt_append _ _ _ rfl

theorem drop_spa : (p.bytes ++ pad).drop 28
    = octets p.spa ++ (macBytes p.tha ++ octets p.tpa ++ pad) := by
  have hsplit : p.bytes ++ pad = (macBytes p.ethDst ++ macBytes p.ethSrc ++ be16 p.ethType ++
      be16 p.htype ++ be16 p.ptype ++ [p.hlen, p.plen] ++ be16 p.oper ++ macBytes p.sha) ++
        (octets p.spa ++ (macBytes p.tha ++ octets p.tpa ++ pad)) := by
    simp only [bytes, List.append_assoc]
  rw [hsplit]
  exact List.drop_left' rfl

/-- Which frames are taken for a reply from an address: those of the right kind with that sender,
whoever they are for. -/
theorem isArpReplyFor_bytes (dst : UInt32) (mac : Mac) :
    isArpReplyFor (p.bytes ++ pad) dst = some mac ↔ p.IsReply ∧ p.spa = dst ∧ p.sha = mac := by
  have hlen : ¬ (p.bytes ++ pad).length < 42 := by
    rw [List.length_append, length_bytes]
    omega
  have hheader := p.drop_header pad
  have htype : readBe (p.bytes ++ pad) (12 + 0) 2 = some 0x0806 ↔ p.ethType = 0x0806 :=
    p.readBe_word_iff pad (v := 0x0806) (by norm_num) (by rw [hheader]; rfl)
  have hhtype : readBe (p.bytes ++ pad) (12 + 2) 2 = some 1 ↔ p.htype = 1 :=
    p.readBe_word_iff pad (v := 1) (by norm_num) (by rw [hheader]; rfl)
  have hptype : readBe (p.bytes ++ pad) (12 + 4) 2 = some 0x0800 ↔ p.ptype = 0x0800 :=
    p.readBe_word_iff pad (v := 0x0800) (by norm_num) (by rw [hheader]; rfl)
  have hoper : readBe (p.bytes ++ pad) (12 + 8) 2 = some 2 ↔ p.oper = 2 :=
    p.readBe_word_iff pad (v := 2) (by norm_num) (by rw [hheader]; rfl)
  have hhlen : readByte (p.bytes ++ pad) (12 + 6) = some p.hlen := by
    rw [readByte, ← List.getElem?_drop, hheader]
    rfl
  have hplen : readByte (p.bytes ++ pad) (12 + 7) = some p.plen := by
    rw [readByte, ← List.getElem?_drop, hheader]
    rfl
  have hspa : readBe (p.bytes ++ pad) 28 4 = some dst.toNat ↔ p.spa = dst := by
    have htake : ((p.bytes ++ pad).drop 28).take 4 = octets p.spa := by
      rw [p.drop_spa]
      exact List.take_left' rfl
    rw [p.readBe_bytes pad (by norm_num) htake, beNat_octets, Option.some_inj, UInt32.toNat_inj]
  rw [isArpReplyFor, if_neg hlen, hhlen, hplen, macAt_bytes]
  simp only [Ne, htype, hhtype, hptype, hoper, hspa, Option.some_inj]
  constructor
  · intro h
    split_ifs at h with h₁ h₂ h₃ h₄ h₅
    rw [not_or, not_not, not_not] at h₂ h₃
    exact ⟨⟨h₁, h₂.1, h₂.2, h₃.1, h₃.2, h₄⟩, h₅, Option.some_inj.mp h⟩
  · rintro ⟨⟨h₁, h₂, h₃, h₄, h₅, h₆⟩, h₇, rfl⟩
    simp [h₁, h₂, h₃, h₄, h₅, h₆, h₇]

end CpeEthArp

theorem exists_ethArp {frame : List UInt8} (h : 42 ≤ frame.length) :
    ∃ (p : CpeEthArp) (pad : List UInt8), frame = p.bytes ++ pad := by
  obtain ⟨f, hf⟩ : ∃ f : Fin 42 → UInt8, frame.take 42 = List.ofFn f := by
    refine ⟨fun i ↦ frame.get ⟨i, by omega⟩, List.ext_getElem ?_ fun i _ _ ↦ ?_⟩
    · rw [List.length_take, List.length_ofFn, min_eq_left h]
    · rw [List.getElem_take, List.getElem_ofFn, List.get_eq_getElem]
  have hmac : ∀ b₀ b₁ b₂ b₃ b₄ b₅ : UInt8,
      macBytes ![b₀, b₁, b₂, b₃, b₄, b₅] = [b₀, b₁, b₂, b₃, b₄, b₅] :=
    fun _ _ _ _ _ _ ↦ rfl
  refine ⟨⟨![f 0, f 1, f 2, f 3, f 4, f 5], ![f 6, f 7, f 8, f 9, f 10, f 11],
    UInt16.ofNat (2 ^ 8 * (f 12).toNat + (f 13).toNat),
    UInt16.ofNat (2 ^ 8 * (f 14).toNat + (f 15).toNat),
    UInt16.ofNat (2 ^ 8 * (f 16).toNat + (f 17).toNat), f 18, f 19,
    UInt16.ofNat (2 ^ 8 * (f 20).toNat + (f 21).toNat),
    ![f 22, f 23, f 24, f 25, f 26, f 27], ofOctets (f 28) (f 29) (f 30) (f 31),
    ![f 32, f 33, f 34, f 35, f 36, f 37], ofOctets (f 38) (f 39) (f 40) (f 41)⟩,
    frame.drop 42, ?_⟩
  refine (List.take_append_drop 42 frame).symm.trans
    (congrArg (· ++ frame.drop 42) (hf.trans ?_))
  rw [CpeEthArp.bytes]
  simp only [hmac, be16_ofNat, octets_ofOctets]
  rfl

/-! ## What the wait finds -/

namespace ArpTurn

variable {t : ArpTurn} {dst : UInt32} {t0 : UInt64} {mac : Mac}

def Readable (t : ArpTurn) : Prop := 0 < t.polled ∧ t.pollIn = true

/-- The frame is a reply from the address. -/
structure RepliesWith (t : ArpTurn) (dst : UInt32) (p : CpeEthArp) : Prop where
  readable : t.Readable
  frame : ∃ pad, t.frame = some (p.bytes ++ pad)
  isReply : p.IsReply
  spa : p.spa = dst

/-- The turn brings something, but no reply from the address. -/
def Foreign (t : ArpTurn) (dst : UInt32) : Prop :=
  t.Readable ∧ ∀ p, ¬ t.RepliesWith dst p

theorem reply_eq_some_iff :
    t.reply dst = some mac ↔ ∃ (p : CpeEthArp) (pad : List UInt8), t.frame = some (p.bytes ++ pad) ∧
      p.IsReply ∧ p.spa = dst ∧ p.sha = mac := by
  rw [reply, Option.bind_eq_some_iff]
  constructor
  · rintro ⟨frame, hframe, hreply⟩
    have hlen : 42 ≤ frame.length := by
      by_contra hshort
      have hcut : (frame.take 256).length < 42 := by
        rw [List.length_take]
        omega
      rw [isArpReplyFor, if_pos hcut] at hreply
      exact absurd hreply (by simp)
    obtain ⟨p, pad, rfl⟩ := exists_ethArp hlen
    have hcut : (p.bytes ++ pad).take 256 = p.bytes ++ pad.take 214 := by
      rw [List.take_append, p.length_bytes, List.take_of_length_le (by rw [p.length_bytes]; omega)]
    rw [hcut, p.isArpReplyFor_bytes] at hreply
    exact ⟨p, pad, hframe, hreply⟩
  · rintro ⟨p, pad, hframe, hreply⟩
    have hcut : (p.bytes ++ pad).take 256 = p.bytes ++ pad.take 214 := by
      rw [List.take_append, p.length_bytes, List.take_of_length_le (by rw [p.length_bytes]; omega)]
    exact ⟨_, hframe, by rwa [hcut, p.isArpReplyFor_bytes]⟩

theorem reply_iff (h : t.Readable) :
    t.reply dst = some mac ↔ ∃ p, t.RepliesWith dst p ∧ p.sha = mac := by
  rw [reply_eq_some_iff]
  constructor
  · rintro ⟨p, pad, hframe, hreply, hspa, hsha⟩
    exact ⟨p, ⟨h, ⟨pad, hframe⟩, hreply, hspa⟩, hsha⟩
  · rintro ⟨p, ⟨-, ⟨pad, hframe⟩, hreply, hspa⟩, hsha⟩
    exact ⟨p, pad, hframe, hreply, hspa, hsha⟩

theorem judge_of_readable (h : t.Readable) : t.judge t0 dst =
    match t.reply dst with
    | some mac => .take (t.rttMs t0, mac)
    | none => .pay t.elapsedMs := by
  rw [judge, if_neg (not_le.mpr h.1), h.2]
  rfl

theorem judge_of_not_readable (h : ¬ t.Readable) : t.judge t0 dst = .quit := by
  rw [judge]
  split_ifs with hpoll hin
  · rfl
  · rfl
  · exact absurd ⟨not_le.mp hpoll, by simpa using hin⟩ h

theorem judge_eq_take_iff {r : ℚ × Mac} : t.judge t0 dst = .take r ↔
    ∃ p, t.RepliesWith dst p ∧ r = (t.rttMs t0, p.sha) := by
  by_cases h : t.Readable
  · rw [judge_of_readable h]
    cases hreply : t.reply dst with
    | none =>
      refine iff_of_false (by simp) ?_
      rintro ⟨p, hp, -⟩
      exact absurd ((reply_iff h).mpr ⟨p, hp, rfl⟩) (by simp [hreply])
    | some mac =>
      obtain ⟨p, hp, rfl⟩ := (reply_iff h).mp hreply
      constructor
      · intro hr
        exact ⟨p, hp, (Budget.Verdict.take.inj hr).symm⟩
      · rintro ⟨p', hp', rfl⟩
        have hsame := hreply.symm.trans ((reply_iff h).mpr ⟨p', hp', rfl⟩)
        rw [Option.some_inj.mp hsame]
  · rw [judge_of_not_readable h]
    exact iff_of_false (by simp) fun ⟨p, hp, _⟩ ↦ h hp.readable

theorem judge_isPay_iff : (t.judge t0 dst).isPay = true ↔ t.Foreign dst := by
  by_cases h : t.Readable
  · rw [judge_of_readable h, Foreign]
    cases hreply : t.reply dst with
    | none =>
      refine iff_of_true rfl ⟨h, fun p hp ↦ ?_⟩
      exact absurd ((reply_iff h).mpr ⟨p, hp, rfl⟩) (by simp [hreply])
    | some mac =>
      obtain ⟨p, hp, -⟩ := (reply_iff h).mp hreply
      exact iff_of_false (by simp [Budget.Verdict.isPay]) fun hforeign ↦ hforeign.2 p hp
  · rw [judge_of_not_readable h]
    exact iff_of_false (by simp [Budget.Verdict.isPay]) fun hforeign ↦ h hforeign.1

theorem elapsedMs_eq (t : ArpTurn) : t.elapsedMs =
    if ((t.spentNs / 1000000 : ℕ) : ℤ).bmod (2 ^ 32) < 1 then 1
    else ((t.spentNs / 1000000 : ℕ) : ℤ).bmod (2 ^ 32) := by
  unfold elapsedMs
  rfl

theorem elapsedMs_pos (t : ArpTurn) : 1 ≤ t.elapsedMs := by
  have hcharge : ∀ ms : ℤ, 1 ≤ if ms < 1 then 1 else ms := by
    intro ms
    split <;> omega
  rw [elapsedMs_eq]
  exact hcharge _

theorem judge_eq_pay {price : ℤ} (h : t.judge t0 dst = .pay price) : price = t.elapsedMs := by
  by_cases hread : t.Readable
  · rw [judge_of_readable hread] at h
    cases hreply : t.reply dst with
    | none =>
      rw [hreply] at h
      exact (Budget.Verdict.pay.inj h).symm
    | some mac =>
      rw [hreply] at h
      exact absurd h (by simp)
  · rw [judge_of_not_readable hread] at h
    exact absurd h (by simp)

theorem priced_judge (t0 : UInt64) (dst : UInt32) : Budget.Priced (judge t0 dst) :=
  fun t _ h ↦ judge_eq_pay h ▸ t.elapsedMs_pos

theorem cost_judge {turns : List ArpTurn} (h : ∀ t ∈ turns, t.Foreign dst) :
    Budget.cost (judge t0 dst) turns = (turns.map elapsedMs).sum := by
  refine congrArg List.sum (List.map_congr_left fun t ht ↦ ?_)
  cases hjudge : t.judge t0 dst with
  | pay price => exact judge_eq_pay hjudge
  | take r =>
    exact absurd (judge_isPay_iff.mpr (h t ht)) (by rw [hjudge]; simp [Budget.Verdict.isPay])
  | quit =>
    exact absurd (judge_isPay_iff.mpr (h t ht)) (by rw [hjudge]; simp [Budget.Verdict.isPay])

/-- A turn takes less than a millisecond more than it is charged with, if it takes less than 2³¹ of
them. -/
theorem spentNs_lt (h : t.spentNs < 2 ^ 31 * 1000000) :
    (t.spentNs : ℤ) < (t.elapsedMs + 1) * 1000000 := by
  have hms : t.spentNs / 1000000 < 2 ^ 31 := Nat.div_lt_of_lt_mul (by omega)
  have hcharge : ∀ ns : ℕ, (ns : ℤ) <
      ((if ((ns / 1000000 : ℕ) : ℤ) < 1 then 1 else ((ns / 1000000 : ℕ) : ℤ)) + 1) * 1000000 := by
    intro ns
    split <;> omega
  rw [elapsedMs_eq, bmod_eq_self hms]
  exact hcharge _

end ArpTurn

/-- What an arping finds: the sender of the first reply from the address, and the time to it, if the
frames before it are all others and are charged with less than the timeout. -/
theorem arpWait_eq_some_iff (cfg : CpeAgentConfig) (env : ArpingEnv) (dst : UInt32) (r : ℚ × Mac) :
    (arpWait cfg env dst).1 = some r ↔
      ∃ pre t post p, env.turns = pre ++ t :: post ∧ (∀ u ∈ pre, u.Foreign dst) ∧
        (pre.map ArpTurn.elapsedMs).sum < arpDeadline cfg ∧ t.RepliesWith dst p ∧
        r = (t.rttMs env.t0, p.sha) := by
  rw [arpWait, Budget.scan_eq_some_iff (ArpTurn.priced_judge env.t0 dst)]
  constructor
  · rintro ⟨pre, t, post, hturns, hpays, hcost, hjudge⟩
    have hforeign := fun u hu ↦ ArpTurn.judge_isPay_iff.mp (hpays u hu)
    obtain ⟨p, hp, hr⟩ := ArpTurn.judge_eq_take_iff.mp hjudge
    rw [ArpTurn.cost_judge hforeign] at hcost
    exact ⟨pre, t, post, p, hturns, hforeign, hcost, hp, hr⟩
  · rintro ⟨pre, t, post, p, hturns, hforeign, hcost, hp, hr⟩
    have hprice : Budget.cost (ArpTurn.judge env.t0 dst) pre = _ := ArpTurn.cost_judge hforeign
    rw [← hprice] at hcost
    exact ⟨pre, t, post, hturns, fun u hu ↦ ArpTurn.judge_isPay_iff.mpr (hforeign u hu), hcost,
      ArpTurn.judge_eq_take_iff.mpr ⟨p, hp, hr⟩⟩

theorem arpDeadline_pos_iff (cfg : CpeAgentConfig) :
    0 < arpDeadline cfg ↔ (arpTimeout cfg).toNat < 2 ^ 31 := by
  have hpos : 0 < (arpTimeout cfg).toNat := by
    rw [arpTimeout]
    split_ifs with h
    · exact Nat.pos_of_ne_zero fun hzero ↦ h (UInt32.toNat_inj.mp hzero)
    · decide
  unfold arpDeadline
  by_cases hsmall : (arpTimeout cfg).toNat < 2 ^ 31
  · rw [bmod_eq_self hsmall]
    exact iff_of_true (Int.natCast_pos.mpr hpos) hsmall
  · have hneg := bmod_neg (Nat.le_of_not_lt hsmall) (arpTimeout cfg).toNat_lt
    exact iff_of_false (not_lt.mpr hneg.le) hsmall

theorem toNat_arpDeadline_le (cfg : CpeAgentConfig) :
    (arpDeadline cfg).toNat ≤ (arpTimeout cfg).toNat := by
  unfold arpDeadline
  exact Int.toNat_le.mpr (bmod_le _)

/-- The time of the turns that are charged, without the last of them: twice the timeout at most. -/
theorem sum_spentNs_le (cfg : CpeAgentConfig) (env : ArpingEnv) (dst : UInt32)
    (hspent : ∀ t ∈ env.turns, t.spentNs < 2 ^ 31 * 1000000) :
    ((arpWait cfg env dst).2.dropLast.map ArpTurn.spentNs).sum
      ≤ 2 * (arpTimeout cfg).toNat * 1000000 := by
  have hmem : ∀ t ∈ (arpWait cfg env dst).2.dropLast, t.Foreign dst ∧ t ∈ env.turns := by
    intro t ht
    have hpaid := List.mem_of_mem_dropLast ht
    exact ⟨ArpTurn.judge_isPay_iff.mp (Budget.isPay_of_mem_paid hpaid),
      (Budget.paid_prefix _ _ _).mem hpaid⟩
  have hcharged : ((arpWait cfg env dst).2.dropLast.map ArpTurn.elapsedMs).sum
      ≤ ((arpTimeout cfg).toNat : ℤ) := by
    have hprice : Budget.cost (ArpTurn.judge env.t0 dst) (arpWait cfg env dst).2.dropLast = _ :=
      ArpTurn.cost_judge fun t ht ↦ (hmem t ht).1
    rw [← hprice]
    by_cases hpos : 0 < arpDeadline cfg
    · have hlt := Budget.cost_dropLast_paid_lt (ArpTurn.priced_judge env.t0 dst) hpos env.turns
      have hle := toNat_arpDeadline_le cfg
      rw [arpWait]
      omega
    · have hnone := Budget.length_paid_le (ArpTurn.priced_judge env.t0 dst) (arpDeadline cfg)
        env.turns
      have hnil : (arpWait cfg env dst).2 = [] := List.length_eq_zero_iff.mp (by
        rw [arpWait]
        omega)
      rw [hnil]
      exact Int.natCast_nonneg _
  have htwice : ∀ turns : List ArpTurn, (∀ t ∈ turns, t ∈ env.turns) →
      ((turns.map ArpTurn.spentNs).sum : ℤ) ≤ 2 * (turns.map ArpTurn.elapsedMs).sum * 1000000 := by
    intro turns hturns
    induction turns with
    | nil => exact le_rfl
    | cons t turns ih =>
      have hrest := ih fun u hu ↦ hturns u (List.mem_cons_of_mem t hu)
      have hlt := ArpTurn.spentNs_lt (hspent t (hturns t List.mem_cons_self))
      have hpos := t.elapsedMs_pos
      rw [List.map_cons, List.sum_cons, List.map_cons, List.sum_cons, Nat.cast_add]
      linarith
  have hsum := htwice _ fun t ht ↦ (hmem t ht).2
  omega

/-- An arping that can send: it sends the request for its target, never taken for a reply itself,
and keeps a sample of the first reply that comes from the target, whoever it is for, provided that
the frames before it are charged with less than the timeout. So with a timeout of 2³¹ ms or more
nothing is found. It looks at no more other frames than there are milliseconds, and all of them but
the last take at most twice the timeout. -/
theorem arping_finds (s : IpcState) (env : ArpingEnv) (ipv4Opt ifnameOpt : CStr)
    {dst srcIp : UInt32} {srcMac : Mac}
    (htarget : inetPton4 (probeTarget s.agent.cfg ipv4Opt) = some dst)
    (hiface : env.ifaceAddrs (arpingIfname s.agent.cfg ifnameOpt env.picked) = some (srcMac, srcIp))
    (hopened : env.opened = true) (hsent : env.sent = true) :
    let cfg := s.agent.cfg
    let found := arpWait cfg env dst
    (s.arping env ipv4Opt ifnameOpt).2.2 = some (arpRequest srcMac srcIp dst) ∧
    isArpReplyFor (arpRequest srcMac srcIp dst).bytes dst = none ∧
    (s.arping env ipv4Opt ifnameOpt).1.last = some (arpingSample env.clock
      (probeTarget cfg ipv4Opt) found.1 (arpingIfname cfg ifnameOpt env.picked)) ∧
    (∀ r, found.1 = some r ↔
      ∃ pre t post p, env.turns = pre ++ t :: post ∧ (∀ u ∈ pre, u.Foreign dst) ∧
        (pre.map ArpTurn.elapsedMs).sum < arpDeadline cfg ∧ t.RepliesWith dst p ∧
        r = (t.rttMs env.t0, p.sha)) ∧
    (2 ^ 31 ≤ (arpTimeout cfg).toNat → found.1 = none) ∧
    found.2 <+: env.turns ∧ found.2.length ≤ (arpTimeout cfg).toNat ∧
    ((∀ t ∈ env.turns, t.spentNs < 2 ^ 31 * 1000000) →
      (found.2.dropLast.map ArpTurn.spentNs).sum ≤ 2 * (arpTimeout cfg).toNat * 1000000) := by
  intro cfg found
  have hne : probeTarget s.agent.cfg ipv4Opt ≠ [] := by
    intro hnil
    have hnone : inetPton4 [] = none := by decide
    rw [hnil, hnone] at htarget
    exact absurd htarget (by simp)
  have hcall : s.arping env ipv4Opt ifnameOpt =
      let x := arpingSample env.clock (probeTarget cfg ipv4Opt) found.1
        (arpingIfname cfg ifnameOpt env.picked)
      let (s', rc) := IpcState.spoolSample
        { agent := s.agent.eqPush .sampleReady (ascii "sample") 0 0, last := some x } x
      (s', rc, some (arpRequest srcMac srcIp dst)) := by
    rw [IpcState.arping]
    dsimp only
    rw [if_neg hne, htarget]
    dsimp only
    rw [hiface]
    dsimp only
    rw [hopened, hsent]
    rfl
  have hlast : ∀ (s' : IpcState) (x : CpePerfSample), (s'.spoolSample x).1.last = s'.last := by
    intro s' x
    rw [IpcState.spoolSample]
    split <;> rfl
  refine ⟨by rw [hcall], ?_, ?_, arpWait_eq_some_iff cfg env dst, ?_, Budget.paid_prefix _ _ _,
    (Budget.length_paid_le (ArpTurn.priced_judge env.t0 dst) _ _).trans (toNat_arpDeadline_le cfg),
    sum_spentNs_le cfg env dst⟩
  · rw [Option.eq_none_iff_forall_ne_some]
    intro mac hmac
    rw [← List.append_nil (arpRequest srcMac srcIp dst).bytes,
      CpeEthArp.isArpReplyFor_bytes] at hmac
    have hoper : (1 : UInt16) = 2 := hmac.1.oper
    exact absurd hoper (by decide)
  · rw [hcall]
    exact hlast _ _
  · intro hlong
    rw [Option.eq_none_iff_forall_ne_some]
    intro r hr
    obtain ⟨pre, t, post, p, -, hforeign, hcost, -⟩ := (arpWait_eq_some_iff cfg env dst r).mp hr
    have hnonneg := (ArpTurn.priced_judge env.t0 dst).cost_nonneg pre
    rw [ArpTurn.cost_judge hforeign] at hnonneg
    have hshort := (arpDeadline_pos_iff cfg).mp (hnonneg.trans_lt hcost)
    omega

/-- The reply of a host to another one, as it is heard on the link. -/
def overheardReply : CpeEthArp where
  ethDst := ![2, 0, 0, 0, 0, 7]
  ethSrc := ![2, 0, 0, 0, 0, 9]
  ethType := 0x0806
  htype := 1
  ptype := 0x0800
  hlen := 6
  plen := 4
  oper := 2
  sha := ![2, 0, 0, 0, 0, 9]
  spa := ofOctets 1 1 1 1
  tha := ![2, 0, 0, 0, 0, 7]
  tpa := ofOctets 1 1 1 7

def overhearing : ArpingEnv where
  picked := ascii "br-lan"
  ifaceAddrs := fun _ ↦ some (demoMac, ofOctets 1 1 1 2)
  opened := true
  sent := true
  t0 := 0
  turns := [⟨1, true, some overheardReply.bytes, 0, 2000000, 2000000⟩]
  clock := none

theorem overheardReply_counts :
    ((⟨.create, none⟩ : IpcState).arping overhearing [] []).1.last
      = some (arpingSample none (ascii "1.1.1.1") (some (2, ![2, 0, 0, 0, 0, 9]))
        (ascii "br-lan")) := by
  have hfinds := @arping_finds ⟨.create, none⟩ overhearing [] [] (ofOctets 1 1 1 1)
    (ofOctets 1 1 1 2) demoMac (by decide) rfl rfl rfl
  have hfound := (hfinds.2.2.2.1 (2, overheardReply.sha)).mpr ⟨[], _, [], overheardReply, rfl,
    by simp, by decide, ⟨⟨by decide, rfl⟩, ⟨[], by rw [List.append_nil]⟩,
      ⟨rfl, rfl, rfl, rfl, rfl, rfl⟩, rfl⟩, ?_⟩
  · rw [hfinds.2.2.1, hfound]
    rfl
  · refine Prod.ext ?_ rfl
    change (2 : ℚ)
      = if (0 : UInt64) ≤ 2000000 then ((2000000 - 0 : UInt64).toNat : ℚ) / 1000000 else 0
    rw [if_pos (by decide)]
    have htime : (2000000 - 0 : UInt64).toNat = 2000000 := by decide
    rw [htime]
    norm_num

end NetForensics
