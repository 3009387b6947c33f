import NetForensics.Flow.Entry
import NetForensics.Nflog.Bounds

/-!
# Well-formed netlink messages

Messages as the kernel writes them: a header with the length and the type, and a body; for a packet
the body is the four bytes of `struct nfgenmsg` and a list of attributes. Attributes and messages
are padded to four bytes, the last attribute of a message perhaps only by the padding of the
message.

The walk reads such a buffer back: every turn of its loop is one message (`walkStep_message`), and
every turn of the inner loop one attribute (`walkAttrs_attrBytes`).
-/

namespace NetForensics

/-- An attribute, with the bytes of padding after it. -/
structure NlAttr where
  type : UInt16
  data : List UInt8
  pad : List UInt8
  len_lt : 4 + data.length < 2 ^ 16
  pad_le : 4 + data.length + pad.length ≤ nflogNlaAlign (4 + data.length)

namespace NlAttr

/-- `nla_len` -/
def len (a : NlAttr) : ℕ := 4 + a.data.length

def kind (a : NlAttr) : ℕ := a.type.toNat % 2 ^ 14

def bytes (a : NlAttr) : List UInt8 :=
  littleEndian 2 a.len ++ (littleEndian 2 a.type.toNat ++ (a.data ++ a.pad))

def Full (a : NlAttr) : Prop := a.len + a.pad.length = nflogNlaAlign a.len

end NlAttr

def attrBytes (attrs : List NlAttr) : List UInt8 := attrs.flatMap NlAttr.bytes

def Padded : List NlAttr → Prop
  | [] => True
  | [_] => True
  | a :: b :: attrs => a.Full ∧ Padded (b :: attrs)

/-- What a message is about. -/
inductive NlContent where
  /-- `NFULNL_MSG_PACKET`, with the bytes of `struct nfgenmsg` -/
  | packet (genmsg : List UInt8) (attrs : List NlAttr)
  | other (type : UInt16) (body : List UInt8)

namespace NlContent

/-- `nlmsg_type` -/
def type : NlContent → UInt16
  | packet _ _ => 0x0400
  | other type _ => type

def body : NlContent → List UInt8
  | packet genmsg attrs => genmsg ++ attrBytes attrs
  | other _ body => body

/-- A packet has its `struct nfgenmsg` and padded attributes; anything else has another type. -/
def WellFormed : NlContent → Prop
  | packet genmsg attrs => genmsg.length = 4 ∧ Padded attrs
  | other type _ => type ≠ 0x0400

end NlContent

/-- A message, with the bytes of padding after it. -/
structure NlMessage where
  content : NlContent
  /-- flags, sequence number and port id -/
  header : List UInt8
  pad : List UInt8
  wellFormed : content.WellFormed
  header_length : header.length = 10
  pad_length : 16 + content.body.length + pad.length = (16 + content.body.length + 3) / 4 * 4
  size_lt : 16 + content.body.length < 2 ^ 32

namespace NlMessage

/-- `nlmsg_len` -/
def len (m : NlMessage) : ℕ := 16 + m.content.body.length

def bytes (m : NlMessage) : List UInt8 :=
  littleEndian 4 m.len ++
    (littleEndian 2 m.content.type.toNat ++ (m.header ++ (m.content.body ++ m.pad)))

end NlMessage

/-- A packet of whole words; what is no attribute is zero. -/
def packetMessage (attrs : List NlAttr) (hpad : Padded attrs)
    (hwords : (attrBytes attrs).length % 4 = 0) (hlt : 20 + (attrBytes attrs).length < 2 ^ 32) :
    NlMessage where
  content := .packet (List.replicate 4 0) attrs
  header := List.replicate 10 0
  pad := []
  wellFormed := ⟨List.length_replicate, hpad⟩
  header_length := List.length_replicate
  pad_length := by
    rw [NlContent.body, List.length_append, List.length_replicate, List.length_nil]
    omega
  size_lt := by
    rw [NlContent.body, List.length_append, List.length_replicate]
    omega

/-! ## Fields in memory -/

@[simp] theorem length_littleEndian (k n : ℕ) : (littleEndian k n).length = k := by
  induction k generalizing n with
  | zero => rfl
  | succ k ih => rw [littleEndian, List.length_cons, ih]

theorem leNat_littleEndian {k n : ℕ} (h : n < 256 ^ k) : leNat (littleEndian k n) = n := by
  induction k generalizing n with
  | zero =>
    rw [pow_zero] at h
    rw [Nat.lt_one_iff.mp h]
    rfl
  | succ k ih =>
    have hrest : n / 256 < 256 ^ k := by
      rw [pow_succ, Nat.mul_comm] at h
      exact Nat.div_lt_of_lt_mul h
    have hcons : leNat (littleEndian (k + 1) n)
        = (UInt8.ofNat n).toNat + 256 * leNat (littleEndian k (n / 256)) := rfl
    have hbyte : (UInt8.ofNat n).toNat = n % 256 := UInt8.toNat_ofNat'
    rw [hcons, ih hrest, hbyte]
    omega

/-- An attribute stands at offset `off`. -/
structure AttrAt (buf : List UInt8) (off : ℕ) (a : NlAttr) : Prop where
  len : readLe buf off 2 = some a.len
  type : readLe buf (off + 2) 2 = some a.type.toNat
  data : ∀ i n, i + n ≤ a.data.length →
    readSlice buf (off + 4 + i) n = some ((a.data.drop i).take n)

namespace NlAttr

@[simp] theorem length_bytes (a : NlAttr) : a.bytes.length = a.len + a.pad.length := by
  rw [bytes, len]
  simp only [List.length_append, length_littleEndian]
  omega

theorem attrAt (a : NlAttr) (pre post : List UInt8) :
    AttrAt (pre ++ (a.bytes ++ post)) pre.length a where
  len := by
    have hlt : a.len < 256 ^ 2 := a.len_lt
    rw [bytes, List.append_assoc, readLe_mid _ _ _ (length_littleEndian 2 _),
      leNat_littleEndian hlt]
  type := by
    have hlt : a.type.toNat < 256 ^ 2 := a.type.toNat_lt
    have hpre : (pre ++ littleEndian 2 a.len).length = pre.length + 2 := by simp
    have hread := readLe_mid (pre ++ littleEndian 2 a.len) (littleEndian 2 a.type.toNat)
      (a.data ++ a.pad ++ post) (length_littleEndian 2 _)
    rw [hpre, leNat_littleEndian hlt] at hread
    rw [bytes]
    simpa only [List.append_assoc] using hread
  data := by
    intro i n h
    have hpre : (pre ++ (littleEndian 2 a.len ++ littleEndian 2 a.type.toNat)).length
        = pre.length + 4 := by simp
    have hread := readSlice_mid (pre ++ (littleEndian 2 a.len ++ littleEndian 2 a.type.toNat))
      a.data (a.pad ++ post) h
    rw [hpre] at hread
    rw [bytes]
    simpa only [List.append_assoc] using hread

end NlAttr

/-! ## Walking the attributes -/

/-- What the attributes so far say about the packet. -/
structure Seen where
  payload : Option (List UInt8) := none
  hwProtocol : UInt16 := 0
  mark : UInt32 := 0
  tsSec : UInt64 := 0
  tsUsec : UInt64 := 0

def Seen.see (v : Seen) (a : NlAttr) : Seen where
  payload := if a.kind = nfulaPayload ∧ 0 < a.data.length then some a.data else v.payload
  hwProtocol := if a.kind = nfulaPacketHdr ∧ 4 ≤ a.data.length then
      UInt16.ofNat (beNat (a.data.take 2)) else v.hwProtocol
  mark := if a.kind = nfulaMark ∧ 4 ≤ a.data.length then
      UInt32.ofNat (beNat (a.data.take 4)) else v.mark
  tsSec := if a.kind = nfulaTimestamp ∧ 16 ≤ a.data.length then
      UInt64.ofNat (beNat (a.data.take 8)) else v.tsSec
  tsUsec := if a.kind = nfulaTimestamp ∧ 16 ≤ a.data.length then
      UInt64.ofNat (beNat ((a.data.drop 8).take 8)) else v.tsUsec

/-- The variables of the walk say this about the packet; of the payload they have the place. -/
structure PacketAttrs.Shows (buf : List UInt8) (s : PacketAttrs) (v : Seen) : Prop where
  payload : (s.payload = none ∧ v.payload = none) ∨
    ∃ d n bs, s.payload = some (d, n) ∧ v.payload = some bs ∧ 0 < n ∧ readSlice buf d n = some bs
  hwProtocol : s.hwProtocol = v.hwProtocol
  mark : s.mark = v.mark
  tsSec : s.tsSec = v.tsSec
  tsUsec : s.tsUsec = v.tsUsec

variable {off : ℕ} {a : NlAttr}

theorem AttrAt.readBe (h : AttrAt buf off a) {i n : ℕ} (hle : i + n ≤ a.data.length) :
    readBe buf (off + 4 + i) n = some (beNat ((a.data.drop i).take n)) := by
  rw [NetForensics.readBe, h.data i n hle, Option.map_some]

/-! What an attribute of each kind adds. -/

theorem see_packetHdr (v : Seen) (h : a.kind = nfulaPacketHdr) :
    v.see a = { v with hwProtocol :=
      (if 4 ≤ a.data.length then UInt16.ofNat (beNat (a.data.take 2)) else v.hwProtocol) } := by
  simp [Seen.see, h, nfulaPacketHdr, nfulaMark, nfulaTimestamp, nfulaPayload]

theorem see_mark (v : Seen) (h : a.kind = nfulaMark) :
    v.see a = { v with mark :=
      (if 4 ≤ a.data.length then UInt32.ofNat (beNat (a.data.take 4)) else v.mark) } := by
  simp [Seen.see, h, nfulaPacketHdr, nfulaMark, nfulaTimestamp, nfulaPayload]

theorem see_timestamp (v : Seen) (h : a.kind = nfulaTimestamp) :
    v.see a = if 16 ≤ a.data.length then
      { v with
        tsSec := UInt64.ofNat (beNat (a.data.take 8))
        tsUsec := UInt64.ofNat (beNat ((a.data.drop 8).take 8)) } else v := by
  by_cases hlen : 16 ≤ a.data.length <;>
    simp [Seen.see, h, hlen, nfulaPacketHdr, nfulaMark, nfulaTimestamp, nfulaPayload]

theorem see_payload (v : Seen) (h : a.kind = nfulaPayload) :
    v.see a = { v with payload := (if 0 < a.data.length then some a.data else v.payload) } := by
  simp [Seen.see, h, nfulaPacketHdr, nfulaMark, nfulaTimestamp, nfulaPayload]

theorem see_of_other (v : Seen) (hhdr : a.kind ≠ nfulaPacketHdr) (hmark : a.kind ≠ nfulaMark)
    (hts : a.kind ≠ nfulaTimestamp) (hpayload : a.kind ≠ nfulaPayload) : v.see a = v := by
  simp [Seen.see, hhdr, hmark, hts, hpayload]

theorem readAttr_attrAt (h : AttrAt buf off a) {s : PacketAttrs} {v : Seen} (hs : s.Shows buf v) :
    ∃ t, readAttr buf s a.kind (off + 4) a.data.length = some t ∧ t.Shows buf (v.see a) := by
  unfold readAttr
  by_cases hhdr : a.kind = nfulaPacketHdr
  · rw [if_pos hhdr, see_packetHdr v hhdr]
    by_cases hlen : 4 ≤ a.data.length
    · have hread := h.readBe (i := 0) (n := 2) (by omega)
      rw [Nat.add_zero, List.drop_zero] at hread
      rw [if_pos hlen, if_pos hlen, hread]
      exact ⟨_, rfl, { hs with hwProtocol := rfl }⟩
    · rw [if_neg hlen, if_neg hlen]
      exact ⟨s, rfl, hs⟩
  · rw [if_neg hhdr]
    by_cases hmark : a.kind = nfulaMark
    · rw [if_pos hmark, see_mark v hmark]
      by_cases hlen : 4 ≤ a.data.length
      · have hread := h.readBe (i := 0) (n := 4) (by omega)
        rw [Nat.add_zero, List.drop_zero] at hread
        rw [if_pos hlen, if_pos hlen, hread]
        exact ⟨_, rfl, { hs with mark := rfl }⟩
      · rw [if_neg hlen, if_neg hlen]
        exact ⟨s, rfl, hs⟩
    · rw [if_neg hmark]
      by_cases hts : a.kind = nfulaTimestamp
      · rw [if_pos hts, see_timestamp v hts]
        by_cases hlen : 16 ≤ a.data.length
        · have hsec := h.readBe (i := 0) (n := 8) (by omega)
          have husec := h.readBe (i := 8) (n := 8) (by omega)
          rw [Nat.add_zero, List.drop_zero] at hsec
          rw [if_pos hlen, if_pos hlen, hsec, husec]
          exact ⟨_, rfl, { hs with tsSec := rfl, tsUsec := rfl }⟩
        · rw [if_neg hlen, if_neg hlen]
          exact ⟨s, rfl, hs⟩
      · rw [if_neg hts]
        by_cases hpayload : a.kind = nfulaPayload
        · rw [if_pos hpayload, see_payload v hpayload]
          by_cases hlen : 0 < a.data.length
          · have hread := h.data 0 a.data.length (by omega)
            rw [Nat.add_zero, List.drop_zero, List.take_length] at hread
            rw [if_pos hlen, if_pos hlen]
            exact ⟨_, rfl, { hs with
              payload := Or.inr ⟨off + 4, a.data.length, a.data, rfl, rfl, hlen, hread⟩ }⟩
          · rw [if_neg hlen, if_neg hlen]
            exact ⟨s, rfl, hs⟩
        · rw [if_neg hpayload, see_of_other v hhdr hmark hts hpayload]
          exact ⟨s, rfl, hs⟩

theorem walkAttrs_attrAt (h : AttrAt buf off a) {s : PacketAttrs} {v : Seen} (hs : s.Shows buf v)
    {rem : ℤ} (hrem : a.len ≤ rem) :
    ∃ t, t.Shows buf (v.see a) ∧ walkAttrs buf off rem s
      = walkAttrs buf (off + nflogNlaAlign a.len) (rem - nflogNlaAlign a.len) t := by
  have hheader : 4 ≤ a.len := Nat.le_add_right 4 _
  have hdata : a.len - 4 = a.data.length := Nat.add_sub_cancel_left 4 _
  obtain ⟨t, ht, hshows⟩ := readAttr_attrAt h hs
  refine ⟨t, hshows, ?_⟩
  rw [NlAttr.kind] at ht
  rw [walkAttrs, if_neg (by omega), h.len]
  dsimp only
  rw [if_neg (by omega), h.type]
  dsimp only
  rw [hdata, ht]

theorem Padded.tail {attrs : List NlAttr} (h : Padded (a :: attrs)) : Padded attrs := by
  cases attrs with
  | nil => trivial
  | cons b attrs => exact h.2

theorem walkAttrs_attrBytes (attrs : List NlAttr) (hpad : Padded attrs) (pre post : List UInt8)
    {s : PacketAttrs} {v : Seen} (hs : s.Shows (pre ++ (attrBytes attrs ++ post)) v) :
    ∃ t, t.Shows (pre ++ (attrBytes attrs ++ post)) (attrs.foldl Seen.see v) ∧
      walkAttrs (pre ++ (attrBytes attrs ++ post)) pre.length (attrBytes attrs).length s
        = some t := by
  induction attrs generalizing pre s v with
  | nil =>
    rw [walkAttrs]
    exact ⟨s, hs, rfl⟩
  | cons a attrs ih =>
    have hbytes : attrBytes (a :: attrs) = a.bytes ++ attrBytes attrs := List.flatMap_cons
    have hlen : (attrBytes (a :: attrs)).length
        = a.len + a.pad.length + (attrBytes attrs).length := by
      rw [hbytes, List.length_append, NlAttr.length_bytes]
    have hfit : (a.len : ℤ) ≤ ((a.len + a.pad.length + (attrBytes attrs).length : ℕ) : ℤ) := by
      omega
    rw [hlen]
    rw [hbytes, List.append_assoc] at hs ⊢
    obtain ⟨t, ht, hwalk⟩ := walkAttrs_attrAt (a.attrAt pre (attrBytes attrs ++ post)) hs hfit
    rw [hwalk]
    cases attrs with
    | nil =>
      -- the padding of the last attribute may be missing
      have hle : 4 + a.data.length + a.pad.length ≤ nflogNlaAlign a.len := a.pad_le
      have hend : ((a.len + a.pad.length + (attrBytes []).length : ℕ) : ℤ)
          - nflogNlaAlign a.len < 4 := by
        rw [attrBytes, List.flatMap_nil, List.length_nil, NlAttr.len] at *
        omega
      rw [walkAttrs, if_pos hend]
      exact ⟨t, ht, rfl⟩
    | cons b attrs =>
      have hfull : a.len + a.pad.length = nflogNlaAlign a.len := hpad.1
      have hoff : pre.length + nflogNlaAlign a.len = (pre ++ a.bytes).length := by
        rw [List.length_append, NlAttr.length_bytes, hfull]
      have hrem : ((a.len + a.pad.length + (attrBytes (b :: attrs)).length : ℕ) : ℤ)
          - nflogNlaAlign a.len = ((attrBytes (b :: attrs)).length : ℕ) := by
        rw [hfull]
        omega
      rw [hoff, hrem, ← List.append_assoc] at *
      exact ih hpad.tail (pre ++ a.bytes) ht

def Seen.packet (v : Seen) : Option NflogPacket :=
  v.payload.map fun payload ↦ ⟨payload, v.hwProtocol, v.mark, v.tsSec, v.tsUsec⟩

def seen (attrs : List NlAttr) : Seen := attrs.foldl Seen.see {}

theorem walkPacketAttrs_attrBytes (attrs : List NlAttr) (hpad : Padded attrs)
    (pre post : List UInt8) :
    walkPacketAttrs (pre ++ (attrBytes attrs ++ post)) pre.length (attrBytes attrs).length
      = some (seen attrs).packet := by
  have hstart : PacketAttrs.Shows (pre ++ (attrBytes attrs ++ post)) {} {} :=
    ⟨Or.inl ⟨rfl, rfl⟩, rfl, rfl, rfl, rfl⟩
  obtain ⟨t, ht, hwalk⟩ := walkAttrs_attrBytes attrs hpad pre post hstart
  rw [walkPacketAttrs, hwalk]
  simp only [Option.bind_eq_bind, Option.bind_some]
  have hseen : attrs.foldl Seen.see {} = seen attrs := rfl
  rw [hseen] at ht
  rcases ht.payload with ⟨hnone, hnone'⟩ | ⟨d, n, bs, hsome, hsome', hpos, hslice⟩
  · rw [hnone, Seen.packet, hnone']
    rfl
  · rw [hsome, Seen.packet, hsome']
    dsimp only
    rw [if_pos hpos, hslice, ht.hwProtocol, ht.mark, ht.tsSec, ht.tsUsec]
    rfl

theorem walkPacketAttrs_of_neg {off : ℕ} {attrlen : ℤ} (h : attrlen < 0) :
    walkPacketAttrs buf off attrlen = some none := by
  rw [walkPacketAttrs, walkAttrs, if_pos (by omega)]
  rfl

/-- As a signed number, a length of 31 bits is itself, and one of 32 bits is negative. -/
theorem bmod_eq_self {n : ℕ} (h : n < 2 ^ 31) : Int.bmod (n : ℤ) (2 ^ 32) = n := by
  rw [Int.bmod_def]
  split <;> omega

theorem bmod_neg {n : ℕ} (h : 2 ^ 31 ≤ n) (hlt : n < 2 ^ 32) : Int.bmod (n : ℤ) (2 ^ 32) < 0 := by
  rw [Int.bmod_def]
  split <;> omega

/-! ## Walking the messages -/

namespace NlMessage

def counted (m : NlMessage) : Bool :=
  match m.content with
  | .packet _ attrs => !attrs.isEmpty
  | .other _ _ => false

/-- What the callback gets for the message. The length of the attributes is taken for a signed
number on the way. -/
def handed (m : NlMessage) : Option NflogPacket :=
  match m.content with
  | .packet _ attrs => if (attrBytes attrs).length < 2 ^ 31 then (seen attrs).packet else none
  | .other _ _ => none

@[simp] theorem length_bytes (m : NlMessage) : m.bytes.length = m.len + m.pad.length := by
  rw [bytes, len]
  simp only [List.length_append, length_littleEndian, m.header_length]
  omega

theorem len_lt (m : NlMessage) : m.len < 2 ^ 32 := m.size_lt

def Rounds (m : NlMessage) : Prop := m.bytes.length < 2 ^ 32

theorem Rounds.nlmsgAlign_len {m : NlMessage} (h : m.Rounds) :
    nlmsgAlign m.len = m.bytes.length := by
  have hpad := m.pad_length
  rw [Rounds] at h
  rw [length_bytes, len] at *
  rw [nlmsgAlign]
  omega

theorem nlmsgAlign_len_of_not_rounds {m : NlMessage} (h : ¬ m.Rounds) : nlmsgAlign m.len = 0 := by
  have hpad := m.pad_length
  have hlt := m.size_lt
  rw [Rounds, length_bytes] at h
  rw [len] at *
  rw [nlmsgAlign]
  omega

theorem readLe_len (m : NlMessage) (pre post : List UInt8) :
    readLe (pre ++ (m.bytes ++ post)) pre.length 4 = some m.len := by
  rw [bytes, List.append_assoc, readLe_mid _ _ _ (length_littleEndian 4 _),
    leNat_littleEndian m.len_lt]

theorem readLe_type (m : NlMessage) (pre post : List UInt8) :
    readLe (pre ++ (m.bytes ++ post)) (pre.length + 4) 2 = some m.content.type.toNat := by
  have hlt : m.content.type.toNat < 256 ^ 2 := m.content.type.toNat_lt
  have hpre : (pre ++ littleEndian 4 m.len).length = pre.length + 4 := by simp
  have hread := readLe_mid (pre ++ littleEndian 4 m.len)
    (littleEndian 2 m.content.type.toNat) (m.header ++ (m.content.body ++ m.pad) ++ post)
    (length_littleEndian 2 _)
  rw [hpre, leNat_littleEndian hlt] at hread
  rw [bytes]
  simpa only [List.append_assoc] using hread

theorem bytes_packet {m : NlMessage} {genmsg : List UInt8} {attrs : List NlAttr}
    (h : m.content = .packet genmsg attrs) (pre post : List UInt8) :
    ∃ pre', pre'.length = pre.length + 20 ∧ m.len = 20 + (attrBytes attrs).length ∧
      pre ++ (m.bytes ++ post) = pre' ++ (attrBytes attrs ++ (m.pad ++ post)) := by
  have hwf := m.wellFormed
  rw [h] at hwf
  have hbody : m.content.body = genmsg ++ attrBytes attrs := by rw [h]; rfl
  refine ⟨pre ++ (littleEndian 4 m.len ++ (littleEndian 2 m.content.type.toNat ++
    (m.header ++ genmsg))), ?_, ?_, ?_⟩
  · simp only [List.length_append, length_littleEndian, m.header_length, hwf.1]
  · rw [len, hbody, List.length_append, hwf.1]
    omega
  · rw [bytes, hbody]
    simp only [List.append_assoc]

theorem attrBytes_eq_nil_iff (attrs : List NlAttr) : (attrBytes attrs).length = 0 ↔ attrs = [] := by
  cases attrs with
  | nil => exact iff_of_true rfl rfl
  | cons a attrs =>
    have hlen : (attrBytes (a :: attrs)).length
        = 4 + a.data.length + a.pad.length + (attrBytes attrs).length := by
      rw [attrBytes, List.flatMap_cons, List.length_append, NlAttr.length_bytes, NlAttr.len]
      rfl
    refine iff_of_false ?_ (List.cons_ne_nil _ _)
    omega

theorem counted_packet {m : NlMessage} {genmsg : List UInt8} {attrs : List NlAttr}
    (h : m.content = .packet genmsg attrs) : m.counted = !attrs.isEmpty := by
  rw [counted, h]

theorem handed_packet {m : NlMessage} {genmsg : List UInt8} {attrs : List NlAttr}
    (h : m.content = .packet genmsg attrs) :
    m.handed = if (attrBytes attrs).length < 2 ^ 31 then (seen attrs).packet else none := by
  rw [handed, h]

/-- What is done for a packet: it is counted if it has any attribute, and handed on. -/
theorem packet_eq {m : NlMessage} {genmsg : List UInt8} {attrs : List NlAttr}
    (h : m.content = .packet genmsg attrs) (pre post : List UInt8) {s : WalkState}
    (hoff : s.off = pre.length) :
    s.packet (pre ++ (m.bytes ++ post)) m.len
      = some { s with
          count := s.count + if m.counted then 1 else 0
          delivered := s.delivered ++ m.handed.toList } := by
  have hwf := m.wellFormed
  have hlt := m.len_lt
  rw [h] at hwf
  obtain ⟨pre', hpre, hlen, hbuf⟩ := bytes_packet h pre post
  have hattrs : m.len - (16 + 4) = (attrBytes attrs).length := by omega
  have hstart : s.off + (16 + 4) = pre'.length := by rw [hpre, hoff]
  rw [counted_packet h, handed_packet h, hbuf, WalkState.packet, hstart, hattrs]
  by_cases hnil : attrs = []
  · have hzero : (attrBytes attrs).length = 0 := (attrBytes_eq_nil_iff attrs).mpr hnil
    rw [if_neg (by omega), hnil]
    simp [attrBytes, seen, Seen.packet]
  · have hpos : (attrBytes attrs).length ≠ 0 := fun h ↦ hnil ((attrBytes_eq_nil_iff attrs).mp h)
    have hcount : (!attrs.isEmpty) = true := by simpa using hnil
    rw [if_pos (by omega), if_pos hcount]
    by_cases hsmall : (attrBytes attrs).length < 2 ^ 31
    · rw [bmod_eq_self hsmall, walkPacketAttrs_attrBytes attrs hwf.2, if_pos hsmall]
    · rw [walkPacketAttrs_of_neg (bmod_neg (Nat.le_of_not_lt hsmall) (by omega)), if_neg hsmall]

/-- Only the type of a packet is read as one. -/
theorem eq_of_isPacket {type : UInt16} (h : isPacket type.toNat = true) : type = 0x0400 := by
  rw [isPacket, Bool.and_eq_true, beq_iff_eq, beq_iff_eq, nfnlSubsysUlog, nfulnlMsgPacket] at h
  refine UInt16.toNat_inj.mp ?_
  have htype : (0x0400 : UInt16).toNat = 1024 := rfl
  omega

theorem isPacket_of_other {m : NlMessage} {type : UInt16} {body : List UInt8}
    (h : m.content = .other type body) :
    isPacket m.content.type.toNat = false ∧ m.counted = false ∧ m.handed = none := by
  have hwf := m.wellFormed
  rw [h] at hwf ⊢
  rw [counted, handed, h]
  exact ⟨Bool.eq_false_iff.mpr fun hpacket ↦ hwf (eq_of_isPacket hpacket), rfl, rfl⟩

theorem walkStep_message {m : NlMessage} (h : m.Rounds) (pre post : List UInt8) {s : WalkState}
    (hoff : s.off = pre.length) (hleft : s.left = m.bytes.length + post.length) :
    walkStep (pre ++ (m.bytes ++ post)) s
      = some (.go
          { off := (pre ++ m.bytes).length
            left := post.length
            count := s.count + if m.counted then 1 else 0
            delivered := s.delivered ++ m.handed.toList }) := by
  have halign := h.nlmsgAlign_len
  have hlen := m.length_bytes
  have hheader : 16 ≤ m.len := Nat.le_add_right 16 _
  have hadvance : ∀ c d, WalkState.advance { s with count := c, delivered := d } m.len
      = ⟨(pre ++ m.bytes).length, post.length, c, d⟩ := by
    intro c d
    rw [WalkState.advance, halign, subSize, if_pos (by dsimp only; omega), List.length_append]
    dsimp only
    congr 1
    · rw [hoff]
    · omega
  have hroom : ¬ s.left < nlmsgAlign m.len := by
    rw [halign, hleft]
    omega
  rw [walkStep, if_neg (by omega), hoff, m.readLe_len]
  dsimp only
  rw [if_neg (by omega), m.readLe_type]
  dsimp only
  cases hcontent : m.content with
  | packet genmsg attrs =>
    have hcontrol : isControl (NlContent.packet genmsg attrs).type.toNat = false := rfl
    have hpacket : isPacket (NlContent.packet genmsg attrs).type.toNat = true := by
      rw [NlContent.type]
      decide
    rw [hcontrol, hpacket, if_neg Bool.false_ne_true, if_pos rfl, packet_eq hcontent pre post hoff]
    dsimp only
    rw [if_neg hroom, hadvance]
  | other type body =>
    obtain ⟨hpacket, hcounted, hhanded⟩ := isPacket_of_other hcontent
    rw [hcontent] at hpacket
    have hcount : (s.count + if m.counted = true then 1 else 0) = s.count := by rw [hcounted]; rfl
    have hdelivered : s.delivered ++ m.handed.toList = s.delivered := by
      rw [hhanded, Option.toList_none, List.append_nil]
    rw [hcount, hdelivered]
    split
    · exact congrArg (some ∘ Turn.go) (hadvance s.count s.delivered)
    · rw [hpacket, if_neg Bool.false_ne_true]
      dsimp only
      rw [if_neg hroom]
      exact congrArg (some ∘ Turn.go) (hadvance s.count s.delivered)

end NlMessage

end NetForensics
