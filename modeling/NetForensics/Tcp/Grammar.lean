import NetForensics.Tcp.Packet
import NetForensics.Util.Reads

/-!
# The grammar of captured TCP packets

Which packets `cpe_tcp_parse_ip_packet` takes, and where it finds the TCP header in them. For IPv4
this is a matter of a few fields. For IPv6 the header is at the end of a chain of extension headers,
each of which says how long it is and what follows (`ExtChain`).

Every read of the parser is inside the buffer: written with checked reads, the parser is the same
function and never fails (`parseReads_eq`).
-/

namespace NetForensics

/-! ## Reads -/

/-- The TCP fields at offset `th`, read one by one. -/
def readTcpFields (pkt : List UInt8) (th : ℕ) (srcIp dstIp : CStr) (isIpv6 : Bool)
    (ipLen : UInt16) : Option CpeTcpPacket := do
  let srcPort ← readBe pkt th 2
  let dstPort ← readBe pkt (th + 2) 2
  let seq ← readBe pkt (th + 4) 4
  let flags ← readByte pkt (th + 13)
  some ⟨srcIp, dstIp, UInt16.ofNat srcPort, UInt16.ofNat dstPort, flags, isIpv6, ipLen,
    UInt32.ofNat seq⟩

/-- The IPv4 branch of the parser with its reads: `none` is a read outside the packet, `some none`
a packet that is refused. -/
def readIpv4 (pkt : List UInt8) : Option (Option CpeTcpPacket) := do
  let first ← readByte pkt 0
  let ihl := first.toNat % 16
  if ihl < 5 ∨ pkt.length < ihl * 4 then some none
  else
    let protocol ← readByte pkt 9
    if protocol ≠ ipprotoTcp then some none
    else if pkt.length < ihl * 4 + 14 then some none
    else
      let saddr ← readBe pkt 12 4
      let daddr ← readBe pkt 16 4
      let totLen ← readBe pkt 2 2
      match fitText 48 (inetNtop4 (UInt32.ofNat saddr)), fitText 48 (inetNtop4 (UInt32.ofNat daddr))
        with
      | some src, some dst =>
        let ipLen := if totLen = 0 then UInt16.ofNat pkt.length else UInt16.ofNat totLen
        (readTcpFields pkt (ihl * 4) src dst false ipLen).map some
      | _, _ => some none

/-- The extension-header loop with its reads. -/
def readExtHeaders (pkt : List UInt8) (nx : UInt8) (off : ℕ) : Option (UInt8 × ℕ) :=
  if h : nx ≠ ipprotoTcp ∧ off + 8 ≤ pkt.length then
    if nx = 0 ∨ nx = 43 ∨ nx = 60 then do
      let extLen ← readByte pkt (off + 1)
      let next ← readByte pkt off
      readExtHeaders pkt next (off + (extLen.toNat + 1) * 8)
    else if nx = 44 then do
      let next ← readByte pkt off
      readExtHeaders pkt next (off + 8)
    else some (nx, off)
  else some (nx, off)
termination_by pkt.length - off
decreasing_by all_goals omega

/-- The address in 16 bytes. -/
def in6OfBytes (bs : List UInt8) : In6Addr := fun k ↦ byteAt bs k

/-- The IPv6 branch with its reads. -/
def readIpv6 (pkt : List UInt8) : Option (Option CpeTcpPacket) := do
  if pkt.length < 40 + 14 then some none
  else
    let first ← readByte pkt 6
    let (nx, off) ← readExtHeaders pkt first 40
    if nx ≠ ipprotoTcp ∨ pkt.length < off + 14 then some none
    else
      let saddr ← readSlice pkt 8 16
      let daddr ← readSlice pkt 24 16
      let plen ← readBe pkt 4 2
      match fitText 48 (inetNtop6 (in6OfBytes saddr)), fitText 48 (inetNtop6 (in6OfBytes daddr))
        with
      | some src, some dst =>
        (readTcpFields pkt off src dst true (UInt16.ofNat (plen + 40))).map some
      | _, _ => some none

/-- `cpe_tcp_parse_ip_packet` with its reads. -/
def parseReads (pkt : List UInt8) : Option (Option CpeTcpPacket) :=
  if pkt.length < 20 then some none
  else do
    let first ← readByte pkt 0
    if first.toNat / 16 = 4 then readIpv4 pkt
    else if first.toNat / 16 = 6 then readIpv6 pkt
    else some none

variable {pkt : List UInt8} {i : ℕ}

theorem byteAt_eq (h : i < pkt.length) : byteAt pkt i = pkt[i] := by
  rw [byteAt, List.getD_eq_getElem?_getD, List.getElem?_eq_getElem h, Option.getD_some]

theorem readByte_eq (h : i < pkt.length) : readByte pkt i = some (byteAt pkt i) := by
  rw [readByte, byteAt_eq h, List.getElem?_eq_getElem h]

theorem slice_eq_bytes {n : ℕ} (h : i + n ≤ pkt.length) :
    (pkt.drop i).take n = (List.range n).map fun k ↦ byteAt pkt (i + k) := by
  refine List.ext_getElem ?_ fun k hk hk' ↦ ?_
  · rw [List.length_take, List.length_drop, List.length_map, List.length_range]
    omega
  · rw [List.length_map, List.length_range] at hk'
    have hlt : i + k < pkt.length := by omega
    rw [List.getElem_take, List.getElem_drop, List.getElem_map, List.getElem_range, byteAt_eq hlt]

theorem readBe_two (h : i + 2 ≤ pkt.length) : readBe pkt i 2 = some (be16At pkt i).toNat := by
  have h0 := (byteAt pkt i).toNat_lt
  have h1 := (byteAt pkt (i + 1)).toNat_lt
  have hbytes : beNat ((List.range 2).map fun k ↦ byteAt pkt (i + k))
      = 256 * (256 * 0 + (byteAt pkt i).toNat) + (byteAt pkt (i + 1)).toNat := rfl
  have hlt : 2 ^ 8 * (byteAt pkt i).toNat + (byteAt pkt (i + 1)).toNat < 2 ^ 16 := by omega
  rw [readBe_of_le h, slice_eq_bytes h, be16At, UInt16.toNat_ofNat_of_lt' hlt, hbytes]
  congr 1
  omega

theorem readBe_four (h : i + 4 ≤ pkt.length) : readBe pkt i 4 = some (be32At pkt i).toNat := by
  have h0 := (byteAt pkt i).toNat_lt
  have h1 := (byteAt pkt (i + 1)).toNat_lt
  have h2 := (byteAt pkt (i + 2)).toNat_lt
  have h3 := (byteAt pkt (i + 3)).toNat_lt
  have hlt : 2 ^ 24 * (byteAt pkt i).toNat + 2 ^ 16 * (byteAt pkt (i + 1)).toNat
      + 2 ^ 8 * (byteAt pkt (i + 2)).toNat + (byteAt pkt (i + 3)).toNat < 2 ^ 32 := by omega
  rw [readBe_of_le h, slice_eq_bytes h, be32At, ofOctets, UInt32.toNat_ofNat_of_lt' hlt]
  have hbytes : beNat ((List.range 4).map fun k ↦ byteAt pkt (i + k))
      = 256 * (256 * (256 * (256 * 0 + (byteAt pkt i).toNat) + (byteAt pkt (i + 1)).toNat)
          + (byteAt pkt (i + 2)).toNat) + (byteAt pkt (i + 3)).toNat := rfl
  rw [hbytes]
  congr 1
  omega

theorem readSlice_in6 (h : i + 16 ≤ pkt.length) :
    ∃ bs, readSlice pkt i 16 = some bs ∧ in6OfBytes bs = in6At pkt i := by
  refine ⟨_, readSlice_of_le h, ?_⟩
  funext k
  have hk : k.val < ((List.range 16).map fun k ↦ byteAt pkt (i + k)).length := by
    rw [List.length_map, List.length_range]
    exact k.isLt
  rw [slice_eq_bytes h, in6OfBytes, byteAt_eq hk, List.getElem_map, List.getElem_range, in6At]

theorem readTcpFields_eq {th : ℕ} (h : th + 14 ≤ pkt.length) (srcIp dstIp : CStr) (isIpv6 : Bool)
    (ipLen : UInt16) : readTcpFields pkt th srcIp dstIp isIpv6 ipLen
      = some (tcpFieldsAt pkt th srcIp dstIp isIpv6 ipLen) := by
  rw [readTcpFields, readBe_two (by omega), readBe_two (by omega), readBe_four (by omega),
    readByte_eq (by omega)]
  simp only [Option.bind_eq_bind, Option.bind_some, UInt16.ofNat_toNat, UInt32.ofNat_toNat,
    tcpFieldsAt]

theorem fitText_inetNtop4 (a : UInt32) : fitText 48 (inetNtop4 a) = some (inetNtop4 a) :=
  if_pos (lt_of_le_of_lt (length_inetNtop4_le a) (by decide))

theorem fitText_inetNtop6 (a : In6Addr) : fitText 48 (inetNtop6 a) = some (inetNtop6 a) :=
  if_pos (length_inetNtop6_lt a)

theorem readIpv4_eq (h : 20 ≤ pkt.length) : readIpv4 pkt = some (parseIpv4 pkt) := by
  rw [readIpv4, parseIpv4, readByte_eq (by omega), readByte_eq (by omega), readBe_four (by omega),
    readBe_four (by omega), readBe_two (by omega)]
  simp only [Option.bind_eq_bind, Option.bind_some, UInt32.ofNat_toNat, fitText_inetNtop4]
  split
  · rfl
  · split
    · rfl
    · split
      · rfl
      · rename_i hlen
        have hzero : (be16At pkt 2).toNat = 0 ↔ be16At pkt 2 = 0 := by
          rw [← UInt16.toNat_inj]
          rfl
        rw [readTcpFields_eq (by omega), Option.map_some, ipv4Len]
        simp only [hzero, UInt16.ofNat_toNat]

theorem readExtHeaders_eq (nx : UInt8) (off : ℕ) :
    readExtHeaders pkt nx off = some (skipExtHeaders pkt nx off) := by
  fun_induction skipExtHeaders pkt nx off with
  | case1 nx off h hopt ih =>
    rw [readExtHeaders, dif_pos h, if_pos hopt, readByte_eq (by omega), readByte_eq (by omega)]
    exact ih
  | case2 off h hopt ih =>
    rw [readExtHeaders, dif_pos h, if_neg hopt, if_pos rfl, readByte_eq (by omega)]
    exact ih
  | case3 nx off h hopt hfrag => rw [readExtHeaders, dif_pos h, if_neg hopt, if_neg hfrag]
  | case4 nx off h => rw [readExtHeaders, dif_neg h]

theorem readIpv6_eq : readIpv6 pkt = some (parseIpv6 pkt) := by
  rw [readIpv6, parseIpv6]
  split
  · rfl
  · rename_i hlen
    have hsrcRoom : 8 + 16 ≤ pkt.length := by omega
    have hdstRoom : 24 + 16 ≤ pkt.length := by omega
    obtain ⟨saddr, hsaddr, hsrc⟩ := readSlice_in6 hsrcRoom
    obtain ⟨daddr, hdaddr, hdst⟩ := readSlice_in6 hdstRoom
    rw [readByte_eq (by omega), hsaddr, hdaddr, readBe_two (by omega)]
    simp only [Option.bind_eq_bind, Option.bind_some, readExtHeaders_eq, hsrc, hdst,
      fitText_inetNtop6]
    split
    · rfl
    · rename_i hroom
      rw [readTcpFields_eq (by omega), Option.map_some]

theorem parseReads_eq (pkt : List UInt8) : parseReads pkt = some (cpeTcpParseIpPacket pkt) := by
  rw [parseReads, cpeTcpParseIpPacket]
  split
  · rfl
  · rename_i hlen
    rw [readByte_eq (by omega)]
    simp only [Option.bind_eq_bind, Option.bind_some]
    split
    · exact readIpv4_eq (by omega)
    · split
      · exact readIpv6_eq
      · rfl

/-! ## The grammar -/

def ipVersion (pkt : List UInt8) : ℕ := (byteAt pkt 0).toNat / 16

def ipv4HeaderLen (pkt : List UInt8) : ℕ := 4 * ((byteAt pkt 0).toNat % 16)

/-- The chain of extension headers that starts at offset `off` with a header of type `nx` leads to a
TCP header at offset `th`. Every header of the chain has eight bytes; hop-by-hop, routing and
destination options say how long they are. -/
inductive ExtChain (pkt : List UInt8) : UInt8 → ℕ → ℕ → Prop
  | tcp (off : ℕ) : ExtChain pkt ipprotoTcp off off
  | options {nx : UInt8} {off th : ℕ} (kind : nx = 0 ∨ nx = 43 ∨ nx = 60)
      (room : off + 8 ≤ pkt.length)
      (rest : ExtChain pkt (byteAt pkt off) (off + ((byteAt pkt (off + 1)).toNat + 1) * 8) th) :
      ExtChain pkt nx off th
  | fragment {off th : ℕ} (room : off + 8 ≤ pkt.length)
      (rest : ExtChain pkt (byteAt pkt off) (off + 8) th) : ExtChain pkt 44 off th

/-- The IPv4 packet carries a TCP header at offset `th`. -/
structure Ipv4TcpAt (pkt : List UInt8) (th : ℕ) : Prop where
  version : ipVersion pkt = 4
  ihl : 5 ≤ (byteAt pkt 0).toNat % 16
  protocol : byteAt pkt 9 = 6
  offset : th = ipv4HeaderLen pkt
  room : th + 14 ≤ pkt.length

/-- The IPv6 packet carries a TCP header at offset `th`. -/
structure Ipv6TcpAt (pkt : List UInt8) (th : ℕ) : Prop where
  version : ipVersion pkt = 6
  header : 54 ≤ pkt.length
  chain : ExtChain pkt (byteAt pkt 6) 40 th
  room : th + 14 ≤ pkt.length

/-- What is read from an IPv4 packet with its TCP header at `th`. -/
def ipv4Packet (pkt : List UInt8) (th : ℕ) : CpeTcpPacket where
  srcIp := inetNtop4 (be32At pkt 12)
  dstIp := inetNtop4 (be32At pkt 16)
  srcPort := be16At pkt th
  dstPort := be16At pkt (th + 2)
  flags := byteAt pkt (th + 13)
  isIpv6 := false
  ipLen := if be16At pkt 2 = 0 then UInt16.ofNat pkt.length else be16At pkt 2
  seq := be32At pkt (th + 4)

/-- What is read from an IPv6 packet with its TCP header at `th`. -/
def ipv6Packet (pkt : List UInt8) (th : ℕ) : CpeTcpPacket where
  srcIp := inetNtop6 (in6At pkt 8)
  dstIp := inetNtop6 (in6At pkt 24)
  srcPort := be16At pkt th
  dstPort := be16At pkt (th + 2)
  flags := byteAt pkt (th + 13)
  isIpv6 := true
  ipLen := UInt16.ofNat ((be16At pkt 4).toNat + 40)
  seq := be32At pkt (th + 4)

theorem skipExtHeaders_eq_tcp_iff (nx : UInt8) (off th : ℕ) :
    skipExtHeaders pkt nx off = (ipprotoTcp, th) ↔ ExtChain pkt nx off th := by
  fun_induction skipExtHeaders pkt nx off with
  | case1 nx off h hopt ih =>
    rw [ih]
    constructor
    · exact ExtChain.options hopt h.2
    · intro hchain
      cases hchain with
      | tcp => exact absurd rfl h.1
      | options kind room rest => exact rest
      | fragment room rest => exact absurd hopt (by decide)
  | case2 off h hopt ih =>
    rw [ih]
    constructor
    · exact ExtChain.fragment h.2
    · intro hchain
      cases hchain with
      | options kind room rest => exact absurd kind hopt
      | fragment room rest => exact rest
  | case3 nx off h hopt hfrag =>
    refine iff_of_false (fun heq ↦ h.1 (congrArg Prod.fst heq)) fun hchain ↦ ?_
    cases hchain with
    | tcp => exact h.1 rfl
    | options kind room rest => exact hopt kind
    | fragment room rest => exact hfrag rfl
  | case4 nx off h =>
    constructor
    · intro heq
      obtain ⟨rfl, rfl⟩ := Prod.mk.inj heq
      exact ExtChain.tcp off
    · intro hchain
      cases hchain with
      | tcp => rfl
      | options kind room rest =>
        have hne : nx ≠ ipprotoTcp := by
          rintro rfl
          exact absurd kind (by decide)
        exact absurd ⟨hne, room⟩ h
      | fragment room rest => exact absurd ⟨by decide, room⟩ h

theorem parseIpv4_eq_some_iff (hversion : ipVersion pkt = 4) (p : CpeTcpPacket) :
    parseIpv4 pkt = some p ↔ ∃ th, Ipv4TcpAt pkt th ∧ p = ipv4Packet pkt th := by
  rw [parseIpv4]
  simp only [Option.bind_eq_bind, fitText_inetNtop4, Option.bind_some]
  constructor
  · intro h
    split_ifs at h with hihl hproto hroom
    have hth : ipv4HeaderLen pkt = (byteAt pkt 0).toNat % 16 * 4 := Nat.mul_comm _ _
    refine ⟨_, ⟨hversion, by omega, not_not.mp hproto, rfl, by omega⟩, ?_⟩
    rw [← Option.some_inj.mp h, hth]
    rfl
  · rintro ⟨th, ⟨-, hihl, hproto, rfl, hroom⟩, rfl⟩
    have hth : ipv4HeaderLen pkt = (byteAt pkt 0).toNat % 16 * 4 := Nat.mul_comm _ _
    have hproto' : ¬ byteAt pkt 9 ≠ ipprotoTcp := not_not.mpr hproto
    rw [if_neg (by omega), if_neg hproto', if_neg (by omega), hth]
    rfl

theorem parseIpv6_eq_some_iff (hversion : ipVersion pkt = 6) (p : CpeTcpPacket) :
    parseIpv6 pkt = some p ↔ ∃ th, Ipv6TcpAt pkt th ∧ p = ipv6Packet pkt th := by
  rw [parseIpv6]
  simp only [Option.bind_eq_bind, fitText_inetNtop6, Option.bind_some]
  generalize hskip : skipExtHeaders pkt (byteAt pkt 6) 40 = res
  obtain ⟨nx, off⟩ := res
  dsimp only
  constructor
  · intro h
    split_ifs at h with hlen hroom
    obtain ⟨hnx, hoff⟩ := not_or.mp hroom
    rw [not_not.mp hnx] at hskip
    refine ⟨off, ⟨hversion, by omega, ?_, by omega⟩, ?_⟩
    · exact (skipExtHeaders_eq_tcp_iff _ _ _).mp hskip
    · rw [← Option.some_inj.mp h]
      rfl
  · rintro ⟨th, ⟨-, hlen, hchain, hroom⟩, rfl⟩
    rw [(skipExtHeaders_eq_tcp_iff _ _ _).mpr hchain] at hskip
    obtain ⟨rfl, rfl⟩ := Prod.mk.inj hskip
    rw [if_neg (by omega), if_neg (by
      rintro (h | h)
      · exact h rfl
      · omega)]
    rfl

/-- What is parsed: the packets of the grammar, with the fields at the place it gives. -/
theorem parse_eq_some_iff (p : CpeTcpPacket) :
    cpeTcpParseIpPacket pkt = some p ↔
      (∃ th, Ipv4TcpAt pkt th ∧ p = ipv4Packet pkt th) ∨
        ∃ th, Ipv6TcpAt pkt th ∧ p = ipv6Packet pkt th := by
  rw [cpeTcpParseIpPacket]
  by_cases hlen : pkt.length < 20
  · rw [if_pos hlen]
    refine iff_of_false (by simp) ?_
    rintro (⟨th, h, -⟩ | ⟨th, h, -⟩)
    · have hroom := h.room
      rw [h.offset, ipv4HeaderLen] at hroom
      have hihl := h.ihl
      omega
    · have hheader := h.header
      omega
  · rw [if_neg hlen]
    by_cases h4 : (byteAt pkt 0).toNat / 16 = 4
    · rw [if_pos h4, parseIpv4_eq_some_iff h4, or_iff_left]
      rintro ⟨th, h, -⟩
      have hversion := h.version
      rw [ipVersion] at hversion
      omega
    · have hno : ¬ ∃ th, Ipv4TcpAt pkt th ∧ p = ipv4Packet pkt th := by
        rintro ⟨th, h, -⟩
        exact h4 h.version
      rw [if_neg h4, or_iff_right hno]
      by_cases h6 : (byteAt pkt 0).toNat / 16 = 6
      · rw [if_pos h6, parseIpv6_eq_some_iff h6]
      · rw [if_neg h6]
        refine iff_of_false (by simp) ?_
        rintro ⟨th, h, -⟩
        exact h6 h.version

def CarriesTcp (pkt : List UInt8) : Prop := (∃ th, Ipv4TcpAt pkt th) ∨ ∃ th, Ipv6TcpAt pkt th

theorem isSome_parse_iff : (cpeTcpParseIpPacket pkt).isSome = true ↔ CarriesTcp pkt := by
  rw [Option.isSome_iff_exists]
  constructor
  · rintro ⟨p, hp⟩
    rcases (parse_eq_some_iff p).mp hp with ⟨th, h, -⟩ | ⟨th, h, -⟩
    · exact Or.inl ⟨th, h⟩
    · exact Or.inr ⟨th, h⟩
  · rintro (⟨th, h⟩ | ⟨th, h⟩)
    · exact ⟨_, (parse_eq_some_iff _).mpr (Or.inl ⟨th, h, rfl⟩)⟩
    · exact ⟨_, (parse_eq_some_iff _).mpr (Or.inr ⟨th, h, rfl⟩)⟩

/-- The parser ends, reads only what is there, takes exactly the packets of the grammar, and returns
the fields where the grammar says they are. -/
theorem parse_accepts_grammar (pkt : List UInt8) :
    parseReads pkt = some (cpeTcpParseIpPacket pkt) ∧
      ((cpeTcpParseIpPacket pkt).isSome = true ↔
        20 ≤ pkt.length ∧ ((∃ th, Ipv4TcpAt pkt th) ∨ ∃ th, Ipv6TcpAt pkt th)) ∧
      ∀ p, cpeTcpParseIpPacket pkt = some p ↔
        (∃ th, Ipv4TcpAt pkt th ∧ p = ipv4Packet pkt th) ∨
          ∃ th, Ipv6TcpAt pkt th ∧ p = ipv6Packet pkt th := by
  refine ⟨parseReads_eq pkt, ?_, fun p ↦ parse_eq_some_iff p⟩
  rw [isSome_parse_iff, CarriesTcp, iff_and_self, ← CarriesTcp, ← isSome_parse_iff]
  intro hsome
  by_contra hlt
  rw [cpeTcpParseIpPacket, if_pos (Nat.lt_of_not_le hlt)] at hsome
  exact Bool.false_ne_true hsome

end NetForensics
