import NetForensics.Inet.Addr

/-!
# Parsed TCP packets

`cpe_tcp_parse_ip_packet`: the addresses, ports, flags and length of a TCP packet, read from the
bytes of a captured IP packet. IPv6 extension headers are skipped one by one; every step moves the
offset forward, which is what bounds the loop.
-/

namespace NetForensics

/-- `cpe_tcp_packet_t` -/
structure CpeTcpPacket where
  srcIp : CStr
  dstIp : CStr
  srcPort : UInt16
  dstPort : UInt16
  flags : UInt8
  isIpv6 : Bool
  ipLen : UInt16
  seq : UInt32
  deriving DecidableEq

/-- `CPE_TCP_FLAG_FIN` -/
def cpeTcpFlagFin : UInt8 := 0x01
/-- `CPE_TCP_FLAG_SYN` -/
def cpeTcpFlagSyn : UInt8 := 0x02
/-- `CPE_TCP_FLAG_RST` -/
def cpeTcpFlagRst : UInt8 := 0x04
/-- `CPE_TCP_FLAG_ACK` -/
def cpeTcpFlagAck : UInt8 := 0x10

/-- `pkt[i]` -/
def byteAt (pkt : List UInt8) (i : ℕ) : UInt8 := pkt.getD i 0

def be16At (pkt : List UInt8) (i : ℕ) : UInt16 :=
  UInt16.ofNat (2 ^ 8 * (byteAt pkt i).toNat + (byteAt pkt (i + 1)).toNat)

def be32At (pkt : List UInt8) (i : ℕ) : UInt32 :=
  ofOctets (byteAt pkt i) (byteAt pkt (i + 1)) (byteAt pkt (i + 2)) (byteAt pkt (i + 3))

/-- The IPv6 address stored at offset `i`. -/
def in6At (pkt : List UInt8) (i : ℕ) : In6Addr := fun k ↦ byteAt pkt (i + k)

/-- `IPPROTO_TCP` -/
def ipprotoTcp : UInt8 := 6

/-- The extension-header loop: the protocol and offset at which it stops. Hop-by-hop (0), routing
(43) and destination options (60) carry their length; a fragment header (44) has eight bytes. -/
def skipExtHeaders (pkt : List UInt8) (nx : UInt8) (off : ℕ) : UInt8 × ℕ :=
  if h : nx ≠ ipprotoTcp ∧ off + 8 ≤ pkt.length then
    if nx = 0 ∨ nx = 43 ∨ nx = 60 then
      skipExtHeaders pkt (byteAt pkt off) (off + ((byteAt pkt (off + 1)).toNat + 1) * 8)
    else if nx = 44 then skipExtHeaders pkt (byteAt pkt off) (off + 8)
    else (nx, off)
  else (nx, off)
termination_by pkt.length - off
decreasing_by all_goals omega

/-- The TCP fields at offset `th`, shared by both branches of the parser. -/
def tcpFieldsAt (pkt : List UInt8) (th : ℕ) (srcIp dstIp : CStr) (isIpv6 : Bool)
    (ipLen : UInt16) : CpeTcpPacket where
  srcIp := srcIp
  dstIp := dstIp
  srcPort := be16At pkt th
  dstPort := be16At pkt (th + 2)
  flags := byteAt pkt (th + 13)
  isIpv6 := isIpv6
  ipLen := ipLen
  seq := be32At pkt (th + 4)

/-- The total length of an IPv4 packet; a zero field means the captured length. -/
def ipv4Len (pkt : List UInt8) : UInt16 :=
  if be16At pkt 2 = 0 then UInt16.ofNat pkt.length else be16At pkt 2

/-- The IPv4 branch of `cpe_tcp_parse_ip_packet`. -/
def parseIpv4 (pkt : List UInt8) : Option CpeTcpPacket := do
  let ihl := (byteAt pkt 0).toNat % 16
  if ihl < 5 ∨ pkt.length < ihl * 4 then none
  else if byteAt pkt 9 ≠ ipprotoTcp then none
  else if pkt.length < ihl * 4 + 14 then none
  else
    let src ← fitText 48 (inetNtop4 (be32At pkt 12))
    let dst ← fitText 48 (inetNtop4 (be32At pkt 16))
    some (tcpFieldsAt pkt (ihl * 4) src dst false (ipv4Len pkt))

/-- The IPv6 branch of `cpe_tcp_parse_ip_packet`. -/
def parseIpv6 (pkt : List UInt8) : Option CpeTcpPacket := do
  if pkt.length < 40 + 14 then none
  else
    let (nx, off) := skipExtHeaders pkt (byteAt pkt 6) 40
    if nx ≠ ipprotoTcp ∨ pkt.length < off + 14 then none
    else
      let src ← fitText 48 (inetNtop6 (in6At pkt 8))
      let dst ← fitText 48 (inetNtop6 (in6At pkt 24))
      some (tcpFieldsAt pkt off src dst true (UInt16.ofNat ((be16At pkt 4).toNat + 40)))

/-- `cpe_tcp_parse_ip_packet` -/
def cpeTcpParseIpPacket (pkt : List UInt8) : Option CpeTcpPacket :=
  if pkt.length < 20 then none
  else if (byteAt pkt 0).toNat / 16 = 4 then parseIpv4 pkt
  else if (byteAt pkt 0).toNat / 16 = 6 then parseIpv6 pkt
  else none

/-! ## What a parsed packet looks like -/

/-- The addresses of a parsed packet are presentation texts of its family. -/
inductive CpeTcpPacket.Addressed (p : CpeTcpPacket) : Prop
  | v4 (src dst : UInt32) (family : p.isIpv6 = false) (src_eq : p.srcIp = inetNtop4 src)
      (dst_eq : p.dstIp = inetNtop4 dst)
  | v6 (src dst : In6Addr) (family : p.isIpv6 = true) (src_eq : p.srcIp = inetNtop6 src)
      (dst_eq : p.dstIp = inetNtop6 dst)

theorem addressed_of_parse {pkt : List UInt8} {p : CpeTcpPacket}
    (h : cpeTcpParseIpPacket pkt = some p) : p.Addressed := by
  rw [cpeTcpParseIpPacket] at h
  split_ifs at h with hlen hv4 hv6
  · rw [parseIpv4] at h
    split_ifs at h
    obtain ⟨src, hsrc, h⟩ := Option.bind_eq_some_iff.mp h
    obtain ⟨dst, hdst, h⟩ := Option.bind_eq_some_iff.mp h
    cases Option.some.inj h
    exact .v4 _ _ rfl (eq_of_fitText hsrc) (eq_of_fitText hdst)
  · rw [parseIpv6] at h
    split_ifs at h
    simp only [] at h
    split_ifs at h
    obtain ⟨src, hsrc, h⟩ := Option.bind_eq_some_iff.mp h
    obtain ⟨dst, hdst, h⟩ := Option.bind_eq_some_iff.mp h
    cases Option.some.inj h
    exact .v6 _ _ rfl (eq_of_fitText hsrc) (eq_of_fitText hdst)

end NetForensics
