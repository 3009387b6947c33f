import NetForensics.Tcp.Grammar

/-!
# Later fragments

Only the first fragment of a packet has the TCP header. Both IP headers say where in the packet a
fragment belongs, IPv4 in a field of its own and IPv6 in the Fragment header of the chain, and the
parser reads neither: the data of a later fragment is parsed as a TCP header.
-/

namespace NetForensics

/-- The fragment offset of an IPv4 packet, in units of eight bytes. -/
def ipv4FragOffset (pkt : List UInt8) : ℕ := (be16At pkt 6).toNat % 2 ^ 13

/-- The fragment offset in the IPv6 Fragment header at offset `off`, in the same units. -/
def ipv6FragOffset (pkt : List UInt8) (off : ℕ) : ℕ := (be16At pkt (off + 2)).toNat / 2 ^ 3

/-- The walk along the extension headers, from a header of type `nx` at offset `off`, goes through a
Fragment header at offset `o`. -/
inductive FragmentOn (pkt : List UInt8) : UInt8 → ℕ → ℕ → Prop
  | here {off : ℕ} (room : off + 8 ≤ pkt.length) : FragmentOn pkt 44 off off
  | options {nx : UInt8} {off o : ℕ} (kind : nx = 0 ∨ nx = 43 ∨ nx = 60)
      (room : off + 8 ≤ pkt.length)
      (rest : FragmentOn pkt (byteAt pkt off) (off + ((byteAt pkt (off + 1)).toNat + 1) * 8) o) :
      FragmentOn pkt nx off o
  | fragment {off o : ℕ} (room : off + 8 ≤ pkt.length)
      (rest : FragmentOn pkt (byteAt pkt off) (off + 8) o) : FragmentOn pkt 44 off o

/-- The packet carries the start of its payload. -/
structure StartsSegment (pkt : List UInt8) : Prop where
  v4 : ipVersion pkt = 4 → ipv4FragOffset pkt = 0
  v6 : ipVersion pkt = 6 → ∀ o, FragmentOn pkt (byteAt pkt 6) 40 o → ipv6FragOffset pkt o = 0

/-- A later fragment of an IPv4 packet with TCP for its protocol and at least 14 bytes of data. -/
def LaterIpv4Fragment (pkt : List UInt8) : Prop :=
  (∃ th, Ipv4TcpAt pkt th) ∧ ipv4FragOffset pkt ≠ 0

/-- An IPv6 packet with a Fragment header of a later fragment on its chain, which ends in TCP and at
least 14 bytes. -/
def LaterIpv6Fragment (pkt : List UInt8) : Prop :=
  (∃ th, Ipv6TcpAt pkt th) ∧
    ∃ o, FragmentOn pkt (byteAt pkt 6) 40 o ∧ ipv6FragOffset pkt o ≠ 0

variable {pkt : List UInt8}

theorem startsSegment_iff_of_v4 {th : ℕ} (h : Ipv4TcpAt pkt th) :
    StartsSegment pkt ↔ ipv4FragOffset pkt = 0 := by
  constructor
  · exact fun hstart ↦ hstart.v4 h.version
  · refine fun hzero ↦ ⟨fun _ ↦ hzero, fun h6 ↦ ?_⟩
    rw [h.version] at h6
    exact absurd h6 (by decide)

theorem startsSegment_iff_of_v6 {th : ℕ} (h : Ipv6TcpAt pkt th) :
    StartsSegment pkt ↔ ∀ o, FragmentOn pkt (byteAt pkt 6) 40 o → ipv6FragOffset pkt o = 0 := by
  constructor
  · exact fun hstart ↦ hstart.v6 h.version
  · refine fun hzero ↦ ⟨fun h4 ↦ ?_, fun _ ↦ hzero⟩
    rw [h.version] at h4
    exact absurd h4 (by decide)

/-- A packet that is parsed starts its segment, unless it is a later fragment of either version
whose data is long enough to be taken for a TCP header. -/
theorem parse_starts_segment_iff (pkt : List UInt8) :
    ((cpeTcpParseIpPacket pkt).isSome = true → StartsSegment pkt) ↔
      ¬ LaterIpv4Fragment pkt ∧ ¬ LaterIpv6Fragment pkt := by
  constructor
  · intro hstart
    refine ⟨?_, ?_⟩
    · rintro ⟨⟨th, h⟩, hoff⟩
      have hsome : (cpeTcpParseIpPacket pkt).isSome = true := by
        rw [(parse_eq_some_iff _).mpr (Or.inl ⟨th, h, rfl⟩)]
        rfl
      exact hoff ((startsSegment_iff_of_v4 h).mp (hstart hsome))
    · rintro ⟨⟨th, h⟩, o, ho, hoff⟩
      have hsome : (cpeTcpParseIpPacket pkt).isSome = true := by
        rw [(parse_eq_some_iff _).mpr (Or.inr ⟨th, h, rfl⟩)]
        rfl
      exact hoff ((startsSegment_iff_of_v6 h).mp (hstart hsome) o ho)
  · rintro ⟨h4, h6⟩ hsome
    obtain ⟨p, hp⟩ := Option.isSome_iff_exists.mp hsome
    rcases (parse_eq_some_iff p).mp hp with ⟨th, h, -⟩ | ⟨th, h, -⟩
    · rw [startsSegment_iff_of_v4 h]
      by_contra hoff
      exact h4 ⟨⟨th, h⟩, hoff⟩
    · rw [startsSegment_iff_of_v6 h]
      intro o ho
      by_contra hoff
      exact h6 ⟨⟨th, h⟩, o, ho, hoff⟩

/-- The second fragment of an IPv4 packet, with data that reads as a SYN. -/
def laterFragment : List UInt8 :=
  [0x45, 0, 0, 40, 0, 1, 0, 185, 64, 6, 0, 0, 10, 0, 0, 2, 192, 0, 2, 1,
    0x63, 0x64, 0x65, 0x66, 0, 0, 0, 1, 0, 0, 0, 0, 0x50, 2, 0, 0, 0, 0, 0, 0]

/-- Its data is taken for ports 25444 and 25958 and a SYN. -/
theorem parse_later_fragment :
    ¬ ∀ pkt : List UInt8, (cpeTcpParseIpPacket pkt).isSome = true → StartsSegment pkt := by
  intro h
  have hstart := h laterFragment (by decide +kernel)
  exact absurd (hstart.v4 (by decide)) (by decide)

end NetForensics
