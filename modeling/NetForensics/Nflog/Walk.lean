import NetForensics.Util.Loop
import NetForensics.Util.Reads

/-!
# Walking a datagram of the NFLOG socket

`nflog_netlink_walk` goes through the netlink messages in a buffer, and `walk_packet_attrs` through
the attributes of a message that carries a packet. Both advance by lengths that are rounded up to
four bytes and test lengths that are not.

All reads are checked: `none` is a read, or a slice handed to the callback, that is not inside the
buffer. Machine words are those of a little-endian machine with `size_t` of 64 bits. The number of
packets, an `int`, is not bounded here.
-/

namespace NetForensics

/-- What the callback is told about a packet. -/
structure NflogPacket where
  payload : List UInt8
  hwProtocol : UInt16
  mark : UInt32
  tsSec : UInt64
  tsUsec : UInt64
  deriving DecidableEq

/-! ## Attributes -/

/-- `NFULA_PACKET_HDR` -/
def nfulaPacketHdr : ℕ := 1
/-- `NFULA_MARK` -/
def nfulaMark : ℕ := 2
/-- `NFULA_TIMESTAMP` -/
def nfulaTimestamp : ℕ := 3
/-- `NFULA_PAYLOAD` -/
def nfulaPayload : ℕ := 9

/-- `NFLOG_NLA_ALIGN` -/
def nflogNlaAlign (len : ℕ) : ℕ := (len + 3) / 4 * 4

/-- The local variables of `walk_packet_attrs`; the payload is an offset and a length. -/
structure PacketAttrs where
  payload : Option (ℕ × ℕ) := none
  hwProtocol : UInt16 := 0
  mark : UInt32 := 0
  tsSec : UInt64 := 0
  tsUsec : UInt64 := 0

/-- The `switch` over the type of an attribute, whose data are the `dlen` bytes from offset `d`. -/
def readAttr (buf : List UInt8) (s : PacketAttrs) (type d dlen : ℕ) : Option PacketAttrs :=
  if type = nfulaPacketHdr then
    if 4 ≤ dlen then do
      let proto ← readBe buf d 2
      some { s with hwProtocol := UInt16.ofNat proto }
    else some s
  else if type = nfulaMark then
    if 4 ≤ dlen then do
      let m ← readBe buf d 4
      some { s with mark := UInt32.ofNat m }
    else some s
  else if type = nfulaTimestamp then
    if 16 ≤ dlen then do
      let sec ← readBe buf d 8
      let usec ← readBe buf (d + 8) 8
      some { s with tsSec := UInt64.ofNat sec, tsUsec := UInt64.ofNat usec }
    else some s
  else if type = nfulaPayload then
    if 0 < dlen then some { s with payload := some (d, dlen) } else some s
  else some s

/-- The loop of `walk_packet_attrs`, with `rem` bytes left from offset `off`. -/
def walkAttrs (buf : List UInt8) (off : ℕ) (rem : ℤ) (s : PacketAttrs) : Option PacketAttrs :=
  if rem < 4 then some s
  else
    match readLe buf off 2 with
    | none => none
    | some nlaLen =>
      if nlaLen < 4 ∨ rem < nlaLen then some s
      else
        match readLe buf (off + 2) 2 with
        | none => none
        | some type =>
          -- `nla_type & NLA_TYPE_MASK`
          match readAttr buf s (type % 2 ^ 14) (off + 4) (nlaLen - 4) with
          | none => none
          | some s =>
            walkAttrs buf (off + nflogNlaAlign nlaLen) (rem - nflogNlaAlign nlaLen) s
termination_by rem.toNat
decreasing_by
  rename_i hrem hok
  have hlen : nlaLen ≤ nflogNlaAlign nlaLen := by
    rw [nflogNlaAlign]
    omega
  omega

/-- `walk_packet_attrs`: the packet the callback gets, if it is called. -/
def walkPacketAttrs (buf : List UInt8) (off : ℕ) (attrlen : ℤ) : Option (Option NflogPacket) := do
  let s ← walkAttrs buf off attrlen {}
  match s.payload with
  | none => some none
  | some (d, n) =>
    if 0 < n then
      let payload ← readSlice buf d n
      some (some ⟨payload, s.hwProtocol, s.mark, s.tsSec, s.tsUsec⟩)
    else some none

/-! ## Messages -/

/-- `NLMSG_ERROR` -/
def nlmsgError : ℕ := 2
/-- `NLMSG_DONE` -/
def nlmsgDone : ℕ := 3
/-- `NFNL_SUBSYS_ULOG` -/
def nfnlSubsysUlog : ℕ := 4
/-- `NFULNL_MSG_PACKET` -/
def nfulnlMsgPacket : ℕ := 0

/-- `NLMSG_ALIGN`. The mask `~(NLMSG_ALIGNTO - 1)` is an `unsigned int`, so that the upper half of a
64-bit sum is lost. -/
def nlmsgAlign (len : ℕ) : ℕ := (len + 3) / 4 * 4 % 2 ^ 32

/-- Subtraction of `size_t`. -/
def subSize (a b : ℕ) : ℕ := if b ≤ a then a - b else a + 2 ^ 64 - b

/-- The local variables of `nflog_netlink_walk`, with what the callback has been given so far. -/
structure WalkState where
  /-- `p - buf` -/
  off : ℕ
  left : ℕ
  count : ℕ
  delivered : List NflogPacket

def walkStart (buf : List UInt8) : WalkState := ⟨0, buf.length, 0, []⟩

namespace WalkState

/-- `p += NLMSG_ALIGN(msglen); left -= NLMSG_ALIGN(msglen);` -/
def advance (s : WalkState) (msglen : ℕ) : WalkState :=
  { s with off := s.off + nlmsgAlign msglen, left := subSize s.left (nlmsgAlign msglen) }

/-- The counting and the callback for a message of type `NFULNL_MSG_PACKET`. -/
def packet (buf : List UInt8) (s : WalkState) (msglen : ℕ) : Option WalkState :=
  let hdr := 16 + 4
  if hdr < msglen then
    match walkPacketAttrs buf (s.off + hdr) (Int.bmod ((msglen - hdr : ℕ) : ℤ) (2 ^ 32)) with
    | none => none
    | some p => some { s with count := s.count + 1, delivered := s.delivered ++ p.toList }
  else some s

end WalkState

/-- Whether a message is passed over without a look at its subsystem. -/
def isControl (type : ℕ) : Bool := type == nlmsgDone || type == nlmsgError

def isPacket (type : ℕ) : Bool :=
  type / 2 ^ 8 == nfnlSubsysUlog && type % 2 ^ 8 == nfulnlMsgPacket

/-- The body of the loop of `nflog_netlink_walk`. -/
def walkStep (buf : List UInt8) (s : WalkState) : Option (Turn WalkState) :=
  if s.left < 16 then some (.stop s)
  else
    match readLe buf s.off 4 with
    | none => none
    | some msglen =>
      if msglen < 16 ∨ s.left < msglen then some (.stop s)
      else
        match readLe buf (s.off + 4) 2 with
        | none => none
        | some type =>
          if isControl type then some (.go (s.advance msglen))
          else
            match if isPacket type then s.packet buf msglen else some s with
            | none => none
            | some s =>
              if s.left < nlmsgAlign msglen then
                some (.stop { s with off := s.off + nlmsgAlign msglen })
              else some (.go (s.advance msglen))

/-- How a walk can turn out. -/
inductive WalkResult where
  /-- The return value, and what the callback was given. -/
  | returned (ret : ℤ) (delivered : List NflogPacket)
  /-- It left the buffer. -/
  | outside
  /-- It is still in the loop. -/
  | running
  deriving DecidableEq

/-- `nflog_netlink_walk`, for at most `fuel` turns of its loop. -/
def nflogNetlinkWalk (buf : List UInt8) (fuel : ℕ) : WalkResult :=
  if buf.length < 16 then .returned (-1) []
  else
    match loop (walkStep buf) fuel (walkStart buf) with
    | none => .outside
    | some (.go _) => .running
    | some (.stop s) => .returned s.count s.delivered

end NetForensics
