import NetForensics.Nflog.Message

/-!
# Finding the nl80211 family

Before it can ask for stations, the program asks the kernel for the number of the generic netlink
family `nl80211`. `ctrl_resolve_family` receives the reply into a buffer of 512 bytes and walks
through its messages and their attributes. The walk stays inside what was received and ends,
whatever that is. But a message that is longer than the buffer is not looked at: its length is that
of the whole reply, and not of the part that was received.

Reads are checked, as in the walk over the NFLOG socket.
-/

namespace NetForensics

/-! ## The request -/

/-- `GENL_ID_CTRL` -/
def genlIdCtrl : ℕ := 16

/-- `CTRL_ATTR_FAMILY_ID` -/
def ctrlAttrFamilyId : ℕ := 1

/-- The request `ctrl_resolve_family` sends: `CTRL_CMD_GETFAMILY` with the name of the family. -/
def getFamilyRequest (name : CStr) : List UInt8 :=
  let nlaLen := 4 + (name.length + 1)
  littleEndian 4 (16 + 4 + nflogNlaAlign nlaLen) ++ littleEndian 2 genlIdCtrl ++
    -- `NLM_F_REQUEST | NLM_F_ACK`, the sequence number and the port id
    littleEndian 2 5 ++ littleEndian 4 1 ++ littleEndian 4 0 ++
    -- the command and its version
    [3, 1, 0, 0] ++
    -- `CTRL_ATTR_FAMILY_NAME`
    littleEndian 2 nlaLen ++ littleEndian 2 2 ++ name ++
    List.replicate (nflogNlaAlign nlaLen - (4 + name.length)) 0

/-! ## The reply -/

/-- The inner loop of `ctrl_resolve_family`: the value of the first attribute with the id, among
those between two offsets. -/
def familyAttrs (buf : List UInt8) (aoff aend : ℕ) : Option (Option ℕ) :=
  if aend < aoff + 4 then some none
  else
    match readLe buf aoff 2 with
    | none => none
    | some alen =>
      match readLe buf (aoff + 2) 2 with
      | none => none
      | some atype =>
        if alen < 4 ∨ aend < aoff + alen then some none
        else if atype % 2 ^ 14 = ctrlAttrFamilyId ∧ 6 ≤ alen then
          (readLe buf (aoff + 4) 2).map some
        else familyAttrs buf (aoff + nflogNlaAlign alen) aend
termination_by aend - aoff
decreasing_by
  rename_i halen _
  rw [nflogNlaAlign]
  omega

/-- The state of the outer loop: the offset, and the id once it has been found. -/
structure FamilyWalk where
  off : ℕ
  family : Option ℕ

/-- The body of the outer loop. Both lengths are 32 bits wide when they are rounded. -/
def familyStep (buf : List UInt8) (s : FamilyWalk) : Option (Turn FamilyWalk) :=
  if buf.length < s.off + 16 then some (.stop s)
  else
    match readLe buf s.off 4 with
    | none => none
    | some len =>
      match readLe buf (s.off + 4) 2 with
      | none => none
      | some type =>
        if len < 16 ∨ buf.length < s.off + len then some (.stop s)
        else
          match if type = genlIdCtrl ∧ 16 + 4 ≤ len then
              familyAttrs buf (s.off + (16 + 4)) (s.off + len) else some none with
          | none => none
          | some (some id) => some (.stop { s with family := some id })
          | some none => some (.go { s with off := s.off + (len + 3) % 2 ^ 32 / 4 * 4 })

/-- Outcomes of the calls `ctrl_resolve_family` makes; a datagram is received as far as it fits. -/
structure FamilyEnv where
  /-- `send`, with the message of an error -/
  send : List UInt8 → Option CStr
  recv : Except CStr (List UInt8)

def FamilyEnv.replying (reply : List UInt8) : FamilyEnv where
  send := fun _ ↦ none
  recv := .ok reply

/-- How a call can turn out. -/
inductive FamilyResult where
  | returned (res : Except CStr ℕ)
  /-- It left the buffer. -/
  | outside
  /-- It is still in the loop. -/
  | running

/-- What is returned when the walk over the reply has got this far. -/
def familyOutcome (errLen : ℕ) : Option (Turn FamilyWalk) → FamilyResult
  | none => .outside
  | some (.go _) => .running
  | some (.stop s) =>
    match s.family with
    | some id => .returned (.ok id)
    | none => .returned (.error (copyStr errLen (ascii "nl80211 family id not found")))

/-- `ctrl_resolve_family`, for at most `fuel` turns of its outer loop. -/
def ctrlResolveFamily (env : FamilyEnv) (name : CStr) (errLen fuel : ℕ) : FamilyResult :=
  match env.send (getFamilyRequest name) with
  | some err => .returned (.error (copyStr errLen (ascii "genl GETFAMILY send: " ++ err)))
  | none =>
    match env.recv with
    | .error err => .returned (.error (copyStr errLen (ascii "genl GETFAMILY recv: " ++ err)))
    | .ok datagram =>
      let resp := datagram.take 512
      if resp.length < 16 then
        .returned (.error (copyStr errLen (ascii "genl GETFAMILY recv: short")))
      else familyOutcome errLen (loop (familyStep resp) fuel ⟨0, none⟩)

/-! ## Inside the buffer -/

variable {buf : List UInt8}

theorem familyAttrs_ne_none {aoff aend : ℕ} (h : aend ≤ buf.length) :
    familyAttrs buf aoff aend ≠ none := by
  induction hm : aend - aoff using Nat.strong_induction_on generalizing aoff with
  | _ m ih =>
    rw [familyAttrs]
    by_cases hroom : aend < aoff + 4
    · rw [if_pos hroom]
      exact Option.some_ne_none _
    · rw [if_neg hroom, readLe_of_le (by omega), readLe_of_le (by omega)]
      dsimp only
      generalize leNat ((buf.drop aoff).take 2) = alen
      by_cases hlen : alen < 4 ∨ aend < aoff + alen
      · rw [if_pos hlen]
        exact Option.some_ne_none _
      · rw [if_neg hlen]
        split
        · rw [readLe_of_le (by omega)]
          exact Option.some_ne_none _
        · have halign := le_nflogNlaAlign alen
          exact ih _ (by omega) rfl

/-- A turn does not leave the buffer, and one that goes on leaves less of it. -/
theorem familyStep_inside (hbuf : buf.length ≤ 512) (s : FamilyWalk) :
    familyStep buf s ≠ none ∧
      ∀ t, familyStep buf s = some (.go t) → buf.length - t.off < buf.length - s.off := by
  rw [familyStep]
  by_cases hroom : buf.length < s.off + 16
  · rw [if_pos hroom]
    exact ⟨Option.some_ne_none _, fun t h ↦ nomatch h⟩
  · rw [if_neg hroom, readLe_of_le (by omega), readLe_of_le (by omega)]
    dsimp only
    generalize leNat ((buf.drop s.off).take 4) = len
    generalize leNat ((buf.drop (s.off + 4)).take 2) = type
    by_cases hlen : len < 16 ∨ buf.length < s.off + len
    · rw [if_pos hlen]
      exact ⟨Option.some_ne_none _, fun t h ↦ nomatch h⟩
    · rw [if_neg hlen]
      have hattrs : (if type = genlIdCtrl ∧ 16 + 4 ≤ len then
          familyAttrs buf (s.off + (16 + 4)) (s.off + len) else some none) ≠ none := by
        split
        · exact familyAttrs_ne_none (by omega)
        · exact Option.some_ne_none _
      generalize (if type = genlIdCtrl ∧ 16 + 4 ≤ len then
          familyAttrs buf (s.off + (16 + 4)) (s.off + len) else some none) = res at hattrs
      cases res with
      | none => exact absurd rfl hattrs
      | some found =>
        cases found with
        | some id => exact ⟨Option.some_ne_none _, fun t h ↦ nomatch h⟩
        | none =>
          refine ⟨Option.some_ne_none _, fun t h ↦ ?_⟩
          obtain rfl := Turn.go.inj (Option.some_inj.mp h)
          dsimp only
          omega

/-- The call returns, and it never reads outside of what it has received. -/
structure CallSafe (env : FamilyEnv) (name : CStr) (errLen : ℕ) : Prop where
  returns : ∃ fuel res, ctrlResolveFamily env name errLen fuel = .returned res
  inside : ∀ fuel, ctrlResolveFamily env name errLen fuel ≠ .outside

/-- A call that does not fail before it walks through what it has received. -/
theorem ctrlResolveFamily_cases (env : FamilyEnv) (name : CStr) (errLen : ℕ) :
    (∃ res, ∀ fuel, ctrlResolveFamily env name errLen fuel = .returned res) ∨
      ∃ buf : List UInt8, buf.length ≤ 512 ∧ ∀ fuel, ctrlResolveFamily env name errLen fuel
        = familyOutcome errLen (loop (familyStep buf) fuel ⟨0, none⟩) := by
  cases hsend : env.send (getFamilyRequest name) with
  | some err => exact Or.inl ⟨_, fun fuel ↦ by rw [ctrlResolveFamily, hsend]⟩
  | none =>
    cases hrecv : env.recv with
    | error err => exact Or.inl ⟨_, fun fuel ↦ by rw [ctrlResolveFamily, hsend, hrecv]⟩
    | ok datagram =>
      by_cases hshort : (datagram.take 512).length < 16
      · exact Or.inl ⟨_, fun fuel ↦ by
          rw [ctrlResolveFamily, hsend, hrecv]
          exact if_pos hshort⟩
      · exact Or.inr ⟨datagram.take 512, List.length_take_le 512 datagram, fun fuel ↦ by
          rw [ctrlResolveFamily, hsend, hrecv]
          exact if_neg hshort⟩

/-- The walk over what fits into the buffer, once a reply has come. -/
theorem ctrlResolveFamily_replying {reply : List UInt8} (h : 16 ≤ reply.length) {name : CStr}
    {errLen fuel : ℕ} :
    ctrlResolveFamily (.replying reply) name errLen fuel
      = familyOutcome errLen (loop (familyStep (reply.take 512)) fuel ⟨0, none⟩) := by
  refine if_neg ?_
  rw [List.length_take]
  omega

theorem callSafe (env : FamilyEnv) (name : CStr) (errLen : ℕ) : CallSafe env name errLen := by
  rcases ctrlResolveFamily_cases env name errLen with ⟨res, hres⟩ | ⟨buf, hbuf, hwalk⟩
  · refine ⟨⟨0, res, hres 0⟩, fun fuel ↦ ?_⟩
    rw [hres]
    exact nofun
  · constructor
    · obtain ⟨s, fuel, hloop⟩ := exists_ends (P := fun _ : FamilyWalk ↦ True)
        (fun s ↦ buf.length - s.off) (fun s _ ↦ (familyStep_inside hbuf s).1)
        (fun s t _ hgo ↦ ⟨trivial, (familyStep_inside hbuf s).2 t hgo⟩) (s := ⟨0, none⟩) trivial
      refine ⟨fuel, ?_⟩
      rw [hwalk, hloop, familyOutcome]
      cases s.family with
      | some id => exact ⟨_, rfl⟩
      | none => exact ⟨_, rfl⟩
    · intro fuel
      have hloop : loop (familyStep buf) fuel ⟨0, none⟩ ≠ none :=
        loop_ne_none (fun t _ ↦ (familyStep_inside hbuf t).1) fuel
      rw [hwalk]
      cases hres : loop (familyStep buf) fuel ⟨0, none⟩ with
      | none => exact absurd hres hloop
      | some turn =>
        cases turn with
        | go s => exact nofun
        | stop s =>
          rw [familyOutcome]
          cases s.family <;> exact nofun

/-! ## Well-formed replies -/

/-- The reply of the kernel: a message of the controller whose attributes tell the number of a
family, and perhaps much else. -/
structure FamilyReply where
  /-- flags, sequence number and port id -/
  header : List UInt8
  /-- `struct genlmsghdr` -/
  genlmsg : List UInt8
  attrs : List NlAttr
  family : UInt16
  header_length : header.length = 10
  genlmsg_length : genlmsg.length = 4
  padded : Padded attrs
  size_lt : 20 + (attrBytes attrs).length < 2 ^ 32
  carries : ∃ a ∈ attrs, a.kind = ctrlAttrFamilyId
  family_eq : ∀ a ∈ attrs, a.kind = ctrlAttrFamilyId → a.data = littleEndian 2 family.toNat

namespace FamilyReply

/-- `nlmsg_len` -/
def len (r : FamilyReply) : ℕ := 20 + (attrBytes r.attrs).length

def bytes (r : FamilyReply) : List UInt8 :=
  littleEndian 4 r.len ++ (littleEndian 2 genlIdCtrl ++
    (r.header ++ (r.genlmsg ++ attrBytes r.attrs)))

theorem length_bytes (r : FamilyReply) : r.bytes.length = r.len := by
  rw [bytes, len]
  simp only [List.length_append, length_littleEndian, r.header_length, r.genlmsg_length]
  omega

theorem header_le_bytes (r : FamilyReply) : 16 ≤ r.bytes.length := by
  rw [length_bytes, len]
  omega

end FamilyReply

theorem familyAttrs_attrAt {off aend : ℕ} {a : NlAttr} (h : AttrAt buf off a)
    (hend : off + a.len ≤ aend) :
    familyAttrs buf off aend =
      if a.kind = ctrlAttrFamilyId ∧ 6 ≤ a.len then (readLe buf (off + 4) 2).map some
      else familyAttrs buf (off + nflogNlaAlign a.len) aend := by
  have hheader : 4 ≤ a.len := Nat.le_add_right 4 _
  rw [familyAttrs, if_neg (by omega), h.len, h.type]
  dsimp only
  rw [if_neg (by omega)]
  rfl

/-- The walk over padded attributes, anywhere in a buffer, comes to the family. -/
theorem familyAttrs_attrBytes {attrs : List NlAttr} (hpad : Padded attrs) {v : UInt16}
    (hcarries : ∃ a ∈ attrs, a.kind = ctrlAttrFamilyId)
    (hv : ∀ a ∈ attrs, a.kind = ctrlAttrFamilyId → a.data = littleEndian 2 v.toNat)
    (pre post : List UInt8) :
    familyAttrs (pre ++ (attrBytes attrs ++ post)) pre.length
      (pre.length + (attrBytes attrs).length) = some (some v.toNat) := by
  induction attrs generalizing pre with
  | nil =>
    obtain ⟨a, ha, -⟩ := hcarries
    exact absurd ha List.not_mem_nil
  | cons a attrs ih =>
    have hbytes : attrBytes (a :: attrs) = a.bytes ++ attrBytes attrs := List.flatMap_cons
    have hlen : (attrBytes (a :: attrs)).length
        = a.len + a.pad.length + (attrBytes attrs).length := by
      rw [hbytes, List.length_append, NlAttr.length_bytes]
    have hat := a.attrAt pre (attrBytes attrs ++ post)
    rw [hbytes, List.append_assoc, familyAttrs_attrAt hat (by rw [← hbytes]; omega)]
    by_cases hkind : a.kind = ctrlAttrFamilyId
    · have hdata : a.data = littleEndian 2 v.toNat := hv a List.mem_cons_self hkind
      have htwo : a.data.length = 2 := by rw [hdata, length_littleEndian]
      have hsix : a.len = 6 := by rw [NlAttr.len, htwo]
      have hslice := hat.data 0 2 (by omega)
      have htake : (a.data.drop 0).take 2 = littleEndian 2 v.toNat := by
        rw [List.drop_zero, List.take_of_length_le htwo.le, hdata]
      rw [htake] at hslice
      rw [if_pos ⟨hkind, hsix.ge⟩, readLe, hslice, Option.map_some, leNat_littleEndian v.toNat_lt]
      rfl
    · rw [if_neg fun h ↦ hkind h.1]
      have hcarries' : ∃ b ∈ attrs, b.kind = ctrlAttrFamilyId := by
        obtain ⟨b, hb, hbkind⟩ := hcarries
        rcases List.mem_cons.mp hb with rfl | hb
        · exact absurd hbkind hkind
        · exact ⟨b, hb, hbkind⟩
      cases attrs with
      | nil =>
        obtain ⟨b, hb, -⟩ := hcarries'
        exact absurd hb List.not_mem_nil
      | cons b attrs =>
        have hfull : a.len + a.pad.length = nflogNlaAlign a.len := hpad.1
        have hoff : pre.length + nflogNlaAlign a.len = (pre ++ a.bytes).length := by
          rw [List.length_append, NlAttr.length_bytes, hfull]
        have hend : pre.length + (a.bytes ++ attrBytes (b :: attrs)).length
            = (pre ++ a.bytes).length + (attrBytes (b :: attrs)).length := by
          rw [List.length_append, List.length_append, Nat.add_assoc]
        rw [hoff, hend, ← List.append_assoc]
        exact ih hpad.tail hcarries' (fun c hc ↦ hv c (List.mem_cons_of_mem a hc)) (pre ++ a.bytes)

namespace FamilyReply

variable (r : FamilyReply)

theorem familyStep_bytes :
    familyStep r.bytes ⟨0, none⟩ = some (.stop ⟨0, some r.family.toNat⟩) := by
  have hlen : readLe r.bytes 0 4 = some r.len := by
    have hlt : r.len < 256 ^ 4 := r.size_lt
    have hread := readLe_mid [] (littleEndian 4 r.len) (littleEndian 2 genlIdCtrl ++
      (r.header ++ (r.genlmsg ++ attrBytes r.attrs))) (length_littleEndian 4 _)
    rwa [leNat_littleEndian hlt] at hread
  have htype : readLe r.bytes (0 + 4) 2 = some genlIdCtrl := by
    have hread := readLe_mid (littleEndian 4 r.len) (littleEndian 2 genlIdCtrl)
      (r.header ++ (r.genlmsg ++ attrBytes r.attrs)) (length_littleEndian 2 _)
    rwa [length_littleEndian] at hread
  have hattrs : familyAttrs r.bytes (0 + (16 + 4)) (0 + r.len) = some (some r.family.toNat) := by
    have hpre : (littleEndian 4 r.len ++ (littleEndian 2 genlIdCtrl ++
        (r.header ++ r.genlmsg))).length = 20 := by
      simp only [List.length_append, length_littleEndian, r.header_length, r.genlmsg_length]
    have hwalk := familyAttrs_attrBytes r.padded r.carries r.family_eq
      (littleEndian 4 r.len ++ (littleEndian 2 genlIdCtrl ++ (r.header ++ r.genlmsg))) []
    rw [hpre, List.append_nil] at hwalk
    simp only [List.append_assoc] at hwalk
    rw [bytes, Nat.zero_add, Nat.zero_add]
    exact hwalk
  have hheader : 20 ≤ r.len := Nat.le_add_right 20 _
  have hroom : ¬ r.bytes.length < (⟨0, none⟩ : FamilyWalk).off + 16 := by
    rw [length_bytes]
    dsimp only
    omega
  have hfits : ¬ (r.len < 16 ∨ r.bytes.length < 0 + r.len) := by
    rw [length_bytes]
    omega
  rw [familyStep, if_neg hroom, hlen]
  dsimp only
  rw [htype]
  dsimp only
  rw [if_neg hfits, if_pos ⟨rfl, hheader⟩, hattrs]

/-- A message that is longer than the buffer is not looked at. -/
theorem familyStep_take (h : 512 < r.bytes.length) :
    familyStep (r.bytes.take 512) ⟨0, none⟩ = some (.stop ⟨0, none⟩) := by
  have hfull : (r.bytes.take 512).length = 512 := List.length_take_of_le h.le
  have hlen : readLe (r.bytes.take 512) 0 4 = some r.len := by
    have hlt : r.len < 256 ^ 4 := r.size_lt
    have hhead : (r.bytes.take 512).take 4 = littleEndian 4 r.len := by
      rw [List.take_take, bytes]
      exact List.take_left' (length_littleEndian 4 _)
    rw [readLe_of_le (by omega), List.drop_zero, hhead, leNat_littleEndian hlt]
  have hroom : ¬ (r.bytes.take 512).length < (⟨0, none⟩ : FamilyWalk).off + 16 := by
    rw [hfull]
    decide
  rw [length_bytes] at h
  rw [familyStep, if_neg hroom, hlen, readLe_of_le (by dsimp only; omega)]
  dsimp only
  rw [if_pos (Or.inr (by omega))]

/-- What the call returns for a reply, as soon as it has taken a turn. -/
theorem ctrlResolveFamily_eq (name : CStr) (errLen fuel : ℕ) :
    ctrlResolveFamily (.replying r.bytes) name errLen (fuel + 1) =
      if r.bytes.length ≤ 512 then .returned (.ok r.family.toNat)
      else .returned (.error (copyStr errLen (ascii "nl80211 family id not found"))) := by
  rw [ctrlResolveFamily_replying r.header_le_bytes]
  by_cases hfits : r.bytes.length ≤ 512
  · rw [if_pos hfits, List.take_of_length_le hfits, loop_of_stop r.familyStep_bytes]
    rfl
  · rw [if_neg hfits, loop_of_stop (r.familyStep_take (Nat.lt_of_not_le hfits))]
    rfl

theorem ctrlResolveFamily_eq_ok_iff (name : CStr) (errLen : ℕ) :
    (∃ fuel, ctrlResolveFamily (.replying r.bytes) name errLen fuel
      = .returned (.ok r.family.toNat)) ↔ r.bytes.length ≤ 512 := by
  constructor
  · rintro ⟨fuel, hfuel⟩
    by_contra hlong
    cases fuel with
    | zero =>
      rw [ctrlResolveFamily_replying r.header_le_bytes] at hfuel
      exact nomatch hfuel
    | succ fuel =>
      rw [r.ctrlResolveFamily_eq, if_neg hlong] at hfuel
      exact nomatch hfuel
  · intro hfits
    refine ⟨1, ?_⟩
    rw [r.ctrlResolveFamily_eq, if_pos hfits]

end FamilyReply

/-- Every call returns and reads only what it has received, but the family is found only in a reply
that fits into the buffer. -/
theorem ctrlResolveFamily_finds_iff (name : CStr) (errLen : ℕ) :
    (∀ env : FamilyEnv, CallSafe env name errLen) ∧
      ∀ r : FamilyReply,
        (∃ fuel, ctrlResolveFamily (.replying r.bytes) name errLen fuel
          = .returned (.ok r.family.toNat)) ↔ r.bytes.length ≤ 512 :=
  ⟨fun env ↦ callSafe env name errLen,
    fun r ↦ FamilyReply.ctrlResolveFamily_eq_ok_iff r name errLen⟩

/-- The list of operations of a family, `CTRL_ATTR_OPS`, of which only the size matters here. -/
def operations (size : ℕ) (h : 4 + size < 2 ^ 16) : NlAttr where
  type := 6
  data := List.replicate size 0
  pad := []
  len_lt := by rwa [List.length_replicate]
  pad_le := le_nflogNlaAlign _

theorem length_bytes_operations (size : ℕ) (h : 4 + size < 2 ^ 16) :
    (operations size h).bytes.length = 4 + size := by
  have hdata : (operations size h).data.length = size := List.length_replicate
  rw [NlAttr.length_bytes, NlAttr.len, hdata]
  rfl

/-- The attributes of the reply for a family with many operations. -/
def longAttrs : List NlAttr :=
  [⟨1, littleEndian 2 28, [0, 0], by decide, by decide⟩, operations 600 (by decide)]

theorem length_longAttrs : (attrBytes longAttrs).length = 612 := by
  rw [attrBytes, longAttrs, List.flatMap_cons, List.flatMap_cons, List.flatMap_nil,
    List.append_nil, List.length_append, length_bytes_operations]
  rfl

def longReply : FamilyReply where
  header := List.replicate 10 0
  genlmsg := [1, 2, 0, 0]
  attrs := longAttrs
  family := 28
  header_length := rfl
  genlmsg_length := rfl
  padded := ⟨by rw [NlAttr.Full]; decide, trivial⟩
  size_lt := by
    rw [length_longAttrs]
    decide
  carries := ⟨_, List.mem_cons_self, rfl⟩
  family_eq := by
    intro a ha hkind
    rcases List.mem_pair.mp ha with rfl | rfl
    · rfl
    · exact absurd hkind (by decide)

/-- The family of a reply that is longer than the buffer is not found. -/
theorem longReply_family_not_found :
    ¬ ∃ fuel, ctrlResolveFamily (.replying longReply.bytes) (ascii "nl80211") 256 fuel
      = .returned (.ok longReply.family.toNat) := by
  have hattrs : longReply.attrs = longAttrs := rfl
  rw [FamilyReply.ctrlResolveFamily_eq_ok_iff, FamilyReply.length_bytes,
    FamilyReply.len, hattrs, length_longAttrs]
  decide

end NetForensics
