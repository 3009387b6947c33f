import NetForensics.Nflog.Message

/-!
# Delivering each packet once

What a buffer of well-formed messages should give the callback is said message by message
(`NlMessage.delivery`). The walk comes by each of the messages (`loop_messages`), and what it hands
on is that, as long as the length of the attributes is a signed number. It counts more: every
packet that has any attribute.
-/

namespace NetForensics

/-! ## The last attribute of a kind -/

/-- A component of the state that some elements replace has its value from the last of them. -/
theorem foldl_last {σ α β : Type*} (π : σ → β) (step : σ → α → σ) (p : α → Prop) [DecidablePred p]
    (f : α → β) (hstep : ∀ s a, π (step s a) = if p a then f a else π s) (l : List α) (s : σ) :
    π (l.foldl step s) = ((l.filter fun a ↦ p a).getLast?.map f).getD (π s) := by
  induction l generalizing s with
  | nil => rfl
  | cons a l ih =>
    rw [List.foldl_cons, ih, hstep, List.filter_cons]
    by_cases hp : p a
    · rw [if_pos hp, if_pos (decide_eq_true hp), List.getLast?_cons]
      cases (l.filter fun a ↦ p a).getLast? <;> rfl
    · rw [if_neg hp, if_neg (by simpa using hp)]

/-- The data of the last attribute of a kind that has at least `min` bytes. -/
def lastData (attrs : List NlAttr) (kind min : ℕ) : Option (List UInt8) :=
  (attrs.filter fun a ↦ a.kind = kind ∧ min ≤ a.data.length).getLast?.map NlAttr.data

/-- What the callback should get for a list of attributes. -/
def delivery (attrs : List NlAttr) : Option NflogPacket :=
  (lastData attrs nfulaPayload 1).map fun payload ↦
    { payload
      hwProtocol := ((lastData attrs nfulaPacketHdr 4).map fun d ↦
        UInt16.ofNat (beNat (d.take 2))).getD 0
      mark := ((lastData attrs nfulaMark 4).map fun d ↦ UInt32.ofNat (beNat (d.take 4))).getD 0
      tsSec := ((lastData attrs nfulaTimestamp 16).map fun d ↦
        UInt64.ofNat (beNat (d.take 8))).getD 0
      tsUsec := ((lastData attrs nfulaTimestamp 16).map fun d ↦
        UInt64.ofNat (beNat ((d.drop 8).take 8))).getD 0 }

theorem seen_payload (attrs : List NlAttr) :
    (seen attrs).payload = lastData attrs nfulaPayload 1 := by
  have hlast := foldl_last Seen.payload Seen.see
    (fun a ↦ a.kind = nfulaPayload ∧ 1 ≤ a.data.length) (fun a ↦ some a.data)
    (fun _ _ ↦ rfl) attrs {}
  rw [seen, hlast, lastData]
  cases (attrs.filter _).getLast? <;> rfl

theorem seen_hwProtocol (attrs : List NlAttr) :
    (seen attrs).hwProtocol = ((lastData attrs nfulaPacketHdr 4).map fun d ↦
      UInt16.ofNat (beNat (d.take 2))).getD 0 := by
  rw [lastData, Option.map_map]
  exact foldl_last Seen.hwProtocol Seen.see _ _ (fun _ _ ↦ rfl) attrs {}

theorem seen_mark (attrs : List NlAttr) :
    (seen attrs).mark = ((lastData attrs nfulaMark 4).map fun d ↦
      UInt32.ofNat (beNat (d.take 4))).getD 0 := by
  rw [lastData, Option.map_map]
  exact foldl_last Seen.mark Seen.see _ _ (fun _ _ ↦ rfl) attrs {}

theorem seen_tsSec (attrs : List NlAttr) :
    (seen attrs).tsSec = ((lastData attrs nfulaTimestamp 16).map fun d ↦
      UInt64.ofNat (beNat (d.take 8))).getD 0 := by
  rw [lastData, Option.map_map]
  exact foldl_last Seen.tsSec Seen.see _ _ (fun _ _ ↦ rfl) attrs {}

theorem seen_tsUsec (attrs : List NlAttr) :
    (seen attrs).tsUsec = ((lastData attrs nfulaTimestamp 16).map fun d ↦
      UInt64.ofNat (beNat ((d.drop 8).take 8))).getD 0 := by
  rw [lastData, Option.map_map]
  exact foldl_last Seen.tsUsec Seen.see _ _ (fun _ _ ↦ rfl) attrs {}

/-- Reading the attributes one after the other finds the last of each kind. -/
theorem packet_seen (attrs : List NlAttr) : (seen attrs).packet = delivery attrs := by
  rw [Seen.packet, delivery, seen_payload, seen_hwProtocol, seen_mark, seen_tsSec, seen_tsUsec]

def HasPayload (attrs : List NlAttr) : Prop := ∃ a ∈ attrs, a.kind = nfulaPayload ∧ a.data ≠ []

theorem isSome_delivery (attrs : List NlAttr) : (delivery attrs).isSome ↔ HasPayload attrs := by
  rw [delivery, Option.isSome_map, lastData, Option.isSome_map, List.getLast?_isSome]
  constructor
  · intro h
    obtain ⟨a, ha⟩ := List.exists_mem_of_ne_nil _ h
    obtain ⟨hmem, hkind⟩ := List.mem_filter.mp ha
    obtain ⟨hkind, hlen⟩ := of_decide_eq_true hkind
    exact ⟨a, hmem, hkind, List.ne_nil_of_length_pos hlen⟩
  · rintro ⟨a, hmem, hkind, hdata⟩
    have hlen : 1 ≤ a.data.length := List.length_pos_of_ne_nil hdata
    exact List.ne_nil_of_mem (List.mem_filter.mpr ⟨hmem, decide_eq_true ⟨hkind, hlen⟩⟩)

namespace NlMessage

def delivery (m : NlMessage) : Option NflogPacket :=
  match m.content with
  | .packet _ attrs => NetForensics.delivery attrs
  | .other _ _ => none

/-- The message is a packet without attributes, or one with a payload, whose attributes have less
than 2^31 bytes; or no packet at all. -/
def Counts (m : NlMessage) : Prop :=
  ∀ genmsg attrs, m.content = .packet genmsg attrs → attrs ≠ [] →
    HasPayload attrs ∧ (attrBytes attrs).length < 2 ^ 31

theorem not_hasPayload_nil : ¬ HasPayload [] := fun ⟨_, ha, _⟩ ↦ nomatch ha

theorem counted_of_handed {m : NlMessage} (h : m.handed.isSome) : m.counted := by
  rw [handed] at h
  rw [counted]
  cases hcontent : m.content with
  | packet genmsg attrs =>
    rw [hcontent] at h
    dsimp only at h ⊢
    rw [packet_seen] at h
    cases attrs with
    | nil =>
      split at h
      · exact absurd ((isSome_delivery []).mp h) not_hasPayload_nil
      · exact absurd h Bool.false_ne_true
    | cons a attrs => rfl
  | other type body =>
    rw [hcontent] at h
    exact absurd h Bool.false_ne_true

/-- A message is counted only if it is handed on, exactly when it counts. -/
theorem counts_iff (m : NlMessage) : m.Counts ↔ (m.counted → m.handed.isSome) := by
  rw [Counts]
  cases hcontent : m.content with
  | packet genmsg attrs =>
    rw [counted_packet hcontent, handed_packet hcontent, packet_seen]
    constructor
    · intro h hcounted
      have hne : attrs ≠ [] := by simpa using hcounted
      obtain ⟨hpayload, hsmall⟩ := h genmsg attrs rfl hne
      rw [if_pos hsmall]
      exact (isSome_delivery attrs).mpr hpayload
    · rintro h genmsg' attrs' heq hne
      obtain ⟨rfl, rfl⟩ := NlContent.packet.inj heq
      have hsome := h (by simpa using hne)
      split at hsome
      · rename_i hsmall
        exact ⟨(isSome_delivery attrs).mp hsome, hsmall⟩
      · exact nomatch hsome
  | other type body =>
    obtain ⟨-, hcounted, -⟩ := isPacket_of_other hcontent
    rw [hcounted]
    exact iff_of_true (fun _ _ heq ↦ nomatch heq) fun h ↦ nomatch h

theorem Counts.handed_eq {m : NlMessage} (h : m.Counts) : m.handed = m.delivery := by
  rw [handed, delivery]
  cases hcontent : m.content with
  | packet genmsg attrs =>
    dsimp only
    rw [packet_seen]
    by_cases hnil : attrs = []
    · rw [hnil]
      rfl
    · rw [if_pos (h genmsg attrs hcontent hnil).2]
  | other type body => rfl

end NlMessage

/-! ## The messages of a buffer -/

def bufferOf (msgs : List NlMessage) : List UInt8 := msgs.flatMap NlMessage.bytes

theorem bufferOf_cons (m : NlMessage) (msgs : List NlMessage) :
    bufferOf (m :: msgs) = m.bytes ++ bufferOf msgs := List.flatMap_cons

theorem loop_messages (msgs : List NlMessage) (hrounds : ∀ m ∈ msgs, m.Rounds) (pre : List UInt8)
    {s : WalkState} (hoff : s.off = pre.length) (hleft : s.left = (bufferOf msgs).length) {fuel : ℕ}
    (hfuel : msgs.length < fuel) :
    ∃ t, loop (walkStep (pre ++ bufferOf msgs)) fuel s = some (.stop t) ∧
      t.count = s.count + msgs.countP NlMessage.counted ∧
      t.delivered = s.delivered ++ msgs.filterMap NlMessage.handed := by
  induction msgs generalizing pre s fuel with
  | nil =>
    obtain ⟨n, rfl⟩ := Nat.exists_eq_succ_of_ne_zero (Nat.ne_of_gt hfuel)
    have hzero : s.left = 0 := hleft
    have hstop : walkStep (pre ++ bufferOf []) s = some (.stop s) := by
      rw [walkStep, if_pos (by omega)]
    exact ⟨s, loop_of_stop hstop n, rfl, (List.append_nil _).symm⟩
  | cons m msgs ih =>
    obtain ⟨n, rfl⟩ := Nat.exists_eq_succ_of_ne_zero (Nat.ne_of_gt (Nat.zero_lt_of_lt hfuel))
    rw [bufferOf_cons] at hleft ⊢
    rw [List.length_append] at hleft
    obtain ⟨hround, hrounds⟩ := List.forall_mem_cons.mp hrounds
    have hstep := NlMessage.walkStep_message hround pre (bufferOf msgs) hoff hleft
    rw [Nat.succ_eq_add_one, loop_of_go hstep, ← List.append_assoc]
    obtain ⟨t, hloop, hcount, hdelivered⟩ :=
      ih hrounds (pre ++ m.bytes) (s := ⟨_, _, _, _⟩) rfl rfl (Nat.lt_of_succ_lt_succ hfuel)
    refine ⟨t, hloop, ?_, ?_⟩
    · rw [hcount, List.countP_cons]
      dsimp only
      omega
    · rw [hdelivered, List.filterMap_cons]
      dsimp only
      cases m.handed <;> simp

theorem length_bufferOf {msgs : List NlMessage} (h : msgs ≠ []) : 16 ≤ (bufferOf msgs).length := by
  cases msgs with
  | nil => exact absurd rfl h
  | cons m msgs =>
    have hheader : 16 ≤ m.len := Nat.le_add_right 16 _
    rw [bufferOf_cons, List.length_append, NlMessage.length_bytes]
    omega

/-- The walk stays at a message whose rounded length is no number of 32 bits. -/
theorem not_ends_of_not_rounds {m : NlMessage} {msgs : List NlMessage} (hm : m ∈ msgs)
    (h : ¬ m.Rounds) (pre : List UInt8) {s t : WalkState} (hoff : s.off = pre.length)
    (hleft : s.left = (bufferOf msgs).length) : ¬ Ends (walkStep (pre ++ bufferOf msgs)) s t := by
  induction msgs generalizing pre s with
  | nil => exact nomatch hm
  | cons m' msgs ih =>
    rw [bufferOf_cons] at hleft ⊢
    rw [List.length_append] at hleft
    by_cases hround : m'.Rounds
    · have hmem : m ∈ msgs := by
        rcases List.mem_cons.mp hm with rfl | hmem
        · exact absurd hround h
        · exact hmem
      have hstep := NlMessage.walkStep_message hround pre (bufferOf msgs) hoff hleft
      rw [← List.append_assoc] at hstep ⊢
      intro hends
      exact ih hmem (pre ++ m'.bytes) (s := ⟨_, _, _, _⟩) rfl rfl
        (hends.of_reaches (.tail .refl hstep))
    · have hlen := m'.length_bytes
      have htracks : s.Tracks (pre ++ (m'.bytes ++ bufferOf msgs)) := by
        rw [WalkState.Tracks, List.length_append, List.length_append]
        omega
      have hfits : Fits (pre ++ (m'.bytes ++ bufferOf msgs)) s.off m'.len := by
        refine ⟨hoff ▸ m'.readLe_len pre (bufferOf msgs), Nat.le_add_right 16 _, ?_⟩
        rw [List.length_append, List.length_append]
        omega
      exact not_ends_of_zero htracks hfits (NlMessage.nlmsgAlign_len_of_not_rounds hround)

/-- What the walk over well-formed messages returns, and what it hands on. -/
theorem nflogNetlinkWalk_bufferOf {msgs : List NlMessage} (h : msgs ≠ [])
    (hrounds : ∀ m ∈ msgs, m.Rounds) {fuel : ℕ} (hfuel : msgs.length < fuel) :
    nflogNetlinkWalk (bufferOf msgs) fuel
      = .returned (msgs.countP NlMessage.counted) (msgs.filterMap NlMessage.handed) := by
  obtain ⟨t, hloop, hcount, hdelivered⟩ := loop_messages msgs hrounds []
    (s := walkStart (bufferOf msgs)) rfl rfl hfuel
  rw [List.nil_append] at hloop
  rw [nflogNetlinkWalk, if_neg (Nat.not_lt.mpr (length_bufferOf h)), hloop]
  dsimp only
  rw [hcount, hdelivered, walkStart, Nat.zero_add, List.nil_append]

theorem rounds_of_returned {msgs : List NlMessage} {fuel : ℕ} (h : msgs ≠ []) {ret : ℤ}
    {pkts : List NflogPacket} (hret : nflogNetlinkWalk (bufferOf msgs) fuel = .returned ret pkts) :
    ∀ m ∈ msgs, m.Rounds := by
  intro m hm
  by_contra hround
  obtain ⟨t, hends⟩ := ends_of_returned (length_bufferOf h) hret
  exact not_ends_of_not_rounds hm hround [] (s := walkStart (bufferOf msgs)) rfl rfl hends

/-- The callback gets each packet with a payload once, in order, and the return value is how many
these are. -/
def DeliversEach (msgs : List NlMessage) : Prop :=
  ∀ fuel, msgs.length < fuel → nflogNetlinkWalk (bufferOf msgs) fuel
    = .returned (msgs.filterMap NlMessage.delivery).length (msgs.filterMap NlMessage.delivery)

/-- Where a predicate is as frequent as a weaker one, they hold of the same elements. -/
theorem of_countP_eq {p q : α → Bool} {l : List α} (hpq : ∀ a, p a → q a)
    (h : l.countP p = l.countP q) : ∀ a ∈ l, q a → p a := by
  have hsub : (l.filter p).Sublist (l.filter q) := List.monotone_filter_right l hpq
  rw [List.countP_eq_length_filter, List.countP_eq_length_filter] at h
  intro a ha hq
  have hmem : a ∈ l.filter p := hsub.eq_of_length h ▸ List.mem_filter.mpr ⟨ha, hq⟩
  exact (List.mem_filter.mp hmem).2

/-- Each packet is delivered once and the return value says how many were delivered, if and only if
there is a message, every packet that has attributes has a payload among them and less than 2^31
bytes of them, and no rounded length reaches 2^32. -/
theorem deliversEach_iff (msgs : List NlMessage) :
    DeliversEach msgs ↔ msgs ≠ [] ∧ ∀ m ∈ msgs, m.Rounds ∧ m.Counts := by
  constructor
  · intro h
    have hne : msgs ≠ [] := by
      rintro rfl
      exact nomatch h 1 Nat.one_pos
    have hwalk := h _ (Nat.lt_succ_self _)
    have hrounds := rounds_of_returned hne hwalk
    refine ⟨hne, fun m hm ↦ ⟨hrounds m hm, m.counts_iff.mpr ?_⟩⟩
    rw [nflogNetlinkWalk_bufferOf hne hrounds (Nat.lt_succ_self _)] at hwalk
    obtain ⟨hret, hhanded⟩ := WalkResult.returned.inj hwalk
    rw [← hhanded, List.length_filterMap_eq_countP] at hret
    exact of_countP_eq (fun m ↦ NlMessage.counted_of_handed) (Int.ofNat.inj hret).symm m hm
  · rintro ⟨hne, hmsgs⟩ fuel hfuel
    have hrounds : ∀ m ∈ msgs, m.Rounds := fun m hm ↦ (hmsgs m hm).1
    have hcounts : ∀ m ∈ msgs, m.Counts := fun m hm ↦ (hmsgs m hm).2
    have hhanded : msgs.filterMap NlMessage.handed = msgs.filterMap NlMessage.delivery :=
      List.filterMap_congr fun m hm ↦ (hcounts m hm).handed_eq
    have hcount : msgs.countP NlMessage.counted = (msgs.filterMap NlMessage.delivery).length := by
      rw [← hhanded, List.length_filterMap_eq_countP]
      exact List.countP_congr fun m hm ↦
        ⟨m.counts_iff.mp (hcounts m hm), NlMessage.counted_of_handed⟩
    rw [nflogNetlinkWalk_bufferOf hne hrounds hfuel, hhanded, hcount]

def markOnly : NlMessage :=
  packetMessage [⟨2, [0, 0, 0, 1], [], by decide, by decide⟩] trivial (by decide) (by decide)

/-- The walk returns one and has called nothing. -/
theorem walk_counts_without_payload : ¬ ∀ msgs, DeliversEach msgs := by
  intro h
  have hwalk := h [markOnly] 2 (by decide)
  have hrounds : ∀ m ∈ [markOnly], m.Rounds := by
    rw [List.forall_mem_singleton, NlMessage.Rounds]
    decide
  rw [nflogNetlinkWalk_bufferOf (List.cons_ne_nil _ _) hrounds (by decide)] at hwalk
  exact absurd hwalk (by decide)

end NetForensics
