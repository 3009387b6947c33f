import NetForensics.Correlate.Obs
import NetForensics.Json.Print

/-!
# What a `cpe_nat` line keeps of a binding

The line of a translated connection names both of its ends, and a reader of the lines gets the
binding back. The short form is meant for a DESTROY that carries nothing but an id. It is chosen by
the ports, though, and a protocol without ports has none even when the addresses are known.
-/

namespace NetForensics

/-! ## Reading a line back -/

/-- One side of a binding. -/
inductive NatEndpoint where
  | v4 (ip : UInt32) (port : UInt16)
  | v6 (ip : In6Addr) (port : UInt16)

/-- What a line tells about a binding. -/
structure NatBinding where
  event : CStr
  tsMs : UInt64
  ipVersion : ℕ
  lan : NatEndpoint
  wan : NatEndpoint
  protocol : UInt8
  ctId : Option UInt32

def readPort (s : CStr) : Option UInt16 := (readDecimal s).map UInt16.ofNat

def readHexByte (c d : UInt8) : Option UInt8 := do
  let high ← Json.hexVal c
  let low ← Json.hexVal d
  some (UInt8.ofNat (16 * high + low))

def readHexGroup : CStr → Option (UInt8 × UInt8)
  | [c, d, c', d'] => do
    let x ← readHexByte c d
    let y ← readHexByte c' d'
    some (x, y)
  | _ => none

def readHex6 (s : CStr) : Option In6Addr := do
  let groups ← (s.splitOn 58).mapM readHexGroup
  let bytes := groups.flatMap fun g ↦ [g.1, g.2]
  if bytes.length = 16 then some fun i ↦ bytes.getD i 0 else none

def readEndpoint (s : CStr) : Option NatEndpoint :=
  match s with
  | 91 :: s =>
    match s.splitOn 93 with
    | [ip, 58 :: port] => do
      let ip ← readHex6 ip
      let port ← readPort port
      some (.v6 ip port)
    | _ => none
  | s =>
    match s.splitOn 58 with
    | [ip, port] => do
      let ip ← inetPton4 ip
      let port ← readPort port
      some (.v4 ip port)
    | _ => none

/-- The binding in a `cpe_nat` line. -/
def readNatLine (line : CStr) : Option NatBinding := do
  let v ← Json.parse line
  let event ← v.text "event"
  let ts ← v.nat "ts"
  let ipVersion ← v.nat "ip_version"
  let lan ← (v.text "lan").bind readEndpoint
  let wan ← (v.text "wan").bind readEndpoint
  let protocol ← v.nat "proto"
  some ⟨event, UInt64.ofNat ts, ipVersion, lan, wan, UInt8.ofNat protocol,
    (v.nat "ct_id").map UInt32.ofNat⟩

/-! ## Printing then reading -/

private theorem splitOn_append_cons {d : UInt8} {s t : CStr} (hs : d ∉ s) (ht : d ∉ t) :
    (s ++ d :: t).splitOn d = [s, t] := by
  have hjoin : s ++ d :: t = [d].intercalate [s, t] := by
    rw [List.intercalate_cons_of_ne_nil (List.cons_ne_nil t []), List.intercalate_singleton,
      List.append_assoc, List.singleton_append]
  rw [hjoin]
  refine List.splitOn_intercalate d ?_ (List.cons_ne_nil _ _)
  rintro l hl
  rcases List.mem_pair.mp hl with rfl | rfl
  · exact hs
  · exact ht

theorem readPort_decimal (port : UInt16) : readPort (decimal port.toNat) = some port := by
  rw [readPort, readDecimal_decimal, Option.map_some, UInt16.ofNat_toNat]

private theorem hex2_eq (x : UInt8) : ∃ c d, hex2 x = [c, d] ∧ readHexByte c d = some x := by
  have hfin : ∀ n : Fin 256, (hex2 (UInt8.ofNat n)).length = 2 ∧
      readHexByte ((hex2 (UInt8.ofNat n)).getD 0 0) ((hex2 (UInt8.ofNat n)).getD 1 0)
        = some (UInt8.ofNat n) := by
    decide +kernel
  obtain ⟨hlen, hread⟩ := hfin ⟨x.toNat, x.toNat_lt⟩
  rw [UInt8.ofNat_toNat] at hlen hread
  obtain ⟨c, d, heq⟩ := List.length_eq_two.mp hlen
  rw [heq] at hread
  exact ⟨c, d, heq, hread⟩

theorem readHexGroup_hex2 (x y : UInt8) : readHexGroup (hex2 x ++ hex2 y) = some (x, y) := by
  obtain ⟨c, d, hx, hreadx⟩ := hex2_eq x
  obtain ⟨c', d', hy, hready⟩ := hex2_eq y
  rw [hx, hy]
  simp only [List.cons_append, List.nil_append, readHexGroup, hreadx, hready,
    Option.bind_eq_bind, Option.bind_some]

theorem token_hex2 (x : UInt8) : Token (hex2 x) := token_zeroPad (token_hex _)

private def hexGroups (a : In6Addr) : List CStr :=
  (List.finRange 8).map fun (i : Fin 8) ↦
    hex2 (a ⟨2 * i.val, highByte_lt i⟩) ++ hex2 (a ⟨2 * i.val + 1, lowByte_lt i⟩)

private theorem colon_notMem_hex2 (x : UInt8) : (58 : UInt8) ∉ hex2 x := by
  have hfin : ∀ n : Fin 256, (58 : UInt8) ∉ hex2 (UInt8.ofNat n) := by decide +kernel
  have h := hfin ⟨x.toNat, x.toNat_lt⟩
  rwa [UInt8.ofNat_toNat] at h

theorem ipv6Hex_eq (a : In6Addr) : ipv6Hex a = [58].intercalate (hexGroups a) := by
  refine copyStr_of_length_lt ?_
  have hlen : ([58].intercalate (hexGroups a)).length = 39 := by
    simp [hexGroups, List.finRange, List.intercalate, List.intersperse, length_hex2]
  rw [← hexGroups, hlen]
  decide

theorem token_ipv6Hex (a : In6Addr) : Token (ipv6Hex a) := by
  rw [ipv6Hex_eq]
  intro b hb
  obtain hsep | ⟨l, hl, hmem⟩ := mem_or_mem_of_mem_intercalate hb
  · rw [List.mem_singleton.mp hsep]
    decide
  · obtain ⟨i, -, rfl⟩ := List.mem_map.mp hl
    exact (token_hex2 _).append (token_hex2 _) b hmem

theorem readHex6_ipv6Hex (a : In6Addr) : readHex6 (ipv6Hex a) = some a := by
  have hcolon : ∀ l ∈ hexGroups a, (58 : UInt8) ∉ l := by
    intro l hl
    obtain ⟨i, -, rfl⟩ := List.mem_map.mp hl
    rw [List.mem_append, not_or]
    exact ⟨colon_notMem_hex2 _, colon_notMem_hex2 _⟩
  have hgroups : (hexGroups a).mapM readHexGroup
      = some ((List.finRange 8).map fun (i : Fin 8) ↦
          (a ⟨2 * i.val, highByte_lt i⟩, a ⟨2 * i.val + 1, lowByte_lt i⟩)) := by
    simp [hexGroups, List.finRange, readHexGroup_hex2]
  rw [readHex6, ipv6Hex_eq, List.splitOn_intercalate _ hcolon (by simp [hexGroups]), hgroups]
  simp only [Option.bind_eq_bind, Option.bind_some]
  refine (if_pos rfl).trans (congrArg some ?_)
  funext i
  fin_cases i <;> rfl

private theorem colon_notMem_inetNtop4 (a : UInt32) : (58 : UInt8) ∉ inetNtop4 a := by
  intro h
  have hnone := inetPton4_of_colon h
  rw [inetPton4_inetNtop4] at hnone
  exact absurd hnone (by simp)

private theorem colon_notMem_decimal (n : ℕ) : (58 : UInt8) ∉ decimal n := fun h ↦
  absurd (toNat_of_mem_decimal h).2 (by decide)

theorem readEndpoint_endpoint4 (ip : UInt32) (port : UInt16) :
    readEndpoint (endpoint4 ip port) = some (.v4 ip port) := by
  obtain ⟨b, s, hs⟩ := List.exists_cons_of_ne_nil (inetNtop4_ne_nil ip)
  have hb : b ≠ 91 := by
    rintro rfl
    have htoken := token_inetNtop4 ip 91 (by rw [hs]; exact List.mem_cons_self)
    exact absurd htoken (by decide)
  have hsplit : (endpoint4 ip port).splitOn 58 = [inetNtop4 ip, decimal port.toNat] :=
    splitOn_append_cons (colon_notMem_inetNtop4 ip) (colon_notMem_decimal _)
  have hhead : ∀ t, endpoint4 ip port = 91 :: t → False := by
    intro t heq
    rw [endpoint4, hs] at heq
    exact hb (List.cons.inj heq).1
  rw [readEndpoint, hsplit]
  · simp only [inetPton4_inetNtop4, readPort_decimal, Option.bind_eq_bind, Option.bind_some]
  · exact hhead

theorem readEndpoint_endpoint6 (ip : In6Addr) (port : UInt16) :
    readEndpoint (endpoint6 ip port) = some (.v6 ip port) := by
  have hip : (93 : UInt8) ∉ ipv6Hex ip := (token_ipv6Hex ip).notMem (by decide)
  have hport : (93 : UInt8) ∉ 58 :: decimal port.toNat :=
    (Token.cons (by decide) (token_decimal _)).notMem (by decide)
  rw [endpoint6, List.cons_append, readEndpoint, splitOn_append_cons hip hport]
  simp only [readHex6_ipv6Hex, readPort_decimal, Option.bind_eq_bind, Option.bind_some]

/-! ## The line of an event -/

/-- The library returns what the event says, where it returns anything. -/
structure ForensicsLib.Faithful (lib : ForensicsLib) (ev : NfctEvent) : Prop where
  tuple : ∀ t ∈ lib.tuple ev,
    t = ⟨ev.lanSrcIp, ev.lanSrcPort, ev.wanSrcIp, ev.wanSrcPort, ev.protocol⟩
  tupleV6 : ∀ t ∈ lib.tupleV6 ev,
    t = ⟨ev.lanSrcIp6, ev.lanSrcPort, ev.wanSrcIp6, ev.wanSrcPort, ev.protocol⟩

def natBinding (ev : NfctEvent) (tsMs : UInt64) : NatBinding where
  event := obsEventName ev.type
  tsMs := tsMs
  ipVersion := if ev.isIpv6 then 6 else 4
  lan := if ev.isIpv6 then .v6 ev.lanSrcIp6 ev.lanSrcPort else .v4 ev.lanSrcIp ev.lanSrcPort
  wan := if ev.isIpv6 then .v6 ev.wanSrcIp6 ev.wanSrcPort else .v4 ev.wanSrcIp ev.wanSrcPort
  protocol := ev.protocol
  ctId := if ev.hasId then some ev.id else none

/-- A DESTROY with an id and without ports, which prints as the id alone. -/
def NfctEvent.PrintsIdOnly (ev : NfctEvent) : Prop :=
  (ev.isDestroy = true ∨ ev.type = .destroy) ∧ ev.lanSrcPort = 0 ∧ ev.wanSrcPort = 0 ∧
    ev.hasId = true

def natMembers (ev : NfctEvent) (routerId : Option CStr) (tsMs : UInt64) :
    List (String × CStr) :=
  [("type", quoted (ascii "cpe_nat")),
   ("event", quoted (obsEventName ev.type)),
   ("router", quoted (obsRouterId routerId)),
   ("ts", decimal tsMs.toNat),
   ("ip_version", decimal (if ev.isIpv6 then 6 else 4)),
   ("lan", quoted (if ev.isIpv6 then endpoint6 ev.lanSrcIp6 ev.lanSrcPort
      else endpoint4 ev.lanSrcIp ev.lanSrcPort)),
   ("wan", quoted (if ev.isIpv6 then endpoint6 ev.wanSrcIp6 ev.wanSrcPort
      else endpoint4 ev.wanSrcIp ev.wanSrcPort)),
   ("proto", decimal ev.protocol.toNat)] ++
  if ev.hasId then [("ct_id", decimal ev.id.toNat)] else []

def idMembers (ev : NfctEvent) (routerId : Option CStr) (tsMs : UInt64) : List (String × CStr) :=
  [("type", quoted (ascii "cpe_nat")),
   ("event", quoted (ascii "DESTROY")),
   ("router", quoted (obsRouterId routerId)),
   ("ts", decimal tsMs.toNat),
   ("ct_id", decimal ev.id.toNat)]

section

variable {lib : ForensicsLib} {ev : NfctEvent} {routerId : Option CStr} {tsMs : UInt64}
  {obs : NfFlowObs}

theorem obs_of_nfct (hlib : lib.Faithful ev) (hlan : ev.hasLan = true)
    (hobs : nfObsFromNfct lib ev routerId tsMs = some obs) :
    obs.fromCpe = true ∧ obs.isDestroy = (ev.isDestroy || ev.type == .destroy) ∧
      obs.hasCtId = ev.hasId ∧ obs.ctId = ev.id ∧ obs.event = obsEventName ev.type ∧
      obs.routerId = obsRouterId routerId ∧ obs.tsMs = tsMs ∧ obs.isIpv6 = ev.isIpv6 ∧
      obs.srcPort = ev.lanSrcPort ∧ obs.wanSrcPort = ev.wanSrcPort ∧ obs.protocol = ev.protocol ∧
      (ev.isIpv6 = true → obs.srcIp6 = ev.lanSrcIp6 ∧ obs.wanSrcIp6 = ev.wanSrcIp6) ∧
      (ev.isIpv6 = false → obs.srcIp = ev.lanSrcIp ∧ obs.wanSrcIp = ev.wanSrcIp) := by
  rw [nfObsFromNfct, hlan] at hobs
  simp only [Bool.not_true, Bool.and_false, Bool.false_and, Bool.false_eq_true, if_false] at hobs
  cases hv6 : ev.isIpv6 with
  | true =>
    rw [hv6, if_pos rfl] at hobs
    obtain ⟨t, ht, rfl⟩ := Option.map_eq_some_iff.mp hobs
    rw [hlib.tupleV6 t ht]
    exact ⟨rfl, rfl, rfl, rfl, rfl, rfl, rfl, rfl, rfl, rfl, rfl, fun _ ↦ ⟨rfl, rfl⟩,
      fun h ↦ absurd h (by decide)⟩
  | false =>
    rw [hv6, if_neg Bool.false_ne_true] at hobs
    obtain ⟨t, ht, rfl⟩ := Option.map_eq_some_iff.mp hobs
    rw [hlib.tuple t ht]
    exact ⟨rfl, rfl, rfl, rfl, rfl, rfl, rfl, rfl, rfl, rfl, rfl, fun h ↦ absurd h (by decide),
      fun _ ↦ ⟨rfl, rfl⟩⟩

theorem obsEventName_ne_nil (t : NfctEventType) : obsEventName t ≠ [] := by
  cases t <;> decide

theorem obsMembers_of_nfct (hlib : lib.Faithful ev) (hlan : ev.hasLan = true)
    (hobs : nfObsFromNfct lib ev routerId tsMs = some obs) :
    (ev.PrintsIdOnly → obsMembers obs = idMembers ev routerId tsMs) ∧
      (¬ ev.PrintsIdOnly → obsMembers obs = natMembers ev routerId tsMs) := by
  obtain ⟨hcpe, hdestroy, hhas, hid, hevent, hrouter, hts, hv6, hlp, hwp, hproto, h6, h4⟩ :=
    obs_of_nfct hlib hlan hobs
  have hshort : (obs.isDestroy && obs.srcPort == 0 && obs.wanSrcPort == 0 && obs.hasCtId) = true ↔
      ev.PrintsIdOnly := by
    rw [hdestroy, hlp, hwp, hhas, NfctEvent.PrintsIdOnly]
    simp only [Bool.and_eq_true, Bool.or_eq_true, beq_iff_eq, and_assoc]
  constructor
  · intro h
    rw [obsMembers, if_pos hcpe, if_pos (hshort.mpr h), idMembers, hrouter, hts, hid]
  · intro h
    rw [obsMembers, if_pos hcpe, if_neg (mt hshort.mp h), natMembers, hevent, hrouter, hts, hid,
      hv6, hlp, hwp, hproto, hhas, if_pos (obsEventName_ne_nil _)]
    cases hfam : ev.isIpv6 with
    | true =>
      obtain ⟨hsrc, hwan⟩ := h6 hfam
      simp only [hsrc, hwan, if_true]
    | false =>
      obtain ⟨hsrc, hwan⟩ := h4 hfam
      simp only [hsrc, hwan, Bool.false_eq_true, if_false]

/-! ## Reading the two lines -/

theorem plain_endpoint4 (ip : UInt32) (port : UInt16) : Json.Plain (endpoint4 ip port) :=
  Json.plain_of_token ((token_inetNtop4 ip).append (Token.cons (by decide) (token_decimal _)))

theorem plain_endpoint6 (ip : In6Addr) (port : UInt16) : Json.Plain (endpoint6 ip port) := by
  have hopen : Json.Plain [91] := by decide
  have hclose : Json.Plain [93, 58] := by decide
  exact (hopen.append (Json.plain_of_token (token_ipv6Hex ip))).append
    (hclose.append (Json.plain_of_token (token_decimal _)))

def natValues (ev : NfctEvent) (routerId : Option CStr) (tsMs : UInt64) : List (CStr × Json) :=
  [(ascii "type", .str (ascii "cpe_nat")),
   (ascii "event", .str (obsEventName ev.type)),
   (ascii "router", .str (obsRouterId routerId)),
   (ascii "ts", .num (decimal tsMs.toNat)),
   (ascii "ip_version", .num (decimal (if ev.isIpv6 then 6 else 4))),
   (ascii "lan", .str (if ev.isIpv6 then endpoint6 ev.lanSrcIp6 ev.lanSrcPort
      else endpoint4 ev.lanSrcIp ev.lanSrcPort)),
   (ascii "wan", .str (if ev.isIpv6 then endpoint6 ev.wanSrcIp6 ev.wanSrcPort
      else endpoint4 ev.wanSrcIp ev.wanSrcPort)),
   (ascii "proto", .num (decimal ev.protocol.toNat))] ++
  if ev.hasId then [(ascii "ct_id", .num (decimal ev.id.toNat))] else []

open Json in
theorem reads_natMembers (h : Plain (obsRouterId routerId)) :
    Reads (object (natMembers ev routerId tsMs)) (.obj (natValues ev routerId tsMs)) := by
  have hname : Plain (obsEventName ev.type) := by cases ev.type <;> decide
  have hend : ∀ (ip6 : In6Addr) (ip : UInt32) (port : UInt16),
      Plain (if ev.isIpv6 then endpoint6 ip6 port else endpoint4 ip port) := by
    intro ip6 ip port
    split
    · exact plain_endpoint6 ip6 port
    · exact plain_endpoint4 ip port
  refine reads_object (List.rel_append ?_ ?_)
  · exact .cons (memberReads (by decide) (reads_quoted (by decide))) <|
      .cons (memberReads (by decide) (reads_quoted hname)) <|
      .cons (memberReads (by decide) (reads_quoted h)) <|
      .cons (memberReads (by decide) (reads_decimal _)) <|
      .cons (memberReads (by decide) (reads_decimal _)) <|
      .cons (memberReads (by decide) (reads_quoted (hend _ _ _))) <|
      .cons (memberReads (by decide) (reads_quoted (hend _ _ _))) <|
      .cons (memberReads (by decide) (reads_decimal _)) .nil
  · split
    · exact .cons (memberReads (by decide) (reads_decimal _)) .nil
    · exact .nil

theorem readNatLine_natMembers (h : Json.Plain (obsRouterId routerId)) :
    readNatLine (object (natMembers ev routerId tsMs)) = some (natBinding ev tsMs) := by
  have hevent : (Json.obj (natValues ev routerId tsMs)).text "event"
      = some (obsEventName ev.type) := rfl
  have hts : (Json.obj (natValues ev routerId tsMs)).nat "ts" = some tsMs.toNat :=
    readDecimal_decimal _
  have hversion : (Json.obj (natValues ev routerId tsMs)).nat "ip_version"
      = some (if ev.isIpv6 then 6 else 4) := readDecimal_decimal _
  have hproto : (Json.obj (natValues ev routerId tsMs)).nat "proto" = some ev.protocol.toNat :=
    readDecimal_decimal _
  have hside : ∀ (ip6 : In6Addr) (ip : UInt32) (port : UInt16),
      readEndpoint (if ev.isIpv6 then endpoint6 ip6 port else endpoint4 ip port)
        = some (if ev.isIpv6 then .v6 ip6 port else .v4 ip port) := by
    intro ip6 ip port
    split
    · exact readEndpoint_endpoint6 ip6 port
    · exact readEndpoint_endpoint4 ip port
  have hlan : ((Json.obj (natValues ev routerId tsMs)).text "lan").bind readEndpoint
      = some (natBinding ev tsMs).lan := hside _ _ _
  have hwan : ((Json.obj (natValues ev routerId tsMs)).text "wan").bind readEndpoint
      = some (natBinding ev tsMs).wan := hside _ _ _
  have hid : ((Json.obj (natValues ev routerId tsMs)).nat "ct_id").map UInt32.ofNat
      = (natBinding ev tsMs).ctId := by
    have hread : (readDecimal (decimal ev.id.toNat)).map UInt32.ofNat = some ev.id := by
      rw [readDecimal_decimal, Option.map_some, UInt32.ofNat_toNat]
    by_cases hhas : ev.hasId = true
    · rw [natValues, natBinding, if_pos hhas, if_pos hhas]
      exact hread
    · rw [natValues, natBinding, if_neg hhas, if_neg hhas]
      rfl
  rw [readNatLine, (reads_natMembers h).parse]
  simp only [Option.bind_eq_bind, Option.bind_some, hevent, hts, hversion, hlan, hwan, hproto, hid,
    UInt64.ofNat_toNat, UInt8.ofNat_toNat]
  rfl

open Json in
theorem readNatLine_idMembers (h : Plain (obsRouterId routerId)) :
    readNatLine (object (idMembers ev routerId tsMs)) = none := by
  have hreads : Reads (object (idMembers ev routerId tsMs)) (.obj
      [(ascii "type", .str (ascii "cpe_nat")),
       (ascii "event", .str (ascii "DESTROY")),
       (ascii "router", .str (obsRouterId routerId)),
       (ascii "ts", .num (decimal tsMs.toNat)),
       (ascii "ct_id", .num (decimal ev.id.toNat))]) :=
    reads_object <| .cons (memberReads (by decide) (reads_quoted (by decide))) <|
      .cons (memberReads (by decide) (reads_quoted (by decide))) <|
      .cons (memberReads (by decide) (reads_quoted h)) <|
      .cons (memberReads (by decide) (reads_decimal _)) <|
      .cons (memberReads (by decide) (reads_decimal _)) .nil
  rw [readNatLine, hreads.parse]
  have hts : (Json.obj
      [(ascii "type", .str (ascii "cpe_nat")),
       (ascii "event", .str (ascii "DESTROY")),
       (ascii "router", .str (obsRouterId routerId)),
       (ascii "ts", .num (decimal tsMs.toNat)),
       (ascii "ct_id", .num (decimal ev.id.toNat))]).nat "ts" = some tsMs.toNat :=
    readDecimal_decimal _
  simp only [Option.bind_eq_bind, Option.bind_some, hts]
  rfl

theorem length_endpoint4_le (ip : UInt32) (port : UInt16) : (endpoint4 ip port).length ≤ 21 := by
  have hip := length_inetNtop4_le ip
  have hport : (decimal port.toNat).length ≤ 5 :=
    length_decimal_le (by decide) (port.toNat_lt.trans (by decide))
  rw [endpoint4, List.length_append, List.length_cons]
  omega

theorem length_endpoint6_le (ip : In6Addr) (port : UInt16) :
    (endpoint6 ip port).length ≤ 55 := by
  have hip : (ipv6Hex ip).length < 48 := length_copyStr_lt (by decide) _
  have hport : (decimal port.toNat).length ≤ 5 :=
    length_decimal_le (by decide) (port.toNat_lt.trans (by decide))
  rw [endpoint6, List.length_append, List.length_cons, List.length_cons, List.length_cons]
  omega

/-- No line is cut off by the buffer of 768 bytes. -/
theorem length_natLine_lt :
    (object (natMembers ev routerId tsMs)).length < 768 ∧
      (object (idMembers ev routerId tsMs)).length < 768 := by
  have hrouter : (obsRouterId routerId).length < 64 := length_copyStr_lt (by decide) _
  have hts : (decimal tsMs.toNat).length ≤ 20 :=
    length_decimal_le (by decide) (tsMs.toNat_lt.trans (by decide))
  have hid : (decimal ev.id.toNat).length ≤ 10 :=
    length_decimal_le (by decide) (ev.id.toNat_lt.trans (by decide))
  have hproto : (decimal ev.protocol.toNat).length ≤ 3 := length_decimal_octet _
  have hevent : (obsEventName ev.type).length ≤ 7 := by cases ev.type <;> decide
  have hversion : (decimal (if ev.isIpv6 then 6 else 4)).length ≤ 1 :=
    length_decimal_le (by decide) (by split <;> decide)
  have hside : ∀ (ip6 : In6Addr) (ip : UInt32) (port : UInt16),
      (if ev.isIpv6 then endpoint6 ip6 port else endpoint4 ip port).length ≤ 55 := by
    intro ip6 ip port
    split
    · exact length_endpoint6_le ip6 port
    · exact (length_endpoint4_le ip port).trans (by decide)
  have hlan := hside ev.lanSrcIp6 ev.lanSrcIp ev.lanSrcPort
  have hwan := hside ev.wanSrcIp6 ev.wanSrcIp ev.wanSrcPort
  constructor
  · by_cases hhas : ev.hasId = true
    · rw [natMembers, if_pos hhas, length_object (by simp)]
      simp only [List.cons_append, List.nil_append, List.map_cons, List.map_nil, List.sum_cons,
        List.sum_nil, length_quoted, length_ascii, String.reduceToList, List.length_cons,
        List.length_nil]
      omega
    · rw [natMembers, if_neg hhas, length_object (by simp)]
      simp only [List.append_nil, List.map_cons, List.map_nil, List.sum_cons, List.sum_nil,
        length_quoted, length_ascii, String.reduceToList, List.length_cons, List.length_nil]
      omega
  · rw [idMembers, length_object (by simp)]
    simp only [List.map_cons, List.map_nil, List.sum_cons, List.sum_nil, length_quoted,
      length_ascii, String.reduceToList, List.length_cons, List.length_nil]
    omega

/-! ## What is kept -/

theorem plain_obsRouterId (h : ∀ r ∈ routerId, Json.Plain r) :
    Json.Plain (obsRouterId routerId) := by
  cases routerId with
  | none => exact Json.plain_nil
  | some r => exact (h r rfl).take 63

/-- The line an event is printed as, in a buffer of 768 bytes. -/
theorem nfObsFormat_of_nfct (hlib : lib.Faithful ev) (hlan : ev.hasLan = true)
    (hobs : nfObsFromNfct lib ev routerId tsMs = some obs) :
    (ev.PrintsIdOnly →
        nfObsFormat obs 768 = some (object (idMembers ev routerId tsMs))) ∧
      (¬ ev.PrintsIdOnly →
        nfObsFormat obs 768 = some (object (natMembers ev routerId tsMs))) := by
  obtain ⟨hshort, hfull⟩ := obsMembers_of_nfct hlib hlan hobs
  obtain ⟨hfullLen, hshortLen⟩ : (object (natMembers ev routerId tsMs)).length < 768 ∧
      (object (idMembers ev routerId tsMs)).length < 768 := length_natLine_lt
  constructor
  · intro h
    rw [nfObsFormat, if_neg (by decide), hshort h, copyStr_of_length_lt hshortLen]
  · intro h
    rw [nfObsFormat, if_neg (by decide), hfull h, copyStr_of_length_lt hfullLen]

end

/-- For an event with both sides known, the line gives the whole binding back if and only if the
event is not a DESTROY with an id and without ports; and two events that are not, printed as the
same line, are about the same binding. -/
theorem natLine_keeps_binding_iff (lib : ForensicsLib) (ev : NfctEvent) (routerId : Option CStr)
    (tsMs : UInt64) (obs : NfFlowObs) (hlib : lib.Faithful ev)
    (hboth : ev.hasLan = true ∧ ev.hasWan = true) (hrid : ∀ r ∈ routerId, Json.Plain r)
    (hobs : nfObsFromNfct lib ev routerId tsMs = some obs) :
    ((∃ line, nfObsFormat obs 768 = some line ∧ readNatLine line = some (natBinding ev tsMs)) ↔
      ¬ ev.PrintsIdOnly) ∧
    ∀ (ev' : NfctEvent) (routerId' : Option CStr) (tsMs' : UInt64) (obs' : NfFlowObs),
      lib.Faithful ev' → ev'.hasLan = true ∧ ev'.hasWan = true → (∀ r ∈ routerId', Json.Plain r) →
      nfObsFromNfct lib ev' routerId' tsMs' = some obs' → ¬ ev.PrintsIdOnly → ¬ ev'.PrintsIdOnly →
      nfObsFormat obs 768 = nfObsFormat obs' 768 → natBinding ev tsMs = natBinding ev' tsMs' := by
  have hread : readNatLine (object (natMembers ev routerId tsMs)) = some (natBinding ev tsMs) :=
    readNatLine_natMembers (plain_obsRouterId hrid)
  obtain ⟨hshort, hfull⟩ := nfObsFormat_of_nfct hlib hboth.1 hobs
  constructor
  · constructor
    · rintro ⟨line, hline, hbinding⟩ hid
      obtain rfl := Option.some_inj.mp ((hshort hid).symm.trans hline)
      rw [readNatLine_idMembers (plain_obsRouterId hrid)] at hbinding
      exact absurd hbinding (by simp)
    · exact fun hid ↦ ⟨_, hfull hid, hread⟩
  · intro ev' routerId' tsMs' obs' hlib' hboth' hrid' hobs' hid hid' hsame
    have hread' : readNatLine (object (natMembers ev' routerId' tsMs'))
        = some (natBinding ev' tsMs') := readNatLine_natMembers (plain_obsRouterId hrid')
    rw [hfull hid, (nfObsFormat_of_nfct hlib' hboth'.1 hobs').2 hid', Option.some_inj] at hsame
    rw [hsame, hread', Option.some_inj] at hread
    exact hread.symm

/-- The library, for events with both sides known. -/
def plainForensics : ForensicsLib where
  tuple ev := if ev.hasLan && ev.hasWan then
      some ⟨ev.lanSrcIp, ev.lanSrcPort, ev.wanSrcIp, ev.wanSrcPort, ev.protocol⟩ else none
  tupleV6 ev := if ev.hasLan && ev.hasWan then
      some ⟨ev.lanSrcIp6, ev.lanSrcPort, ev.wanSrcIp6, ev.wanSrcPort, ev.protocol⟩ else none

theorem faithful_plainForensics (ev : NfctEvent) : plainForensics.Faithful ev where
  tuple t ht := by
    rw [plainForensics, Option.mem_def, Option.ite_none_right_eq_some] at ht
    exact (Option.some_inj.mp ht.2).symm
  tupleV6 t ht := by
    rw [plainForensics, Option.mem_def, Option.ite_none_right_eq_some] at ht
    exact (Option.some_inj.mp ht.2).symm

/-- The binding of 192.168.1.10 to 203.0.113.5, for a protocol and a port. -/
def natEvent (type : NfctEventType) (protocol : UInt8) (port : UInt16) : NfctEvent :=
  { NfctEvent.blank with
    type := type, isDestroy := decide (type = .destroy), hasLan := true, hasWan := true
    protocol := protocol, lanSrcIp := 3232235786, lanSrcPort := port, wanSrcIp := 3405803781
    wanSrcPort := port, hasId := true, id := 7 }

/-- A TCP binding that is taken down. -/
theorem natLine_keeps_binding_tcp :
    ∃ obs line, nfObsFromNfct plainForensics (natEvent .destroy 6 40000) (some (ascii "cpe-1")) 1000
        = some obs ∧
      nfObsFormat obs 768 = some line ∧
      readNatLine line = some (natBinding (natEvent .destroy 6 40000) 1000) := by
  obtain ⟨obs, hobs⟩ : ∃ obs, nfObsFromNfct plainForensics (natEvent .destroy 6 40000)
      (some (ascii "cpe-1")) 1000 = some obs := ⟨_, rfl⟩
  have hrid : ∀ r ∈ some (ascii "cpe-1"), Json.Plain r := by
    rintro r ⟨⟩
    decide
  have hport : ¬ (natEvent .destroy 6 40000).PrintsIdOnly :=
    fun h ↦ absurd h.2.1 (by decide)
  obtain ⟨line, hline, hread⟩ := (natLine_keeps_binding_iff plainForensics _ _ _ obs
    (faithful_plainForensics _) ⟨rfl, rfl⟩ hrid hobs).1.mpr hport
  exact ⟨obs, line, hobs, hline, hread⟩

/-- An ICMP binding that is taken down: the line has the id and nothing else of it. -/
theorem natLine_loses_binding_icmp :
    ¬ ∀ obs, nfObsFromNfct plainForensics (natEvent .destroy 1 0) (some (ascii "cpe-1")) 1000
        = some obs →
      ∃ line, nfObsFormat obs 768 = some line ∧
        readNatLine line = some (natBinding (natEvent .destroy 1 0) 1000) := by
  intro h
  obtain ⟨obs, hobs⟩ : ∃ obs, nfObsFromNfct plainForensics (natEvent .destroy 1 0)
      (some (ascii "cpe-1")) 1000 = some obs := ⟨_, rfl⟩
  obtain ⟨line, hline, hread⟩ := h obs hobs
  have hshort := (nfObsFormat_of_nfct (faithful_plainForensics _) rfl hobs).1
    ⟨Or.inr rfl, rfl, rfl, rfl⟩
  obtain rfl := Option.some_inj.mp (hshort.symm.trans hline)
  have hrouter : Json.Plain (obsRouterId (some (ascii "cpe-1"))) := by decide
  rw [readNatLine_idMembers hrouter] at hread
  exact absurd hread (by simp)

end NetForensics
