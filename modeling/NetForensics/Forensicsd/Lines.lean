import NetForensics.Correlate.Feed
import NetForensics.Ipc.OneLine

/-!
# What forensicsd prints

For every conntrack event the daemon prints one line: the `cpe_nat` line where an observation can be
made of the event, and a `cpe_nat_raw` line with the text of the library where it cannot. For a
station it prints a `cpe_wifi` line. A reader of the lines gets back the binding of each event whose
line is not the short one, and nothing from the others.

Only the `cpe_nat` line cuts the router id, at 63 characters.
-/

namespace NetForensics

/-- `nl80211_event_t`, with what is printed of it; the numbers are those of the casts. -/
structure Nl80211Event where
  /-- the type is `NL80211_EVENT_STATION` -/
  isStation : Bool
  hasMac : Bool
  clientMac : Fin 6 → UInt8
  signalDbm : ℤ
  snrDb : ℤ
  mcsIndex : ℕ
  txRetries : ℕ
  frequencyMhz : ℕ

/-- What the daemon takes from its libraries. -/
structure ForensicsdLib where
  nfct : NfctLib
  /-- `nfct_event_to_string` with a buffer of 256 bytes -/
  eventText : NfctEvent → CStr
  /-- the events that can be taken from the nl80211 parser after a buffer has been fed -/
  stations : List UInt8 → List Nl80211Event

/-! ## The lines -/

/-- The members of the line for an event without an observation. -/
def rawMembers (lib : ForensicsdLib) (routerId : CStr) (ts : UInt64) (nev : NfctEvent) :
    List (String × CStr) :=
  if nev.hasId then
    [("type", quoted (ascii "cpe_nat_raw")), ("router", quoted routerId), ("ts", decimal ts.toNat),
     ("event", quoted (if nev.isDestroy then ascii "DESTROY" else ascii "PARTIAL")),
     ("ct_id", decimal nev.id.toNat), ("detail", quoted (lib.eventText nev))]
  else
    [("type", quoted (ascii "cpe_nat_raw")), ("router", quoted routerId), ("ts", decimal ts.toNat),
     ("detail", quoted (lib.eventText nev))]

/-- The loop of `emit_nfct_events`, which empties the queue: what it prints. -/
def emitNfctEvents (lib : ForensicsdLib) (routerId : CStr) (ts : UInt64) :
    List NfctEvent → List CStr
  | [] => []
  | nev :: queue =>
    let printed := match nfObsFromNfct lib.nfct.forensics nev (some routerId) ts with
      | some obs => (nfObsFormat obs 768).toList
      | none => [object (rawMembers lib routerId ts nev)]
    printed ++ emitNfctEvents lib routerId ts queue

def stationMembers (routerId : CStr) (ts : UInt64) (wev : Nl80211Event) : List (String × CStr) :=
  [("type", quoted (ascii "cpe_wifi")), ("router", quoted routerId), ("ts", decimal ts.toNat),
   ("client_mac", quoted (macFmt wev.clientMac)), ("rssi", signedDecimal wev.signalDbm),
   ("snr", signedDecimal wev.snrDb), ("mcs", decimal wev.mcsIndex),
   ("tx_retries", decimal wev.txRetries), ("freq_mhz", decimal wev.frequencyMhz)]

/-- The loop of `emit_wifi_events`: events that are not stations print nothing. -/
def emitWifiEvents (routerId : CStr) (ts : UInt64) : List Nl80211Event → List CStr
  | [] => []
  | wev :: queue =>
    let printed := if wev.isStation && wev.hasMac then [object (stationMembers routerId ts wev)]
      else []
    printed ++ emitWifiEvents routerId ts queue

/-! ## Which events show their binding -/

/-- A DESTROY with an id, and without an address or without ports: its line has the id alone. -/
def NfctEvent.ShowsId (ev : NfctEvent) : Prop :=
  ev.PrintsIdOnly ∨ (ev.isDestroy = true ∨ ev.type = .destroy) ∧ ev.hasLan = false ∧
    ev.hasWan = false ∧ ev.hasId = true

instance (ev : NfctEvent) : Decidable ev.PrintsIdOnly :=
  inferInstanceAs (Decidable (_ ∧ _ ∧ _ ∧ _))

instance (ev : NfctEvent) : Decidable ev.ShowsId :=
  inferInstanceAs (Decidable (_ ∨ _ ∧ _ ∧ _ ∧ _))

/-- The binding a reader gets from the line of an event. -/
def shownBinding (lib : ForensicsdLib) (routerId : CStr) (ts : UInt64) (nev : NfctEvent) :
    Option NatBinding :=
  match nfObsFromNfct lib.nfct.forensics nev (some routerId) ts with
  | some _ => if nev.ShowsId then none else some (natBinding nev ts)
  | none => none

variable {lib : ForensicsdLib} {routerId : CStr} {ts : UInt64} {nev : NfctEvent}
  {wev : Nl80211Event} {obs : NfFlowObs}

theorem nfObsFormat_of_forensics {forensics : ForensicsLib} (hlib : forensics.Faithful nev)
    (hobs : nfObsFromNfct forensics nev (some routerId) ts = some obs) :
    nfObsFormat obs 768 = some (object (if nev.ShowsId then idMembers nev (some routerId) ts
      else natMembers nev (some routerId) ts)) := by
  have hcond : ((obsHeader nev (some routerId) ts).isDestroy && !nev.hasLan && !nev.hasWan
      && nev.hasId) = true ↔ (nev.isDestroy = true ∨ nev.type = .destroy) ∧ nev.hasLan = false ∧
        nev.hasWan = false ∧ nev.hasId = true := by
    simp only [obsHeader, Bool.and_eq_true, Bool.or_eq_true, beq_iff_eq, Bool.not_eq_true',
      and_assoc]
  by_cases hbare : (nev.isDestroy = true ∨ nev.type = .destroy) ∧ nev.hasLan = false ∧
      nev.hasWan = false ∧ nev.hasId = true
  · rw [nfObsFromNfct, if_pos (hcond.mpr hbare)] at hobs
    obtain rfl := Option.some_inj.mp hobs
    have hmembers : obsMembers (obsHeader nev (some routerId) ts)
        = idMembers nev (some routerId) ts := by
      have hdestroy : (nev.isDestroy || nev.type == .destroy) = true := by
        simpa only [Bool.or_eq_true, beq_iff_eq] using hbare.1
      have hshort : ((obsHeader nev (some routerId) ts).isDestroy
          && (obsHeader nev (some routerId) ts).srcPort == 0
          && (obsHeader nev (some routerId) ts).wanSrcPort == 0
          && (obsHeader nev (some routerId) ts).hasCtId) = true := by
        change ((nev.isDestroy || nev.type == .destroy) && (0 : UInt16) == 0 && (0 : UInt16) == 0
          && nev.hasId) = true
        rw [hdestroy, hbare.2.2.2]
        rfl
      have hcpe : (obsHeader nev (some routerId) ts).fromCpe = true := rfl
      rw [obsMembers, if_pos hcpe, if_pos hshort]
      rfl
    have hid : nev.ShowsId := Or.inr hbare
    rw [if_pos hid, nfObsFormat, if_neg (by decide), hmembers,
      copyStr_of_length_lt length_natLine_lt.2]
  · -- the addresses come from the library, which does not look at `hasLan` a second time
    have hsame : nfObsFromNfct ⟨fun _ ↦ forensics.tuple nev, fun _ ↦ forensics.tupleV6 nev⟩
        { nev with hasLan := true } (some routerId) ts = some obs := by
      rw [nfObsFromNfct, if_neg (mt hcond.mp hbare)] at hobs
      rw [nfObsFromNfct, if_neg (by simp)]
      exact hobs
    have hfaithful : ForensicsLib.Faithful
        ⟨fun _ ↦ forensics.tuple nev, fun _ ↦ forensics.tupleV6 nev⟩
        { nev with hasLan := true } := ⟨hlib.tuple, hlib.tupleV6⟩
    obtain ⟨hshort, hfull⟩ := nfObsFormat_of_nfct hfaithful rfl hsame
    have hiff : nev.ShowsId ↔ nev.PrintsIdOnly := or_iff_left hbare
    by_cases hid : nev.PrintsIdOnly
    · rw [if_pos (hiff.mpr hid)]
      exact hshort hid
    · rw [if_neg (mt hiff.mp hid)]
      exact hfull hid

/-! ## Reading the lines -/

/-- A line that does not tell the address family has no binding in it. -/
theorem readNatLine_eq_none {ms : List (String × CStr)} {kvs : List (CStr × Json)}
    (h : List.Forall₂ Json.MemberReads ms kvs) (hms : ∀ m ∈ ms, ascii m.1 ≠ ascii "ip_version") :
    readNatLine (object ms) = none := by
  have hversion : (Json.obj kvs).nat "ip_version" = none := by
    rw [Json.nat, Json.membersOf_eq_nil (Json.names_of_memberReads h hms)]
  rw [readNatLine, (Json.reads_object h).parse, Option.bind_eq_bind, Option.bind_some]
  cases (Json.obj kvs).text "event" with
  | none => rfl
  | some event =>
    cases (Json.obj kvs).nat "ts" with
    | none => rfl
    | some t =>
      simp only [Option.bind_eq_bind, Option.bind_some, hversion]
      rfl

open Json in
theorem readNatLine_rawMembers (hrid : Plain routerId) (htext : Plain (lib.eventText nev)) :
    readNatLine (object (rawMembers lib routerId ts nev)) = none := by
  rw [rawMembers]
  split
  · have hevent : Plain (if nev.isDestroy then ascii "DESTROY" else ascii "PARTIAL") := by
      split <;> decide
    exact readNatLine_eq_none (.cons (memberReads (by decide) (reads_quoted (by decide))) <|
      .cons (memberReads (by decide) (reads_quoted hrid)) <|
      .cons (memberReads (by decide) (reads_decimal _)) <|
      .cons (memberReads (by decide) (reads_quoted hevent)) <|
      .cons (memberReads (by decide) (reads_decimal _)) <|
      .cons (memberReads (by decide) (reads_quoted htext)) .nil) (by simp [ascii])
  · exact readNatLine_eq_none (.cons (memberReads (by decide) (reads_quoted (by decide))) <|
      .cons (memberReads (by decide) (reads_quoted hrid)) <|
      .cons (memberReads (by decide) (reads_decimal _)) <|
      .cons (memberReads (by decide) (reads_quoted htext)) .nil) (by simp [ascii])

open Json in
theorem readNatLine_stationMembers (hrid : Plain routerId) :
    readNatLine (object (stationMembers routerId ts wev)) = none :=
  readNatLine_eq_none (.cons (memberReads (by decide) (reads_quoted (by decide))) <|
    .cons (memberReads (by decide) (reads_quoted hrid)) <|
    .cons (memberReads (by decide) (reads_decimal _)) <|
    .cons (memberReads (by decide) (reads_quoted (plain_of_token (token_macFmt _)))) <|
    .cons (memberReads (by decide) (reads_signedDecimal _)) <|
    .cons (memberReads (by decide) (reads_signedDecimal _)) <|
    .cons (memberReads (by decide) (reads_decimal _)) <|
    .cons (memberReads (by decide) (reads_decimal _)) <|
    .cons (memberReads (by decide) (reads_decimal _)) .nil) (by simp [stationMembers, ascii])

/-- What can be relied on in the libraries and the router id: the tuples are those of the event, and
no text has a quote in it. -/
structure ForensicsdLib.Sound (lib : ForensicsdLib) (routerId : CStr) : Prop where
  faithful : ∀ nev, lib.nfct.forensics.Faithful nev
  eventText : ∀ nev, Json.Plain (lib.eventText nev)
  router : Json.Plain routerId

/-- An event is printed as one line, and this shows its binding. -/
theorem emitNfctEvents_cons (h : lib.Sound routerId) (ts : UInt64) (nev : NfctEvent)
    (queue : List NfctEvent) :
    ∃ line, emitNfctEvents lib routerId ts (nev :: queue)
        = line :: emitNfctEvents lib routerId ts queue ∧
      readNatLine line = shownBinding lib routerId ts nev := by
  rw [emitNfctEvents, shownBinding]
  cases hobs : nfObsFromNfct lib.nfct.forensics nev (some routerId) ts with
  | none => exact ⟨_, rfl, readNatLine_rawMembers h.router (h.eventText nev)⟩
  | some obs =>
    have hrid : Json.Plain (obsRouterId (some routerId)) :=
      plain_obsRouterId fun r hr ↦ Option.mem_some.mp hr ▸ h.router
    dsimp only
    rw [nfObsFormat_of_forensics (h.faithful nev) hobs]
    refine ⟨_, rfl, ?_⟩
    by_cases hid : nev.ShowsId
    · rw [if_pos hid]
      exact (readNatLine_idMembers hrid).trans (if_pos hid).symm
    · rw [if_neg hid]
      exact (readNatLine_natMembers hrid).trans (if_neg hid).symm

theorem map_emitNfctEvents (h : lib.Sound routerId) (ts : UInt64) (queue : List NfctEvent) :
    (emitNfctEvents lib routerId ts queue).map readNatLine
      = queue.map (shownBinding lib routerId ts) := by
  induction queue with
  | nil => rfl
  | cons nev queue ih =>
    obtain ⟨line, hline, hread⟩ := emitNfctEvents_cons h ts nev queue
    rw [hline, List.map_cons, List.map_cons, hread, ih]

theorem readNatLine_of_mem_emitWifiEvents (hrid : Json.Plain routerId) {queue : List Nl80211Event}
    {line : CStr} (hline : line ∈ emitWifiEvents routerId ts queue) : readNatLine line = none := by
  induction queue with
  | nil => exact absurd hline List.not_mem_nil
  | cons wev queue ih =>
    rcases List.mem_append.mp hline with hline | hline
    · split at hline
      · rw [List.mem_singleton.mp hline]
        exact readNatLine_stationMembers hrid
      · exact absurd hline List.not_mem_nil
    · exact ih hline

end NetForensics
