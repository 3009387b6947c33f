import NetForensics.Ipc.Server

/-!
# Requests are the lines of the stream

Whatever the order of the server's actions and however a stream is cut into the results of `recv`,
the requests of a connection are the lines of what it has sent. Between two actions a slot holds the
incomplete line of its own connection and nothing else.

Two things end a connection early: a line that does not fit into the buffer, and a response that
cannot be sent. In the second case complete lines may still be in the buffer; they are dropped.
-/

namespace NetForensics

variable {σ : Type} {n m : ℕ} {tr tr' : List IpcEvent}

/-! ## Traces -/

theorem received_append : received n (tr ++ tr') = received n tr ++ received n tr' :=
  List.flatMap_append

theorem requests_append : requests n (tr ++ tr') = requests n tr ++ requests n tr' :=
  List.flatMap_append

theorem sendFailed_append : SendFailed n (tr ++ tr') ↔ SendFailed n tr ∨ SendFailed n tr' := by
  simp only [SendFailed, List.mem_append, exists_or]

/-- Nothing is seen of a connection. -/
structure Unseen (n : ℕ) (tr : List IpcEvent) : Prop where
  received : received n tr = []
  requests : requests n tr = []
  sends : ¬ SendFailed n tr

theorem unseen_nil (n : ℕ) : Unseen n [] :=
  ⟨rfl, rfl, fun ⟨_, h⟩ ↦ List.not_mem_nil h⟩

theorem unseen_closed (n m : ℕ) : Unseen n [.closed m] :=
  ⟨rfl, rfl, fun ⟨_, h⟩ ↦ IpcEvent.noConfusion (List.mem_singleton.mp h)⟩

/-- The requests of a connection follow its stream, as far as it goes. -/
structure FollowsStream (n : ℕ) (tr : List IpcEvent) : Prop where
  initial : requests n tr <+:
    (framed 10 (cpeIpcLineMax - 1) (received n tr)).map requestText
  all : ¬ SendFailed n tr →
    requests n tr = (framed 10 (cpeIpcLineMax - 1) (received n tr)).map requestText

/-- A connection that is open, with the given buffer: all its complete lines were handed over, and
the buffer is the incomplete one. -/
structure OpenConn (n : ℕ) (buf : CStr) (tr : List IpcEvent) : Prop where
  sends : ¬ SendFailed n tr
  short : ∀ l ∈ (splitLines 10 (received n tr)).1, l.length < cpeIpcLineMax - 1
  requests : requests n tr = (splitLines 10 (received n tr)).1.map requestText
  rbuf : (splitLines 10 (received n tr)).2 = buf

theorem FollowsStream.append_unseen (h : FollowsStream n tr) (h' : Unseen n tr') :
    FollowsStream n (tr ++ tr') where
  initial := by
    rw [received_append, requests_append, h'.received, h'.requests, List.append_nil,
      List.append_nil]
    exact h.initial
  all hsend := by
    rw [received_append, requests_append, h'.received, h'.requests, List.append_nil,
      List.append_nil]
    exact h.all fun hf ↦ hsend (sendFailed_append.mpr (Or.inl hf))

theorem OpenConn.append_unseen {buf : CStr} (h : OpenConn n buf tr) (h' : Unseen n tr') :
    OpenConn n buf (tr ++ tr') where
  sends hf := (sendFailed_append.mp hf).elim h.sends h'.sends
  short := by
    rw [received_append, h'.received, List.append_nil]
    exact h.short
  requests := by
    rw [received_append, requests_append, h'.received, h'.requests, List.append_nil,
      List.append_nil]
    exact h.requests
  rbuf := by
    rw [received_append, h'.received, List.append_nil]
    exact h.rbuf

theorem Unseen.append (h : Unseen n tr) (h' : Unseen n tr') : Unseen n (tr ++ tr') where
  received := by rw [received_append, h.received, h'.received, List.append_nil]
  requests := by rw [requests_append, h.requests, h'.requests, List.append_nil]
  sends hf := (sendFailed_append.mp hf).elim h.sends h'.sends

/-! ## One call -/

/-- What the loop over the lines of a buffer does: it hands over all of them and keeps the rest, or
closes the connection when a response cannot be sent. -/
structure Serves (n : ℕ) (buf : CStr) (out : Option CStr) (tr : List IpcEvent) : Prop where
  received : ∀ m, received m tr = []
  other : ∀ m, m ≠ n → Unseen m tr
  outcome :
    (¬ SendFailed n tr ∧ requests n tr = (splitLines 10 buf).1.map requestText ∧
      out = if cpeIpcLineMax - 1 ≤ (splitLines 10 buf).2.length then none
        else some (splitLines 10 buf).2) ∨
    (SendFailed n tr ∧ requests n tr <+: (splitLines 10 buf).1.map requestText ∧ out = none)

theorem serves_of_notMem {buf : CStr} (h : 10 ∉ buf) :
    Serves n buf (if cpeIpcLineMax - 1 ≤ buf.length then none else some buf)
      (if cpeIpcLineMax - 1 ≤ buf.length then [.closed n] else []) := by
  have hunseen : ∀ m, Unseen m (if cpeIpcLineMax - 1 ≤ buf.length then [.closed n] else []) := by
    intro m
    split
    · exact unseen_closed m n
    · exact unseen_nil m
  refine ⟨fun m ↦ (hunseen m).received, fun m _ ↦ hunseen m, Or.inl ⟨(hunseen n).sends, ?_, ?_⟩⟩
  · rw [(hunseen n).requests, splitLines_of_notMem h]
    rfl
  · rw [splitLines_of_notMem h]

/-- A line that is handed over and answered, and then the rest of the buffer. -/
theorem Serves.cons {line rest bytes : CStr} {out : Option CStr} (hline : 10 ∉ line)
    (h : Serves n rest out tr) :
    Serves n (line ++ 10 :: rest) out
      (.request n (requestText line) :: .sent n bytes true :: tr) := by
  have hfail : ∀ m, SendFailed m (.request n (requestText line) :: .sent n bytes true :: tr) ↔
      SendFailed m tr := by
    intro m
    simp [SendFailed]
  have hreq : NetForensics.requests n (.request n (requestText line) :: .sent n bytes true :: tr)
      = requestText line :: NetForensics.requests n tr := by
    simp [requests]
  refine ⟨h.received, fun m hm ↦ ?_, ?_⟩
  · refine ⟨h.received m, ?_, fun hf ↦ (h.other m hm).sends ((hfail m).mp hf)⟩
    have hne : ¬ n = m := fun heq ↦ hm heq.symm
    have := (h.other m hm).requests
    simp only [requests, List.flatMap_cons, if_neg hne, List.nil_append] at this ⊢
    exact this
  · rw [splitLines_append_cons hline, hfail, hreq, List.map_cons]
    rcases h.outcome with ⟨hsend, hall, hout⟩ | ⟨hsend, hinit, hout⟩
    · exact Or.inl ⟨hsend, by rw [hall], hout⟩
    · exact Or.inr ⟨hsend, List.cons_prefix_cons.mpr ⟨rfl, hinit⟩, hout⟩

theorem serves_of_failed {line rest bytes : CStr} (hline : 10 ∉ line) :
    Serves n (line ++ 10 :: rest) none
      [.request n (requestText line), .sent n bytes false, .closed n] := by
  refine ⟨fun m ↦ rfl, fun m hm ↦ ⟨rfl, ?_, ?_⟩, Or.inr ⟨⟨bytes, by simp⟩, ?_, rfl⟩⟩
  · have hne : ¬ n = m := fun heq ↦ hm heq.symm
    simp [requests, hne]
  · rintro ⟨b, hb⟩
    simp at hb
    exact hm hb.1
  · rw [splitLines_append_cons hline, List.map_cons]
    simp [requests]

theorem serves_serveLines (handle : IpcHandler σ) {fuel : ℕ} {buf : CStr} (h : buf.length < fuel)
    (sends : List Bool) (agent : σ) :
    Serves n buf (serveLines handle n fuel sends agent buf).2.1
      (serveLines handle n fuel sends agent buf).2.2.2 := by
  induction fuel generalizing sends agent buf with
  | zero => exact absurd h (Nat.not_lt_zero _)
  | succ fuel ih =>
    rw [serveLines]
    cases hcut : cutLine 10 buf with
    | none =>
      have hserve := serves_of_notMem (n := n) (cutLine_eq_none hcut)
      dsimp only
      by_cases hlong : cpeIpcLineMax - 1 ≤ buf.length
      · rw [if_pos hlong, if_pos hlong] at hserve
        rw [if_pos hlong]
        exact hserve
      · rw [if_neg hlong, if_neg hlong] at hserve
        rw [if_neg hlong]
        exact hserve
    | some p =>
      obtain ⟨line, rest⟩ := p
      obtain ⟨hline, rfl⟩ := cutLine_eq_some hcut
      dsimp only
      split
      · refine Serves.cons hline (ih ?_ _ _)
        rw [List.length_append, List.length_cons] at h
        omega
      · exact serves_of_failed hline

theorem OpenConn.receive {buf got : CStr} {out : Option CStr} (h : OpenConn n buf tr)
    (hlen : (buf ++ got).length ≤ cpeIpcLineMax - 1) (hs : Serves n (buf ++ got) out tr') :
    FollowsStream n (tr ++ .received n got :: tr') ∧
      ∀ buf', out = some buf' → OpenConn n buf' (tr ++ .received n got :: tr') ∧
        buf'.length ≤ cpeIpcLineMax - 2 := by
  have hrecv : NetForensics.received n (tr ++ .received n got :: tr')
      = NetForensics.received n tr ++ got := by
    have hcons : NetForensics.received n (.received n got :: tr')
        = got ++ NetForensics.received n tr' := by
      simp [received]
    rw [received_append, hcons, hs.received, List.append_nil]
  have hreq : NetForensics.requests n (tr ++ .received n got :: tr')
      = NetForensics.requests n tr ++ NetForensics.requests n tr' := by
    rw [requests_append]
    rfl
  have hfail : SendFailed n (tr ++ .received n got :: tr') ↔ SendFailed n tr' := by
    rw [sendFailed_append, or_iff_right h.sends]
    simp [SendFailed]
  have hsplit := splitLines_append (d := 10) (NetForensics.received n tr) got
  rw [h.rbuf] at hsplit
  -- every complete line leaves room for its newline
  have hshort : ∀ l ∈ (splitLines 10 (NetForensics.received n tr ++ got)).1,
      l.length < cpeIpcLineMax - 1 := by
    rw [hsplit]
    intro l hl
    rcases List.mem_append.mp hl with hl | hl
    · exact h.short l hl
    · exact (length_lt_of_mem_splitLines hl).trans_le hlen
  have hframed : (framed 10 (cpeIpcLineMax - 1) (NetForensics.received n tr ++ got)).map requestText
      = NetForensics.requests n tr ++ (splitLines 10 (buf ++ got)).1.map requestText := by
    rw [framed_of_short hshort, hsplit, List.map_append, h.requests]
  refine ⟨⟨?_, ?_⟩, ?_⟩
  · rw [hrecv, hreq, hframed]
    rcases hs.outcome with ⟨-, hall, -⟩ | ⟨-, hinit, -⟩
    · rw [hall]
    · exact (List.prefix_append_right_inj _).mpr hinit
  · intro hsend
    rw [hrecv, hreq, hframed]
    rcases hs.outcome with ⟨-, hall, -⟩ | ⟨hf, -, -⟩
    · rw [hall]
    · exact absurd (hfail.mpr hf) hsend
  · intro buf' hout
    rcases hs.outcome with ⟨hsend, hall, hkeep⟩ | ⟨-, -, hclosed⟩
    · rw [hout] at hkeep
      split_ifs at hkeep with hlong
      obtain rfl := Option.some_inj.mp hkeep
      refine ⟨⟨fun hf ↦ hsend (hfail.mp hf), hrecv ▸ hshort, ?_, ?_⟩, by omega⟩
      · rw [hreq, hrecv, hsplit, List.map_append, h.requests, hall]
      · rw [hrecv, hsplit]
    · rw [hclosed] at hout
      exact absurd hout (by simp)

/-! ## Whole runs -/

/-- Every slot holds the incomplete line of its own connection. -/
structure WellFramed (s : IpcServer σ) (tr : List IpcEvent) : Prop where
  rlen : ∀ idx, (s.slots idx).rbuf.length ≤ cpeIpcLineMax - 2
  opened : ∀ idx n, (s.slots idx).client = some n →
    n < s.accepted ∧ OpenConn n (s.slots idx).rbuf tr
  once : ∀ i j n, (s.slots i).client = some n → (s.slots j).client = some n → i = j
  fresh : ∀ n, s.accepted ≤ n → Unseen n tr
  follows : ∀ n, FollowsStream n tr

theorem wellFramed_create (agent : σ) : WellFramed (IpcServer.create agent) [] where
  rlen _ := Nat.zero_le _
  opened _ _ h := absurd h (by simp [IpcServer.create])
  once _ _ _ h := absurd h (by simp [IpcServer.create])
  fresh n _ := unseen_nil n
  follows n := ⟨List.nil_prefix, fun _ ↦ rfl⟩

/-- A call about the connection in one slot, after which the slot is empty or still open. -/
theorem WellFramed.update {s : IpcServer σ} (h : WellFramed s tr) {idx : Fin cpeIpcClientsMax}
    (hidx : (s.slots idx).client = some n) {slot : IpcSlot} (agent : σ)
    (hrlen : slot.rbuf.length ≤ cpeIpcLineMax - 2)
    (hslot : ∀ m, slot.client = some m → m = n ∧ OpenConn n slot.rbuf (tr ++ tr'))
    (hother : ∀ m, m ≠ n → Unseen m tr') (hfollows : FollowsStream n (tr ++ tr')) :
    WellFramed ⟨agent, Function.update s.slots idx slot, s.accepted⟩ (tr ++ tr') := by
  have hn := (h.opened idx n hidx).1
  -- the other slots belong to other connections
  have hdisjoint : ∀ i m, i ≠ idx → (s.slots i).client = some m → m ≠ n := by
    rintro i m hi hm rfl
    exact hi (h.once i idx m hm hidx)
  refine ⟨fun i ↦ ?_, fun i m hm ↦ ?_, fun i j m hi hj ↦ ?_, fun m hm ↦ ?_, fun m ↦ ?_⟩
  · dsimp only
    by_cases hi : i = idx
    · subst hi
      rw [Function.update_self]
      exact hrlen
    · rw [Function.update_of_ne hi]
      exact h.rlen i
  · dsimp only at hm ⊢
    by_cases hi : i = idx
    · subst hi
      rw [Function.update_self] at hm ⊢
      obtain ⟨rfl, hopen⟩ := hslot m hm
      exact ⟨hn, hopen⟩
    · rw [Function.update_of_ne hi] at hm ⊢
      obtain ⟨hlt, hopen⟩ := h.opened i m hm
      exact ⟨hlt, hopen.append_unseen (hother m (hdisjoint i m hi hm))⟩
  · dsimp only at hi hj
    by_cases hii : i = idx
    · by_cases hjj : j = idx
      · rw [hii, hjj]
      · rw [hii, Function.update_self] at hi
        rw [Function.update_of_ne hjj] at hj
        exact absurd (hslot m hi).1 (hdisjoint j m hjj hj)
    · rw [Function.update_of_ne hii] at hi
      by_cases hjj : j = idx
      · rw [hjj, Function.update_self] at hj
        exact absurd (hslot m hj).1 (hdisjoint i m hii hi)
      · rw [Function.update_of_ne hjj] at hj
        exact h.once i j m hi hj
  · have hne : m ≠ n := by
      rintro rfl
      exact absurd hm (not_le.mpr hn)
    exact (h.fresh m hm).append (hother m hne)
  · by_cases hm : m = n
    · rw [hm]
      exact hfollows
    · exact (h.follows m).append_unseen (hother m hm)

/-- The connection in a slot is closed, and nothing else is seen of it. -/
theorem WellFramed.closeClient {s : IpcServer σ} (h : WellFramed s tr)
    {idx : Fin cpeIpcClientsMax} (hidx : (s.slots idx).client = some n) :
    WellFramed (s.closeClient idx) (tr ++ [.closed n]) :=
  h.update hidx s.agent (Nat.zero_le _) (fun _ hm ↦ absurd hm (by simp))
    (fun m _ ↦ unseen_closed m n) ((h.follows n).append_unseen (unseen_closed n n))

theorem WellFramed.serviceClient {s : IpcServer σ} (handle : IpcHandler σ) (h : WellFramed s tr)
    (idx : Fin cpeIpcClientsMax) (recv : RecvResult) (sends : List Bool) :
    WellFramed (s.serviceClient handle idx recv sends).1
      (tr ++ (s.serviceClient handle idx recv sends).2.2) := by
  rw [IpcServer.serviceClient]
  cases hidx : (s.slots idx).client with
  | none =>
    rw [List.append_nil]
    exact h
  | some n =>
    cases recv with
    | again =>
      rw [List.append_nil]
      exact h
    | failed => exact h.closeClient hidx
    | data bytes =>
      dsimp only
      split
      · exact h.closeClient hidx
      · obtain ⟨-, hopen⟩ := h.opened idx n hidx
        generalize hbuf : (s.slots idx).rbuf = buf at hopen ⊢
        generalize hgot : bytes.take (s.room idx) = got
        have hlen : (buf ++ got).length ≤ cpeIpcLineMax - 1 := by
          rw [List.length_append, ← hgot, List.length_take, IpcServer.room, hbuf]
          have hrlen := h.rlen idx
          rw [hbuf] at hrlen
          have hmax : cpeIpcLineMax = 8192 := rfl
          omega
        have hserve := serves_serveLines (n := n) handle (Nat.lt_succ_self (buf ++ got).length)
          sends s.agent
        obtain ⟨hfollows, hkeep⟩ := hopen.receive hlen hserve
        have hother : ∀ m, m ≠ n → Unseen m (.received n got ::
            (serveLines handle n ((buf ++ got).length + 1) sends s.agent (buf ++ got)).2.2.2) := by
          intro m hm
          obtain ⟨hr, hq, hf⟩ := hserve.other m hm
          have hne : ¬ n = m := fun heq ↦ hm heq.symm
          refine ⟨?_, hq, ?_⟩
          · simp only [received, List.flatMap_cons, if_neg hne, List.nil_append] at hr ⊢
            exact hr
          · rintro ⟨b, hb⟩
            exact hf ⟨b, (List.mem_cons.mp hb).resolve_left (by simp)⟩
        split
        · exact h.update hidx _ (Nat.zero_le _) (fun _ hm ↦ absurd hm (by simp)) hother hfollows
        · rename_i buf' hout
          obtain ⟨hopen', hrlen'⟩ := hkeep buf' hout
          exact h.update hidx _ hrlen' (fun m hm ↦ ⟨(Option.some_inj.mp hm).symm, hopen'⟩) hother
            hfollows

/-- A new connection starts with an empty buffer, whatever was in the slot before. -/
theorem openConn_of_unseen (h : Unseen n tr) : OpenConn n [] tr where
  sends := h.sends
  short := by
    rw [h.received]
    exact fun _ hl ↦ absurd hl List.not_mem_nil
  requests := by
    rw [h.requests, h.received]
    rfl
  rbuf := by
    rw [h.received]
    rfl

theorem WellFramed.acceptClient {s : IpcServer σ} (h : WellFramed s tr) :
    WellFramed s.acceptClient.1 (tr ++ s.acceptClient.2) := by
  have hlater : ∀ m, s.accepted + 1 ≤ m → Unseen m tr := fun m hm ↦ h.fresh m (by omega)
  rw [IpcServer.acceptClient]
  split
  · refine ⟨h.rlen, fun i m hm ↦ ?_, h.once, fun m hm ↦ ?_, fun m ↦ ?_⟩
    · obtain ⟨hlt, hopen⟩ := h.opened i m hm
      exact ⟨Nat.lt_succ_of_lt hlt, hopen.append_unseen (unseen_closed m _)⟩
    · exact (hlater m hm).append (unseen_closed m _)
    · exact (h.follows m).append_unseen (unseen_closed m _)
  · rename_i slot hfind
    rw [List.append_nil]
    -- no slot has the number of the new connection
    have hnew : ∀ i m, (s.slots i).client = some m → m ≠ s.accepted :=
      fun i m hm ↦ (h.opened i m hm).1.ne
    refine ⟨fun i ↦ ?_, fun i m hm ↦ ?_, fun i j m hi hj ↦ ?_, hlater, h.follows⟩
    · dsimp only
      by_cases hi : i = slot
      · rw [hi, Function.update_self]
        exact Nat.zero_le _
      · rw [Function.update_of_ne hi]
        exact h.rlen i
    · dsimp only at hm ⊢
      by_cases hi : i = slot
      · rw [hi, Function.update_self] at hm ⊢
        obtain rfl := Option.some_inj.mp hm
        exact ⟨Nat.lt_succ_self _, openConn_of_unseen (h.fresh _ le_rfl)⟩
      · rw [Function.update_of_ne hi] at hm ⊢
        exact ⟨Nat.lt_succ_of_lt (h.opened i m hm).1, (h.opened i m hm).2⟩
    · dsimp only at hi hj
      by_cases hii : i = slot
      · by_cases hjj : j = slot
        · rw [hii, hjj]
        · rw [hii, Function.update_self] at hi
          rw [Function.update_of_ne hjj] at hj
          exact absurd (Option.some_inj.mp hi).symm (hnew j m hj)
      · rw [Function.update_of_ne hii] at hi
        by_cases hjj : j = slot
        · rw [hjj, Function.update_self] at hj
          exact absurd (Option.some_inj.mp hj).symm (hnew i m hi)
        · rw [Function.update_of_ne hjj] at hj
          exact h.once i j m hi hj

theorem wellFramed_ipcRun (handle : IpcHandler σ) (agent : σ) (ops : List IpcOp) :
    WellFramed (ipcRun handle agent ops).server (ipcRun handle agent ops).trace := by
  refine foldl_invariant (P := fun r : IpcRun σ ↦ WellFramed r.server r.trace) (fun r op h ↦ ?_)
    (wellFramed_create agent) ops
  cases op with
  | accept => exact h.acceptClient
  | service idx recv sends => exact h.serviceClient handle idx recv sends

/-- In every run, the requests of a connection are the lines of its own stream, each as a C string
without a carriage return at its end, up to the first line that does not fit, at which the
connection is closed. If a response could not be sent the connection is closed there, and the
requests are the first of these lines. A slot always has room for `recv`. -/
theorem requests_eq_framed (handle : IpcHandler σ) (agent : σ) (ops : List IpcOp) :
    (∀ idx, ((ipcRun handle agent ops).server.slots idx).rbuf.length ≤ cpeIpcLineMax - 2 ∧
      0 < (ipcRun handle agent ops).server.room idx ∧
      ((ipcRun handle agent ops).server.slots idx).rbuf.length
        + (ipcRun handle agent ops).server.room idx < cpeIpcLineMax) ∧
    ∀ n stream, received n (ipcRun handle agent ops).trace = stream ∨
        received n (ipcRun handle agent ops).trace <+: stream ∧
          Overlong 10 (cpeIpcLineMax - 1) (received n (ipcRun handle agent ops).trace) →
      (¬ SendFailed n (ipcRun handle agent ops).trace →
        requests n (ipcRun handle agent ops).trace
          = (framed 10 (cpeIpcLineMax - 1) stream).map requestText) ∧
      requests n (ipcRun handle agent ops).trace
        <+: (framed 10 (cpeIpcLineMax - 1) stream).map requestText ∧
      (Overlong 10 (cpeIpcLineMax - 1) (received n (ipcRun handle agent ops).trace) →
        ∀ idx, ((ipcRun handle agent ops).server.slots idx).client ≠ some n) := by
  have h := wellFramed_ipcRun handle agent ops
  constructor
  · intro idx
    have hrlen := h.rlen idx
    have hmax : cpeIpcLineMax = 8192 := rfl
    rw [IpcServer.room]
    refine ⟨hrlen, ?_, ?_⟩
    · omega
    · omega
  · intro n stream hstream
    have hframed : framed 10 (cpeIpcLineMax - 1) stream
        = framed 10 (cpeIpcLineMax - 1) (received n (ipcRun handle agent ops).trace) := by
      rcases hstream with heq | ⟨⟨t, ht⟩, hlong⟩
      · rw [heq]
      · rw [← ht, framed_append_of_overlong hlong]
    rw [hframed]
    refine ⟨(h.follows n).all, (h.follows n).initial, fun hlong idx hidx ↦ ?_⟩
    have hopen := (h.opened idx n hidx).2
    have hrlen := h.rlen idx
    have hmax : cpeIpcLineMax = 8192 := rfl
    rcases hlong with ⟨l, hl, hle⟩ | hle
    · exact absurd (hopen.short l hl) (not_lt.mpr hle)
    · rw [hopen.rbuf] at hle
      omega

/-- A run against a handler that answers the same to everything: a connection sends two lines at
once, and the outcome of the first `send` is given. -/
def twoLines (ok : Bool) : IpcRun Unit :=
  ipcRun (fun _ _ ↦ ((), some (ascii "ok"))) ()
    [.accept, .service ⟨0, by decide⟩ (.data (ascii "a\r\nb\n")) [ok]]

theorem requests_eq_framed_twoLines :
    ¬ SendFailed 0 (twoLines true).trace ∧
      requests 0 (twoLines true).trace
        = (framed 10 (cpeIpcLineMax - 1) (ascii "a\r\nb\n")).map requestText := by
  have hsend : ¬ SendFailed 0 (twoLines true).trace := by
    have htrace : (twoLines true).trace = [.received 0 (ascii "a\r\nb\n"), .request 0 (ascii "a"),
        .sent 0 (ascii "ok\n") true, .request 0 (ascii "b"), .sent 0 (ascii "ok\n") true] := by
      decide
    rw [htrace, SendFailed]
    simp
  exact ⟨hsend, ((requests_eq_framed _ () _).2 0 _ (Or.inl (by decide))).1 hsend⟩

/-- A response that cannot be sent leaves the second line unread, although it was received; and of a
line with a NUL in it the handler sees what comes before. -/
theorem requests_dropped_after_failed_send :
    received 0 (twoLines false).trace = ascii "a\r\nb\n" ∧
      requests 0 (twoLines false).trace = [ascii "a"] ∧
      (framed 10 (cpeIpcLineMax - 1) (ascii "a\r\nb\n")).map requestText
        = [ascii "a", ascii "b"] ∧
      requestText [97, 0, 98] = [97] := by
  refine ⟨by decide, by decide, by decide, by decide⟩

end NetForensics
