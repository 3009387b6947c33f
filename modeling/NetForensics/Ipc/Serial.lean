import NetForensics.Ipc.Framing

/-!
# One request after the other

Up to eight connections are served in turn, and each may have several requests in one part of its
stream. Whatever the order of the server's actions, what the agent goes through and what is sent are
what they would be if the agent had been given the requests one by one, each from its connection,
and had answered each before it was given the next (`serialRun`).
-/

namespace NetForensics

variable {σ : Type} {tr tr' : List IpcEvent}

/-! ## Histories -/

/-- The requests of a trace, each with its connection. -/
def calls (tr : List IpcEvent) : List (ℕ × CStr) :=
  tr.filterMap fun
    | .request n line => some (n, line)
    | _ => none

/-- What is sent in a trace, whether or not it gets there, each with its connection. -/
def replies (tr : List IpcEvent) : List (ℕ × CStr) :=
  tr.filterMap fun
    | .sent n bytes _ => some (n, bytes)
    | _ => none

/-- The agent on its own: it is given the requests one after the other. -/
def serialRun (handle : IpcHandler σ) : σ → List (ℕ × CStr) → σ × List (ℕ × CStr)
  | s, [] => (s, [])
  | s, (n, req) :: reqs =>
    let (s, resp) := handle s req
    let (s, out) := serialRun handle s reqs
    (s, (n, responseBytes (resp.getD handlerError)) :: out)

/-- Every request is followed by what is sent for it, and nothing else is sent. -/
inductive Paired : List IpcEvent → Prop
  | nil : Paired []
  | received (n : ℕ) (bytes : CStr) {tr : List IpcEvent} (h : Paired tr) :
      Paired (.received n bytes :: tr)
  | closed (n : ℕ) {tr : List IpcEvent} (h : Paired tr) : Paired (.closed n :: tr)
  | answered (n : ℕ) (line bytes : CStr) (ok : Bool) {tr : List IpcEvent} (h : Paired tr) :
      Paired (.request n line :: .sent n bytes ok :: tr)

theorem calls_append : calls (tr ++ tr') = calls tr ++ calls tr' := List.filterMap_append

theorem replies_append : replies (tr ++ tr') = replies tr ++ replies tr' := List.filterMap_append

theorem Paired.append (h : Paired tr) (h' : Paired tr') : Paired (tr ++ tr') := by
  induction h with
  | nil => exact h'
  | received n bytes h ih => exact .received n bytes ih
  | closed n h ih => exact .closed n ih
  | answered n line bytes ok h ih => exact .answered n line bytes ok ih

theorem serialRun_cons (handle : IpcHandler σ) (s : σ) (n : ℕ) (req : CStr)
    (reqs : List (ℕ × CStr)) :
    serialRun handle s ((n, req) :: reqs) =
      ((serialRun handle (handle s req).1 reqs).1,
        (n, responseBytes ((handle s req).2.getD handlerError)) ::
          (serialRun handle (handle s req).1 reqs).2) := rfl

theorem serialRun_append (handle : IpcHandler σ) (s : σ) (reqs reqs' : List (ℕ × CStr)) :
    serialRun handle s (reqs ++ reqs') =
      ((serialRun handle (serialRun handle s reqs).1 reqs').1,
        (serialRun handle s reqs).2 ++ (serialRun handle (serialRun handle s reqs).1 reqs').2) := by
  induction reqs generalizing s with
  | nil => rfl
  | cons r reqs ih =>
    obtain ⟨n, req⟩ := r
    rw [List.cons_append, serialRun_cons, serialRun_cons, ih, List.cons_append]

/-- The answers go to the connections of the requests, in their order. -/
theorem serialRun_conns (handle : IpcHandler σ) (s : σ) (reqs : List (ℕ × CStr)) :
    (serialRun handle s reqs).2.map Prod.fst = reqs.map Prod.fst := by
  induction reqs generalizing s with
  | nil => rfl
  | cons r reqs ih =>
    obtain ⟨n, req⟩ := r
    rw [serialRun_cons, List.map_cons, List.map_cons, ih]

/-! ## One call -/

/-- What is seen while the agent goes from one state to another is what it would be if the agent
were on its own. -/
structure Serial (handle : IpcHandler σ) (s s' : σ) (tr : List IpcEvent) : Prop where
  run : serialRun handle s (calls tr) = (s', replies tr)
  paired : Paired tr

variable {handle : IpcHandler σ} {s s' s'' : σ}

theorem serial_nil : Serial handle s s [] := ⟨rfl, .nil⟩

theorem serial_closed (n : ℕ) : Serial handle s s [.closed n] := ⟨rfl, .closed n .nil⟩

theorem Serial.append (h : Serial handle s s' tr) (h' : Serial handle s' s'' tr') :
    Serial handle s s'' (tr ++ tr') where
  run := by rw [calls_append, replies_append, serialRun_append, h.run, h'.run]
  paired := h.paired.append h'.paired

theorem Serial.received (h : Serial handle s s' tr) (n : ℕ) (bytes : CStr) :
    Serial handle s s' (.received n bytes :: tr) :=
  ⟨h.run, .received n bytes h.paired⟩

theorem Serial.answered {line : CStr} (n : ℕ) (ok : Bool)
    (h : Serial handle (handle s line).1 s' tr) :
    Serial handle s s' (.request n line ::
      .sent n (responseBytes ((handle s line).2.getD handlerError)) ok :: tr) where
  run := by
    have hcalls : calls (.request n line ::
        .sent n (responseBytes ((handle s line).2.getD handlerError)) ok :: tr)
        = (n, line) :: calls tr := rfl
    have hreplies : replies (.request n line ::
        .sent n (responseBytes ((handle s line).2.getD handlerError)) ok :: tr)
        = (n, responseBytes ((handle s line).2.getD handlerError)) :: replies tr := rfl
    rw [hcalls, hreplies, serialRun_cons, h.run]
  paired := .answered n line _ ok h.paired

theorem serial_serveLines (n fuel : ℕ) (sends : List Bool) (s : σ) (buf : CStr) :
    Serial handle s (serveLines handle n fuel sends s buf).1
      (serveLines handle n fuel sends s buf).2.2.2 := by
  induction fuel generalizing sends s buf with
  | zero => exact serial_nil
  | succ fuel ih =>
    rw [serveLines]
    cases cutLine 10 buf with
    | none =>
      dsimp only
      split
      · exact serial_closed n
      · exact serial_nil
    | some p =>
      obtain ⟨line, rest⟩ := p
      dsimp only
      split
      · exact (ih sends.tail _ rest).answered n true
      · exact (serial_closed n).answered n false

/-! ## Runs -/

theorem serial_serviceClient (srv : IpcServer σ) (idx : Fin cpeIpcClientsMax) (recv : RecvResult)
    (sends : List Bool) :
    Serial handle srv.agent (srv.serviceClient handle idx recv sends).1.agent
      (srv.serviceClient handle idx recv sends).2.2 := by
  rw [IpcServer.serviceClient]
  cases (srv.slots idx).client with
  | none => exact serial_nil
  | some n =>
    cases recv with
    | again => exact serial_nil
    | failed => exact serial_closed n
    | data bytes =>
      dsimp only
      split
      · exact serial_closed n
      · generalize hbuf : (srv.slots idx).rbuf ++ bytes.take (srv.room idx) = buf
        have hserve : Serial handle srv.agent _ _ :=
          (serial_serveLines n (buf.length + 1) sends srv.agent buf).received n
            (bytes.take (srv.room idx))
        split <;> exact hserve

theorem serial_acceptClient (srv : IpcServer σ) :
    Serial handle srv.agent srv.acceptClient.1.agent srv.acceptClient.2 := by
  rw [IpcServer.acceptClient]
  split
  · exact serial_closed _
  · exact serial_nil

theorem serial_ipcRun (handle : IpcHandler σ) (agent : σ) (ops : List IpcOp) :
    Serial handle agent (ipcRun handle agent ops).server.agent (ipcRun handle agent ops).trace := by
  refine foldl_invariant (P := fun r : IpcRun σ ↦ Serial handle agent r.server.agent r.trace)
    (fun r op h ↦ ?_) serial_nil ops
  cases op with
  | accept => exact h.append (serial_acceptClient r.server)
  | service idx recv sends => exact h.append (serial_serviceClient r.server idx recv sends)

/-! ## One connection -/

def sentTo (n : ℕ) (out : List (ℕ × CStr)) : CStr :=
  out.flatMap fun r ↦ if r.1 = n then r.2 else []

theorem requests_eq_calls (n : ℕ) (tr : List IpcEvent) :
    requests n tr = ((calls tr).filter fun c ↦ c.1 = n).map Prod.snd := by
  induction tr with
  | nil => rfl
  | cons e tr ih =>
    rw [← List.singleton_append, calls_append, requests_append, List.filter_append,
      List.map_append, ih]
    congr 1
    cases e with
    | request m line =>
      by_cases hm : m = n <;> simp [requests, calls, hm]
    | received m bytes => rfl
    | sent m bytes ok => rfl
    | closed m => rfl

/-- What is sent to a connection that has made one request is the answer to it. -/
theorem sentTo_serialRun {handle : IpcHandler σ} {s : σ} {n : ℕ} {req : CStr}
    {pre post : List (ℕ × CStr)} (hpre : ∀ c ∈ pre, c.1 ≠ n) (hpost : ∀ c ∈ post, c.1 ≠ n) :
    sentTo n (serialRun handle s (pre ++ (n, req) :: post)).2
      = responseBytes ((handle (serialRun handle s pre).1 req).2.getD handlerError) := by
  have hother : ∀ (s : σ) (reqs : List (ℕ × CStr)), (∀ c ∈ reqs, c.1 ≠ n) →
      sentTo n (serialRun handle s reqs).2 = [] := by
    intro s reqs h
    refine List.flatMap_eq_nil_iff.mpr fun r hr ↦ if_neg ?_
    have hmem := List.mem_map_of_mem (f := Prod.fst) hr
    rw [serialRun_conns] at hmem
    obtain ⟨c, hc, heq⟩ := List.mem_map.mp hmem
    exact heq ▸ h c hc
  have happend : ∀ out out' : List (ℕ × CStr),
      sentTo n (out ++ out') = sentTo n out ++ sentTo n out' := fun _ _ ↦ List.flatMap_append
  rw [serialRun_append, serialRun_cons, happend, hother s pre hpre, List.nil_append, sentTo,
    List.flatMap_cons, if_pos rfl, ← sentTo, hother _ post hpost, List.append_nil]

/-- A connection from which a single line has come has made a single request. -/
theorem exists_calls {handle : IpcHandler σ} {agent : σ} {ops : List IpcOp} {n : ℕ} {line : CStr}
    (hrecv : received n (ipcRun handle agent ops).trace = line ++ [10]) (hline : 10 ∉ line)
    (hlen : line.length < cpeIpcLineMax - 1)
    (hsend : ¬ SendFailed n (ipcRun handle agent ops).trace) :
    ∃ pre post, calls (ipcRun handle agent ops).trace = pre ++ (n, requestText line) :: post ∧
      (∀ c ∈ pre, c.1 ≠ n) ∧ ∀ c ∈ post, c.1 ≠ n := by
  have hreq := ((wellFramed_ipcRun handle agent ops).follows n).all hsend
  have hlines : (splitLines 10 (line ++ [10])).1 = [line] := by
    rw [splitLines_append_cons hline]
    rfl
  have hframed : framed 10 (cpeIpcLineMax - 1) (line ++ [10]) = [line] := by
    rw [framed_of_short (hlines ▸ List.forall_mem_singleton.mpr hlen), hlines]
  rw [hrecv, hframed, requests_eq_calls] at hreq
  obtain ⟨c, hfilter, hc⟩ := List.map_eq_singleton_iff.mp hreq
  obtain ⟨pre, post, hcalls, hpre, hfirst, hpost⟩ := List.filter_eq_cons_iff.mp hfilter
  refine ⟨pre, post, ?_, fun d hd ↦ by simpa using hpre d hd, fun d hd heq ↦ ?_⟩
  · have hn : c.1 = n := by simpa using hfirst
    rw [hcalls, ← hn, ← hc]
  · have hmem : d ∈ List.filter (fun c : ℕ × CStr ↦ decide (c.1 = n)) post :=
      List.mem_filter.mpr ⟨hd, by simpa using heq⟩
    rw [hpost] at hmem
    exact absurd hmem List.not_mem_nil

/-- Whatever the order of the server's actions, and however they cut the streams of its
connections: the agent is in the state to which the requests lead one after the other, and what was
sent is what it answers to them then, each answer to the connection of its request and before the
next request is looked at. The requests of each connection among them are the lines of its own
stream, as far as it was read. -/
theorem ipcRun_serial (handle : IpcHandler σ) (agent : σ) (ops : List IpcOp) :
    let r := ipcRun handle agent ops
    serialRun handle agent (calls r.trace) = (r.server.agent, replies r.trace) ∧
      Paired r.trace ∧
      ∀ n, ((calls r.trace).filter fun c ↦ c.1 = n).map Prod.snd <+:
        (framed 10 (cpeIpcLineMax - 1) (received n r.trace)).map requestText := by
  intro r
  have hserial := serial_ipcRun handle agent ops
  refine ⟨hserial.run, hserial.paired, fun n ↦ ?_⟩
  rw [← requests_eq_calls]
  exact ((wellFramed_ipcRun handle agent ops).follows n).initial

end NetForensics
