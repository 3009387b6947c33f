import NetForensics.Agent.State
import NetForensics.Util.Run

/-!
# Spooling and emitting lines

The four operations that move lines through the ring: a push, which drops the oldest line of a full
ring; a flush to a stream, line by line; and the two transports of `cpe_agent_emit_flush`, which
hand the ring to a stream or post a batch of it.

Operations that hand lines on return them next to the program's return value, so that statements
about delivery can refer to them.
-/

namespace NetForensics

/-- Outcomes of the stdio calls of one flush. -/
structure Sink where
  /-- Does the `fprintf` of the `k`-th line of this flush succeed? -/
  write : ℕ → Bool
  /-- `fflush` -/
  flush : Bool
  /-- `fclose` -/
  close : Bool

/-- `cpe_agent_http_opts_t`; an absent string is a NULL pointer. -/
structure CpeAgentHttpOpts where
  username : Option CStr
  password : CStr
  caFile : Option CStr
  certFile : Option CStr
  keyFile : Option CStr
  tlsInsecure : Bool

/-- The arguments of `cpe_agent_http_post`. -/
structure HttpRequest where
  url : CStr
  body : CStr
  opts : CpeAgentHttpOpts

/-- Outcomes of the calls `cpe_agent_emit_flush` makes. -/
structure EmitEnv where
  post : HttpRequest → Bool
  fopen : Bool
  sink : Sink

namespace CpeAgent

/-- `cpe_agent_spool_push_line` -/
def spoolPushLine (a : CpeAgent) (line : CStr) : CpeAgent × ℤ :=
  if !a.spool.mem || a.spool.ring.cap == 0 then (a, -1)
  else
    let n := if cpeNdjsonLineMax ≤ line.length then cpeNdjsonLineMax - 1 else line.length
    let a := if a.spool.ring.cap ≤ a.spool.ring.cnt then
        -- drop the oldest
        eqPush { a with spool := { a.spool with
          ring := a.spool.ring.advance 1, drops := a.spool.drops + 1 } }
          .spoolDrop (ascii "full") 0 0
      else a
    ({ a with spool := { a.spool with ring := a.spool.ring.put (line.take n) } }, 0)

@[simp] theorem spoolPushLine_flow (a : CpeAgent) (line : CStr) :
    (a.spoolPushLine line).1.flow = a.flow := by
  unfold spoolPushLine
  split
  · rfl
  · dsimp only
    split
    · exact eqPush_flow _ _ _ _ _
    · rfl

@[simp] theorem spoolPushLine_cfg (a : CpeAgent) (line : CStr) :
    (a.spoolPushLine line).1.cfg = a.cfg := by
  unfold spoolPushLine
  split
  · rfl
  · dsimp only
    split
    · exact eqPush_cfg _ _ _ _ _
    · rfl

@[simp] theorem spoolPushLine_tcp (a : CpeAgent) (line : CStr) :
    (a.spoolPushLine line).1.tcp = a.tcp := by
  unfold spoolPushLine
  split
  · rfl
  · dsimp only
    split
    · exact eqPush_tcp _ _ _ _ _
    · rfl

def Spools (a : CpeAgent) : Prop := a.spool.mem = true ∧ a.spool.ring.cap ≠ 0

instance (a : CpeAgent) : Decidable a.Spools := inferInstanceAs (Decidable (_ ∧ _))

theorem spoolPushLine_of_spools {a : CpeAgent} (h : a.Spools) (line : CStr) :
    (a.spoolPushLine line).2 = 0 ∧ (a.spoolPushLine line).1.Spools := by
  obtain ⟨hmem, hcap⟩ := h
  have hopen : (!a.spool.mem || a.spool.ring.cap == 0) = false := by simp [hmem, hcap]
  rw [spoolPushLine, if_neg (by rw [hopen]; exact Bool.false_ne_true)]
  refine ⟨rfl, ?_⟩
  dsimp only
  split
  · rw [Spools, eqPush_spool]
    exact ⟨hmem, hcap⟩
  · exact ⟨hmem, hcap⟩

theorem spoolPushLine_of_not_spools {a : CpeAgent} (h : ¬ a.Spools) (line : CStr) :
    a.spoolPushLine line = (a, -1) := by
  refine if_pos ?_
  rw [Bool.or_eq_true, Bool.not_eq_true', beq_iff_eq]
  by_contra hopen
  rw [not_or, Bool.not_eq_false] at hopen
  exact h hopen

def pushLines (a : CpeAgent) (lines : List CStr) : CpeAgent :=
  lines.foldl (fun a line ↦ (a.spoolPushLine line).1) a

theorem pushLines_append (a : CpeAgent) (xs ys : List CStr) :
    a.pushLines (xs ++ ys) = (a.pushLines xs).pushLines ys :=
  List.foldl_append

theorem spools_pushLines {a : CpeAgent} (h : a.Spools) (lines : List CStr) :
    (a.pushLines lines).Spools :=
  foldl_invariant (P := Spools) (fun _ line ha ↦ (spoolPushLine_of_spools ha line).2) h lines

/-- `cpe_agent_spool_depth` -/
def spoolDepth (a : CpeAgent) : ℕ := a.spool.ring.cnt

/-- `cpe_agent_spool_drops` -/
def spoolDrops (a : CpeAgent) : ℕ := a.spool.drops

/-- The loop of `cpe_agent_spool_flush`, with the lines written so far; the flag tells whether it
reached the end of the ring. -/
def flushLoop (write : ℕ → Bool) : ℕ → Ring CStr → List CStr → Ring CStr × List CStr × Bool
  | 0, r, out => (r, out, true)
  | n + 1, r, out =>
    if write out.length then flushLoop write n (r.advance 1) (out ++ [r.cells r.head])
    else (r, out, false)

/-- `cpe_agent_spool_flush`, with the lines that were written. -/
def spoolFlush (a : CpeAgent) (sink : Sink) : CpeAgent × ℤ × List CStr :=
  if !a.spool.mem then (a, -1, [])
  else
    let (r, out, ok) := flushLoop sink.write a.spool.ring.cnt a.spool.ring []
    let a := { a with spool := { a.spool with ring := r } }
    if !ok then (a, -1, out)
    else if !sink.flush then (a, -1, out)
    else (a, out.length, out)

/-- The copy loop of the HTTP branch: the body, and the number of lines in it. -/
def batchLoop (r : Ring CStr) : ℕ → ℕ → CStr → CStr × ℕ
  | 0, i, body => (body, i)
  | k + 1, i, body =>
    if body.length + cpeNdjsonLineMax < 8 * cpeNdjsonLineMax then
      let line := r.cells ((r.head + i) % r.cap)
      if 8 * cpeNdjsonLineMax ≤ body.length + line.length + 2 then (body, i)
      else batchLoop r k (i + 1) (body ++ line ++ [10])
    else (body, i)

/-- An optional string argument: NULL when the field is empty. -/
def orNull (s : CStr) : Option CStr := if s = [] then none else some s

/-- The request the HTTP branch posts, for a given body. -/
def emitRequest (a : CpeAgent) (body : CStr) : HttpRequest where
  url := a.cfg.httpsUrl
  body := body
  opts :=
    { username := orNull a.cfg.egressUser
      password := a.cfg.egressPassword
      caFile := orNull a.cfg.tlsCaFile
      certFile := orNull a.cfg.tlsCertFile
      keyFile := orNull a.cfg.tlsKeyFile
      tlsInsecure := a.cfg.egressTlsInsecure }

/-- The HTTP branch of `cpe_agent_emit_flush`, with the lines that were posted. -/
def emitHttp (a : CpeAgent) (post : HttpRequest → Bool) : CpeAgent × ℤ × List CStr :=
  if a.spool.ring.cnt = 0 then (a, 0, [])
  else
    let (body, n) := batchLoop a.spool.ring a.spool.ring.cnt 0 []
    if n = 0 then (a, -1, [])
    else if !post (a.emitRequest body) then (a, -1, [])
    else
      ({ a with spool := { a.spool with ring := a.spool.ring.advance n } }, n,
        a.spool.ring.contents.take n)

/-- The file branch of `cpe_agent_emit_flush`. -/
def emitFile (a : CpeAgent) (fopen : Bool) (sink : Sink) : CpeAgent × ℤ × List CStr :=
  if a.cfg.spoolPath = [] then (a, -1, [])
  else if !fopen then (a, -1, [])
  else
    let (a, n, out) := a.spoolFlush sink
    if !sink.close && 0 ≤ n then (a, -1, out) else (a, n, out)

/-- `cpe_agent_emit_flush`, with the lines handed to the transport. -/
def emitFlush (a : CpeAgent) (env : EmitEnv) : CpeAgent × ℤ × List CStr :=
  if a.cfg.emitMode = ascii "https" ∨ a.cfg.emitMode = ascii "http" then a.emitHttp env.post
  else if a.cfg.emitMode = ascii "spool" then a.emitFile env.fopen env.sink
  else a.spoolFlush env.sink

end CpeAgent

end NetForensics
