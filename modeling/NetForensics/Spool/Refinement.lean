import NetForensics.Agent.Spool
import NetForensics.Util.DropQueue

/-!
# The spool as a bounded queue

The ring of spooled lines against `DropQueue`. `spoolSpec` says what each operation does to the
queue; `Represents.step` that the code does it, and `Represents.run` that this stays so over every
interleaving of pushes, flushes and posts at one capacity.
-/

namespace NetForensics

/-! ## The queue-level operations -/

/-- How many of the next `n` lines of a flush are written before one fails, when `i` were written
already. -/
def written (write : ℕ → Bool) : ℕ → ℕ → ℕ
  | _, 0 => 0
  | i, n + 1 => if write i then written write (i + 1) n + 1 else 0

/-- How many lines fit into a batch that already has `len` bytes. -/
def batchSize : ℕ → List CStr → ℕ
  | _, [] => 0
  | len, line :: lines =>
    if len + cpeNdjsonLineMax < 8 * cpeNdjsonLineMax then
      if 8 * cpeNdjsonLineMax ≤ len + line.length + 2 then 0
      else batchSize (len + line.length + 1) lines + 1
    else 0

/-- Newline-terminated lines, as a flush writes them and a batch holds them. -/
def ndjson (lines : List CStr) : CStr := lines.flatMap (· ++ [10])

/-- The operations on a spool of fixed capacity, with the outcomes of the calls they make. -/
inductive SpoolOp where
  | push (line : CStr)
  | flush (sink : Sink)
  | post (accepts : HttpRequest → Bool)

/-- One operation on the agent, with the lines it handed on. -/
def CpeAgent.spoolStep (a : CpeAgent) : SpoolOp → CpeAgent × List CStr
  | .push line => ((a.spoolPushLine line).1, [])
  | .flush sink => ((a.spoolFlush sink).1, (a.spoolFlush sink).2.2)
  | .post accepts => ((a.emitHttp accepts).1, (a.emitHttp accepts).2.2)

/-- The same operation on the queue; `request` is how the agent wraps a body. -/
def spoolSpec (cap : ℕ) (request : CStr → HttpRequest) (q : DropQueue CStr) :
    SpoolOp → DropQueue CStr × List CStr
  | .push line => (q.push cap (line.take 767), [])
  | .flush sink =>
    let n := written sink.write 0 q.items.length
    (q.serve n, q.items.take n)
  | .post accepts =>
    let n := batchSize 0 q.items
    if accepts (request (ndjson (q.items.take n))) then (q.serve n, q.items.take n) else (q, [])

def CpeAgent.spoolRun : CpeAgent → List SpoolOp → CpeAgent × List CStr
  | a, [] => (a, [])
  | a, op :: ops =>
    let rest := (a.spoolStep op).1.spoolRun ops
    (rest.1, (a.spoolStep op).2 ++ rest.2)

def spoolSpecRun (cap : ℕ) (request : CStr → HttpRequest) :
    DropQueue CStr → List SpoolOp → DropQueue CStr × List CStr
  | q, [] => (q, [])
  | q, op :: ops =>
    let rest := spoolSpecRun cap request (spoolSpec cap request q op).1 ops
    (rest.1, (spoolSpec cap request q op).2 ++ rest.2)

def pushedLines (ops : List SpoolOp) : List CStr :=
  ops.filterMap fun
    | .push line => some (line.take 767)
    | _ => none

namespace CpeAgent

/-! ## Loops -/

theorem written_le (write : ℕ → Bool) (i n : ℕ) : written write i n ≤ n := by
  induction n generalizing i with
  | zero => exact le_rfl
  | succ n ih =>
    rw [written]
    split
    · exact Nat.succ_le_succ (ih (i + 1))
    · exact Nat.zero_le _

/-- The flush loop hands on the lines before the first failure, in order, and keeps the rest. -/
theorem flushLoop_spec (write : ℕ → Bool) (n : ℕ) {r : Ring CStr} {l : List CStr} (h : r.Holds l)
    (hn : n = l.length) (out : List CStr) :
    ((flushLoop write n r out).1.Holds (l.drop (written write out.length n)) ∧
      (flushLoop write n r out).1.cap = r.cap) ∧
    (flushLoop write n r out).2.1 = out ++ l.take (written write out.length n) := by
  induction n generalizing r l out with
  | zero =>
    have hl : l = [] := List.length_eq_zero_iff.mp hn.symm
    rw [flushLoop, written]
    exact ⟨⟨h, rfl⟩, by simp⟩
  | succ n ih =>
    rw [flushLoop, written]
    by_cases hw : write out.length = true
    · rw [if_pos hw, if_pos hw]
      have hpos : 0 < r.cnt := by rw [h.cnt_eq, ← hn]; exact Nat.succ_pos n
      -- the line at the head is the front of the queue; the loop goes on with the rest
      have hcons : l = r.cells r.head :: l.drop 1 := by
        have hc := Ring.contents_eq_cons h.valid hpos
        rwa [Ring.contents_advance hpos, h.contents_eq] at hc
      have hlen : n = (l.drop 1).length := by rw [List.length_drop, ← hn, Nat.add_sub_cancel]
      have hrest := ih (h.advance hpos) hlen (out ++ [r.cells r.head])
      rw [List.length_append, List.length_singleton] at hrest
      refine ⟨⟨?_, hrest.1.2⟩, ?_⟩
      · have hdrop := hrest.1.1
        rwa [List.drop_drop, Nat.add_comm 1] at hdrop
      · rw [hrest.2, List.append_assoc, List.singleton_append, ← List.take_succ_cons, ← hcons]
    · rw [if_neg hw, if_neg hw]
      exact ⟨⟨h, rfl⟩, by simp⟩

/-- The copy loop of a post computes a batch of the queue. -/
theorem batchLoop_spec (r : Ring CStr) (k i : ℕ) (hk : i + k = r.cnt) (body : CStr) :
    batchLoop r k i body
      = (body ++ ndjson ((r.contents.drop i).take (batchSize body.length (r.contents.drop i))),
          i + batchSize body.length (r.contents.drop i)) := by
  induction k generalizing i body with
  | zero =>
    have hnil : r.contents.drop i = [] := List.drop_eq_nil_of_le (by
      rw [Ring.length_contents]
      omega)
    rw [batchLoop, hnil, batchSize]
    simp [ndjson]
  | succ k ih =>
    rw [batchLoop, Ring.drop_contents (by omega), batchSize]
    dsimp only
    split
    · split
      · simp [ndjson]
      · have hrest := ih (i + 1) (by omega)
          (body ++ r.cells ((r.head + i) % r.cap) ++ [10])
        rw [hrest, List.take_succ_cons]
        simp [ndjson, Nat.add_assoc, Nat.add_comm 1]
    · simp [ndjson]

/-! ## Simulation -/

/-- The agent's ring has capacity `cap` and stands for the queue. -/
structure Represents (cap : ℕ) (a : CpeAgent) (q : DropQueue CStr) : Prop where
  mem : a.spool.mem = true
  cap_eq : a.spool.ring.cap = cap
  holds : a.spool.ring.Holds q.items
  drops_eq : a.spool.drops = q.drops

variable {cap : ℕ} {a : CpeAgent} {q : DropQueue CStr}

theorem Represents.push (h : a.Represents cap q) (line : CStr) :
    (a.spoolPushLine line).1.Represents cap (q.push cap (line.take 767)) := by
  have hcap : (a.spool.ring.cap == 0) = false := by
    rw [beq_eq_false_iff_ne]
    exact h.holds.valid.cap_pos.ne'
  have hcut : line.take (if cpeNdjsonLineMax ≤ line.length then cpeNdjsonLineMax - 1
      else line.length) = line.take 767 := by
    rw [List.take_eq_take_iff, cpeNdjsonLineMax]
    split <;> omega
  have hring := h.holds.push (line.take 767) q.drops
  rw [h.cap_eq] at hring
  have hfull : cap ≤ a.spool.ring.cnt ↔ ¬ q.items.length < cap := by
    rw [h.holds.cnt_eq, Nat.not_lt]
  rw [spoolPushLine, h.mem, hcap]
  simp only [Bool.not_true, Bool.or_self, Bool.false_eq_true, if_false, hcut, h.cap_eq]
  by_cases hc : cap ≤ a.spool.ring.cnt
  · rw [if_pos hc] at hring ⊢
    rw [DropQueue.push, if_neg (hfull.mp hc)] at hring ⊢
    simp only [eqPush_spool]
    exact ⟨h.mem, h.cap_eq, hring, congrArg (· + 1) h.drops_eq⟩
  · rw [if_neg hc] at hring ⊢
    rw [DropQueue.push, if_pos (not_not.mp (mt hfull.mpr hc))] at hring ⊢
    exact ⟨h.mem, h.cap_eq, hring, h.drops_eq⟩

theorem spoolFlush_ring (hmem : a.spool.mem = true) (sink : Sink) :
    (a.spoolFlush sink).1 = { a with spool := { a.spool with
      ring := (flushLoop sink.write a.spool.ring.cnt a.spool.ring []).1 } } := by
  rw [spoolFlush, hmem]
  simp only [Bool.not_true, Bool.false_eq_true, if_false]
  split
  · rfl
  · split <;> rfl

theorem spoolFlush_out (hmem : a.spool.mem = true) (sink : Sink) :
    (a.spoolFlush sink).2.2 = (flushLoop sink.write a.spool.ring.cnt a.spool.ring []).2.1 := by
  rw [spoolFlush, hmem]
  simp only [Bool.not_true, Bool.false_eq_true, if_false]
  split
  · rfl
  · split <;> rfl

theorem Represents.flush (h : a.Represents cap q) (sink : Sink) :
    (a.spoolFlush sink).1.Represents cap (q.serve (written sink.write 0 q.items.length)) ∧
      (a.spoolFlush sink).2.2 = q.items.take (written sink.write 0 q.items.length) := by
  have hloop := flushLoop_spec sink.write a.spool.ring.cnt h.holds h.holds.cnt_eq []
  rw [List.length_nil, List.nil_append, h.holds.cnt_eq] at hloop
  rw [spoolFlush_ring h.mem, spoolFlush_out h.mem, h.holds.cnt_eq]
  exact ⟨⟨h.mem, hloop.1.2.trans h.cap_eq, hloop.1.1, h.drops_eq⟩, hloop.2⟩

/-- The body and the size of the batch a post of this agent would send. -/
theorem Represents.batch (h : a.Represents cap q) :
    batchLoop a.spool.ring a.spool.ring.cnt 0 []
      = (ndjson (q.items.take (batchSize 0 q.items)), batchSize 0 q.items) := by
  have hloop := batchLoop_spec a.spool.ring a.spool.ring.cnt 0 (Nat.zero_add _) []
  rwa [List.drop_zero, h.holds.contents_eq, List.nil_append, List.length_nil,
    Nat.zero_add] at hloop

theorem batchSize_le (len : ℕ) (l : List CStr) : batchSize len l ≤ l.length := by
  induction l generalizing len with
  | nil => exact le_rfl
  | cons line lines ih =>
    rw [batchSize]
    split
    · split
      · exact Nat.zero_le _
      · exact Nat.succ_le_succ (ih _)
    · exact Nat.zero_le _

theorem Represents.serve (h : a.Represents cap q) {n : ℕ} (hn : n ≤ q.items.length) :
    Represents cap { a with spool := { a.spool with ring := a.spool.ring.advance n } }
      (q.serve n) :=
  ⟨h.mem, h.cap_eq, h.holds.advance (by rwa [h.holds.cnt_eq]), h.drops_eq⟩

theorem Represents.post (h : a.Represents cap q) (accepts : HttpRequest → Bool) :
    (a.emitHttp accepts).1.Represents cap
        (spoolSpec cap a.emitRequest q (.post accepts)).1 ∧
      (a.emitHttp accepts).2.2 = (spoolSpec cap a.emitRequest q (.post accepts)).2 := by
  rw [emitHttp, spoolSpec, h.batch]
  dsimp only
  by_cases hnil : a.spool.ring.cnt = 0
  · have hq : q.items = [] := List.length_eq_zero_iff.mp (h.holds.cnt_eq ▸ hnil)
    rw [if_pos hnil, hq, batchSize, List.take_nil, DropQueue.serve_zero, ite_self]
    exact ⟨h, rfl⟩
  rw [if_neg hnil]
  by_cases hzero : batchSize 0 q.items = 0
  · rw [if_pos hzero, hzero, List.take_zero, DropQueue.serve_zero, ite_self]
    exact ⟨h, rfl⟩
  rw [if_neg hzero]
  cases accepts (a.emitRequest (ndjson (q.items.take (batchSize 0 q.items)))) with
  | false => exact ⟨h, rfl⟩
  | true => exact ⟨h.serve (batchSize_le 0 q.items), by rw [h.holds.contents_eq]; rfl⟩

theorem spoolStep_cfg (a : CpeAgent) (op : SpoolOp) : (a.spoolStep op).1.cfg = a.cfg := by
  cases op with
  | push line => exact spoolPushLine_cfg a line
  | flush sink =>
    unfold spoolStep spoolFlush
    dsimp only
    split_ifs <;> rfl
  | post accepts =>
    unfold spoolStep emitHttp
    dsimp only
    split_ifs <;> rfl

/-- One operation of the agent is the operation of the queue. -/
theorem Represents.step (h : a.Represents cap q) (op : SpoolOp) :
    (a.spoolStep op).1.Represents cap (spoolSpec cap a.emitRequest q op).1 ∧
      (a.spoolStep op).2 = (spoolSpec cap a.emitRequest q op).2 := by
  cases op with
  | push line => exact ⟨h.push line, rfl⟩
  | flush sink => exact h.flush sink
  | post accepts => exact h.post accepts

theorem Represents.run (h : a.Represents cap q) (ops : List SpoolOp) :
    (a.spoolRun ops).1.Represents cap (spoolSpecRun cap a.emitRequest q ops).1 ∧
      (a.spoolRun ops).2 = (spoolSpecRun cap a.emitRequest q ops).2 := by
  induction ops generalizing a q with
  | nil => exact ⟨h, rfl⟩
  | cons op ops ih =>
    have hstep := h.step op
    have hrest := ih hstep.1
    have hreq : (a.spoolStep op).1.emitRequest = a.emitRequest := by
      funext body
      rw [emitRequest, emitRequest, spoolStep_cfg]
    rw [hreq] at hrest
    rw [spoolRun, spoolSpecRun]
    exact ⟨hrest.1, by rw [hstep.2, hrest.2]⟩

end CpeAgent

/-! ## Histories of the queue -/

variable {cap d : ℕ} {pushed served : List CStr} {q : DropQueue CStr}

theorem accounts_spoolSpec (hcap : 0 < cap) (request : CStr → HttpRequest)
    (h : q.Accounts d pushed served) (op : SpoolOp) :
    (spoolSpec cap request q op).1.Accounts d (pushed ++ pushedLines [op])
      (served ++ (spoolSpec cap request q op).2) := by
  cases op with
  | push line =>
    rw [spoolSpec, List.append_nil]
    exact h.push hcap _
  | flush sink =>
    rw [spoolSpec, pushedLines, List.filterMap_cons_none rfl, List.filterMap_nil, List.append_nil]
    exact h.serve _
  | post accepts =>
    rw [spoolSpec, pushedLines, List.filterMap_cons_none rfl, List.filterMap_nil, List.append_nil]
    split
    · exact h.serve _
    · rwa [List.append_nil]

theorem accounts_spoolSpecRun (hcap : 0 < cap) (request : CStr → HttpRequest)
    (h : q.Accounts d pushed served) (ops : List SpoolOp) :
    (spoolSpecRun cap request q ops).1.Accounts d (pushed ++ pushedLines ops)
      (served ++ (spoolSpecRun cap request q ops).2) := by
  induction ops generalizing pushed served q with
  | nil =>
    rw [spoolSpecRun, List.append_nil]
    exact (List.append_nil pushed).symm ▸ h
  | cons op ops ih =>
    have hrest := ih (accounts_spoolSpec hcap request h op)
    have hpushed : pushedLines (op :: ops) = pushedLines [op] ++ pushedLines ops := by
      rw [pushedLines, pushedLines, pushedLines, ← List.filterMap_append, List.singleton_append]
    rw [spoolSpecRun, hpushed, ← List.append_assoc, ← List.append_assoc]
    exact hrest

/-! ## The refinement -/

namespace CpeAgent

theorem emitHttp_of_failed {a : CpeAgent} {accepts : HttpRequest → Bool}
    (h : (a.emitHttp accepts).2.1 = -1) : (a.emitHttp accepts).1 = a := by
  revert h
  unfold emitHttp
  dsimp only
  split_ifs <;> intro h
  · rfl
  · rfl
  · rfl
  · exact absurd h (by simp)

/-- From a freshly allocated ring of capacity `cap`, in every run of pushes, flushes and posts: the
indices agree, the ring reads as the bounded drop-oldest queue, every batch is the front of that
queue, and the lines handed on and the lines left are pushed lines, each once and in order. -/
theorem spoolRun_refines (a : CpeAgent) (cells : ℕ → CStr) (cap : ℕ) (hcap : 0 < cap)
    (hmem : a.spool.mem = true) (hring : a.spool.ring = ⟨cells, cap, 0, 0, 0⟩)
    (ops : List SpoolOp) :
    let a' := (a.spoolRun ops).1
    let q := (spoolSpecRun cap a.emitRequest ⟨[], a.spool.drops⟩ ops).1
    (a'.spool.ring.cap = cap ∧ a'.spool.ring.cnt ≤ cap ∧
        a'.spool.ring.tail = (a'.spool.ring.head + a'.spool.ring.cnt) % cap) ∧
      (a'.spool.ring.contents = q.items ∧ a'.spool.drops = q.drops ∧
        (a.spoolRun ops).2 = (spoolSpecRun cap a.emitRequest ⟨[], a.spool.drops⟩ ops).2) ∧
      (batchLoop a'.spool.ring a'.spool.ring.cnt 0 []
          = (ndjson (q.items.take (batchSize 0 q.items)), batchSize 0 q.items) ∧
        ∀ accepts, (a'.emitHttp accepts).2.1 = -1 → (a'.emitHttp accepts).1 = a') ∧
      List.Sublist ((a.spoolRun ops).2 ++ a'.spool.ring.contents) (pushedLines ops) ∧
      (pushedLines ops).length + a.spool.drops
        = (a.spoolRun ops).2.length + a'.spool.ring.contents.length + a'.spool.drops := by
  intro a' q
  have hstart : a.Represents cap ⟨[], a.spool.drops⟩ :=
    ⟨hmem, by rw [hring], hring ▸ Ring.holds_nil cells hcap, rfl⟩
  obtain ⟨hrep, hout⟩ := hstart.run ops
  have hacc := accounts_spoolSpecRun hcap a.emitRequest
    (DropQueue.accounts_nil a.spool.drops) ops
  rw [List.nil_append, List.nil_append, ← hout] at hacc
  have htail := hrep.holds.valid.tail_eq
  have hcnt := hrep.holds.valid.cnt_le
  rw [hrep.cap_eq] at htail hcnt
  refine ⟨⟨hrep.cap_eq, hcnt, htail⟩, ⟨hrep.holds.contents_eq, hrep.drops_eq, hout⟩,
    ⟨hrep.batch, fun _ ↦ emitHttp_of_failed⟩, ?_, ?_⟩
  · rw [hrep.holds.contents_eq]
    exact hacc.sublist
  · rw [hrep.holds.contents_eq, hrep.drops_eq]
    exact hacc.length_eq

/-- Two lines, and a sink that fails at the second: the first is out, the second still queued. -/
theorem spoolRun_refines_create :
    (create.spoolRun [.push (ascii "up"), .push (ascii "down"),
        .flush ⟨fun k ↦ k == 0, true, true⟩]).1.spool.ring.contents = [ascii "down"] := by
  have h := spoolRun_refines create (fun _ ↦ []) 256 (by decide) rfl rfl
    [.push (ascii "up"), .push (ascii "down"), .flush ⟨fun k ↦ k == 0, true, true⟩]
  rw [h.2.1.1]
  rfl

end CpeAgent

end NetForensics
