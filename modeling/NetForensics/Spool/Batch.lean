import NetForensics.Egress.Transport
import NetForensics.Spool.Refinement
import NetForensics.Util.Loop
import NetForensics.Util.Writes

/-!
# The body of a post

The HTTP branch of `cpe_agent_emit_flush` copies lines of the ring into a buffer of eight lines on
its stack. Two bounds guard that buffer: no line is begun unless one of full length has room, and
none is copied that would not leave room for its newline and the terminator. Here the copy loop is
run over the memory itself, with every write checked: it stays inside and computes the batch of
`batchLoop`, which is never empty and leaves only little of the buffer unused.
-/

namespace NetForensics

/-! ## The copy loop over its buffer -/

/-- `sizeof(body)` -/
def bodySize : ℕ := 8 * cpeNdjsonLineMax

/-- The variables of the copy loop. -/
structure BatchState where
  i : ℕ
  n : ℕ
  bodyLen : ℕ
  body : List UInt8

/-- Before the loop: an empty text in memory that held anything. -/
def batchStart (mem : List UInt8) : BatchState := ⟨0, 0, 0, mem.set 0 0⟩

/-- The three writes of a turn: the line, its newline and the terminator. -/
def copyLine (body : List UInt8) (bodyLen : ℕ) (line : CStr) : Option (List UInt8) :=
  (writeSlice body bodyLen line).bind fun body ↦
    (writeSlice body (bodyLen + line.length) [10]).bind fun body ↦
      writeSlice body (bodyLen + line.length + 1) [0]

/-- One turn of the copy loop. -/
def batchStep (r : Ring CStr) (s : BatchState) : Option (Turn BatchState) :=
  if s.i < r.cnt ∧ s.bodyLen + cpeNdjsonLineMax < bodySize then
    let line := r.cells ((r.head + s.i) % r.cap)
    if bodySize ≤ s.bodyLen + line.length + 2 then some (.stop s)
    else
      (copyLine s.body s.bodyLen line).map fun body ↦
        .go ⟨s.i + 1, s.n + 1, s.bodyLen + line.length + 1, body⟩
  else some (.stop s)

/-- The first `i` lines have been copied, and a terminator behind them. -/
structure BatchState.Copied (r : Ring CStr) (s : BatchState) : Prop where
  le : s.i ≤ r.cnt
  n_eq : s.n = s.i
  bodyLen_eq : s.bodyLen = (ndjson (r.contents.take s.i)).length
  text : ndjson (r.contents.take s.i) ++ [0] <+: s.body
  size : s.body.length = bodySize

variable {r : Ring CStr} {s : BatchState}

theorem ndjson_append (xs ys : List CStr) : ndjson (xs ++ ys) = ndjson xs ++ ndjson ys :=
  List.flatMap_append

theorem ndjson_singleton (line : CStr) : ndjson [line] = line ++ [10] :=
  List.flatMap_singleton _ line

theorem BatchState.Copied.bodyLen_lt (h : s.Copied r) : s.bodyLen < bodySize := by
  have hle := h.text.length_le
  rw [List.length_append, List.length_singleton, ← h.bodyLen_eq, h.size] at hle
  exact hle

theorem copied_batchStart (r : Ring CStr) {mem : List UInt8} (h : mem.length = bodySize) :
    (batchStart mem).Copied r where
  le := Nat.zero_le _
  n_eq := rfl
  bodyLen_eq := by
    rw [batchStart, List.take_zero]
    rfl
  text := by
    rw [batchStart, List.take_zero]
    cases mem with
    | nil => exact absurd h (by decide)
    | cons b mem => exact ⟨mem, rfl⟩
  size := by rw [batchStart, List.length_set, h]

/-- The line at index `i` is the next of the ring's contents. -/
theorem take_contents_succ {i : ℕ} (h : i < r.cnt) :
    r.contents.take (i + 1) = r.contents.take i ++ [r.cells ((r.head + i) % r.cap)] := by
  rw [List.take_add, Ring.drop_contents h]
  rfl

theorem exists_copyLine {text line mem : CStr} (htext : text <+: mem)
    (h : text.length + line.length + 2 ≤ mem.length) :
    ∃ mem', copyLine mem text.length line = some mem' ∧ text ++ (line ++ [10]) ++ [0] <+: mem' ∧
      mem'.length = mem.length := by
  have hline : text.length + line.length = (text ++ line).length := by rw [List.length_append]
  have hnewline : text.length + line.length + 1 = (text ++ line ++ [10]).length := by
    rw [List.length_append, ← hline, List.length_singleton]
  obtain ⟨m₁, hwrite₁, htext₁, hsize₁⟩ := exists_writeSlice htext line (by omega)
  obtain ⟨m₂, hwrite₂, htext₂, hsize₂⟩ := exists_writeSlice htext₁ [10] (by
    rw [← hline, List.length_singleton]
    omega)
  obtain ⟨m₃, hwrite₃, htext₃, hsize₃⟩ := exists_writeSlice htext₂ [0] (by
    rw [← hnewline, List.length_singleton]
    omega)
  refine ⟨m₃, ?_, ?_, by rw [hsize₃, hsize₂, hsize₁]⟩
  · rw [copyLine, hwrite₁, Option.bind_some, hline, hwrite₂, Option.bind_some, ← hline, hnewline,
      hwrite₃]
  · rwa [← List.append_assoc text]

/-- A turn copies the next line, if the batch has one more, and else it stops. -/
theorem batchStep_copied (h : s.Copied r) :
    (∃ t, batchStep r s = some (.go t) ∧ t.Copied r ∧ t.i = s.i + 1 ∧ s.i < r.cnt ∧
        batchSize s.bodyLen (r.contents.drop s.i)
          = batchSize t.bodyLen (r.contents.drop t.i) + 1) ∨
      (batchStep r s = some (.stop s) ∧ batchSize s.bodyLen (r.contents.drop s.i) = 0) := by
  rw [batchStep]
  by_cases hi : s.i < r.cnt
  · rw [Ring.drop_contents hi, batchSize, ← bodySize]
    by_cases hroom : s.bodyLen + cpeNdjsonLineMax < bodySize
    · rw [if_pos ⟨hi, hroom⟩, if_pos hroom]
      dsimp only
      have hnext := take_contents_succ hi
      generalize r.cells ((r.head + s.i) % r.cap) = line at *
      by_cases hfull : bodySize ≤ s.bodyLen + line.length + 2
      · rw [if_pos hfull, if_pos hfull]
        exact Or.inr ⟨rfl, rfl⟩
      · rw [if_neg hfull, if_neg hfull]
        have hfit : (ndjson (r.contents.take s.i)).length + line.length + 2 ≤ s.body.length := by
          rw [← h.bodyLen_eq, h.size]
          omega
        obtain ⟨body, hcopy, htext, hsize⟩ :=
          exists_copyLine ((List.prefix_append _ _).trans h.text) hfit
        rw [← ndjson_singleton, ← ndjson_append, ← hnext] at htext
        refine Or.inl ⟨⟨s.i + 1, s.n + 1, s.bodyLen + line.length + 1, body⟩, ?_,
          ⟨hi, congrArg (· + 1) h.n_eq, ?_, htext, hsize.trans h.size⟩, rfl, hi, rfl⟩
        · rw [h.bodyLen_eq, hcopy, Option.map_some]
        · rw [hnext, ndjson_append, ndjson_singleton, List.length_append, List.length_append,
            ← h.bodyLen_eq]
          rfl
    · rw [if_neg fun hboth ↦ hroom hboth.2, if_neg hroom]
      exact Or.inr ⟨rfl, rfl⟩
  · have hnil : r.contents.drop s.i = [] := List.drop_eq_nil_of_le (by
      rw [Ring.length_contents]
      exact Nat.le_of_not_lt hi)
    rw [if_neg fun hboth ↦ hi hboth.1, hnil]
    exact Or.inr ⟨rfl, rfl⟩

theorem BatchState.Copied.step (h : s.Copied r) {t : BatchState}
    (ht : batchStep r s = some (.go t)) : t.Copied r := by
  rcases batchStep_copied h with ⟨u, hgo, hu, -⟩ | ⟨hstop, -⟩
  · rw [hgo] at ht
    exact Turn.go.inj (Option.some_inj.mp ht) ▸ hu
  · rw [hstop] at ht
    exact nomatch ht

theorem BatchState.Copied.ne_none (h : s.Copied r) : batchStep r s ≠ none := by
  rcases batchStep_copied h with ⟨u, hgo, -⟩ | ⟨hstop, -⟩
  · rw [hgo]
    exact Option.some_ne_none _
  · rw [hstop]
    exact Option.some_ne_none _

theorem BatchState.Copied.ends (h : s.Copied r) :
    ∃ t, Ends (batchStep r) s t ∧ t.Copied r ∧
      t.i = s.i + batchSize s.bodyLen (r.contents.drop s.i) := by
  induction hm : r.cnt - s.i using Nat.strong_induction_on generalizing s with
  | _ m ih =>
    rcases batchStep_copied h with ⟨u, hgo, hu, hi, hlt, hsize⟩ | ⟨hstop, hzero⟩
    · obtain ⟨t, ⟨fuel, hends⟩, ht, heq⟩ := ih (r.cnt - u.i) (by omega) hu rfl
      refine ⟨t, ⟨fuel + 1, by rwa [loop_of_go hgo]⟩, ht, ?_⟩
      rw [heq, hsize, hi]
      omega
    · exact ⟨s, ⟨1, loop_of_stop hstop 0⟩, h, by rw [hzero, Nat.add_zero]⟩

/-! ## The size of a batch -/

theorem batchSize_pos {lines : List CStr} (hne : lines ≠ [])
    (h : ∀ line ∈ lines, line.length ≤ 767) : 0 < batchSize 0 lines := by
  cases lines with
  | nil => exact absurd rfl hne
  | cons line lines =>
    have hline := h line List.mem_cons_self
    have hempty : 0 + cpeNdjsonLineMax < 8 * cpeNdjsonLineMax := by decide
    rw [batchSize, if_pos hempty, if_neg (by rw [cpeNdjsonLineMax]; omega)]
    exact Nat.succ_pos _

/-- A batch that leaves lines behind leaves at most 769 bytes unused. -/
theorem batchSize_maximal {lines : List CStr} (h : ∀ line ∈ lines, line.length ≤ 767) (len : ℕ) :
    batchSize len lines = lines.length ∨
      bodySize ≤ len + (ndjson (lines.take (batchSize len lines))).length + 769 := by
  induction lines generalizing len with
  | nil => exact Or.inl rfl
  | cons line lines ih =>
    have hline := h line List.mem_cons_self
    rw [batchSize, ← bodySize]
    by_cases hroom : len + cpeNdjsonLineMax < bodySize
    · rw [if_pos hroom]
      by_cases hfull : bodySize ≤ len + line.length + 2
      · rw [if_pos hfull, List.take_zero]
        exact Or.inr (by omega)
      · rw [if_neg hfull]
        rcases ih (fun l hl ↦ h l (List.mem_cons_of_mem line hl)) (len + line.length + 1)
          with hall | hmost
        · exact Or.inl (congrArg (· + 1) hall)
        · refine Or.inr ?_
          rw [List.take_succ_cons, ← List.singleton_append, ndjson_append, ndjson_singleton,
            List.length_append, List.length_append, List.length_singleton]
          omega
    · rw [if_neg hroom, List.take_zero]
      rw [cpeNdjsonLineMax] at hroom
      exact Or.inr (by omega)

/-- The copy loop makes a batch of the first `n` lines. -/
structure CopiesBatch (r : Ring CStr) (mem : List UInt8) (n : ℕ) : Prop where
  pos : 0 < n
  le : n ≤ r.cnt
  /-- No write leaves the buffer, and the length stays below its size. -/
  inside : ∀ s, Reaches (batchStep r) (batchStart mem) s → batchStep r s ≠ none ∧
    s.bodyLen < bodySize
  /-- The body is the text of the lines, each with a newline. -/
  ends : ∃ t, Ends (batchStep r) (batchStart mem) t ∧ t.n = n ∧
    t.bodyLen = (ndjson (r.contents.take n)).length ∧
    t.body.take t.bodyLen = ndjson (r.contents.take n)
  /-- A line is left behind only when there may be no room for it. -/
  maximal : n = r.cnt ∨ bodySize - (ndjson (r.contents.take n)).length ≤ 769

theorem copiesBatch (hcnt : r.cnt ≠ 0) (hlines : ∀ line ∈ r.contents, line.length ≤ 767)
    {mem : List UInt8} (hmem : mem.length = bodySize) :
    CopiesBatch r mem (batchSize 0 r.contents) where
  pos := by
    refine batchSize_pos (fun hnil ↦ hcnt ?_) hlines
    rw [← Ring.length_contents, hnil, List.length_nil]
  le := by
    rw [← Ring.length_contents]
    exact CpeAgent.batchSize_le 0 r.contents
  inside := by
    intro s hs
    have hcopied := hs.invariant (P := BatchState.Copied r) (fun _ _ h ht ↦ h.step ht)
      (copied_batchStart r hmem)
    exact ⟨hcopied.ne_none, hcopied.bodyLen_lt⟩
  ends := by
    obtain ⟨t, hends, ht, hi⟩ := (copied_batchStart r hmem).ends
    have hn : t.i = batchSize 0 r.contents := by
      rw [hi, batchStart, List.drop_zero, Nat.zero_add]
    have htext := ht.text
    have hlen := ht.bodyLen_eq
    rw [hn] at htext hlen
    refine ⟨t, hends, ht.n_eq.trans hn, hlen, ?_⟩
    rw [hlen]
    exact (List.prefix_iff_eq_take.mp ((List.prefix_append _ _).trans htext)).symm
  maximal := by
    rcases batchSize_maximal hlines 0 with hall | hmost
    · exact Or.inl (hall.trans r.length_contents)
    · exact Or.inr (by omega)

/-! ## The flush -/

namespace CpeAgent

def Posts (a : CpeAgent) : Prop :=
  a.cfg.emitMode = ascii "https" ∨ a.cfg.emitMode = ascii "http"

def flushes (a : CpeAgent) (envs : ℕ → EmitEnv) : ℕ → CpeAgent
  | 0 => a
  | k + 1 => ((a.flushes envs k).emitFlush (envs k)).1

variable {a : CpeAgent}

/-- What a flush does with a batch: it posts it, and drops it when the post succeeds. -/
theorem emitFlush_eq (hmode : a.Posts) (hcnt : a.spool.ring.cnt ≠ 0)
    (hpos : 0 < batchSize 0 a.spool.ring.contents) (env : EmitEnv) :
    a.emitFlush env =
      if env.post (a.emitRequest
          (ndjson (a.spool.ring.contents.take (batchSize 0 a.spool.ring.contents)))) then
        ({ a with spool := { a.spool with
            ring := a.spool.ring.advance (batchSize 0 a.spool.ring.contents) } },
          (batchSize 0 a.spool.ring.contents : ℤ),
          a.spool.ring.contents.take (batchSize 0 a.spool.ring.contents))
      else (a, -1, []) := by
  have hbatch := batchLoop_spec a.spool.ring a.spool.ring.cnt 0 (Nat.zero_add _) []
  rw [List.drop_zero, List.nil_append, List.length_nil, Nat.zero_add] at hbatch
  have hflush : a.emitFlush env = a.emitHttp env.post := if_pos hmode
  rw [hflush, emitHttp, if_neg hcnt, hbatch]
  dsimp only
  rw [if_neg hpos.ne']
  cases env.post (a.emitRequest
    (ndjson (a.spool.ring.contents.take (batchSize 0 a.spool.ring.contents)))) with
  | true => rfl
  | false => rfl

def LinesFit (a : CpeAgent) : Prop := ∀ line ∈ a.spool.ring.contents, line.length ≤ 767

theorem LinesFit.batchSize_pos (h : a.LinesFit) (hcnt : a.spool.ring.cnt ≠ 0) :
    0 < batchSize 0 a.spool.ring.contents :=
  NetForensics.batchSize_pos (fun hnil ↦ hcnt (by
    rw [← Ring.length_contents, hnil, List.length_nil])) h

/-- A successful flush leaves a shorter ring of the same kind. -/
theorem emitFlush_succeeds (hmode : a.Posts) (h : a.LinesFit) (hcnt : a.spool.ring.cnt ≠ 0)
    {env : EmitEnv} (hpost : ∀ req, env.post req = true) :
    (a.emitFlush env).1.Posts ∧ (a.emitFlush env).1.LinesFit ∧
      (a.emitFlush env).1.spool.ring.cnt < a.spool.ring.cnt := by
  have hpos := h.batchSize_pos hcnt
  have hle := batchSize_le 0 a.spool.ring.contents
  rw [Ring.length_contents] at hle
  rw [emitFlush_eq hmode hcnt hpos, if_pos (hpost _)]
  refine ⟨hmode, ?_, ?_⟩
  · intro line hline
    have hmem : line ∈ a.spool.ring.contents.drop (batchSize 0 a.spool.ring.contents) :=
      Ring.contents_advance hle ▸ hline
    exact h line (List.mem_of_mem_drop hmem)
  · rw [Ring.advance_cnt]
    omega

theorem flushes_drain (hmode : a.Posts) (h : a.LinesFit) {envs : ℕ → EmitEnv}
    (hpost : ∀ k req, (envs k).post req = true) :
    ∃ k, (a.flushes envs k).spool.ring.cnt = 0 := by
  by_contra hnever
  have hcnt : ∀ k, (a.flushes envs k).spool.ring.cnt ≠ 0 := not_exists.mp hnever
  have hkeep : ∀ k, (a.flushes envs k).Posts ∧ (a.flushes envs k).LinesFit ∧
      (a.flushes envs k).spool.ring.cnt + k ≤ a.spool.ring.cnt := by
    intro k
    induction k with
    | zero => exact ⟨hmode, h, le_rfl⟩
    | succ k ih =>
      obtain ⟨hmode', h', hlt⟩ := emitFlush_succeeds ih.1 ih.2.1 (hcnt k) (hpost k)
      rw [flushes]
      exact ⟨hmode', h', by omega⟩
  have hpos := hcnt (a.spool.ring.cnt + 1)
  have hlast := (hkeep (a.spool.ring.cnt + 1)).2.2
  omega

/-- For every ring that is not empty, a flush posts the first `n` lines, as many as fit, in a body
that is copied inside its buffer; it drops them if the post succeeds; and while posts succeed, the
ring drains. -/
theorem emitFlush_posts_batch (a : CpeAgent) (hmode : a.Posts) (hcnt : a.spool.ring.cnt ≠ 0)
    (hlines : ∀ line ∈ a.spool.ring.contents, line.length ≤ 767) :
    ∃ n, (∀ mem : List UInt8, mem.length = bodySize → CopiesBatch a.spool.ring mem n) ∧
      (∀ env : EmitEnv, a.emitFlush env =
        if env.post (a.emitRequest (ndjson (a.spool.ring.contents.take n))) then
          ({ a with spool := { a.spool with ring := a.spool.ring.advance n } }, (n : ℤ),
            a.spool.ring.contents.take n)
        else (a, -1, [])) ∧
      ∀ envs : ℕ → EmitEnv, (∀ k req, (envs k).post req = true) →
        ∃ k, (a.flushes envs k).spool.ring.cnt = 0 :=
  ⟨batchSize 0 a.spool.ring.contents, fun _ hmem ↦ copiesBatch hcnt hlines hmem,
    emitFlush_eq hmode hcnt (LinesFit.batchSize_pos hlines hcnt),
    fun _ hpost ↦ flushes_drain hmode hlines hpost⟩

/-- One line in the ring. -/
theorem emitFlush_posts_batch_line :
    ((postingTo "https://h/").Posts ∧ (postingTo "https://h/").spool.ring.contents
        = [ascii "line"]) ∧
      ∃ n, CopiesBatch (postingTo "https://h/").spool.ring (List.replicate bodySize 0) n := by
  have hcontents : (postingTo "https://h/").spool.ring.contents = [ascii "line"] := by decide
  obtain ⟨n, hcopies, -⟩ := emitFlush_posts_batch (postingTo "https://h/") (Or.inl (by decide))
    (by decide) (by
      rw [hcontents]
      decide)
  exact ⟨⟨Or.inl (by decide), hcontents⟩, n, hcopies _ List.length_replicate⟩

end CpeAgent

end NetForensics
