import NetForensics.Query.Response

/-!
# Where the chunk loop reads and writes

The size of a chunk comes from the server and is not compared with what has been received. The loop
stays inside both of its buffers, and ends, exactly when every chunk it comes to has bytes for all
that is copied of it (`Covered`); a size that makes the sum with the offset wrap around is never
covered.
-/

namespace NetForensics

/-! ## The size line -/

variable {w : WordSize} {resp : List UInt8} {outSz : ℕ}

theorem takeSign_suffix (s : CStr) : (takeSign s).2 <:+ s := by
  unfold takeSign
  split
  · exact List.suffix_cons _ _
  · exact List.suffix_cons _ _
  · exact List.suffix_rfl

theorem takeHexPrefix_suffix (s : CStr) : takeHexPrefix s <:+ s := by
  unfold takeHexPrefix
  split
  · split
    · exact (List.suffix_cons _ _).trans (List.suffix_cons _ _)
    · exact List.suffix_rfl
  · exact List.suffix_rfl

/-- A number takes up at least one byte, and it fits into a word. -/
theorem strtoulHex_eq_some {s rest : CStr} {n : ℕ} (h : strtoulHex w s = some (n, rest)) :
    n < 2 ^ w.bits ∧ rest <:+ s ∧ rest.length < s.length := by
  rw [strtoulHex] at h
  generalize hsign : takeSign (s.dropWhile isSpace) = signed at h
  obtain ⟨neg, t⟩ := signed
  have ht : t <:+ s := by
    have hsuffix := takeSign_suffix (s.dropWhile isSpace)
    rw [hsign] at hsuffix
    exact hsuffix.trans (List.dropWhile_suffix isSpace)
  have hdigits : (takeHexPrefix t).dropWhile isHexDigit <:+ s :=
    (List.dropWhile_suffix isHexDigit).trans ((takeHexPrefix_suffix t).trans ht)
  dsimp only at h
  have hword := Nat.two_pow_pos w.bits
  split_ifs at h with hnil hbig hneg
  all_goals obtain ⟨rfl, rfl⟩ := Prod.mk.inj (Option.some_inj.mp h)
  all_goals refine ⟨by omega, hdigits, ?_⟩
  all_goals
    have hsplit := congrArg List.length (List.takeWhile_append_dropWhile (p := isHexDigit)
      (l := takeHexPrefix t))
    have hpos := List.length_pos_of_ne_nil hnil
    have hle := ((takeHexPrefix_suffix t).trans ht).length_le
    rw [List.length_append] at hsplit
    omega

theorem length_skipEol_le (s : CStr) : (skipEol s).length ≤ s.length := by
  have htail : ∀ (t : CStr) (b : UInt8),
      (if firstByte t = b then t.tail else t).length ≤ t.length := by
    intro t b
    split
    · exact List.length_tail.trans_le (Nat.sub_le _ _)
    · exact le_rfl
  exact (htail _ 10).trans (htail s 13)

theorem sizeLine_eq_some {p size q : ℕ} (h : sizeLine w resp p = some (size, q)) :
    size < 2 ^ w.bits ∧ p < q ∧ q ≤ resp.length := by
  obtain ⟨⟨n, rest⟩, hnum, heq⟩ := Option.map_eq_some_iff.mp h
  obtain ⟨rfl, rfl⟩ := Prod.mk.inj heq
  obtain ⟨hlt, -, hlen⟩ := strtoulHex_eq_some hnum
  have heol := length_skipEol_le rest
  rw [List.length_drop] at hlen
  exact ⟨hlt, by omega, Nat.sub_le _ _⟩

theorem sizeLine_of_nul {p : ℕ} (h : firstByte (resp.drop p) = 0) : sizeLine w resp p = none := by
  have hnone : strtoulHex w (resp.drop p) = none := by
    cases hdrop : resp.drop p with
    | nil => rfl
    | cons b s =>
      rw [hdrop] at h
      have hb : b = 0 := h
      rw [hb]
      rfl
  rw [sizeLine, hnone, Option.map_none]

theorem le_afterEol {p : ℕ} (h : p ≤ resp.length) : p ≤ afterEol resp p := by
  have heol := length_skipEol_le (resp.drop p)
  rw [List.length_drop] at heol
  rw [afterEol]
  omega

/-! ## Covered chunks -/

/-- From offset `p` on, with `o` bytes in `out`, every chunk has the bytes that are copied of it:
as many as it announces, or as there is still room for. -/
inductive Covered (w : WordSize) (resp : List UInt8) (outSz : ℕ) : ℕ → ℕ → Prop
  | full {p o : ℕ} (h : outSz ≤ o + 1) : Covered w resp outSz p o
  | noSize {p o : ℕ} (h : sizeLine w resp p = none) : Covered w resp outSz p o
  | last {p o q : ℕ} (h : sizeLine w resp p = some (0, q)) : Covered w resp outSz p o
  | chunk {p o size q : ℕ} (hline : sizeLine w resp p = some (size, q))
      (hsum : o + size < 2 ^ w.bits) (hbytes : q + min size (outSz - o - 1) ≤ resp.length)
      (hrest : Covered w resp outSz (afterEol resp (q + min size (outSz - o - 1)))
        (o + min size (outSz - o - 1))) :
      Covered w resp outSz p o

theorem chunkSize_eq_min {o size : ℕ} (hroom : o + 1 < outSz) (h : o + size < 2 ^ w.bits) :
    chunkSize w outSz o size = min size (outSz - o - 1) := by
  rw [chunkSize, Nat.mod_eq_of_lt h]
  split <;> omega

/-- A sum that wraps around is too small to be cut. -/
theorem chunkSize_of_wrap {o size : ℕ} (hout : outSz ≤ 2 ^ w.bits) (ho : o < outSz)
    (hsize : size < 2 ^ w.bits) (h : 2 ^ w.bits ≤ o + size) : chunkSize w outSz o size = size := by
  obtain ⟨r, hr⟩ := Nat.exists_eq_add_of_le h
  rw [chunkSize, hr, Nat.add_mod_left, Nat.mod_eq_of_lt (by omega), if_neg (by omega)]

/-- The memory of `out` and the room in it. -/
structure DechunkState.Fits (outSz : ℕ) (s : DechunkState) : Prop where
  size : s.out.length = outSz
  room : s.o < outSz

variable {s t : DechunkState}

/-- Where a turn stops, nothing is copied. -/
theorem dechunkStep_stop (resp : List UInt8) (outSz : ℕ) (s : DechunkState)
    (h : outSz ≤ s.o + 1 ∨ sizeLine w resp s.p = none ∨ ∃ q, sizeLine w resp s.p = some (0, q)) :
    ∃ p, dechunkStep w resp outSz s = some (.stop { s with p := p }) := by
  rw [dechunkStep]
  split
  · exact ⟨s.p, rfl⟩
  · rename_i hgo
    rcases h with hfull | hnone | ⟨q, hlast⟩
    · exact absurd (Or.inr hfull) hgo
    · rw [hnone]
      exact ⟨s.p, rfl⟩
    · rw [hlast]
      exact ⟨q, if_pos rfl⟩

theorem dechunkStep_chunk {size q : ℕ} (hroom : s.o + 1 < outSz)
    (hline : sizeLine w resp s.p = some (size, q)) (hpos : size ≠ 0) :
    dechunkStep w resp outSz s =
      (readSlice resp q (chunkSize w outSz s.o size)).bind fun bytes ↦
        (writeSlice s.out s.o bytes).map fun out ↦
          .go ⟨afterEol resp (q + chunkSize w outSz s.o size), s.o + chunkSize w outSz s.o size,
            out⟩ := by
  have hfirst : firstByte (resp.drop s.p) ≠ 0 := by
    intro hnul
    rw [sizeLine_of_nul hnul] at hline
    exact nomatch hline
  have hgo : ¬ (firstByte (resp.drop s.p) = 0 ∨ outSz ≤ s.o + 1) := by
    rw [not_or, Nat.not_le]
    exact ⟨hfirst, hroom⟩
  rw [dechunkStep, if_neg hgo, hline]
  dsimp only
  rw [if_neg hpos]

theorem dechunkStep_go (h : dechunkStep w resp outSz s = some (.go t)) :
    s.o + 1 < outSz ∧ ∃ size q bytes, sizeLine w resp s.p = some (size, q) ∧ size ≠ 0 ∧
      readSlice resp q (chunkSize w outSz s.o size) = some bytes ∧
      writeSlice s.out s.o bytes = some t.out ∧ t.o = s.o + chunkSize w outSz s.o size := by
  have hroom : s.o + 1 < outSz := by
    by_contra hfull
    obtain ⟨p, hstop⟩ := dechunkStep_stop resp outSz s (Or.inl (Nat.le_of_not_lt hfull))
    rw [hstop] at h
    exact nomatch h
  refine ⟨hroom, ?_⟩
  cases hline : sizeLine w resp s.p with
  | none =>
    obtain ⟨p, hstop⟩ := dechunkStep_stop resp outSz s (Or.inr (Or.inl hline))
    rw [hstop] at h
    exact nomatch h
  | some sq =>
    obtain ⟨size, q⟩ := sq
    by_cases hzero : size = 0
    · obtain ⟨p, hstop⟩ := dechunkStep_stop resp outSz s (Or.inr (Or.inr ⟨q, hzero ▸ hline⟩))
      rw [hstop] at h
      exact nomatch h
    · rw [dechunkStep_chunk hroom hline hzero] at h
      obtain ⟨bytes, hread, hrest⟩ := Option.bind_eq_some_iff.mp h
      obtain ⟨out, hwrite, hgo⟩ := Option.map_eq_some_iff.mp hrest
      obtain rfl := Turn.go.inj hgo
      exact ⟨size, q, bytes, rfl, hzero, hread, hwrite, rfl⟩

theorem dechunkStep_eq_stop (h : dechunkStep w resp outSz s = some (.stop t)) :
    t.o = s.o ∧ t.out = s.out := by
  have hsame : ∀ {p : ℕ}, dechunkStep w resp outSz s = some (.stop { s with p := p }) →
      t.o = s.o ∧ t.out = s.out := by
    intro p hstop
    rw [hstop] at h
    obtain rfl := Turn.stop.inj (Option.some_inj.mp h)
    exact ⟨rfl, rfl⟩
  by_cases hroom : outSz ≤ s.o + 1
  · obtain ⟨p, hstop⟩ := dechunkStep_stop resp outSz s (Or.inl hroom)
    exact hsame hstop
  cases hline : sizeLine w resp s.p with
  | none =>
    obtain ⟨p, hstop⟩ := dechunkStep_stop resp outSz s (Or.inr (Or.inl hline))
    exact hsame hstop
  | some sq =>
    obtain ⟨size, q⟩ := sq
    by_cases hzero : size = 0
    · obtain ⟨p, hstop⟩ := dechunkStep_stop resp outSz s (Or.inr (Or.inr ⟨q, hzero ▸ hline⟩))
      exact hsame hstop
    · rw [dechunkStep_chunk (Nat.lt_of_not_le hroom) hline hzero] at h
      obtain ⟨bytes, -, hrest⟩ := Option.bind_eq_some_iff.mp h
      obtain ⟨out, -, hstop⟩ := Option.map_eq_some_iff.mp hrest
      exact nomatch hstop

theorem loop_keeps {text : CStr} (htext : text <+: s.out) (hlen : text.length ≤ s.o) {n : ℕ}
    (h : loop (dechunkStep w resp outSz) n s = some (.stop t)) :
    text <+: t.out ∧ text.length ≤ t.o := by
  induction n generalizing s with
  | zero => cases h
  | succ n ih =>
    cases hstep : dechunkStep w resp outSz s with
    | none =>
      rw [loop, hstep] at h
      contradiction
    | some turn =>
      cases turn with
      | stop u =>
        rw [loop_of_stop hstep] at h
        obtain rfl := Turn.stop.inj (Option.some_inj.mp h)
        obtain ⟨ho, hout⟩ := dechunkStep_eq_stop hstep
        rw [ho, hout]
        exact ⟨htext, hlen⟩
      | go u =>
        rw [loop_of_go hstep] at h
        obtain ⟨-, size, q, bytes, -, -, -, hwrite, ho⟩ := dechunkStep_go hstep
        refine ih ?_ (by omega) h
        exact ((List.prefix_take_iff.mpr ⟨htext, hlen⟩).trans (List.prefix_append _ _)).trans
          (prefix_of_writeSlice hwrite)

theorem dechunkStep_covered {size q : ℕ} {text : CStr} (hfits : s.Fits outSz)
    (htext : text <+: s.out) (hlen : text.length = s.o) (hroom : s.o + 1 < outSz)
    (hline : sizeLine w resp s.p = some (size, q)) (hpos : size ≠ 0)
    (hsum : s.o + size < 2 ^ w.bits) (hbytes : q + min size (outSz - s.o - 1) ≤ resp.length) :
    ∃ t, dechunkStep w resp outSz s = some (.go t) ∧ t.Fits outSz ∧
      t.p = afterEol resp (q + min size (outSz - s.o - 1)) ∧
      t.o = s.o + min size (outSz - s.o - 1) ∧
      text ++ (resp.drop q).take (min size (outSz - s.o - 1)) <+: t.out := by
  rw [dechunkStep_chunk hroom hline hpos, chunkSize_eq_min hroom hsum, readSlice_of_le hbytes,
    Option.bind_some]
  generalize hcopied : min size (outSz - s.o - 1) = n at *
  have hcount : ((resp.drop q).take n).length = n := by
    rw [List.length_take, List.length_drop]
    omega
  obtain ⟨out, hwrite, hstart, hsize⟩ := exists_writeSlice htext ((resp.drop q).take n) (by
    rw [hcount, hlen, hfits.size]
    omega)
  rw [hlen] at hwrite
  rw [hwrite, Option.map_some]
  exact ⟨_, rfl, ⟨hsize.trans hfits.size, by dsimp only; omega⟩, rfl, rfl, hstart⟩

/-! ## The loop -/

/-- The loop never leaves its buffers, and it ends. -/
structure LoopInside (w : WordSize) (resp : List UInt8) (outSz : ℕ) (s : DechunkState) : Prop where
  inside : ∀ n, loop (dechunkStep w resp outSz) n s ≠ none
  ends : ∃ t, Ends (dechunkStep w resp outSz) s t ∧ t.Fits outSz

theorem LoopInside.of_stop (hfits : s.Fits outSz) {p : ℕ}
    (h : dechunkStep w resp outSz s = some (.stop { s with p := p })) :
    LoopInside w resp outSz s where
  inside := by
    intro n
    cases n with
    | zero => exact Option.some_ne_none _
    | succ n =>
      rw [loop_of_stop h]
      exact Option.some_ne_none _
  ends := ⟨_, ⟨1, loop_of_stop h 0⟩, hfits.size, hfits.room⟩

theorem LoopInside.of_go (h : dechunkStep w resp outSz s = some (.go t))
    (ht : LoopInside w resp outSz t) : LoopInside w resp outSz s where
  inside := by
    intro n
    cases n with
    | zero => exact Option.some_ne_none _
    | succ n =>
      rw [loop_of_go h]
      exact ht.inside n
  ends := by
    obtain ⟨u, ⟨n, hends⟩, hu⟩ := ht.ends
    exact ⟨u, ⟨n + 1, by rwa [loop_of_go h]⟩, hu⟩

theorem Covered.loopInside {p o : ℕ} (h : Covered w resp outSz p o) (hfits : s.Fits outSz)
    (hp : s.p = p) (ho : s.o = o) : LoopInside w resp outSz s := by
  induction h generalizing s with
  | full hfull =>
    obtain ⟨q, hstop⟩ := dechunkStep_stop resp outSz s (Or.inl (ho ▸ hfull))
    exact .of_stop hfits hstop
  | noSize hnone =>
    obtain ⟨q, hstop⟩ := dechunkStep_stop resp outSz s (Or.inr (Or.inl (hp ▸ hnone)))
    exact .of_stop hfits hstop
  | last hlast =>
    obtain ⟨q, hstop⟩ := dechunkStep_stop resp outSz s
      (Or.inr (Or.inr ⟨_, hp ▸ hlast⟩))
    exact .of_stop hfits hstop
  | @chunk p o size q hline hsum hbytes _ ih =>
    subst hp ho
    by_cases hfull : outSz ≤ s.o + 1
    · obtain ⟨q, hstop⟩ := dechunkStep_stop resp outSz s (Or.inl hfull)
      exact .of_stop hfits hstop
    by_cases hzero : size = 0
    · obtain ⟨q, hstop⟩ := dechunkStep_stop resp outSz s
        (Or.inr (Or.inr ⟨q, hzero ▸ hline⟩))
      exact .of_stop hfits hstop
    have htake : (s.out.take s.o).length = s.o := by
      rw [List.length_take, hfits.size]
      exact Nat.min_eq_left hfits.room.le
    obtain ⟨t, hgo, htfits, htp, hto, -⟩ := dechunkStep_covered hfits (List.take_prefix s.o s.out)
      htake (Nat.lt_of_not_le hfull) hline hzero hsum hbytes
    exact .of_go hgo (ih htfits htp hto)

/-- A turn that does not leave the buffers copies no more than has come. -/
theorem copied_of_ne_none {size q : ℕ} (hroom : s.o + 1 < outSz)
    (hline : sizeLine w resp s.p = some (size, q)) (hpos : size ≠ 0)
    (h : dechunkStep w resp outSz s ≠ none) : q + chunkSize w outSz s.o size ≤ resp.length := by
  by_contra hout
  rw [dechunkStep_chunk hroom hline hpos, readSlice_eq_none_iff.mpr (Nat.lt_of_not_le hout)] at h
  exact h rfl

theorem covered_of_inside (hsmall : resp.length + outSz ≤ 2 ^ w.bits) (hfits : s.Fits outSz)
    (h : ∀ n, loop (dechunkStep w resp outSz) n s ≠ none) : Covered w resp outSz s.p s.o := by
  induction hm : resp.length - s.p using Nat.strong_induction_on generalizing s with
  | _ m ih =>
    by_cases hfull : outSz ≤ s.o + 1
    · exact .full hfull
    cases hline : sizeLine w resp s.p with
    | none => exact .noSize hline
    | some sq =>
      obtain ⟨size, q⟩ := sq
      by_cases hzero : size = 0
      · exact .last (hzero ▸ hline)
      obtain ⟨hsize, hq, hqlen⟩ := sizeLine_eq_some hline
      have hroom := Nat.lt_of_not_le hfull
      have hone : dechunkStep w resp outSz s ≠ none := by
        intro hnone
        refine h 1 ?_
        rw [loop, hnone]
      have hcopied := copied_of_ne_none hroom hline hzero hone
      have hsum : s.o + size < 2 ^ w.bits := by
        by_contra hwrap
        rw [chunkSize_of_wrap (by omega) hfits.room hsize (Nat.le_of_not_lt hwrap)] at hcopied
        omega
      rw [chunkSize_eq_min hroom hsum] at hcopied
      have htake : (s.out.take s.o).length = s.o := by
        rw [List.length_take, hfits.size]
        exact Nat.min_eq_left hfits.room.le
      obtain ⟨t, hgo, htfits, htp, hto, -⟩ := dechunkStep_covered hfits
        (List.take_prefix s.o s.out) htake hroom hline hzero hsum hcopied
      have hinside : ∀ n, loop (dechunkStep w resp outSz) n t ≠ none := by
        intro n
        rw [← loop_of_go hgo]
        exact h (n + 1)
      have hprogress := le_afterEol hcopied
      have hrest := ih (resp.length - t.p) (by omega) htfits hinside rfl
      rw [htp, hto] at hrest
      exact .chunk hline hsum hcopied hrest

/-! ## The call -/

/-- The receive loop stops where the stream does, or where its buffer is full. -/
theorem receiveLoop_eq {cap : ℕ} {pieces : List CStr} {resp : List UInt8} (h : resp.length < cap) :
    receiveLoop cap pieces resp = resp ++ pieces.flatten.take (cap - resp.length - 1) := by
  induction pieces generalizing resp with
  | nil =>
    rw [receiveLoop, List.flatten_nil, List.take_nil, List.append_nil]
  | cons piece pieces ih =>
    rw [receiveLoop, List.flatten_cons]
    by_cases hfull : cap ≤ resp.length + 1
    · have hzero : cap - resp.length - 1 = 0 := by omega
      rw [if_pos hfull, hzero, List.take_zero, List.append_nil]
    · have hlen : (resp ++ piece.take (cap - resp.length - 1)).length < cap := by
        rw [List.length_append, List.length_take]
        omega
      have hleft : cap - (resp ++ piece.take (cap - resp.length - 1)).length - 1
          = cap - resp.length - 1 - piece.length := by
        rw [List.length_append, List.length_take]
        omega
      rw [if_neg hfull, ih hlen, hleft, List.append_assoc, List.take_append]

/-- What is received of a response. -/
def responseReceived (outSz : ℕ) (s : Arrival) : List UInt8 := s.response.take (outSz + 8191)

theorem receiveLoop_pieces (outSz : ℕ) (s : Arrival) :
    receiveLoop (outSz + 8192) s.pieces [] = responseReceived outSz s := by
  have hcap : ([] : List UInt8).length < outSz + 8192 := by
    rw [List.length_nil]
    omega
  rw [receiveLoop_eq hcap, List.nil_append, responseReceived, Arrival.response]
  rfl

/-- The request is sent. -/
structure SqlEnv.Sends (env : SqlEnv) (c : SqlCall) : Prop where
  connected : env.connectErr = none
  alloc : env.alloc = true
  fits : c.request.length < c.sql.length + 768
  send : env.send = true

theorem httpPostSql_of_sends {env : SqlEnv} {c : SqlCall} (h : env.Sends c) {outSz : ℕ}
    (hsz : 8 ≤ outSz) (errLen : ℕ) (out : List UInt8) (fuel : ℕ) :
    httpPostSql w env c outSz errLen out fuel
      = storeResponse w (responseReceived outSz env.arrival) outSz errLen out fuel := by
  rw [httpPostSql, if_neg (Nat.not_lt_of_le hsz), h.connected]
  dsimp only
  rw [h.alloc, if_neg (Nat.not_le_of_lt h.fits), h.send, receiveLoop_pieces]
  rfl

theorem copyBody_eq {body : CStr} {out : List UInt8} (hout : out.length = outSz)
    (hpos : 0 < outSz) :
    copyBody body outSz out = .stored ((body.takeWhile (· ≠ 0)).take (outSz - 1)) := by
  rw [copyBody]
  generalize htext : (body.takeWhile (· ≠ 0)).take (outSz - 1) = text
  have hlen : text.length ≤ outSz - 1 := by
    rw [← htext]
    exact List.length_take_le _ _
  obtain ⟨out₁, hwrite₁, htext₁, hsize₁⟩ := exists_writeSlice (List.nil_prefix (l := out)) text (by
      rw [List.length_nil]
      omega)
  obtain ⟨out₂, hwrite₂, htext₂, -⟩ := exists_writeSlice htext₁ [0] (by
    rw [List.nil_append, List.length_singleton]
    omega)
  rw [List.length_nil] at hwrite₁
  rw [List.nil_append] at hwrite₂ htext₂
  rw [hwrite₁, Option.bind_some, hwrite₂]
  dsimp only
  have hstored : out₂.take text.length = text :=
    (List.prefix_iff_eq_take.mp ((List.prefix_append _ _).trans htext₂)).symm
  rw [hstored]

theorem dechunkOutcome_stop (h : t.Fits outSz) :
    dechunkOutcome (some (.stop t)) = .stored (t.out.take t.o) := by
  have htake : (t.out.take t.o).length = t.o := by
    rw [List.length_take, h.size]
    exact Nat.min_eq_left h.room.le
  obtain ⟨out, hwrite, hstart, -⟩ := exists_writeSlice (List.take_prefix t.o t.out) [0] (by
    rw [htake, h.size]
    exact h.room)
  rw [htake] at hwrite
  have hstored : out.take t.o = t.out.take t.o := by
    have hpre := List.prefix_iff_eq_take.mp ((List.prefix_append _ _).trans hstart)
    rw [htake] at hpre
    exact hpre.symm
  rw [dechunkOutcome, hwrite]
  dsimp only
  rw [hstored]

/-- The call returns, and it never reads or writes outside of its buffers. -/
structure SqlInside (run : ℕ → SqlResult) : Prop where
  inside : ∀ fuel, run fuel ≠ .outside
  returns : ∃ fuel, run fuel ≠ .running

theorem SqlInside.of_const {run : ℕ → SqlResult} {res : SqlResult} (h : ∀ fuel, run fuel = res)
    (hout : res ≠ .outside) (hrun : res ≠ .running) : SqlInside run where
  inside := fun fuel ↦ (h fuel).symm ▸ hout
  returns := ⟨0, (h 0).symm ▸ hrun⟩

def dechunkStart (resp out : List UInt8) : DechunkState :=
  ⟨resp.length - (responseBody resp).length, 0, out⟩

theorem sqlInside_dechunk_iff (hsmall : resp.length + outSz ≤ 2 ^ w.bits) (hfits : s.Fits outSz) :
    SqlInside (fun fuel ↦ dechunkOutcome (loop (dechunkStep w resp outSz) fuel s)) ↔
      Covered w resp outSz s.p s.o := by
  constructor
  · intro h
    refine covered_of_inside hsmall hfits fun n hnone ↦ h.inside n ?_
    rw [hnone]
    rfl
  · intro h
    have hloop := h.loopInside hfits rfl rfl
    obtain ⟨t, hends, ht⟩ := hloop.ends
    refine ⟨fun fuel ↦ ?_, ?_⟩
    · cases hres : loop (dechunkStep w resp outSz) fuel s with
      | none => exact absurd hres (hloop.inside fuel)
      | some turn =>
        cases turn with
        | go u => exact nofun
        | stop u =>
          rw [hends.unique hres, dechunkOutcome_stop ht]
          exact nofun
    · obtain ⟨n, hn⟩ := hends
      refine ⟨n, ?_⟩
      rw [hn, dechunkOutcome_stop ht]
      exact nofun

/-- The response is put together from chunks, and they are covered. -/
def ChunksCovered (w : WordSize) (resp : List UInt8) (outSz : ℕ) : Prop :=
  responseStatus w resp = 200 → treatedAsChunked w resp = true →
    Covered w resp outSz (resp.length - (responseBody resp).length) 0

theorem storeResponse_dechunked (hstatus : responseStatus w resp = 200)
    (hchunked : treatedAsChunked w resp = true) (errLen : ℕ) (out : List UInt8) :
    storeResponse w resp outSz errLen out = fun fuel ↦ dechunkOutcome
      (loop (dechunkStep w resp outSz) fuel (dechunkStart resp out)) := by
  funext fuel
  rw [storeResponse, if_neg (not_not.mpr hstatus), hchunked]
  rfl

theorem storeResponse_copied (hstatus : responseStatus w resp = 200)
    (hchunked : treatedAsChunked w resp = false) {out : List UInt8} (hout : out.length = outSz)
    (hpos : 0 < outSz) (errLen fuel : ℕ) :
    storeResponse w resp outSz errLen out fuel
      = .stored (((responseBody resp).takeWhile (· ≠ 0)).take (outSz - 1)) := by
  rw [storeResponse, if_neg (not_not.mpr hstatus), hchunked, ← copyBody_eq hout hpos]
  rfl

theorem sqlInside_storeResponse_iff (hpos : 0 < outSz) (hsmall : resp.length + outSz ≤ 2 ^ w.bits)
    {out : List UInt8} (hout : out.length = outSz) (errLen : ℕ) :
    SqlInside (storeResponse w resp outSz errLen out) ↔ ChunksCovered w resp outSz := by
  by_cases hstatus : responseStatus w resp = 200
  · cases hchunked : treatedAsChunked w resp with
    | true =>
      rw [storeResponse_dechunked hstatus hchunked, sqlInside_dechunk_iff hsmall ⟨hout, hpos⟩]
      exact ⟨fun h _ _ ↦ h, fun h ↦ h hstatus hchunked⟩
    | false =>
      have hrun := storeResponse_copied hstatus hchunked hout hpos errLen
      refine iff_of_true (.of_const hrun nofun nofun) fun _ h ↦ ?_
      rw [hchunked] at h
      exact absurd h Bool.false_ne_true
  · have hrun : ∀ fuel, storeResponse w resp outSz errLen out fuel = _ := fun fuel ↦ if_pos hstatus
    exact iff_of_true (.of_const hrun nofun nofun) fun h ↦ absurd h hstatus

theorem httpPostSql_failed {env : SqlEnv} {c : SqlCall}
    (h : ¬ (8 ≤ outSz ∧ env.Sends c)) (errLen : ℕ) (out : List UInt8) :
    ∃ err, ∀ fuel, httpPostSql w env c outSz errLen out fuel = .failed err := by
  by_cases hsz : outSz < 8
  · exact ⟨_, fun fuel ↦ if_pos hsz⟩
  cases hconnect : env.connectErr with
  | some err =>
    refine ⟨copyStr errLen err, fun fuel ↦ ?_⟩
    rw [httpPostSql, if_neg hsz, hconnect]
  | none =>
    cases halloc : env.alloc with
    | false =>
      refine ⟨copyStr errLen (ascii "oom"), fun fuel ↦ ?_⟩
      rw [httpPostSql, if_neg hsz, hconnect, halloc]
      rfl
    | true =>
      by_cases hfits : c.sql.length + 768 ≤ c.request.length
      · refine ⟨[], fun fuel ↦ ?_⟩
        rw [httpPostSql, if_neg hsz, hconnect, halloc]
        dsimp only
        rw [if_neg (by decide), if_pos hfits]
      cases hsend : env.send with
      | false =>
        refine ⟨copyStr errLen (ascii "send failed"), fun fuel ↦ ?_⟩
        rw [httpPostSql, if_neg hsz, hconnect, halloc]
        dsimp only
        rw [if_neg (by decide), if_neg hfits, hsend]
        rfl
      | true =>
        exact absurd ⟨Nat.le_of_not_lt hsz, hconnect, halloc, Nat.lt_of_not_le hfits, hsend⟩ h

/-- A call stays inside its buffers and returns exactly when the chunks it puts together are
covered; every other response is safe. -/
theorem httpPostSql_inside_iff (w : WordSize) (env : SqlEnv) (c : SqlCall) (errLen : ℕ)
    (out : List UInt8) (hsize : out.length + 8192 < 2 ^ (w.bits - 1)) :
    SqlInside (httpPostSql w env c out.length errLen out) ↔
      (8 ≤ out.length → env.Sends c →
        ChunksCovered w (responseReceived out.length env.arrival) out.length) := by
  by_cases hcall : 8 ≤ out.length ∧ env.Sends c
  · obtain ⟨hsz, hsends⟩ := hcall
    have hhalf : 2 ^ (w.bits - 1) + 2 ^ (w.bits - 1) = 2 ^ w.bits := by cases w <;> rfl
    have hlen : (responseReceived out.length env.arrival).length ≤ out.length + 8191 :=
      List.length_take_le _ _
    have hiff : SqlInside (storeResponse w (responseReceived out.length env.arrival) out.length
          errLen out) ↔
        ChunksCovered w (responseReceived out.length env.arrival) out.length :=
      sqlInside_storeResponse_iff (by omega) (by omega) rfl errLen
    have hrun : httpPostSql w env c out.length errLen out
        = storeResponse w (responseReceived out.length env.arrival) out.length errLen out :=
      funext fun fuel ↦ httpPostSql_of_sends hsends hsz errLen out fuel
    rw [hrun, hiff]
    exact ⟨fun h _ _ ↦ h, fun h ↦ h hsz hsends⟩
  · obtain ⟨err, hfailed⟩ := httpPostSql_failed hcall errLen out
    exact iff_of_true (.of_const hfailed nofun nofun) fun hsz hsends ↦
      absurd ⟨hsz, hsends⟩ hcall

def answering (response : CStr) (h : response ≠ []) : SqlEnv where
  connectErr := none
  alloc := true
  send := true
  arrival := ⟨[response], fun _ hp ↦ (List.mem_singleton.mp hp).symm ▸ h⟩

def sqlCall : SqlCall := ⟨ascii "h", ascii "80", ascii "default", [], ascii "SELECT 1"⟩

theorem answering_sends {response : CStr} (h : response ≠ []) :
    (answering response h).Sends sqlCall := ⟨rfl, rfl, by decide +kernel, rfl⟩

/-- A chunk that has arrived completely. -/
theorem httpPostSql_inside_whole :
    SqlInside (httpPostSql .w32
      (answering (ascii "HTTP/1.1 200 OK\r\n\r\n3\r\n{1}\r\n0\r\n\r\n") (by decide))
      sqlCall 64 160 (List.replicate 64 0)) := by
  refine (httpPostSql_inside_iff .w32 _ sqlCall 160 (List.replicate 64 0) (by decide)).mpr ?_
  intro _ _ _ _
  exact .chunk (q := 22) rfl (by decide) (by decide) (.last (q := 30) rfl)

def cutChunk : CStr := ascii "HTTP/1.1 200 OK\r\n\r\nff\r\n\x7b"

/-- A chunk, and one whose size is the largest number of 32 bits. -/
def wrappingChunk : CStr := ascii "HTTP/1.1 200 OK\r\n\r\n3\r\n{1}\r\nffffffff\r\n"

/-- When no more arrives, the loop leaves the response; and a size that makes the sum wrap around is
not even cut to the room there is. -/
theorem httpPostSql_outside :
    ¬ SqlInside (httpPostSql .w64 (answering cutChunk (by decide)) sqlCall 64 160
        (List.replicate 64 0)) ∧
      ¬ SqlInside (httpPostSql .w32 (answering wrappingChunk (by decide)) sqlCall 64 160
        (List.replicate 64 0)) := by
  constructor
  · intro h
    refine h.inside 1 ?_
    rw [httpPostSql_of_sends (answering_sends _) (by decide), storeResponse, if_neg (by decide),
      treatedAsChunked]
    have hlooks : looksChunked .w64 (responseBody (responseReceived 64
        (answering cutChunk (by decide)).arrival)) = true := by decide
    rw [hlooks, Bool.or_true]
    rfl
  · intro h
    refine h.inside 2 ?_
    rw [httpPostSql_of_sends (answering_sends _) (by decide), storeResponse, if_neg (by decide),
      treatedAsChunked]
    have hlooks : looksChunked .w32 (responseBody (responseReceived 64
        (answering wrappingChunk (by decide)).arrival)) = true := by decide
    rw [hlooks, Bool.or_true]
    rfl

end NetForensics
