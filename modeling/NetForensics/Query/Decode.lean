import Mathlib.Data.List.TakeWhile
import NetForensics.Query.Dechunk
import NetForensics.Query.Head
import NetForensics.Util.Lines

/-!
# What is stored of a response

Whether a response is put together from chunks is guessed from its body: a size, the end of a line
and a brace. So a chunked response is decoded when its data begins with a brace, and a response that
is not chunked is copied when its body does not look so.

The theorem says exactly when the data, or the body, is stored, for all that may come between: a
head or a body that is longer than the buffer, and texts that happen to be what is stored.
-/

namespace NetForensics

/-! ## Numbers at the head of a text -/

def Delimits (rest : CStr) : Prop :=
  ∀ b s, rest = b :: s → isHexDigit b = false ∧ b ≠ 120 ∧ b ≠ 88

theorem delimits_nil : Delimits [] := fun _ _ h ↦ nomatch h

theorem delimits_cons {b : UInt8} (h : isHexDigit b = false ∧ b ≠ 120 ∧ b ≠ 88) (s : CStr) :
    Delimits (b :: s) := by
  intro c t hc
  obtain ⟨rfl, -⟩ := List.cons.inj hc
  exact h

theorem Delimits.take {rest : CStr} (h : Delimits rest) (n : ℕ) : Delimits (rest.take n) := by
  intro b s hb
  obtain ⟨t, ht⟩ := List.take_prefix n rest
  exact h b (s ++ t) (by rw [← ht, hb, List.cons_append])

theorem not_hexDigit {b : UInt8} (h : isHexDigit b = true) :
    isSpace b = false ∧ b ≠ 45 ∧ b ≠ 43 ∧ b ≠ 120 ∧ b ≠ 88 ∧ b ≠ 0 ∧ b ≠ 123 := by
  refine forall_byte (P := fun b ↦ isHexDigit b = true → isSpace b = false ∧ b ≠ 45 ∧ b ≠ 43 ∧
    b ≠ 120 ∧ b ≠ 88 ∧ b ≠ 0 ∧ b ≠ 123) ?_ b h
  decide +kernel

theorem takeHexPrefix_eq {s : CStr} (h : ∀ x d t, s = 48 :: x :: d :: t → x ≠ 120 ∧ x ≠ 88) :
    takeHexPrefix s = s := by
  unfold takeHexPrefix
  split
  · rename_i x d t
    obtain ⟨hx, hX⟩ := h x d t rfl
    rw [if_neg fun hmark ↦ hmark.1.elim hx hX]
  · rfl

theorem strtoulHex_digits (w : WordSize) {digits rest : CStr} (hne : digits ≠ [])
    (hdigits : ∀ b ∈ digits, isHexDigit b = true) (hrest : Delimits rest) :
    ∃ n, strtoulHex w (digits ++ rest) = some (n, rest) ∧
      (hexNumber digits < 2 ^ w.bits → n = hexNumber digits) := by
  obtain ⟨b, s, rfl⟩ := List.exists_cons_of_ne_nil hne
  obtain ⟨hspace, hminus, hplus, -⟩ := not_hexDigit (hdigits b List.mem_cons_self)
  have hstart : (b :: s ++ rest).dropWhile isSpace = b :: s ++ rest :=
    List.dropWhile_cons_of_neg (by simp [hspace])
  have hsign : takeSign (b :: s ++ rest) = (false, b :: s ++ rest) := by
    rw [List.cons_append]
    unfold takeSign
    split
    · exact absurd (List.cons.inj ‹_›).1 hminus
    · exact absurd (List.cons.inj ‹_›).1 hplus
    · rfl
  have hplain : takeHexPrefix (b :: s ++ rest) = b :: s ++ rest := by
    refine takeHexPrefix_eq fun x d t hx ↦ ?_
    cases s with
    | nil =>
      obtain ⟨-, hx, hX⟩ := hrest x (d :: t) (List.cons.inj hx).2
      exact ⟨hx, hX⟩
    | cons c s =>
      obtain ⟨rfl, -⟩ := List.cons.inj (List.cons.inj hx).2
      have hc := not_hexDigit (hdigits c (List.mem_cons_of_mem _ List.mem_cons_self))
      exact ⟨hc.2.2.2.1, hc.2.2.2.2.1⟩
  have hstop : rest.takeWhile isHexDigit = [] ∧ rest.dropWhile isHexDigit = rest := by
    cases rest with
    | nil => exact ⟨rfl, rfl⟩
    | cons c t =>
      have hc := (hrest c t rfl).1
      exact ⟨List.takeWhile_cons_of_neg (by simp [hc]), List.dropWhile_cons_of_neg (by simp [hc])⟩
  have htake : (b :: s ++ rest).takeWhile isHexDigit = b :: s := by
    rw [List.takeWhile_append_of_pos hdigits, hstop.1, List.append_nil]
  have hdrop : (b :: s ++ rest).dropWhile isHexDigit = rest := by
    rw [List.dropWhile_append_of_pos hdigits, hstop.2]
  rw [strtoulHex, hstart, hsign]
  dsimp only
  rw [hplain, htake, hdrop, if_neg (List.cons_ne_nil b s)]
  refine ⟨_, rfl, fun hlt ↦ ?_⟩
  rw [if_neg (Nat.not_le_of_lt hlt), if_neg Bool.false_ne_true]

theorem hexNumber_zeros {zeros : CStr} (h : ∀ b ∈ zeros, b = 48) : hexNumber zeros = 0 := by
  have hfold : zeros.foldl (fun n b ↦ 16 * n + (Json.hexVal b).getD 0) 0 = 0 := by
    induction zeros with
    | nil => rfl
    | cons b zeros ih =>
      rw [List.foldl_cons, h b List.mem_cons_self]
      exact ih fun c hc ↦ h c (List.mem_cons_of_mem b hc)
  exact hfold

/-! ## Chunked responses -/

/-- A chunk extension, which the program does not know of. -/
def ChunkExt (ext : CStr) : Prop :=
  LineText ext ∧ (ext = [] ∨ ∃ b s, ext = b :: s ∧ (b = 59 ∨ isBlank b = true))

/-- A chunk with data. -/
structure HttpChunk where
  size : CStr
  ext : CStr
  data : CStr
  size_digits : ∀ b ∈ size, isHexDigit b = true
  size_eq : hexNumber size = data.length
  ext_ok : ChunkExt ext
  data_ne : data ≠ []
  data_clean : 0 ∉ data

namespace HttpChunk

def bytes (c : HttpChunk) : CStr := c.size ++ (c.ext ++ (crlf ++ (c.data ++ crlf)))

theorem size_ne (c : HttpChunk) : c.size ≠ [] := by
  intro hnil
  have hsize := c.size_eq
  rw [hnil] at hsize
  exact c.data_ne (List.length_eq_zero_iff.mp hsize.symm)

end HttpChunk

def chunkBytes (chunks : List HttpChunk) : CStr := chunks.flatMap HttpChunk.bytes

def chunkData (chunks : List HttpChunk) : CStr := chunks.flatMap HttpChunk.data

def dataEnd (chunks : List HttpChunk) : ℕ := (chunkBytes chunks).length - 2

/-- A response with status 200 whose body is announced to be chunked. -/
structure ChunkedResponse where
  head : HttpHead
  announces : head.Announces
  chunks : List HttpChunk
  /-- The size of the last chunk, which has no data. -/
  zeros : CStr
  lastExt : CStr
  /-- The trailer fields and the empty line. -/
  trailer : CStr
  zeros_ne : zeros ≠ []
  zeros_eq : ∀ b ∈ zeros, b = 48
  lastExt_ok : ChunkExt lastExt
  trailer_clean : 0 ∉ trailer

namespace ChunkedResponse

def data (r : ChunkedResponse) : CStr := chunkData r.chunks

def last (r : ChunkedResponse) : CStr := r.zeros ++ (r.lastExt ++ (crlf ++ r.trailer))

def raw (r : ChunkedResponse) : CStr := chunkBytes r.chunks ++ r.last

end ChunkedResponse

/-! ## Decoding chunks -/

variable {w : WordSize} {resp : List UInt8} {outSz m : ℕ} {s : DechunkState} {text : CStr}

theorem drop_of_suffix {p : ℕ} {a b : CStr} (h : resp.drop p = a ++ b) :
    resp.drop (resp.length - b.length) = b := by
  have hlen := congrArg List.length h
  rw [List.length_drop, List.length_append] at hlen
  cases b with
  | nil => exact List.drop_eq_nil_of_le le_rfl
  | cons c b =>
    rw [List.length_cons] at hlen ⊢
    have hsum : resp.length - (b.length + 1) = p + a.length := by omega
    rw [hsum, ← List.drop_drop, h, List.drop_left]

theorem skipEol_suffix (s : CStr) : ∃ a, s = a ++ skipEol s := by
  have htail : ∀ (t : CStr) (b : UInt8), ∃ a, t = a ++ if firstByte t = b then t.tail else t := by
    intro t b
    split
    · cases t with
      | nil => exact ⟨[], rfl⟩
      | cons c t => exact ⟨[c], rfl⟩
    · exact ⟨[], rfl⟩
  obtain ⟨a, ha⟩ := htail s 13
  obtain ⟨b, hb⟩ := htail (if firstByte s = 13 then s.tail else s) 10
  refine ⟨a ++ b, ?_⟩
  rw [List.append_assoc, skipEol, ← hb]
  exact ha

theorem drop_afterEol {q : ℕ} : resp.drop (afterEol resp q) = skipEol (resp.drop q) := by
  obtain ⟨a, ha⟩ := skipEol_suffix (resp.drop q)
  exact drop_of_suffix ha

theorem skipEol_crlf (rest : CStr) (n : ℕ) :
    skipEol ((crlf ++ rest).take n) = rest.take (n - 2) := by
  match n with
  | 0 => rfl
  | 1 => rfl
  | n + 2 => rfl

theorem sizeLine_digits (w : WordSize) {p : ℕ} {digits rest : CStr} (hne : digits ≠ [])
    (hdigits : ∀ b ∈ digits, isHexDigit b = true) (hrest : Delimits rest)
    (hdrop : resp.drop p = digits ++ rest) :
    ∃ n, sizeLine w resp p = some (n, resp.length - (skipEol rest).length) ∧
      (hexNumber digits < 2 ^ w.bits → n = hexNumber digits) := by
  obtain ⟨n, hnum, hvalue⟩ := strtoulHex_digits w hne hdigits hrest
  refine ⟨n, ?_, hvalue⟩
  rw [sizeLine, hdrop, hnum]
  rfl

theorem delimits_crlf (rest : CStr) (n : ℕ) : Delimits ((crlf ++ rest).take n) :=
  (delimits_cons (by decide) _).take n

theorem dechunkStep_data (hfits : s.Fits outSz) (htext : text <+: s.out) (hlen : text.length = s.o)
    {c : HttpChunk} {rest : CStr} (hbound : outSz ≤ 2 ^ w.bits)
    (hdrop : resp.drop s.p = c.size ++ (crlf ++ (c.data ++ rest)))
    (hroom : s.o + c.data.length < outSz) :
    ∃ t, dechunkStep w resp outSz s = some (.go t) ∧ t.Fits outSz ∧ text ++ c.data <+: t.out ∧
      t.o = s.o + c.data.length ∧ resp.drop t.p = skipEol rest := by
  have hpos : 0 < c.data.length := List.length_pos_of_ne_nil c.data_ne
  obtain ⟨n, hline, hn⟩ := sizeLine_digits w c.size_ne c.size_digits
    (delimits_cons (by decide) _) hdrop
  have hsize : n = c.data.length := by
    rw [hn (by rw [c.size_eq]; omega), c.size_eq]
  have hdata : resp.drop (resp.length - (c.data ++ rest).length) = c.data ++ rest := by
    refine drop_of_suffix (p := s.p) (a := c.size ++ crlf) ?_
    rw [hdrop, List.append_assoc]
  have hmin : min c.data.length (outSz - s.o - 1) = c.data.length := by omega
  have hle : (c.data ++ rest).length ≤ resp.length := by
    have hlength := congrArg List.length hdrop
    rw [List.length_drop, List.length_append, List.length_append] at hlength
    omega
  have hbytes : resp.length - (c.data ++ rest).length + c.data.length ≤ resp.length := by
    rw [List.length_append] at hle ⊢
    omega
  rw [hsize] at hline
  obtain ⟨t, hgo, htfits, htp, hto, htprefix⟩ := dechunkStep_covered hfits htext hlen (by omega)
    hline (by omega) (by omega) (by
      rw [hmin]
      exact hbytes)
  rw [hmin] at htp hto htprefix
  refine ⟨t, hgo, htfits, ?_, hto, ?_⟩
  · have htake : (resp.drop (resp.length - (c.data ++ rest).length)).take c.data.length
        = c.data := by rw [hdata, List.take_left]
    exact htake ▸ htprefix
  · rw [htp, drop_afterEol, ← List.drop_drop]
    have hrest : (resp.drop (resp.length - (c.data ++ rest).length)).drop c.data.length = rest := by
      rw [hdata, List.drop_left]
    exact congrArg skipEol hrest

/-- A chunk whose data has not come completely is not copied. -/
theorem dechunkStep_cut {c : HttpChunk} {rest : CStr} (hbound : outSz ≤ 2 ^ w.bits)
    (hdrop : resp.drop s.p = (c.size ++ (crlf ++ (c.data ++ rest))).take m)
    (hm : m < c.size.length + 2 + c.data.length) (hroom : s.o + c.data.length < outSz) :
    dechunkStep w resp outSz s = none ∨
      ∃ p, dechunkStep w resp outSz s = some (.stop { s with p := p }) := by
  have hpos : 0 < c.data.length := List.length_pos_of_ne_nil c.data_ne
  -- what is left behind the size line is less than what is copied
  have hshort : sizeLine w resp s.p = none ∨ (∃ q, sizeLine w resp s.p = some (0, q)) ∨
      ∃ n q, n ≠ 0 ∧ sizeLine w resp s.p = some (n, q) ∧
        resp.length < q + chunkSize w outSz s.o n := by
    rw [List.take_append] at hdrop
    by_cases hdigits : m ≤ c.size.length
    · have hzero : m - c.size.length = 0 := by omega
      rw [hzero, List.take_zero, List.append_nil] at hdrop
      by_cases hnil : c.size.take m = []
      · refine Or.inl (sizeLine_of_nul ?_)
        rw [hdrop, hnil]
        rfl
      · obtain ⟨n, hline, -⟩ := sizeLine_digits w hnil
          (fun b hb ↦ c.size_digits b (List.mem_of_mem_take hb)) delimits_nil
          (by rw [hdrop, List.append_nil])
        by_cases hn : n = 0
        · exact Or.inr (Or.inl ⟨_, hn ▸ hline⟩)
        · refine Or.inr (Or.inr ⟨n, _, hn, hline, ?_⟩)
          have hcopied : 0 < chunkSize w outSz s.o n := by
            rw [chunkSize]
            split <;> omega
          exact Nat.lt_add_of_pos_right hcopied
    · rw [List.take_of_length_le (Nat.le_of_not_le hdigits)] at hdrop
      obtain ⟨n, hline, hn⟩ := sizeLine_digits w c.size_ne c.size_digits (delimits_crlf _ _) hdrop
      have hsize : n = c.data.length := by
        rw [hn (by rw [c.size_eq]; omega), c.size_eq]
      rw [hsize, skipEol_crlf] at hline
      refine Or.inr (Or.inr ⟨_, _, hpos.ne', hline, ?_⟩)
      have hlength := congrArg List.length hdrop
      rw [List.length_drop, List.length_append, List.length_take] at hlength
      rw [chunkSize_eq_min (by omega) (by omega), List.length_take, List.length_append]
      omega
  rcases hshort with hnone | hlast | ⟨n, q, hn, hline, hfar⟩
  · exact Or.inr (dechunkStep_stop resp outSz s (Or.inr (Or.inl hnone)))
  · exact Or.inr (dechunkStep_stop resp outSz s (Or.inr (Or.inr hlast)))
  · refine Or.inl ?_
    rw [dechunkStep_chunk (by omega) hline hn, readSlice_eq_none_iff.mpr hfar, Option.bind_none]

theorem chunkBytes_cons {c : HttpChunk} {chunks : List HttpChunk} (h : c.ext = []) :
    chunkBytes (c :: chunks) = c.size ++ (crlf ++ c.data) ++ (crlf ++ chunkBytes chunks) := by
  rw [chunkBytes, List.flatMap_cons, HttpChunk.bytes, h, chunkBytes]
  simp only [List.append_assoc, List.nil_append]

/-- The data of the chunks has come when the first one's has, and that of the others after it. -/
theorem dataEnd_cons {c : HttpChunk} {chunks : List HttpChunk} (h : c.ext = []) {m : ℕ} :
    dataEnd (c :: chunks) ≤ m ↔ c.size.length + 2 + c.data.length ≤ m ∧
      dataEnd chunks ≤ m - (c.size.length + 2 + c.data.length) - 2 := by
  have hlong : chunkBytes chunks = [] ∨ 3 ≤ (chunkBytes chunks).length := by
    cases chunks with
    | nil => exact Or.inl rfl
    | cons d chunks =>
      have hsize := List.length_pos_of_ne_nil d.size_ne
      have hcrlf : crlf.length = 2 := rfl
      refine Or.inr ?_
      rw [chunkBytes, List.flatMap_cons, HttpChunk.bytes]
      simp only [List.length_append]
      omega
  have hcrlf : crlf.length = 2 := rfl
  rw [dataEnd, chunkBytes_cons h, dataEnd]
  simp only [List.length_append]
  rcases hlong with hnil | hlong
  · rw [hnil, List.length_nil]
    omega
  · omega

theorem strtoulHex_zeros (w : WordSize) {zeros rest : CStr} (hzeros : ∀ b ∈ zeros, b = 48)
    (hne : zeros ≠ []) (hrest : Delimits rest) (n : ℕ) :
    strtoulHex w ((zeros ++ rest).take n) = none ∨
      ∃ t, strtoulHex w ((zeros ++ rest).take n) = some (0, t) := by
  rw [List.take_append]
  by_cases hnil : zeros.take n = []
  · have hn : n = 0 := (List.take_eq_nil_iff.mp hnil).resolve_right hne
    rw [hn, Nat.zero_sub]
    exact Or.inl rfl
  · have htake : ∀ b ∈ zeros.take n, b = 48 := fun b hb ↦ hzeros b (List.mem_of_mem_take hb)
    obtain ⟨k, hnum, hk⟩ := strtoulHex_digits w hnil
      (fun b hb ↦ by rw [htake b hb]; decide) (hrest.take _)
    have hvalue := hexNumber_zeros htake
    rw [hk (by rw [hvalue]; exact Nat.two_pow_pos _), hvalue] at hnum
    exact Or.inr ⟨_, hnum⟩

/-- The loop ends at the zero chunk, or where the stream was cut. -/
theorem dechunkStep_last {zeros rest : CStr} (hzeros : ∀ b ∈ zeros, b = 48) (hne : zeros ≠ [])
    (hrest : Delimits rest) (hdrop : resp.drop s.p = (zeros ++ rest).take m) :
    ∃ p, dechunkStep w resp outSz s = some (.stop { s with p := p }) := by
  refine dechunkStep_stop resp outSz s (Or.inr ?_)
  rw [sizeLine, hdrop]
  rcases strtoulHex_zeros w hzeros hne hrest m with hnum | ⟨t, hnum⟩
  · exact Or.inl (by rw [hnum, Option.map_none])
  · exact Or.inr ⟨_, by rw [hnum, Option.map_some]⟩

/-- The size line and the data of a chunk, when both have come. -/
theorem HttpChunk.take_frame (c : HttpChunk) {m : ℕ} (h : c.size.length + 2 + c.data.length ≤ m)
    (t : CStr) : (c.size ++ (crlf ++ c.data) ++ t).take m
      = c.size ++ (crlf ++ (c.data ++ t.take (m - (c.size.length + 2 + c.data.length)))) := by
  have hlength : (c.size ++ (crlf ++ c.data)).length = c.size.length + 2 + c.data.length := by
    rw [List.length_append, List.length_append, Nat.add_assoc]
    rfl
  rw [List.take_append, List.take_of_length_le (hlength.trans_le h), hlength]
  simp only [List.append_assoc]

/-- What the loop makes of chunks without extensions, of which `m` bytes have come: all of their
data if it has come, and else not as much, if it stops at all. -/
theorem dechunk_chunks {chunks : List HttpChunk} (hext : ∀ c ∈ chunks, c.ext = [])
    {zeros rest : CStr} (hzeros : ∀ b ∈ zeros, b = 48) (hne : zeros ≠ []) (hrest : Delimits rest)
    (hbound : outSz ≤ 2 ^ w.bits) (hfits : s.Fits outSz) (htext : text <+: s.out)
    (hlen : text.length = s.o)
    (hdrop : resp.drop s.p = (chunkBytes chunks ++ (zeros ++ rest)).take m)
    (hroom : (text ++ chunkData chunks).length < outSz) :
    (dataEnd chunks ≤ m → ∃ t, Ends (dechunkStep w resp outSz) s t ∧ t.Fits outSz ∧
        t.out.take t.o = text ++ chunkData chunks) ∧
      (m < dataEnd chunks → ∀ n t, loop (dechunkStep w resp outSz) n s = some (.stop t) →
        t.o < (text ++ chunkData chunks).length) := by
  induction chunks generalizing s text m with
  | nil =>
    refine ⟨fun _ ↦ ?_, fun hm ↦ absurd hm (Nat.not_lt_zero m)⟩
    obtain ⟨p, hstop⟩ := @dechunkStep_last w resp outSz m s _ _ hzeros hne hrest hdrop
    refine ⟨_, ⟨1, loop_of_stop hstop 0⟩, ⟨hfits.size, hfits.room⟩, ?_⟩
    have hstored := (List.prefix_iff_eq_take.mp htext).symm
    rw [hlen] at hstored
    exact hstored.trans (List.append_nil text).symm
  | cons c chunks ih =>
    have hpos : 0 < c.data.length := List.length_pos_of_ne_nil c.data_ne
    have hdata : text ++ chunkData (c :: chunks) = text ++ c.data ++ chunkData chunks := by
      rw [chunkData, List.flatMap_cons, List.append_assoc, chunkData]
    have hframe : chunkBytes (c :: chunks) ++ (zeros ++ rest) = c.size ++ (crlf ++ c.data) ++
        (crlf ++ (chunkBytes chunks ++ (zeros ++ rest))) := by
      rw [chunkBytes_cons (hext c List.mem_cons_self)]
      simp only [List.append_assoc]
    have hend := @dataEnd_cons c chunks (hext c List.mem_cons_self) m
    rw [hdata] at hroom ⊢
    have hroom' : s.o + c.data.length < outSz := by
      rw [List.length_append, List.length_append, hlen] at hroom
      omega
    by_cases hcome : c.size.length + 2 + c.data.length ≤ m
    · have hsplit : resp.drop s.p = c.size ++ (crlf ++ (c.data ++
          (crlf ++ (chunkBytes chunks ++ (zeros ++ rest))).take
            (m - (c.size.length + 2 + c.data.length)))) := by
        rw [hdrop, hframe, c.take_frame hcome]
      obtain ⟨t, hgo, htfits, htprefix, hto, htdrop⟩ :=
        dechunkStep_data hfits htext hlen hbound hsplit hroom'
      rw [skipEol_crlf] at htdrop
      obtain ⟨hall, hless⟩ := ih (fun d hd ↦ hext d (List.mem_cons_of_mem c hd)) htfits htprefix
        (by rw [List.length_append, hlen, hto]) htdrop hroom
      refine ⟨fun hm ↦ ?_, fun hm n u hu ↦ ?_⟩
      · obtain ⟨u, ⟨n, hn⟩, hu⟩ := hall (by omega)
        exact ⟨u, ⟨n + 1, by rwa [loop_of_go hgo]⟩, hu⟩
      · cases n with
        | zero => cases hu
        | succ n =>
          rw [loop_of_go hgo] at hu
          exact hless (by omega) n u hu
    · refine ⟨fun hm ↦ by omega, fun _ n u hu ↦ ?_⟩
      rw [hframe, List.append_assoc, List.append_assoc] at hdrop
      have hsame : u.o = s.o := by
        cases n with
        | zero => cases hu
        | succ n =>
          rcases dechunkStep_cut hbound hdrop (Nat.lt_of_not_le hcome) hroom' with
            hnone | ⟨p, hstop⟩
          · rw [loop, hnone] at hu
            contradiction
          · rw [loop_of_stop hstop] at hu
            rw [← Turn.stop.inj (Option.some_inj.mp hu)]
      rw [hsame, List.length_append, List.length_append, hlen]
      omega

/-! ## The guess -/

/-- A text is guessed to be chunked by its first size line and the byte behind it. -/
theorem looksChunked_digits {digits rest : CStr} (hne : digits ≠ [])
    (hdigits : ∀ b ∈ digits, isHexDigit b = true) (hvalue : hexNumber digits < 2 ^ w.bits) (n : ℕ) :
    looksChunked w ((digits ++ (crlf ++ rest)).take n) = true ↔
      0 < hexNumber digits ∧ rest.head? = some 123 ∧ digits.length + 3 ≤ n := by
  rw [List.take_append]
  by_cases hcut : n ≤ digits.length
  · have hzero : n - digits.length = 0 := by omega
    rw [hzero, List.take_zero, List.append_nil]
    refine iff_of_false ?_ fun h ↦ by omega
    by_cases hnil : digits.take n = []
    · rw [hnil]
      exact Bool.false_ne_true
    · obtain ⟨k, hnum, -⟩ := strtoulHex_digits w hnil
        (fun b hb ↦ hdigits b (List.mem_of_mem_take hb)) delimits_nil
      rw [List.append_nil] at hnum
      rw [looksChunked, hnum]
      exact Bool.false_ne_true
  · rw [List.take_of_length_le (Nat.le_of_not_le hcut)]
    obtain ⟨k, hnum, hk⟩ := strtoulHex_digits w hne hdigits (delimits_crlf rest (n - digits.length))
    rw [hk hvalue] at hnum
    rw [looksChunked, hnum]
    obtain ⟨j, rfl⟩ := Nat.exists_eq_add_of_lt (Nat.lt_of_not_le hcut)
    have hleft : digits.length + j + 1 - digits.length = j + 1 := by omega
    rw [hleft]
    match j, rest with
    | 0, _ => exact iff_of_false Bool.false_ne_true fun h ↦ by omega
    | 1, _ => exact iff_of_false Bool.false_ne_true fun h ↦ by omega
    | j + 2, [] => exact iff_of_false Bool.false_ne_true fun h ↦ nomatch h.2.1
    | j + 2, b :: t =>
      have htake : (crlf ++ b :: t).take (j + 2 + 1) = 13 :: 10 :: b :: t.take j := rfl
      rw [htake]
      by_cases hb : b = 123
      · rw [hb]
        exact decide_eq_true_iff.trans ⟨fun h ↦ ⟨h, rfl, by omega⟩, fun h ↦ h.1⟩
      · refine iff_of_false ?_ fun h ↦ hb (Option.some_inj.mp h.2.1)
        split
        · rename_i heq
          obtain ⟨-, hrest⟩ := Prod.mk.inj (Option.some_inj.mp heq)
          exact absurd (List.cons.inj (List.cons.inj (List.cons.inj hrest).2).2).1 hb
        · rename_i heq
          obtain ⟨-, hrest⟩ := Prod.mk.inj (Option.some_inj.mp heq)
          exact absurd (List.cons.inj hrest).1 (by decide)
        · exact Bool.false_ne_true

theorem looksChunked_zeros {zeros rest : CStr} (hzeros : ∀ b ∈ zeros, b = 48) (hne : zeros ≠ [])
    (hrest : Delimits rest) (n : ℕ) : looksChunked w ((zeros ++ rest).take n) = false := by
  rcases strtoulHex_zeros w hzeros hne hrest n with hnum | ⟨t, hnum⟩
  · rw [looksChunked, hnum]
  · rw [looksChunked, hnum]
    split
    · rename_i heq
      rw [← (Prod.mk.inj (Option.some_inj.mp heq)).1]
      decide
    · rename_i heq
      rw [← (Prod.mk.inj (Option.some_inj.mp heq)).1]
      decide
    · rfl

theorem exists_of_looksChunked {body : CStr} (h : looksChunked w body = true) :
    ∃ size rest t, strtoulHex w body = some (size, rest) ∧ 0 < size ∧ skipEol rest = 123 :: t := by
  unfold looksChunked at h
  split at h
  · rename_i size t hnum
    exact ⟨size, _, t, hnum, of_decide_eq_true h, rfl⟩
  · rename_i size t hnum
    exact ⟨size, _, t, hnum, of_decide_eq_true h, rfl⟩
  · exact absurd h Bool.false_ne_true

/-- What is put together from a text that looks chunked begins with its brace. -/
theorem dechunk_of_looksChunked {body : CStr} (hlooks : looksChunked w body = true)
    (hdrop : resp.drop s.p = body) (ho : s.o = 0) {n : ℕ} {t : DechunkState} (hroom : 1 < outSz)
    (h : loop (dechunkStep w resp outSz) n s = some (.stop t)) : [123] <+: t.out ∧ 1 ≤ t.o := by
  obtain ⟨size, rest, tl, hnum, hpos, hskip⟩ := exists_of_looksChunked hlooks
  have hline : sizeLine w resp s.p = some (size, resp.length - (skipEol rest).length) := by
    rw [sizeLine, hdrop, hnum]
    rfl
  have hdata : resp.drop (resp.length - (skipEol rest).length) = 123 :: tl := by
    obtain ⟨a, ha⟩ := (strtoulHex_eq_some hnum).2.1
    obtain ⟨b, hb⟩ := skipEol_suffix rest
    refine (drop_of_suffix (p := s.p) (a := a ++ b) ?_).trans hskip
    rw [hdrop, List.append_assoc, ← hb, ha]
  have hstart : s.o + 1 < outSz := by omega
  cases n with
  | zero => cases h
  | succ n =>
    cases hstep : dechunkStep w resp outSz s with
    | none =>
      rw [loop, hstep] at h
      contradiction
    | some turn =>
      cases turn with
      | stop u =>
        rw [dechunkStep_chunk hstart hline hpos.ne'] at hstep
        obtain ⟨bytes, -, hrest⟩ := Option.bind_eq_some_iff.mp hstep
        obtain ⟨out, -, hstop⟩ := Option.map_eq_some_iff.mp hrest
        contradiction
      | go u =>
        obtain ⟨-, size', q, bytes, hline', -, hread, hwrite, huo⟩ := dechunkStep_go hstep
        rw [hline] at hline'
        obtain ⟨rfl, rfl⟩ := Prod.mk.inj (Option.some_inj.mp hline')
        have hcopied : 0 < chunkSize w outSz s.o size := by
          rw [chunkSize]
          split <;> omega
        obtain ⟨k, hk⟩ := Nat.exists_eq_succ_of_ne_zero hcopied.ne'
        obtain ⟨-, hbytes⟩ := Option.ite_none_right_eq_some.mp hread
        rw [hdata, hk, List.take_succ_cons] at hbytes
        have hhead := prefix_of_writeSlice hwrite
        rw [ho, List.take_zero, List.nil_append, ← Option.some_inj.mp hbytes] at hhead
        rw [loop_of_go hstep] at h
        have hfirst : [123] <+: u.out := (List.prefix_append [123] (tl.take k)).trans hhead
        exact loop_keeps hfirst (by rw [List.length_singleton]; omega) h

/-! ## What is received -/

/-- The call ends with this text in `out`. -/
def Stores (run : ℕ → SqlResult) (text : CStr) : Prop := ∃ fuel, run fuel = .stored text

theorem dechunkOutcome_stored {res : Option (Turn DechunkState)} {stored : CStr}
    (h : dechunkOutcome res = .stored stored) :
    ∃ t, res = some (.stop t) ∧ stored.length ≤ t.o ∧
      ∀ text : CStr, text <+: t.out → text.length ≤ t.o → text <+: stored := by
  unfold dechunkOutcome at h
  split at h
  · exact nomatch h
  · exact nomatch h
  · rename_i t
    split at h
    · exact nomatch h
    · rename_i out hwrite
      obtain rfl := SqlResult.stored.inj h
      refine ⟨t, rfl, List.length_take_le _ _, fun text htext hlen ↦ ?_⟩
      have hcopied : text <+: t.out.take t.o := List.prefix_take_iff.mpr ⟨htext, hlen⟩
      exact List.prefix_take_iff.mpr ⟨(hcopied.trans (List.prefix_append _ _)).trans
        (prefix_of_writeSlice hwrite), hlen⟩

variable {errLen : ℕ} {out : List UInt8}

theorem stores_copied_iff (hstatus : responseStatus w resp = 200)
    (hchunked : treatedAsChunked w resp = false) (hout : out.length = outSz) (hpos : 0 < outSz) :
    Stores (storeResponse w resp outSz errLen out) text ↔
      text = ((responseBody resp).takeWhile (· ≠ 0)).take (outSz - 1) := by
  have hrun := storeResponse_copied hstatus hchunked hout hpos errLen
  constructor
  · rintro ⟨fuel, hfuel⟩
    rw [hrun] at hfuel
    exact (SqlResult.stored.inj hfuel).symm
  · rintro rfl
    exact ⟨0, hrun 0⟩

namespace HttpHead

variable (h : HttpHead) {body : CStr}

theorem nul_notMem_text : 0 ∉ h.text := by
  have hlines : ∀ lines : List CStr, (∀ l ∈ lines, LineText l) → 0 ∉ lineBytes lines := by
    intro lines hlines hmem
    obtain ⟨l, hl, hb⟩ := List.mem_flatMap.mp hmem
    rcases List.mem_append.mp hb with hb | hb
    · exact (hlines l hl).nul hb
    · exact absurd hb (by decide)
  rw [text, List.mem_append, not_or]
  exact ⟨hlines _ h.allLines_text, by decide⟩

/-- The end of the head has not come: the beginning of the head is stored. -/
theorem stores_take_iff {n : ℕ} (hn : 13 ≤ n) (hcut : n < h.text.length) (hsz : outSz - 1 ≤ n)
    (hout : out.length = outSz) (hpos : 0 < outSz) :
    Stores (storeResponse w ((h.text ++ body).take n) outSz errLen out) text ↔
      text = h.text.take (outSz - 1) := by
  have hstatus := h.responseStatus_take w body hn
  have htake : (h.text ++ body).take n = h.text.take n := List.take_append_of_le_length hcut.le
  have hbody := h.responseBody_take hcut
  have hnot : treatedAsChunked w (h.text.take n) = false := by
    have hheader : headerChunked (h.text.take n) (h.text.take n) = false := by
      rw [headerChunked, if_pos (Nat.le_add_right _ _)]
    have hlooks : looksChunked w (h.text.take n) = false := by
      obtain ⟨m, rfl⟩ := Nat.exists_eq_add_of_le hn
      have hfirst : ∃ s, h.text = 72 :: s := by
        rw [HttpHead.text, lineBytes_cons, statusLine]
        rcases h.version_eq with hv | hv <;> rw [hv] <;> exact ⟨_, rfl⟩
      obtain ⟨s, hs⟩ := hfirst
      rw [hs, Nat.add_comm]
      rfl
    rw [treatedAsChunked, hbody, hheader, hlooks]
    rfl
  rw [htake] at hstatus ⊢
  rw [stores_copied_iff hstatus hnot hout hpos, hbody,
    takeWhile_of_notMem fun hmem ↦ h.nul_notMem_text (List.mem_of_mem_take hmem), List.take_take,
    Nat.min_eq_left hsz]

theorem take_append {n : ℕ} (hn : h.text.length ≤ n) :
    (h.text ++ body).take n = h.text ++ body.take (n - h.text.length) := by
  rw [List.take_append, List.take_of_length_le hn]

theorem treatedAsChunked_text (w : WordSize) (body : CStr) :
    treatedAsChunked w (h.text ++ body) = (h.misnamed || looksChunked w body) := by
  rw [treatedAsChunked, h.responseBody_text, h.headerChunked_text]

end HttpHead

namespace ChunkedResponse

variable (r : ChunkedResponse)

def bytes : CStr := r.head.text ++ r.raw

theorem delimits_lastExt : Delimits (r.lastExt ++ (crlf ++ r.trailer)) := by
  rcases r.lastExt_ok.2 with hnil | ⟨b, s, heq, hb⟩
  · rw [hnil]
    exact delimits_cons (by decide) _
  · rw [heq]
    refine delimits_cons ?_ _
    rcases hb with rfl | hb
    · decide
    · rw [isBlank, Bool.or_eq_true, beq_iff_eq, beq_iff_eq] at hb
      rcases hb with rfl | rfl <;> decide

/-- Put together, the chunks give the data if all of it has come. -/
theorem stores_dechunked_iff (hext : ∀ c ∈ r.chunks, c.ext = []) {k : ℕ}
    (hsize : outSz ≤ 2 ^ w.bits) (hout : out.length = outSz) (hdata : r.data.length < outSz)
    (hstatus : responseStatus w (r.head.text ++ r.raw.take k) = 200)
    (hchunked : treatedAsChunked w (r.head.text ++ r.raw.take k) = true) :
    Stores (storeResponse w (r.head.text ++ r.raw.take k) outSz errLen out) r.data ↔
      dataEnd r.chunks ≤ k := by
  have hdrop : (r.head.text ++ r.raw.take k).drop
      (dechunkStart (r.head.text ++ r.raw.take k) out).p
        = (chunkBytes r.chunks ++ (r.zeros ++ (r.lastExt ++ (crlf ++ r.trailer)))).take k := by
    rw [dechunkStart, r.head.responseBody_text]
    dsimp only
    rw [List.length_append, Nat.add_sub_cancel, List.drop_left]
    rfl
  obtain ⟨hall, hless⟩ := dechunk_chunks (s := dechunkStart (r.head.text ++ r.raw.take k) out) hext
    r.zeros_eq r.zeros_ne r.delimits_lastExt hsize ⟨hout, Nat.zero_lt_of_lt hdata⟩ List.nil_prefix
    rfl hdrop hdata
  rw [List.nil_append] at hall hless
  rw [storeResponse_dechunked hstatus hchunked]
  constructor
  · rintro ⟨fuel, hfuel⟩
    obtain ⟨t, ht, hle, -⟩ := dechunkOutcome_stored hfuel
    by_contra hcut
    exact absurd (hless (Nat.lt_of_not_le hcut) fuel t ht) (Nat.not_lt_of_le hle)
  · intro hcome
    obtain ⟨t, ⟨fuel, hends⟩, htfits, hstored⟩ := hall hcome
    refine ⟨fuel, ?_⟩
    dsimp only
    rw [hends, dechunkOutcome_stop htfits, hstored]
    rfl

theorem nul_notMem_raw : 0 ∉ r.raw := by
  have hext : ∀ e : CStr, ChunkExt e → 0 ∉ e := fun e he ↦ he.1.nul
  have hchunk : ∀ c : HttpChunk, 0 ∉ c.bytes := by
    intro c
    rw [HttpChunk.bytes]
    simp only [List.mem_append, not_or]
    exact ⟨fun h ↦ (not_hexDigit (c.size_digits 0 h)).2.2.2.2.2.1 rfl, hext _ c.ext_ok, by decide,
      c.data_clean, by decide⟩
  rw [raw, last, chunkBytes]
  simp only [List.mem_append, not_or, List.mem_flatMap, not_exists, not_and]
  exact ⟨fun c _ ↦ hchunk c, fun h ↦ absurd (r.zeros_eq 0 h) (by decide), hext _ r.lastExt_ok,
    by decide, r.trailer_clean⟩

/-- When the body is guessed to be chunked: if its data begins with a brace, and that has come. -/
theorem looksChunked_raw (w : WordSize) (hext : ∀ c ∈ r.chunks, c.ext = [])
    (hsize : r.data.length < 2 ^ w.bits) (k : ℕ) :
    looksChunked w (r.raw.take k) = true ↔
      ∃ c cs, r.chunks = c :: cs ∧ c.data.head? = some 123 ∧ c.size.length + 3 ≤ k := by
  cases hchunks : r.chunks with
  | nil =>
    have hraw : r.raw = r.zeros ++ (r.lastExt ++ (crlf ++ r.trailer)) := by
      rw [raw, hchunks]
      rfl
    rw [hraw, looksChunked_zeros r.zeros_eq r.zeros_ne r.delimits_lastExt]
    exact iff_of_false Bool.false_ne_true fun ⟨_, _, h, _⟩ ↦ nomatch h
  | cons c cs =>
    have hpos : 0 < c.data.length := List.length_pos_of_ne_nil c.data_ne
    have hlt : c.data.length < 2 ^ w.bits := by
      rw [data, hchunks, chunkData, List.flatMap_cons, List.length_append] at hsize
      omega
    have hraw : r.raw = c.size ++ (crlf ++ (c.data ++ (crlf ++ (chunkBytes cs ++ r.last)))) := by
      rw [raw, hchunks, chunkBytes_cons (hext c (hchunks ▸ List.mem_cons_self))]
      simp only [List.append_assoc]
    have hhead : (c.data ++ (crlf ++ (chunkBytes cs ++ r.last))).head? = c.data.head? :=
      List.head?_append_of_ne_nil c.data c.data_ne
    rw [hraw, looksChunked_digits c.size_ne c.size_digits (by rw [c.size_eq]; exact hlt), hhead,
      c.size_eq]
    constructor
    · rintro ⟨-, hbrace, hk⟩
      exact ⟨c, cs, rfl, hbrace, hk⟩
    · rintro ⟨d, ds, heq, hbrace, hk⟩
      obtain ⟨rfl, -⟩ := List.cons.inj heq
      exact ⟨hpos, hbrace, hk⟩

theorem head?_data {c : HttpChunk} {cs : List HttpChunk} (h : r.chunks = c :: cs) :
    r.data.head? = c.data.head? := by
  rw [data, h, chunkData, List.flatMap_cons]
  exact List.head?_append_of_ne_nil c.data c.data_ne

theorem exists_chunk (h : r.data.head? = some 123) : ∃ c cs, r.chunks = c :: cs := by
  cases hchunks : r.chunks with
  | nil =>
    rw [data, hchunks] at h
    exact nomatch h
  | cons c cs => exact ⟨c, cs, rfl⟩

theorem data_ne_take (h : r.data.head? = some 123) (n : ℕ) : r.data ≠ r.raw.take n := by
  intro heq
  obtain ⟨c, cs, hchunks⟩ := r.exists_chunk h
  obtain ⟨b, s, hsize⟩ := List.exists_cons_of_ne_nil c.size_ne
  have hraw : ∃ t, r.raw = b :: t := by
    rw [raw, hchunks, chunkBytes, List.flatMap_cons, HttpChunk.bytes, hsize]
    exact ⟨_, rfl⟩
  obtain ⟨t, ht⟩ := hraw
  rw [heq, ht] at h
  cases n with
  | zero => exact nomatch h
  | succ n =>
    have hb := not_hexDigit (c.size_digits b (hsize ▸ List.mem_cons_self))
    exact hb.2.2.2.2.2.2 (Option.some_inj.mp h)

/-- The response is stored as its data exactly if: all of the data has come, and a brace at its
beginning or a misnamed header gives the chunks away; or else the text that is taken for the body
happens to be the data. -/
def Decodes (outSz : ℕ) : Prop :=
  if outSz + 8191 < r.head.text.length then r.data = r.head.text.take (outSz - 1)
  else if r.head.misnamed = true ∨ r.data.head? = some 123 then
    dataEnd r.chunks ≤ outSz + 8191 - r.head.text.length
  else r.data = r.raw.take (min (outSz - 1) (outSz + 8191 - r.head.text.length))

theorem stores_iff (hext : ∀ c ∈ r.chunks, c.ext = []) (hsz : 8 ≤ outSz)
    (hbound : outSz ≤ 2 ^ w.bits) (hout : out.length = outSz) (hdata : r.data.length < outSz) :
    Stores (storeResponse w (r.bytes.take (outSz + 8191)) outSz errLen out) r.data ↔
      r.Decodes outSz := by
  have hpos : 0 < outSz := by omega
  rw [Decodes, bytes]
  by_cases hcut : outSz + 8191 < r.head.text.length
  · rw [if_pos hcut]
    exact r.head.stores_take_iff (by omega) hcut (by omega) hout hpos
  · have hstatus := r.head.responseStatus_take w r.raw (n := outSz + 8191) (by omega)
    rw [if_neg hcut, r.head.take_append (Nat.le_of_not_lt hcut)] at *
    generalize outSz + 8191 - r.head.text.length = k at *
    have htreated := r.head.treatedAsChunked_text w (r.raw.take k)
    have hlooks := r.looksChunked_raw w hext (by omega) k
    by_cases hknown : treatedAsChunked w (r.head.text ++ r.raw.take k) = true
    · rw [r.stores_dechunked_iff hext hbound hout hdata hstatus hknown]
      rw [htreated, Bool.or_eq_true] at hknown
      have hgiven : r.head.misnamed = true ∨ r.data.head? = some 123 := by
        refine hknown.imp_right fun hl ↦ ?_
        obtain ⟨c, cs, hchunks, hbrace, -⟩ := hlooks.mp hl
        rw [r.head?_data hchunks, hbrace]
      rw [if_pos hgiven]
    · rw [stores_copied_iff hstatus (Bool.eq_false_iff.mpr hknown) hout hpos,
        r.head.responseBody_text, takeWhile_of_notMem fun hmem ↦
          r.nul_notMem_raw (List.mem_of_mem_take hmem), List.take_take]
      rw [htreated, Bool.or_eq_true, not_or] at hknown
      by_cases hbrace : r.data.head? = some 123
      · -- the brace has not come, and the body does not begin with one
        rw [if_pos (Or.inr hbrace)]
        refine iff_of_false (r.data_ne_take hbrace _) fun hcome ↦ hknown.2 (hlooks.mpr ?_)
        obtain ⟨c, cs, hchunks⟩ := r.exists_chunk hbrace
        have hpos : 0 < c.data.length := List.length_pos_of_ne_nil c.data_ne
        rw [hchunks, dataEnd_cons (hext c (hchunks ▸ List.mem_cons_self))] at hcome
        rw [r.head?_data hchunks] at hbrace
        exact ⟨c, cs, hchunks, hbrace, by omega⟩
      · rw [if_neg (not_or.mpr ⟨hknown.1, hbrace⟩)]

end ChunkedResponse

/-! ## Responses that are not chunked -/

/-- A response with status 200 that does not announce chunks. -/
structure PlainResponse where
  head : HttpHead
  silent : ¬ head.Announces
  body : CStr

namespace PlainResponse

variable (r : PlainResponse)

def bytes : CStr := r.head.text ++ r.body

def kept (outSz : ℕ) : CStr := r.body.take (outSz - 1)

/-- The body is stored exactly if it has come as far as there is room for it, has no NUL there, and
does not look chunked; or if the head is too long and its beginning happens to be the body. -/
def Copies (w : WordSize) (outSz : ℕ) : Prop :=
  if outSz + 8191 < r.head.text.length then r.kept outSz = r.head.text.take (outSz - 1)
  else
    looksChunked w (r.body.take (outSz + 8191 - r.head.text.length)) = false ∧ 0 ∉ r.kept outSz ∧
      (r.kept outSz).length ≤ outSz + 8191 - r.head.text.length

theorem stores_iff (hnamed : r.head.misnamed = false) (hsz : 8 ≤ outSz)
    (hout : out.length = outSz) :
    Stores (storeResponse w (r.bytes.take (outSz + 8191)) outSz errLen out) (r.kept outSz) ↔
      r.Copies w outSz := by
  have hpos : 0 < outSz := by omega
  rw [Copies, bytes]
  by_cases hcut : outSz + 8191 < r.head.text.length
  · rw [if_pos hcut]
    exact r.head.stores_take_iff (by omega) hcut (by omega) hout hpos
  · have hstatus := r.head.responseStatus_take w r.body (n := outSz + 8191) (by omega)
    rw [if_neg hcut, r.head.take_append (Nat.le_of_not_lt hcut)] at *
    generalize outSz + 8191 - r.head.text.length = k at *
    have htreated := r.head.treatedAsChunked_text w (r.body.take k)
    rw [hnamed, Bool.false_or] at htreated
    cases hlooks : looksChunked w (r.body.take k) with
    | true =>
      -- what is stored begins with a brace, and the body does not
      refine iff_of_false (fun hstores ↦ ?_) fun h ↦ absurd h.1 (by decide)
      rw [storeResponse_dechunked hstatus (htreated.trans hlooks)] at hstores
      obtain ⟨fuel, hfuel⟩ := hstores
      obtain ⟨t, ht, -, hstored⟩ := dechunkOutcome_stored hfuel
      have hdrop : (r.head.text ++ r.body.take k).drop
          (dechunkStart (r.head.text ++ r.body.take k) out).p = r.body.take k := by
        rw [dechunkStart, r.head.responseBody_text]
        dsimp only
        rw [List.length_append, Nat.add_sub_cancel, List.drop_left]
      obtain ⟨hhead, ho⟩ := dechunk_of_looksChunked hlooks hdrop rfl (by omega) ht
      obtain ⟨b, hb⟩ := (hstored [123] hhead ho).trans (List.take_prefix _ _)
      obtain ⟨size, rest, tl, hnum, -⟩ := exists_of_looksChunked hlooks
      rw [← hb] at hnum
      cases k with
      | zero => exact nomatch hnum
      | succ k => exact nomatch hnum
    | false =>
      rw [stores_copied_iff hstatus (htreated.trans hlooks) hout hpos, r.head.responseBody_text,
        List.take_takeWhile, List.take_take]
      have hcome : r.body.take (min (outSz - 1) k) = (r.kept outSz).take k := by
        rw [kept, List.take_take, Nat.min_comm]
      rw [hcome]
      constructor
      · intro hkept
        refine ⟨rfl, fun hmem ↦ ?_, ?_⟩
        · rw [hkept] at hmem
          have hne := List.mem_takeWhile_imp hmem
          exact absurd rfl (of_decide_eq_true hne)
        · rw [hkept]
          exact ((List.takeWhile_prefix _).length_le).trans (List.length_take_le _ _)
      · rintro ⟨-, hclean, hlen⟩
        rw [List.take_of_length_le hlen, takeWhile_of_notMem hclean]

end PlainResponse

/-! ## The call -/

theorem stores_httpPostSql_iff {env : SqlEnv} {c : SqlCall} (hsends : env.Sends c)
    (errLen : ℕ) (out : List UInt8) (text : CStr) :
    Stores (httpPostSql w env c out.length errLen out) text ↔ 8 ≤ out.length ∧
      Stores (storeResponse w (env.arrival.response.take (out.length + 8191)) out.length errLen out)
        text := by
  by_cases hsz : 8 ≤ out.length
  · have hrun : httpPostSql w env c out.length errLen out
        = storeResponse w (responseReceived out.length env.arrival) out.length errLen out :=
      funext fun fuel ↦ httpPostSql_of_sends hsends hsz errLen out fuel
    rw [hrun, responseReceived]
    exact (and_iff_right hsz).symm
  · obtain ⟨err, hfailed⟩ := @httpPostSql_failed w _ env c (fun h ↦ hsz h.1) errLen out
    refine iff_of_false ?_ fun h ↦ hsz h.1
    rintro ⟨fuel, hfuel⟩
    rw [hfailed] at hfuel
    contradiction

/-- A response that announces chunks, none of which has an extension, is stored as its data, and one
that does not, and has no misnamed header, as its body, exactly in the cases of `Decodes` and
`Copies`. -/
theorem httpPostSql_stores_iff (w : WordSize) (env : SqlEnv) (c : SqlCall) (hsends : env.Sends c)
    (errLen : ℕ) (out : List UInt8) (hsize : out.length + 8192 < 2 ^ (w.bits - 1)) :
    (∀ r : ChunkedResponse, env.arrival.response = r.bytes → (∀ d ∈ r.chunks, d.ext = []) →
      r.data.length < out.length →
      (Stores (httpPostSql w env c out.length errLen out) r.data ↔
        8 ≤ out.length ∧ r.Decodes out.length)) ∧
    ∀ r : PlainResponse, env.arrival.response = r.bytes → r.head.misnamed = false →
      (Stores (httpPostSql w env c out.length errLen out) (r.kept out.length) ↔
        8 ≤ out.length ∧ r.Copies w out.length) := by
  have hhalf : 2 ^ (w.bits - 1) + 2 ^ (w.bits - 1) = 2 ^ w.bits := by cases w <;> rfl
  refine ⟨fun r hr hext hdata ↦ ?_, fun r hr hnamed ↦ ?_⟩
  · rw [stores_httpPostSql_iff hsends, hr]
    exact and_congr_right fun hsz ↦ r.stores_iff hext hsz (by omega) rfl hdata
  · rw [stores_httpPostSql_iff hsends, hr]
    exact and_congr_right fun hsz ↦ r.stores_iff hnamed hsz rfl

theorem answering_response {response : CStr} (h : response ≠ []) :
    (answering response h).arrival.response = response := List.flatten_singleton

def chunkedHead : HttpHead where
  version := ascii "HTTP/1.1"
  reason := ascii " OK"
  lines := [ascii "transfer-encoding: Chunked"]
  version_eq := Or.inl rfl
  reason_text := by rw [LineText]; decide
  reason_blank := Or.inr ⟨_, rfl⟩
  lines_ne := by decide
  lines_text := by
    intro l hl
    rw [List.mem_singleton.mp hl, LineText]
    decide

theorem chunkedHead_announces : chunkedHead.Announces :=
  ⟨_, List.mem_singleton_self _, [32], [], by decide, by decide⟩

def rowResponse : ChunkedResponse where
  head := chunkedHead
  announces := chunkedHead_announces
  chunks := [⟨ascii "3", [], ascii "{1}", by decide, by decide, ⟨by rw [LineText]; decide,
    Or.inl rfl⟩, by decide, by decide⟩]
  zeros := ascii "0"
  lastExt := []
  trailer := crlf
  zeros_ne := by decide
  zeros_eq := by decide
  lastExt_ok := ⟨by rw [LineText]; decide, Or.inl rfl⟩
  trailer_clean := by decide

def emptyResponse : ChunkedResponse := { rowResponse with chunks := [] }

def numberedResponse : PlainResponse where
  head := { chunkedHead with lines := [], lines_ne := nofun, lines_text := nofun }
  silent := nofun
  body := ascii "5\r\n\x7bhello"

theorem httpPostSql_stores_row :
    Stores (httpPostSql .w64 (answering rowResponse.bytes (by decide)) sqlCall 64 160
      (List.replicate 64 0)) (ascii "{1}") :=
  (((httpPostSql_stores_iff .w64 _ sqlCall (answering_sends (by decide)) 160 (List.replicate 64 0)
    (by decide)).1 rowResponse (answering_response _) (by decide) (by decide)).mpr
      ⟨by decide, by rw [ChunkedResponse.Decodes]; decide⟩)

/-- Neither is stored: not the empty data, and not the body. -/
theorem httpPostSql_misjudges :
    ¬ Stores (httpPostSql .w64 (answering emptyResponse.bytes (by decide)) sqlCall 64 160
        (List.replicate 64 0)) emptyResponse.data ∧
      ¬ Stores (httpPostSql .w64 (answering numberedResponse.bytes (by decide)) sqlCall 64 160
        (List.replicate 64 0)) (numberedResponse.kept 64) := by
  have hlen : (List.replicate 64 (0 : UInt8)).length = 64 := List.length_replicate
  constructor
  · intro h
    have hempty := (stores_httpPostSql_iff (answering_sends (by decide)) 160
      (List.replicate 64 0) emptyResponse.data).mp h
    rw [answering_response, hlen] at hempty
    have hdecodes := (emptyResponse.stores_iff (by decide) (by decide) (by decide) hlen
      (by decide)).mp hempty.2
    rw [ChunkedResponse.Decodes] at hdecodes
    exact absurd hdecodes (by decide)
  · intro h
    have hnumbered := (stores_httpPostSql_iff (answering_sends (by decide)) 160
      (List.replicate 64 0) (numberedResponse.kept 64)).mp h
    rw [answering_response, hlen] at hnumbered
    have hcopies := (numberedResponse.stores_iff (by decide) (by decide) hlen).mp hnumbered.2
    rw [PlainResponse.Copies] at hcopies
    exact absurd hcopies (by decide)

end NetForensics
