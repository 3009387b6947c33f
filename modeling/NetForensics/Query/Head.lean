import NetForensics.Query.Response

/-!
# The head of a response

A well-formed head is a status line, header lines and an empty line. The split finds its end, if all
of it has been received, and the search for the transfer coding goes from line to line; but what it
takes for the value begins with the colon, so that the header it looks for is not the one it finds
(`headerChunked_text`).
-/

namespace NetForensics

def LineText (l : CStr) : Prop := ∀ b ∈ l, b ≠ 0 ∧ b ≠ 10 ∧ b ≠ 13

/-- The head of a response with status 200. -/
structure HttpHead where
  version : CStr
  reason : CStr
  lines : List CStr
  version_eq : version = ascii "HTTP/1.1" ∨ version = ascii "HTTP/1.0"
  reason_text : LineText reason
  /-- A blank comes before a reason. -/
  reason_blank : reason = [] ∨ ∃ s, reason = 32 :: s
  lines_ne : ∀ l ∈ lines, l ≠ []
  lines_text : ∀ l ∈ lines, LineText l

def lineBytes (lines : List CStr) : CStr := lines.flatMap (· ++ crlf)

namespace HttpHead

def statusLine (h : HttpHead) : CStr := h.version ++ ascii " 200" ++ h.reason

def text (h : HttpHead) : CStr := lineBytes (h.statusLine :: h.lines) ++ crlf

/-- One of the lines is `Transfer-Encoding: chunked`, in any case. -/
def Announces (h : HttpHead) : Prop :=
  ∃ l ∈ h.lines, ∃ before after : CStr, (∀ b ∈ before ++ after, isBlank b = true) ∧
    l.map toLower = ascii "transfer-encoding:" ++ before ++ ascii "chunked" ++ after

end HttpHead

/-- What the search for the transfer coding makes of a list of lines. -/
def linesChunked (lines : List CStr) : Bool :=
  match lines.find? (startsWithCase (ascii "transfer-encoding")) with
  | some l => startsWithCase (ascii "chunked") ((l.drop 17).dropWhile isBlank)
  | none => false

/-! ## Searching -/

variable {pat s body : CStr} {l : CStr} {lines : List CStr}

theorem strstr_cons_of_not {b : UInt8} (hb : b ≠ 0) (h : ¬ pat <+: b :: s) :
    strstr pat (b :: s) = strstr pat s := by
  rw [strstr, if_neg hb, if_neg h]

theorem strstr_self_append (hne : pat ≠ []) (hclean : 0 ∉ pat) :
    strstr pat (pat ++ s) = some s := by
  cases pat with
  | nil => exact absurd rfl hne
  | cons b pat =>
    have hb : b ≠ 0 := fun h ↦ hclean (h ▸ List.mem_cons_self)
    rw [List.cons_append, strstr, if_neg hb, ← List.cons_append, if_pos (List.prefix_append _ _),
      List.drop_left]

theorem strstr_line (pat s : CStr) {b : UInt8} (hb : b ∉ l) (hl : 0 ∉ l) :
    strstr (b :: pat) (l ++ s) = strstr (b :: pat) s := by
  induction l with
  | nil => rfl
  | cons c l ih =>
    have hc : ¬ (b :: pat) <+: c :: (l ++ s) := by
      rw [List.cons_prefix_cons]
      exact fun h ↦ hb (h.1 ▸ List.mem_cons_self)
    rw [List.cons_append, strstr_cons_of_not (fun h ↦ hl (h ▸ List.mem_cons_self)) hc]
    exact ih (fun h ↦ hb (List.mem_cons_of_mem c h)) fun h ↦ hl (List.mem_cons_of_mem c h)

theorem strstr_append {t rest : CStr} (h : strstr pat s = some rest) :
    strstr pat (s ++ t) = some (rest ++ t) := by
  induction s with
  | nil => exact nomatch h
  | cons b s ih =>
    rw [strstr] at h
    rw [List.cons_append, strstr]
    split_ifs at h with hnul hpre
    · rw [if_neg hnul, if_pos (List.cons_append ▸ hpre.trans (List.prefix_append _ t)),
        ← Option.some_inj.mp h, ← List.cons_append,
        List.drop_append_of_le_length hpre.length_le]
    · by_cases hlong : pat <+: b :: (s ++ t)
      · -- it is found further on, so that it is not longer than the text
        have hlen := length_strstr h
        rw [← List.cons_append] at hlong
        exact absurd (List.prefix_of_prefix_length_le hlong (List.prefix_append _ t)
          (by rw [List.length_cons]; omega)) hpre
      · rw [if_neg hnul, if_neg hlong]
        exact ih h

theorem lineBytes_cons (l : CStr) (lines : List CStr) :
    lineBytes (l :: lines) = l ++ (crlf ++ lineBytes lines) := by
  rw [lineBytes, List.flatMap_cons, List.append_assoc, lineBytes]

theorem LineText.nul (h : LineText l) : 0 ∉ l := fun hmem ↦ (h 0 hmem).1 rfl

theorem LineText.lf (h : LineText l) : 10 ∉ l := fun hmem ↦ (h 10 hmem).2.1 rfl

theorem LineText.cr (h : LineText l) : 13 ∉ l := fun hmem ↦ (h 13 hmem).2.2 rfl

theorem strstr_crlf (h : LineText l) : strstr crlf (l ++ (crlf ++ s)) = some s := by
  have hline := strstr_line [10] (crlf ++ s) h.cr h.nul
  exact hline.trans (strstr_self_append (List.cons_ne_nil _ _) (by decide))

theorem lineBytes_head (hne : ∀ l ∈ lines, l ≠ []) (htext : ∀ l ∈ lines, LineText l) (s : CStr) :
    ∃ b t, lineBytes lines ++ (crlf ++ s) = b :: t ∧ b ≠ 10 ∧ (lines ≠ [] → b ≠ 13) := by
  cases lines with
  | nil => exact ⟨13, 10 :: s, rfl, by decide, fun h ↦ absurd rfl h⟩
  | cons l lines =>
    obtain ⟨b, t, rfl⟩ := List.exists_cons_of_ne_nil (hne l List.mem_cons_self)
    have hb := htext _ List.mem_cons_self b List.mem_cons_self
    exact ⟨b, t ++ (crlf ++ lineBytes lines) ++ (crlf ++ s), by
      rw [lineBytes_cons]
      rfl, hb.2.1, fun _ ↦ hb.2.2⟩

theorem strstr_emptyLine (hlines : lines ≠ []) (hne : ∀ l ∈ lines, l ≠ [])
    (htext : ∀ l ∈ lines, LineText l) (body : CStr) :
    strstr (crlf ++ crlf) (lineBytes lines ++ (crlf ++ body)) = some body := by
  induction lines with
  | nil => exact absurd rfl hlines
  | cons l lines ih =>
    have hl := htext l List.mem_cons_self
    have hskip := strstr_line [10, 13, 10] (crlf ++ (lineBytes lines ++ (crlf ++ body)))
      hl.cr hl.nul
    have hpat : crlf ++ crlf = 13 :: [10, 13, 10] := rfl
    rw [lineBytes_cons, List.append_assoc, List.append_assoc, hpat, hskip, ← hpat]
    cases lines with
    | nil => exact strstr_self_append (List.cons_ne_nil _ _) (by decide)
    | cons l' lines =>
      have hne' : ∀ k ∈ l' :: lines, k ≠ [] := fun k hk ↦ hne k (List.mem_cons_of_mem l hk)
      have htext' : ∀ k ∈ l' :: lines, LineText k := fun k hk ↦ htext k (List.mem_cons_of_mem l hk)
      obtain ⟨b, t, heq, -, hb⟩ := lineBytes_head hne' htext' body
      have hrest := ih (List.cons_ne_nil _ _) hne' htext'
      rw [heq] at hrest ⊢
      have hcr : ¬ crlf ++ crlf <+: 13 :: 10 :: b :: t := by
        rw [hpat, List.cons_prefix_cons, List.cons_prefix_cons, List.cons_prefix_cons]
        exact fun h ↦ hb (List.cons_ne_nil _ _) h.2.2.1.symm
      have hlf : ¬ crlf ++ crlf <+: 10 :: b :: t := by
        rw [hpat, List.cons_prefix_cons]
        exact fun h ↦ absurd h.1 (by decide)
      exact ((strstr_cons_of_not (by decide) hcr).trans
        (strstr_cons_of_not (by decide) hlf)).trans hrest

theorem strstr_lf (hne : ∀ l ∈ lines, l ≠ []) (htext : ∀ l ∈ lines, LineText l) :
    strstr [10, 10] (lineBytes lines ++ crlf) = none := by
  induction lines with
  | nil => decide
  | cons l lines ih =>
    have hl := htext l List.mem_cons_self
    have hne' : ∀ k ∈ lines, k ≠ [] := fun k hk ↦ hne k (List.mem_cons_of_mem l hk)
    have htext' : ∀ k ∈ lines, LineText k := fun k hk ↦ htext k (List.mem_cons_of_mem l hk)
    have hskip := strstr_line [10] (crlf ++ (lineBytes lines ++ crlf)) hl.lf hl.nul
    obtain ⟨b, t, heq, hb, -⟩ := lineBytes_head hne' htext' []
    rw [List.append_nil] at heq
    have hrest := ih hne' htext'
    rw [lineBytes_cons, List.append_assoc, List.append_assoc, hskip]
    rw [heq] at hrest ⊢
    have hcr : ¬ [10, 10] <+: (13 : UInt8) :: 10 :: b :: t := by
      rw [List.cons_prefix_cons]
      exact fun h ↦ absurd h.1 (by decide)
    have hlf : ¬ [10, 10] <+: (10 : UInt8) :: b :: t := by
      rw [List.cons_prefix_cons, List.cons_prefix_cons]
      exact fun h ↦ hb h.2.1.symm
    exact ((strstr_cons_of_not (by decide) hcr).trans
      (strstr_cons_of_not (by decide) hlf)).trans hrest

/-! ## The status -/

theorem atoi_status (w : WordSize) {c : UInt8} (hc : isDigit c = false) (s : CStr) :
    atoi w (ascii "200" ++ c :: s) = 200 := by
  have hspace : (ascii "200" ++ c :: s).dropWhile isSpace = ascii "200" ++ c :: s :=
    List.dropWhile_cons_of_neg (by decide)
  have hsign : takeSign (ascii "200" ++ c :: s) = (false, ascii "200" ++ c :: s) := rfl
  have hdigits : (ascii "200" ++ c :: s).takeWhile isDigit = ascii "200" := by
    rw [List.takeWhile_append_of_pos (by decide), List.takeWhile_cons_of_neg (by simp [hc]),
      List.append_nil]
  rw [atoi, hspace, hsign]
  dsimp only
  rw [hdigits]
  cases w <;> decide

theorem responseStatus_eq (w : WordSize) {v : CStr} (hhttp : ascii "HTTP/" <+: v)
    (hblank : 32 ∉ v) (hnul : 0 ∉ v) {c : UInt8} (hc : isDigit c = false) {s : CStr} :
    responseStatus w (v ++ ascii " 200" ++ c :: s) = 200 := by
  have hfind : strstr [32] (v ++ (ascii " 200" ++ c :: s)) = some (ascii "200" ++ c :: s) :=
    (strstr_line [] _ hblank hnul).trans (strstr_self_append (s := ascii "200" ++ c :: s)
      (List.cons_ne_nil _ _) (by decide))
  rw [List.append_assoc, responseStatus, if_pos (hhttp.trans (List.prefix_append _ _)), hfind]
  exact atoi_status w hc s

/-! ## The split -/

namespace HttpHead

variable (h : HttpHead)

theorem statusLine_text : LineText h.statusLine := by
  have hfixed : ∀ s : CStr, s = ascii "HTTP/1.1" ∨ s = ascii "HTTP/1.0" ∨ s = ascii " 200" →
      LineText s := by
    rintro s (rfl | rfl | rfl) <;> rw [LineText] <;> decide
  intro b hb
  rw [statusLine, List.mem_append, List.mem_append] at hb
  rcases hb with (hb | hb) | hb
  · exact hfixed _ (h.version_eq.imp_right Or.inl) b hb
  · exact hfixed _ (Or.inr (Or.inr rfl)) b hb
  · exact h.reason_text b hb

theorem allLines_ne : ∀ l ∈ h.statusLine :: h.lines, l ≠ [] := by
  intro l hl
  rcases List.mem_cons.mp hl with rfl | hl
  · rw [statusLine, List.append_assoc]
    refine List.append_ne_nil_of_left_ne_nil ?_ _
    rcases h.version_eq with hv | hv <;> rw [hv] <;> decide
  · exact h.lines_ne l hl

theorem allLines_text : ∀ l ∈ h.statusLine :: h.lines, LineText l := by
  intro l hl
  rcases List.mem_cons.mp hl with rfl | hl
  · exact h.statusLine_text
  · exact h.lines_text l hl

theorem text_append (body : CStr) :
    h.text ++ body = lineBytes (h.statusLine :: h.lines) ++ (crlf ++ body) :=
  List.append_assoc _ _ _

theorem strstr_text (body : CStr) : strstr (crlf ++ crlf) (h.text ++ body) = some body := by
  rw [text_append]
  exact strstr_emptyLine (List.cons_ne_nil _ _) h.allLines_ne h.allLines_text body

theorem responseBody_text (body : CStr) : responseBody (h.text ++ body) = body := by
  rw [responseBody, h.strstr_text]
  rfl

theorem strstr_take {pat : CStr} {n : ℕ} (hpat : ∀ rest, strstr pat h.text = some rest → rest = [])
    (hn : n < h.text.length) : strstr pat (h.text.take n) = none := by
  cases hfound : strstr pat (h.text.take n) with
  | none => rfl
  | some rest =>
    have hlong := strstr_append (t := h.text.drop n) hfound
    rw [List.take_append_drop] at hlong
    have hnil := (List.append_eq_nil_iff.mp (hpat _ hlong)).2
    rw [List.drop_eq_nil_iff] at hnil
    exact absurd hnil (Nat.not_le_of_lt hn)

/-- Without the end of the head, all of it is taken for the body. -/
theorem responseBody_take {n : ℕ} (hn : n < h.text.length) :
    responseBody (h.text.take n) = h.text.take n := by
  have hblank : strstr (crlf ++ crlf) (h.text.take n) = none := by
    refine h.strstr_take (fun rest hrest ↦ ?_) hn
    have htext := h.strstr_text []
    rw [List.append_nil, hrest] at htext
    exact Option.some_inj.mp htext
  have hlf : strstr [10, 10] (h.text.take n) = none := by
    refine h.strstr_take (fun rest hrest ↦ ?_) hn
    rw [text, strstr_lf h.allLines_ne h.allLines_text] at hrest
    exact nomatch hrest
  rw [responseBody, hblank, hlf]
  rfl

theorem responseStatus_take (w : WordSize) (body : CStr) {n : ℕ} (hn : 13 ≤ n) :
    responseStatus w ((h.text ++ body).take n) = 200 := by
  -- after the number comes a blank or the end of the line
  obtain ⟨c, rest, hc, hrest⟩ : ∃ c rest, isDigit c = false ∧
      h.text ++ body = h.version ++ ascii " 200" ++ c :: rest := by
    rw [text_append, lineBytes_cons, statusLine]
    rcases h.reason_blank with hnil | ⟨s, hs⟩
    · rw [hnil, List.append_nil, List.append_assoc]
      exact ⟨13, _, by decide, rfl⟩
    · rw [hs]
      refine ⟨32, s ++ (crlf ++ lineBytes h.lines) ++ (crlf ++ body), by decide, ?_⟩
      simp only [List.append_assoc, List.cons_append]
  have hlen : (h.version ++ ascii " 200").length = 12 := by
    rcases h.version_eq with hv | hv <;> rw [hv] <;> decide
  obtain ⟨m, rfl⟩ := Nat.exists_eq_add_of_le hn
  have htake : (h.version ++ ascii " 200" ++ c :: rest).take (13 + m)
      = h.version ++ ascii " 200" ++ c :: rest.take m := by
    have hsum : 13 + m = (h.version ++ ascii " 200").length + (m + 1) := by
      rw [hlen]
      omega
    rw [hsum, List.take_length_add_append, List.take_succ_cons]
  rw [hrest, htake]
  rcases h.version_eq with hv | hv
  · rw [hv]
    exact responseStatus_eq w (by decide) (by decide) (by decide) hc
  · rw [hv]
    exact responseStatus_eq w (by decide) (by decide) (by decide) hc

end HttpHead

/-! ## The search for the transfer coding -/

@[simp] theorem startsWithCase_nil (s : CStr) : startsWithCase [] s = true := rfl

@[simp] theorem startsWithCase_cons_nil (b : UInt8) (pat : CStr) :
    startsWithCase (b :: pat) [] = false := rfl

@[simp] theorem startsWithCase_cons_cons (b c : UInt8) (pat s : CStr) :
    startsWithCase (b :: pat) (c :: s) = (toLower c == b && startsWithCase pat s) := rfl

theorem length_le_of_startsWithCase (h : startsWithCase pat s = true) : pat.length ≤ s.length := by
  rw [startsWithCase, beq_iff_eq] at h
  have hlen := congrArg List.length h
  rw [List.length_map, List.length_take] at hlen
  omega

theorem startsWithCase_line (hpat : 13 ∉ pat) (l s : CStr) :
    startsWithCase pat (l ++ (crlf ++ s)) = startsWithCase pat l := by
  induction pat generalizing l with
  | nil => rfl
  | cons b pat ih =>
    cases l with
    | nil =>
      have hb : (toLower 13 == b) = false := by
        rw [beq_eq_false_iff_ne]
        exact fun h ↦ hpat (h ▸ List.mem_cons_self)
      rw [List.nil_append, crlf, List.cons_append, startsWithCase_cons_cons, hb, Bool.false_and,
        startsWithCase_cons_nil]
    | cons c l =>
      rw [List.cons_append, startsWithCase_cons_cons, startsWithCase_cons_cons,
        ih fun h ↦ hpat (List.mem_cons_of_mem b h)]

theorem dropWhile_isBlank_line (l s : CStr) :
    (l ++ (crlf ++ s)).dropWhile isBlank = l.dropWhile isBlank ++ (crlf ++ s) := by
  induction l with
  | nil => exact List.dropWhile_cons_of_neg (by decide)
  | cons b l ih =>
    rw [List.cons_append]
    cases hb : isBlank b with
    | true => rw [List.dropWhile_cons_of_pos hb, List.dropWhile_cons_of_pos hb, ih]
    | false =>
      rw [List.dropWhile_cons_of_neg (by simp [hb]), List.dropWhile_cons_of_neg (by simp [hb]),
        List.cons_append]

theorem length_le_lineBytes (hl : l ∈ lines) : l.length + 2 ≤ (lineBytes lines).length := by
  induction lines with
  | nil => exact absurd hl List.not_mem_nil
  | cons k lines ih =>
    rw [lineBytes_cons, List.length_append, List.length_append]
    have htwo : crlf.length = 2 := rfl
    rcases List.mem_cons.mp hl with rfl | hl
    · omega
    · have hle := ih hl
      omega

theorem headerChunked_lines (htext : ∀ l ∈ lines, LineText l) (body : CStr) :
    headerChunked body (lineBytes lines ++ (crlf ++ body)) = linesChunked lines := by
  induction lines with
  | nil =>
    have hshort : (lineBytes [] ++ (crlf ++ body)).length ≤ body.length + 17 := by
      rw [lineBytes, List.flatMap_nil, List.nil_append, List.length_append]
      exact (Nat.add_comm _ _).trans_le (Nat.add_le_add_left (by decide) _)
    rw [headerChunked, if_pos hshort]
    rfl
  | cons l lines ih =>
    have hl := htext l List.mem_cons_self
    have hrest := ih fun k hk ↦ htext k (List.mem_cons_of_mem l hk)
    have hbytes : lineBytes (l :: lines) ++ (crlf ++ body)
        = l ++ (crlf ++ (lineBytes lines ++ (crlf ++ body))) := by
      rw [lineBytes_cons, List.append_assoc, List.append_assoc]
    rw [linesChunked, headerChunked]
    by_cases hshort : (lineBytes (l :: lines) ++ (crlf ++ body)).length ≤ body.length + 17
    · -- no line is long enough
      have hnone : (l :: lines).find? (startsWithCase (ascii "transfer-encoding")) = none := by
        rw [List.find?_eq_none]
        intro k hk hstarts
        have hlong : 17 ≤ k.length := length_le_of_startsWithCase hstarts
        have hle := length_le_lineBytes hk
        rw [List.length_append, List.length_append] at hshort
        omega
      rw [if_pos hshort, hnone]
    · rw [if_neg hshort, hbytes, startsWithCase_line (by decide), List.find?_cons]
      cases hstarts : startsWithCase (ascii "transfer-encoding") l with
      | true =>
        have hlong : 17 ≤ l.length := length_le_of_startsWithCase hstarts
        rw [if_pos rfl, List.drop_append_of_le_length hlong, dropWhile_isBlank_line,
          startsWithCase_line (by decide)]
      | false =>
        rw [if_neg Bool.false_ne_true]
        split
        · rename_i hnone
          rw [strstr_crlf hl] at hnone
          contradiction
        · rename_i next hnext
          rw [strstr_crlf hl] at hnext
          obtain rfl := Option.some_inj.mp hnext
          have hlong : ¬ (lineBytes lines ++ (crlf ++ body)).length + 2 ≤ body.length := by
            rw [List.length_append, List.length_append]
            omega
          rw [if_neg hlong, hrest]
          rfl

namespace HttpHead

/-- Some header's name only begins with `Transfer-Encoding`, and what follows in it is taken for a
value of `chunked`. -/
def misnamed (h : HttpHead) : Bool := linesChunked h.lines

theorem headerChunked_text (h : HttpHead) (body : CStr) :
    headerChunked body (h.text ++ body) = h.misnamed := by
  have hstatus : startsWithCase (ascii "transfer-encoding") h.statusLine = false := by
    rw [statusLine]
    rcases h.version_eq with hv | hv <;> rw [hv] <;> rfl
  rw [text_append, headerChunked_lines h.allLines_text, misnamed, linesChunked, List.find?_cons,
    hstatus]
  rfl

end HttpHead

end NetForensics
