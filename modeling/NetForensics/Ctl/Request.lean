import NetForensics.Ipc.Lists
import NetForensics.Ipc.Lookup

/-!
# What the clients ask for

`cpe_ctl` prints its requests from the operation and the argument it is given, which goes into the
line as it is. Whatever the argument, the operation of the request is the one that was meant: the
daemon looks for the first `op` of a line, and that is in front of the argument. But a newline in
the argument ends the line, and then there is a second request.
-/

namespace NetForensics

open Json (Plain)

/-! ## Printing a request -/

/-- The operations of `oneshot_daemon` that take no argument, in the order of its comparisons. -/
def oneshotBare : List IpcVerb :=
  [.status, .config, .ping, .help, .lastSample, .latency, .spool, .emit, .tcpStats, .tcpReset,
   .flowStats, .flowTick]

/-- A request with a string that is printed as it is, in a buffer of the given size. -/
def textRequest (size : ℕ) (verb : IpcVerb) (key : String) (arg : CStr) : CStr :=
  copyStr size (object [("op", quoted (ascii verb.name)), (key, quoted arg)])

def numberRequest (size : ℕ) (verb : IpcVerb) (key : String) (arg : CStr) : CStr :=
  copyStr size (object [("op", quoted (ascii verb.name)), (key, arg)])

/-- The request `oneshot_daemon` prints, or `none` for an operation it does not know. An argument
that is missing and an empty one are the same. -/
def oneshotRequest (op arg : CStr) (limit : UInt32) : Option CStr :=
  if oneshotBare.any fun v ↦ op = ascii v.name then some (copyStr 256 (object [("op", quoted op)]))
  else if op = ascii "flow_list" ∨ op = ascii "flows" then
    some (numberRequest 256 .flowList "limit"
      (if arg ≠ [] then arg else decimal (if limit ≠ 0 then limit else 32).toNat))
  else if op = ascii "tcp_by_ip" then
    some (if arg ≠ [] then textRequest 256 .tcpByIp "ip" arg
      else copyStr 256 (bareRequest "tcp_by_ip"))
  else if op = ascii "tcp_by_prefix" then
    some (if arg ≠ [] then textRequest 256 .tcpByPrefix "prefix" arg
      else copyStr 256 (bareRequest "tcp_by_prefix"))
  else if op = ascii "tcp_poll" then
    some (numberRequest 256 .tcpPoll "max" (if arg ≠ [] then arg else ascii "64"))
  else if op = ascii "tcp_emit" then
    some (numberRequest 256 .tcpEmit "top_n" (if arg ≠ [] then arg else ascii "20"))
  else none

/-- `l_tcp_poll` up to the call -/
def lTcpPoll (arg : Option UInt32) : CStr :=
  numberRequest 80 .tcpPoll "max" (decimal (arg.getD 64).toNat)

/-- `l_tcp_emit` up to the call -/
def lTcpEmit (arg : Option UInt32) : CStr :=
  numberRequest 80 .tcpEmit "top_n" (decimal (arg.getD 0).toNat)

/-- `l_tcp_by_ip` up to the call -/
def lTcpByIp : Option CStr → CStr
  | some ip => textRequest 160 .tcpByIp "ip" ip
  | none => copyStr 160 (bareRequest "tcp_by_ip")

/-- `l_tcp_by_prefix` up to the call -/
def lTcpByPrefix : Option CStr → CStr
  | some pfx => textRequest 200 .tcpByPrefix "prefix" pfx
  | none => copyStr 200 (bareRequest "tcp_by_prefix")

/-- What `cpe_ipc_client_request` sends: the request and a newline, unless it ends in one. -/
def clientLine (req : CStr) : CStr := if req.getLast? = some 10 then req else req ++ [10]

/-- The requests the daemon reads off what one call of the client sends. -/
def askedOf (req : CStr) : List CStr := (splitLines 10 (clientLine req)).1.map requestText

/-! ## Reading it back -/

/-- A text that begins with an operation asks for it, whatever comes then. -/
theorem requestOp_append {s : CStr} (h : Plain s) (t : CStr) :
    requestOp (123 :: 34 :: 111 :: 112 :: 34 :: 58 :: 34 :: (s ++ 34 :: t)) = s.take 47 := by
  have hget : jsonGetStr (123 :: 34 :: 111 :: 112 :: 34 :: 58 :: 34 :: (s ++ 34 :: t)) "op" 48
      = some (copyQuoted 47 (s ++ 34 :: t)) := rfl
  rw [requestOp, requestField, hget, Option.getD_some, copyQuoted_of_plain h]

theorem copyQuoted_take {room m : ℕ} (h : 2 * room ≤ m) (s : CStr) :
    copyQuoted room (s.take m) = copyQuoted room s := by
  fun_induction copyQuoted room s generalizing m with
  | case1 => rw [copyQuoted]
  | case2 => rw [List.take_nil, copyQuoted]
  | case3 room s =>
    obtain ⟨m, rfl⟩ := Nat.exists_eq_add_one.mpr (show 0 < m by omega)
    rw [List.take_succ_cons, copyQuoted]
  | case4 room c s ih =>
    obtain ⟨m, rfl⟩ := Nat.exists_eq_add_of_le' (show 2 ≤ m by omega)
    rw [List.take_succ_cons, List.take_succ_cons, copyQuoted, ih (by omega)]
  | case5 room b s hquote hback ih =>
    obtain ⟨m, rfl⟩ := Nat.exists_eq_add_one.mpr (show 0 < m by omega)
    rw [List.take_succ_cons, copyQuoted.eq_5, ih (by omega)]
    · exact hquote
    · rintro c t rfl heq
      -- a backslash that is not the last byte would not be copied
      obtain ⟨u, hu⟩ : ∃ u, s = c :: u := by
        cases s with
        | nil => exact absurd heq (by simp)
        | cons d u =>
          obtain ⟨k, rfl⟩ : ∃ k, m = k + 1 := by
            cases m with
            | zero => exact absurd heq (by simp)
            | succ k => exact ⟨k, rfl⟩
          rw [List.take_succ_cons] at heq
          exact ⟨u, by rw [(List.cons.inj heq).1]⟩
      exact hback c u rfl hu

theorem strtoull_decimal {k : ℕ} (hk : k < 2 ^ 64) {u : CStr}
    (hu : ∀ b ∈ u.head?, isDigit b = false) :
    (strtoull (decimal k ++ u)).map Prod.fst = some k := by
  obtain ⟨d, s, hds⟩ := List.exists_cons_of_ne_nil (decimal_ne_nil k)
  have hd : isDigit d = true := by
    obtain ⟨hlow, hhigh⟩ := toNat_of_mem_decimal (hds ▸ List.mem_cons_self : d ∈ decimal k)
    rw [isDigit, Bool.and_eq_true, decide_eq_true_iff, decide_eq_true_iff]
    exact ⟨UInt8.le_iff_toNat_le.mpr hlow, UInt8.le_iff_toNat_le.mpr hhigh⟩
  rw [(strtoull_append hd (.inl hds) hu).1, strtoull_of_readDecimal (readDecimal_decimal k) hk]
  rfl

def requestHead (verb : IpcVerb) (key : String) : CStr :=
  123 :: (member "op" (quoted (ascii verb.name)) ++ 44 :: (quoted (ascii key) ++ [58]))

theorem object_eq_requestHead (verb : IpcVerb) (key : String) (text : CStr) :
    object [("op", quoted (ascii verb.name)), (key, text)]
      = requestHead verb key ++ (text ++ [125]) := by
  simp [object, memberList, member, requestHead]

theorem copyStr_append {size : ℕ} {s : CStr} (h : s.length ≤ size - 1) (t : CStr) :
    copyStr size (s ++ t) = s ++ t.take (size - 1 - s.length) := by
  rw [copyStr, List.take_append, List.take_of_length_le h]

theorem requestOp_head (verb : IpcVerb) (key : String) (t : CStr) :
    requestOp (requestHead verb key ++ t) = ascii verb.name := by
  have hname : Plain (ascii verb.name) ∧ (ascii verb.name).length ≤ 47 := by
    cases verb <;> decide
  have hhead : requestHead verb key ++ t = 123 :: 34 :: 111 :: 112 :: 34 :: 58 :: 34 ::
      (ascii verb.name ++ 34 :: (44 :: (quoted (ascii key) ++ [58]) ++ t)) := by
    simp [requestHead, member, quoted, ascii]
  rw [hhead, requestOp_append hname.1, List.take_of_length_le hname.2]

/-! ## Lines -/

theorem clientLine_eq (req : CStr) :
    ∃ body, clientLine req = body ++ [10] ∧ (body = req ∨ req = body ++ [10]) ∧
      (10 ∈ body ↔ 10 ∈ req.dropLast) := by
  rcases List.eq_nil_or_concat req with rfl | ⟨s, b, rfl⟩
  · exact ⟨[], rfl, .inl rfl, Iff.rfl⟩
  · rw [List.concat_eq_append, clientLine, List.getLast?_concat, List.dropLast_concat]
    by_cases hb : b = 10
    · rw [hb, if_pos rfl]
      exact ⟨s, rfl, .inr rfl, Iff.rfl⟩
    · rw [if_neg (by simpa using hb)]
      refine ⟨s ++ [b], rfl, .inl rfl, ?_⟩
      rw [List.mem_append, List.mem_singleton, or_iff_left (Ne.symm hb)]

theorem askedOf_cases (req : CStr) : ∃ body, (body = req ∨ req = body ++ [10]) ∧
    ((10 ∉ req.dropLast ∧ 10 ∉ body ∧ askedOf req = [requestText body]) ∨
      ∃ l r asked, 10 ∈ req.dropLast ∧ body = l ++ 10 :: r ∧ 10 ∉ l ∧ asked ≠ [] ∧
        askedOf req = requestText l :: asked) := by
  obtain ⟨body, hline, hbody, hmem⟩ := clientLine_eq req
  refine ⟨body, hbody, ?_⟩
  rw [askedOf, hline, ← hmem]
  by_cases h : 10 ∈ body
  · obtain ⟨l, r, rfl, hl⟩ := List.eq_append_cons_of_mem h
    refine .inr ⟨l, r, (splitLines 10 (r ++ [10])).1.map requestText, h, rfl, hl, ?_, ?_⟩
    · obtain ⟨l', r', hr, hl'⟩ := List.eq_append_cons_of_mem
        (List.mem_append_right r List.mem_cons_self : 10 ∈ r ++ [10])
      rw [hr, splitLines_append_cons hl']
      exact List.cons_ne_nil _ _
    · rw [List.append_assoc, List.cons_append, splitLines_append_cons hl]
      rfl
  · exact .inl ⟨h, h, by rw [splitLines_append_cons h]; rfl⟩

theorem requestText_append {s : CStr} (hs : ∀ b ∈ s, b ≠ 0 ∧ b ≠ 13) (t : CStr) :
    requestText (s ++ t) = s ++ requestText t := by
  have htake : ∀ u : CStr, (s ++ u).takeWhile (· ≠ 0) = s ++ u.takeWhile (· ≠ 0) := fun u ↦
    List.takeWhile_append_of_pos fun b hb ↦ decide_eq_true (hs b hb).1
  rw [requestText, requestText]
  rcases List.eq_nil_or_concat t with rfl | ⟨u, b, rfl⟩
  · have hlast : s.getLast? ≠ some 13 := fun h ↦ (hs 13 (List.mem_of_getLast? h)).2 rfl
    rw [List.append_nil, if_neg hlast, if_neg (by simp), ← List.append_nil s, htake]
    simp
  · rw [List.concat_eq_append, ← List.append_assoc, List.getLast?_concat, List.getLast?_concat,
      List.dropLast_concat, List.dropLast_concat]
    split
    · exact htake u
    · rw [List.append_assoc]
      exact htake _

/-- What is cut off is cut off by one byte more, if that is a carriage return. -/
theorem requestText_take {u : CStr} (hu : 0 ∉ u) (m : ℕ) :
    ∃ k, m - 1 ≤ k ∧ requestText ((u ++ [125]).take m) = (u ++ [125]).take k := by
  have hzero : ∀ k, ((u ++ [125]).take k).takeWhile (· ≠ 0) = (u ++ [125]).take k := fun k ↦ by
    refine List.takeWhile_eq_self_iff.mpr fun b hb ↦ decide_eq_true ?_
    rcases List.mem_append.mp (List.mem_of_mem_take hb) with h | h
    · exact ne_of_mem_of_not_mem h hu
    · rw [List.mem_singleton.mp h]
      decide
  rw [requestText]
  by_cases hlast : ((u ++ [125]).take m).getLast? = some 13
  · have hlen : m ≤ (u ++ [125]).length := by
      by_contra hgt
      rw [List.take_of_length_le (by omega), List.getLast?_concat] at hlast
      exact absurd hlast (by decide)
    refine ⟨m - 1, le_rfl, ?_⟩
    rw [if_pos hlast, List.dropLast_eq_take, List.length_take_of_le hlen, List.take_take,
      min_eq_left (Nat.sub_le m 1), hzero]
  · exact ⟨m, Nat.sub_le m 1, by rw [if_neg hlast, hzero]⟩

/-! ## What is asked -/

def numberKeys : List (IpcVerb × String) :=
  [(.flowList, "limit"), (.tcpPoll, "max"), (.tcpEmit, "top_n")]

def requestKeys : List (IpcVerb × String) :=
  (.tcpByIp, "ip") :: (.tcpByPrefix, "prefix") :: numberKeys

theorem requestHead_spec : ∀ p ∈ requestKeys,
    (∀ b ∈ requestHead p.1 p.2, b ≠ 0 ∧ b ≠ 13 ∧ b ≠ 10) ∧ (requestHead p.1 p.2).length ≤ 31 := by
  decide

/-- The keys of arguments do not come in front of themselves. -/
theorem jsonValue_head (t : CStr) : ∀ p ∈ requestKeys,
    jsonValue (requestHead p.1 p.2 ++ t) p.2 = some (t.dropWhile isBlank) := by
  simp only [requestKeys, numberKeys, List.forall_mem_cons]
  exact ⟨rfl, rfl, rfl, rfl, rfl, List.forall_mem_nil _⟩

theorem eq_take_of_newline {s t body : CStr} {m : ℕ}
    (h : s ++ (t ++ [125]).take m = body ++ [10]) (hs : 10 ∉ s) :
    body = s ++ (t ++ [125]).take (m - 1) := by
  rcases List.eq_nil_or_concat ((t ++ [125]).take m) with hnil | ⟨u, b, hu⟩
  · rw [hnil, List.append_nil] at h
    exact absurd (h ▸ List.mem_append_right body List.mem_cons_self) hs
  · rw [hu, List.concat_eq_append, ← List.append_assoc] at h
    obtain ⟨rfl, hb⟩ := List.append_inj' h rfl
    obtain rfl := (List.cons.inj hb).1
    have hlen : m ≤ (t ++ [125]).length := by
      by_contra hgt
      rw [List.take_of_length_le (by omega), List.concat_eq_append] at hu
      exact absurd (List.cons.inj (List.append_inj' hu rfl).2).1 (by decide)
    have hdrop := congrArg List.dropLast hu
    rw [List.concat_eq_append, List.dropLast_concat, List.dropLast_eq_take,
      List.length_take_of_le hlen, List.take_take, min_eq_left (Nat.sub_le m 1)] at hdrop
    rw [hdrop]

theorem prefix_of_newline {s t l r : CStr} (h : l ++ 10 :: r <+: s ++ t) (hs : 10 ∉ s) :
    s <+: l := by
  obtain ⟨u, hu⟩ := h
  rw [List.append_assoc, List.cons_append] at hu
  rcases List.append_eq_append_iff.mp hu with ⟨a, rfl, ha⟩ | ⟨a, rfl, -⟩
  · cases a with
    | nil => rw [List.append_nil]
    | cons b a =>
      obtain rfl := (List.cons.inj ha).1
      exact absurd (List.mem_append_right l List.mem_cons_self) hs
  · exact List.prefix_append s a

/-- Of a request with an argument the daemon reads the operation first; and if there is no newline
in it, the argument as far as it is printed. -/
theorem askedOf_numberRequest {p : IpcVerb × String} (hp : p ∈ requestKeys) {size : ℕ}
    (hsize : 80 ≤ size) {text : CStr} (htext : 0 ∉ text) :
    ∃ first asked, askedOf (numberRequest size p.1 p.2 text) = first :: asked ∧
      requestOp first = ascii p.1.name ∧
      (asked = [] ↔ 10 ∉ (numberRequest size p.1 p.2 text).dropLast) ∧
      (asked = [] → ∃ k, size - 34 ≤ k ∧
        first = requestHead p.1 p.2 ++ (text ++ [125]).take k) := by
  obtain ⟨hhead, hlen⟩ := requestHead_spec p hp
  have hclean : ∀ b ∈ requestHead p.1 p.2, b ≠ 0 ∧ b ≠ 13 := fun b hb ↦
    ⟨(hhead b hb).1, (hhead b hb).2.1⟩
  have hreq : numberRequest size p.1 p.2 text = requestHead p.1 p.2 ++
      (text ++ [125]).take (size - 1 - (requestHead p.1 p.2).length) := by
    rw [numberRequest, object_eq_requestHead, copyStr_append (by omega)]
  obtain ⟨body, hbody, ⟨hnone, -, hasked⟩ | ⟨l, r, asked, hmem, hsplit, hl, hne, hasked⟩⟩ :=
    askedOf_cases (numberRequest size p.1 p.2 text)
  · -- the newline at the end, if there is one, is the last byte that fits
    obtain ⟨k, hk, rfl⟩ : ∃ k, size - 33 ≤ k ∧
        body = requestHead p.1 p.2 ++ (text ++ [125]).take k := by
      rcases hbody with rfl | hbody
      · exact ⟨_, by omega, hreq⟩
      · exact ⟨_, by omega, eq_take_of_newline (hreq.symm.trans hbody) fun h ↦ (hhead 10 h).2.2 rfl⟩
    obtain ⟨j, hj, htake⟩ := requestText_take htext k
    refine ⟨_, [], hasked, ?_, iff_of_true rfl hnone, fun _ ↦ ⟨j, by omega, ?_⟩⟩
    · rw [requestText_append hclean]
      exact requestOp_head _ _ _
    · rw [requestText_append hclean, htake]
  · refine ⟨_, asked, hasked, ?_, iff_of_false hne fun h ↦ h hmem, fun h ↦ absurd h hne⟩
    -- the newline is behind the head
    obtain ⟨t, rfl⟩ : requestHead p.1 p.2 <+: l := by
      have hprefix : l ++ 10 :: r <+: requestHead p.1 p.2 ++
          (text ++ [125]).take (size - 1 - (requestHead p.1 p.2).length) := by
        rw [← hreq, ← hsplit]
        rcases hbody with rfl | hbody
        · exact List.prefix_rfl
        · exact ⟨[10], hbody.symm⟩
      exact prefix_of_newline hprefix fun h ↦ (hhead 10 h).2.2 rfl
    rw [requestText_append hclean]
    exact requestOp_head _ _ _

/-- A string argument is read up to the first quote that is not behind a backslash. -/
theorem requestField_head {verb : IpcVerb} {key : String} (hp : (verb, key) ∈ requestKeys)
    (arg : CStr) {room k : ℕ} (hk : 2 * room + 1 ≤ k) :
    requestField (requestHead verb key ++ (quoted arg ++ [125]).take k) key (room + 1)
      = copyQuoted room (arg ++ [34, 125]) := by
  obtain ⟨k, rfl⟩ := Nat.exists_eq_add_one.mpr (show 0 < k by omega)
  have htake : (quoted arg ++ [125]).take (k + 1) = 34 :: (arg ++ [34, 125]).take k := by
    rw [quoted, List.cons_append, List.cons_append, List.take_succ_cons, List.append_assoc]
    rfl
  have hget : jsonGetStr (requestHead verb key ++ (quoted arg ++ [125]).take (k + 1)) key (room + 1)
      = some (copyQuoted room ((arg ++ [34, 125]).take k)) := by
    rw [jsonGetStr, jsonValue_head _ (verb, key) hp, htake]
    rfl
  rw [requestField, hget, Option.getD_some, copyQuoted_take (by omega)]

theorem jsonGetU32_head {p : IpcVerb × String} (hp : p ∈ requestKeys) {n k : ℕ} (hn : n < 2 ^ 64)
    (hk : 21 ≤ k) :
    jsonGetU32 (requestHead p.1 p.2 ++ (decimal n ++ [125]).take k) p.2
      = some (UInt32.ofNat n) := by
  have hlen : (decimal n).length ≤ 20 := length_decimal_le (by decide) (hn.trans (by decide))
  have htake : (decimal n ++ [125]).take k = decimal n ++ [125] := by
    refine List.take_of_length_le ?_
    rw [List.length_append, List.length_singleton]
    omega
  have hread : (strtoull ((decimal n ++ [125]).dropWhile isBlank)).map Prod.fst = some n := by
    have hwhite := strtoull_white (w := []) (fun b hb ↦ absurd hb List.not_mem_nil)
      (decimal n ++ [125])
    rw [List.nil_append] at hwhite
    rw [hwhite]
    refine strtoull_decimal hn fun b hb ↦ ?_
    obtain rfl := Option.some_inj.mp hb
    decide
  obtain ⟨⟨v, rest⟩, hv, rfl⟩ := Option.map_eq_some_iff.mp hread
  rw [jsonGetU32, htake, jsonValue_head _ p hp, Option.bind_some, hv]
  rfl

/-- The number `oneshot_daemon` asks for if none is given. -/
def oneshotDefault (limit : UInt32) : IpcVerb → UInt32
  | .tcpPoll => 64
  | .tcpEmit => 20
  | _ => if limit ≠ 0 then limit else 32

/-- The argument arrives as it was meant. -/
structure ArgumentRead (verb : IpcVerb) (arg : CStr) (limit : UInt32) (req : CStr) : Prop where
  ip : verb = .tcpByIp → requestField req "ip" 48 = copyQuoted 47 (arg ++ [34, 125])
  pfx : verb = .tcpByPrefix → requestField req "prefix" 64 = copyQuoted 63 (arg ++ [34, 125])
  number : ∀ p ∈ numberKeys, verb = p.1 →
    (∀ n < 2 ^ 64, arg = decimal n → jsonGetU32 req p.2 = some (UInt32.ofNat n)) ∧
      (arg = [] → jsonGetU32 req p.2 = some (oneshotDefault limit verb))

/-- The requests of one call: the first is for the operation, and if it is the only one, its
argument arrives. -/
structure Asks (verb : IpcVerb) (arg : CStr) (limit : UInt32) (req first : CStr)
    (more : List CStr) : Prop where
  lines : askedOf req = first :: more
  found : IpcVerb.find (requestOp first) = some verb
  once : more = [] ↔ 10 ∉ req.dropLast
  argument : more = [] → ArgumentRead verb arg limit first

theorem notMem_quoted {b : UInt8} {s : CStr} (hs : b ∉ s) (hb : b ≠ 34) : b ∉ quoted s := by
  rw [quoted, List.cons_append, List.mem_cons, List.mem_append, List.mem_singleton]
  exact fun h ↦ h.elim hb fun h ↦ h.elim hs hb

section Asks

variable {arg : CStr} {limit : UInt32}

theorem argumentRead_of_notMem {verb : IpcVerb} (h : verb ∉ requestKeys.map Prod.fst)
    (req : CStr) : ArgumentRead verb arg limit req := by
  have hne : ∀ p ∈ requestKeys, verb ≠ p.1 := fun p hp heq ↦ h (heq ▸ List.mem_map_of_mem hp)
  have hnumber : ∀ p ∈ numberKeys, p ∈ requestKeys := by decide
  exact ⟨fun heq ↦ absurd heq (hne (.tcpByIp, "ip") (by decide)),
    fun heq ↦ absurd heq (hne (.tcpByPrefix, "prefix") (by decide)),
    fun p hp heq ↦ absurd heq (hne p (hnumber p hp))⟩

theorem asks_bare (verb : IpcVerb) (h : ArgumentRead verb arg limit (bareRequest verb.name)) :
    Asks verb arg limit (copyStr 256 (bareRequest verb.name)) (bareRequest verb.name) [] where
  lines := by cases verb <;> decide
  found := by cases verb <;> decide
  once := iff_of_true rfl (by cases verb <;> decide)
  argument := fun _ ↦ h

theorem exists_asks {p : IpcVerb × String} (hp : p ∈ requestKeys) {text : CStr} (htext : 0 ∉ text)
    (h : ∀ k, 222 ≤ k →
      ArgumentRead p.1 arg limit (requestHead p.1 p.2 ++ (text ++ [125]).take k)) :
    ∃ first more, Asks p.1 arg limit (numberRequest 256 p.1 p.2 text) first more := by
  obtain ⟨first, more, hlines, hop, honce, hfirst⟩ :=
    askedOf_numberRequest hp (by decide : 80 ≤ 256) htext
  refine ⟨first, more, hlines, by rw [hop, IpcVerb.find_name], honce, fun hnil ↦ ?_⟩
  obtain ⟨k, hk, rfl⟩ := hfirst hnil
  exact h k hk

theorem exists_asks_number (limit : UInt32) {p : IpcVerb × String} (hp : p ∈ numberKeys)
    (harg : 0 ∉ arg) :
    ∃ first more, Asks p.1 arg limit (numberRequest 256 p.1 p.2
      (if arg ≠ [] then arg else decimal (oneshotDefault limit p.1).toNat)) first more := by
  have hmem : p ∈ requestKeys := List.mem_cons_of_mem _ (List.mem_cons_of_mem _ hp)
  have honly : ∀ q ∈ numberKeys, p.1 = q.1 → q = p := by
    revert p
    decide
  have hother : p.1 ≠ .tcpByIp ∧ p.1 ≠ .tcpByPrefix := by
    revert p
    decide
  refine exists_asks hmem ?_ fun k hk ↦ ⟨fun h ↦ absurd h hother.1, fun h ↦ absurd h hother.2,
    fun q hq heq ↦ ?_⟩
  · split
    · exact harg
    · exact fun h ↦ absurd (toNat_of_mem_decimal h).1 (by decide)
  · rw [honly q hq heq]
    constructor
    · rintro n hn rfl
      rw [if_pos (decimal_ne_nil n)]
      exact jsonGetU32_head hmem hn (by omega)
    · rintro rfl
      rw [if_neg (not_not.mpr rfl), jsonGetU32_head hmem _ (by omega), UInt32.ofNat_toNat]
      exact (UInt32.toNat_lt _).trans (by decide)

theorem exists_asks_text {verb : IpcVerb} {key : String} (hp : (verb, key) ∈ requestKeys)
    (harg : 0 ∉ arg)
    (h : ∀ k, 222 ≤ k → ArgumentRead verb arg limit
      (requestHead verb key ++ (quoted arg ++ [125]).take k))
    (hbare : ArgumentRead verb [] limit (bareRequest verb.name)) :
    ∃ first more, Asks verb arg limit (if arg ≠ [] then textRequest 256 verb key arg
      else copyStr 256 (bareRequest verb.name)) first more := by
  split
  · exact exists_asks hp (notMem_quoted harg (by decide)) h
  · rename_i hnil
    obtain rfl := not_not.mp hnil
    exact ⟨_, _, asks_bare verb hbare⟩

end Asks

theorem exists_asks_of_oneshot {op arg : CStr} {limit : UInt32} {req : CStr} (harg : 0 ∉ arg)
    (h : oneshotRequest op arg limit = some req) :
    ∃ verb first more, (op = ascii verb.name ∨ op = ascii "flows" ∧ verb = .flowList) ∧
      Asks verb arg limit req first more := by
  rw [oneshotRequest] at h
  by_cases hbare : (oneshotBare.any fun v ↦ decide (op = ascii v.name)) = true
  · rw [if_pos hbare] at h
    obtain ⟨verb, hverb, hop⟩ := List.any_eq_true.mp hbare
    obtain rfl := of_decide_eq_true hop
    obtain rfl := Option.some_inj.mp h
    have hnot : verb ∉ requestKeys.map Prod.fst := by
      revert verb
      decide
    exact ⟨verb, _, _, .inl rfl, asks_bare verb (argumentRead_of_notMem hnot _)⟩
  rw [if_neg hbare] at h
  by_cases hlist : op = ascii "flow_list" ∨ op = ascii "flows"
  · rw [if_pos hlist] at h
    obtain rfl := Option.some_inj.mp h
    obtain ⟨first, more, hasks⟩ := exists_asks_number limit
      (by decide : (IpcVerb.flowList, "limit") ∈ numberKeys) harg
    exact ⟨.flowList, first, more, hlist.imp_right fun hflows ↦ ⟨hflows, rfl⟩, hasks⟩
  rw [if_neg hlist] at h
  by_cases hip : op = ascii "tcp_by_ip"
  · rw [if_pos hip] at h
    obtain rfl := Option.some_inj.mp h
    have hfield := fun k (hk : 2 * 47 + 1 ≤ k) ↦
      requestField_head (by decide : (IpcVerb.tcpByIp, "ip") ∈ requestKeys) arg hk
    obtain ⟨first, more, hasks⟩ := exists_asks_text
      (by decide : (IpcVerb.tcpByIp, "ip") ∈ requestKeys) harg
      (fun k hk ↦ ⟨fun _ ↦ hfield k (by omega), nofun, by simp [numberKeys]⟩)
      ⟨fun _ ↦ by decide, nofun, by simp [numberKeys]⟩
    exact ⟨.tcpByIp, first, more, .inl hip, hasks⟩
  rw [if_neg hip] at h
  by_cases hpfx : op = ascii "tcp_by_prefix"
  · rw [if_pos hpfx] at h
    obtain rfl := Option.some_inj.mp h
    have hfield := fun k (hk : 2 * 63 + 1 ≤ k) ↦
      requestField_head (by decide : (IpcVerb.tcpByPrefix, "prefix") ∈ requestKeys) arg hk
    obtain ⟨first, more, hasks⟩ := exists_asks_text
      (by decide : (IpcVerb.tcpByPrefix, "prefix") ∈ requestKeys) harg
      (fun k hk ↦ ⟨nofun, fun _ ↦ hfield k (by omega), by simp [numberKeys]⟩)
      ⟨nofun, fun _ ↦ by decide, by simp [numberKeys]⟩
    exact ⟨.tcpByPrefix, first, more, .inl hpfx, hasks⟩
  rw [if_neg hpfx] at h
  by_cases hpoll : op = ascii "tcp_poll"
  · have hdefault : ascii "64" = decimal (oneshotDefault limit .tcpPoll).toNat :=
      (by decide : ascii "64" = decimal (64 : UInt32).toNat)
    rw [if_pos hpoll, hdefault] at h
    obtain rfl := Option.some_inj.mp h
    obtain ⟨first, more, hasks⟩ := exists_asks_number limit
      (by decide : (IpcVerb.tcpPoll, "max") ∈ numberKeys) harg
    exact ⟨.tcpPoll, first, more, .inl hpoll, hasks⟩
  rw [if_neg hpoll] at h
  by_cases hemit : op = ascii "tcp_emit"
  · have hdefault : ascii "20" = decimal (oneshotDefault limit .tcpEmit).toNat :=
      (by decide : ascii "20" = decimal (20 : UInt32).toNat)
    rw [if_pos hemit, hdefault] at h
    obtain rfl := Option.some_inj.mp h
    obtain ⟨first, more, hasks⟩ := exists_asks_number limit
      (by decide : (IpcVerb.tcpEmit, "top_n") ∈ numberKeys) harg
    exact ⟨.tcpEmit, first, more, .inl hemit, hasks⟩
  rw [if_neg hemit] at h
  exact absurd h (by simp)

/-- With a newline in the argument the daemon is asked to forget what it has counted. -/
example : bareRequest "tcp_reset" ∈
    askedOf (textRequest 256 .tcpByIp "ip" (10 :: bareRequest "tcp_reset" ++ [10])) := by decide

/-! ## Requests from Lua -/

theorem number_asks {p : IpcVerb × String} (hp : p ∈ numberKeys) {size : ℕ} (hsize : 80 ≤ size)
    (n : UInt32) :
    ∃ req, askedOf (numberRequest size p.1 p.2 (decimal n.toNat)) = [req] ∧
      IpcVerb.find (requestOp req) = some p.1 ∧ jsonGetU32 req p.2 = some n := by
  have hmem : p ∈ requestKeys := List.mem_cons_of_mem _ (List.mem_cons_of_mem _ hp)
  have hdigit : ∀ b : UInt8, b.toNat < 48 → b ∉ decimal n.toNat := fun b hb h ↦
    absurd (toNat_of_mem_decimal h).1 (by omega)
  obtain ⟨first, more, hlines, hop, honce, hfirst⟩ :=
    askedOf_numberRequest hmem hsize (hdigit 0 (by decide))
  have hnil : more = [] := by
    rw [honce]
    intro h
    have hten := List.mem_of_mem_take (List.mem_of_mem_dropLast h)
    rw [object_eq_requestHead, List.mem_append, List.mem_append, List.mem_singleton] at hten
    rcases hten with h | h | h
    · exact ((requestHead_spec p hmem).1 10 h).2.2 rfl
    · exact hdigit 10 (by decide) h
    · exact absurd h (by decide)
  obtain ⟨k, hk, rfl⟩ := hfirst hnil
  have hn : n.toNat < 2 ^ 64 := n.toNat_lt.trans (by decide)
  refine ⟨_, by rw [hlines, hnil], by rw [hop, IpcVerb.find_name], ?_⟩
  rw [jsonGetU32_head hmem hn (by omega), UInt32.ofNat_toNat]

/-- A string that is printed asks for itself if there is no newline in it. -/
theorem exists_text_asks {verb : IpcVerb} {key : String} (hp : (verb, key) ∈ requestKeys)
    {size room : ℕ} (hsize : 80 ≤ size) (hroom : 2 * room + 1 ≤ size - 34) {arg : CStr}
    (harg : 0 ∉ arg) :
    ∃ first more, askedOf (textRequest size verb key arg) = first :: more ∧
      IpcVerb.find (requestOp first) = some verb ∧
      (more = [] ↔ 10 ∉ (textRequest size verb key arg).dropLast) ∧
      (more = [] → requestField first key (room + 1) = copyQuoted room (arg ++ [34, 125])) := by
  obtain ⟨first, more, hlines, hop, honce, hfirst⟩ :=
    askedOf_numberRequest hp hsize (notMem_quoted harg (by decide))
  refine ⟨first, more, hlines, by rw [hop, IpcVerb.find_name], honce, fun hnil ↦ ?_⟩
  obtain ⟨k, hk, rfl⟩ := hfirst hnil
  exact requestField_head hp arg (by omega)

/-- The requests of the Lua bindings: a number, or its default, arrives in the only request there
is; a string as `oneshot_daemon` would have sent it; and without a string there is none. -/
theorem luaRequest_asks (n : Option UInt32) {arg : CStr} (harg : 0 ∉ arg) :
    (∀ c ∈ [(lTcpPoll n, IpcVerb.tcpPoll, "max", n.getD 64),
        (lTcpEmit n, .tcpEmit, "top_n", n.getD 0)],
      ∃ req, askedOf c.1 = [req] ∧ IpcVerb.find (requestOp req) = some c.2.1 ∧
        jsonGetU32 req c.2.2.1 = some c.2.2.2) ∧
    (∀ c ∈ [(lTcpByIp (some arg), IpcVerb.tcpByIp, "ip", 47),
        (lTcpByPrefix (some arg), .tcpByPrefix, "prefix", 63)],
      ∃ first more, askedOf c.1 = first :: more ∧
        IpcVerb.find (requestOp first) = some c.2.1 ∧ (more = [] ↔ 10 ∉ c.1.dropLast) ∧
        (more = [] → requestField first c.2.2.1 (c.2.2.2 + 1)
          = copyQuoted c.2.2.2 (arg ++ [34, 125]))) ∧
    ∀ c ∈ [(lTcpByIp none, IpcVerb.tcpByIp, "ip", 48),
        (lTcpByPrefix none, .tcpByPrefix, "prefix", 64)],
      ∃ req, askedOf c.1 = [req] ∧ IpcVerb.find (requestOp req) = some c.2.1 ∧
        requestField req c.2.2.1 c.2.2.2 = [] := by
  have hip := exists_text_asks (by decide : (IpcVerb.tcpByIp, "ip") ∈ requestKeys)
    (by decide : 80 ≤ 160) (by decide : 2 * 47 + 1 ≤ 160 - 34) harg
  have hpfx := exists_text_asks (by decide : (IpcVerb.tcpByPrefix, "prefix") ∈ requestKeys)
    (by decide : 80 ≤ 200) (by decide : 2 * 63 + 1 ≤ 200 - 34) harg
  have hpoll := number_asks (by decide : (IpcVerb.tcpPoll, "max") ∈ numberKeys) (le_refl 80)
    (n.getD 64)
  have hemit := number_asks (by decide : (IpcVerb.tcpEmit, "top_n") ∈ numberKeys) (le_refl 80)
    (n.getD 0)
  have hall : askedOf (lTcpByIp none) = [bareRequest "tcp_by_ip"] ∧
      IpcVerb.find (requestOp (bareRequest "tcp_by_ip")) = some .tcpByIp ∧
      requestField (bareRequest "tcp_by_ip") "ip" 48 = [] := by decide
  have hall' : askedOf (lTcpByPrefix none) = [bareRequest "tcp_by_prefix"] ∧
      IpcVerb.find (requestOp (bareRequest "tcp_by_prefix")) = some .tcpByPrefix ∧
      requestField (bareRequest "tcp_by_prefix") "prefix" 64 = [] := by decide
  simp only [List.forall_mem_cons]
  exact ⟨⟨hpoll, hemit, List.forall_mem_nil _⟩, ⟨hip, hpfx, List.forall_mem_nil _⟩,
    ⟨_, hall⟩, ⟨_, hall'⟩, List.forall_mem_nil _⟩

/-- For a limit and an address. -/
theorem luaRequest_asks_ip :
    ∃ req, askedOf (lTcpPoll (some 5)) = [req] ∧ jsonGetU32 req "max" = some 5 := by
  obtain ⟨hnumber, -⟩ := luaRequest_asks (some 5) (by decide : 0 ∉ ascii "::1")
  obtain ⟨req, hreq, -, hread⟩ := hnumber _ List.mem_cons_self
  exact ⟨req, hreq, hread⟩

end NetForensics
