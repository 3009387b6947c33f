import NetForensics.Query.Flows

/-!
# The tokens of the query for flow rows

The statement has the tokens of its template, with the table's name and the id in their places,
exactly when the name is a qualified one: a hyphen is an operator, or half of the beginning of a
comment, and a digit can begin a number (`CpeCtlChOpts.flowCall_keepsTemplate_iff`). As long as
there are no two hyphens in a row, what stands behind the name is still read, and the rows are those
of the router whose id has been copied; that is the router asked for exactly when nothing of its id
was left out (`cpeCtlChQueryFlows_filters_iff`).
-/

namespace NetForensics

open Sql

/-! ## The parts of the statement -/

def whereTokens (rid : CStr) : List Lexeme :=
  if rid = [] then []
  else [.word (ascii "WHERE"), .word (ascii "router_id"), .symbol 61, .string rid]

def orderTokens (limit : ℕ) : List Lexeme :=
  [.word (ascii "ORDER"), .word (ascii "BY"), .word (ascii "ts"), .word (ascii "DESC"),
    .word (ascii "LIMIT"), .number (decimal limit)]

def flowTail (rid : CStr) (limit : ℕ) : CStr :=
  if rid ≠ [] then
    ascii "WHERE router_id = '" ++ rid ++ ascii "' ORDER BY ts DESC LIMIT " ++ decimal limit
  else ascii "ORDER BY ts DESC LIMIT " ++ decimal limit

variable {table rid : CStr} {limit : ℕ}

theorem flowSql_eq (table rid : CStr) (limit : ℕ) :
    flowSql table rid limit = flowColumns ++ (table ++ 32 :: flowTail rid limit) := by
  have hwhere : ascii " WHERE router_id = '" = 32 :: ascii "WHERE router_id = '" := rfl
  have horder : ascii " ORDER BY ts DESC LIMIT " = 32 :: ascii "ORDER BY ts DESC LIMIT " := rfl
  rw [flowSql, flowTail]
  split
  · rw [hwhere]
    simp only [List.append_assoc, List.cons_append]
  · rw [horder]
    simp only [List.append_assoc, List.cons_append]

theorem identByte_eq_isPlain : ∀ b, identByte b = isPlain b :=
  forall_byte (by decide +kernel)

/-- The columns end between tokens, bring neither a hyphen nor a comment nor a string into the
statement, and have this length. In one statement, since evaluating the text is what takes long. -/
private theorem flowColumns_facts : run .start flowColumns = (.start, tokens flowColumns) ∧
    (∀ l ∈ tokens flowColumns, ¬ l.Tainted ∧ l.isString = false) ∧ flowColumns.length = 179 := by
  decide +kernel

theorem run_flowColumns : run .start flowColumns = (.start, tokens flowColumns) :=
  flowColumns_facts.1

theorem tokens_decimal (n : ℕ) : tokens (decimal n) = [.number (decimal n)] := by
  refine tokens_number (decimal_ne_nil n) fun b hb ↦ ?_
  obtain ⟨hlow, hhigh⟩ := toNat_of_mem_decimal hb
  rw [isDecimal, Bool.and_eq_true, decide_eq_true_iff, decide_eq_true_iff]
  exact ⟨UInt8.le_iff_toNat_le.mpr hlow, UInt8.le_iff_toNat_le.mpr hhigh⟩

private theorem tokens_append_of_run {s : CStr} {ts : List Lexeme} (h : run .start s = (.start, ts))
    (t : CStr) : tokens (s ++ t) = ts ++ tokens t := by
  rw [tokens, tokensFrom_append, h]
  rfl

private theorem tokens_order (limit : ℕ) :
    tokens (ascii "ORDER BY ts DESC LIMIT " ++ decimal limit) = orderTokens limit := by
  have hrun : run .start (ascii "ORDER BY ts DESC LIMIT ") = (.start,
      [.word (ascii "ORDER"), .word (ascii "BY"), .word (ascii "ts"), .word (ascii "DESC"),
        .word (ascii "LIMIT")]) := by
    decide +kernel
  rw [tokens_append_of_run hrun, tokens_decimal]
  rfl

/-- The id stays inside its quotes, and what follows them is read. -/
theorem tokens_flowTail (hrid : ∀ b ∈ rid, isPlain b = true) (limit : ℕ) :
    tokens (flowTail rid limit) = whereTokens rid ++ orderTokens limit := by
  rw [flowTail, whereTokens]
  by_cases hnil : rid = []
  · rw [if_neg (not_not.mpr hnil), if_pos hnil, tokens_order, List.nil_append]
  · have hwhere : run .start (ascii "WHERE router_id = '") = (.string [],
        [.word (ascii "WHERE"), .word (ascii "router_id"), .symbol 61]) := by
      decide +kernel
    have hid : run (.string []) rid = (.string rid, []) :=
      run_string ⟨fun h ↦ absurd (hrid 39 h) (by decide), fun h ↦ absurd (hrid 92 h) (by decide)⟩
    have hclosed : ∀ t, tokensFrom (.string rid) (39 :: 32 :: t) = .string rid :: tokens t := by
      intro t
      rw [tokensFrom_cons, tokensFrom_cons]
      rfl
    have hrest : tokensFrom (.string rid) (ascii "' ORDER BY ts DESC LIMIT " ++ decimal limit)
        = .string rid :: orderTokens limit := by
      rw [← tokens_order, ← hclosed]
      rfl
    rw [if_pos hnil, if_neg hnil, tokens, List.append_assoc, List.append_assoc,
      tokensFrom_append, hwhere, tokensFrom_append, hid]
    dsimp only
    rw [hrest]
    rfl

/-- Without two hyphens in a row, the parts are read one after the other. -/
theorem tokens_flowSql (htable : ∀ b ∈ table, isPlain b = true) (htwo : ¬ [45, 45] <:+: table)
    (hrid : ∀ b ∈ rid, isPlain b = true) (limit : ℕ) :
    tokens (flowSql table rid limit)
      = tokens flowColumns ++ tokens table ++ whereTokens rid ++ orderTokens limit := by
  have hends : (run .start table).1.Ends := by
    rcases (run_plain (m := .start) trivial htable).2 with ⟨hyes, -⟩ | ⟨-, hplain⟩
    · exact absurd hyes htwo
    · exact hplain.ends
  rw [flowSql_eq, tokens_append_of_run run_flowColumns, tokens_append_white hends rfl,
    tokens_flowTail hrid, List.append_assoc, List.append_assoc]

/-! ## The structure of the statement -/

/-- The statement has the tokens of its template: the table contributes names and dots, the id is
one string, and the clauses behind them are there. -/
def KeepsTemplate (opt : CpeCtlChOpts) (sql : CStr) : Prop :=
  ∃ names : List Lexeme, (∀ l ∈ names, l.IsName) ∧
    tokens sql = tokens flowColumns ++ names ++ whereTokens opt.rid ++ orderTokens opt.rowLimit

/-- Nothing but the table can bring a hyphen or a comment into the statement. -/
private theorem not_tainted_template {names : List Lexeme} (h : ∀ l ∈ names, l.IsName) :
    ∀ l ∈ tokens flowColumns ++ names ++ whereTokens rid ++ orderTokens limit, ¬ l.Tainted := by
  have hwhere : ∀ l ∈ whereTokens rid, ¬ l.Tainted := by
    rw [whereTokens]
    split
    · exact fun l hl ↦ absurd hl List.not_mem_nil
    · simp [Lexeme.Tainted]
  have horder : ∀ l ∈ orderTokens limit, ¬ l.Tainted := by
    simp [orderTokens, Lexeme.Tainted]
  intro l hl
  rcases List.mem_append.mp hl with hl | hl
  · rcases List.mem_append.mp hl with hl | hl
    · rcases List.mem_append.mp hl with hl | hl
      · exact (flowColumns_facts.2.1 l hl).1
      · exact fun htainted ↦ htainted.not_isName (h l hl)
    · exact hwhere l hl
  · exact horder l hl

theorem isPlain_rid (opt : CpeCtlChOpts) : ∀ b ∈ opt.rid, isPlain b = true :=
  fun b hb ↦ identByte_eq_isPlain b ▸ identByte_of_mem_copyRouterId b hb

theorem isPlain_of_sqlIdentOk (h : sqlIdentOk table = true) : ∀ b ∈ table, isPlain b = true :=
  fun b hb ↦ identByte_eq_isPlain b ▸ ((sqlIdentOk_iff table).mp h).2 b hb

theorem keepsTemplate_flowSql_iff {opt : CpeCtlChOpts} (h : sqlIdentOk opt.tableName = true) :
    KeepsTemplate opt (flowSql opt.tableName opt.rid opt.rowLimit) ↔
      QualifiedName opt.tableName := by
  have htable := isPlain_of_sqlIdentOk h
  rw [KeepsTemplate]
  by_cases hhyphen : 45 ∈ opt.tableName
  · refine iff_of_false ?_ fun hname ↦ hname.hyphen hhyphen
    rintro ⟨names, hnames, heq⟩
    obtain ⟨l, hl, htainted⟩ := tainted_of_mem (m := .start) trivial htable hhyphen
      (32 :: flowTail opt.rid opt.rowLimit)
    refine @not_tainted_template opt.rid opt.rowLimit names hnames l ?_ htainted
    rw [← heq, flowSql_eq, tokens_append_of_run run_flowColumns]
    exact List.mem_append_right _ hl
  · have htwo : ¬ [45, 45] <:+: opt.tableName := fun hsub ↦
      hhyphen (hsub.subset List.mem_cons_self)
    rw [tokens_flowSql htable htwo (isPlain_rid opt), ← tokens_names_iff htable]
    constructor
    · rintro ⟨names, hnames, heq⟩
      have hsame := List.append_cancel_left
        (List.append_cancel_right (List.append_cancel_right heq))
      rwa [hsame]
    · intro hnames
      exact ⟨_, hnames, rfl⟩

/-- The statement of a call has the structure of its template exactly when the table is a qualified
name; a hyphen, or a digit where a name begins, changes it. -/
theorem CpeCtlChOpts.flowCall_keepsTemplate_iff {opt : CpeCtlChOpts} {outSz : ℕ} {c : SqlCall}
    (h : opt.flowCall outSz = .ok c) :
    KeepsTemplate opt c.sql ↔ QualifiedName opt.tableName := by
  obtain ⟨-, hident, -, -, -, hsql, -⟩ := flowCall_eq_ok h
  rw [hsql]
  exact keepsTemplate_flowSql_iff hident

/-! ## The length of the statement -/

/-- The number of bytes of the statement: how long the two templates are, and what is printed into
them. -/
def flowSqlLength (opt : CpeCtlChOpts) : ℕ :=
  179 + opt.tableName.length + (decimal opt.rowLimit).length +
    if opt.routerId.countP identByte = 0 then 24 else 45 + min 95 (opt.routerId.countP identByte)

theorem length_flowSql (opt : CpeCtlChOpts) :
    (flowSql opt.tableName opt.rid opt.rowLimit).length = flowSqlLength opt := by
  have hcolumns := flowColumns_facts.2.2
  have hlen : opt.rid.length = min 95 (opt.routerId.countP identByte) := by
    rw [CpeCtlChOpts.rid, copyRouterId_eq, List.length_take, List.countP_eq_length_filter]
  have hnil : opt.rid = [] ↔ opt.routerId.countP identByte = 0 := by
    rw [← List.length_eq_zero_iff, hlen]
    omega
  rw [flowSql, flowSqlLength]
  by_cases h : opt.rid = []
  · rw [if_neg (not_not.mpr h), if_pos (hnil.mp h)]
    simp only [List.length_append, hcolumns]
    have htext : (ascii " ORDER BY ts DESC LIMIT ").length = 24 := by decide
    omega
  · rw [if_pos h, if_neg (mt hnil.mpr h)]
    simp only [List.length_append, hcolumns, hlen]
    have htext : (ascii " WHERE router_id = '").length = 20 := by decide
    have htext' : (ascii "' ORDER BY ts DESC LIMIT ").length = 25 := by decide
    omega

def routerOpts (table routerId : CStr) : CpeCtlChOpts := ⟨[], [], [], table, routerId, 20⟩

/-- The table that is used when none is given. -/
theorem flowCall_keepsTemplate_default :
    ∃ c, (routerOpts [] (ascii "cpe-1")).flowCall 64 = .ok c ∧
      KeepsTemplate (routerOpts [] (ascii "cpe-1")) c.sql := by
  have hcall : (routerOpts [] (ascii "cpe-1")).flowCall 64 = .ok _ :=
    CpeCtlChOpts.flowCall_of_checks (by decide) (by decide +kernel) rfl
      (by rw [length_flowSql]; decide)
  exact ⟨_, hcall, (CpeCtlChOpts.flowCall_keepsTemplate_iff hcall).mpr (by decide +kernel)⟩

/-- Two hyphens at the end of an accepted name put the rest of the statement into a comment. -/
theorem flowCall_breaks_template :
    ∃ c, (routerOpts (ascii "flows--") (ascii "cpe-1")).flowCall 64 = .ok c ∧
      ¬ KeepsTemplate (routerOpts (ascii "flows--") (ascii "cpe-1")) c.sql := by
  refine ⟨_, CpeCtlChOpts.flowCall_of_checks (by decide) (by decide +kernel) rfl
    (by rw [length_flowSql]; decide), ?_⟩
  rw [keepsTemplate_flowSql_iff (by decide +kernel)]
  decide +kernel

/-! ## The rows that are asked for -/

/-- The statement has a clause that compares `router_id` with a string. -/
def FilteredBy (id sql : CStr) : Prop :=
  ∃ before after, tokens sql = before ++
    ([.word (ascii "WHERE"), .word (ascii "router_id"), .symbol 61, .string id] ++ after)

instance (env : SqlEnv) (c : SqlCall) : Decidable (env.Sends c) :=
  decidable_of_iff (env.connectErr = none ∧ env.alloc = true ∧
      c.request.length < c.sql.length + 768 ∧ env.send = true)
    ⟨fun h ↦ ⟨h.1, h.2.1, h.2.2.1, h.2.2.2⟩, fun h ↦ ⟨h.connected, h.alloc, h.fits, h.send⟩⟩

def sentSql (env : SqlEnv) (opt : CpeCtlChOpts) (outSz : ℕ) : Option CStr :=
  match opt.flowCall outSz with
  | .error _ => none
  | .ok c => if env.Sends c then some c.sql else none

theorem sentSql_eq_some_iff {env : SqlEnv} {opt : CpeCtlChOpts} {outSz : ℕ} {sql : CStr} :
    sentSql env opt outSz = some sql ↔
      ∃ c, opt.flowCall outSz = .ok c ∧ env.Sends c ∧ c.sql = sql := by
  rw [sentSql]
  cases hcall : opt.flowCall outSz with
  | error err => exact iff_of_false nofun fun ⟨c, hc, _⟩ ↦ nomatch hc
  | ok c =>
    dsimp only
    rw [Option.ite_none_right_eq_some, Option.some_inj]
    exact ⟨fun h ↦ ⟨c, rfl, h⟩, fun ⟨_, hc, h⟩ ↦ Except.ok.inj hc ▸ h⟩

/-- The rows of one router are asked for, or the call fails and nothing is asked. -/
inductive FiltersRouter (w : WordSize) (env : SqlEnv) (opt : CpeCtlChOpts) (outSz errLen : ℕ)
    (out : List UInt8) : Prop
  | failed {err : CStr} (hsent : sentSql env opt outSz = none)
      (h : ∀ fuel, cpeCtlChQueryFlows w env opt outSz errLen out fuel = .failed err)
  | sent {sql : CStr} (hsent : sentSql env opt outSz = some sql)
      (h : FilteredBy opt.routerId sql)

/-- The id is kept as it is, and the name of the table does not end the statement. -/
structure RouterKept (table id : CStr) : Prop where
  allowed : ∀ b ∈ id, identByte b = true
  room : id.length ≤ 95
  hyphens : ¬ ascii "--" <:+: table

private theorem flowTail_one_line (hrid : ∀ b ∈ rid, isPlain b = true) (limit : ℕ) :
    10 ∉ flowTail rid limit := by
  have hdecimal : (10 : UInt8) ∉ decimal limit := (token_decimal limit).notMem rfl
  have hid : (10 : UInt8) ∉ rid := fun h ↦ absurd (hrid 10 h) (by decide)
  have hwhere : (10 : UInt8) ∉ ascii "WHERE router_id = '" := by decide
  have hclose : (10 : UInt8) ∉ ascii "' ORDER BY ts DESC LIMIT " := by decide
  have horder : (10 : UInt8) ∉ ascii "ORDER BY ts DESC LIMIT " := by decide
  rw [flowTail]
  split
  · simp only [List.mem_append, not_or]
    exact ⟨⟨⟨hwhere, hid⟩, hclose⟩, hdecimal⟩
  · exact fun h ↦ (List.mem_append.mp h).elim horder hdecimal

private theorem not_isString_of_two (htable : ∀ b ∈ table, isPlain b = true)
    (htwo : [45, 45] <:+: table) (hrid : ∀ b ∈ rid, isPlain b = true) (limit : ℕ) :
    ∀ l ∈ tokens (flowSql table rid limit), l.isString = false := by
  obtain ⟨htokens, hend⟩ := run_plain (m := .start) trivial htable
  obtain ⟨w, hcomment⟩ : ∃ w, (run .start table).1 = .comment w :=
    hend.elim (fun h ↦ h.2) fun h ↦ absurd htwo h.1
  have hline : 10 ∉ 32 :: flowTail rid limit := fun h ↦
    (List.mem_cons.mp h).elim (by decide) (flowTail_one_line hrid limit)
  have hbehind : tokens (table ++ 32 :: flowTail rid limit)
      = (run .start table).2 ++ [.comment (w ++ 32 :: flowTail rid limit)] := by
    rw [tokens, tokensFrom_append, hcomment, tokensFrom, run_comment hline]
    rfl
  rw [flowSql_eq, tokens_append_of_run run_flowColumns, hbehind]
  intro l hl
  rcases List.mem_append.mp hl with hl | hl
  · exact (flowColumns_facts.2.1 l hl).2
  · rcases List.mem_append.mp hl with hl | hl
    · exact (htokens l hl).not_isString
    · exact List.mem_singleton.mp hl ▸ rfl

/-- The only string that a statement can have is the id. -/
private theorem string_mem_flowSql {id : CStr} (htable : ∀ b ∈ table, isPlain b = true)
    (htwo : ¬ [45, 45] <:+: table) (hrid : ∀ b ∈ rid, isPlain b = true)
    (h : .string id ∈ tokens (flowSql table rid limit)) : id = rid := by
  have hplain : ∀ l ∈ tokens table, l.Plain := by
    obtain ⟨htokens, hend⟩ := run_plain (m := .start) trivial htable
    have hmode := hend.elim (fun hyes ↦ absurd hyes.1 htwo) fun hno ↦ hno.2
    intro l hl
    rcases List.mem_append.mp hl with hl | hl
    · exact htokens l hl
    · exact hmode.finish l hl
  rw [tokens_flowSql htable htwo hrid] at h
  rcases List.mem_append.mp h with h | h
  · rcases List.mem_append.mp h with h | h
    · rcases List.mem_append.mp h with h | h
      · exact nomatch (flowColumns_facts.2.1 _ h).2
      · exact (hplain _ h).elim
    · rw [whereTokens] at h
      split at h
      · exact absurd h List.not_mem_nil
      · simpa using h
  · simp [orderTokens] at h

theorem filteredBy_flowSql_iff {id : CStr} (htable : sqlIdentOk table = true) (hid : id ≠ [])
    (limit : ℕ) :
    FilteredBy id (flowSql table (copyRouterId 95 id) limit) ↔ RouterKept table id := by
  have hplain := isPlain_of_sqlIdentOk htable
  have hrid : ∀ b ∈ copyRouterId 95 id, isPlain b = true := fun b hb ↦
    identByte_eq_isPlain b ▸ identByte_of_mem_copyRouterId b hb
  constructor
  · rintro ⟨before, after, heq⟩
    have hmem : .string id ∈ tokens (flowSql table (copyRouterId 95 id) limit) := by
      rw [heq]
      simp
    have htwo : ¬ [45, 45] <:+: table := fun htwo ↦
      nomatch not_isString_of_two hplain htwo hrid limit _ hmem
    obtain ⟨hallowed, hroom⟩ := (copyRouterId_eq_self_iff 95 id).mp
      (string_mem_flowSql hplain htwo hrid hmem).symm
    exact ⟨hallowed, hroom, htwo⟩
  · intro h
    have hself : copyRouterId 95 id = id := (copyRouterId_eq_self_iff 95 id).mpr ⟨h.allowed, h.room⟩
    refine ⟨tokens flowColumns ++ tokens table, orderTokens limit, ?_⟩
    rw [tokens_flowSql hplain h.hyphens hrid, hself, whereTokens, if_neg hid, List.append_assoc]

/-! ## When something is asked -/

/-- The number of bytes of a request without its statement, whose length has three digits. -/
def flowHeadLength (opt : CpeCtlChOpts) (host : CStr) : ℕ :=
  156 + host.length + opt.userName.length +
    if opt.password = [] then 0 else 20 + opt.password.length

theorem length_request {c : SqlCall} (hlow : 100 ≤ c.sql.length) (hhigh : c.sql.length < 1000)
    (huser : c.user ≠ []) :
    c.request.length = c.sql.length + (156 + c.host.length + c.user.length +
      if c.password = [] then 0 else 20 + c.password.length) := by
  have hdigits : (decimal c.sql.length).length = 3 := by
    have hle := length_decimal_le (n := c.sql.length) (k := 3) (by decide) hhigh
    have hge : ¬ (decimal c.sql.length).length ≤ 2 := by
      rw [decimal, numeral, List.length_map, Nat.length_toDigits_le_iff (by decide) (by decide)]
      omega
    omega
  have hpost : (ascii "POST /?default_format=JSONEachRow HTTP/1.1\r\nHost: ").length = 50 := by
    decide
  have htype : (ascii
      "\r\nContent-Type: text/plain; charset=utf-8\r\nContent-Length: ").length = 59 := by
    decide
  have hclose : (ascii "\r\nConnection: close\r\n").length = 21 := by decide
  have hname : (ascii "X-ClickHouse-User: ").length = 19 := by decide
  have hkey : (ascii "X-ClickHouse-Key: ").length = 18 := by decide
  have hcrlf : crlf.length = 2 := rfl
  rw [SqlCall.request, if_pos huser]
  by_cases hpassword : c.password = []
  · rw [if_neg (not_not.mpr hpassword), if_pos hpassword]
    simp only [List.length_append, List.length_nil, hpost, htype, hclose, hname, hcrlf, hdigits]
    omega
  · rw [if_pos hpassword, if_neg hpassword]
    simp only [List.length_append, hpost, htype, hclose, hname, hkey, hcrlf, hdigits]
    omega

/-- The query gets to the server. -/
structure ReachesServer (env : SqlEnv) (opt : CpeCtlChOpts) (outSz : ℕ) : Prop where
  room : 16 ≤ outSz
  table : sqlIdentOk opt.tableName = true
  statement : flowSqlLength opt < 768
  url : ∃ host port, parseBaseUrl opt.baseUrl 256 16 = .ok (host, port) ∧
    flowHeadLength opt host < 768
  connected : env.connectErr = none
  alloc : env.alloc = true
  send : env.send = true

theorem userName_ne_nil (opt : CpeCtlChOpts) : opt.userName ≠ [] := by
  rw [CpeCtlChOpts.userName]
  split
  · assumption
  · decide

theorem reachesServer_iff (env : SqlEnv) (opt : CpeCtlChOpts) (outSz : ℕ) :
    ReachesServer env opt outSz ↔
      sentSql env opt outSz = some (flowSql opt.tableName opt.rid opt.rowLimit) := by
  have hlow : 100 ≤ (flowSql opt.tableName opt.rid opt.rowLimit).length := by
    rw [length_flowSql, flowSqlLength]
    omega
  have hlen := length_flowSql opt
  rw [sentSql_eq_some_iff]
  constructor
  · intro h
    obtain ⟨host, port, hurl, hhead⟩ := h.url
    have hstatement := h.statement
    have hcall := CpeCtlChOpts.flowCall_of_checks h.room h.table hurl (hlen.trans_lt hstatement)
    refine ⟨_, hcall, ⟨h.connected, h.alloc, ?_, h.send⟩, rfl⟩
    have hrequest := length_request (c := ⟨host, port, opt.userName, opt.password,
      flowSql opt.tableName opt.rid opt.rowLimit⟩) hlow (by dsimp only; omega)
      (userName_ne_nil opt)
    rw [hrequest]
    exact Nat.add_lt_add_left hhead _
  · rintro ⟨c, hcall, hsends, -⟩
    obtain ⟨hsz, hident, hurl, huser, hpassword, hsql, hlt⟩ := CpeCtlChOpts.flowCall_eq_ok hcall
    refine ⟨hsz, hident, ?_, ⟨c.host, c.port, hurl, ?_⟩, hsends.connected, hsends.alloc,
      hsends.send⟩
    · rwa [← hlen, ← hsql]
    · have hrequest := length_request (c := c) (hsql ▸ hlow) (by omega)
        (huser ▸ userName_ne_nil opt)
      have hfits := hsends.fits
      rw [hrequest, huser, hpassword] at hfits
      exact Nat.lt_of_add_lt_add_left hfits

theorem cpeCtlChQueryFlows_failed {w : WordSize} {env : SqlEnv} {opt : CpeCtlChOpts} {outSz : ℕ}
    (h : sentSql env opt outSz = none) (errLen : ℕ) (out : List UInt8) :
    ∃ err, ∀ fuel, cpeCtlChQueryFlows w env opt outSz errLen out fuel = .failed err := by
  cases hcall : opt.flowCall outSz with
  | error err =>
    refine ⟨copyStr errLen err, fun fuel ↦ ?_⟩
    rw [cpeCtlChQueryFlows, hcall]
  | ok c =>
    have hnot : ¬ (8 ≤ outSz ∧ env.Sends c) := fun hsends ↦
      nomatch h.symm.trans (sentSql_eq_some_iff.mpr ⟨c, hcall, hsends.2, rfl⟩)
    obtain ⟨err, hfailed⟩ := httpPostSql_failed hnot errLen out
    refine ⟨err, fun fuel ↦ ?_⟩
    rw [cpeCtlChQueryFlows, hcall]
    exact hfailed fuel

/-- The rows of the router that is asked for are selected, or the call fails, exactly when the query
does not get to the server, or the id is one of at most 95 allowed bytes and the name of the table
has no two hyphens in a row. -/
theorem cpeCtlChQueryFlows_filters_iff (w : WordSize) (env : SqlEnv) (opt : CpeCtlChOpts)
    (outSz errLen : ℕ) (out : List UInt8) (hid : opt.routerId ≠ []) :
    FiltersRouter w env opt outSz errLen out ↔
      (ReachesServer env opt outSz → RouterKept opt.tableName opt.routerId) := by
  rw [reachesServer_iff]
  constructor
  · intro h hreaches
    have hident := ((reachesServer_iff env opt outSz).mpr hreaches).table
    cases h with
    | failed hsent _ => exact nomatch hsent.symm.trans hreaches
    | sent hsent hfiltered =>
      obtain rfl := Option.some_inj.mp (hsent.symm.trans hreaches)
      exact (filteredBy_flowSql_iff hident hid _).mp hfiltered
  · intro h
    cases hsent : sentSql env opt outSz with
    | none =>
      obtain ⟨err, hfailed⟩ := cpeCtlChQueryFlows_failed hsent errLen out
      exact .failed hsent hfailed
    | some sql =>
      obtain ⟨c, hcall, -, rfl⟩ := sentSql_eq_some_iff.mp hsent
      obtain ⟨-, hident, -, -, -, hsql, -⟩ := CpeCtlChOpts.flowCall_eq_ok hcall
      rw [hsql] at hsent
      exact .sent hsent ((filteredBy_flowSql_iff hident hid _).mpr (h hsent))

def emptyAnswer : SqlEnv := answering (ascii "HTTP/1.1 200 OK\r\n\r\n") (by decide)

theorem reachesServer_routerOpts {table routerId : CStr}
    (htable : sqlIdentOk (routerOpts table routerId).tableName = true)
    (hlen : flowSqlLength (routerOpts table routerId) < 768) :
    ReachesServer emptyAnswer (routerOpts table routerId) 64 :=
  ⟨by decide, htable, hlen, ⟨ascii "127.0.0.1", ascii "8123", rfl,
    (by decide : flowHeadLength (routerOpts [] []) (ascii "127.0.0.1") < 768)⟩, rfl, rfl, rfl⟩

/-- An id of allowed bytes. -/
theorem cpeCtlChQueryFlows_filters_id :
    FiltersRouter .w64 emptyAnswer (routerOpts [] (ascii "cpe-1")) 64 160 (List.replicate 64 0) :=
  (cpeCtlChQueryFlows_filters_iff .w64 _ _ _ _ _ (by decide)).mpr fun _ ↦
    ⟨by decide, by decide, by decide +kernel⟩

/-- A slash is left out of the id, and the rows of another router are selected. -/
theorem cpeCtlChQueryFlows_filters_other :
    sentSql emptyAnswer (routerOpts [] (ascii "lab/7")) 64
        = some (flowSql (ascii "edgehost.cpe_flows") (ascii "lab7") 20) ∧
      ¬ FiltersRouter .w64 emptyAnswer (routerOpts [] (ascii "lab/7")) 64 160
        (List.replicate 64 0) := by
  have hident : sqlIdentOk (routerOpts [] (ascii "lab/7")).tableName = true := by decide +kernel
  have hsql : sentSql emptyAnswer (routerOpts [] (ascii "lab/7")) 64
      = some (flowSql (ascii "edgehost.cpe_flows") (ascii "lab7") 20) :=
    (reachesServer_iff _ _ _).mp (reachesServer_routerOpts hident (by decide +kernel))
  refine ⟨hsql, fun h ↦ ?_⟩
  cases h with
  | failed hsent _ => exact nomatch hsent.symm.trans hsql
  | sent hsent hfiltered =>
    have hrid : copyRouterId 95 (ascii "lab/7") = ascii "lab7" := by decide
    rw [Option.some_inj.mp (hsent.symm.trans hsql), ← hrid] at hfiltered
    have hkept : RouterKept _ (ascii "lab/7") :=
      (filteredBy_flowSql_iff hident (by decide) 20).mp hfiltered
    exact absurd hkept.allowed (by decide)

end NetForensics
