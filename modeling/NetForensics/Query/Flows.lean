import NetForensics.Query.Dechunk
import NetForensics.Util.Sql

/-!
# The query for flow rows

`cpe_ctl_ch_query_flows` of `ctl_ch_query.c`, up to the request: the options with their defaults,
the URL of the server, and the statement, into which the name of the table, the id of a router and
the limit are printed. The name of the table is checked; of the id the bytes that are not allowed
are left out, and as many are kept as a buffer of 96 bytes holds.
-/

namespace NetForensics

/-- `cpe_ctl_ch_opts_t`. A string that is not given is an empty one. -/
structure CpeCtlChOpts where
  url : CStr
  user : CStr
  password : CStr
  table : CStr
  routerId : CStr
  limit : ℕ

def identByte (c : UInt8) : Bool :=
  (97 ≤ c && c ≤ 122) || (65 ≤ c && c ≤ 90) || (48 ≤ c && c ≤ 57) || c == 95 || c == 46 || c == 45

/-- `sql_ident_ok` -/
def sqlIdentOk (s : CStr) : Bool := s ≠ [] && s.all identByte

/-! ## The server -/

/-- The two failures of `parse_base_url`. -/
inductive UrlError where
  /-- -1 -/
  | bad
  /-- -2 -/
  | https
  deriving DecidableEq

/-- `parse_base_url`: the host and the port, each of which has to fit into its buffer. -/
def parseBaseUrl (url : CStr) (hostSz portSz : ℕ) : Except UrlError (CStr × CStr) :=
  if ¬ ascii "http://" <+: url ∧ ascii "https://" <+: url then .error .https
  else
    let p := if ascii "http://" <+: url then url.drop 7 else url
    let authority := p.takeWhile (· ≠ 47)
    if 58 ∈ authority then
      let host := authority.takeWhile (· ≠ 58)
      let port := (authority.dropWhile (· ≠ 58)).tail
      if host = [] ∨ hostSz ≤ host.length then .error .bad
      else if port = [] ∨ portSz ≤ port.length then .error .bad
      else .ok (host, port)
    else if authority = [] ∨ hostSz ≤ authority.length then .error .bad
    else .ok (authority, copyStr portSz (ascii "8123"))

/-! ## The statement -/

/-- The loop that copies the id of the router, with room for so many more bytes. -/
def copyRouterId : ℕ → CStr → CStr
  | _, [] => []
  | room, c :: s =>
    if room = 0 then []
    else if identByte c then c :: copyRouterId (room - 1) s
    else copyRouterId room s

/-- What stands before the table in both templates. -/
def flowColumns : CStr :=
  ascii ("SELECT router_id, ts, event, flow_id, proto, lan_ip, lan_port, " ++
    "wan_ip, wan_port, remote_ip, remote_port, bytes_up, bytes_down, " ++
    "rate_up_bps, rate_down_bps, duration_ms, state " ++ "FROM ")

def flowSql (table rid : CStr) (limit : ℕ) : CStr :=
  if rid ≠ [] then
    flowColumns ++ table ++ ascii " WHERE router_id = '" ++ rid ++
      ascii "' ORDER BY ts DESC LIMIT " ++ decimal limit
  else flowColumns ++ table ++ ascii " ORDER BY ts DESC LIMIT " ++ decimal limit

namespace CpeCtlChOpts

def baseUrl (opt : CpeCtlChOpts) : CStr :=
  if opt.url ≠ [] then opt.url else ascii "http://127.0.0.1:8123"

def userName (opt : CpeCtlChOpts) : CStr := if opt.user ≠ [] then opt.user else ascii "default"

def tableName (opt : CpeCtlChOpts) : CStr :=
  if opt.table ≠ [] then opt.table else ascii "edgehost.cpe_flows"

def rowLimit (opt : CpeCtlChOpts) : ℕ := min (if opt.limit ≠ 0 then opt.limit else 50) 500

def rid (opt : CpeCtlChOpts) : CStr := copyRouterId 95 opt.routerId

/-- The call of `http_post_sql`, or the message without one. -/
def flowCall (opt : CpeCtlChOpts) (outSz : ℕ) : Except CStr SqlCall :=
  if outSz < 16 then .error (ascii "bad args")
  else if sqlIdentOk opt.tableName = false then .error (ascii "invalid table name")
  else
    match parseBaseUrl opt.baseUrl 256 16 with
    | .error .https => .error (ascii "https CH URL not supported in cpe_ctl; use http://")
    | .error .bad => .error (ascii "bad --ch-url")
    | .ok (host, port) =>
      if 768 ≤ (flowSql opt.tableName opt.rid opt.rowLimit).length then
        .error (ascii "sql overflow")
      else .ok ⟨host, port, opt.userName, opt.password,
        flowSql opt.tableName opt.rid opt.rowLimit⟩

end CpeCtlChOpts

/-- `cpe_ctl_ch_query_flows` -/
def cpeCtlChQueryFlows (w : WordSize) (env : SqlEnv) (opt : CpeCtlChOpts) (outSz errLen : ℕ)
    (out : List UInt8) (fuel : ℕ) : SqlResult :=
  match opt.flowCall outSz with
  | .error err => .failed (copyStr errLen err)
  | .ok c => httpPostSql w env c outSz errLen out fuel

/-! ## What is printed -/

theorem sqlIdentOk_iff (s : CStr) : sqlIdentOk s = true ↔ s ≠ [] ∧ ∀ b ∈ s, identByte b = true := by
  rw [sqlIdentOk, Bool.and_eq_true, decide_eq_true_iff, List.all_eq_true]

/-- The bytes that are allowed, as many as there is room for. -/
theorem copyRouterId_eq (room : ℕ) (s : CStr) :
    copyRouterId room s = (s.filter identByte).take room := by
  induction s generalizing room with
  | nil => rw [List.filter_nil, List.take_nil, copyRouterId]
  | cons c s ih =>
    rw [copyRouterId]
    split
    · rename_i hzero
      rw [hzero, List.take_zero]
    · rename_i hroom
      obtain ⟨n, rfl⟩ := Nat.exists_eq_succ_of_ne_zero hroom
      cases hc : identByte c with
      | true => rw [if_pos rfl, ih, List.filter_cons_of_pos hc, List.take_succ_cons]; rfl
      | false =>
        have hnot : ¬ identByte c = true := by
          rw [hc]
          exact Bool.false_ne_true
        rw [if_neg Bool.false_ne_true, ih, List.filter_cons_of_neg hnot]

theorem identByte_of_mem_copyRouterId {room : ℕ} {s : CStr} :
    ∀ b ∈ copyRouterId room s, identByte b = true := by
  intro b hb
  rw [copyRouterId_eq] at hb
  exact (List.mem_filter.mp (List.mem_of_mem_take hb)).2

/-- An id is kept as it is exactly when all its bytes are allowed and there is room for them. -/
theorem copyRouterId_eq_self_iff (room : ℕ) (s : CStr) :
    copyRouterId room s = s ↔ (∀ b ∈ s, identByte b = true) ∧ s.length ≤ room := by
  rw [copyRouterId_eq]
  constructor
  · intro h
    have hsub : s.length ≤ (s.filter identByte).length := by
      rw [← congrArg List.length h]
      exact List.length_take_le' _ _
    have hfilter : s.filter identByte = s :=
      List.filter_sublist.eq_of_length_le hsub
    refine ⟨List.filter_eq_self.mp hfilter, ?_⟩
    rw [← congrArg List.length h]
    exact List.length_take_le _ _
  · rintro ⟨hall, hlen⟩
    rw [List.filter_eq_self.mpr hall, List.take_of_length_le hlen]

theorem CpeCtlChOpts.flowCall_eq_ok {opt : CpeCtlChOpts} {outSz : ℕ} {c : SqlCall}
    (h : opt.flowCall outSz = .ok c) :
    16 ≤ outSz ∧ sqlIdentOk opt.tableName = true ∧
      parseBaseUrl opt.baseUrl 256 16 = .ok (c.host, c.port) ∧ c.user = opt.userName ∧
      c.password = opt.password ∧ c.sql = flowSql opt.tableName opt.rid opt.rowLimit ∧
      c.sql.length < 768 := by
  rw [CpeCtlChOpts.flowCall] at h
  by_cases hsz : outSz < 16
  · exact nomatch (if_pos hsz).symm.trans h
  rw [if_neg hsz] at h
  by_cases hident : sqlIdentOk opt.tableName = false
  · exact nomatch (if_pos hident).symm.trans h
  rw [if_neg hident] at h
  split at h
  · exact nomatch h
  · exact nomatch h
  · rename_i host port hurl
    by_cases hlen : 768 ≤ (flowSql opt.tableName opt.rid opt.rowLimit).length
    · exact nomatch (if_pos hlen).symm.trans h
    · rw [if_neg hlen] at h
      obtain rfl := Except.ok.inj h
      exact ⟨Nat.le_of_not_lt hsz, Bool.eq_true_of_not_eq_false hident, hurl, rfl, rfl, rfl,
        Nat.lt_of_not_le hlen⟩

theorem CpeCtlChOpts.flowCall_of_checks {opt : CpeCtlChOpts} {outSz : ℕ} {host port : CStr}
    (hsz : 16 ≤ outSz) (hident : sqlIdentOk opt.tableName = true)
    (hurl : parseBaseUrl opt.baseUrl 256 16 = .ok (host, port))
    (hlen : (flowSql opt.tableName opt.rid opt.rowLimit).length < 768) :
    opt.flowCall outSz = .ok ⟨host, port, opt.userName, opt.password,
      flowSql opt.tableName opt.rid opt.rowLimit⟩ := by
  rw [CpeCtlChOpts.flowCall, if_neg (Nat.not_lt_of_le hsz), hident, if_neg (by decide),
    hurl]
  exact if_neg (Nat.not_le_of_lt hlen)

end NetForensics
