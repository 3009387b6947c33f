import NetForensics.Egress.Http
import NetForensics.Util.Lines

/-!
# URLs and their parts

`parse_url` searches a URL for two delimiters and cuts it at their positions (`parseUrlAt`); that is
`parseUrl`, which cuts at the slash first and looks for the colon in front of it. What it accepts is
what can be put together from a scheme, a host, a port and a path that fit the buffers (`UrlParts`),
and it gives these parts back.

The sizes of the buffers bound the request that is made of them: it fits the one of the header.
-/

namespace NetForensics

/-! ## Cutting by position -/

/-- The authority, given where the first slash and the first colon are. -/
def authorityAt (isHttps : Bool) (p : CStr) (slash colon : Option ℕ) (hostSz portSz : ℕ) :
    Option (CStr × CStr) :=
  match colon.filter fun c ↦ slash.all fun s ↦ decide (c < s) with
  | some c =>
    if c = 0 ∨ hostSz ≤ c then none
    else
      let plen :=
        match slash with
        | some s => s - c - 1
        | none => (p.drop (c + 1)).length
      if plen = 0 ∨ portSz ≤ plen then none
      else some (p.take c, (p.drop (c + 1)).take plen)
  | none =>
    let hlen := slash.getD p.length
    if hlen = 0 ∨ hostSz ≤ hlen then none
    else some (p.take hlen, copyStr portSz (if isHttps then ascii "443" else ascii "80"))

/-- `parse_url` by the positions that `strchr` finds. -/
def parseUrlAt (url : CStr) (hostSz portSz pathSz : ℕ) : Option ParsedUrl :=
  (urlScheme url).bind fun (isHttps, p) ↦
    let slash := p.idxOf? 47
    let colon := p.idxOf? 58
    (authorityAt isHttps p slash colon hostSz portSz).bind fun (host, port) ↦
      match slash with
      | some s =>
        if pathSz ≤ (p.drop s).length then none else some ⟨isHttps, host, port, p.drop s⟩
      | none => some ⟨isHttps, host, port, copyStr pathSz [47]⟩

variable {a path : CStr} {hostSz portSz pathSz : ℕ}

theorem idxOf?_slash (ha : 47 ∉ a) (hpath : path = [] ∨ ∃ t, path = 47 :: t) :
    (a ++ path).idxOf? 47 = if path = [] then none else some a.length := by
  rcases hpath with rfl | ⟨t, rfl⟩
  · rw [List.append_nil, if_pos rfl, List.idxOf?_eq_none_iff]
    exact ha
  · rw [idxOf?_append_cons ha, if_neg (List.cons_ne_nil _ _)]

theorem filter_colon_of_notMem (ha : 47 ∉ a) (hpath : path = [] ∨ ∃ t, path = 47 :: t)
    (hcolon : 58 ∉ a) :
    ((a ++ path).idxOf? 58).filter
      (fun c ↦ ((a ++ path).idxOf? 47).all fun s ↦ decide (c < s)) = none := by
  rcases hpath with rfl | ⟨t, rfl⟩
  · rw [List.append_nil, List.idxOf?_eq_none_iff.mpr hcolon, Option.filter_none]
  · rw [idxOf?_append_cons ha]
    by_cases ht : 58 ∈ t
    · obtain ⟨l, r, rfl, hl⟩ := List.eq_append_cons_of_mem ht
      have hnot : (58 : UInt8) ∉ a ++ 47 :: l := by
        simp only [List.mem_append, List.mem_cons, not_or]
        exact ⟨hcolon, by decide, hl⟩
      have hsplit : a ++ 47 :: (l ++ 58 :: r) = (a ++ 47 :: l) ++ 58 :: r := by simp
      rw [hsplit, idxOf?_append_cons hnot]
      simp
    · have hnot : (58 : UInt8) ∉ a ++ 47 :: t := by
        simp only [List.mem_append, List.mem_cons, not_or]
        exact ⟨hcolon, by decide, ht⟩
      rw [List.idxOf?_eq_none_iff.mpr hnot, Option.filter_none]

/-- The two positions cut the authority as its first colon does. -/
theorem authorityAt_eq (isHttps : Bool) (ha : 47 ∉ a) (hpath : path = [] ∨ ∃ t, path = 47 :: t) :
    authorityAt isHttps (a ++ path) ((a ++ path).idxOf? 47) ((a ++ path).idxOf? 58) hostSz portSz =
      splitAuthority isHttps a hostSz portSz := by
  have hslash := idxOf?_slash ha hpath
  rw [authorityAt, splitAuthority]
  by_cases hcolon : 58 ∈ a
  · obtain ⟨l, r, rfl, hl⟩ := List.eq_append_cons_of_mem hcolon
    have hfirst : (l ++ 58 :: r ++ path).idxOf? 58 = some l.length := by
      rw [List.append_assoc, List.cons_append, idxOf?_append_cons hl]
    have hbefore :
        (((l ++ 58 :: r ++ path).idxOf? 47).all fun s ↦ decide (l.length < s)) = true := by
      rw [hslash]
      rcases hpath with rfl | ⟨t, rfl⟩
      · rfl
      · simp
    have hdrop : (l ++ 58 :: r ++ path).drop (l.length + 1) = r ++ path := by
      simp
    have hplen : (match (l ++ 58 :: r ++ path).idxOf? 47 with
        | some s => s - l.length - 1
        | none => ((l ++ 58 :: r ++ path).drop (l.length + 1)).length) = r.length := by
      rw [hslash, hdrop]
      rcases hpath with rfl | ⟨t, rfl⟩
      · simp
      · simp
    rw [hfirst, Option.filter_some, if_pos hbefore]
    dsimp only
    rw [hplen, hdrop, takeWhile_append_cons hl, dropWhile_append_cons hl, List.tail_cons,
      if_pos hcolon]
    simp [List.length_eq_zero_iff]
  · rw [filter_colon_of_notMem ha hpath hcolon, takeWhile_of_notMem hcolon, if_neg hcolon]
    have hlen : ((a ++ path).idxOf? 47).getD (a ++ path).length = a.length := by
      rw [hslash]
      rcases hpath with rfl | ⟨t, rfl⟩
      · simp
      · simp
    dsimp only
    rw [hlen, List.take_left]
    simp only [List.length_eq_zero_iff]

/-- Cutting by position is cutting at the first slash and then at the colon. -/
theorem parseUrlAt_eq (url : CStr) (hostSz portSz pathSz : ℕ) :
    parseUrlAt url hostSz portSz pathSz = parseUrl url hostSz portSz pathSz := by
  rw [parseUrlAt, parseUrl]
  congr 1
  funext ⟨isHttps, p⟩
  obtain ⟨a, path, rfl, ha, hpath⟩ := exists_cut (47 : UInt8) p
  dsimp only
  have hcut := cut_append ha hpath
  rw [authorityAt_eq isHttps ha hpath, idxOf?_slash ha hpath, hcut.1, hcut.2]
  rcases hpath with rfl | ⟨t, rfl⟩
  · rfl
  · rw [if_neg (List.cons_ne_nil _ _)]
    congr 1
    funext ⟨host, port⟩
    dsimp only
    rw [List.drop_left, if_neg (List.cons_ne_nil _ _)]

/-! ## The parts of a URL -/

def schemeText (isHttps : Bool) : CStr := if isHttps then ascii "https://" else ascii "http://"

/-- What a URL is put together from, within the buffers of `cpe_agent_http_post`. -/
structure UrlParts where
  isHttps : Bool
  host : CStr
  host_ne : host ≠ []
  host_colon : 58 ∉ host
  host_slash : 47 ∉ host
  host_lt : host.length < 256
  port : Option CStr
  port_ne : ∀ t ∈ port, t ≠ []
  port_slash : ∀ t ∈ port, 47 ∉ t
  port_lt : ∀ t ∈ port, t.length < 16
  path : CStr
  path_slash : path = [] ∨ ∃ t, path = 47 :: t
  path_lt : path.length < 512

namespace UrlParts

/-- The host, and the port behind a colon if there is one. -/
def authority (u : UrlParts) : CStr :=
  match u.port with
  | some t => u.host ++ 58 :: t
  | none => u.host

def text (u : UrlParts) : CStr := schemeText u.isHttps ++ (u.authority ++ u.path)

/-- What is to be made of the parts: a port that is missing is the one of the scheme, and a path
that is missing is the root. -/
def parsed (u : UrlParts) : ParsedUrl where
  isHttps := u.isHttps
  host := u.host
  port := u.port.getD (if u.isHttps then ascii "443" else ascii "80")
  path := if u.path = [] then [47] else u.path

variable (u : UrlParts)

theorem authority_slash : 47 ∉ u.authority := by
  rw [authority]
  split
  · rename_i t ht
    rw [List.mem_append, List.mem_cons, not_or, not_or]
    exact ⟨u.host_slash, by decide, u.port_slash t ht⟩
  · exact u.host_slash

theorem splitAuthority_authority :
    splitAuthority u.isHttps u.authority 256 16 = some (u.parsed.host, u.parsed.port) := by
  have hhost : ¬ (u.host = [] ∨ 256 ≤ u.host.length) :=
    not_or.mpr ⟨u.host_ne, Nat.not_le.mpr u.host_lt⟩
  rw [authority, splitAuthority, parsed]
  split
  · rename_i t ht
    rw [takeWhile_append_cons u.host_colon, dropWhile_append_cons u.host_colon, List.tail_cons,
      if_neg hhost, if_pos (List.mem_append_right _ List.mem_cons_self),
      if_neg (not_or.mpr ⟨u.port_ne t ht, Nat.not_le.mpr (u.port_lt t ht)⟩), ht]
    rfl
  · rename_i hport
    rw [takeWhile_of_notMem u.host_colon, if_neg hhost, if_neg u.host_colon, hport]
    cases u.isHttps with
    | false => rfl
    | true => rfl

end UrlParts

/-! ## There and back -/

theorem urlScheme_schemeText (isHttps : Bool) (p : CStr) :
    urlScheme (schemeText isHttps ++ p) = some (isHttps, p) := by
  cases isHttps with
  | true => rfl
  | false =>
    -- the fifth byte tells the schemes apart
    have hne : ¬ ascii "https://" <+: schemeText false ++ p := by
      rintro ⟨s, hs⟩
      exact absurd (congrArg (fun l : CStr ↦ l[4]?) hs) (by simp [ascii, schemeText])
    rw [urlScheme, if_neg hne]
    rfl

theorem eq_of_urlScheme {url p : CStr} {isHttps : Bool} (h : urlScheme url = some (isHttps, p)) :
    url = schemeText isHttps ++ p := by
  rw [urlScheme] at h
  split_ifs at h with htls hplain
  · obtain ⟨rfl, rfl⟩ := Prod.mk.inj (Option.some_inj.mp h)
    exact List.prefix_append_drop htls
  · obtain ⟨rfl, rfl⟩ := Prod.mk.inj (Option.some_inj.mp h)
    exact List.prefix_append_drop hplain

theorem parseUrl_text (u : UrlParts) : parseUrl u.text 256 16 512 = some u.parsed := by
  have hcut := cut_append u.authority_slash u.path_slash
  rw [parseUrl, UrlParts.text, urlScheme_schemeText, Option.bind_some]
  dsimp only
  rw [hcut.1, hcut.2, u.splitAuthority_authority, Option.bind_some]
  dsimp only
  split
  · rename_i hpath
    rw [UrlParts.parsed, if_pos hpath]
    rfl
  · rename_i hpath
    rw [if_neg (Nat.not_le.mpr u.path_lt), UrlParts.parsed, if_neg hpath]

/-- An authority that is accepted is a host, and a port if there is a colon. -/
theorem exists_of_splitAuthority {isHttps : Bool} {a host port : CStr} (ha : 47 ∉ a)
    (h : splitAuthority isHttps a 256 16 = some (host, port)) :
    host ≠ [] ∧ 58 ∉ host ∧ 47 ∉ host ∧ host.length < 256 ∧
      (a = host ∨ a = host ++ 58 :: port ∧ port ≠ [] ∧ 47 ∉ port ∧ port.length < 16) := by
  rw [splitAuthority] at h
  by_cases hcolon : 58 ∈ a
  · obtain ⟨l, r, rfl, hl⟩ := List.eq_append_cons_of_mem hcolon
    rw [takeWhile_append_cons hl, dropWhile_append_cons hl, List.tail_cons, if_pos hcolon] at h
    dsimp only at h
    split_ifs at h with hhost hport
    obtain ⟨rfl, rfl⟩ := Prod.mk.inj (Option.some_inj.mp h)
    rw [not_or, Nat.not_le] at hhost hport
    rw [List.mem_append, List.mem_cons, not_or, not_or] at ha
    exact ⟨hhost.1, hl, ha.1, hhost.2, .inr ⟨rfl, hport.1, ha.2.2, hport.2⟩⟩
  · rw [takeWhile_of_notMem hcolon, if_neg hcolon] at h
    split_ifs at h with hhost
    all_goals
      obtain ⟨rfl, -⟩ := Prod.mk.inj (Option.some_inj.mp h)
      rw [not_or, Nat.not_le] at hhost
      exact ⟨hhost.1, hcolon, ha, hhost.2, .inl rfl⟩

theorem exists_parts_of_parseUrl {url : CStr} {r : ParsedUrl}
    (h : parseUrl url 256 16 512 = some r) : ∃ u : UrlParts, u.text = url := by
  obtain ⟨⟨isHttps, p⟩, hscheme, hrest⟩ := Option.bind_eq_some_iff.mp h
  obtain ⟨⟨host, port⟩, hauth, hpath⟩ := Option.bind_eq_some_iff.mp hrest
  obtain ⟨a, path, rfl, ha, hslash⟩ := exists_cut (47 : UInt8) p
  dsimp only at hauth hpath
  have hcut := cut_append ha hslash
  rw [hcut.1] at hauth
  rw [hcut.2] at hpath
  have hlt : path.length < 512 := by
    split_ifs at hpath with hnil hlen
    · simp [hnil]
    · exact Nat.not_le.mp hlen
  obtain ⟨hne, hcolon, hnot, hhost, hport⟩ := exists_of_splitAuthority ha hauth
  rw [eq_of_urlScheme hscheme]
  rcases hport with rfl | ⟨rfl, hpne, hpnot, hplt⟩
  · have hnone : ∀ P : CStr → Prop, ∀ t ∈ (none : Option CStr), P t :=
      fun _ t ht ↦ absurd ht (Option.not_mem_none t)
    exact ⟨⟨isHttps, a, hne, hcolon, hnot, hhost, none, hnone _, hnone _, hnone _, path, hslash,
      hlt⟩, rfl⟩
  · refine ⟨⟨isHttps, host, hne, hcolon, hnot, hhost, some port, ?_, ?_, ?_, path, hslash, hlt⟩,
      rfl⟩
    · rintro t ⟨⟩
      exact hpne
    · rintro t ⟨⟩
      exact hpnot
    · rintro t ⟨⟩
      exact hplt

/-! ## The request fits -/

theorem length_of_buildBasicAuth {user pass hdr : CStr} {hdrSz : ℕ}
    (h : buildBasicAuth user pass hdrSz = some hdr) : hdr.length < hdrSz := by
  rw [buildBasicAuth] at h
  split_ifs at h
  obtain ⟨raw, -, hraw⟩ := Option.bind_eq_some_iff.mp h
  obtain ⟨enc, -, henc⟩ := Option.bind_eq_some_iff.mp hraw
  rw [fitText] at henc
  split_ifs at henc with hlt
  exact Option.some_inj.mp henc ▸ hlt

/-- The header block of a request whose parts come from these buffers. -/
theorem length_header_lt {c : PostCall} (hhost : c.host.length < 256) (hpath : c.path.length < 512)
    (hbody : c.body.length < 2 ^ 64) (hauth : (c.authHdr.getD []).length < 512) :
    c.header.length < 1536 := by
  have hdigits : (decimal c.body.length).length ≤ 20 :=
    length_decimal_le (by norm_num) (hbody.trans (by norm_num))
  have h1 : (ascii "POST ").length = 5 := rfl
  have h2 : (ascii " HTTP/1.1\r\nHost: ").length = 17 := rfl
  have h3 : (ascii "\r\nContent-Type: application/x-ndjson\r\nContent-Length: ").length = 54 := by
    decide
  have h4 : (ascii "\r\nConnection: close\r\n").length = 21 := rfl
  have h5 : (ascii "\r\n").length = 2 := rfl
  simp only [PostCall.header, List.length_append]
  omega

theorem UrlParts.parsed_lt (u : UrlParts) :
    u.parsed.host.length < 256 ∧ u.parsed.path.length < 512 := by
  refine ⟨u.host_lt, ?_⟩
  rw [parsed]
  dsimp only
  split
  · norm_num
  · exact u.path_lt

theorem length_of_parseUrl {url : CStr} {r : ParsedUrl} (h : parseUrl url 256 16 512 = some r) :
    r.host.length < 256 ∧ r.path.length < 512 := by
  obtain ⟨u, rfl⟩ := exists_parts_of_parseUrl h
  rw [parseUrl_text, Option.some_inj] at h
  exact h ▸ u.parsed_lt

/-- `parse_url` inverts the construction of URLs and rejects the rest, and what it accepts makes a
request that fits the header buffer, with any credentials that can be encoded. -/
theorem parseUrlAt_inverts (url : CStr) :
    (∀ u : UrlParts, u.text = url → parseUrlAt url 256 16 512 = some u.parsed) ∧
      ((∀ u : UrlParts, u.text ≠ url) → parseUrlAt url 256 16 512 = none) ∧
      ∀ r, parseUrlAt url 256 16 512 = some r → ∀ body : CStr, body.length < 2 ^ 64 →
        ∀ authHdr : Option CStr,
          (∀ hdr ∈ authHdr, ∃ user pass, buildBasicAuth user pass 512 = some hdr) →
          (PostCall.header ⟨r.host, r.port, r.path, body, authHdr⟩).length < 1536 := by
  rw [parseUrlAt_eq]
  refine ⟨?_, fun hno ↦ ?_, fun r hr body hbody authHdr hauth ↦ ?_⟩
  · rintro u rfl
    exact parseUrl_text u
  · by_contra hsome
    obtain ⟨r, hr⟩ := Option.ne_none_iff_exists'.mp hsome
    obtain ⟨u, hu⟩ := exists_parts_of_parseUrl hr
    exact hno u hu
  · obtain ⟨hhost, hpath⟩ := length_of_parseUrl hr
    refine length_header_lt hhost hpath hbody ?_
    cases authHdr with
    | none => norm_num
    | some hdr =>
      obtain ⟨user, pass, hbasic⟩ := hauth hdr rfl
      exact length_of_buildBasicAuth hbasic

def eventsUrl : UrlParts where
  isHttps := false
  host := ascii "127.0.0.1"
  host_ne := by decide
  host_colon := by decide
  host_slash := by decide
  host_lt := by decide
  port := some (ascii "1")
  port_ne := by
    rintro t ⟨⟩
    decide
  port_slash := by
    rintro t ⟨⟩
    decide
  port_lt := by
    rintro t ⟨⟩
    decide
  path := ascii "/api/v1/telemetry/events"
  path_slash := .inr ⟨ascii "api/v1/telemetry/events", rfl⟩
  path_lt := by decide

theorem parseUrlAt_inverts_events :
    parseUrlAt (ascii "http://127.0.0.1:1/api/v1/telemetry/events") 256 16 512 =
        some eventsUrl.parsed ∧
      parseUrlAt (ascii "ftp://127.0.0.1/") 256 16 512 = none ∧
      ∃ hdr, buildBasicAuth (ascii "u") (ascii "p") 512 = some hdr ∧
        (PostCall.header ⟨ascii "127.0.0.1", ascii "1", ascii "/api/v1/telemetry/events", [10],
          some hdr⟩).length < 1536 := by
  have hevents := parseUrlAt_inverts (ascii "http://127.0.0.1:1/api/v1/telemetry/events")
  have hparsed := hevents.1 eventsUrl (by decide +kernel)
  refine ⟨hparsed, (parseUrlAt_inverts _).2.1 fun u hu ↦ ?_, ascii "Authorization: Basic dTpw\r\n",
    by decide +kernel, hevents.2.2 _ hparsed [10] (by norm_num) _ ?_⟩
  · have hfirst := congrArg List.head? hu
    rw [UrlParts.text] at hfirst
    cases hs : u.isHttps with
    | false =>
      rw [hs] at hfirst
      exact absurd hfirst (by simp [schemeText, ascii])
    | true =>
      rw [hs] at hfirst
      exact absurd hfirst (by simp [schemeText, ascii])
  · rintro hdr ⟨⟩
    exact ⟨ascii "u", ascii "p", by decide +kernel⟩

end NetForensics
