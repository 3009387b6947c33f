import NetForensics.Agent.Apply
import NetForensics.Egress.Http

/-!
# Which transport a flush reaches

The mode decides whether a batch is posted at all; the scheme of the URL decides how. The two are
never compared, so that in `https` mode a URL that starts with `http://` sends in the clear.
-/

namespace NetForensics

/-- The scheme a URL is parsed with is the one it starts with. -/
theorem isHttps_of_parseUrl {url : CStr} {hostSz portSz pathSz : ℕ} {u : ParsedUrl}
    (h : parseUrl url hostSz portSz pathSz = some u) :
    (u.isHttps = true ↔ ascii "https://" <+: url) ∧
      (u.isHttps = false ↔ ascii "http://" <+: url) := by
  obtain ⟨⟨isHttps, p⟩, hscheme, hrest⟩ := Option.bind_eq_some_iff.mp h
  obtain ⟨⟨host, port⟩, -, hpath⟩ := Option.bind_eq_some_iff.mp hrest
  have hu : u.isHttps = isHttps := by
    dsimp only at hpath
    split_ifs at hpath
    · exact congrArg ParsedUrl.isHttps (Option.some_inj.mp hpath).symm
    · exact congrArg ParsedUrl.isHttps (Option.some_inj.mp hpath).symm
  -- no URL starts with both schemes
  have hdisjoint : ¬ (ascii "https://" <+: url ∧ ascii "http://" <+: url) := by
    rintro ⟨⟨s, hs⟩, t, ht⟩
    have hbyte := congrArg (fun l : CStr ↦ l[4]?) (hs.trans ht.symm)
    exact absurd hbyte (by simp [ascii])
  rw [hu]
  rw [urlScheme] at hscheme
  split_ifs at hscheme with htls hplain
  · obtain ⟨rfl, -⟩ := Prod.mk.inj (Option.some_inj.mp hscheme)
    exact ⟨iff_of_true rfl htls, iff_of_false Bool.noConfusion fun hp ↦ hdisjoint ⟨htls, hp⟩⟩
  · obtain ⟨rfl, -⟩ := Prod.mk.inj (Option.some_inj.mp hscheme)
    exact ⟨iff_of_false Bool.noConfusion htls, iff_of_true rfl hplain⟩

/-- The Basic header can be built, if one is asked for. -/
def AuthEncodes (user pass : CStr) : Prop :=
  user = [] ∨ (buildBasicAuth user pass 512).isSome = true

namespace CpeAgent

/-- The oldest line and its newline fit into the body. -/
def HeadFits (r : Ring CStr) : Prop := (r.cells (r.head % r.cap)).length + 2 < 8 * cpeNdjsonLineMax

theorem batchLoop_mono (r : Ring CStr) (k i : ℕ) (body : CStr) : i ≤ (batchLoop r k i body).2 := by
  induction k generalizing i body with
  | zero => exact le_rfl
  | succ k ih =>
    rw [batchLoop]
    dsimp only
    split_ifs
    · exact le_rfl
    · exact (Nat.le_succ i).trans (ih _ _)
    · exact le_rfl

/-- A batch is empty only if the ring is, or the oldest line does not fit. -/
theorem batchLoop_ne_zero_iff (r : Ring CStr) (hcnt : r.cnt ≠ 0) :
    (batchLoop r r.cnt 0 []).2 ≠ 0 ↔ HeadFits r := by
  obtain ⟨k, hk⟩ := Nat.exists_eq_succ_of_ne_zero hcnt
  have hroom : ([] : CStr).length + cpeNdjsonLineMax < 8 * cpeNdjsonLineMax := by decide
  rw [hk, batchLoop, if_pos hroom, HeadFits]
  simp only [Nat.add_zero, List.length_nil, Nat.zero_add, List.nil_append]
  generalize hline : r.cells (r.head % r.cap) = line
  split
  · exact iff_of_false (fun hne ↦ hne rfl) (by omega)
  · have hmono := batchLoop_mono r k 1 (line ++ [10])
    exact iff_of_true (by omega) (by omega)

theorem emitPost_eq_some_iff {a : CpeAgent}
    (hmode : a.cfg.emitMode = ascii "https" ∨ a.cfg.emitMode = ascii "http") {req : HttpRequest} :
    a.emitPost = some req ↔ a.spool.ring.cnt ≠ 0 ∧ HeadFits a.spool.ring ∧
      req = a.emitRequest (batchLoop a.spool.ring a.spool.ring.cnt 0 []).1 := by
  rw [emitPost, if_pos hmode]
  by_cases hcnt : a.spool.ring.cnt = 0
  · rw [if_pos hcnt]
    exact iff_of_false (by simp) fun h ↦ h.1 hcnt
  · rw [if_neg hcnt, ← batchLoop_ne_zero_iff _ hcnt]
    dsimp only
    split
    · rename_i hn
      exact iff_of_false (by simp) fun h ↦ h.2.1 hn
    · rename_i hn
      rw [Option.some_inj]
      exact ⟨fun h ↦ ⟨hcnt, hn, h.symm⟩, fun h ↦ h.2.2.symm⟩

/-- Where a request goes: to the transport of its scheme, if the URL can be parsed and the Basic
header be built. -/
theorem httpRoute_spec (req : HttpRequest) (t : Transport) :
    (∃ c, httpRoute req = .ok (t, c)) ↔
      (∃ u, parseUrl req.url 256 16 512 = some u ∧ (u.isHttps = true ↔ t = .tls)) ∧
        AuthEncodes (req.opts.username.getD []) req.opts.password := by
  have hkind : ∀ u : ParsedUrl, (if u.isHttps then Transport.tls else .plain) = t ↔
      (u.isHttps = true ↔ t = .tls) := by
    intro u
    cases u.isHttps <;> cases t <;> simp
  rw [httpRoute]
  cases hu : parseUrl req.url 256 16 512 with
  | none => exact iff_of_false (by simp) (by simp)
  | some u =>
    dsimp only
    have hurl : (∃ u', some u = some u' ∧ (u'.isHttps = true ↔ t = .tls)) ↔
        (u.isHttps = true ↔ t = .tls) :=
      ⟨fun ⟨u', hu', h⟩ ↦ Option.some_inj.mp hu' ▸ h, fun h ↦ ⟨u, rfl, h⟩⟩
    rw [hurl, ← hkind]
    cases req.opts.username with
    | none =>
      simp only [Except.ok.injEq, Prod.mk.injEq, Option.getD_none, AuthEncodes, true_or, and_true]
      exact ⟨fun ⟨_, h, _⟩ ↦ h, fun h ↦ ⟨_, h, rfl⟩⟩
    | some user =>
      dsimp only
      by_cases hnil : user = []
      · rw [if_pos hnil]
        simp only [Except.ok.injEq, Prod.mk.injEq, Option.getD_some, AuthEncodes, hnil, true_or,
          and_true]
        exact ⟨fun ⟨_, h, _⟩ ↦ h, fun h ↦ ⟨_, h, rfl⟩⟩
      · rw [if_neg hnil, AuthEncodes, Option.getD_some]
        cases buildBasicAuth user req.opts.password 512 with
        | none => exact iff_of_false (by simp) (by simp [hnil])
        | some hdr =>
          simp only [Except.ok.injEq, Prod.mk.injEq, Option.isSome_some, or_true, and_true]
          exact ⟨fun ⟨_, h, _⟩ ↦ h, fun h ↦ ⟨_, h, rfl⟩⟩

theorem getD_orNull (s : CStr) : (orNull s).getD [] = s := by
  rw [orNull]
  split
  · rename_i hnil
    rw [hnil]
    rfl
  · rfl

theorem emitRequest_username (a : CpeAgent) (body : CStr) :
    (a.emitRequest body).opts.username.getD [] = a.cfg.egressUser :=
  getD_orNull _

theorem emitRoute_iff {a : CpeAgent}
    (hmode : a.cfg.emitMode = ascii "https" ∨ a.cfg.emitMode = ascii "http") (t : Transport) :
    (∃ c, a.emitRoute = some (t, c)) ↔ a.spool.ring.cnt ≠ 0 ∧ HeadFits a.spool.ring ∧
      (∃ u, parseUrl a.cfg.httpsUrl 256 16 512 = some u ∧ (u.isHttps = true ↔ t = .tls)) ∧
      AuthEncodes a.cfg.egressUser a.cfg.egressPassword := by
  have hroute : ∀ req : HttpRequest,
      (∃ c, (httpRoute req).toOption = some (t, c)) ↔ ∃ c, httpRoute req = .ok (t, c) := by
    intro req
    cases httpRoute req with
    | error err => exact iff_of_false (by simp [Except.toOption]) (by simp)
    | ok r => simp [Except.toOption]
  generalize hbody : (batchLoop a.spool.ring a.spool.ring.cnt 0 []).1 = body
  have hspec := httpRoute_spec (a.emitRequest body) t
  rw [emitRequest_username] at hspec
  constructor
  · rintro ⟨c, hc⟩
    obtain ⟨req, hreq, hto⟩ := Option.bind_eq_some_iff.mp hc
    obtain ⟨hcnt, hfits, rfl⟩ := (emitPost_eq_some_iff hmode).mp hreq
    rw [hbody] at hto
    exact ⟨hcnt, hfits, hspec.mp ((hroute _).mp ⟨c, hto⟩)⟩
  · rintro ⟨hcnt, hfits, hreq⟩
    have hpost := (emitPost_eq_some_iff hmode).mpr ⟨hcnt, hfits, rfl⟩
    obtain ⟨c, hc⟩ := (hroute _).mpr (hspec.mpr hreq)
    refine ⟨c, ?_⟩
    rw [emitRoute, hpost, Option.bind_some, hbody, hc]

/-- In `https` mode no spool content reaches the plain transport if and only if the ring has nothing
to post, or the URL is not one that starts with `http://` and can be parsed, or the Basic header
cannot be built. -/
theorem emitFlush_never_plain_iff (a : CpeAgent) (hmode : a.cfg.emitMode = ascii "https") :
    (∀ c, a.emitRoute ≠ some (.plain, c)) ↔
      a.spool.ring.cnt = 0 ∨ ¬ HeadFits a.spool.ring ∨
      ¬ (ascii "http://" <+: a.cfg.httpsUrl ∧ (parseUrl a.cfg.httpsUrl 256 16 512).isSome = true) ∨
      ¬ AuthEncodes a.cfg.egressUser a.cfg.egressPassword := by
  have hurl : (∃ u, parseUrl a.cfg.httpsUrl 256 16 512 = some u ∧
        (u.isHttps = true ↔ Transport.plain = .tls)) ↔
      ascii "http://" <+: a.cfg.httpsUrl ∧ (parseUrl a.cfg.httpsUrl 256 16 512).isSome = true := by
    constructor
    · rintro ⟨u, hu, hkind⟩
      have hplain : u.isHttps = false := by
        rw [Bool.eq_false_iff]
        exact fun h ↦ absurd (hkind.mp h) (by simp)
      exact ⟨(isHttps_of_parseUrl hu).2.mp hplain, by rw [hu]; rfl⟩
    · rintro ⟨hscheme, hsome⟩
      obtain ⟨u, hu⟩ := Option.isSome_iff_exists.mp hsome
      have hplain := (isHttps_of_parseUrl hu).2.mpr hscheme
      exact ⟨u, hu, by simp [hplain]⟩
  have hiff := emitRoute_iff (Or.inl hmode) .plain
  rw [hurl] at hiff
  rw [← not_exists, hiff]
  tauto

/-- A new agent in `https` mode with the given URL and one line in its ring. -/
def postingTo (url : String) : CpeAgent :=
  let cfg := { cpeAgentConfigDefaults with emitMode := ascii "https", httpsUrl := ascii url }
  ((create.applyConfig cfg ⟨true, .ok 3, .ok 4, .ok 5⟩).1.spoolPushLine (ascii "line")).1

theorem emitFlush_never_plain_tls :
    (postingTo "https://h/").cfg.emitMode = ascii "https" ∧
      ∀ c, (postingTo "https://h/").emitRoute ≠ some (.plain, c) :=
  ⟨by decide, (emitFlush_never_plain_iff _ (by decide)).mpr (Or.inr (Or.inr (Or.inl (by decide))))⟩

/-- The scheme of the URL wins over the mode. -/
theorem emitFlush_plain_in_https_mode :
    cpeAgentConfigValidate (postingTo "http://h/").cfg = none ∧
      (postingTo "http://h/").cfg.emitMode = ascii "https" ∧
      (postingTo "http://h/").emitRoute
        = some (.plain, ⟨ascii "h", ascii "80", ascii "/", ascii "line\n", none⟩) := by
  refine ⟨by decide, by decide, by decide⟩

end CpeAgent

end NetForensics
