import NetForensics.Agent.Yaml
import NetForensics.Egress.Transport

/-!
# Verifying the peer

Four paths of a configuration file decide how `mbedtls_https_post` verifies the peer: two for the CA
file and two for the flag. The table of paths has the CA file first, so that a flag in the file wins
over what the CA file implies.
-/

namespace NetForensics

/-! ## The two fields -/

def caPaths : List String := ["egress.ca_file", "tls_ca_file"]

def insecurePaths : List String := ["egress.tls_insecure", "egress.insecure"]

def SameTls (c c' : CpeAgentConfig) : Prop :=
  c'.tlsCaFile = c.tlsCaFile ∧ c'.egressTlsInsecure = c.egressTlsInsecure

theorem applyText_eq_ok {key : String} {size : ℕ} {val : CStr} {set : CStr → CpeAgentConfig}
    {c' : CpeAgentConfig} (h : applyText key size val set = .ok c') : c' = set val := by
  rw [applyText] at h
  split_ifs at h
  exact (Except.ok.inj h).symm

theorem applyBool_eq_ok {key : String} {val : CStr} {set : Bool → CpeAgentConfig}
    {c' : CpeAgentConfig} (h : applyBool key val set = .ok c') :
    ∃ b, parseBool val = some b ∧ c' = set b := by
  rw [applyBool] at h
  split at h
  · exact absurd h (by simp)
  · rename_i b hb
    exact ⟨b, hb, (Except.ok.inj h).symm⟩

theorem applyU32_eq_ok {key : String} {val : CStr} {lo hi : UInt32} {set : UInt32 → CpeAgentConfig}
    {c' : CpeAgentConfig} (h : applyU32 key val lo hi set = .ok c') : ∃ n, c' = set n := by
  rw [applyU32] at h
  split at h
  · exact absurd h (by simp)
  · rename_i n hn
    split_ifs at h
    exact ⟨n, (Except.ok.inj h).symm⟩

theorem applySize_eq_ok {key : String} {val : CStr} {set : ℕ → CpeAgentConfig}
    {c' : CpeAgentConfig} (h : applySize key val set = .ok c') : ∃ n, c' = set n := by
  rw [applySize] at h
  split at h
  · exact absurd h (by simp)
  · rename_i n hn
    split_ifs at h
    exact ⟨n, (Except.ok.inj h).symm⟩

section
variable {c c' : CpeAgentConfig} {key : String} {val : CStr}

theorem applyScalar_ca (hkey : key ∈ caPaths) (h : applyScalar c key val = .ok c') :
    c'.tlsCaFile = val ∧
      c'.egressTlsInsecure = if val ≠ [] then false else c.egressTlsInsecure := by
  have hset : applyScalar c key val = applyText key 256 val fun s ↦
      { c with
        tlsCaFile := s
        egressTlsInsecure := if s ≠ [] then false else c.egressTlsInsecure } := by
    rw [caPaths, List.mem_cons, List.mem_singleton] at hkey
    rcases hkey with rfl | rfl
    · simp [applyScalar]
    · simp [applyScalar]
  rw [hset] at h
  rw [applyText_eq_ok h]
  exact ⟨rfl, rfl⟩

theorem applyScalar_insecure (hkey : key ∈ insecurePaths) (h : applyScalar c key val = .ok c') :
    parseBool val = some c'.egressTlsInsecure ∧ c'.tlsCaFile = c.tlsCaFile := by
  have hset : applyScalar c key val = applyBool key val fun b ↦
      { c with egressTlsInsecure := b } := by
    rw [insecurePaths, List.mem_cons, List.mem_singleton] at hkey
    rcases hkey with rfl | rfl
    · simp [applyScalar]
    · simp [applyScalar]
  rw [hset] at h
  obtain ⟨b, hb, rfl⟩ := applyBool_eq_ok h
  exact ⟨hb, rfl⟩

/-- Whatever the result, if there is one it verifies alike. -/
def KeepsTls (c : CpeAgentConfig) (r : Except CStr CpeAgentConfig) : Prop :=
  ∀ c', r = .ok c' → SameTls c c'

theorem keepsTls_text {size : ℕ} {set : CStr → CpeAgentConfig} (h : ∀ s, SameTls c (set s)) :
    KeepsTls c (applyText key size val set) :=
  fun _ hok ↦ applyText_eq_ok hok ▸ h val

theorem keepsTls_bool {set : Bool → CpeAgentConfig} (h : ∀ b, SameTls c (set b)) :
    KeepsTls c (applyBool key val set) := by
  intro c' hok
  obtain ⟨b, -, rfl⟩ := applyBool_eq_ok hok
  exact h b

theorem keepsTls_u32 {lo hi : UInt32} {set : UInt32 → CpeAgentConfig}
    (h : ∀ n, SameTls c (set n)) : KeepsTls c (applyU32 key val lo hi set) := by
  intro c' hok
  obtain ⟨n, rfl⟩ := applyU32_eq_ok hok
  exact h n

theorem keepsTls_size {set : ℕ → CpeAgentConfig} (h : ∀ n, SameTls c (set n)) :
    KeepsTls c (applySize key val set) := by
  intro c' hok
  obtain ⟨n, rfl⟩ := applySize_eq_ok hok
  exact h n

theorem keepsTls_ite {p : Prop} [Decidable p] {r s : Except CStr CpeAgentConfig}
    (hr : KeepsTls c r) (hs : KeepsTls c s) : KeepsTls c (if p then r else s) := by
  split
  · exact hr
  · exact hs

theorem applyScalar_other (hca : key ∉ caPaths) (hflag : key ∉ insecurePaths) :
    KeepsTls c (applyScalar c key val) := by
  rw [caPaths, List.mem_cons, List.mem_singleton] at hca
  rw [insecurePaths, List.mem_cons, List.mem_singleton] at hflag
  unfold applyScalar
  rw [if_neg hca, if_neg hflag]
  repeat' first
    | exact keepsTls_text fun _ ↦ ⟨rfl, rfl⟩
    | exact keepsTls_bool fun _ ↦ ⟨rfl, rfl⟩
    | exact keepsTls_u32 fun _ ↦ ⟨rfl, rfl⟩
    | exact keepsTls_size fun _ ↦ ⟨rfl, rfl⟩
    | apply keepsTls_ite
  exact fun c' hok ↦ Except.ok.inj hok ▸ ⟨rfl, rfl⟩

end

/-! ## A whole file -/

theorem exists_of_bind_eq_ok {ε α β : Type} {x : Except ε α} {f : α → Except ε β} {b : β}
    (h : (x >>= f) = .ok b) : ∃ a, x = .ok a ∧ f a = .ok b := by
  cases x with
  | error err => exact absurd h (by simp [bind, Except.bind])
  | ok a => exact ⟨a, rfl, h⟩

namespace YamlDoc

variable {d : YamlDoc} {c c' : CpeAgentConfig}

theorem sameTls_loadPath {path : String} (hca : path ∉ caPaths) (hflag : path ∉ insecurePaths)
    (h : d.loadPath c path = .ok c') : SameTls c c' := by
  rw [loadPath] at h
  split at h
  · exact Except.ok.inj h ▸ ⟨rfl, rfl⟩
  · exact applyScalar_other hca hflag c' h

/-- Paths for other fields, one after the other, leave both fields alone. -/
theorem sameTls_foldlM {paths : List String} (hca : ∀ p ∈ paths, p ∉ caPaths)
    (hflag : ∀ p ∈ paths, p ∉ insecurePaths) (h : paths.foldlM d.loadPath c = .ok c') :
    SameTls c c' := by
  induction paths generalizing c with
  | nil => exact Except.ok.inj h ▸ ⟨rfl, rfl⟩
  | cons p paths ih =>
    rw [List.foldlM_cons] at h
    obtain ⟨m, hp, hrest⟩ := exists_of_bind_eq_ok h
    have hm := sameTls_loadPath (hca p List.mem_cons_self) (hflag p List.mem_cons_self) hp
    have hm' := ih (fun q hq ↦ hca q (List.mem_cons_of_mem p hq))
      (fun q hq ↦ hflag q (List.mem_cons_of_mem p hq)) hrest
    exact ⟨hm'.1.trans hm.1, hm'.2.trans hm.2⟩

/-- A path for the CA file sets it, and turns the flag off, if it is bound. -/
theorem loadPath_ca {path : String} (hpath : path ∈ caPaths) (h : d.loadPath c path = .ok c') :
    c'.tlsCaFile = (d.lookup path).getD c.tlsCaFile ∧
      (c'.egressTlsInsecure = true ↔
        (d.lookup path).getD [] = [] ∧ c.egressTlsInsecure = true) := by
  rw [loadPath] at h
  split at h
  · rename_i hnone
    rw [hnone, ← Except.ok.inj h]
    exact ⟨rfl, (and_iff_right rfl).symm⟩
  · rename_i val hval
    obtain ⟨hfile, hflag⟩ := applyScalar_ca hpath h
    rw [hval, hfile, hflag, Option.getD_some, Option.getD_some]
    refine ⟨rfl, ?_⟩
    by_cases hnil : val = []
    · simp [hnil]
    · simp [hnil]

theorem loadPath_insecure {path : String} (hpath : path ∈ insecurePaths)
    (h : d.loadPath c path = .ok c') :
    c'.tlsCaFile = c.tlsCaFile ∧
      match d.lookup path with
      | none => c'.egressTlsInsecure = c.egressTlsInsecure
      | some val => parseBool val = some c'.egressTlsInsecure := by
  rw [loadPath] at h
  cases hval : d.lookup path with
  | none =>
    rw [hval] at h
    rw [← Except.ok.inj h]
    exact ⟨rfl, rfl⟩
  | some val =>
    rw [hval] at h
    obtain ⟨hflag, hfile⟩ := applyScalar_insecure hpath h
    exact ⟨hfile, hflag⟩

def CaGiven (d : YamlDoc) : Prop := ∃ p ∈ caPaths, (d.lookup p).getD [] ≠ []

/-- The flag as the file gives it: `egress.insecure` wins over `egress.tls_insecure`. -/
def explicitInsecure (d : YamlDoc) : Option CStr :=
  (d.lookup "egress.insecure").or (d.lookup "egress.tls_insecure")

theorem gPaths_eq : gPaths = gPaths.take 33 ++ (["egress.ca_file", "tls_ca_file"] ++
    ((gPaths.drop 35).take 4 ++ (["egress.tls_insecure", "egress.insecure"] ++ gPaths.drop 41))) :=
  rfl

theorem loadYaml_tls (h : d.cpeAgentConfigLoadYamlBuf = .ok c) :
    c.tlsCaFile = ((d.lookup "tls_ca_file").or (d.lookup "egress.ca_file")).getD [] ∧
      match d.explicitInsecure with
      | some val => parseBool val = some c.egressTlsInsecure
      | none => c.egressTlsInsecure = false ↔ d.CaGiven := by
  rw [cpeAgentConfigLoadYamlBuf, loadFromCtx] at h
  split at h
  · exact absurd h (by simp)
  rw [gPaths_eq] at h
  simp only [List.foldlM_append] at h
  -- the configurations between the groups of paths
  obtain ⟨c₁, h₁, h⟩ := exists_of_bind_eq_ok h
  obtain ⟨c₂, h₂, h⟩ := exists_of_bind_eq_ok h
  obtain ⟨c₃, h₃, h⟩ := exists_of_bind_eq_ok h
  obtain ⟨c₄, h₄, h₅⟩ := exists_of_bind_eq_ok h
  simp only [List.foldlM_cons, List.foldlM_nil, bind_pure] at h₂ h₄
  obtain ⟨m, hca₁, hca₂⟩ := exists_of_bind_eq_ok h₂
  obtain ⟨n, hflag₁, hflag₂⟩ := exists_of_bind_eq_ok h₄
  have hbefore := sameTls_foldlM (by simp [gPaths, caPaths]) (by simp [gPaths, insecurePaths]) h₁
  have hmid := sameTls_foldlM (by simp [gPaths, caPaths]) (by simp [gPaths, insecurePaths]) h₃
  have hafter := sameTls_foldlM (by simp [gPaths, caPaths]) (by simp [gPaths, insecurePaths]) h₅
  obtain ⟨hfile₁, hoff₁⟩ := loadPath_ca (by simp [caPaths]) hca₁
  obtain ⟨hfile₂, hoff₂⟩ := loadPath_ca (by simp [caPaths]) hca₂
  obtain ⟨hkeep₁, hset₁⟩ := loadPath_insecure (by simp [insecurePaths]) hflag₁
  obtain ⟨hkeep₂, hset₂⟩ := loadPath_insecure (by simp [insecurePaths]) hflag₂
  have hca : c₂.egressTlsInsecure = false ↔ d.CaGiven := by
    have hdefault : c₁.egressTlsInsecure = true := hbefore.2
    rw [hoff₁, and_iff_left hdefault] at hoff₂
    rw [← Bool.not_eq_true, hoff₂, CaGiven, caPaths]
    simp only [List.mem_cons, List.not_mem_nil, or_false, exists_eq_or_imp, exists_eq_left]
    rw [not_and_or, or_comm]
  constructor
  · have hdefault : c₁.tlsCaFile = [] := hbefore.1
    rw [hafter.1, hkeep₂, hkeep₁, hmid.1, hfile₂, hfile₁, hdefault]
    cases d.lookup "tls_ca_file" with
    | none => rfl
    | some val => rfl
  · rw [hafter.2, explicitInsecure]
    cases hlast : d.lookup "egress.insecure" with
    | some val =>
      rw [hlast] at hset₂
      exact hset₂
    | none =>
      rw [hlast] at hset₂
      rw [Option.none_or, hset₂]
      cases hfirst : d.lookup "egress.tls_insecure" with
      | some val =>
        rw [hfirst] at hset₁
        exact hset₁
      | none =>
        rw [hfirst] at hset₁
        dsimp only
        rw [hset₁, hmid.2]
        exact hca

/-- The value a file binds to a path does not depend on where in the file it stands. -/
theorem lookup_eq_some_iff (d : YamlDoc) {path : String} {v : CStr} :
    d.scalars.lookup path = some v ↔ (path, v) ∈ d.scalars := by
  obtain ⟨-, scalars, hnodup⟩ := d
  dsimp only
  induction scalars with
  | nil => simp
  | cons p l ih =>
    obtain ⟨q, w⟩ := p
    rw [List.map_cons, List.nodup_cons] at hnodup
    rw [List.lookup_cons, List.mem_cons, Prod.mk.injEq]
    by_cases hq : path = q
    · subst hq
      have hnot : (path, v) ∉ l := fun hmem ↦
        hnodup.1 (List.mem_map.mpr ⟨(path, v), hmem, rfl⟩)
      simp [hnot, eq_comm]
    · have hbeq : (path == q) = false := beq_eq_false_iff_ne.mpr hq
      simp [hq, hbeq, ih hnodup.2]

theorem lookup_of_perm {d' : YamlDoc} (h : d'.scalars.Perm d.scalars) (path : String) :
    d'.lookup path = d.lookup path := by
  have hscalar : d'.scalars.lookup path = d.scalars.lookup path := by
    ext v
    rw [lookup_eq_some_iff, lookup_eq_some_iff, h.mem_iff]
  rw [lookup, lookup, hscalar]

/-- The order of the file does not matter. -/
theorem loadYaml_of_perm {d' : YamlDoc} (herr : d'.error = d.error)
    (h : d'.scalars.Perm d.scalars) :
    d'.cpeAgentConfigLoadYamlBuf = d.cpeAgentConfigLoadYamlBuf := by
  have hstep : d'.loadPath = d.loadPath := by
    funext c path
    rw [loadPath, loadPath, lookup_of_perm h]
  rw [cpeAgentConfigLoadYamlBuf, cpeAgentConfigLoadYamlBuf, loadFromCtx, loadFromCtx, herr, hstep]

end YamlDoc

/-! ## The posts -/

/-- Either the post fails before it sets a mode, and so before the handshake, or the mode is the one
the options ask for. -/
theorem authmode_mbedtlsHttpsPost (env : TlsEnv) (call : PostCall) (opts : CpeAgentHttpOpts) :
    ((mbedtlsHttpsPost env call opts).authmode = none ∧
      ∃ err, (mbedtlsHttpsPost env call opts).result = .error err) ∨
    (mbedtlsHttpsPost env call opts).authmode = some (verifyMode opts) := by
  rw [mbedtlsHttpsPost]
  split
  · exact Or.inl ⟨rfl, _, rfl⟩
  split
  · exact Or.inl ⟨rfl, _, rfl⟩
  split
  · exact Or.inl ⟨rfl, _, rfl⟩
  split
  · exact Or.inl ⟨rfl, _, rfl⟩
  dsimp only
  split_ifs
  all_goals exact Or.inr rfl

namespace CpeAgent

def tlsPost (a : CpeAgent) (env : TlsEnv) : Option TlsOutcome :=
  a.emitPost.bind fun req ↦
    match httpRoute req with
    | .ok (.tls, call) => some (mbedtlsHttpsPost env call req.opts)
    | _ => none

theorem verifyMode_emitRequest (a : CpeAgent) (body : CStr) (h : a.cfg.egressTlsInsecure = false) :
    verifyMode (a.emitRequest body).opts
      = if a.cfg.tlsCaFile ≠ [] then .verifyRequired else .verifyNone := by
  have hfile : (a.emitRequest body).opts.caFile.getD [] = a.cfg.tlsCaFile := getD_orNull _
  have hflag : (a.emitRequest body).opts.tlsInsecure = false := h
  rw [verifyMode, hfile, hflag]
  by_cases hca : a.cfg.tlsCaFile = []
  · simp [hca]
  · simp [hca]

/-- What a TLS post of an agent with the flag off does about the peer. -/
theorem authmode_tlsPost {a : CpeAgent} (h : a.cfg.egressTlsInsecure = false) {env : TlsEnv}
    {out : TlsOutcome} (hout : a.tlsPost env = some out) :
    (out.authmode = none ∧ ∃ err, out.result = .error err) ∨
      out.authmode = some (if a.cfg.tlsCaFile ≠ [] then .verifyRequired else .verifyNone) := by
  obtain ⟨req, hreq, hpost⟩ := Option.bind_eq_some_iff.mp hout
  obtain ⟨body, rfl⟩ : ∃ body, req = a.emitRequest body := by
    rw [emitPost] at hreq
    split_ifs at hreq
    dsimp only at hreq
    split_ifs at hreq
    exact ⟨_, (Option.some_inj.mp hreq).symm⟩
  split at hpost
  · rename_i call hroute
    rw [← Option.some_inj.mp hpost, ← a.verifyMode_emitRequest body h]
    exact authmode_mbedtlsHttpsPost env call _
  · exact absurd hpost (by simp)

theorem cfg_of_applyConfig {a : CpeAgent} {c : CpeAgentConfig} {env : ApplyEnv}
    (h : (a.applyConfig c env).2 = 0) :
    (a.applyConfig c env).1.cfg
      = { normalizeConfig c with generation := a.cfg.generation + 1 } := by
  rcases a.applyConfig_cases c env with ⟨_, _, hc⟩ | ⟨_, _, _, _, hc⟩ | ⟨_, _, hc⟩ |
    ⟨_, _, _, _, _, hc⟩
  · rw [hc] at h
    exact absurd h (by simp)
  · rw [hc] at h
    exact absurd h (by simp)
  · rw [hc, installConfig, eqPush_cfg]
  · rw [hc, installConfig, eqPush_cfg]

/-- A file that loads gives the flag its own value if it binds one, and otherwise turns it off if
and only if it names a CA file; the order of the file does not matter. Once it is applied with the
flag off, every TLS post fails before the handshake or requires the peer to be verified, if there is
a CA file. Without one there is nothing to verify against, and the peer is not verified. -/
theorem tlsPost_authmode_of_loadYaml (d : YamlDoc) (c : CpeAgentConfig)
    (hload : d.cpeAgentConfigLoadYamlBuf = .ok c) :
    (match d.explicitInsecure with
      | some val => parseBool val = some c.egressTlsInsecure
      | none => c.egressTlsInsecure = false ↔ d.CaGiven) ∧
    (∀ d' : YamlDoc, d'.error = d.error → d'.scalars.Perm d.scalars →
      d'.cpeAgentConfigLoadYamlBuf = .ok c) ∧
    (c.egressTlsInsecure = false → ∀ (a a' : CpeAgent) (env : ApplyEnv),
      (a.applyConfig c env).2 = 0 → a'.cfg = (a.applyConfig c env).1.cfg →
      ∀ (tls : TlsEnv) (out : TlsOutcome), a'.tlsPost tls = some out →
        (out.authmode = none ∧ ∃ err, out.result = .error err) ∨
        out.authmode = some (if c.tlsCaFile ≠ [] then .verifyRequired else .verifyNone)) := by
  refine ⟨(YamlDoc.loadYaml_tls hload).2, fun d' herr hperm ↦ ?_, fun hoff a a' env hok hcfg tls out
    hout ↦ ?_⟩
  · rw [YamlDoc.loadYaml_of_perm herr hperm, hload]
  · rw [cfg_of_applyConfig hok] at hcfg
    have hoff' : a'.cfg.egressTlsInsecure = false := by
      rw [hcfg]
      exact hoff
    have hfile : a'.cfg.tlsCaFile = c.tlsCaFile := by
      rw [hcfg]
      rfl
    rw [← hfile]
    exact authmode_tlsPost hoff' hout

theorem eq_ok_of_toOption {ε α : Type} {x : Except ε α} {a : α} (h : x.toOption = some a) :
    x = .ok a := by
  cases x with
  | error err => exact absurd h (by simp [Except.toOption])
  | ok b => rw [Option.some_inj.mp h]

/-- A file with the flag off, a URL and, if it is not empty, a CA file. -/
def insecureOff (caFile : CStr) : YamlDoc where
  error := none
  scalars := [("egress.tls_insecure", ascii "false"), ("emit.mode", ascii "https"),
    ("egress.url", ascii "https://h/"), ("egress.ca_file", caFile)]
  nodup := by simp

def insecureOffConfig (caFile : CStr) : CpeAgentConfig :=
  { cpeAgentConfigDefaults with
    emitMode := ascii "https"
    httpsUrl := ascii "https://h/"
    tlsCaFile := caFile
    egressTlsInsecure := false }

/-- A new agent with that configuration and one line in its ring. -/
def insecureOffAgent (caFile : CStr) : CpeAgent :=
  ((create.applyConfig (insecureOffConfig caFile) ⟨true, .ok 3, .ok 4, .ok 5⟩).1.spoolPushLine
    (ascii "line")).1

/-- A peer that answers, behind a library that refuses nothing. -/
def willingPeer : TlsEnv where
  built := true
  seed := 0
  parseCa _ := true
  parseCert _ := true
  parseKey _ := true
  connect := 0
  configDefaults := 0
  ownCert := true
  setup := true
  setHostname := true
  handshake _ := 0
  writeHdr := 1
  writeBody := 1
  read := .ok (ascii "HTTP/1.1 200 OK\r\n\r\n")

theorem tlsPost_authmode_with_ca :
    (insecureOff (ascii "/ca")).cpeAgentConfigLoadYamlBuf = .ok (insecureOffConfig (ascii "/ca")) ∧
      ∃ out, (insecureOffAgent (ascii "/ca")).tlsPost willingPeer = some out ∧
        ((out.authmode = none ∧ ∃ err, out.result = .error err) ∨
          out.authmode = some .verifyRequired) := by
  have hload : (insecureOff (ascii "/ca")).cpeAgentConfigLoadYamlBuf
      = .ok (insecureOffConfig (ascii "/ca")) := eq_ok_of_toOption (by decide +kernel)
  have hmode := (tlsPost_authmode_of_loadYaml _ _ hload).2.2 rfl create
    (insecureOffAgent (ascii "/ca")) ⟨true, .ok 3, .ok 4, .ok 5⟩ (by decide) rfl willingPeer
  obtain ⟨out, hout⟩ : ∃ out, (insecureOffAgent (ascii "/ca")).tlsPost willingPeer = some out :=
    ⟨_, rfl⟩
  exact ⟨hload, out, hout, hmode out hout⟩

/-- With the flag off and no CA file, the post goes through without a look at the peer. -/
theorem tlsPost_unverified_without_ca :
    (insecureOff []).cpeAgentConfigLoadYamlBuf = .ok (insecureOffConfig []) ∧
      cpeAgentConfigValidate (insecureOffConfig []) = none ∧
      (insecureOffConfig []).egressTlsInsecure = false ∧
      ∃ out, (insecureOffAgent []).tlsPost willingPeer = some out ∧ out.connected = true ∧
        out.authmode = some .verifyNone ∧ out.result = .ok () :=
  ⟨eq_ok_of_toOption (by decide +kernel), by decide, rfl, _, rfl, rfl, rfl, rfl⟩

end CpeAgent

end NetForensics
