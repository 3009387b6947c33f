import NetForensics.Agent.Apply
import NetForensics.Util.Run

/-!
# The history of a configuration

Candidates come from callers and from files, with zeros that stand for defaults and with a
generation of their own. Whatever is applied or reloaded, and however the calls end, the
configuration in force is one that passed validation with its defaults filled in, and its
generation counts the calls that succeeded.
-/

namespace NetForensics

/-- A call that may replace the configuration. -/
inductive ConfigCall where
  | apply (cfg : CpeAgentConfig) (env : ApplyEnv)
  | reload (file : LoadedConfig) (routerIdOverride : CStr) (env : ApplyEnv)

/-- A configuration that passed validation with its defaults filled in. -/
structure CpeAgentConfig.Accepted (c : CpeAgentConfig) : Prop where
  valid : cpeAgentConfigValidate c = none
  spoolMaxLines : c.spoolMaxLines ≠ 0
  sampleIntervalMs : c.sampleIntervalMs ≠ 0
  demoIntervalMs : c.demoIntervalMs ≠ 0
  probeTimeoutMs : c.probeTimeoutMs ≠ 0

theorem accepted_defaults : cpeAgentConfigDefaults.Accepted where
  valid := cpeAgentConfigValidate_defaults
  spoolMaxLines := by decide
  sampleIntervalMs := by decide
  demoIntervalMs := by decide
  probeTimeoutMs := by decide

theorem accepted_normalizeConfig {c : CpeAgentConfig}
    (h : cpeAgentConfigValidate (normalizeConfig c) = none) : (normalizeConfig c).Accepted := by
  have hsample : (normalizeConfig c).sampleIntervalMs ≠ 0 := by
    rw [normalizeConfig]
    dsimp only
    split_ifs with hzero hdemo
    · exact hdemo
    · decide
    · exact hzero
  refine ⟨h, (spoolMaxLines_of_validate h).1.ne', hsample, ?_, ?_⟩
  · rw [normalizeConfig] at hsample ⊢
    dsimp only at hsample ⊢
    split_ifs at hsample ⊢ <;> assumption
  · rw [normalizeConfig]
    dsimp only
    split_ifs with hzero
    · decide
    · exact hzero

theorem CpeAgentConfig.Accepted.normalizeConfig {c : CpeAgentConfig} (h : c.Accepted) :
    normalizeConfig c = c := by
  rw [NetForensics.normalizeConfig, if_neg h.spoolMaxLines, if_neg h.sampleIntervalMs,
    if_neg h.demoIntervalMs, if_neg h.probeTimeoutMs]

namespace CpeAgent

def configCall (a : CpeAgent) : ConfigCall → CpeAgent × ℤ
  | .apply cfg env => a.applyConfig cfg env
  | .reload file routerIdOverride env => a.reloadConfig file routerIdOverride env

/-- A sequence of calls, with the number of those that returned zero. -/
def configRun (a : CpeAgent) (calls : List ConfigCall) : CpeAgent × ℕ :=
  calls.foldl (fun (res : CpeAgent × ℕ) call ↦
    ((res.1.configCall call).1, if (res.1.configCall call).2 = 0 then res.2 + 1 else res.2)) (a, 0)

/-! ## One call -/

/-- A candidate is refused, and the configuration stays, or it replaces the configuration, with the
next generation. -/
theorem applyConfig_cfg (a : CpeAgent) (cfg : CpeAgentConfig) (env : ApplyEnv) :
    ((a.applyConfig cfg env).2 = -1 ∧ (a.applyConfig cfg env).1.cfg = a.cfg) ∨
      ((a.applyConfig cfg env).2 = 0 ∧ (normalizeConfig cfg).Accepted ∧
        (a.applyConfig cfg env).1.cfg
          = { normalizeConfig cfg with generation := a.cfg.generation + 1 }) := by
  rcases a.applyConfig_cases cfg env with ⟨err, -, hres⟩ | ⟨-, -, -, bytes, hres⟩ |
    ⟨hvalid, -, hres⟩ | ⟨hvalid, -, -, cap, slots, hres⟩
  · rw [hres, eqPush_cfg]
    exact Or.inl ⟨rfl, rfl⟩
  · rw [hres, eqPush_cfg, eqPush_cfg]
    exact Or.inl ⟨rfl, rfl⟩
  · rw [hres, installConfig, eqPush_cfg]
    exact Or.inr ⟨rfl, accepted_normalizeConfig hvalid, rfl⟩
  · rw [hres, installConfig, eqPush_cfg]
    exact Or.inr ⟨rfl, accepted_normalizeConfig hvalid, rfl⟩

/-- Whatever a call installs is a candidate with its defaults filled in. -/
theorem configCall_cfg (a : CpeAgent) (call : ConfigCall) :
    ((a.configCall call).2 = -1 ∧ (a.configCall call).1.cfg = a.cfg) ∨
      ((a.configCall call).2 = 0 ∧ ∃ cfg : CpeAgentConfig, cfg.Accepted ∧
        (a.configCall call).1.cfg = { cfg with generation := a.cfg.generation + 1 }) := by
  cases call with
  | apply cfg env =>
    exact (a.applyConfig_cfg cfg env).imp_right fun ⟨hret, hacc, hcfg⟩ ↦ ⟨hret, _, hacc, hcfg⟩
  | reload file routerIdOverride env =>
    rw [configCall, reloadConfig]
    cases a.reloadCandidate file routerIdOverride with
    | none => exact Or.inl ⟨rfl, rfl⟩
    | some cfg =>
      exact (a.applyConfig_cfg cfg env).imp_right fun ⟨hret, hacc, hcfg⟩ ↦ ⟨hret, _, hacc, hcfg⟩

/-- A reload with an override either fails or installs the override. -/
theorem routerId_reloadConfig (a : CpeAgent) (file : LoadedConfig) {routerIdOverride : CStr}
    (hne : routerIdOverride ≠ []) (env : ApplyEnv)
    (hret : (a.reloadConfig file routerIdOverride env).2 = 0) :
    (a.reloadConfig file routerIdOverride env).1.cfg.routerId = routerIdOverride := by
  rw [reloadConfig] at hret ⊢
  cases hcand : a.reloadCandidate file routerIdOverride with
  | none =>
    rw [hcand] at hret
    exact absurd hret (by simp)
  | some cfg =>
    rw [hcand] at hret
    dsimp only at hret ⊢
    have hrid : cfg.routerId = routerIdOverride := by
      unfold reloadCandidate at hcand
      rw [if_neg hne] at hcand
      obtain ⟨-, hcand⟩ := Option.ite_none_left_eq_some.mp hcand
      obtain ⟨base, -, rfl⟩ := Option.map_eq_some_iff.mp hcand
      rfl
    rcases a.applyConfig_cfg cfg env with ⟨hfail, -⟩ | ⟨-, -, hcfg⟩
    · rw [hfail] at hret
      exact absurd hret (by decide)
    · rw [hcfg]
      exact hrid

/-! ## A history -/

/-- The invariant: an accepted configuration, with the count for its generation. -/
def Settled (res : CpeAgent × ℕ) : Prop :=
  res.1.cfg.Accepted ∧ res.1.cfg.generation = UInt64.ofNat res.2

theorem settled_configRun (calls : List ConfigCall) : Settled (create.configRun calls) := by
  refine foldl_invariant (P := Settled) ?_ ⟨accepted_defaults, rfl⟩ calls
  rintro ⟨a, n⟩ call ⟨hacc, hgen⟩
  rcases a.configCall_cfg call with ⟨hret, hcfg⟩ | ⟨hret, cfg, hacc', hcfg⟩
  · have hne : ¬ (a.configCall call).2 = 0 := by rw [hret]; decide
    rw [Settled, if_neg hne]
    exact ⟨hcfg ▸ hacc, hcfg ▸ hgen⟩
  · rw [Settled, if_pos hret]
    dsimp only at hgen ⊢
    rw [hcfg, hgen]
    exact ⟨⟨hacc'.valid, hacc'.spoolMaxLines, hacc'.sampleIntervalMs, hacc'.demoIntervalMs,
      hacc'.probeTimeoutMs⟩, (UInt64.ofNat_add n 1).symm⟩

/-- After any sequence of calls the configuration is an accepted one, and its generation is the
number of calls that succeeded. From there, a call that fails changes nothing of it, applying it
once more changes at most the generation, and a reload that succeeds installs the override. -/
theorem configRun_history (calls : List ConfigCall) :
    let a := (create.configRun calls).1
    a.cfg.Accepted ∧ a.cfg.generation = UInt64.ofNat (create.configRun calls).2 ∧
      (∀ call, (a.configCall call).2 = -1 → (a.configCall call).1.cfg = a.cfg) ∧
      (∀ env, (a.applyConfig a.cfg env).2 = 0 →
        (a.applyConfig a.cfg env).1.cfg = { a.cfg with generation := a.cfg.generation + 1 }) ∧
      ∀ file routerIdOverride env, routerIdOverride ≠ [] →
        (a.reloadConfig file routerIdOverride env).2 = 0 →
        (a.reloadConfig file routerIdOverride env).1.cfg.routerId = routerIdOverride := by
  intro a
  obtain ⟨hacc, hgen⟩ := settled_configRun calls
  refine ⟨hacc, hgen, ?_, ?_, ?_⟩
  · intro call hret
    rcases a.configCall_cfg call with ⟨-, hcfg⟩ | ⟨hzero, -⟩
    · exact hcfg
    · rw [hzero] at hret
      exact absurd hret (by decide)
  · intro env hret
    rcases a.applyConfig_cfg a.cfg env with ⟨hfail, -⟩ | ⟨-, -, hcfg⟩
    · rw [hfail] at hret
      exact absurd hret (by decide)
    · rw [hcfg, hacc.normalizeConfig]
  · intro file routerIdOverride env hne hret
    exact routerId_reloadConfig a file hne env hret

end CpeAgent

end NetForensics
