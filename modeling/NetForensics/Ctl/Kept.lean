import NetForensics.Agent.Lines
import NetForensics.Ctl.Layout
import NetForensics.Ipc.Reach

/-!
# The sample the agent keeps

The data of `last_sample` has an object inside, the `meta` of the sample. Whatever the run, it is
one of two kinds: an object of numerals, truth values and words; or that of an arping, whose last
member is the name of an interface as it was configured, and then the target is an address.
-/

namespace NetForensics

open Json

/-! ## Harmless members -/

/-- A member that neither the search for `ok` nor the counting of brackets stumbles over. -/
def Tidy (m : String × CStr) : Prop :=
  (FieldName m.1 ∧ ascii m.1 ≠ ascii "ok") ∧ Level m.2 ∧ SkipsOk m.2 ∧
    ∀ b ∈ m.2, b ≠ 0 ∧ b ≠ 10 ∧ b ≠ 92

theorem Tidy.oneLine {m : String × CStr} (h : Tidy m) : OneLine (ascii m.1) ∧ OneLine m.2 :=
  ⟨(clear_of_safe h.1.1.1).oneLine, fun b hb ↦ ⟨(h.2.2.2 b hb).1, (h.2.2.2 b hb).2.1⟩⟩

theorem unbracketed_of_word {s : CStr} (h : Word s) : Unbracketed s := by
  intro b hb
  obtain ⟨-, h₁, h₂, h₃, h₄⟩ := isWordByte_spec (h b hb)
  exact ⟨by simp [isOpening, h₁, h₃], by simp [isClosing, h₂, h₄]⟩

theorem clear_of_word {s : CStr} (h : Word s) : Clear s := clear_of_safe h.safe

theorem tidy_of_word {name : String} (hname : FieldName name ∧ ascii name ≠ ascii "ok") {s : CStr}
    (h : Word s) : Tidy (name, s) :=
  ⟨hname, (unbracketed_of_word h).level, skipsOk_of_notMem (clear_of_word h).quote_notMem,
    fun b hb ↦ ⟨(clear_of_word h b hb).1, (clear_of_word h b hb).2.1, (clear_of_word h b hb).2.2.2⟩⟩

theorem word_signedDecimal (n : ℤ) : Word (signedDecimal n) := by
  rw [signedDecimal]
  split
  · exact .cons (by decide) (word_of_token (token_decimal _))
  · exact word_of_token (token_decimal _)

theorem word_boolText (b : Bool) : Word (boolText b) := by
  cases b <;> decide

theorem tidy_decimal {name : String} (hname : FieldName name ∧ ascii name ≠ ascii "ok") (n : ℕ) :
    Tidy (name, decimal n) :=
  tidy_of_word hname (word_of_token (token_decimal n))

theorem tidy_bool {name : String} (hname : FieldName name ∧ ascii name ≠ ascii "ok") (b : Bool) :
    Tidy (name, boolText b) :=
  tidy_of_word hname (word_boolText b)

theorem tidy_quoted {name : String} (hname : FieldName name ∧ ascii name ≠ ascii "ok") {s : CStr}
    (h : Word s) : Tidy (name, quoted s) := by
  refine ⟨hname, level_quoted (unbracketed_of_word h).level,
    skipsOk_quoted (clear_of_word h).quote_notMem, ?_⟩
  simp only [quoted, List.cons_append, List.forall_mem_cons, List.forall_mem_append]
  exact ⟨by decide, fun b hb ↦ ⟨(clear_of_word h b hb).1, (clear_of_word h b hb).2.1,
    (clear_of_word h b hb).2.2.2⟩, by decide, fun b hb ↦ absurd hb List.not_mem_nil⟩

theorem level_object_of_tidy {ms : List (String × CStr)} (h : ∀ m ∈ ms, Tidy m) :
    Level (object ms) :=
  level_object fun m hm ↦ ⟨(h m hm).1.1.2.1, (h m hm).2.1⟩

theorem skipsOk_object_of_tidy {ms : List (String × CStr)} (h : ∀ m ∈ ms, Tidy m) :
    SkipsOk (object ms) :=
  skipsOk_object fun m hm ↦ ⟨(h m hm).1.1, (h m hm).1.2, (h m hm).2.2.1⟩

/-! ## The kinds of `meta` -/

/-- The `meta` is that of an arping over the interface. -/
def CpePerfSample.PrintsInterface (x : CpePerfSample) (ifname : CStr) : Prop :=
  ∃ replied mac, Word mac ∧
    x.metaText = object (arpingMembers replied mac ++ [("if", quoted ifname)])

/-- The two kinds. -/
inductive CpePerfSample.Kept (x : CpePerfSample) : Prop
  | tidy (ms : List (String × CStr)) (hmeta : x.metaText = object ms) (h : ∀ m ∈ ms, Tidy m)
  | arping (ifname : CStr) (hmeta : x.PrintsInterface ifname) (htarget : Word x.target)

theorem Probe.kept_head {p : Probe} {cfg : CpeAgentConfig} {clock : Option WallClock}
    {x : CpePerfSample} (hx : (p.samples cfg clock).head? = some x) : x.Kept := by
  cases p with
  | demoPing st =>
    obtain rfl := Option.some_inj.mp hx
    refine .tidy _ (formed_demoPing cfg clock st).metaText ?_
    simp only [List.forall_mem_cons]
    exact ⟨tidy_decimal (by decide) _, tidy_decimal (by decide) _, tidy_bool (by decide) _,
      List.forall_mem_nil _⟩
  | livePing rtt isRaw =>
    rw [Probe.samples] at hx
    split at hx
    · exact absurd hx (by simp)
    · obtain rfl := Option.some_inj.mp hx
      refine .tidy _ (formed_livePing cfg clock rtt isRaw).metaText ?_
      simp only [List.forall_mem_cons]
      exact ⟨tidy_decimal (by decide) _, tidy_decimal (by decide) _, tidy_bool (by decide) _,
        tidy_bool (by decide) _, List.forall_mem_nil _⟩
  | demoArping ipv4Opt avg =>
    rw [Probe.samples] at hx
    split at hx
    · exact absurd hx (by simp)
    · obtain rfl := Option.some_inj.mp hx
      refine .tidy _ (formed_demoArping clock _ _ demoMac).metaText ?_
      simp only [List.forall_mem_cons]
      exact ⟨tidy_decimal (by decide) _, tidy_decimal (by decide) _, tidy_bool (by decide) _,
        tidy_quoted (by decide) (word_of_token (token_macFmt _)), List.forall_mem_nil _⟩
  | arping ipv4Opt ifnameOpt picked reply =>
    rw [Probe.samples] at hx
    split at hx
    · exact absurd hx (by simp)
    · rename_i haddr
      obtain rfl := Option.some_inj.mp hx
      have hif : (arpingIfname cfg ifnameOpt picked).length < 32 := length_copyStr_lt (by decide) _
      have hform := formed_arping clock (probeTarget cfg ipv4Opt) reply hif
      have hmac : Word ((reply.map fun r ↦ macFmt r.2).getD []) := by
        cases reply with
        | none => exact word_nil
        | some r => exact word_of_token (token_macFmt r.2)
      have htarget : Token (probeTarget cfg ipv4Opt) :=
        token_of_inetPton4 (by simpa [Option.isSome_iff_ne_none] using haddr)
      exact .arping _ ⟨_, _, hmac, hform.metaText⟩ ((word_of_token htarget).copyStr _)
  | trace mtr targetOpt maxTtl probesPerHop udp reply =>
    rw [Probe.samples] at hx
    split at hx
    · exact absurd hx (by simp)
    · rename_i haddr
      obtain rfl := Option.some_inj.mp hx
      have hname : Safe (ascii (if mtr then "mtr" else "traceroute")) ∧
          ascii (if mtr then "mtr" else "traceroute") ≠ [] := by
        cases mtr <;> decide
      have htarget : Token (probeTarget cfg targetOpt) :=
        token_of_inetPton4 (by simpa [Option.isSome_iff_ne_none] using (not_or.mp haddr).2)
      obtain ⟨hok, hlen⟩ := runTrace_ok clock (safe_of_token htarget) maxTtl
        (if mtr then (if probesPerHop = 0 then 3 else probesPerHop) else 1) udp reply
      have hmethod : Word (runTrace clock (probeTarget cfg targetOpt) maxTtl (if mtr then
          (if probesPerHop = 0 then 3 else probesPerHop) else 1) udp reply).method := by
        have hword : Word (if udp then ascii "udp" else ascii "icmp") := by cases udp <;> decide
        rw [runTrace, (traceLoop_keeps _ _ _ _ _).2]
        exact hword
      refine .tidy _ (formed_summarySample hok hlen hname.1 hname.2).metaText ?_
      simp only [List.forall_mem_cons]
      exact ⟨tidy_decimal (by decide) _, tidy_bool (by decide) _, tidy_quoted (by decide) hmethod,
        tidy_decimal (by decide) _, tidy_bool (by decide) _, List.forall_mem_nil _⟩
  | demoTraceroute targetOpt maxTtl =>
    obtain rfl := Option.some_inj.mp hx
    obtain ⟨hops, hform⟩ := formed_demoTrace clock
      (if probeTarget cfg targetOpt ≠ [] then probeTarget cfg targetOpt else ascii "1.1.1.1") maxTtl
    refine .tidy _ hform.metaText ?_
    simp only [List.forall_mem_cons]
    exact ⟨tidy_decimal (by decide) _, tidy_bool (by decide) _, tidy_quoted (by decide) (by decide),
      tidy_decimal (by decide) _, tidy_bool (by decide) _, List.forall_mem_nil _⟩

namespace IpcState

theorem serve_last (s : IpcState) (env : IpcEnv) (req : CStr) (verb : IpcVerb) :
    (s.serve env req verb).1.last = s.last := by
  cases verb with
  | lastSample =>
    rw [serve]
    split <;> rfl
  | ping | help | status | config | latency | spool | emit | tcpPoll | tcpStats | flowTick
  | flowStats | flowList | tcpByIp | tcpByPrefix | tcpEmit | tcpReset => rfl

theorem answer_last (s : IpcState) (env : IpcEnv) (req : CStr) :
    (s.answer env req).1.last = s.last := by
  unfold answer
  split
  · rfl
  · split
    · rfl
    · exact serve_last s env req _

/-- Whatever the run, the sample that is kept is of one of the two kinds. -/
theorem kept_hostRun (ops : List HostOp) : ∀ x ∈ (create.hostRun ops).last, x.Kept := by
  refine foldl_invariant (P := fun s : IpcState ↦ ∀ x ∈ s.last, x.Kept) ?_ ?_ ops
  · intro s op h x hx
    cases op with
    | configure cfg env => exact h x hx
    | flow input => exact h x hx
    | tcp op => exact h x hx
    | tick env => exact h x hx
    | probe p clock =>
      rcases Option.or_eq_some_iff.mp hx with hhead | ⟨-, hlast⟩
      · exact Probe.kept_head hhead
      · exact h x hlast
    | request env req =>
      rw [hostStep, handleRequest, answer_last] at hx
      exact h x hx
  · exact fun x hx ↦ absurd hx (by simp [create])

end IpcState

end NetForensics
