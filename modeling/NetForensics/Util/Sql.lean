import NetForensics.Util.Text

/-!
# Tokens of SQL

A statement is read by an automaton, byte by byte. Names begin with a letter or an underscore, a
number begins with a digit and goes on over letters, digits and dots, a string stands between
quotes, where a quote is doubled or comes after a backslash, and two hyphens begin a comment up to
the end of the line. A comment is a token here, so that what is lost in one can be seen. Every
other byte that is not white space is a token by itself.

The second half is about texts of letters, digits, dots and hyphens: whether one is a sequence of
names and dots depends on where its digits and hyphens are.
-/

namespace NetForensics

namespace Sql

/-! ## The automaton -/

def isLetter (b : UInt8) : Bool := (65 ≤ b && b ≤ 90) || (97 ≤ b && b ≤ 122) || b == 95

def isDecimal (b : UInt8) : Bool := 48 ≤ b && b ≤ 57

def isWhite (b : UInt8) : Bool := b == 32 || (9 ≤ b && b ≤ 13)

/-- A token of a statement. -/
inductive Lexeme where
  | word (s : CStr)
  | number (s : CStr)
  /-- a string, by its value -/
  | string (s : CStr)
  | symbol (b : UInt8)
  | comment (s : CStr)
  /-- a string that is not closed -/
  | unterminated (s : CStr)
  deriving DecidableEq

/-- Where the automaton is, with what has been read of a token. -/
inductive Mode where
  | start
  | word (s : CStr)
  | number (s : CStr)
  /-- behind one hyphen -/
  | dash
  | comment (s : CStr)
  | string (s : CStr)
  /-- behind a quote in a string, which may be its last -/
  | quote (s : CStr)
  /-- behind a backslash in a string -/
  | escape (s : CStr)
  deriving DecidableEq

/-- The tokens that the end of the text completes. -/
def Mode.finish : Mode → List Lexeme
  | .start => []
  | .word s => [.word s]
  | .number s => [.number s]
  | .dash => [.symbol 45]
  | .comment s => [.comment s]
  | .string s => [.unterminated s]
  | .quote s => [.string s]
  | .escape s => [.unterminated s]

def escaped (b : UInt8) : UInt8 :=
  if b = 110 then 10 else if b = 116 then 9 else if b = 114 then 13 else if b = 48 then 0 else b

def begin (b : UInt8) : Mode × List Lexeme :=
  if isWhite b then (.start, [])
  else if isLetter b then (.word [b], [])
  else if isDecimal b then (.number [b], [])
  else if b = 45 then (.dash, [])
  else if b = 39 then (.string [], [])
  else (.start, [.symbol b])

def Mode.leave (m : Mode) (b : UInt8) : Mode × List Lexeme :=
  ((begin b).1, m.finish ++ (begin b).2)

def Mode.next (m : Mode) (b : UInt8) : Mode × List Lexeme :=
  match m with
  | .start => begin b
  | .word s => if isLetter b || isDecimal b then (.word (s ++ [b]), []) else m.leave b
  | .number s =>
    if isLetter b || isDecimal b || b == 46 then (.number (s ++ [b]), []) else m.leave b
  | .dash => if b = 45 then (.comment [], []) else m.leave b
  | .comment s => if b = 10 then (.start, [.comment s]) else (.comment (s ++ [b]), [])
  | .string s =>
    if b = 39 then (.quote s, []) else if b = 92 then (.escape s, []) else (.string (s ++ [b]), [])
  | .quote s => if b = 39 then (.string (s ++ [39]), []) else m.leave b
  | .escape s => (.string (s ++ [escaped b]), [])

/-- A run over a text: where it ends, and the tokens on the way. -/
def run : Mode → CStr → Mode × List Lexeme
  | m, [] => (m, [])
  | m, b :: s => ((run (m.next b).1 s).1, (m.next b).2 ++ (run (m.next b).1 s).2)

def tokensFrom (m : Mode) (s : CStr) : List Lexeme := (run m s).2 ++ (run m s).1.finish

def tokens (s : CStr) : List Lexeme := tokensFrom .start s

variable {m : Mode} {s t w : CStr} {b : UInt8}

theorem run_append (m : Mode) (s t : CStr) :
    run m (s ++ t) = ((run (run m s).1 t).1, (run m s).2 ++ (run (run m s).1 t).2) := by
  induction s generalizing m with
  | nil => rfl
  | cons b s ih => rw [List.cons_append, run, ih, run, List.append_assoc]

theorem tokensFrom_append (m : Mode) (s t : CStr) :
    tokensFrom m (s ++ t) = (run m s).2 ++ tokensFrom (run m s).1 t := by
  rw [tokensFrom, run_append, List.append_assoc]
  rfl

theorem tokensFrom_cons (m : Mode) (b : UInt8) (s : CStr) :
    tokensFrom m (b :: s) = (m.next b).2 ++ tokensFrom (m.next b).1 s :=
  tokensFrom_append m [b] s |>.trans (by rw [run, run, List.append_nil])

def Mode.Ends : Mode → Prop
  | .comment _ | .string _ | .escape _ => False
  | _ => True

private theorem not_white : ∀ b, isWhite b = true → isLetter b = false ∧ isDecimal b = false ∧
    b ≠ 45 ∧ b ≠ 39 ∧ b ≠ 46 :=
  forall_byte (by decide +kernel)

theorem Mode.next_white (hm : m.Ends) (hb : isWhite b = true) : m.next b = (.start, m.finish) := by
  obtain ⟨hletter, hdecimal, hdash, hquote, hdot⟩ := not_white b hb
  have hleave : m.leave b = (.start, m.finish) := by
    rw [Mode.leave, begin, if_pos hb, List.append_nil]
  cases m with
  | start => exact if_pos hb
  | word s =>
    rw [Mode.next, hletter, hdecimal]
    exact hleave
  | number s =>
    rw [Mode.next, hletter, hdecimal, beq_false_of_ne hdot]
    exact hleave
  | dash => exact (if_neg hdash).trans hleave
  | quote s => exact (if_neg hquote).trans hleave
  | comment s => exact hm.elim
  | string s => exact hm.elim
  | escape s => exact hm.elim

theorem tokens_append_white (hm : (run .start s).1.Ends) (hb : isWhite b = true) :
    tokens (s ++ b :: t) = tokens s ++ tokens t := by
  rw [tokens, tokensFrom_append, tokensFrom_cons, Mode.next_white hm hb, ← List.append_assoc]
  rfl

/-! ## Runs inside of a token -/

theorem run_string (h : 39 ∉ s ∧ 92 ∉ s) : run (.string w) s = (.string (w ++ s), []) := by
  induction s generalizing w with
  | nil => rw [run, List.append_nil]
  | cons b s ih =>
    have hquote : b ≠ 39 := fun heq ↦ h.1 (heq ▸ List.mem_cons_self)
    have hescape : b ≠ 92 := fun heq ↦ h.2 (heq ▸ List.mem_cons_self)
    have hnext : Mode.next (.string w) b = (.string (w ++ [b]), []) := by
      rw [Mode.next, if_neg hquote, if_neg hescape]
    rw [run, hnext, ih ⟨fun hmem ↦ h.1 (List.mem_cons_of_mem b hmem),
      fun hmem ↦ h.2 (List.mem_cons_of_mem b hmem)⟩, List.append_assoc]
    rfl

theorem run_comment (h : 10 ∉ s) : run (.comment w) s = (.comment (w ++ s), []) := by
  induction s generalizing w with
  | nil => rw [run, List.append_nil]
  | cons b s ih =>
    have hline : b ≠ 10 := fun heq ↦ h (heq ▸ List.mem_cons_self)
    have hnext : Mode.next (.comment w) b = (.comment (w ++ [b]), []) := if_neg hline
    rw [run, hnext, ih fun hmem ↦ h (List.mem_cons_of_mem b hmem), List.append_assoc]
    rfl

theorem run_number (h : ∀ b ∈ s, isDecimal b = true) :
    run (.number w) s = (.number (w ++ s), []) := by
  induction s generalizing w with
  | nil => rw [run, List.append_nil]
  | cons b s ih =>
    have hnext : Mode.next (.number w) b = (.number (w ++ [b]), []) := by
      rw [Mode.next, h b List.mem_cons_self, Bool.or_true, Bool.true_or, if_pos rfl]
    rw [run, hnext, ih fun c hc ↦ h c (List.mem_cons_of_mem b hc), List.append_assoc]
    rfl

private theorem begin_decimal : ∀ b, isDecimal b = true → begin b = (.number [b], []) :=
  forall_byte (by decide +kernel)

theorem tokens_number (hs : s ≠ []) (h : ∀ b ∈ s, isDecimal b = true) :
    tokens s = [.number s] := by
  obtain ⟨b, s, rfl⟩ := List.exists_cons_of_ne_nil hs
  rw [tokens, tokensFrom_cons, Mode.next, begin_decimal b (h b List.mem_cons_self), tokensFrom,
    run_number fun c hc ↦ h c (List.mem_cons_of_mem b hc)]
  rfl

/-! ## Texts of names, dots and hyphens -/

/-- The bytes of names, numbers, dots and hyphens. -/
def isPlain (b : UInt8) : Bool := isLetter b || isDecimal b || b == 46 || b == 45

private theorem plain_cases : ∀ b, isPlain b = true →
    isLetter b = true ∧ begin b = (.word [b], []) ∧ isDecimal b = false ∧ b ≠ 45 ∧ b ≠ 46 ∨
    isDecimal b = true ∧ begin b = (.number [b], []) ∧ b ≠ 45 ∧ b ≠ 46 ∨
    b = 46 ∨ b = 45 :=
  forall_byte (by decide +kernel)

/-- The tokens of such a text, if no comment begins in it. -/
def Lexeme.Plain : Lexeme → Prop
  | .word _ | .number _ => True
  | .symbol b => b = 46 ∨ b = 45
  | _ => False

def Lexeme.isString : Lexeme → Bool
  | .string _ => true
  | _ => false

theorem Lexeme.Plain.not_isString {l : Lexeme} (h : l.Plain) : l.isString = false := by
  cases l with
  | string s => exact h.elim
  | _ => rfl

def Mode.Plain : Mode → Prop
  | .start | .word _ | .number _ | .dash => True
  | _ => False

theorem Mode.Plain.ends (hm : m.Plain) : m.Ends := by
  cases m with
  | comment s => exact hm.elim
  | string s => exact hm.elim
  | escape s => exact hm.elim
  | _ => trivial

theorem Mode.Plain.finish (hm : m.Plain) : ∀ t ∈ m.finish, t.Plain := by
  intro t ht
  cases m with
  | start => exact absurd ht List.not_mem_nil
  | word s => exact List.mem_singleton.mp ht ▸ trivial
  | number s => exact List.mem_singleton.mp ht ▸ trivial
  | dash => exact List.mem_singleton.mp ht ▸ Or.inr rfl
  | comment s => exact hm.elim
  | string s => exact hm.elim
  | quote s => exact hm.elim
  | escape s => exact hm.elim

private theorem begin_plain (hb : isPlain b = true) :
    (begin b).1.Plain ∧ ∀ t ∈ (begin b).2, t.Plain := by
  rcases plain_cases b hb with ⟨-, hbegin, -⟩ | ⟨-, hbegin, -⟩ | rfl | rfl
  · rw [hbegin]
    exact ⟨trivial, fun t ht ↦ absurd ht List.not_mem_nil⟩
  · rw [hbegin]
    exact ⟨trivial, fun t ht ↦ absurd ht List.not_mem_nil⟩
  · exact ⟨trivial, fun t ht ↦ List.mem_singleton.mp ht ▸ Or.inl rfl⟩
  · exact ⟨trivial, fun t ht ↦ absurd ht List.not_mem_nil⟩

private theorem leave_plain (hm : m.Plain) (hb : isPlain b = true) :
    (m.leave b).1.Plain ∧ ∀ t ∈ (m.leave b).2, t.Plain := by
  obtain ⟨hmode, hbegin⟩ := begin_plain hb
  refine ⟨hmode, fun t ht ↦ ?_⟩
  rcases List.mem_append.mp ht with hfinish | hnew
  · exact hm.finish t hfinish
  · exact hbegin t hnew

theorem Mode.Plain.next (hm : m.Plain) (hb : isPlain b = true) (hd : m = .dash → b ≠ 45) :
    (m.next b).1.Plain ∧ ∀ t ∈ (m.next b).2, t.Plain := by
  cases m with
  | start => exact begin_plain hb
  | word s =>
    rw [Mode.next]
    split
    · exact ⟨trivial, fun t ht ↦ absurd ht List.not_mem_nil⟩
    · exact leave_plain hm hb
  | number s =>
    rw [Mode.next]
    split
    · exact ⟨trivial, fun t ht ↦ absurd ht List.not_mem_nil⟩
    · exact leave_plain hm hb
  | dash =>
    rw [Mode.next, if_neg (hd rfl)]
    exact leave_plain hm hb
  | comment s => exact hm.elim
  | string s => exact hm.elim
  | quote s => exact hm.elim
  | escape s => exact hm.elim

def Mode.pending : Mode → CStr
  | .dash => [45]
  | _ => []

theorem Mode.pending_eq_nil (h : m ≠ .dash) : m.pending = [] := by
  cases m with
  | dash => exact absurd rfl h
  | _ => rfl

private theorem begin_eq_dash : ∀ b, (begin b).1 = .dash ↔ b = 45 :=
  forall_byte (by decide +kernel)

private theorem next_eq_dash (hm : m.Plain) (hd : m = .dash → b ≠ 45) :
    (m.next b).1 = .dash ↔ b = 45 := by
  have hword : isLetter b || isDecimal b → b ≠ 45 := by
    rintro hb rfl
    exact absurd hb (by decide)
  cases m with
  | start => exact begin_eq_dash b
  | word s =>
    rw [Mode.next]
    split
    · rename_i hb
      exact iff_of_false nofun (hword hb)
    · exact begin_eq_dash b
  | number s =>
    rw [Mode.next]
    split
    · rename_i hb
      refine iff_of_false nofun ?_
      rcases (Bool.or_eq_true _ _).mp hb with hb | hb
      · exact hword hb
      · exact fun h ↦ absurd ((beq_iff_eq.mp hb).symm.trans h) (by decide)
    · exact begin_eq_dash b
  | dash =>
    rw [Mode.next, if_neg (hd rfl)]
    exact begin_eq_dash b
  | comment s => exact hm.elim
  | string s => exact hm.elim
  | quote s => exact hm.elim
  | escape s => exact hm.elim

private theorem two_infix_cons (h : b ≠ 45) : [45, 45] <:+: b :: s ↔ [45, 45] <:+: s := by
  rw [List.infix_cons_iff]
  exact or_iff_right fun hpre ↦ h (List.cons_prefix_cons.mp hpre).1.symm

private theorem two_infix_next (hm : m.Plain) (hd : m = .dash → b ≠ 45) :
    [45, 45] <:+: m.pending ++ b :: s ↔ [45, 45] <:+: (m.next b).1.pending ++ s := by
  have hleft : [45, 45] <:+: m.pending ++ b :: s ↔ [45, 45] <:+: b :: s := by
    by_cases hdash : m = .dash
    · rw [hdash]
      refine List.infix_cons_iff.trans (or_iff_right fun hpre ↦ ?_)
      exact hd hdash (List.cons_prefix_cons.mp (List.cons_prefix_cons.mp hpre).2).1.symm
    · rw [Mode.pending_eq_nil hdash, List.nil_append]
  rw [hleft]
  by_cases hb : b = 45
  · rw [(next_eq_dash hm hd).mpr hb, hb]
    rfl
  · rw [Mode.pending_eq_nil (mt (next_eq_dash hm hd).mp hb), two_infix_cons hb, List.nil_append]

/-- A plain text ends in a comment exactly when there are two hyphens in a row. -/
theorem run_plain (hm : m.Plain) (hs : ∀ b ∈ s, isPlain b = true) :
    (∀ t ∈ (run m s).2, t.Plain) ∧
      ([45, 45] <:+: m.pending ++ s ∧ (∃ w, (run m s).1 = .comment w) ∨
        ¬ [45, 45] <:+: m.pending ++ s ∧ (run m s).1.Plain) := by
  induction s generalizing m with
  | nil =>
    refine ⟨fun t ht ↦ absurd ht List.not_mem_nil, Or.inr ⟨fun h ↦ ?_, hm⟩⟩
    have hlen := h.length_le
    have hpending : m.pending.length ≤ 1 := by
      cases m with
      | dash => exact le_rfl
      | _ => exact Nat.zero_le _
    rw [List.append_nil, List.length_cons, List.length_singleton] at hlen
    omega
  | cons b s ih =>
    have htail : ∀ b ∈ s, isPlain b = true := fun c hc ↦ hs c (List.mem_cons_of_mem b hc)
    by_cases hcomment : m = .dash ∧ b = 45
    · obtain ⟨rfl, rfl⟩ := hcomment
      have hline : (10 : UInt8) ∉ s := fun hmem ↦ absurd (htail 10 hmem) (by decide)
      have hrun : run .dash (45 :: s) = (.comment s, []) := by
        rw [run, Mode.next, if_pos rfl, run_comment hline]
        rfl
      rw [hrun]
      exact ⟨fun t ht ↦ absurd ht List.not_mem_nil, Or.inl ⟨⟨[], s, rfl⟩, s, rfl⟩⟩
    · have hd : m = .dash → b ≠ 45 := fun hdash hb ↦ hcomment ⟨hdash, hb⟩
      obtain ⟨hmode, htokens⟩ := hm.next (hs b List.mem_cons_self) hd
      obtain ⟨hrest, hend⟩ := ih hmode htail
      refine ⟨fun t ht ↦ ?_, ?_⟩
      · rcases List.mem_append.mp ht with hhead | htail
        · exact htokens t hhead
        · exact hrest t htail
      · rw [two_infix_next hm hd]
        exact hend

def Lexeme.Tainted : Lexeme → Prop
  | .comment _ => True
  | .symbol b => b = 45
  | _ => False

instance : DecidablePred Lexeme.Tainted
  | .comment _ => isTrue trivial
  | .symbol b => inferInstanceAs (Decidable (b = 45))
  | .word _ => isFalse id
  | .number _ => isFalse id
  | .string _ => isFalse id
  | .unterminated _ => isFalse id

theorem tainted_comment (w s : CStr) : ∃ t ∈ tokensFrom (.comment w) s, t.Tainted := by
  induction s generalizing w with
  | nil => exact ⟨.comment w, List.mem_singleton_self _, trivial⟩
  | cons b s ih =>
    rw [tokensFrom_cons, Mode.next]
    split
    · exact ⟨.comment w, List.mem_append_left _ (List.mem_singleton_self _), trivial⟩
    · exact ih (w ++ [b])

theorem tainted_dash (s : CStr) : ∃ t ∈ tokensFrom .dash s, t.Tainted := by
  cases s with
  | nil => exact ⟨.symbol 45, List.mem_singleton_self _, rfl⟩
  | cons b s =>
    rw [tokensFrom_cons, Mode.next]
    split
    · exact tainted_comment [] s
    · exact ⟨.symbol 45, List.mem_append_left _ List.mem_cons_self, rfl⟩

theorem tainted_of_mem (hm : m.Plain) (hs : ∀ b ∈ s, isPlain b = true) (h : 45 ∈ m.pending ++ s)
    (t : CStr) : ∃ l ∈ tokensFrom m (s ++ t), l.Tainted := by
  induction s generalizing m with
  | nil =>
    by_cases hdash : m = .dash
    · rw [hdash]
      exact tainted_dash t
    · rw [Mode.pending_eq_nil hdash] at h
      exact absurd h List.not_mem_nil
  | cons b s ih =>
    by_cases hdash : m = .dash
    · rw [hdash]
      exact tainted_dash _
    have hd : m = .dash → b ≠ 45 := fun heq ↦ absurd heq hdash
    have hmem : (45 : UInt8) ∈ (m.next b).1.pending ++ s := by
      rw [Mode.pending_eq_nil hdash, List.nil_append] at h
      rcases List.mem_cons.mp h with rfl | htail
      · rw [(next_eq_dash hm hd).mpr rfl]
        exact List.mem_append_left _ (List.mem_singleton_self _)
      · exact List.mem_append_right _ htail
    obtain ⟨l, hl, htainted⟩ := ih (hm.next (hs b List.mem_cons_self) hd).1
      (fun c hc ↦ hs c (List.mem_cons_of_mem b hc)) hmem
    rw [List.cons_append, tokensFrom_cons]
    exact ⟨l, List.mem_append_right _ hl, htainted⟩

/-! ## Qualified names -/

def Lexeme.IsName : Lexeme → Prop
  | .word _ => True
  | .symbol b => b = 46
  | _ => False

/-- A digit can follow a letter, a digit or an underscore in a name, but it does not begin one. -/
def NoDigitFirst (a b : UInt8) : Prop := a = 46 → isDecimal b = false

instance : DecidableRel NoDigitFirst := fun a b ↦ decidable_of_iff (a ≠ 46 ∨ isDecimal b = false)
  imp_iff_not_or.symm

/-- Names with dots: no hyphen, and no digit where a name begins. -/
structure QualifiedName (s : CStr) : Prop where
  hyphen : 45 ∉ s
  digit : List.IsChain NoDigitFirst (46 :: s)

theorem qualifiedName_iff (s : CStr) :
    QualifiedName s ↔ 45 ∉ s ∧ List.IsChain NoDigitFirst (46 :: s) :=
  ⟨fun h ↦ ⟨h.hyphen, h.digit⟩, fun h ↦ ⟨h.1, h.2⟩⟩

instance (s : CStr) : Decidable (QualifiedName s) := decidable_of_iff _ (qualifiedName_iff s).symm

theorem tokensFrom_number (w s : CStr) : ∃ l ∈ tokensFrom (.number w) s, ¬ l.IsName := by
  induction s generalizing w with
  | nil => exact ⟨.number w, List.mem_singleton_self _, id⟩
  | cons b s ih =>
    rw [tokensFrom_cons, Mode.next]
    split
    · exact ih (w ++ [b])
    · exact ⟨.number w, List.mem_append_left _ List.mem_cons_self, id⟩

theorem Lexeme.Tainted.not_isName {l : Lexeme} (h : l.Tainted) : ¬ l.IsName := by
  cases l with
  | comment s => exact id
  | symbol b =>
    intro hdot
    exact absurd (h.symm.trans hdot) (by decide)
  | _ => exact h.elim

def Mode.InName : Mode → Prop
  | .start | .word _ => True
  | _ => False

theorem Mode.InName.plain (hm : m.InName) : m.Plain := by
  cases m with
  | start => trivial
  | word s => trivial
  | _ => exact hm.elim

private theorem next_letter (hm : m.InName) (hb : isLetter b = true)
    (hbegin : begin b = (.word [b], [])) : ∃ w, m.next b = (.word w, []) := by
  cases m with
  | start => exact ⟨[b], hbegin⟩
  | word s =>
    refine ⟨s ++ [b], ?_⟩
    rw [Mode.next, hb, Bool.true_or, if_pos rfl]
  | _ => exact hm.elim

private theorem next_dot (hm : m.InName) :
    (m.next 46).1 = .start ∧ ∀ l ∈ (m.next 46).2, l.IsName := by
  cases m with
  | start => exact ⟨rfl, fun l hl ↦ List.mem_singleton.mp hl ▸ rfl⟩
  | word s =>
    refine ⟨rfl, fun l hl ↦ ?_⟩
    have hnext : (Mode.next (.word s) 46).2 = [.word s, .symbol 46] := rfl
    rw [hnext] at hl
    rcases List.mem_cons.mp hl with rfl | hl
    · trivial
    · exact List.mem_singleton.mp hl ▸ rfl
  | _ => exact hm.elim

/-- The tokens from a place in a name on are names and dots exactly when there is no hyphen, and no
digit where a name begins. -/
private theorem names_iff {prev : UInt8} (hm : m.InName) (hprev : m = .start ↔ prev = 46)
    (hs : ∀ b ∈ s, isPlain b = true) :
    (∀ l ∈ tokensFrom m s, l.IsName) ↔ 45 ∉ s ∧ List.IsChain NoDigitFirst (prev :: s) := by
  induction s generalizing m prev with
  | nil =>
    refine iff_of_true (fun l hl ↦ ?_) ⟨List.not_mem_nil, List.isChain_singleton _⟩
    cases m with
    | start => exact absurd hl List.not_mem_nil
    | word s => exact List.mem_singleton.mp hl ▸ trivial
    | _ => exact hm.elim
  | cons b s ih =>
    have htail : ∀ c ∈ s, isPlain c = true := fun c hc ↦ hs c (List.mem_cons_of_mem b hc)
    have hword : ∀ {w}, m.next b = (.word w, []) → NoDigitFirst prev b → b ≠ 45 → b ≠ 46 →
        ((∀ l ∈ tokensFrom m (b :: s), l.IsName) ↔
          45 ∉ b :: s ∧ List.IsChain NoDigitFirst (prev :: b :: s)) := by
      intro w hnext hfirst hhyphen hdot
      have hrest := ih (m := .word w) trivial (iff_of_false nofun hdot) htail
      rw [tokensFrom_cons, hnext, List.nil_append, hrest, List.isChain_cons_cons, List.mem_cons,
        not_or]
      exact ⟨fun h ↦ ⟨⟨hhyphen.symm, h.1⟩, hfirst, h.2⟩, fun h ↦ ⟨h.1.2, h.2.2⟩⟩
    rcases plain_cases b (hs b List.mem_cons_self) with
      ⟨hletter, hbegin, hdecimal, hhyphen, hdot⟩ | ⟨hdecimal, hbegin, hhyphen, hdot⟩ | rfl | rfl
    · obtain ⟨w, hnext⟩ := next_letter hm hletter hbegin
      exact hword hnext (fun _ ↦ hdecimal) hhyphen hdot
    · cases m with
      | start =>
        refine iff_of_false (fun h ↦ ?_) fun h ↦ ?_
        · rw [tokensFrom_cons, Mode.next, hbegin, List.nil_append] at h
          obtain ⟨l, hl, hnot⟩ := tokensFrom_number [b] s
          exact hnot (h l hl)
        · have hfirst := (List.isChain_cons_cons.mp h.2).1 (hprev.mp rfl)
          rw [hdecimal] at hfirst
          exact Bool.noConfusion hfirst
      | word w =>
        refine hword (w := w ++ [b]) ?_ (fun heq ↦ nomatch hprev.mpr heq) hhyphen hdot
        rw [Mode.next, hdecimal, Bool.or_true, if_pos rfl]
      | _ => exact hm.elim
    · obtain ⟨hmode, hnames⟩ := next_dot hm
      rw [tokensFrom_cons, hmode, List.isChain_cons_cons, List.mem_cons, not_or]
      have hrest : (∀ l ∈ tokensFrom .start s, l.IsName) ↔
          45 ∉ s ∧ List.IsChain NoDigitFirst (46 :: s) :=
        ih trivial (iff_of_true rfl rfl) htail
      constructor
      · intro h
        have := hrest.mp fun l hl ↦ h l (List.mem_append_right _ hl)
        exact ⟨⟨by decide, this.1⟩, fun _ ↦ rfl, this.2⟩
      · rintro ⟨⟨-, hhyphen⟩, -, hchain⟩ l hl
        rcases List.mem_append.mp hl with hhead | hl
        · exact hnames l hhead
        · exact hrest.mpr ⟨hhyphen, hchain⟩ l hl
    · refine iff_of_false (fun h ↦ ?_) fun h ↦ h.1 List.mem_cons_self
      obtain ⟨l, hl, htainted⟩ := tainted_of_mem hm.plain hs
        (List.mem_append_right _ List.mem_cons_self) []
      rw [List.append_nil] at hl
      exact htainted.not_isName (h l hl)

/-- The tokens of a plain text are names and dots exactly when it is a qualified name. -/
theorem tokens_names_iff (hs : ∀ b ∈ s, isPlain b = true) :
    (∀ l ∈ tokens s, l.IsName) ↔ QualifiedName s := by
  rw [qualifiedName_iff]
  exact names_iff trivial (iff_of_true rfl rfl) hs

end Sql

end NetForensics
