import NetForensics.Json.Line

/-!
# Several strings that are not escaped

An object may have more than one string that is printed as it is. Each of them is read where the
one before it has left the reader, which need not be the object it was printed into. What counts is
that after each of them the reader is inside a string of some object, and after the last one with as
many objects open as there are braces to come (`Rejoins`).
-/

namespace NetForensics

namespace Json

/-! ## Reading piece by piece -/

/-- A piece of an object: a member that reads back, a string that is printed as it is, or the start
of an object that is its last member. -/
inductive Piece where
  | sound (kv : CStr × Json)
  | raw (name s : CStr)
  | opens (name : CStr)

def Piece.read (b : Between) : Piece → Option Between
  | .sound kv => some ⟨b.members ++ [kv], b.around⟩
  | .raw name s =>
    (Reader.run ⟨.str .body [], .obj b.members name :: b.around⟩ s).bind Reader.between
  | .opens name => some ⟨[], .obj b.members name :: b.around⟩

def readPieces (b : Between) (ps : List Piece) : Option Between := ps.foldlM Piece.read b

def rawStrings (ps : List Piece) : List CStr :=
  ps.filterMap fun
    | .raw _ s => some s
    | .sound _ | .opens _ => none

/-- An object around the reader, with the members that have been read and the name of the one it is
at. -/
def objFrame (o : List (CStr × Json) × CStr) : Frame := .obj o.1 o.2

/-- Read one after the other, the strings leave the reader inside a string of an object each, in the
end with so many objects around; and the outermost has one member `name` so far, the string `s`. -/
def Rejoins (name : String) (s : CStr) (depth : ℕ) (ps : List Piece) : Prop :=
  ∃ (ms : List (CStr × Json)) (objs : List (List (CStr × Json) × CStr)),
    readPieces ⟨[], []⟩ ps = some ⟨ms, objs.map objFrame⟩ ∧ objs.length = depth ∧
    ∀ o ∈ objs.getLast?, o.2 ≠ ascii name ∧ membersOf (ascii name) (.obj o.1) = [.str s]

theorem readPieces_append (b : Between) (ps qs : List Piece) :
    readPieces b (ps ++ qs) = (readPieces b ps).bind fun b ↦ readPieces b qs := by
  rw [readPieces, List.foldlM_append]
  rfl

theorem readPieces_cons (b : Between) (p : Piece) (ps : List Piece) :
    readPieces b (p :: ps) = (p.read b).bind fun b ↦ readPieces b ps := by
  rw [readPieces, List.foldlM_cons]
  rfl

theorem readPieces_singleton (b : Between) (p : Piece) : readPieces b [p] = p.read b := by
  rw [readPieces_cons]
  cases p.read b <;> rfl

theorem readPieces_sound (b : Between) (kvs : List (CStr × Json)) :
    readPieces b (kvs.map .sound) = some ⟨b.members ++ kvs, b.around⟩ := by
  induction kvs generalizing b with
  | nil => rw [List.append_nil]; rfl
  | cons kv kvs ih =>
    rw [List.map_cons, readPieces_cons, Piece.read, Option.bind_some, ih, List.append_assoc,
      List.singleton_append]

theorem rejoins_append_sound {name : String} {s : CStr} {depth : ℕ} {ps : List Piece}
    (kvs : List (CStr × Json)) :
    Rejoins name s depth (ps ++ kvs.map .sound) ↔ Rejoins name s depth ps := by
  have hread : ∀ b, readPieces b (ps ++ kvs.map .sound)
      = (readPieces b ps).map fun b ↦ ⟨b.members ++ kvs, b.around⟩ := by
    intro b
    rw [readPieces_append]
    cases readPieces b ps with
    | none => rfl
    | some b' => exact readPieces_sound b' kvs
  constructor
  · rintro ⟨ms, objs, h, hlen, hlast⟩
    rw [hread] at h
    obtain ⟨⟨ms', around⟩, hps, heq⟩ := Option.map_eq_some_iff.mp h
    obtain ⟨-, rfl⟩ := Between.mk.inj heq
    exact ⟨ms', objs, hps, hlen, hlast⟩
  · rintro ⟨ms, objs, h, hlen, hlast⟩
    exact ⟨ms ++ kvs, objs, by rw [hread, h]; rfl, hlen, hlast⟩

/-! ## Closing what is open -/

/-- The value that is complete when the objects around it are closed. -/
def closed (v : Json) : List (List (CStr × Json) × CStr) → Json
  | [] => v
  | o :: objs => closed (.obj (o.1 ++ [(o.2, v)])) objs

theorem Reader.run_braces_iff (v : Json) (stack : List Frame) (k : ℕ) {w : Json} :
    (Reader.run ⟨.after v, stack⟩ (List.replicate k 125)).bind Reader.result = some w ↔
      ∃ objs : List (List (CStr × Json) × CStr),
        objs.length = k ∧ stack = objs.map objFrame ∧ w = closed v objs := by
  induction k generalizing v stack with
  | zero =>
    constructor
    · intro h
      cases stack with
      | nil => exact ⟨[], rfl, rfl, (Option.some_inj.mp h).symm⟩
      | cons f stack => exact absurd h (by simp [Reader.run, Reader.result])
    · rintro ⟨objs, hlen, rfl, rfl⟩
      rw [List.length_eq_zero_iff.mp hlen]
      rfl
  | succ k ih =>
    rw [List.replicate_succ]
    constructor
    · intro h
      rcases stack with - | ⟨done | ⟨done, key⟩, stack⟩
      · exact absurd h (by simp [Reader.run, Reader.step, afterValue, isSpace])
      · exact absurd h (by simp [Reader.run, Reader.step, afterValue, isSpace])
      · obtain ⟨objs, hlen, rfl, rfl⟩ := (ih (.obj (done ++ [(key, v)])) stack).mp h
        exact ⟨(done, key) :: objs, by rw [List.length_cons, hlen], rfl, rfl⟩
    · rintro ⟨objs, hlen, rfl, rfl⟩
      obtain ⟨⟨done, key⟩, objs, rfl⟩ := List.exists_cons_of_length_eq_add_one hlen
      exact (ih (.obj (done ++ [(key, v)])) (objs.map objFrame)).mpr
        ⟨objs, Nat.succ.inj hlen, rfl, rfl⟩

theorem exists_closed (ms : List (CStr × Json)) {objs : List (List (CStr × Json) × CStr)}
    {o : List (CStr × Json) × CStr} (h : objs.getLast? = some o) :
    ∃ ms', closed (.obj ms) objs = .obj (o.1 ++ [(o.2, .obj ms')]) := by
  induction objs generalizing ms with
  | nil => exact absurd h (by simp)
  | cons o' objs ih =>
    rw [closed]
    cases objs with
    | nil =>
      obtain rfl := Option.some_inj.mp h
      exact ⟨ms, rfl⟩
    | cons o'' objs => exact ih _ (by rwa [List.getLast?_cons_cons] at h)

theorem membersOf_closed_iff {name s key : CStr} {ms ms' : List (CStr × Json)} :
    membersOf name (.obj (ms ++ [(key, .obj ms')])) = [.str s] ↔
      key ≠ name ∧ membersOf name (.obj ms) = [.str s] := by
  have hsplit : membersOf name (.obj (ms ++ [(key, .obj ms')]))
      = membersOf name (.obj ms) ++ if key = name then [.obj ms'] else [] := by
    rw [membersOf, membersOf, List.filter_append, List.map_append]
    by_cases hkey : key = name <;> simp [hkey]
  rw [hsplit]
  by_cases hkey : key = name
  · rw [if_pos hkey]
    refine iff_of_false (fun h ↦ ?_) fun h ↦ h.1 hkey
    have hlast := congrArg List.getLast? h
    rw [List.getLast?_concat] at hlast
    exact absurd hlast (by simp)
  · rw [if_neg hkey, List.append_nil]
    exact (and_iff_right hkey).symm

/-! ## Composed objects -/

/-- The member is printed as the piece says. -/
inductive Piece.Prints : Piece → String × CStr → Prop
  | sound {m : String × CStr} {kv : CStr × Json} (h : MemberReads m kv) (hclean : Clean m.2) :
      Prints (.sound kv) m
  | raw (name : String) (s : CStr) : Prints (.raw (ascii name) s) (name, quoted s)

/-- The name of a member that can follow a string. -/
def Named (name : String) : Prop := Safe (ascii name) ∧ Lettered name

instance (name : String) : Decidable (Named name) := inferInstanceAs (Decidable (_ ∧ _))

/-- The members of an object, printed piece by piece; so many objects are inside it, each the last
member of the one around it. -/
inductive Composed : ℕ → List Piece → List (String × CStr) → Prop
  | last {p : Piece} {m : String × CStr} (hname : Named m.1) (hp : p.Prints m) : Composed 0 [p] [m]
  | opens {depth : ℕ} {ps : List Piece} {ms : List (String × CStr)} {name : String}
      (hname : Named name) (h : Composed depth ps ms) :
      Composed (depth + 1) (.opens (ascii name) :: ps) [(name, object ms)]
  | cons {depth : ℕ} {p : Piece} {ps : List Piece} {m : String × CStr} {ms : List (String × CStr)}
      (hname : Named m.1) (hp : p.Prints m) (h : Composed depth ps ms) :
      Composed depth (p :: ps) (m :: ms)

namespace Composed

variable {depth : ℕ} {ps : List Piece} {ms : List (String × CStr)}

theorem ne_nil (h : Composed depth ps ms) : ms ≠ [] := by
  cases h <;> exact List.cons_ne_nil _ _

theorem exists_member (h : Composed depth ps ms) (t : CStr) :
    ∃ name w, memberList ms ++ t = member name w ∧ Named name := by
  have hmember : ∀ {name : String} {s : CStr}, member name s ++ t = member name (s ++ t) := by
    intro name s
    rw [member, member, List.append_assoc, List.cons_append]
  cases h with
  | last hname hp => exact ⟨_, _, hmember, hname⟩
  | opens hname h => exact ⟨_, _, hmember, hname⟩
  | @cons _ _ _ m ms hname hp h =>
    refine ⟨m.1, m.2 ++ 44 :: memberList ms ++ t, ?_, hname⟩
    rw [memberList_cons_of_ne_nil h.ne_nil, member, member]
    simp only [List.append_assoc, List.cons_append]

/-- A printed object is read piece by piece: as far as its closing brace, if `depth + 1` braces and
more follow. -/
theorem run_iff (h : Composed depth ps ms) {b : Between} {k : ℕ} {v : Json} :
    (Reader.run ⟨.key b.members, b.around⟩
        (memberList ms ++ List.replicate (k + 1) 125)).bind Reader.result = some v ↔
      ∃ b', readPieces b ps = some b' ∧ (Reader.run ⟨.after (.obj b'.members), b'.around⟩
        (List.replicate (k + depth) 125)).bind Reader.result = some v := by
  induction h generalizing b k with
  | @last p m hname hp =>
    rw [readPieces_singleton, memberList]
    cases hp with
    | @sound _ kv hreads hclean =>
      have hrun := run_memberList (.cons hreads .nil) b.members b.around
      rw [memberList] at hrun
      have hsplit : member m.1 m.2 ++ List.replicate (k + 1) (125 : UInt8)
          = member m.1 m.2 ++ [125] ++ List.replicate k 125 := by
        rw [List.replicate_succ, List.append_assoc, List.singleton_append]
      rw [hsplit, Reader.run_append_of_eq hrun]
      constructor
      · exact fun h ↦ ⟨_, rfl, h⟩
      · rintro ⟨b', hb', h⟩
        obtain rfl := Option.some_inj.mp hb'
        exact h
    | raw name s =>
      rw [run_raw_member hname.1.plain, Reader.run_append, Option.bind_assoc, Piece.read]
      cases hrun : Reader.run ⟨.str .body [], .obj b.members (ascii name) :: b.around⟩ s with
      | none => exact iff_of_false (by simp) (by simp)
      | some r => exact Reader.close_iff ((litOk_str _ _ _).run hrun)
  | @opens depth ps ms name hname h ih =>
    have hne := h.ne_nil
    obtain ⟨u, hu⟩ := memberList_eq_cons hne
    have hopen : Reader.run ⟨.key b.members, b.around⟩
        (member name (object ms) ++ List.replicate (k + 1) 125)
        = Reader.run ⟨.key [], .obj b.members (ascii name) :: b.around⟩
          (memberList ms ++ List.replicate (k + 1 + 1) 125) := by
      have htext : member name (object ms) ++ List.replicate (k + 1) (125 : UInt8)
          = 34 :: (ascii name ++
            34 :: 58 :: 123 :: (34 :: u ++ List.replicate (k + 1 + 1) 125)) := by
        rw [member_eq, object, hu, List.replicate_succ (n := k + 1)]
        simp only [List.cons_append, List.append_assoc, List.nil_append]
      rw [htext, hu, Reader.run_cons_of_eq (q := ⟨.keyStr b.members .body [], b.around⟩) rfl,
        Reader.run_append_of_eq (run_key hname.1.plain b.members [] b.around), List.nil_append]
      rfl
    rw [memberList, hopen, readPieces_cons, Piece.read, Option.bind_some,
      ih (b := ⟨[], .obj b.members (ascii name) :: b.around⟩), Nat.add_right_comm, Nat.add_assoc k]
  | @cons depth p ps m ms hname hp h ih =>
    obtain ⟨next, w, hnext, hnamed⟩ := h.exists_member (List.replicate (k + 1) 125)
    rw [memberList_cons_of_ne_nil h.ne_nil, List.append_assoc, List.cons_append, readPieces_cons]
    cases hp with
    | @sound _ kv hreads hclean =>
      have hrun := run_members (.cons hreads .nil) h.ne_nil b.members b.around
        (List.replicate (k + 1) 125)
      rw [List.singleton_append, memberList_cons_of_ne_nil h.ne_nil, List.append_assoc,
        List.cons_append] at hrun
      rw [hrun, Piece.read, Option.bind_some]
      exact ih (b := ⟨b.members ++ [kv], b.around⟩)
    | raw name s =>
      rw [run_raw_member hname.1.plain, Reader.run_append, Option.bind_assoc, Piece.read, hnext]
      cases hrun : Reader.run ⟨.str .body [], .obj b.members (ascii name) :: b.around⟩ s with
      | none => exact iff_of_false (by simp) (by simp)
      | some r =>
        have hleave := Reader.next_iff ((litOk_str _ _ _).run hrun) hnamed.1.plain hnamed.2
          (w := w) (v := v)
        rw [Option.bind_some, Option.bind_some, hleave, ← hnext]
        cases r.between with
        | none => exact iff_of_false (by simp) (by simp)
        | some b' =>
          simp only [Option.some_inj, exists_eq_left', Option.bind_some]
          exact ih

theorem parse_read_iff (h : Composed depth ps ms) {v : Json} :
    parse (object ms) = some v ↔ ∃ b, readPieces ⟨[], []⟩ ps = some b ∧
      (Reader.run ⟨.after (.obj b.members), b.around⟩ (List.replicate depth 125)).bind
        Reader.result = some v := by
  have hrun := h.run_iff (b := ⟨[], []⟩) (k := 0) (v := v)
  simp only [Nat.zero_add] at hrun
  rw [parse_object h.ne_nil]
  exact hrun

/-- Without an object inside, what is read is what the pieces are read as. -/
theorem parse_flat_iff (h : Composed 0 ps ms) {kvs : List (CStr × Json)} :
    parse (object ms) = some (.obj kvs) ↔ readPieces ⟨[], []⟩ ps = some ⟨kvs, []⟩ := by
  rw [h.parse_read_iff]
  constructor
  · rintro ⟨⟨kvs', around⟩, hread, hrun⟩
    obtain ⟨objs, hlen, rfl, hclosed⟩ := (Reader.run_braces_iff _ _ 0).mp hrun
    obtain rfl := List.length_eq_zero_iff.mp hlen
    obtain rfl := Json.obj.inj hclosed
    exact hread
  · exact fun hread ↦ ⟨_, hread, (Reader.run_braces_iff _ _ 0).mpr ⟨[], rfl, rfl, rfl⟩⟩

/-- The object has one member `name`, the string `s`, exactly when its strings rejoin it. -/
theorem parse_iff (h : Composed depth ps ms) (hdepth : depth ≠ 0) {name : String} {s : CStr} :
    (∃ kvs, parse (object ms) = some (.obj kvs) ∧
        membersOf (ascii name) (.obj kvs) = [.str s]) ↔ Rejoins name s depth ps := by
  constructor
  · rintro ⟨kvs, hkvs, hmem⟩
    obtain ⟨⟨ms', around⟩, hread, hrun⟩ := h.parse_read_iff.mp hkvs
    obtain ⟨objs, hlen, rfl, hclosed⟩ := (Reader.run_braces_iff _ _ _).mp hrun
    refine ⟨ms', objs, hread, hlen, fun o ho ↦ ?_⟩
    obtain ⟨inner, hinner⟩ := exists_closed ms' ho
    rw [hclosed, hinner] at hmem
    exact membersOf_closed_iff.mp hmem
  · rintro ⟨ms', objs, hread, hlen, hlast⟩
    have hne : objs ≠ [] := fun hnil ↦ hdepth (by rw [← hlen, hnil]; rfl)
    obtain ⟨inner, hinner⟩ := exists_closed ms' (List.getLast?_eq_some_getLast hne)
    refine ⟨_, h.parse_read_iff.mpr ⟨_, hread, (Reader.run_braces_iff _ _ _).mpr
      ⟨objs, hlen, rfl, hinner.symm⟩⟩, membersOf_closed_iff.mpr (hlast _ ?_)⟩
    exact List.getLast?_eq_some_getLast hne

end Composed

section Members

variable {depth : ℕ} {ps : List Piece} {ms : List (String × CStr)} {name : String}

theorem Composed.last_raw (hname : Named name) (s : CStr) :
    Composed 0 [.raw (ascii name) s] [(name, quoted s)] :=
  .last hname (.raw name s)

theorem Composed.cons_raw (hname : Named name) (s : CStr) (h : Composed depth ps ms) :
    Composed depth (.raw (ascii name) s :: ps) ((name, quoted s) :: ms) :=
  .cons hname (.raw name s) h

theorem Composed.cons_sound (hname : Named name) {s : CStr} {v : Json} (hv : Reads s v)
    (hclean : Clean s) (h : Composed depth ps ms) :
    Composed depth (.sound (ascii name, v) :: ps) ((name, s) :: ms) :=
  .cons hname (.sound (memberReads hname.1.plain hv) hclean) h

theorem Composed.cons_quoted (hname : Named name) {s : CStr} (hs : Safe s)
    (h : Composed depth ps ms) :
    Composed depth (.sound (ascii name, .str s) :: ps) ((name, quoted s) :: ms) :=
  .cons_sound hname (reads_quoted hs.plain) ((clean_quoted_iff s).mpr hs.clean) h

theorem Composed.cons_decimal (hname : Named name) (n : ℕ) (h : Composed depth ps ms) :
    Composed depth (.sound (ascii name, .num (decimal n)) :: ps) ((name, decimal n) :: ms) :=
  .cons_sound hname (reads_decimal n) (clean_of_token (token_decimal n)) h

theorem Composed.cons_fixed (hname : Named name) (k : ℕ) (q : ℚ) (h : Composed depth ps ms) :
    Composed depth (.sound (ascii name, .num (fixed k q)) :: ps) ((name, fixed k q) :: ms) :=
  .cons_sound hname (reads_fixed k q) (clean_of_token (token_fixed k q)) h

theorem Composed.cons_bool (hname : Named name) (b : Bool) (h : Composed depth ps ms) :
    Composed depth (.sound (ascii name, .bool b) :: ps) ((name, boolText b) :: ms) :=
  .cons_sound hname (reads_boolText b) (sound_bool hname.1 b).clean h

theorem exists_composed (hne : ms ≠ []) (h : ∀ m ∈ ms, Sound m ∧ Lettered m.1) :
    ∃ kvs : List (CStr × Json), Composed 0 (kvs.map .sound) ms := by
  induction ms with
  | nil => exact absurd rfl hne
  | cons m ms ih =>
    obtain ⟨hsound, hletter⟩ := h m List.mem_cons_self
    obtain ⟨v, hv⟩ := hsound.reads
    have hp : (Piece.sound (ascii m.1, v)).Prints m :=
      .sound ⟨rfl, hsound.name.plain, hv⟩ hsound.clean
    by_cases hms : ms = []
    · rw [hms]
      exact ⟨[(ascii m.1, v)], .last ⟨hsound.name, hletter⟩ hp⟩
    · obtain ⟨kvs, hkvs⟩ := ih hms fun n hn ↦ h n (List.mem_cons_of_mem m hn)
      exact ⟨(ascii m.1, v) :: kvs, .cons ⟨hsound.name, hletter⟩ hp hkvs⟩

end Members

/-! ## Plain strings -/

theorem Piece.read_raw_of_plain {s : CStr} (h : Plain s) (b : Between) (name : CStr) :
    (Piece.raw name s).read b = some ⟨b.members ++ [(name, .str s)], b.around⟩ := by
  rw [Piece.read, Reader.run_str (run_of_plain h), Option.bind_some]
  rfl

def openings : List Piece → ℕ
  | [] => 0
  | .opens _ :: ps => openings ps + 1
  | .sound _ :: ps | .raw _ _ :: ps => openings ps

/-- Pieces whose strings are plain leave what was around the reader as it was. -/
theorem readPieces_of_plain {ps : List Piece} (h : ∀ s ∈ rawStrings ps, Plain s) (b : Between) :
    ∃ (ms : List (CStr × Json)) (objs : List (List (CStr × Json) × CStr)),
      readPieces b ps = some ⟨ms, objs.map objFrame ++ b.around⟩ ∧ objs.length = openings ps := by
  induction ps generalizing b with
  | nil => exact ⟨b.members, [], rfl, rfl⟩
  | cons p ps ih =>
    rw [readPieces_cons]
    cases p with
    | sound kv => exact ih h ⟨b.members ++ [kv], b.around⟩
    | raw name s =>
      obtain ⟨hs, hps⟩ := List.forall_mem_cons.mp h
      rw [Piece.read_raw_of_plain hs, Option.bind_some]
      exact ih hps ⟨b.members ++ [(name, .str s)], b.around⟩
    | opens name =>
      obtain ⟨ms, objs, hread, hlen⟩ := ih h ⟨[], .obj b.members name :: b.around⟩
      refine ⟨ms, objs ++ [(b.members, name)], ?_, ?_⟩
      · rw [Piece.read, Option.bind_some, hread, List.map_append, List.append_assoc]
        rfl
      · rw [List.length_append, hlen, List.length_singleton, openings]

/-! ## Lines -/

def IsLine (s : CStr) : Prop := ValidUtf8 s ∧ 10 ∉ s

theorem Clean.isLine {s : CStr} (h : Clean s) : IsLine s :=
  ⟨h.1, fun hmem ↦ absurd (h.2 10 hmem) (by decide)⟩

theorem isLine_append_cons_iff {b : UInt8} (hb : b < 128 ∧ b ≠ 10) (s t : CStr) :
    IsLine (s ++ b :: t) ↔ IsLine s ∧ IsLine t := by
  rw [IsLine, IsLine, IsLine, validUtf8_append_cons_iff hb.1, List.mem_append, List.mem_cons]
  have hne : (10 : UInt8) ≠ b := hb.2.symm
  tauto

theorem isLine_nil : IsLine [] := (clean_of_printable (by decide)).isLine

theorem isLine_quoted_iff (s : CStr) : IsLine (quoted s) ↔ IsLine s := by
  have hquote : (34 : UInt8) < 128 ∧ (34 : UInt8) ≠ 10 := by decide
  have hopen := isLine_append_cons_iff hquote [] (s ++ [34])
  rw [isLine_append_cons_iff hquote s []] at hopen
  exact hopen.trans ⟨fun h ↦ h.2.1, fun h ↦ ⟨isLine_nil, h, isLine_nil⟩⟩

theorem isLine_member_iff {name : String} (hname : Safe (ascii name)) (s : CStr) :
    IsLine (member name s) ↔ IsLine s := by
  rw [member, isLine_append_cons_iff (by decide), isLine_quoted_iff]
  exact and_iff_right hname.clean.isLine

theorem isLine_object_iff (ms : List (String × CStr)) :
    IsLine (object ms) ↔ IsLine (memberList ms) := by
  have hopen := isLine_append_cons_iff (b := 123) (by decide) [] (memberList ms ++ [125])
  rw [isLine_append_cons_iff (b := 125) (by decide) (memberList ms) []] at hopen
  exact hopen.trans ⟨fun h ↦ h.2.1, fun h ↦ ⟨isLine_nil, h, isLine_nil⟩⟩

theorem Composed.isLine_iff {depth : ℕ} {ps : List Piece} {ms : List (String × CStr)}
    (h : Composed depth ps ms) : IsLine (memberList ms) ↔ ∀ s ∈ rawStrings ps, IsLine s := by
  have hone : ∀ {p : Piece} {m : String × CStr}, Named m.1 → p.Prints m →
      (IsLine (member m.1 m.2) ↔ ∀ s ∈ rawStrings [p], IsLine s) := by
    intro p m hname hp
    rw [isLine_member_iff hname.1]
    cases hp with
    | sound hreads hclean => exact iff_of_true hclean.isLine fun s hs ↦ absurd hs List.not_mem_nil
    | raw name s =>
      rw [isLine_quoted_iff]
      exact (List.forall_mem_singleton (p := IsLine)).symm
  induction h with
  | last hname hp => exact hone hname hp
  | @opens depth ps ms name hname h ih =>
    rw [memberList, isLine_member_iff hname.1, isLine_object_iff]
    exact ih
  | @cons depth p ps m ms hname hp h ih =>
    have hsplit : rawStrings (p :: ps) = rawStrings [p] ++ rawStrings ps := by
      rw [rawStrings, rawStrings, rawStrings, ← List.filterMap_append, List.singleton_append]
    rw [memberList_cons_of_ne_nil h.ne_nil, isLine_append_cons_iff (by decide), hsplit,
      List.forall_mem_append]
    exact and_congr (hone hname hp) ih

end Json

end NetForensics
