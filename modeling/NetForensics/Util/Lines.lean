import Mathlib.Data.List.TakeWhile
import Mathlib.Tactic

/-!
# Cutting a stream at a delimiter

`splitLines` is the meaning of a delimited stream: the pieces that are complete, and the piece that
is not. A reader that takes the stream in parts keeps only the incomplete piece between them;
`splitLines_append` says that nothing else is needed.

A reader with a bounded buffer gives up at the first piece that does not fit. `framed` are the
pieces before it, and they do not depend on what follows it in the stream.
-/

namespace NetForensics

variable {α : Type*} [DecidableEq α]

/-- The pieces that end at a delimiter, and what follows the last of them. -/
def splitLines (d : α) : List α → List (List α) × List α
  | [] => ([], [])
  | b :: s =>
    if b = d then ([] :: (splitLines d s).1, (splitLines d s).2)
    else
      match (splitLines d s).1 with
      | [] => ([], b :: (splitLines d s).2)
      | l :: ls => ((b :: l) :: ls, (splitLines d s).2)

/-- The first piece and what follows its delimiter, as with `memchr`. -/
def cutLine (d : α) (s : List α) : Option (List α × List α) :=
  if d ∈ s then some (s.takeWhile (· ≠ d), (s.dropWhile (· ≠ d)).tail) else none

variable {d : α}

theorem splitLines_of_notMem {s : List α} (h : d ∉ s) : splitLines d s = ([], s) := by
  induction s with
  | nil => rfl
  | cons b s ih =>
    obtain ⟨hb, hs⟩ := not_or.mp (mt List.mem_cons.mpr h)
    rw [splitLines, if_neg (Ne.symm hb), ih hs]

theorem splitLines_append_cons {l : List α} (h : d ∉ l) (s : List α) :
    splitLines d (l ++ d :: s) = (l :: (splitLines d s).1, (splitLines d s).2) := by
  induction l with
  | nil => rw [List.nil_append, splitLines, if_pos rfl]
  | cons b l ih =>
    obtain ⟨hb, hl⟩ := not_or.mp (mt List.mem_cons.mpr h)
    rw [List.cons_append, splitLines, if_neg (Ne.symm hb), ih hl]

/-- The incomplete piece stands for all that came before the next part. -/
theorem splitLines_append (s t : List α) :
    splitLines d (s ++ t) = ((splitLines d s).1 ++ (splitLines d ((splitLines d s).2 ++ t)).1,
      (splitLines d ((splitLines d s).2 ++ t)).2) := by
  induction s with
  | nil => rfl
  | cons b s ih =>
    rw [List.cons_append, splitLines, splitLines, ih]
    by_cases hb : b = d
    · rw [if_pos hb, if_pos hb]
      rfl
    · rw [if_neg hb, if_neg hb]
      cases (splitLines d s).1 with
      | nil =>
        rw [List.nil_append, List.nil_append, List.cons_append, splitLines, if_neg hb]
      | cons l ls => rfl

theorem notMem_splitLines_snd (s : List α) : d ∉ (splitLines d s).2 := by
  induction s with
  | nil => exact List.not_mem_nil
  | cons b s ih =>
    rw [splitLines]
    by_cases hb : b = d
    · rw [if_pos hb]
      exact ih
    · rw [if_neg hb]
      cases (splitLines d s).1 with
      | nil =>
        rw [List.mem_cons]
        exact not_or.mpr ⟨Ne.symm hb, ih⟩
      | cons l ls => exact ih

theorem length_lt_of_mem_splitLines {s l : List α} (h : l ∈ (splitLines d s).1) :
    l.length < s.length := by
  induction s generalizing l with
  | nil => exact absurd h List.not_mem_nil
  | cons b s ih =>
    rw [splitLines] at h
    rw [List.length_cons]
    by_cases hb : b = d
    · rw [if_pos hb] at h
      rcases List.mem_cons.mp h with rfl | hl
      · exact Nat.succ_pos _
      · exact (ih hl).trans (Nat.lt_succ_self _)
    · rw [if_neg hb] at h
      cases hls : (splitLines d s).1 with
      | nil =>
        rw [hls] at h
        exact absurd h List.not_mem_nil
      | cons l' ls =>
        rw [hls] at h ih
        rcases List.mem_cons.mp h with rfl | hl
        · exact Nat.succ_lt_succ (ih List.mem_cons_self)
        · exact (ih (List.mem_cons_of_mem l' hl)).trans (Nat.lt_succ_self _)

/-! ## In front of the first delimiter -/

theorem takeWhile_of_notMem {s : List α} (h : d ∉ s) : s.takeWhile (· ≠ d) = s :=
  List.takeWhile_eq_self_iff.mpr fun _ ha ↦ decide_eq_true (ne_of_mem_of_not_mem ha h)

theorem dropWhile_of_notMem {s : List α} (h : d ∉ s) : s.dropWhile (· ≠ d) = [] :=
  List.dropWhile_eq_nil_iff.mpr fun _ ha ↦ decide_eq_true (ne_of_mem_of_not_mem ha h)

theorem takeWhile_append_cons {s : List α} (h : d ∉ s) (t : List α) :
    (s ++ d :: t).takeWhile (· ≠ d) = s := by
  rw [List.takeWhile_append_of_pos fun _ ha ↦ decide_eq_true (ne_of_mem_of_not_mem ha h),
    List.takeWhile_cons_of_neg (by simp), List.append_nil]

theorem dropWhile_append_cons {s : List α} (h : d ∉ s) (t : List α) :
    (s ++ d :: t).dropWhile (· ≠ d) = d :: t := by
  rw [List.dropWhile_append_of_pos fun _ ha ↦ decide_eq_true (ne_of_mem_of_not_mem ha h),
    List.dropWhile_cons_of_neg (by simp)]

theorem idxOf?_append_cons {s : List α} (h : d ∉ s) (t : List α) :
    (s ++ d :: t).idxOf? d = some s.length := by
  induction s with
  | nil => rw [List.nil_append, List.idxOf?_cons, if_pos (by simp), List.length_nil]
  | cons a s ih =>
    obtain ⟨ha, hs⟩ := not_or.mp (mt List.mem_cons.mpr h)
    rw [List.cons_append, List.idxOf?_cons, if_neg (by simpa using Ne.symm ha), ih hs,
      Option.map_some, List.length_cons]

theorem exists_cut (d : α) (s : List α) :
    ∃ l r, s = l ++ r ∧ d ∉ l ∧ (r = [] ∨ ∃ t, r = d :: t) := by
  by_cases hd : d ∈ s
  · obtain ⟨l, t, rfl, hl⟩ := List.eq_append_cons_of_mem hd
    exact ⟨l, d :: t, rfl, hl, .inr ⟨t, rfl⟩⟩
  · exact ⟨s, [], (List.append_nil s).symm, hd, .inl rfl⟩

/-- Where a list is cut that ends before the delimiter or goes on with it. -/
theorem cut_append {l r : List α} (hl : d ∉ l) (hr : r = [] ∨ ∃ t, r = d :: t) :
    (l ++ r).takeWhile (· ≠ d) = l ∧ (l ++ r).dropWhile (· ≠ d) = r := by
  rcases hr with rfl | ⟨t, rfl⟩
  · rw [List.append_nil]
    exact ⟨takeWhile_of_notMem hl, dropWhile_of_notMem hl⟩
  · exact ⟨takeWhile_append_cons hl t, dropWhile_append_cons hl t⟩

theorem cutLine_eq_some {s l r : List α} (h : cutLine d s = some (l, r)) :
    d ∉ l ∧ s = l ++ d :: r := by
  rw [cutLine] at h
  split_ifs at h with hd
  obtain ⟨as, bs, rfl, has⟩ := List.eq_append_cons_of_mem hd
  rw [takeWhile_append_cons has, dropWhile_append_cons has, List.tail_cons, Option.some_inj] at h
  obtain ⟨rfl, rfl⟩ := Prod.mk.inj h
  exact ⟨has, rfl⟩

theorem cutLine_append_cons {l : List α} (h : d ∉ l) (r : List α) :
    cutLine d (l ++ d :: r) = some (l, r) := by
  rw [cutLine, if_pos (List.mem_append_right l List.mem_cons_self), takeWhile_append_cons h,
    dropWhile_append_cons h, List.tail_cons]

theorem cutLine_eq_none {s : List α} (h : cutLine d s = none) : d ∉ s := by
  rw [cutLine] at h
  split_ifs at h with hd
  exact hd

/-! ## A bounded reader -/

/-- The pieces before the first one of `lim` elements or more. -/
def framed (d : α) (lim : ℕ) (s : List α) : List (List α) :=
  (splitLines d s).1.takeWhile fun l ↦ l.length < lim

/-- Some piece, complete or not, has `lim` elements or more. -/
def Overlong (d : α) (lim : ℕ) (s : List α) : Prop :=
  (∃ l ∈ (splitLines d s).1, lim ≤ l.length) ∨ lim ≤ (splitLines d s).2.length

variable {lim : ℕ}

theorem framed_of_short {s : List α} (h : ∀ l ∈ (splitLines d s).1, l.length < lim) :
    framed d lim s = (splitLines d s).1 :=
  List.takeWhile_eq_self_iff.mpr fun l hl ↦ decide_eq_true (h l hl)

/-- Whatever is appended to an incomplete piece, the first piece starts with it. -/
theorem prefix_of_splitLines_cons {r t l : List α} {ls : List (List α)} (hr : d ∉ r)
    (h : (splitLines d (r ++ t)).1 = l :: ls) : r <+: l := by
  induction r generalizing l ls with
  | nil => exact List.nil_prefix
  | cons b r ih =>
    obtain ⟨hb, hr'⟩ := not_or.mp (mt List.mem_cons.mpr hr)
    rw [List.cons_append, splitLines, if_neg (Ne.symm hb)] at h
    cases hls : (splitLines d (r ++ t)).1 with
    | nil =>
      rw [hls] at h
      exact absurd h (List.cons_ne_nil l ls).symm
    | cons l' ls' =>
      rw [hls] at h
      have hl : b :: l' = l := (List.cons.inj h).1
      rw [← hl]
      exact List.cons_prefix_cons.mpr ⟨rfl, ih hr' hls⟩

/-- What comes after a piece that does not fit has no influence. -/
theorem framed_append_of_overlong {s : List α} (h : Overlong d lim s) (t : List α) :
    framed d lim (s ++ t) = framed d lim s := by
  rw [framed, framed, splitLines_append]
  by_cases hls : ∃ l ∈ (splitLines d s).1, lim ≤ l.length
  · obtain ⟨l, hl, hlong⟩ := hls
    rw [List.takeWhile_append, if_neg]
    intro hlen
    have hself := (List.takeWhile_prefix _).eq_of_length hlen
    have hshort := List.takeWhile_eq_self_iff.mp hself l hl
    exact absurd (of_decide_eq_true hshort) (by omega)
  · have hrest := h.resolve_left hls
    push Not at hls
    have hall : ∀ l ∈ (splitLines d s).1, decide (l.length < lim) = true :=
      fun l hl ↦ decide_eq_true (hls l hl)
    rw [List.takeWhile_append_of_pos hall, List.takeWhile_eq_self_iff.mpr hall]
    -- the next piece starts with the incomplete one
    have hnext : ((splitLines d ((splitLines d s).2 ++ t)).1.takeWhile
        fun l ↦ decide (l.length < lim)) = [] := by
      cases hp : (splitLines d ((splitLines d s).2 ++ t)).1 with
      | nil => rfl
      | cons l ls =>
        have hle := (prefix_of_splitLines_cons (notMem_splitLines_snd s) hp).length_le
        rw [List.takeWhile_cons_of_neg]
        simpa using hrest.trans hle
    rw [hnext, List.append_nil]

end NetForensics
