import Mathlib.Data.List.Basic
import Frontend.Text.Lines

/-! # Places in a text

The lines of a text are the pieces that its newlines end, and what is behind the last of these.
Every byte lies in one of them, behind the newlines of those before it. The end of the text lies
in the last one.
-/

namespace Frontend.Text

variable {cs : List Char} {ls : List (List Char)} {n p q : ℕ} {place : Place}

/-- Pieces without newlines that each end in one, and maybe a last one that does not. -/
inductive AreLines : List (List Char) → Prop where

  | nil : AreLines []

  | unended {line : List Char} : line ≠ [] → '\n' ∉ line → AreLines [line]

  | cons {line : List Char} {ls : List (List Char)} : '\n' ∉ line → AreLines ls →
      AreLines ((line ++ ['\n']) :: ls)

theorem AreLines.cons_char {c : Char} {line : List Char} (hc : c ≠ '\n')
    (h : AreLines (line :: ls)) : AreLines ((c :: line) :: ls) := by
  cases h with
  | unended _ hn => exact .unended (by simp) (by simp [hc.symm, hn])
  | @cons line _ hn h =>
    have hbody : '\n' ∉ c :: line := by simp [hc.symm, hn]
    exact .cons hbody h

theorem areLines_lines (cs : List Char) : AreLines (lines cs) := by
  induction cs with
  | nil => exact .nil
  | cons c cs ih =>
    rw [lines]
    split
    · rename_i hc
      have hempty : '\n' ∉ ([] : List Char) := List.not_mem_nil
      exact hc ▸ .cons hempty ih
    · rename_i hc
      split
      · exact .unended (by simp) (by simpa using Ne.symm hc)
      · rename_i line ls hl
        exact (hl ▸ ih).cons_char hc

@[simp] theorem flatten_lines (cs : List Char) : (lines cs).flatten = cs := by
  induction cs with
  | nil => rfl
  | cons c cs ih =>
    rw [lines]
    split
    · simp [ih]
    · split <;> rename_i hl <;> rw [hl] at ih <;> simp_all

theorem AreLines.exists_ended {line : List Char} (h : AreLines (line :: ls)) (hl : ls ≠ []) :
    ∃ body, line = body ++ ['\n'] ∧ '\n' ∉ body ∧ AreLines ls := by
  cases h with
  | unended => exact absurd rfl hl
  | cons hn h => exact ⟨_, rfl, hn, h⟩

theorem AreLines.ne_nil_and_not_mem {line : List Char} (h : AreLines (line :: ls)) :
    line ≠ [] ∧ '\n' ∉ line.dropLast := by
  cases h with
  | unended hne hn => exact ⟨hne, fun hm => hn (List.dropLast_subset _ hm)⟩
  | cons hn _ => exact ⟨by simp, by simpa using hn⟩

def IsBroken (cs : List Char) : Prop := cs = [] ∨ ∃ front, cs = front ++ ['\n']

/-- A line of a text: what is before it ends in a newline, and so does the line itself unless
nothing is behind it. No other newline is in the line. -/
structure IsLine (before line after : List Char) : Prop where
  isBroken : IsBroken before
  ne_nil : line ≠ []
  not_mem_dropLast : '\n' ∉ line.dropLast
  getLast?_eq : after ≠ [] → line.getLast? = some '\n'

theorem AreLines.isLine {before after : List (List Char)} {line : List Char}
    (h : AreLines (before ++ line :: after)) :
    IsLine before.flatten line after.flatten ∧ before.flatten.count '\n' = before.length := by
  induction before with
  | nil =>
    refine ⟨⟨.inl rfl, h.ne_nil_and_not_mem.1, h.ne_nil_and_not_mem.2, fun hne => ?_⟩, rfl⟩
    obtain ⟨body, rfl, -⟩ := h.exists_ended (by rintro rfl; exact hne rfl)
    simp
  | cons first before ih =>
    obtain ⟨body, rfl, hbody, h⟩ := h.exists_ended (by simp)
    obtain ⟨⟨hbroken, hne, hline, hlast⟩, hcount⟩ := ih h
    refine ⟨⟨.inr ?_, hne, hline, hlast⟩, ?_⟩
    · obtain hnil | ⟨front, hfront⟩ := hbroken
      · exact ⟨body, by simp [hnil]⟩
      · exact ⟨body ++ ['\n'] ++ front, by simp [hfront]⟩
    · have hzero : body.count '\n' = 0 := List.count_eq_zero.mpr hbody
      simp [hcount, hzero]

/-- A byte of some lines lies in one of them, behind the lines that end before it. -/
theorem exists_placeWithin (h : p < size ls.flatten) : ∃ before line after column,
    ls = before ++ line :: after ∧ p = size before.flatten + column ∧ column < size line ∧
      placeWithin n ls p = some ⟨n + before.length, line, column⟩ := by
  induction ls generalizing n p with
  | nil => simp at h
  | cons first ls ih =>
    rw [placeWithin]
    split
    · exact ⟨[], first, ls, p, rfl, by simp, ‹_›, rfl⟩
    · rename_i hge
      rw [List.flatten_cons, size_append] at h
      obtain ⟨before, line, after, column, rfl, hp, hc, hplace⟩ :=
        ih (n := n + 1) (p := p - size first) (by omega)
      refine ⟨first :: before, line, after, column, rfl, ?_, hc, ?_⟩
      · rw [List.flatten_cons, size_append]
        omega
      · rw [hplace, List.length_cons, Nat.add_assoc, Nat.add_comm 1]

theorem placeWithin_eq_none (h : size ls.flatten ≤ p) : placeWithin n ls p = none := by
  induction ls generalizing n p with
  | nil => rfl
  | cons line ls ih =>
    rw [List.flatten_cons, size_append] at h
    rw [placeWithin, if_neg (by omega)]
    exact ih (by omega)

theorem lt_of_placeWithin (h : placeWithin n ls p = some place) : p < size ls.flatten := by
  by_contra hge
  cases h.symm.trans (placeWithin_eq_none (Nat.not_lt.mp hge))

theorem line_of_placeWithin (h : placeWithin n ls p = some place) :
    n ≤ place.line ∧ place.line < n + ls.length := by
  obtain ⟨before, line, after, column, rfl, -, -, hplace⟩ :=
    exists_placeWithin (n := n) (lt_of_placeWithin h)
  cases hplace.symm.trans h
  simp

theorem placeWithin_mono {a b : Place} (hpq : p ≤ q) (ha : placeWithin n ls p = some a)
    (hb : placeWithin n ls q = some b) : a.line ≤ b.line := by
  induction ls generalizing n p q with
  | nil => cases ha
  | cons line ls ih =>
    rw [placeWithin] at ha hb
    split at ha <;> split at hb
    · cases ha
      cases hb
      exact Nat.le_refl _
    · cases ha
      exact Nat.le_of_succ_le (line_of_placeWithin hb).1
    · omega
    · exact ih (by omega) ha hb

/-- A byte lies in a line, as many bytes behind the beginning of the line as the column says. -/
def IsPlace (cs : List Char) (p : ℕ) (place : Place) : Prop :=
  ∃ before after, cs = before ++ place.text ++ after ∧ IsLine before place.text after ∧
    place.line = 1 + before.count '\n' ∧ p = size before + place.column ∧
      place.column < size place.text

/-- What a line may end in. -/
def IsEnding (line ending : List Char) : Prop :=
  ending = [] ∨ ending = ['\r', '\n'] ∨ ending = ['\n'] ∧ line.getLast? ≠ some '\r'

/-- The end of a text lies behind its last line, which is counted even if it is empty. -/
def IsEndPlace (cs : List Char) (place : Place) : Prop :=
  ∃ before ending, cs = before ++ place.text ++ ending ∧ IsBroken before ∧ '\n' ∉ place.text ∧
    IsEnding place.text ending ∧ (place.text ++ ending = [] → cs = []) ∧
      place.line = 1 + before.count '\n' ∧ place.column = size place.text

theorem isPlace_of_placeWithin (h : placeWithin 1 (lines cs) p = some place) :
    IsPlace cs p place := by
  obtain ⟨before, line, after, column, hl, hp, hc, hplace⟩ :=
    exists_placeWithin (n := 1) (lt_of_placeWithin h)
  cases hplace.symm.trans h
  obtain ⟨hline, hcount⟩ := (hl ▸ areLines_lines cs).isLine
  refine ⟨before.flatten, after.flatten, ?_, hline, by rw [hcount], hp, hc⟩
  rw [← flatten_lines cs, hl]
  simp

theorem exists_ending {line : List Char} (hn : '\n' ∉ line.dropLast) :
    ∃ ending, line = withoutEnding line ++ ending ∧ '\n' ∉ withoutEnding line ∧
      IsEnding (withoutEnding line) ending := by
  unfold withoutEnding
  split
  · rename_i front h
    obtain rfl : line = front.reverse ++ ['\r', '\n'] := by simpa using congrArg List.reverse h
    exact ⟨_, rfl, fun hm => hn (by simp_all), .inr (.inl rfl)⟩
  · rename_i front hr h
    obtain rfl : line = front.reverse ++ ['\n'] := by simpa using congrArg List.reverse h
    refine ⟨_, rfl, by simpa using hn, .inr (.inr ⟨rfl, fun hl => ?_⟩)⟩
    rw [List.getLast?_reverse] at hl
    obtain ⟨front, rfl⟩ := List.head?_eq_some_iff.mp hl
    exact hr front rfl
  · rename_i _ hr
    refine ⟨[], by simp, fun hm => ?_, .inl rfl⟩
    obtain rfl | ⟨front, c, rfl⟩ := List.eq_nil_or_concat' line
    · cases hm
    · rw [List.dropLast_concat] at hn
      obtain rfl : '\n' = c := by simpa [hn] using hm
      exact hr front.reverse (by simp)

theorem isEndPlace_endPlace (cs : List Char) : IsEndPlace cs (endPlace cs) := by
  unfold endPlace
  obtain hnil | ⟨before, last, hl⟩ := List.eq_nil_or_concat' (lines cs)
  · obtain rfl : cs = [] := by rw [← flatten_lines cs, hnil]; rfl
    exact ⟨[], [], rfl, .inl rfl, nofun, .inl rfl, fun _ => rfl, rfl, rfl⟩
  · have hlines := hl ▸ areLines_lines cs
    obtain ⟨⟨hbroken, hne, hn, -⟩, hcount⟩ := hlines.isLine
    obtain ⟨ending, hlast, hw, he⟩ := exists_ending hn
    rw [hl, List.getLast?_concat, Option.getD_some]
    refine ⟨before.flatten, ending, ?_, hbroken, hw, he,
      fun h => absurd (hlast.trans h) hne, ?_, rfl⟩
    · rw [List.append_assoc, ← hlast, ← flatten_lines cs, hl]
      simp
    · change max 1 (before ++ [last]).length = _
      rw [hcount, List.length_append, List.length_singleton]
      omega

theorem placeAt_of_lt (h : p < size cs) : placeAt cs p = placeWithin 1 (lines cs) p := by
  have hp : p < size (lines cs).flatten := by rwa [flatten_lines]
  obtain ⟨_, _, _, _, -, -, -, hplace⟩ := exists_placeWithin (n := 1) hp
  rw [placeAt, if_neg (by omega), hplace]
  rfl

theorem placeAt_size (cs : List Char) : placeAt cs (size cs) = some (endPlace cs) := by
  have hnone : placeWithin 1 (lines cs) (size cs) = none :=
    placeWithin_eq_none (by simp)
  rw [placeAt, if_neg (Nat.lt_irrefl _), hnone]
  rfl

theorem exists_placeAt (h : p < size cs) :
    ∃ place, placeAt cs p = some place ∧ IsPlace cs p place := by
  have hp : p < size (lines cs).flatten := by rwa [flatten_lines]
  obtain ⟨_, _, _, _, -, -, -, hplace⟩ := exists_placeWithin (n := 1) hp
  exact ⟨_, (placeAt_of_lt h).trans hplace, isPlace_of_placeWithin hplace⟩

theorem placeAt_eq_none_iff : placeAt cs p = none ↔ size cs < p := by
  rw [placeAt]
  split <;> simp_all

theorem line_le_of_placeAt (h : placeAt cs p = some place) :
    place.line ≤ max 1 (lines cs).length := by
  rcases Nat.lt_trichotomy p (size cs) with hlt | rfl | hgt
  · rw [placeAt_of_lt hlt] at h
    have := (line_of_placeWithin h).2
    omega
  · rw [placeAt_size] at h
    cases h
    exact Nat.le_refl _
  · cases h.symm.trans (placeAt_eq_none_iff.mpr hgt)

theorem placeAt_mono {a b : Place} (hpq : p ≤ q) (ha : placeAt cs p = some a)
    (hb : placeAt cs q = some b) : a.line ≤ b.line := by
  rcases Nat.lt_trichotomy q (size cs) with hlt | rfl | hgt
  · rw [placeAt_of_lt hlt] at hb
    rw [placeAt_of_lt (by omega)] at ha
    exact placeWithin_mono hpq ha hb
  · rw [placeAt_size] at hb
    cases hb
    exact line_le_of_placeAt ha
  · cases hb.symm.trans (placeAt_eq_none_iff.mpr hgt)

/-- Every byte of a text has a place in its line and the end of the text one behind the last line.
What is behind the end has none. Later places are in later lines or in the same one. -/
theorem placeAt_locates (cs : List Char) :
    (∀ p, placeAt cs p = none ↔ size cs < p) ∧
    (∀ p, p < size cs → ∃ place, placeAt cs p = some place ∧ IsPlace cs p place) ∧
    (∃ place, placeAt cs (size cs) = some place ∧ IsEndPlace cs place ∧
      place.line = max 1 (lines cs).length) ∧
    ∀ p q a b, p ≤ q → placeAt cs p = some a → placeAt cs q = some b → a.line ≤ b.line := by
  exact ⟨fun p => placeAt_eq_none_iff, fun p => exists_placeAt,
    ⟨_, placeAt_size cs, isEndPlace_endPlace cs, rfl⟩, fun p q a b => placeAt_mono⟩

theorem placeAt_locates_letters :
    let cs := ['é', '\r', '\n', '\n', 'x', '\r', '\n']
    placeAt cs 1 = some ⟨1, ['é', '\r', '\n'], 1⟩ ∧ IsPlace cs 1 ⟨1, ['é', '\r', '\n'], 1⟩ ∧
    placeAt cs 4 = some ⟨2, ['\n'], 0⟩ ∧ IsPlace cs 4 ⟨2, ['\n'], 0⟩ ∧
    placeAt cs 8 = some ⟨3, ['x'], 1⟩ ∧ IsEndPlace cs ⟨3, ['x'], 1⟩ ∧ placeAt cs 9 = none := by
  intro cs
  have h := placeAt_locates cs
  have hplace : ∀ p place, p < size cs → placeAt cs p = some place → IsPlace cs p place := by
    intro p place hp hat
    obtain ⟨place', hat', hplace⟩ := h.2.1 p hp
    cases hat.symm.trans hat'
    exact hplace
  have hletter : placeAt cs 1 = some ⟨1, ['é', '\r', '\n'], 1⟩ := by decide
  have hempty : placeAt cs 4 = some ⟨2, ['\n'], 0⟩ := by decide
  have hlast : placeAt cs 8 = some ⟨3, ['x'], 1⟩ := by decide
  obtain ⟨place, hat, hend, -⟩ := h.2.2.1
  cases hlast.symm.trans hat
  exact ⟨hletter, hplace 1 _ (by decide) hletter, hempty, hplace 4 _ (by decide) hempty, hlast,
    hend, (h.1 9).mpr (by decide)⟩

end Frontend.Text
