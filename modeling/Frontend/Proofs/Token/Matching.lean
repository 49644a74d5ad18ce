import Frontend.Token.Rule
import Mathlib.Data.List.TakeWhile

/-! # What the rules match

A word or a number is matched up to the first character that cannot go on, a
string up to its closing quote, and anything else by its first two characters.
Hence what is matched does not depend on the text behind, except where a
comment is opened and not closed.
-/

namespace Frontend

namespace Matcher

variable {m m' : Matcher} {p : Char → Bool} {cs ds : List Char} {c : Char} {n : ℕ}

@[simp] theorem literal_nil (cs : List Char) : literal [] cs = some 0 := by cases cs <;> rfl

@[simp] theorem literal_cons_nil (c : Char) (text : List Char) :
    literal (c :: text) [] = none := rfl

@[simp] theorem literal_cons (c d : Char) (text cs : List Char) :
    literal (c :: text) (d :: cs) = if c = d then (literal text cs).map (· + 1) else none := by
  by_cases h : c = d
  · by_cases ht : text <+: cs <;> simp [literal, h, ht]
  · simp [literal, h]

theorem one_andThen (p : Char → Bool) (m : Matcher) (c : Char) (cs : List Char) :
    andThen (one p) m (c :: cs) = if p c then (m cs).map (1 + ·) else none := by
  by_cases h : p c = true <;> simp [andThen, one, h]

theorem literal_of_head {text : List Char} (ht : text.head?.any p = true) (hc : p c = false)
    (cs : List Char) : literal text (c :: cs) = none := by
  rcases text with _ | ⟨d, text⟩
  · cases ht
  · have hd : d ≠ c := by
      rintro rfl
      simp [hc] at ht
    simp [hd]

theorem many1_cons (p : Char → Bool) (c : Char) (cs : List Char) :
    many1 p (c :: cs) = if p c then some (1 + (cs.takeWhile p).length) else none := by
  rw [many1, one_andThen]
  rfl

theorem of_many1_cons (h : many1 p (c :: cs) = some n) :
    p c = true ∧ n = ((c :: cs).takeWhile p).length := by
  rw [many1_cons] at h
  split at h
  · rename_i hc
    cases h
    simp [hc, Nat.add_comm]
  · cases h

@[simp] theorem andThen_literal_nil (m : Matcher) (cs : List Char) :
    andThen (literal []) m cs = m cs := by
  cases h : m cs <;> simp [andThen, h]

@[simp] theorem andThen_literal_cons_nil (c : Char) (text : List Char) (m : Matcher) :
    andThen (literal (c :: text)) m [] = none := rfl

@[simp] theorem andThen_literal_cons (c d : Char) (text : List Char) (m : Matcher)
    (cs : List Char) : andThen (literal (c :: text)) m (d :: cs) =
      if c = d then (andThen (literal text) m cs).map (· + 1) else none := by
  by_cases h : c = d
  · cases hl : literal text cs with
    | none => simp [andThen, h, hl]
    | some n =>
      simp only [andThen, literal_cons, h, hl, if_pos, Option.map_some, List.drop_succ_cons,
        Option.map_map]
      congr 1
      funext k
      simp only [Function.comp_apply]
      omega
  · simp [andThen, h]

theorem of_andThen_literal_cons {d : Char} {text : List Char}
    (h : andThen (literal (d :: text)) m (c :: cs) = some n) :
    d = c ∧ ∃ k, andThen (literal text) m cs = some k ∧ n = k + 1 := by
  rw [andThen_literal_cons] at h
  split at h
  · obtain ⟨k, hk, rfl⟩ := Option.map_eq_some_iff.mp h
    exact ⟨‹_›, k, hk, rfl⟩
  · cases h

def Bounded (m : Matcher) : Prop := ∀ cs n, m cs = some n → n ≤ cs.length

theorem bounded_one (p : Char → Bool) : Bounded (one p) := by
  intro cs n h
  cases cs with
  | nil => cases h
  | cons c cs =>
    rw [one] at h
    split at h <;> cases h
    simp

theorem bounded_many (p : Char → Bool) : Bounded (many p) := by
  rintro cs _ ⟨⟩
  exact (List.takeWhile_prefix p).length_le

theorem bounded_literal (text : List Char) : Bounded (literal text) := by
  intro cs n h
  unfold literal at h
  split at h <;> cases h
  exact (List.isPrefixOf_iff_prefix.mp ‹_›).length_le

theorem bounded_through (text : List Char) : Bounded (through text) := by
  intro cs n h
  induction cs generalizing n with
  | nil => exact bounded_literal text _ _ h
  | cons c cs ih =>
    rw [through] at h
    split at h
    · cases h
      exact (List.isPrefixOf_iff_prefix.mp ‹_›).length_le
    · obtain ⟨n, hn, rfl⟩ := Option.map_eq_some_iff.mp h
      simpa using ih n hn

theorem bounded_notBefore (p : Char → Bool) : Bounded (notBefore p) := by
  intro cs n h
  cases cs with
  | nil => cases h; simp
  | cons c cs =>
    rw [notBefore] at h
    split at h <;> cases h
    simp

theorem Bounded.andThen (h : Bounded m) (h' : Bounded m') : Bounded (m.andThen m') := by
  intro cs n hn
  unfold Matcher.andThen at hn
  split at hn
  · cases hn
  · rename_i a ha
    obtain ⟨b, hb, rfl⟩ := Option.map_eq_some_iff.mp hn
    have := h _ _ ha
    have := h' _ _ hb
    rw [List.length_drop] at this
    omega

theorem Bounded.optional (h : Bounded m) : Bounded (Matcher.optional m) := by
  rintro cs n ⟨⟩
  cases hm : m cs with
  | none => simp
  | some n => exact h _ _ hm

theorem bounded_many1 (p : Char → Bool) : Bounded (many1 p) :=
  (bounded_one p).andThen (bounded_many p)

end Matcher

namespace Rule

open Matcher

theorem matchLength_anchored (kind : TokenKind) (m : Matcher) (cs : List Char) :
    (anchored kind m).matchLength cs = (m cs).filter (0 < ·) := by
  simp only [matchLength, anchored, Pattern.anchored]
  cases m cs with
  | none => rfl
  | some n => cases n <;> rfl

theorem length_le_of_matchLength {rule : Rule} (hr : rule ∈ table) {cs : List Char} {n : ℕ}
    (h : rule.matchLength cs = some n) : n ≤ cs.length := by
  have hb : ∃ kind m, rule = anchored kind m ∧ m.Bounded := by
    simp only [table, List.mem_append, List.mem_map] at hr
    rcases hr with (((hr | ⟨k, -, rfl⟩) | ⟨k, -, rfl⟩) | hr) | hr
    · simp only [layout, List.mem_cons, List.not_mem_nil, or_false] at hr
      rcases hr with rfl | rfl | rfl
      · exact ⟨_, _, rfl, bounded_many1 _⟩
      · exact ⟨_, _, rfl, (bounded_literal _).andThen (bounded_many _)⟩
      · exact ⟨_, _, rfl, (bounded_literal _).andThen (bounded_through _)⟩
    · exact ⟨_, _, rfl, bounded_literal _⟩
    · exact ⟨_, _, rfl, (bounded_literal _).andThen (bounded_notBefore _)⟩
    · simp only [operands, List.mem_cons, List.not_mem_nil, or_false] at hr
      rcases hr with rfl | rfl | rfl | rfl
      · exact ⟨_, _, rfl, bounded_many1 _⟩
      · exact ⟨_, _, rfl, (bounded_literal _).andThen (bounded_through _)⟩
      · exact ⟨_, _, rfl, (bounded_literal _).andThen (bounded_through _)⟩
      · exact ⟨_, _, rfl, bounded_many1 _⟩
    · simp only [operators, List.mem_cons, List.not_mem_nil, or_false] at hr
      rcases hr with rfl | rfl | rfl | rfl | rfl | rfl | rfl | rfl | rfl
      · exact ⟨_, _, rfl, (bounded_one _).andThen (bounded_literal _)⟩
      · exact ⟨_, _, rfl, bounded_literal _⟩
      · exact ⟨_, _, rfl, (bounded_one _).andThen (bounded_literal _)⟩
      · exact ⟨_, _, rfl, bounded_literal _⟩
      · exact ⟨_, _, rfl, bounded_literal _⟩
      · exact ⟨_, _, rfl, bounded_literal _⟩
      · exact ⟨_, _, rfl, (bounded_one _).andThen (bounded_literal _).optional⟩
      · exact ⟨_, _, rfl, bounded_one _⟩
      · exact ⟨_, _, rfl, bounded_one _⟩
  obtain ⟨kind, m, rfl, hm⟩ := hb
  rw [matchLength_anchored] at h
  exact hm _ _ (Option.filter_eq_some_iff.mp h).1

theorem length_le_of_firstMatch {cs : List Char} {kind : TokenKind} {n : ℕ}
    (h : firstMatch table cs = some (kind, n)) : n ≤ cs.length := by
  obtain ⟨rule, hr, h⟩ := List.exists_of_findSome?_eq_some h
  obtain ⟨n, hn, ⟨⟩⟩ := Option.map_eq_some_iff.mp h
  exact length_le_of_matchLength hr hn

theorem firstMatch_append (rules rules' : List Rule) (cs : List Char) :
    firstMatch (rules ++ rules') cs = (firstMatch rules cs).or (firstMatch rules' cs) :=
  List.findSome?_append

theorem firstMatch_eq_none_iff_forall {rules : List Rule} {cs : List Char} :
    firstMatch rules cs = none ↔ ∀ rule ∈ rules, rule.matchLength cs = none :=
  List.findSome?_eq_none_iff.trans (forall₂_congr fun _ _ => Option.map_eq_none_iff)

@[simp] theorem firstMatch_nil (cs : List Char) : firstMatch [] cs = none := rfl

theorem firstMatch_cons (kind : TokenKind) (m : Matcher) (rules : List Rule) (cs : List Char) :
    firstMatch (anchored kind m :: rules) cs =
      (((m cs).filter (0 < ·)).map (kind, ·)).or (firstMatch rules cs) := by
  unfold firstMatch
  rw [List.findSome?_cons, matchLength_anchored]
  cases (m cs).filter (0 < ·) <;> rfl

theorem firstMatch_map_eq_none {ks : List TokenKind} {m : TokenKind → Matcher} {cs : List Char}
    (h : ∀ k ∈ ks, m k cs = none) : firstMatch (ks.map fun k => anchored k (m k)) cs = none := by
  induction ks with
  | nil => rfl
  | cons k ks ih =>
    obtain ⟨hk, h⟩ := List.forall_mem_cons.mp h
    rw [List.map_cons, firstMatch_cons, hk, ih h]
    rfl

theorem firstMatch_punctuation (c : Char) (cs : List Char) :
    firstMatch (TokenKind.punctuation.map fun kind => exactly kind kind.name) (c :: cs) =
      firstMatch (TokenKind.punctuation.map fun kind => exactly kind kind.name) [c] := by
  simp [TokenKind.punctuation, exactly, firstMatch_cons, TokenKind.name]

theorem firstMatch_operators (c d : Char) (cs : List Char) :
    firstMatch operators (c :: d :: cs) = firstMatch operators [c, d] := by
  simp [operators, exactly, firstMatch_cons, oneOf, one, one_andThen, Matcher.optional]

theorem firstMatch_operators_of_ne {c d : Char} (h : d ≠ '=') (h' : d ≠ '&') (h'' : d ≠ '|')
    (cs : List Char) : firstMatch operators (c :: d :: cs) = firstMatch operators [c] := by
  simp [operators, exactly, firstMatch_cons, oneOf, one, one_andThen, Matcher.optional, h.symm,
    h'.symm, h''.symm]

theorem keyword_eq {name : List Char} (hn : name.all isWordChar = true) (cs : List Char) :
    andThen (literal name) (notBefore isWordChar) cs =
      if cs.takeWhile isWordChar = name then some name.length else none := by
  unfold andThen literal
  by_cases hp : name <+: cs
  · obtain ⟨rest, rfl⟩ := hp
    rw [List.takeWhile_append_of_pos (List.all_eq_true.mp hn)]
    rcases rest with _ | ⟨c, rest⟩
    · simp [notBefore]
    · by_cases hc : isWordChar c = true <;> simp [notBefore, hc]
  · have hne : cs.takeWhile isWordChar ≠ name := by
      rintro rfl
      exact hp (List.takeWhile_prefix _)
    simp [hp, hne]

def wordKind (word : List Char) : TokenKind :=
  (TokenKind.keywords.find? fun k => k.name.toList == word).getD .identifier

theorem firstMatch_keywords {ks : List TokenKind}
    (hk : ∀ k ∈ ks, k.name.toList.all isWordChar = true)
    {cs : List Char} (hcs : cs.takeWhile isWordChar ≠ []) :
    firstMatch (ks.map keyword) cs =
      (ks.find? fun k => k.name.toList == cs.takeWhile isWordChar).map
        (·, (cs.takeWhile isWordChar).length) := by
  induction ks with
  | nil => rfl
  | cons k ks ih =>
    obtain ⟨hk₁, hk⟩ := List.forall_mem_cons.mp hk
    rw [List.map_cons, keyword, firstMatch_cons, keyword_eq hk₁, ih hk, List.find?_cons]
    by_cases he : cs.takeWhile isWordChar = k.name.toList
    · rw [he] at hcs
      have hpos := List.length_pos_iff.mpr hcs
      simp [he, Option.filter, hpos]
    · have hne : (k.name.toList == cs.takeWhile isWordChar) = false := by simpa using Ne.symm he
      simp [he, hne]

end Rule
end Frontend
