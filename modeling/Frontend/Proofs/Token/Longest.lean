import Frontend.Proofs.Token.Spelling
import Mathlib.Order.Bounds.Basic

/-! # The longest match

Rules that match where a character stands mostly take the same. Of the signs, no text that comes
earlier in the table is the beginning of a later one. Hence the first rule that matches takes the
most, unless a number stands in front of letters.
-/

namespace Frontend

theorem Text.size_take_le {cs : List Char} {m n : ℕ} (h : m ≤ n) :
    size (cs.take m) ≤ size (cs.take n) := by
  obtain ⟨more, hmore⟩ := List.take_prefix_take_left (l := cs) h
  rw [← hmore, size_append]
  exact Nat.le_add_right _ _

namespace Rule

open Matcher

variable {c : Char} {cs : List Char} {rule : Rule} {rules : List Rule} {kind : TokenKind} {m n : ℕ}

theorem exists_firstMatch (hr : rule ∈ rules) (h : rule.matchLength cs = some m) :
    ∃ kind n, firstMatch rules cs = some (kind, n) := by
  cases hf : firstMatch rules cs with
  | none =>
    cases (firstMatch_eq_none_iff_forall.mp hf rule hr).symm.trans h
  | some found => exact ⟨found.1, found.2, rfl⟩

theorem exists_first {R : Rule → Rule → Prop} (hR : rules.Pairwise R)
    (h : firstMatch rules cs = some (kind, n)) :
    ∃ first ∈ rules, first.kind = kind ∧ first.matchLength cs = some n ∧
      ∀ rule ∈ rules, ∀ m, rule.matchLength cs = some m → rule = first ∨ R first rule := by
  obtain ⟨before, first, after, rfl, hf, hbefore⟩ := List.findSome?_eq_some_iff.mp h
  obtain ⟨n, hn, ⟨⟩⟩ := Option.map_eq_some_iff.mp hf
  refine ⟨first, by simp, rfl, hn, fun rule hr m hm => ?_⟩
  rcases List.mem_append.mp hr with hr | hr
  · have hnone := hbefore rule hr
    rw [hm] at hnone
    cases hnone
  · rcases List.mem_cons.mp hr with rfl | hr
    · exact .inl rfl
    · exact .inr (List.rel_of_pairwise_cons (List.pairwise_append.mp hR).2.1 hr)

def signs : List Rule := TokenKind.punctuation.map (fun kind => exactly kind kind.name) ++ operators

theorem isSpelled_signs (h : rule ∈ signs) : rule.IsSpelled := by
  rcases List.mem_append.mp h with h | h
  · exact isSpelled_punctuation rule h
  · exact isSpelled_operators rule h

theorem mem_table_of_signs (h : rule ∈ signs) : rule ∈ table := by
  simp only [signs, table, List.mem_append] at h ⊢
  tauto

theorem pairwise_signs : signs.Pairwise fun rule rule' =>
    ∀ text ∈ rule.kind.spellings, ∀ text' ∈ rule'.kind.spellings,
      text.toList <+: text'.toList → text = text' := by
  have hkinds : (signs.map Rule.kind).Pairwise fun k k' => ∀ text ∈ k.spellings,
      ∀ text' ∈ k'.spellings, text.toList <+: text'.toList → text = text' := by
    decide +kernel
  exact List.pairwise_map.mp hkinds

theorem le_of_firstMatch_signs (h : firstMatch signs cs = some (kind, n)) (hr : rule ∈ signs)
    (hm : rule.matchLength cs = some m) : m ≤ n := by
  obtain ⟨first, hf, -, hn, hfirst⟩ := exists_first pairwise_signs h
  rcases hfirst rule hr m hm with rfl | hR
  · cases hn.symm.trans hm
    exact le_rfl
  · by_contra hlt
    have hprefix : (String.ofList (cs.take n)).toList <+: (String.ofList (cs.take m)).toList := by
      simpa using List.take_prefix_take_left (l := cs) (by omega : n ≤ m)
    have he := hR _ ((isSpelled_signs hf).take_mem hn) _ ((isSpelled_signs hr).take_mem hm) hprefix
    have hlen := congrArg (fun text => text.toList.length) he
    have := length_le_of_matchLength (mem_table_of_signs hf) hn
    have := length_le_of_matchLength (mem_table_of_signs hr) hm
    simp only [String.toList_ofList, List.length_take] at hlen
    omega

theorem isSymbol_of_signs (hr : rule ∈ signs) (h : rule.matchLength (c :: cs) = some m) :
    isSymbol c = true ∧ m ≤ 2 := by
  have hsigns : ∀ k ∈ signs.map Rule.kind, ∀ text ∈ k.spellings,
      text.toList.head?.any isSymbol = true ∧ text.toList.length ≤ 2 := by
    decide +kernel
  obtain ⟨m, rfl⟩ := Nat.exists_eq_add_one.mpr (matchLength_pos h)
  have hle := length_le_of_matchLength (mem_table_of_signs hr) h
  have htake := hsigns _ (List.mem_map_of_mem hr) _ ((isSpelled_signs hr).take_mem h)
  simpa [Nat.min_eq_left (Nat.le_of_succ_le_succ hle)] using htake

theorem firstMatch_layout_of_matchLength (hr : rule ∈ layout)
    (h : rule.matchLength (c :: cs) = some m) : firstMatch layout (c :: cs) = some (.skip, m) := by
  simp only [layout, List.mem_cons, List.not_mem_nil, or_false] at hr
  rcases hr with rfl | rfl | rfl <;> rw [matchLength_anchored] at h
  · rw [layout, firstMatch_cons, h]
    rfl
  · obtain ⟨rfl, -⟩ := of_andThen_literal_cons (Option.filter_eq_some_iff.mp h).1
    rw [layout, firstMatch_cons, firstMatch_cons, h]
    rfl
  · obtain ⟨rfl, k, hk, -⟩ := of_andThen_literal_cons (Option.filter_eq_some_iff.mp h).1
    obtain _ | ⟨d, cs⟩ := cs
    · cases hk
    · obtain ⟨rfl, -⟩ := of_andThen_literal_cons hk
      rw [layout, firstMatch_cons, firstMatch_cons, firstMatch_cons, h]
      simp [many1_cons, isBlank]

def comments : List Rule :=
  [anchored .skip (andThen (literal ['/', '/']) (many (· != '\n'))),
    anchored .skip (andThen (literal ['/', '*']) (through ['*', '/']))]

theorem comment_of_layout (hr : rule ∈ layout) (hb : isBlank c = false)
    (h : rule.matchLength (c :: cs) = some m) :
    rule ∈ comments ∧ 2 ≤ m ∧ ∃ d ds, c :: cs = '/' :: d :: ds ∧ (d = '/' ∨ d = '*') := by
  have hopen (d : Char) (f : Matcher) (h : (anchored .skip
      (andThen (literal ['/', d]) f)).matchLength (c :: cs) = some m) :
      2 ≤ m ∧ ∃ ds, c :: cs = '/' :: d :: ds := by
    rw [matchLength_anchored] at h
    obtain ⟨rfl, k, hk, rfl⟩ := of_andThen_literal_cons (Option.filter_eq_some_iff.mp h).1
    obtain _ | ⟨d', ds⟩ := cs
    · cases hk
    · obtain ⟨rfl, k, -, rfl⟩ := of_andThen_literal_cons hk
      exact ⟨by omega, ds, rfl⟩
  simp only [layout, List.mem_cons, List.not_mem_nil, or_false] at hr
  rcases hr with rfl | rfl | rfl
  · rw [matchLength_anchored] at h
    simp [(of_many1_cons (Option.filter_eq_some_iff.mp h).1).1] at hb
  · obtain ⟨hm, ds, hs⟩ := hopen _ _ h
    exact ⟨by simp [comments], hm, _, ds, hs, .inl rfl⟩
  · obtain ⟨hm, ds, hs⟩ := hopen _ _ h
    exact ⟨by simp [comments], hm, _, ds, hs, .inr rfl⟩

theorem firstMatch_of_quoted {q : Char} (hq : q = '"' ∨ q = '\'')
    (h : (quoted q).matchLength (c :: cs) = some m) :
    firstMatch table (c :: cs) = some (.string, m) := by
  rw [quoted, matchLength_anchored] at h
  obtain ⟨rfl, k, hk, rfl⟩ := of_andThen_literal_cons (Option.filter_eq_some_iff.mp h).1
  rw [andThen_literal_nil] at hk
  rw [firstMatch_quote hq, hk]
  rfl

theorem matchLength_keyword_eq {k : TokenKind} (hk : k ∈ TokenKind.keywords) (cs : List Char) :
    (keyword k).matchLength cs =
      if cs.takeWhile isWordChar = k.name.toList then some k.name.toList.length else none := by
  have hname : ∀ k ∈ TokenKind.keywords, k.name.toList.all isWordChar = true ∧
      0 < k.name.toList.length := by decide
  obtain ⟨hw, hpos⟩ := hname k hk
  rw [keyword, matchLength_anchored, keyword_eq hw]
  split
  · exact Option.filter_some_pos (by simpa using hpos)
  · rfl

theorem matchLength_keyword {k : TokenKind} (hk : k ∈ TokenKind.keywords)
    (h : (keyword k).matchLength (c :: cs) = some m) :
    isWordChar c = true ∧ isDigit c = false ∧ m = ((c :: cs).takeWhile isWordChar).length ∧
      (c :: cs).takeWhile isWordChar = k.name.toList := by
  have hname : ∀ k ∈ TokenKind.keywords, k.name.toList.head?.any (!isDigit ·) = true := by decide
  have hd := hname k hk
  rw [matchLength_keyword_eq hk] at h
  split at h
  · rename_i he
    cases h
    rw [← he] at hd ⊢
    by_cases hc : isWordChar c = true
    · exact ⟨hc, by simpa [hc] using hd, rfl, rfl⟩
    · simp [hc] at hd
  · cases h

theorem matchLength_cases (hr : rule ∈ table) (h : rule.matchLength (c :: cs) = some m) :
    firstMatch table (c :: cs) = some (rule.kind, m) ∨
      (isWordChar c = true ∧ rule.kind = .identifier ∧
        m = ((c :: cs).takeWhile isWordChar).length) ∨ (isSymbol c = true ∧ rule ∈ signs) := by
  simp only [table, List.mem_append, List.mem_map] at hr
  rcases hr with (((hr | hr) | ⟨k, hk, rfl⟩) | hr) | hr
  · have hskip : ∀ k ∈ layout.map Rule.kind, k = .skip := by decide
    left
    rw [firstMatch_table, firstMatch_layout_of_matchLength hr h,
      hskip _ (List.mem_map_of_mem hr)]
    rfl
  · have hs : rule ∈ signs := List.mem_append_left _ (List.mem_map.mpr hr)
    exact .inr (.inr ⟨(isSymbol_of_signs hs h).1, hs⟩)
  · obtain ⟨hw, hd, rfl, hword⟩ := matchLength_keyword hk h
    have hkind : ∀ k ∈ TokenKind.keywords, wordKind k.name.toList = k := by decide
    left
    rw [matchesRun_of_isWordChar hw hd, hword, hkind k hk]
    rfl
  · simp only [operands, List.mem_cons, List.not_mem_nil, or_false] at hr
    rcases hr with rfl | rfl | rfl | rfl
    · rw [matchLength_anchored] at h
      obtain ⟨hd, rfl⟩ := of_many1_cons (Option.filter_eq_some_iff.mp h).1
      exact .inl (matchesRun_of_isDigit hd cs)
    · exact .inl (firstMatch_of_quoted (.inl rfl) h)
    · exact .inl (firstMatch_of_quoted (.inr rfl) h)
    · rw [matchLength_anchored] at h
      obtain ⟨hw, rfl⟩ := of_many1_cons (Option.filter_eq_some_iff.mp h).1
      exact .inr (.inl ⟨hw, rfl, rfl⟩)
  · have hs : rule ∈ signs := List.mem_append_right _ hr
    exact .inr (.inr ⟨(isSymbol_of_signs hs h).1, hs⟩)

theorem le_of_signs (hc : isSymbol c = true) (hr : rule ∈ signs)
    (h : firstMatch table (c :: cs) = some (kind, n)) (hm : rule.matchLength (c :: cs) = some m) :
    m ≤ n := by
  cases hl : firstMatch layout (c :: cs) with
  | none =>
    rw [firstMatch_symbol hc hl, ← firstMatch_append] at h
    exact le_of_firstMatch_signs h hr hm
  | some found =>
    rw [firstMatch_table, hl, Option.some_or] at h
    cases h
    obtain ⟨comment, hcomment, -, hn⟩ := exists_rule_of_firstMatch hl
    obtain ⟨-, htwo, -⟩ := comment_of_layout hcomment (isBlank_of_isSymbol hc) hn
    exact (isSymbol_of_signs hr hm).2.trans htwo

/-- No rule takes more than the first that matches, but that for names in front of a digit. -/
theorem le_or_of_firstMatch (h : firstMatch table (c :: cs) = some (kind, n)) (hr : rule ∈ table)
    (hm : rule.matchLength (c :: cs) = some m) :
    m ≤ n ∨ (isDigit c = true ∧ rule.kind = .identifier) := by
  rcases matchLength_cases hr hm with hk | ⟨hw, hk, rfl⟩ | ⟨hc, hs⟩
  · cases h.symm.trans hk
    exact .inl le_rfl
  · by_cases hd : isDigit c = true
    · exact .inr ⟨hd, hk⟩
    · cases h.symm.trans (matchesRun_of_isWordChar hw (by simpa using hd) cs)
      exact .inl le_rfl
  · exact .inl (le_of_signs hc hs h hm)

/-- The number of bytes a rule takes from the beginning of a text. -/
def byteLength (rule : Rule) (cs : List Char) : Option ℕ :=
  (rule.matchLength cs).map fun n => Text.size (cs.take n)

theorem byteLength_eq_some {b : ℕ} : rule.byteLength cs = some b ↔
    ∃ m, rule.matchLength cs = some m ∧ Text.size (cs.take m) = b :=
  Option.map_eq_some_iff

/-- Where a rule matches, the first that does takes the most, unless a digit stands there. A number
is all of the digits, and only a name is longer. -/
theorem firstMatch_isGreatest (cs : List Char)
    (h : ∃ rule ∈ table, ∃ b, rule.byteLength cs = some b) :
    ∃ kind n, firstMatch table cs = some (kind, n) ∧
      (cs.head?.any isDigit = false →
        IsGreatest {b | ∃ rule ∈ table, rule.byteLength cs = some b} (Text.size (cs.take n))) ∧
      (cs.head?.any isDigit = true → kind = .number ∧ cs.take n = cs.takeWhile isDigit ∧
        ∀ rule ∈ table, ∀ b, rule.byteLength cs = some b → Text.size (cs.take n) < b →
          rule.kind = .identifier) := by
  obtain ⟨found, hr, b, hb⟩ := h
  obtain ⟨m, hm, -⟩ := byteLength_eq_some.mp hb
  obtain _ | ⟨c, cs⟩ := cs
  · exact absurd (length_le_of_matchLength hr hm) (by simpa using (matchLength_pos hm).ne')
  obtain ⟨kind, n, hn⟩ := exists_firstMatch hr hm
  refine ⟨kind, n, hn, fun hd => ⟨?_, ?_⟩, fun hd => ⟨?_, ?_, ?_⟩⟩
  · obtain ⟨first, hr, -, hm⟩ := exists_rule_of_firstMatch hn
    exact ⟨first, hr, byteLength_eq_some.mpr ⟨n, hm, rfl⟩⟩
  · rintro b ⟨rule, hr, hb⟩
    obtain ⟨m, hm, rfl⟩ := byteLength_eq_some.mp hb
    rcases le_or_of_firstMatch hn hr hm with hle | ⟨hd', -⟩
    · exact Text.size_take_le hle
    · simp [hd'] at hd
  · rw [matchesRun_of_isDigit (by simpa using hd)] at hn
    cases hn
    rfl
  · rw [matchesRun_of_isDigit (by simpa using hd)] at hn
    cases hn
    exact (List.prefix_iff_eq_take.mp (List.takeWhile_prefix isDigit)).symm
  · intro rule hr b hb hlt
    obtain ⟨m, hm, rfl⟩ := byteLength_eq_some.mp hb
    rcases le_or_of_firstMatch hn hr hm with hle | ⟨-, hk⟩
    · exact absurd (Text.size_take_le hle) hlt.not_ge
    · exact hk

/-- The first rule that matches `!=0` takes two bytes, and none takes more. In `1st` a number is
found, though a name would be longer. -/
theorem firstMatch_isGreatest_unequal :
    IsGreatest {b | ∃ rule ∈ table, rule.byteLength "!=0".toList = some b} 2 ∧
      firstMatch table "1st".toList = some (.number, 1) ∧
      ∀ rule ∈ table, ∀ b, rule.byteLength "1st".toList = some b → 1 < b →
        rule.kind = .identifier := by
  obtain ⟨_, _, hn, h, -⟩ := firstMatch_isGreatest "!=0".toList
    ⟨exactly .notOp "!", by simp [table, operators], 1, by decide⟩
  have htwo : firstMatch table "!=0".toList = some (.equalityOp, 2) := by decide +kernel
  cases hn.symm.trans htwo
  obtain ⟨_, _, hn', -, h'⟩ := firstMatch_isGreatest "1st".toList
    ⟨anchored .number (many1 isDigit), by simp [table, operands], 1, by decide⟩
  have hone : firstMatch table "1st".toList = some (.number, 1) := by decide +kernel
  cases hn'.symm.trans hone
  exact ⟨h (by decide), hn', (h' (by decide)).2.2⟩

end Rule

end Frontend
