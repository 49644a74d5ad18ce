import Frontend.Proofs.Token.Extension
import Frontend.Proofs.Token.Longest

/-! # The order of the rules

Two rules rarely match at one place. They do so where an operator begins a comment or a longer
operator, and where a number or a reserved word is a name as well. A table in which the rules of
all such pairs keep their order finds the same tokens as the table of the language.
-/

namespace Frontend

namespace Rule

open Matcher

variable {c d : Char} {cs ds : List Char} {rule : Rule} {rules : List Rule} {m : ℕ}

/-- The kinds of token whose rules match at one place, the kind that is meant first. -/
def precedence : List (TokenKind × TokenKind) :=
  TokenKind.keywords.map (·, .identifier) ++
    [(.number, .identifier), (.equalityOp, .simpleAssign), (.equalityOp, .notOp),
      (.complexAssign, .additiveOp), (.complexAssign, .multiplicativeOp)]

/-- A rule that has to stand before another one. -/
def Precedes (rule rule' : Rule) : Prop :=
  rule ∈ comments ∧ rule'.kind = .multiplicativeOp ∨ (rule.kind, rule'.kind) ∈ precedence

theorem not_precedes_self (rule : Rule) : ¬ rule.Precedes rule := by
  have hskip : ∀ k ∈ comments.map Rule.kind, k ≠ .multiplicativeOp := by decide
  have hprec : ∀ p ∈ precedence, p.1 ≠ p.2 := by decide
  rintro (⟨hr, hk⟩ | h)
  · exact hskip _ (List.mem_map_of_mem hr) hk
  · exact hprec _ h rfl

/-- No rule stands behind one that it has to precede. -/
def InOrder (rules : List Rule) : Prop := rules.Pairwise fun rule rule' => ¬ rule'.Precedes rule

theorem kind_of_signs_of_comment (hr : rule ∈ signs) (hd : d = '/' ∨ d = '*')
    (h : rule.matchLength ('/' :: d :: ds) = some m) : rule.kind = .multiplicativeOp := by
  have hkinds : ∀ k ∈ signs.map Rule.kind, ("/" ∈ k.spellings → k = .multiplicativeOp) ∧
      "//" ∉ k.spellings ∧ "/*" ∉ k.spellings := by
    decide +kernel
  obtain ⟨hslash, hline, hblock⟩ := hkinds _ (List.mem_map_of_mem hr)
  have htake := (isSpelled_signs hr).take_mem h
  have hpos := matchLength_pos h
  obtain ⟨-, hle⟩ := isSymbol_of_signs hr h
  obtain rfl | rfl : m = 1 ∨ m = 2 := by omega
  · exact hslash htake
  · rcases hd with rfl | rfl
    · exact absurd htake hline
    · exact absurd htake hblock

theorem pairwise_signs_precedence : signs.Pairwise fun rule rule' =>
    ∀ text ∈ rule.kind.spellings, ∀ text' ∈ rule'.kind.spellings,
      text.toList <+: text'.toList ∨ text'.toList <+: text.toList →
        (rule.kind, rule'.kind) ∈ precedence := by
  have hkinds : (signs.map Rule.kind).Pairwise fun k k' => ∀ text ∈ k.spellings,
      ∀ text' ∈ k'.spellings, text.toList <+: text'.toList ∨ text'.toList <+: text.toList →
        (k, k') ∈ precedence := by
    decide +kernel
  exact List.pairwise_map.mp hkinds

theorem firstMatch_signs_or_precedes (hr : rule ∈ signs) (h : rule.matchLength cs = some m) :
    firstMatch signs cs = some (rule.kind, m) ∨
      ∃ first ∈ signs, first.matchLength cs ≠ none ∧ first.Precedes rule := by
  obtain ⟨kind, n, hf⟩ := exists_firstMatch hr h
  obtain ⟨first, hmem, rfl, hn, hfirst⟩ := exists_first pairwise_signs_precedence hf
  rcases hfirst rule hr m h with rfl | hR
  · cases hn.symm.trans h
    exact .inl hf
  · have hcomparable : cs.take n <+: cs.take m ∨ cs.take m <+: cs.take n :=
      List.prefix_or_prefix_of_prefix (List.take_prefix n cs) (List.take_prefix m cs)
    have hprec := hR _ ((isSpelled_signs hmem).take_mem hn) _ ((isSpelled_signs hr).take_mem h)
      (by simpa using hcomparable)
    exact .inr ⟨first, hmem, by simp [hn], .inr hprec⟩

theorem firstMatch_or_precedes_of_signs (hr : rule ∈ signs)
    (h : rule.matchLength (c :: cs) = some m) :
    firstMatch table (c :: cs) = some (rule.kind, m) ∨
      ∃ first ∈ table, first.matchLength (c :: cs) ≠ none ∧ first.Precedes rule := by
  obtain ⟨hc, -⟩ := isSymbol_of_signs hr h
  cases hl : firstMatch layout (c :: cs) with
  | none =>
    rw [firstMatch_symbol hc hl, ← firstMatch_append]
    rcases firstMatch_signs_or_precedes hr h with hf | ⟨first, hmem, hfirst⟩
    · exact .inl hf
    · exact .inr ⟨first, mem_table_of_signs hmem, hfirst⟩
  | some found =>
    obtain ⟨comment, hmem, -, hm⟩ := exists_rule_of_firstMatch hl
    obtain ⟨hcomment, -, d, ds, hs, hd⟩ := comment_of_layout hmem (isBlank_of_isSymbol hc) hm
    rw [hs] at h hm ⊢
    have hkind := kind_of_signs_of_comment hr hd h
    have htable : comment ∈ table := by
      simp only [table, List.append_assoc]
      exact List.mem_append_left _ hmem
    exact .inr ⟨comment, htable, by simp [hm], .inl ⟨hcomment, hkind⟩⟩

theorem firstMatch_or_precedes_of_name (hw : isWordChar c = true) :
    firstMatch table (c :: cs) =
        some (.identifier, ((c :: cs).takeWhile isWordChar).length) ∨
      ∃ first ∈ table, first.matchLength (c :: cs) ≠ none ∧
        (first.kind, TokenKind.identifier) ∈ precedence := by
  by_cases hd : isDigit c = true
  · refine .inr ⟨anchored .number (many1 isDigit), by simp [table, operands], ?_, by decide⟩
    simp [matchLength_anchored, many1_cons, hd]
  · rw [matchesRun_of_isWordChar hw (by simpa using hd), wordKind]
    cases hf : TokenKind.keywords.find? (·.name.toList == (c :: cs).takeWhile isWordChar) with
    | none => exact .inl rfl
    | some k =>
      have hk := List.mem_of_find?_eq_some hf
      have he : k.name.toList = (c :: cs).takeWhile isWordChar := by simpa using List.find?_some hf
      have hprec : ∀ k ∈ TokenKind.keywords, (k, TokenKind.identifier) ∈ precedence := by decide
      have htable : keyword k ∈ table := by
        simp only [table, List.mem_append, List.mem_map]
        exact .inl (.inl (.inr ⟨k, hk, rfl⟩))
      exact .inr ⟨keyword k, htable, by simp [matchLength_keyword_eq hk, he], hprec k hk⟩

/-- A rule that matches is found in the table, or another one that matches has to precede it. -/
theorem firstMatch_or_precedes (hr : rule ∈ table) (h : rule.matchLength (c :: cs) = some m) :
    firstMatch table (c :: cs) = some (rule.kind, m) ∨
      ∃ first ∈ table, first.matchLength (c :: cs) ≠ none ∧ first.Precedes rule := by
  rcases matchLength_cases hr h with hf | ⟨hw, hk, rfl⟩ | ⟨-, hs⟩
  · exact .inl hf
  · rcases firstMatch_or_precedes_of_name hw with hf | ⟨first, hmem, hm, hprec⟩
    · exact .inl (hk ▸ hf)
    · exact .inr ⟨first, hmem, hm, .inr (hk ▸ hprec)⟩
  · exact firstMatch_or_precedes_of_signs hs h

/-- A table in order finds what the table of the language finds. -/
theorem firstMatch_of_perm (hp : rules.Perm table) (ho : InOrder rules) (cs : List Char) :
    firstMatch rules cs = firstMatch table cs := by
  cases hf : firstMatch rules cs with
  | none =>
    have hnone := firstMatch_eq_none_iff_forall.mp hf
    exact (firstMatch_eq_none_iff_forall.mpr fun rule hr => hnone rule (hp.mem_iff.mpr hr)).symm
  | some found =>
    obtain ⟨before, rule, after, rfl, hr, hbefore⟩ := List.findSome?_eq_some_iff.mp hf
    obtain ⟨m, hm, rfl⟩ := Option.map_eq_some_iff.mp hr
    have hmem : rule ∈ table := hp.mem_iff.mp (by simp)
    obtain _ | ⟨c, cs⟩ := cs
    · exact absurd (length_le_of_matchLength hmem hm) (by simpa using (matchLength_pos hm).ne')
    rcases firstMatch_or_precedes hmem hm with hf | ⟨first, hfirst, hm', hprec⟩
    · exact hf.symm
    · rcases List.mem_append.mp (hp.mem_iff.mpr hfirst) with hb | hb
      · exact absurd (Option.map_eq_none_iff.mp (hbefore first hb)) hm'
      · rcases List.mem_cons.mp hb with rfl | ha
        · exact absurd hprec (not_precedes_self first)
        · exact absurd hprec
            (List.rel_of_pairwise_cons (List.pairwise_append.mp ho).2.1 ha)

end Rule

namespace Lexer

open TokenStream

variable {rules : List Rule}

/-- Tables in order lead to the same answers, however many tokens are pulled. -/
theorem pull_ofText_of_perm (hp : rules.Perm Rule.table) (ho : Rule.InOrder rules) (text : String)
    (n : ℕ) : pull n (ofText text rules) = pull n (ofText text) := by
  have hm (cs : List Char) : Rule.firstMatch rules cs = Rule.firstMatch (ofText text).rules cs :=
    Rule.firstMatch_of_perm hp ho cs
  exact pull_withRules hm n

def wordsFirst : List Rule :=
  (TokenKind.keywords.map Rule.keyword ++ Rule.operands) ++
    (Rule.layout ++ TokenKind.punctuation.map fun kind => Rule.exactly kind kind.name) ++
      Rule.operators

theorem pull_ofText_of_perm_wordsFirst : wordsFirst.Perm Rule.table ∧ Rule.InOrder wordsFirst ∧
    pull 2 (ofText "if/**/x!=2" wordsFirst) = .ok ⟨.equalityOp, "!=", ⟨7, 9⟩⟩ := by
  have hp : wordsFirst.Perm Rule.table := by
    rw [wordsFirst, Rule.table, List.append_assoc (Rule.layout ++ _)]
    exact List.perm_append_comm.append_right _
  have ho : Rule.InOrder wordsFirst := by
    have hprec : (wordsFirst.map Rule.kind).Pairwise fun k k' => (k', k) ∉ Rule.precedence := by
      decide +kernel
    have hlast : (wordsFirst.map Rule.kind).Pairwise fun k _ => k ≠ .multiplicativeOp := by
      decide +kernel
    refine (List.pairwise_map.mp (hprec.and hlast)).imp ?_
    rintro rule rule' ⟨h, h'⟩ (⟨-, hk⟩ | hk)
    · exact h' hk
    · exact h hk
  refine ⟨hp, ho, ?_⟩
  rw [pull_ofText_of_perm hp ho]
  decide +kernel

end Lexer

end Frontend
