import Frontend.Proofs.Token.Matching

/-! # How far a token goes

A word or a number goes up to the first character that cannot go on, a string
up to its closing quote, and anything else is settled by two characters. Hence
what is matched does not depend on what follows the next character, except
where a comment is opened and not closed.
-/

namespace Frontend.Rule

open Matcher

variable {c d q : Char} {cs ds v w : List Char} {kind : TokenKind} {p : Char → Bool}
  {f : List Char → TokenKind}

theorem firstMatch_table (cs : List Char) : firstMatch table cs =
    (firstMatch layout cs).or ((firstMatch (TokenKind.punctuation.map fun k => exactly k k.name)
      cs).or ((firstMatch (TokenKind.keywords.map keyword) cs).or ((firstMatch operands cs).or
        (firstMatch operators cs)))) := by
  simp only [table, firstMatch_append, Option.or_assoc]

theorem isWordChar_of_isDigit (hc : isDigit c = true) : isWordChar c = true := by
  simp [isWordChar, hc]

theorem ne_of_class (hc : p c = true) (hd : p d = false) : d ≠ c := by
  rintro rfl
  simp [hc] at hd

theorem isWordChar_of_isBlank (hc : isBlank c = true) : isWordChar c = false := by
  simp only [isBlank, Bool.or_eq_true, beq_iff_eq] at hc
  rcases hc with (((rfl | rfl) | rfl) | rfl) | rfl <;> decide

theorem isBlank_of_isWordChar (hc : isWordChar c = true) : isBlank c = false := by
  by_contra hb
  simp [isWordChar_of_isBlank (by simpa using hb)] at hc

theorem firstMatch_layout (hb : isBlank c = false) (hc : '/' ≠ c) (cs : List Char) :
    firstMatch layout (c :: cs) = none := by
  simp [layout, firstMatch_cons, many1_cons, hb, hc]

theorem firstMatch_layout_cons (hb : isBlank c = false) (hd : c = '/' → d ≠ '/' ∧ d ≠ '*')
    (cs : List Char) : firstMatch layout (c :: d :: cs) = none := by
  by_cases hc : '/' = c
  · obtain ⟨h, h'⟩ := hd hc.symm
    simp [layout, firstMatch_cons, many1_cons, hb, h.symm, h'.symm]
  · exact firstMatch_layout hb hc _

theorem firstMatch_keywords_of_head (hc : p c = false)
    (hp : ∀ k ∈ TokenKind.keywords, k.name.toList.head?.any p = true) (cs : List Char) :
    firstMatch (TokenKind.keywords.map keyword) (c :: cs) = none := by
  refine firstMatch_map_eq_none fun k hk => ?_
  rw [andThen, literal_of_head (hp k hk) hc]

theorem firstMatch_punctuation_of_isWordChar (hc : isWordChar c = true) (cs : List Char) :
    firstMatch (TokenKind.punctuation.map fun k => exactly k k.name) (c :: cs) = none := by
  have hp : ∀ k ∈ TokenKind.punctuation, k.name.toList.head?.any (!isWordChar ·) = true := by
    decide
  exact firstMatch_map_eq_none fun k hk => literal_of_head (hp k hk) (by simp [hc]) cs

/-- Where the character stands, the longest run of a class is matched. -/
def MatchesRun (p : Char → Bool) (f : List Char → TokenKind) (c : Char) : Prop :=
  ∀ cs, firstMatch table (c :: cs) =
    some (f ((c :: cs).takeWhile p), ((c :: cs).takeWhile p).length)

theorem matchesRun_of_isBlank (hc : isBlank c = true) : MatchesRun isBlank (fun _ => .skip) c := by
  intro cs
  rw [firstMatch_table, layout, firstMatch_cons, many1_cons]
  simp [hc, Option.filter, Nat.add_comm]

theorem matchesRun_of_isDigit (hc : isDigit c = true) :
    MatchesRun isDigit (fun _ => .number) c := by
  intro cs
  have hw := isWordChar_of_isDigit hc
  rw [firstMatch_table, firstMatch_layout (isBlank_of_isWordChar hw) (ne_of_class hw (by decide)),
    firstMatch_punctuation_of_isWordChar hw,
    firstMatch_keywords_of_head (p := (!isDigit ·)) (by simp [hc]) (by decide), operands,
    firstMatch_cons, many1_cons]
  simp [hc, Option.filter, Nat.add_comm]

theorem matchesRun_of_isWordChar (hc : isWordChar c = true) (hd : isDigit c = false) :
    MatchesRun isWordChar wordKind c := by
  intro cs
  have hq : '"' ≠ c := ne_of_class hc (by decide)
  have hq' : '\'' ≠ c := ne_of_class hc (by decide)
  rw [firstMatch_table, firstMatch_layout (isBlank_of_isWordChar hc) (ne_of_class hc (by decide)),
    firstMatch_punctuation_of_isWordChar hc, firstMatch_keywords (by decide) (by simp [hc])]
  have ho : firstMatch operands (c :: cs) =
      some (.identifier, ((c :: cs).takeWhile isWordChar).length) := by
    simp [operands, quoted, firstMatch_cons, many1_cons, hc, hd, hq, hq', Option.filter,
      Nat.add_comm]
  rw [ho, wordKind]
  cases TokenKind.keywords.find? fun k => k.name.toList == (c :: cs).takeWhile isWordChar <;> rfl

/-- A run is matched as a whole in front of what cannot go on with it. -/
theorem MatchesRun.firstMatch_append (h : MatchesRun p f c) (hv : ∀ a ∈ c :: v, p a = true)
    (hs : w.head?.any p = false) :
    firstMatch table (c :: v ++ w) = some (f (c :: v), (c :: v).length) := by
  have hstop : w.takeWhile p = [] := by
    obtain _ | ⟨d, w⟩ := w
    · rfl
    · exact List.takeWhile_cons_of_neg (by simpa using hs)
  have hrun : (c :: v ++ w).takeWhile p = c :: v := by
    rw [List.takeWhile_append_of_pos hv, hstop, List.append_nil]
  rw [List.cons_append, h, ← List.cons_append, hrun]

theorem MatchesRun.extend (h : MatchesRun p f c)
    (hv : firstMatch table (c :: v) = some (kind, (c :: v).length)) (hd : p d = false)
    (ds : List Char) :
    firstMatch table (c :: v ++ d :: ds) = some (kind, (c :: v).length) := by
  rw [h] at hv
  obtain ⟨hk, hl⟩ := Prod.mk.inj (Option.some.inj hv)
  have hr : (c :: v).takeWhile p = c :: v := (List.takeWhile_prefix p).eq_of_length hl
  rw [h.firstMatch_append (List.takeWhile_eq_self_iff.mp hr) (by simpa using hd), ← hk, hr]

theorem MatchesRun.replace (h : MatchesRun p f c)
    (hv : firstMatch table (c :: v ++ d :: w) = some (kind, (c :: v).length)) (ds : List Char) :
    firstMatch table (c :: v ++ d :: ds) = some (kind, (c :: v).length) := by
  rw [List.cons_append, h, ← List.cons_append] at hv
  obtain ⟨hk, hl⟩ := Prod.mk.inj (Option.some.inj hv)
  have hr : (c :: v ++ d :: w).takeWhile p = c :: v :=
    (List.prefix_of_prefix_length_le (List.takeWhile_prefix p) (List.prefix_append _ _)
      hl.le).eq_of_length hl
  have hall : ∀ a ∈ c :: v, p a = true := fun a ha => List.mem_takeWhile_imp (hr ▸ ha)
  have hd : p d = false := by
    rw [List.takeWhile_append_of_pos hall, List.append_right_eq_self] at hr
    simpa [List.takeWhile_cons] using hr
  refine h.extend ?_ hd ds
  rw [h, List.takeWhile_eq_self_iff.mpr hall, ← hk, hr]

theorem through_singleton_cons (q c : Char) (cs : List Char) :
    through [q] (c :: cs) = if q = c then some 1 else (through [q] cs).map (· + 1) := by
  by_cases h : q = c <;> simp [through, h]

theorem through_singleton_eq_some {n : ℕ} :
    through [q] cs = some n ↔
      ∃ body rest, cs = body ++ q :: rest ∧ q ∉ body ∧ n = body.length + 1 := by
  induction cs generalizing n with
  | nil => simp [through]
  | cons c cs ih =>
    rw [through_singleton_cons]
    split
    · rename_i h
      subst h
      constructor
      · rintro ⟨⟩
        exact ⟨[], cs, rfl, by simp, rfl⟩
      · rintro ⟨_ | ⟨b, body⟩, rest, he, hq, rfl⟩
        · rfl
        · cases he
          simp at hq
    · rename_i h
      simp only [Option.map_eq_some_iff, ih]
      constructor
      · rintro ⟨_, ⟨body, rest, rfl, hq, rfl⟩, rfl⟩
        exact ⟨c :: body, rest, rfl, by simp [h, hq], rfl⟩
      · rintro ⟨_ | ⟨b, body⟩, rest, he, hq, rfl⟩
        · cases he
          exact absurd rfl h
        · cases he
          exact ⟨_, ⟨body, rest, rfl, fun hm => hq (List.mem_cons_of_mem _ hm), rfl⟩, rfl⟩

theorem firstMatch_quote (hq : q = '"' ∨ q = '\'') (cs : List Char) :
    firstMatch table (q :: cs) = (through [q] cs).map fun n => (.string, n + 1) := by
  have hk : firstMatch (TokenKind.keywords.map keyword) (q :: cs) = none :=
    firstMatch_keywords_of_head (p := isWordChar) (by rcases hq with rfl | rfl <;> decide)
      (by decide) cs
  have hl : firstMatch layout (q :: cs) = none :=
    firstMatch_layout (by rcases hq with rfl | rfl <;> decide)
      (by rcases hq with rfl | rfl <;> decide) cs
  have ho : firstMatch operands (q :: cs) =
      (through [q] cs).map fun n => (.string, n + 1) := by
    cases ht : through [q] cs <;> rcases hq with rfl | rfl <;>
      simp [operands, quoted, firstMatch_cons, many1_cons, isDigit, isWordChar, Option.filter, ht]
  have hop : firstMatch operators (q :: cs) = none := by
    rcases hq with rfl | rfl <;>
      simp [operators, exactly, firstMatch_cons, oneOf, one, one_andThen]
  rw [firstMatch_table, hl, hk, ho, hop, firstMatch_punctuation]
  rcases hq with rfl | rfl <;> cases through _ cs <;> rfl

theorem firstMatch_quote_append (hq : q = '"' ∨ q = '\'')
    (h : firstMatch table (q :: v ++ w) = some (kind, (q :: v).length)) (ds : List Char) :
    firstMatch table (q :: v ++ ds) = some (kind, (q :: v).length) := by
  rw [List.cons_append, firstMatch_quote hq] at h ⊢
  obtain ⟨n, ht, he⟩ := Option.map_eq_some_iff.mp h
  obtain ⟨hk, hn⟩ := Prod.mk.inj he
  obtain ⟨body, rest, hv, hqb, rfl⟩ := through_singleton_eq_some.mp ht
  rw [List.append_cons] at hv
  obtain ⟨rfl, -⟩ := List.append_inj hv (by simpa using hn.symm)
  have ht : through [q] (body ++ [q] ++ ds) = some (body.length + 1) :=
    through_singleton_eq_some.mpr ⟨body, ds, by simp, hqb, rfl⟩
  rw [ht, Option.map_some, he]

/-- A character that stands alone or begins an operator. -/
def isSymbol (c : Char) : Bool := !isBlank c && !isWordChar c && c != '"' && c != '\''

theorem firstMatch_symbol (hc : isSymbol c = true) (hl : firstMatch layout (c :: cs) = none) :
    firstMatch table (c :: cs) =
      (firstMatch (TokenKind.punctuation.map fun k => exactly k k.name) (c :: cs)).or
        (firstMatch operators (c :: cs)) := by
  simp only [isSymbol, Bool.and_eq_true, Bool.not_eq_true', bne_iff_ne] at hc
  obtain ⟨⟨⟨hb, hw⟩, hq⟩, hq'⟩ := hc
  have hd : isDigit c = false := by
    by_contra hd
    simp [isWordChar_of_isDigit (by simpa using hd)] at hw
  have hk : firstMatch (TokenKind.keywords.map keyword) (c :: cs) = none :=
    firstMatch_keywords_of_head hw (by decide) cs
  have ho : firstMatch operands (c :: cs) = none := by
    simp [operands, quoted, firstMatch_cons, many1_cons, hd, hw, hq.symm, hq'.symm]
  rw [firstMatch_table, hl, hk, ho]
  rfl

theorem isBlank_of_isSymbol (hc : isSymbol c = true) : isBlank c = false := by
  simp only [isSymbol, Bool.and_eq_true, Bool.not_eq_true'] at hc
  exact hc.1.1.1

theorem firstMatch_symbol_cons (hc : isSymbol c = true) (hd : c = '/' → d ≠ '/' ∧ d ≠ '*')
    (cs : List Char) : firstMatch table (c :: d :: cs) = firstMatch table [c, d] := by
  have hb := isBlank_of_isSymbol hc
  rw [firstMatch_symbol hc (firstMatch_layout_cons hb hd cs),
    firstMatch_symbol hc (firstMatch_layout_cons hb hd []), firstMatch_punctuation c (d :: cs),
    firstMatch_punctuation c [d], firstMatch_operators]

theorem firstMatch_symbol_singleton (hc : isSymbol c = true) (hd : c = '/' → d ≠ '/' ∧ d ≠ '*')
    (he : d ≠ '=' ∧ d ≠ '&' ∧ d ≠ '|') (cs : List Char) :
    firstMatch table (c :: d :: cs) = firstMatch table [c] := by
  have hb := isBlank_of_isSymbol hc
  have hl : firstMatch layout [c] = none := by
    simp [layout, firstMatch_cons, many1_cons, hb]
  rw [firstMatch_symbol hc (firstMatch_layout_cons hb hd cs), firstMatch_symbol hc hl,
    firstMatch_punctuation c (d :: cs), firstMatch_operators_of_ne he.1 he.2.1 he.2.2]

theorem firstMatch_lineComment (cs : List Char) : firstMatch table ('/' :: '/' :: cs) =
    some (.skip, (cs.takeWhile (· != '\n')).length + 2) := by
  have hl : firstMatch layout ('/' :: '/' :: cs) =
      some (.skip, (cs.takeWhile (· != '\n')).length + 2) := by
    simp [layout, firstMatch_cons, many1_cons, many, isBlank]
  rw [firstMatch_table, hl]
  rfl

theorem firstMatch_blockComment (cs : List Char) : firstMatch table ('/' :: '*' :: cs) =
    match through ['*', '/'] cs with
    | some n => some (.skip, n + 2)
    | none => some (.multiplicativeOp, 1) := by
  have hl : firstMatch layout ('/' :: '*' :: cs) =
      (through ['*', '/'] cs).map fun n => (.skip, n + 2) := by
    cases ht : through ['*', '/'] cs <;>
      simp [layout, firstMatch_cons, many1_cons, isBlank, ht]
  cases ht : through ['*', '/'] cs with
  | some n =>
    rw [firstMatch_table, hl, ht]
    rfl
  | none =>
    rw [firstMatch_symbol (by decide) (by rw [hl, ht]; rfl), firstMatch_punctuation,
      firstMatch_operators]
    decide

theorem through_of_not_infix {body : List Char} (hb : ¬ ['*', '/'] <:+: body) (cs : List Char) :
    through ['*', '/'] (body ++ '*' :: '/' :: cs) = some (body.length + 2) := by
  induction body with
  | nil => simp [through]
  | cons b body ih =>
    have hp : ¬ ['*', '/'] <+: b :: (body ++ '*' :: '/' :: cs) := by
      rintro ⟨rest, he⟩
      rcases body with _ | ⟨b', body⟩
      · cases he
      · cases he
        exact hb ⟨[], body, rfl⟩
    have hb' : ¬ ['*', '/'] <:+: body := fun h => hb (h.trans (List.infix_cons List.infix_rfl))
    rw [List.cons_append, through, if_neg (by simpa using hp), ih hb']
    rfl

/-- Every character is a blank, the first of a word or number, a quote, or a symbol. -/
theorem opening_cases (c : Char) : isBlank c = true ∨
    (∃ p f, MatchesRun p f c ∧ ∀ d, isWordChar d = false → p d = false) ∨
    (c = '"' ∨ c = '\'') ∨ isSymbol c = true := by
  by_cases hb : isBlank c = true
  · exact .inl hb
  by_cases hd : isDigit c = true
  · refine .inr (.inl ⟨_, _, matchesRun_of_isDigit hd, fun d hw => ?_⟩)
    by_contra hd
    simp [isWordChar_of_isDigit (by simpa using hd)] at hw
  by_cases hw : isWordChar c = true
  · exact .inr (.inl ⟨_, _, matchesRun_of_isWordChar hw (by simpa using hd), fun d h => h⟩)
  by_cases hq : c = '"' ∨ c = '\''
  · exact .inr (.inr (.inl hq))
  · rw [not_or] at hq
    exact .inr (.inr (.inr (by simp [isSymbol, hb, hw, hq.1, hq.2])))

theorem not_comment {n : ℕ} (h : firstMatch table (c :: d :: cs) = some (kind, n))
    (hk : kind ≠ .skip) (hs : c = '/' → d = '*' → n ≠ 1) : c = '/' → d ≠ '/' ∧ d ≠ '*' := by
  rintro rfl
  refine ⟨?_, ?_⟩
  · rintro rfl
    rw [firstMatch_lineComment] at h
    cases h
    exact hk rfl
  · rintro rfl
    rw [firstMatch_blockComment] at h
    split at h <;> cases h
    · exact hk rfl
    · exact hs rfl rfl rfl

theorem not_blank_of_ne_skip {n : ℕ} (h : firstMatch table (c :: cs) = some (kind, n))
    (hk : kind ≠ .skip) : ¬ isBlank c = true := by
  intro hb
  rw [matchesRun_of_isBlank hb] at h
  cases h
  exact hk rfl

theorem firstMatch_append_cons (h : firstMatch table (v ++ d :: w) = some (kind, v.length))
    (hk : kind ≠ .skip) (hs : v = ['/'] → d ≠ '*') (ds : List Char) :
    firstMatch table (v ++ d :: ds) = some (kind, v.length) := by
  rcases v with _ | ⟨c, v⟩
  · exact absurd (firstMatch_pos h) (Nat.lt_irrefl 0)
  rcases opening_cases c with hb | ⟨p, f, hr, -⟩ | hq | hc
  · exact absurd hb (not_blank_of_ne_skip h hk)
  · exact hr.replace h ds
  · exact firstMatch_quote_append hq h _
  · rcases v with _ | ⟨c', v⟩
    · have hn := not_comment h hk fun hc hd => absurd hd (hs (by rw [hc]))
      rw [List.singleton_append, firstMatch_symbol_cons hc hn] at h ⊢
      exact h
    · have hn := not_comment h hk fun _ _ => by simp
      rw [List.cons_append, List.cons_append, firstMatch_symbol_cons hc hn] at h ⊢
      exact h

theorem firstMatch_append_of_layout (h : firstMatch table v = some (kind, v.length))
    (hk : kind ≠ .skip) (hd : isBlank d = true ∨ d = '/') (hs : v = ['/'] → d ≠ '/')
    (ds : List Char) : firstMatch table (v ++ d :: ds) = some (kind, v.length) := by
  have hw : isWordChar d = false := by
    rcases hd with hd | rfl
    · exact isWordChar_of_isBlank hd
    · decide
  have he : d ≠ '=' ∧ d ≠ '&' ∧ d ≠ '|' ∧ d ≠ '*' := by
    refine ⟨?_, ?_, ?_, ?_⟩ <;> rintro rfl <;> simp [isBlank] at hd
  rcases v with _ | ⟨c, v⟩
  · exact absurd (firstMatch_pos h) (Nat.lt_irrefl 0)
  rcases opening_cases c with hb | ⟨p, f, hr, hp⟩ | hq | hc
  · exact absurd hb (not_blank_of_ne_skip h hk)
  · exact hr.extend h (hp d hw) ds
  · exact firstMatch_quote_append (w := []) hq (by rwa [List.append_nil]) _
  · rcases v with _ | ⟨c', v⟩
    · have hn : c = '/' → d ≠ '/' ∧ d ≠ '*' := fun hc => ⟨hs (by rw [hc]), he.2.2.2⟩
      rw [List.singleton_append, firstMatch_symbol_singleton hc hn ⟨he.1, he.2.1, he.2.2.1⟩]
      exact h
    · have hn := not_comment h hk fun _ _ => by simp
      rw [List.cons_append, List.cons_append, firstMatch_symbol_cons hc hn]
      rw [firstMatch_symbol_cons hc hn] at h
      exact h

end Frontend.Rule
