import Frontend.Proofs.Token.Giving
import Frontend.Proofs.Token.Reading

/-! # How tokens are spelled

A kind has a few texts, or it has those of a class: names, numbers and strings.
The tokens of a text are spelled as their kinds are, and every text that is so
spelled is one token by itself.
-/

namespace Frontend

/-- Letters, digits and underscores that begin with no digit and are no reserved word. -/
def IsName (cs : List Char) : Prop :=
  ∃ c rest, cs = c :: rest ∧ isDigit c = false ∧ (∀ d ∈ c :: rest, isWordChar d = true) ∧
    ∀ k ∈ TokenKind.keywords, k.name.toList ≠ cs

def IsNumeral (cs : List Char) : Prop := cs ≠ [] ∧ ∀ c ∈ cs, isDigit c = true

/-- A text between two quotes of one sort, which does not occur in it. -/
def IsQuoted (cs : List Char) : Prop :=
  ∃ q body, (q = '"' ∨ q = '\'') ∧ q ∉ body ∧ cs = q :: body ++ [q]

namespace TokenKind

def spellings : TokenKind → List String
  | eof | skip | number | string | identifier => []
  | equalityOp => ["==", "!="]
  | complexAssign => ["+=", "-=", "*=", "/="]
  | relationalOp => [">", "<", ">=", "<="]
  | andOp => ["&&"]
  | orOp => ["||"]
  | notOp => ["!"]
  | additiveOp => ["+", "-"]
  | multiplicativeOp => ["*", "/"]
  | kind => [kind.name]

/-- Whether a text is a token of a kind. -/
def Spells : TokenKind → List Char → Prop
  | identifier, cs => IsName cs
  | number, cs => IsNumeral cs
  | string, cs => IsQuoted cs
  | kind, cs => String.ofList cs ∈ kind.spellings

theorem spells_of_mem {kind : TokenKind} {cs : List Char} (h : String.ofList cs ∈ kind.spellings) :
    kind.Spells cs := by
  cases kind <;> first | exact h | cases h

theorem spells_of_mem_keywords {kind : TokenKind} (h : kind ∈ keywords) :
    kind.Spells kind.name.toList := by
  have hk : ∀ k ∈ keywords, k.name ∈ k.spellings := by decide
  exact spells_of_mem (by simpa using hk kind h)

theorem spells_of_mem_punctuation {kind : TokenKind} (h : kind ∈ punctuation) :
    kind.Spells kind.name.toList := by
  have hk : ∀ k ∈ punctuation, k.name ∈ k.spellings := by decide
  exact spells_of_mem (by simpa using hk kind h)

end TokenKind

namespace Matcher

variable {m m' : Matcher} {L L' : List (List Char)}

def Takes (m : Matcher) (L : List (List Char)) : Prop := ∀ cs n, m cs = some n → cs.take n ∈ L

theorem takes_literal (text : List Char) : Takes (literal text) [text] := by
  intro cs n h
  unfold literal at h
  split at h
  · rename_i hp
    cases h
    rw [← List.prefix_iff_eq_take.mp (List.isPrefixOf_iff_prefix.mp hp)]
    exact List.mem_singleton_self text
  · cases h

theorem takes_oneOf (choices : List Char) : Takes (Rule.oneOf choices) (choices.map ([·])) := by
  intro cs n h
  rcases cs with _ | ⟨c, cs⟩
  · cases h
  rw [Rule.oneOf, one] at h
  split at h
  · rename_i hc
    cases h
    exact List.mem_map_of_mem (by simpa using hc)
  · cases h

theorem Takes.andThen (h : Takes m L) (h' : Takes m' L') :
    Takes (m.andThen m') (L.flatMap fun t => L'.map (t ++ ·)) := by
  intro cs n hn
  unfold Matcher.andThen at hn
  split at hn
  · cases hn
  · rename_i k hk
    obtain ⟨l, hl, rfl⟩ := Option.map_eq_some_iff.mp hn
    rw [List.take_add]
    exact List.mem_flatMap.mpr ⟨_, h cs k hk, List.mem_map_of_mem (h' _ l hl)⟩

theorem Takes.optional (h : Takes m L) : Takes m.optional ([] :: L) := by
  rintro cs n ⟨⟩
  cases hm : m cs with
  | none => exact List.mem_cons_self
  | some n => exact List.mem_cons_of_mem _ (h cs n hm)

end Matcher

namespace Rule

open Matcher

variable {c : Char} {cs v w : List Char} {kind : TokenKind} {n : ℕ}

def IsSpelled (rule : Rule) : Prop :=
  ∃ m L, rule = anchored rule.kind m ∧ m.Takes L ∧
    ∀ text ∈ L, String.ofList text ∈ rule.kind.spellings

theorem IsSpelled.take_mem {rule : Rule} (hr : rule.IsSpelled)
    (h : rule.matchLength cs = some n) : String.ofList (cs.take n) ∈ rule.kind.spellings := by
  obtain ⟨m, L, he, hm, hL⟩ := hr
  rw [he, matchLength_anchored] at h
  exact hL _ (hm cs n (Option.filter_eq_some_iff.mp h).1)

theorem IsSpelled.spells {rule : Rule} (hr : rule.IsSpelled) (h : rule.matchLength cs = some n) :
    rule.kind.Spells (cs.take n) := TokenKind.spells_of_mem (hr.take_mem h)

theorem isSpelled_operators : ∀ rule ∈ operators, rule.IsSpelled := by
  simp only [operators, List.forall_mem_cons]
  refine ⟨?_, ?_, ?_, ?_, ?_, ?_, ?_, ?_, ?_, by simp⟩
  · exact ⟨_, _, rfl, (takes_oneOf _).andThen (takes_literal _), by decide⟩
  · exact ⟨_, _, rfl, takes_literal _, by decide⟩
  · exact ⟨_, _, rfl, (takes_oneOf _).andThen (takes_literal _), by decide⟩
  · exact ⟨_, _, rfl, takes_literal _, by decide⟩
  · exact ⟨_, _, rfl, takes_literal _, by decide⟩
  · exact ⟨_, _, rfl, takes_literal _, by decide⟩
  · exact ⟨_, _, rfl, (takes_oneOf _).andThen (takes_literal _).optional, by decide⟩
  · exact ⟨_, _, rfl, takes_oneOf _, by decide⟩
  · exact ⟨_, _, rfl, takes_oneOf _, by decide⟩

theorem isSpelled_punctuation :
    ∀ rule ∈ TokenKind.punctuation.map fun kind => exactly kind kind.name, rule.IsSpelled := by
  have hk : ∀ k ∈ TokenKind.punctuation, k.name ∈ k.spellings := by decide
  simp only [List.forall_mem_map]
  intro kind h
  refine ⟨_, _, rfl, takes_literal _, List.forall_mem_singleton.mpr ?_⟩
  rw [String.ofList_toList]
  exact hk kind h

theorem MatchesRun.takeWhile_eq {p : Char → Bool} {f : List Char → TokenKind}
    (h : MatchesRun p f c) (hv : firstMatch table (c :: v ++ w) = some (kind, (c :: v).length)) :
    (c :: v ++ w).takeWhile p = c :: v := by
  rw [List.cons_append, h, ← List.cons_append] at hv
  obtain ⟨-, hl⟩ := Prod.mk.inj (Option.some.inj hv)
  exact (List.prefix_of_prefix_length_le (List.takeWhile_prefix p) (List.prefix_append _ _)
    hl.le).eq_of_length hl

theorem MatchesRun.eq_of_firstMatch {p : Char → Bool} {f : List Char → TokenKind}
    (h : MatchesRun p f c) (hv : firstMatch table (c :: v ++ w) = some (kind, (c :: v).length)) :
    kind = f (c :: v) ∧ ∀ a ∈ c :: v, p a = true := by
  have hr := h.takeWhile_eq hv
  rw [List.cons_append, h, ← List.cons_append, hr] at hv
  obtain ⟨hk, -⟩ := Prod.mk.inj (Option.some.inj hv)
  exact ⟨hk.symm, fun a ha => List.mem_takeWhile_imp (hr ▸ ha)⟩

theorem spells_wordKind (hw : ∀ a ∈ c :: v, isWordChar a = true) (hd : isDigit c = false) :
    (wordKind (c :: v)).Spells (c :: v) := by
  unfold wordKind
  cases hf : TokenKind.keywords.find? fun k => k.name.toList == c :: v with
  | none =>
    refine ⟨c, v, rfl, hd, hw, fun k hk => ?_⟩
    simpa using List.find?_eq_none.mp hf k hk
  | some k =>
    have he : k.name.toList = c :: v := by simpa using List.find?_some hf
    rw [Option.getD_some, ← he]
    exact TokenKind.spells_of_mem_keywords (List.mem_of_find?_eq_some hf)

theorem spells_of_quote {q : Char} (hq : q = '"' ∨ q = '\'')
    (h : firstMatch table (q :: v ++ w) = some (kind, (q :: v).length)) :
    kind.Spells (q :: v) := by
  rw [List.cons_append, firstMatch_quote hq] at h
  obtain ⟨n, ht, he⟩ := Option.map_eq_some_iff.mp h
  obtain ⟨body, rest, hv, hb, rfl⟩ := through_singleton_eq_some.mp ht
  obtain ⟨rfl, hl⟩ := Prod.mk.inj he
  rw [List.append_cons] at hv
  obtain ⟨rfl, -⟩ := List.append_inj hv (by simpa using hl.symm)
  exact ⟨q, body, hq, hb, rfl⟩

theorem spells_of_symbol (hc : isSymbol c = true) (hk : kind ≠ .skip)
    (h : firstMatch table (c :: cs) = some (kind, n)) : kind.Spells ((c :: cs).take n) := by
  have hl : firstMatch layout (c :: cs) = none := by
    cases hl : firstMatch layout (c :: cs) with
    | none => rfl
    | some m =>
      rw [firstMatch_table, hl, Option.some_or] at h
      cases h
      have hm := kind_mem_of_firstMatch hl
      simp [layout, anchored] at hm
      exact absurd hm hk
  rw [firstMatch_symbol hc hl, Option.or_eq_some_iff] at h
  rcases h with h | ⟨-, h⟩
  · obtain ⟨rule, hr, rfl, hm⟩ := exists_rule_of_firstMatch h
    exact (isSpelled_punctuation rule hr).spells hm
  · obtain ⟨rule, hr, rfl, hm⟩ := exists_rule_of_firstMatch h
    exact (isSpelled_operators rule hr).spells hm

/-- A token is spelled as its kind is. -/
theorem spells_of_firstMatch (h : firstMatch table (v ++ w) = some (kind, v.length))
    (hk : kind ≠ .skip) : kind.Spells v := by
  rcases v with _ | ⟨c, v⟩
  · exact absurd (firstMatch_pos h) (Nat.lt_irrefl 0)
  by_cases hd : isDigit c = true
  · obtain ⟨rfl, hv⟩ := (matchesRun_of_isDigit hd).eq_of_firstMatch h
    exact ⟨by simp, hv⟩
  rw [Bool.not_eq_true] at hd
  by_cases hw : isWordChar c = true
  · obtain ⟨rfl, hv⟩ := (matchesRun_of_isWordChar hw hd).eq_of_firstMatch h
    exact spells_wordKind hv hd
  by_cases hq : c = '"' ∨ c = '\''
  · exact spells_of_quote hq h
  have hb := not_blank_of_ne_skip h hk
  have hs : isSymbol c = true := by
    rw [not_or] at hq
    simp [isSymbol, hb, hw, hq.1, hq.2]
  simpa using spells_of_symbol hs hk h

theorem takeWhile_isDigit_eq (h : firstMatch table (v ++ w) = some (.number, v.length)) :
    (v ++ w).takeWhile isDigit = v := by
  obtain ⟨hne, hd⟩ : IsNumeral v := spells_of_firstMatch h nofun
  obtain ⟨c, v, rfl⟩ := List.exists_cons_of_ne_nil hne
  exact (matchesRun_of_isDigit (hd c List.mem_cons_self)).takeWhile_eq h

theorem MatchesRun.firstMatch_eq {p : Char → Bool} {f : List Char → TokenKind}
    (h : MatchesRun p f c) (hv : ∀ a ∈ c :: v, p a = true) :
    firstMatch table (c :: v) = some (f (c :: v), (c :: v).length) := by
  rw [h, List.takeWhile_eq_self_iff.mpr hv]

theorem wordKind_of_isName (h : IsName v) : wordKind v = .identifier := by
  obtain ⟨-, -, -, -, -, hk⟩ := h
  rw [wordKind, List.find?_eq_none.mpr fun k hm => by simpa using hk k hm]
  rfl

/-- What is spelled as a kind is one token of this kind. -/
theorem firstMatch_of_spells (h : kind.Spells v) : firstMatch table v = some (kind, v.length) := by
  have hfew : ∀ text ∈ kind.spellings,
      firstMatch table text.toList = some (kind, text.toList.length) := by
    cases kind <;> decide +kernel
  cases kind
  case identifier =>
    rw [← wordKind_of_isName h]
    obtain ⟨c, rest, rfl, hd, hw, -⟩ := h
    exact (matchesRun_of_isWordChar (hw c List.mem_cons_self) hd).firstMatch_eq hw
  case number =>
    obtain ⟨hne, hd⟩ := h
    obtain ⟨c, rest, rfl⟩ := List.exists_cons_of_ne_nil hne
    exact (matchesRun_of_isDigit (hd c List.mem_cons_self)).firstMatch_eq hd
  case string =>
    obtain ⟨q, body, hq, hb, rfl⟩ := h
    have ht : through [q] (body ++ [q]) = some (body.length + 1) :=
      through_singleton_eq_some.mpr ⟨body, [], rfl, hb, rfl⟩
    rw [List.cons_append, firstMatch_quote hq, ht]
    simp
  all_goals simpa using hfew (String.ofList v) h

end Rule

theorem Reads.spells {position : ℕ} {s : List Char} {t : Token} {after : Lexer}
    (h : Reads position s (.ok t, after)) (ht : t.kind ≠ .eof) :
    t.kind.Spells t.value.toList := by
  cases h with
  | eof => exact absurd rfl ht
  | token _ hk hm => simpa using Rule.spells_of_firstMatch hm hk

theorem Reads.exists_facing {position : ℕ} {s : List Char} {r : Except Error Token}
    {after : Lexer} (h : Reads position s (r, after)) :
    ∃ q w, after = .facing Rule.table q w := by
  cases h with
  | eof | token | stuck => exact ⟨_, _, rfl⟩

open TokenStream in
theorem Lexer.spells_of_gives {position : ℕ} {s : List Char} {ts : List Token} {rest : Lexer}
    (h : Gives (facing Rule.table position s) ts rest) :
    ∀ t ∈ ts, t.kind ≠ .eof → t.kind.Spells t.value.toList := by
  induction ts generalizing position s with
  | nil => simp
  | cons t ts ih =>
    obtain ⟨left, hn, h⟩ := h
    have hr : Reads position s (.ok t, left) := hn ▸ reads_next position s
    obtain ⟨q, w, rfl⟩ := hr.exists_facing
    exact List.forall_mem_cons.mpr ⟨hr.spells, ih h⟩

def Lexeme.ofSpells (kind : TokenKind) (value : String) (h : kind.Spells value.toList) :
    Lexeme where
  kind := kind
  value := value
  contents_value := by
    have hm : Rule.firstMatch Rule.table (value.toList ++ []) =
        some (kind, value.toList.length) := by
      rw [List.append_nil, Rule.firstMatch_of_spells h]
    have hk : kind ≠ .skip ∧ kind ≠ .eof := by
      constructor <;> rintro rfl <;> cases h
    refine contents_eq_ok.mpr ⟨[⟨kind, value, ⟨0, 0 + Text.size value.toList⟩⟩,
      Token.eof (0 + Text.size value.toList)], ?_, rfl⟩
    rw [Lexer.ofText, ← List.append_nil value.toList, Lexer.run_eq, Lexer.next_lexeme hm hk.1]
    simp [hk.2, Lexer.run_eq, Lexer.next_facing_nil, Token.eof]

end Frontend
