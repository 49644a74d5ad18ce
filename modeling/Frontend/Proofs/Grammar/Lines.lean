import Frontend.Proofs.Grammar.Boundary
import Frontend.Proofs.Token.Spelling

/-! # Texts behind whole lines

The lines of a program do not take in what is written behind them: no token goes
on there, no comment is open, and no sign of multiplication meets another. So the
tokens of the lines stay, and the text behind is read as it is alone.
-/

namespace Frontend

open TokenStream Text

/-- Behind each sign of multiplication stands a token that begins an expression. -/
def Followed : List Token → Prop
  | [] => True
  | t :: ts => (t.kind = .multiplicativeOp → StartsWith TokenKind.startsExpression ts) ∧ Followed ts

theorem composable_followed : Composable Followed where
  nil := trivial
  append {ts us} h h' := by
    induction ts with
    | nil => exact h'
    | cons t ts ih => exact ⟨fun hk => (h.1 hk).append, ih h.2⟩
  cons _ hk h := ⟨fun he => absurd he hk, h⟩
  factor _ hs h := ⟨fun _ => hs, h⟩

namespace TokenKind.Spells

variable {kind : TokenKind} {c : Char} {v : List Char}

theorem mem_spellings (h : kind.Spells (c :: v)) (hc : Rule.isSymbol c = true) :
    String.ofList (c :: v) ∈ kind.spellings := by
  simp only [Rule.isSymbol, Bool.and_eq_true, Bool.not_eq_true', bne_iff_ne] at hc
  obtain ⟨⟨⟨-, hw⟩, hq⟩, hq'⟩ := hc
  cases kind
  case identifier =>
    obtain ⟨c', rest, he, -, hv, -⟩ := h
    exact absurd (hv c (he ▸ List.mem_cons_self)) (by simp [hw])
  case number =>
    have hd := Rule.isWordChar_of_isDigit (h.2 c List.mem_cons_self)
    exact absurd hd (by simp [hw])
  case string =>
    obtain ⟨q, body, hq, -, he⟩ := h
    obtain ⟨rfl, -⟩ := List.cons.inj he
    rcases hq with rfl | rfl <;> contradiction
  all_goals exact h

theorem eq_multiplicativeOp (h : kind.Spells ['/']) : kind = .multiplicativeOp := by
  have hm := h.mem_spellings rfl
  revert hm
  cases kind <;> decide

theorem startsExpression_eq_false (h : kind.Spells ('*' :: v)) : kind.startsExpression = false := by
  have hs : ∀ text ∈ kind.spellings, text.toList.head? = some '*' →
      kind.startsExpression = false := by cases kind <;> decide
  exact hs _ (h.mem_spellings rfl) (by simp)

theorem getLast?_ne (h : kind.Spells v) : v.getLast? ≠ some '\n' := by
  intro hl
  have hmem := List.mem_of_getLast? hl
  have hs : ∀ text ∈ kind.spellings, '\n' ∉ text.toList := by cases kind <;> decide
  cases kind
  case identifier =>
    obtain ⟨c, rest, rfl, -, hw, -⟩ := h
    exact absurd (hw _ hmem) (by decide)
  case number => exact absurd (h.2 _ hmem) (by decide)
  case string =>
    obtain ⟨q, body, hq, -, rfl⟩ := h
    rw [List.getLast?_concat] at hl
    cases hl
    rcases hq with hq | hq <;> cases hq
  all_goals exact hs _ h (by simpa using hmem)

end TokenKind.Spells

/-- A text that is made of lines, all of which end. -/
def EndsLine (s : List Char) : Prop := ∀ c ∈ s.getLast?, c = '\n'

section

variable {s v w : List Char} {position : ℕ} {ts : List Token} {t : Token} {after rest : Lexer}

theorem EndsLine.of_append (h : EndsLine (s ++ w)) : EndsLine w := by
  intro c hc
  apply h
  rw [List.getLast?_append, hc]
  rfl

theorem IsFinalLayout.isLayout (h : IsFinalLayout s) (hs : EndsLine s) : IsLayout s := by
  rcases h with h | ⟨t, body, -, hb, rfl⟩
  · exact h
  · have hne : '/' :: '/' :: body ≠ [] := List.cons_ne_nil _ _
    have hlast := hs.of_append _ (List.getLast?_eq_some_getLast hne)
    have hmem := List.getLast_mem hne
    rw [hlast] at hmem
    exact absurd (by simpa using hmem) hb

namespace Lexer

theorem startsExpression_of_next_star
    (h : (facing Rule.table position ('*' :: s)).next = (.ok t, after)) :
    t.kind.startsExpression = false := by
  have hr := reads_next position ('*' :: s)
  rw [h] at hr
  generalize hw : '*' :: s = w at hr
  cases hr with
  | eof => rfl
  | @token gap v w kind hl hk hm =>
    rcases gap with _ | ⟨c, gap⟩
    · have hne := List.length_pos_iff.mp (Rule.firstMatch_pos hm)
      obtain ⟨d, v, rfl⟩ := List.exists_cons_of_ne_nil hne
      obtain ⟨rfl, -⟩ := List.cons.inj hw
      exact (Rule.spells_of_firstMatch hm hk).startsExpression_eq_false
    · obtain ⟨rfl, -⟩ := List.cons.inj hw
      exact absurd hl.head_cases (by decide)

/-- Tokens with whole lines around them are read alike before every text, which then stands
behind all of the lines. -/
theorem gives_append (hs : EndsLine s) (hf : Followed ts) (hts : EndFree ts)
    (h : Gives (facing Rule.table position s) ts rest) (hrest : rest.next = (.ok t, after))
    (ht : t.kind = .eof) (w : List Char) :
    ∃ left, Gives (facing Rule.table position (s ++ w)) ts left ∧
      left.next = (facing Rule.table (position + size s) w).next := by
  induction ts generalizing position s with
  | nil =>
    cases h
    have hr := reads_next position s
    rw [hrest] at hr
    cases hr with
    | eof hl => exact ⟨_, rfl, (hl.isLayout hs).next position w⟩
    | token _ _ hm => exact absurd ht (Rule.ne_eof_of_firstMatch hm)
  | cons u ts ih =>
    obtain ⟨left, hn, h⟩ := h
    obtain ⟨hu, hts'⟩ := List.forall_mem_cons.mp hts
    have hr := reads_next position s
    rw [show (facing Rule.table position s).next = _ from hn] at hr
    cases hr with
    | eof => exact absurd rfl hu
    | @token gap v s' kind hl hk hm =>
      have hv := Rule.spells_of_firstMatch hm hk
      obtain ⟨d, s', rfl⟩ : ∃ d s'', s' = d :: s'' := by
        rcases s' with _ | ⟨d, s'⟩
        · have hne := List.length_pos_iff.mp (Rule.firstMatch_pos hm)
          have hlast := List.getLast?_eq_some_getLast hne
          rw [List.append_nil] at hs
          exact absurd (hlast.trans (congrArg some (hs.of_append _ hlast))) hv.getLast?_ne
        · exact ⟨d, s', rfl⟩
      have hslash : v = ['/'] → d ≠ '*' := by
        rintro rfl rfl
        obtain ⟨t', ts', rfl, ht'⟩ := (hf.1 hv.eq_multiplicativeOp).exists_cons
        obtain ⟨left', hn', -⟩ := h
        exact absurd ht' (by rw [startsExpression_of_next_star hn']; decide)
      have hm' := Rule.firstMatch_append_cons hm hk hslash (s' ++ w)
      obtain ⟨left', hg, hl'⟩ := ih hs.of_append.of_append hf.2 hts' h
      refine ⟨left', ⟨_, ?_, hg⟩, ?_⟩
      · have he : gap ++ (v ++ d :: s') ++ w = gap ++ (v ++ d :: (s' ++ w)) := by simp
        rw [he]
        exact (hl.next position _).trans (next_lexeme hm' hk)
      · simpa [Nat.add_assoc] using hl'

end Lexer

end

end Frontend
