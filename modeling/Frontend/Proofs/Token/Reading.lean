import Frontend.Proofs.Token.Layout

/-! # One pull of the lexer

In front of a text the lexer passes over layout. Behind the layout it finds the
end of the text, a token, or a place where no rule matches.
-/

namespace Frontend

open Text

namespace Rule

open Matcher

variable {cs : List Char} {kind : TokenKind} {n : ℕ}

theorem exists_rule_of_firstMatch {rules : List Rule} (h : firstMatch rules cs = some (kind, n)) :
    ∃ rule ∈ rules, rule.kind = kind ∧ rule.matchLength cs = some n := by
  obtain ⟨rule, hr, h⟩ := List.exists_of_findSome?_eq_some h
  obtain ⟨m, hm, he⟩ := Option.map_eq_some_iff.mp h
  cases he
  exact ⟨rule, hr, rfl, hm⟩

theorem kind_mem_of_firstMatch {rules : List Rule} (h : firstMatch rules cs = some (kind, n)) :
    kind ∈ rules.map Rule.kind := by
  obtain ⟨rule, hr, rfl, -⟩ := exists_rule_of_firstMatch h
  exact List.mem_map_of_mem hr

theorem ne_eof_of_firstMatch (h : firstMatch table cs = some (kind, n)) : kind ≠ .eof := by
  rintro rfl
  exact absurd (kind_mem_of_firstMatch h) (by decide)

theorem firstMatch_layout_of_skip (h : firstMatch table cs = some (.skip, n)) :
    firstMatch layout cs = some (.skip, n) := by
  simp only [table, List.append_assoc] at h
  rw [firstMatch_append, Option.or_eq_some_iff] at h
  rcases h with h | ⟨-, h⟩
  · exact h
  · exact absurd (kind_mem_of_firstMatch h) (by decide)

theorem exists_of_through {cs : List Char} {n : ℕ} (h : through ['*', '/'] cs = some n) :
    ∃ body rest, cs = body ++ '*' :: '/' :: rest ∧ ¬ ['*', '/'] <:+: body := by
  induction cs generalizing n with
  | nil => cases h
  | cons c cs ih =>
    rw [through] at h
    split at h
    · rename_i hp
      obtain ⟨rest, hr⟩ := List.isPrefixOf_iff_prefix.mp hp
      exact ⟨[], rest, hr.symm, by simp⟩
    · rename_i hp
      obtain ⟨m, hm, -⟩ := Option.map_eq_some_iff.mp h
      obtain ⟨body, rest, rfl, hb⟩ := ih hm
      refine ⟨c :: body, rest, rfl, fun hi => ?_⟩
      rcases List.infix_cons_iff.mp hi with hi | hi
      · exact hp (List.isPrefixOf_iff_prefix.mpr (hi.trans ⟨_, rfl⟩))
      · exact hb hi

theorem layout_of_lineComment (cs : List Char) : IsFinalLayout ('/' :: '/' :: cs) ∨
    ∃ s w, s ≠ [] ∧ IsLayout s ∧ '/' :: '/' :: cs = s ++ w := by
  have hb : '\n' ∉ cs.takeWhile (· != '\n') := fun hm => by simpa using List.mem_takeWhile_imp hm
  have he := List.takeWhile_append_dropWhile (p := (· != '\n')) (l := cs)
  cases hs : cs.dropWhile (· != '\n') with
  | nil =>
    rw [hs, List.append_nil] at he
    rw [he] at hb
    exact .inl (.inr ⟨[], cs, .nil, hb, rfl⟩)
  | cons d w =>
    have hd : d = '\n' := by
      have hh := List.head?_dropWhile_not (· != '\n') cs
      simpa [hs] using hh
    rw [hs, hd] at he
    refine .inr ⟨_, w, by simp, .line hb .nil, ?_⟩
    simpa using he.symm

theorem layout_of_skip (h : firstMatch table cs = some (.skip, n)) :
    IsFinalLayout cs ∨ ∃ s w, s ≠ [] ∧ IsLayout s ∧ cs = s ++ w := by
  have hl := firstMatch_layout_of_skip h
  rcases cs with _ | ⟨c, cs⟩
  · cases hl
  by_cases hb : isBlank c = true
  · exact .inr ⟨[c], cs, by simp, .blank hb .nil, rfl⟩
  rw [Bool.not_eq_true] at hb
  by_cases hc : '/' = c
  · subst hc
    rcases cs with _ | ⟨d, cs⟩
    · cases hl
    by_cases hd : d = '/'
    · subst hd
      exact layout_of_lineComment cs
    by_cases hd' : d = '*'
    · subst hd'
      rw [firstMatch_blockComment] at h
      split at h
      · rename_i ht
        obtain ⟨body, rest, rfl, hi⟩ := exists_of_through ht
        exact .inr ⟨_, rest, by simp, .block hi .nil, by simp⟩
      · cases h
    · cases (firstMatch_layout_cons hb (fun _ => ⟨hd, hd'⟩) cs).symm.trans hl
  · cases (firstMatch_layout hb hc cs).symm.trans hl

end Rule

theorem IsLayout.append {s w : List Char} (h : IsLayout s) (hw : IsLayout w) :
    IsLayout (s ++ w) := by
  induction h with
  | nil => exact hw
  | blank hc _ ih => exact .blank hc ih
  | line hb _ ih => simpa using IsLayout.line hb ih
  | block hb _ ih => simpa using IsLayout.block hb ih

theorem IsLayout.append_final {s w : List Char} (h : IsLayout s) (hw : IsFinalLayout w) :
    IsFinalLayout (s ++ w) := by
  rcases hw with hw | ⟨t, body, ht, hb, rfl⟩
  · exact .inl (h.append hw)
  · exact .inr ⟨s ++ t, body, h.append ht, hb, by simp⟩

/-- What the lexer makes of a text that stands behind a position. -/
inductive Reads (position : ℕ) : List Char → Except Error Token × Lexer → Prop where

  | eof {gap : List Char} : IsFinalLayout gap →
      Reads position gap (.ok (Token.eof (position + size gap)),
        .facing Rule.table (position + size gap) [])

  | token {gap v w : List Char} {kind : TokenKind} : IsLayout gap → kind ≠ .skip →
      Rule.firstMatch Rule.table (v ++ w) = some (kind, v.length) →
      Reads position (gap ++ (v ++ w))
        (.ok ⟨kind, String.ofList v, ⟨position + size gap, position + size gap + size v⟩⟩,
          .facing Rule.table (position + size gap + size v) w)

  | stuck {gap w : List Char} : IsLayout gap → w ≠ [] → Rule.firstMatch Rule.table w = none →
      Reads position (gap ++ w) (.error (Lexer.facing Rule.table (position + size gap) w).stuck,
        .facing Rule.table (position + size gap) w)

theorem Reads.append {position : ℕ} {s w : List Char} {r : Except Error Token × Lexer}
    (hs : IsLayout s) (h : Reads (position + size s) w r) : Reads position (s ++ w) r := by
  cases h with
  | eof h =>
    rw [Nat.add_assoc, ← size_append]
    exact .eof (hs.append_final h)
  | token h hk hm =>
    rw [Nat.add_assoc position, ← size_append, ← List.append_assoc]
    exact .token (hs.append h) hk hm
  | stuck h hw hm =>
    rw [Nat.add_assoc, ← size_append, ← List.append_assoc]
    exact .stuck (hs.append h) hw hm

theorem Lexer.next_of_firstMatch_eq_none {lexer : Lexer} (hr : lexer.rest ≠ [])
    (hm : Rule.firstMatch lexer.rules lexer.rest = none) :
    lexer.next = (.error lexer.stuck, lexer) := by
  rw [next, if_neg hr]
  split
  · rfl
  · rename_i h
    cases hm.symm.trans h

/-- Layout is passed over in pieces, so the induction is on the length of the text. -/
theorem Lexer.reads_next (position : ℕ) (s : List Char) :
    Reads position s (facing Rule.table position s).next := by
  induction hn : s.length using Nat.strong_induction_on generalizing position s with
  | _ n ih =>
    rcases eq_or_ne s [] with rfl | hne
    · rw [next_facing_nil]
      exact .eof (.inl .nil)
    cases hm : Rule.firstMatch Rule.table s with
    | none =>
      rw [next_of_firstMatch_eq_none hne hm]
      exact .stuck .nil hne hm
    | some m =>
      obtain ⟨kind, n⟩ := m
      by_cases hk : kind = .skip
      · subst hk
        rcases Rule.layout_of_skip hm with hf | ⟨t, w, ht, hl, rfl⟩
        · rw [hf.next]
          exact .eof hf
        · have hpos := List.length_pos_iff.mpr ht
          rw [List.length_append] at hn
          rw [hl.next]
          exact .append hl (ih w.length (by omega) _ w rfl)
      · have hle := Rule.length_le_of_firstMatch hm
        have hlen : (s.take n).length = n := by rw [List.length_take, Nat.min_eq_left hle]
        rw [← List.take_append_drop n s, ← hlen] at hm
        rw [← List.take_append_drop n s, ← hlen, next_lexeme (by simpa using hm) hk]
        exact .token .nil hk (by simpa using hm)

theorem Lexer.eq_eof_of_next {position : ℕ} {s : List Char} {t : Token} {after : Lexer}
    (h : (facing Rule.table position s).next = (.ok t, after)) (ht : t.kind = .eof) :
    t = Token.eof (position + size s) := by
  have hr := reads_next position s
  rw [h] at hr
  cases hr with
  | eof => rfl
  | token _ _ hm => exact absurd ht (Rule.ne_eof_of_firstMatch hm)

end Frontend
