import Frontend.Proofs.Token.Giving
import Frontend.Proofs.Token.Reading
import Frontend.Token.ByteCursor
import Mathlib.Logic.Relation

/-! # Where the cursor goes

Whatever its rules are, a lexer moves over one match after the other. A call ends behind a match
that is a token, or where no move can be made: at the end of the text, or in front of text that no
rule matches. The cursor always stands at a boundary between characters of the text.
-/

namespace Frontend

open Text TokenStream

namespace Lexer

variable {lexer left left' after : Lexer} {text : List Char} {r : Except Error Token × Lexer}
  {t : Token} {ts : List Token} {e : Error} {n : ℕ}

/-- The cursor passes over what the first rule that matches takes. -/
inductive Moves (lexer : Lexer) : Lexer → Prop where

  | over {kind : TokenKind} {n : ℕ} : lexer.rest ≠ [] →
      Rule.firstMatch lexer.rules lexer.rest = some (kind, n) → Moves lexer (lexer.drop n)

/-- The cursor gets from one place to another by moves, maybe none. -/
def Reaches : Lexer → Lexer → Prop := Relation.ReflTransGen Moves

theorem moves_rightUnique : Relator.RightUnique Moves := by
  rintro lexer _ _ ⟨-, h⟩ ⟨-, h'⟩
  cases h.symm.trans h'
  rfl

theorem Moves.position_lt (h : lexer.Moves left) : lexer.position < left.position := by
  obtain ⟨hr, hm⟩ := h
  obtain ⟨n, rfl⟩ := Nat.exists_eq_add_one.mpr (Rule.firstMatch_pos hm)
  obtain ⟨c, cs, hc⟩ := List.exists_cons_of_ne_nil hr
  have := c.utf8Size_pos
  rw [position_drop, hc, List.take_succ_cons, size_cons]
  omega

theorem Reaches.position_le (h : lexer.Reaches left) : lexer.position ≤ left.position := by
  induction h with
  | refl => exact le_rfl
  | tail _ hm ih => exact ih.trans hm.position_lt.le

theorem Reaches.rules_eq (h : lexer.Reaches left) : left.rules = lexer.rules := by
  induction h with
  | refl => rfl
  | tail _ hm ih =>
    cases hm
    exact ih

theorem not_moves_of_rest_eq_nil (hr : lexer.rest = []) (left : Lexer) : ¬ lexer.Moves left := by
  rintro ⟨h, -⟩
  exact h hr

theorem not_moves_of_firstMatch_eq_none (hm : Rule.firstMatch lexer.rules lexer.rest = none)
    (left : Lexer) : ¬ lexer.Moves left := by
  rintro ⟨-, h⟩
  cases hm.symm.trans h

theorem Reaches.eq_of_not_moves (h : lexer.Reaches left) (h' : lexer.Reaches left')
    (hl : ∀ l, ¬ left.Moves l) (hl' : ∀ l, ¬ left'.Moves l) : left = left' := by
  have heq {a b : Lexer} (hab : a.Reaches b) (ha : ∀ l, ¬ a.Moves l) : a = b := by
    rcases Relation.ReflTransGen.cases_head hab with he | ⟨l, hm, -⟩
    · exact he
    · exact absurd hm (ha l)
  rcases Relation.ReflTransGen.total_of_right_unique moves_rightUnique h h' with hll | hll
  · exact heq hll hl
  · exact (heq hll hl').symm

/-- The cursor divides a text between two characters. -/
def Divides (lexer : Lexer) (text : List Char) : Prop :=
  ∃ read, text = read ++ lexer.rest ∧ lexer.position = size read

theorem divides_ofText (text : String) (rules : List Rule) :
    (ofText text rules).Divides text.toList := ⟨[], rfl, rfl⟩

theorem Moves.divides (h : lexer.Moves left) (hd : lexer.Divides text) : left.Divides text := by
  obtain @⟨_, n, -, -⟩ := h
  obtain ⟨read, rfl, hp⟩ := hd
  exact ⟨read ++ lexer.rest.take n, by simp, by simp [hp]⟩

theorem Reaches.divides (h : lexer.Reaches left) (hd : lexer.Divides text) : left.Divides text := by
  induction h with
  | refl => exact hd
  | tail _ hm ih => exact hm.divides ih

theorem Divides.position_le (h : lexer.Divides text) : lexer.position ≤ size text := by
  obtain ⟨read, rfl, hp⟩ := h
  rw [hp, size_append]
  exact Nat.le_add_right _ _

theorem facing_eq (lexer : Lexer) : facing lexer.rules lexer.position lexer.rest = lexer := by
  obtain ⟨rules, position, rest, ahead, rfl⟩ := lexer
  rfl

theorem Reaches.facing_eq (h : lexer.Reaches left) :
    facing lexer.rules left.position left.rest = left := by
  rw [← h.rules_eq, left.facing_eq]

theorem moved_size (rules : List Rule) (position : ℕ) (read s : List Char) :
    ByteCursor.moved rules position (read ++ s) (size read) =
      .aligned (facing rules (position + size read) s) := by
  induction read generalizing position with
  | nil => cases s <;> rfl
  | cons c read ih =>
    obtain ⟨k, hk⟩ := Nat.exists_eq_add_one.mpr c.utf8Size_pos
    have hsize : size (c :: read) = k + size read + 1 := by
      rw [size_cons, hk]
      omega
    rw [hsize, List.cons_append, ByteCursor.moved, if_pos (by omega)]
    have hrest : k + size read + 1 - c.utf8Size = size read := by omega
    rw [hrest, ih]
    congr 2
    omega

theorem Divides.advance_eq {text : String} {rules : List Rule} (h : lexer.Divides text.toList)
    (hr : lexer.rules = rules) :
    (ByteCursor.aligned (ofText text rules)).advance lexer.position = .aligned lexer := by
  obtain ⟨read, ht, hp⟩ := h
  rw [hp]
  change ByteCursor.moved rules 0 text.toList (size read) = _
  rw [ht, moved_size, Nat.zero_add, ← hr, ← hp, facing_eq]

/-- What a call gives where it makes its last move or none. -/
inductive Halts (lexer : Lexer) : Except Error Token × Lexer → Prop where

  | eof : lexer.rest = [] → Halts lexer (.ok (Token.eof lexer.position), lexer)

  | stuck : lexer.rest ≠ [] → Rule.firstMatch lexer.rules lexer.rest = none →
      Halts lexer (.error lexer.stuck, lexer)

  | token {kind : TokenKind} {n : ℕ} : lexer.rest ≠ [] →
      Rule.firstMatch lexer.rules lexer.rest = some (kind, n) → kind ≠ .skip →
      Halts lexer (.ok (lexer.lexeme kind n), lexer.drop n)

theorem exists_halts (lexer : Lexer) : ∃ left, lexer.Reaches left ∧ left.Halts lexer.next := by
  fun_induction next lexer with
  | case1 lexer hr => exact ⟨lexer, .refl, .eof hr⟩
  | case2 lexer hr hm => exact ⟨lexer, .refl, .stuck hr hm⟩
  | case3 lexer hr n hm ih =>
    obtain ⟨left, hl, hh⟩ := ih
    exact ⟨left, .head ⟨hr, hm⟩ hl, hh⟩
  | case4 lexer hr kind n hm hk => exact ⟨lexer, .refl, .token hr hm hk⟩

theorem Halts.next_eq (h : left.Halts r) : left.next = r := by
  cases h with
  | eof hr =>
    rw [next, if_pos hr]
  | stuck hr hm => exact next_of_firstMatch_eq_none hr hm
  | token hr hm hk => rw [next_of_firstMatch hr hm, if_neg hk]

theorem Halts.reaches (h : left.Halts r) : left.Reaches r.2 := by
  cases h with
  | eof | stuck => exact .refl
  | token hr hm => exact .single ⟨hr, hm⟩

theorem reaches_next (lexer : Lexer) : lexer.Reaches lexer.next.2 := by
  obtain ⟨left, hl, hh⟩ := lexer.exists_halts
  exact hl.trans hh.reaches

theorem reaches_after (n : ℕ) (lexer : Lexer) : lexer.Reaches (TokenStream.after n lexer) := by
  induction n generalizing lexer with
  | zero => exact .refl
  | succ n ih => exact lexer.reaches_next.trans (ih _)

theorem reaches_of_gives (h : Gives lexer ts left) : lexer.Reaches left := by
  induction ts generalizing lexer with
  | nil =>
    cases h
    exact .refl
  | cons t ts ih =>
    obtain ⟨left', hn, h⟩ := h
    have hnext : lexer.next.2 = left' := congrArg Prod.snd hn
    exact (hnext ▸ lexer.reaches_next).trans (ih h)

theorem start_lt_of_next (h : lexer.next = (.ok t, after)) (ht : t.kind ≠ .eof) :
    t.span.start < after.position := by
  obtain ⟨left, -, hh⟩ := lexer.exists_halts
  rw [h] at hh
  cases hh with
  | eof => exact absurd rfl ht
  | token hr hm => exact (Moves.over hr hm).position_lt

theorem position_le_of_error (h : lexer.next = (.error e, after)) :
    lexer.position ≤ e.position := by
  obtain ⟨left, hl, hh⟩ := lexer.exists_halts
  rw [h] at hh
  cases hh
  exact hl.position_le

theorem start_lt_of_gives (hts : ∀ t ∈ ts, t.kind ≠ .eof) (h : Gives lexer ts after) :
    ∀ t ∈ ts, t.span.start < after.position := by
  induction ts generalizing lexer with
  | nil => simp
  | cons t ts ih =>
    obtain ⟨ht, hts⟩ := List.forall_mem_cons.mp hts
    obtain ⟨left, hn, h⟩ := h
    have hlt := (start_lt_of_next hn ht).trans_le (reaches_of_gives h).position_le
    exact List.forall_mem_cons.mpr ⟨hlt, ih hts h⟩

/-- Where the cursor gets, the pulls are those of the lexer behind some first ones. -/
theorem Reaches.exists_pull_eq (h : lexer.Reaches left) :
    ∃ n, ∀ m, pull (n + m) lexer = pull m left := by
  induction h using Relation.ReflTransGen.head_induction_on with
  | refl => exact ⟨0, fun m => by rw [Nat.zero_add]⟩
  | @head lexer after hm _ ih =>
    obtain ⟨n, ih⟩ := ih
    obtain @⟨kind, k, hr, hm⟩ := hm
    have hn := next_of_firstMatch hr hm
    by_cases hk : kind = .skip
    · rw [if_pos hk] at hn
      have hpull (m : ℕ) : pull m lexer = pull m (lexer.drop k) := by
        cases m with
        | zero => exact congrArg Prod.fst hn
        | succ m => exact congrArg (pull m ·.2) hn
      exact ⟨n, fun m => (hpull _).trans (ih m)⟩
    · rw [if_neg hk] at hn
      have hpull (m : ℕ) : pull (m + 1) lexer = pull m (lexer.drop k) := by
        change pull m lexer.next.2 = _
        rw [hn]
      exact ⟨n + 1, fun m => by rw [Nat.add_right_comm, hpull, ih]⟩

end Lexer

end Frontend
