import Frontend.Proofs.Token.Cursor
import Frontend.Proofs.Token.Partition

/-! # Progress

A lexer may have any rules: some may match layout or nothing, others may be of the kind that ends
the input. Every token it gives takes some of the text, so that no more tokens come than there are
bytes. From then on all calls answer alike, with the end of input or with one error.
-/

namespace Frontend

open Text TokenStream

namespace Lexer

variable {lexer left : Lexer} {text : List Char} {rules : List Rule} {t : Token}
  {r : Except Error Token × Lexer} {n : ℕ}

/-- A token that is some of a text, and stands there where its span says. -/
def IsPiece (text : List Char) (t : Token) : Prop :=
  t.value ≠ "" ∧ Slice text t.span.start t.span.stop t.value.toList

/-- The answer where a lexer cannot go on: the end of input at the end of the text, or an error
about text that no rule matches. -/
def IsFinal (text : List Char) (rules : List Rule) : Except Error Token → Prop
  | .ok t => t = Token.eof (size text)
  | .error e => ∃ read left, text = read ++ left ∧ left ≠ [] ∧
      (∀ rule ∈ rules, rule.matchLength left = none) ∧
        e = ⟨.unmatchedText (String.ofList (left.take quotedLength)), size read⟩

theorem isPiece_lexeme (hd : lexer.Divides text) (hr : lexer.rest ≠ []) (hn : 0 < n)
    (kind : TokenKind) : IsPiece text (lexer.lexeme kind n) := by
  obtain ⟨read, rfl, hp⟩ := hd
  refine ⟨?_, read, lexer.rest.drop n, ?_, hp.symm, ?_⟩
  · simp [lexeme, hr, hn.ne']
  · simp [lexeme]
  · simp [lexeme, hp]

theorem isFinal_eof (hd : lexer.Divides text) (hr : lexer.rest = []) :
    IsFinal text rules (.ok (Token.eof lexer.position)) := by
  obtain ⟨read, rfl, hp⟩ := hd
  rw [IsFinal, hr, List.append_nil, hp]

theorem isFinal_stuck (hd : lexer.Divides text) (hr : lexer.rest ≠ [])
    (hm : Rule.firstMatch lexer.rules lexer.rest = none) :
    IsFinal text lexer.rules (.error lexer.stuck) := by
  obtain ⟨read, ht, hp⟩ := hd
  exact ⟨read, lexer.rest, ht, hr, Rule.firstMatch_eq_none_iff_forall.mp hm, by rw [stuck, hp]⟩

theorem Halts.piece_or_final (h : left.Halts r) (hd : left.Divides text) :
    (∃ t, r.1 = .ok t ∧ IsPiece text t ∧ r.2.position = t.span.stop ∧
      left.position < r.2.position) ∨ (IsFinal text left.rules r.1 ∧ r.2 = left) := by
  cases h with
  | eof hr => exact .inr ⟨isFinal_eof hd hr, rfl⟩
  | stuck hr hm => exact .inr ⟨isFinal_stuck hd hr hm, rfl⟩
  | @token kind n hr hm hk =>
    have hpiece := isPiece_lexeme hd hr (Rule.firstMatch_pos hm) kind
    exact .inl ⟨_, rfl, hpiece, rfl, (Moves.over hr hm).position_lt⟩

theorem Halts.pull_eq (h : left.Halts r) (hr : r.2 = left) (n : ℕ) : pull n left = r.1 := by
  induction n with
  | zero => exact congrArg Prod.fst h.next_eq
  | succ n ih =>
    change pull n left.next.2 = _
    rw [h.next_eq, hr, ih]

theorem settles (hd : lexer.Divides text) : ∃ k, lexer.position + k ≤ size text ∧
    (∀ n < k, ∃ t, pull n lexer = .ok t ∧ IsPiece text t ∧
      (after (n + 1) lexer).position = t.span.stop) ∧
    IsFinal text lexer.rules (pull k lexer) ∧ ∀ n ≥ k, pull n lexer = pull k lexer := by
  induction hs : size text - lexer.position using Nat.strong_induction_on generalizing lexer with
  | _ s ih =>
    obtain ⟨left, hl, hh⟩ := lexer.exists_halts
    have hle := hl.position_le
    have hd' := hl.divides hd
    rcases hh.piece_or_final hd' with ⟨t, ht, hpiece, hstop, hlt⟩ | ⟨hfinal, hsame⟩
    · have hbound := (lexer.reaches_next.divides hd).position_le
      obtain ⟨k, hk, hpieces, hfinal, hrest⟩ :=
        ih _ (by omega) (lexer.reaches_next.divides hd) rfl
      rw [lexer.reaches_next.rules_eq] at hfinal
      refine ⟨k + 1, by omega, ?_, hfinal, ?_⟩
      · rintro (_ | n) hn
        · exact ⟨t, ht, hpiece, hstop⟩
        · exact hpieces n (by omega)
      · rintro (_ | n) hn
        · omega
        · exact hrest n (by omega)
    · have hpull : ∀ n, pull n lexer = lexer.next.1 := by
        rintro (_ | n)
        · rfl
        · change pull n lexer.next.2 = _
          rw [hsame, hh.pull_eq hsame]
      refine ⟨0, hd.position_le, nofun, ?_, fun n _ => (hpull n).trans (hpull 0).symm⟩
      rw [hpull, ← hl.rules_eq]
      exact hfinal

/-- How a lexer goes through a text, however often it is called. -/
structure GoesThrough (lexer : Lexer) (text : String) : Prop where
  /-- The bytes that have been passed over, also within a call, lead to a place between two
  characters of the text. -/
  aligned : ∀ left, lexer.Reaches left → left.position ≤ text.utf8ByteSize ∧
    (ByteCursor.aligned lexer).advance left.position = .aligned left
  forward : ∀ n, lexer.Reaches (after n lexer) ∧
    (after n lexer).position ≤ (after (n + 1) lexer).position
  piece : ∀ n t, pull n lexer = .ok t → t ≠ Token.eof text.utf8ByteSize →
    IsPiece text.toList t ∧ (after (n + 1) lexer).position = t.span.stop
  settled : ∃ k ≤ text.utf8ByteSize,
    (∀ n < k, ∃ t, pull n lexer = .ok t ∧ t ≠ Token.eof text.utf8ByteSize) ∧
      IsFinal text.toList lexer.rules (pull k lexer) ∧ ∀ n ≥ k, pull n lexer = pull k lexer

theorem IsPiece.ne_eof (h : IsPiece text t) (position : ℕ) : t ≠ Token.eof position := by
  rintro rfl
  exact h.1 rfl

/-- A lexer goes through every text, whatever its rules are. -/
theorem goesThrough_ofText (text : String) (rules : List Rule) :
    (ofText text rules).GoesThrough text := by
  have hd := divides_ofText text rules
  obtain ⟨k, hk, hpieces, hfinal, hrest⟩ := settles hd
  rw [size_toList] at hk
  constructor
  case aligned =>
    intro left hl
    rw [← size_toList]
    exact ⟨(hl.divides hd).position_le, (hl.divides hd).advance_eq hl.rules_eq⟩
  case forward =>
    intro n
    rw [after_succ]
    exact ⟨reaches_after n _, (reaches_next _).position_le⟩
  case piece =>
    intro n t ht hne
    rcases Nat.lt_or_ge n k with hn | hn
    · obtain ⟨u, hu, hpiece, hstop⟩ := hpieces n hn
      cases ht.symm.trans hu
      exact ⟨hpiece, hstop⟩
    · rw [← hrest n hn, ht, IsFinal, size_toList] at hfinal
      exact absurd hfinal hne
  case settled =>
    refine ⟨k, by omega, fun n hn => ?_, hfinal, hrest⟩
    obtain ⟨t, ht, hpiece, -⟩ := hpieces n hn
    exact ⟨t, ht, hpiece.ne_eof _⟩

end Lexer

end Frontend
