import Frontend.Proofs.Grammar.Blame
import Frontend.Proofs.Token.Spelling

/-! # Errors point at the text they describe

The position of an error is a boundary between characters of the text. What the error
says is said of the token that stands there, of the tokens before it, of the end of the
text, or of a rest of the text that no rule matches.
-/

namespace Frontend

open Text TokenStream Frontend.Parser

variable {text : List Char} {t : Token} {ts : List Token} {e : Error}

/-- A token stands in a text where its span says: it is the end of input at the end of the text,
or what the first rule that matches there takes. -/
inductive StandsIn (text : List Char) (t : Token) : Prop where

  | eof : t.kind = .eof → size text = t.span.start → StandsIn text t

  | lexeme {read left : List Char} : text = read ++ (t.value.toList ++ left) →
      size read = t.span.start → t.kind ≠ .skip →
      Rule.firstMatch Rule.table (t.value.toList ++ left) = some (t.kind, t.value.toList.length) →
      StandsIn text t

/-- Where the lexer stops, some text is left and no rule matches it. -/
def StopsIn (text : List Char) (e : Error) : Prop :=
  ∃ read left, text = read ++ left ∧ left ≠ [] ∧ Rule.firstMatch Rule.table left = none ∧
    e = (Lexer.facing Rule.table (size read) left).stuck

namespace Lexer

theorem standsIn_of_next (before s : List Char) {after : Lexer}
    (h : (facing Rule.table (size before) s).next = (.ok t, after)) : StandsIn (before ++ s) t ∧
      ∃ read left, after = facing Rule.table (size read) left ∧ before ++ s = read ++ left := by
  have hr := reads_next (size before) s
  rw [h] at hr
  cases hr with
  | eof =>
    rw [← size_append]
    exact ⟨.eof rfl rfl, _, [], rfl, by simp⟩
  | @token gap v w kind _ hk hm =>
    rw [← size_append, ← size_append]
    constructor
    · exact @StandsIn.lexeme _ _ (before ++ gap) w (by simp) rfl hk (by simpa using hm)
    · exact ⟨before ++ gap ++ v, w, rfl, by simp⟩

theorem stopsIn_of_next (before s : List Char) {after : Lexer}
    (h : (facing Rule.table (size before) s).next = (.error e, after)) :
    StopsIn (before ++ s) e := by
  have hr := reads_next (size before) s
  rw [h] at hr
  cases hr with
  | @stuck gap w _ hw hm =>
    exact ⟨before ++ gap, w, by simp, hw, hm, by rw [size_append]⟩

theorem standsIn_of_gives (before s : List Char) {rest : Lexer}
    (h : Gives (facing Rule.table (size before) s) ts rest) : (∀ t ∈ ts, StandsIn (before ++ s) t) ∧
      ∃ read left, rest = facing Rule.table (size read) left ∧ before ++ s = read ++ left := by
  induction ts generalizing before s with
  | nil =>
    cases h
    exact ⟨nofun, before, s, rfl, rfl⟩
  | cons t ts ih =>
    obtain ⟨after, hn, h⟩ := h
    obtain ⟨ht, read, left, rfl, hs⟩ := standsIn_of_next before s hn
    rw [hs] at ht ⊢
    obtain ⟨hts, hrest⟩ := ih read left h
    exact ⟨List.forall_mem_cons.mpr ⟨ht, hts⟩, hrest⟩

end Lexer

/-- A token of a kind and value is read at a position, and the text from there on begins with the
value. -/
def ReadsAt (tokens : List Token) (position : ℕ) (left : List Char) (kind : TokenKind)
    (value : String) : Prop :=
  (∃ t ∈ tokens, t.span.start = position ∧ t.kind = kind ∧ t.value = value) ∧
    value ≠ "" ∧ value.toList <+: left ∧ kind ≠ .eof ∧ kind ≠ .skip

/-- What a cause says of the tokens of a text and of what is left of the text at a position. -/
def Cause.Describes (tokens : List Token) (position : ℕ) (left : List Char) : Cause → Prop
  | unexpectedToken kind value _ => ReadsAt tokens position left kind value
  | unexpectedEnd _ => left = []
  | unknownLiteral kind value =>
    if kind = .eof then left = [] else ReadsAt tokens position left kind value
  | unknownOperator _ symbol => symbol ≠ "" ∧ symbol.toList <+: left
  | notAssignable node => ∃ before ts t after, tokens = before ++ ts ++ t :: after ∧
      t.span.start = position ∧ t.kind.isAssignOp = true ∧
        Production.disjunction.Derives ts node
  | invalidNumber value => value ≠ "" ∧ value.toList = left.takeWhile isDigit
  | unmatchedText remaining => left ≠ [] ∧ (∀ rule ∈ Rule.table, rule.matchLength left = none) ∧
      remaining = String.ofList (left.take (min 32 left.length))

/-- An error is found at a boundary between characters and describes the text there. -/
def Error.PointsInto (text : String) (e : Error) : Prop :=
  ∃ read left, text.toList = read ++ left ∧ size read = e.position ∧
    e.cause.Describes (Lexer.ofText text).run.1 e.position left

theorem StopsIn.pointsInto {text : String} (h : StopsIn text.toList e) : e.PointsInto text := by
  obtain ⟨read, left, hs, hl, hm, rfl⟩ := h
  refine ⟨read, left, hs, rfl, hl, Rule.firstMatch_eq_none_iff_forall.mp hm, ?_⟩
  rw [List.take_eq_take_min]
  rfl

/-- Behind the tokens before it, a token that an error is about stands where the error says. -/
theorem Cause.Blames.pointsInto {text : String} {cause : Cause} (hb : cause.Blames ts t)
    (hr : ts ++ [t] <+: (Lexer.ofText text).run.1) (ht : StandsIn text.toList t) :
    (⟨cause, t.span.start⟩ : Error).PointsInto text := by
  have hmem : t ∈ (Lexer.ofText text).run.1 := hr.subset (by simp)
  cases ht with
  | eof hk hs =>
    refine ⟨text.toList, [], by simp, hs, ?_⟩
    cases cause with
    | unexpectedToken => exact absurd hk hb.1
    | unknownOperator => exact absurd hk hb.2.ne_eof
    | unexpectedEnd => rfl
    | unknownLiteral =>
      simp only [Cause.Describes, hb.1.trans hk, if_true]
    | notAssignable => cases hk ▸ hb.1
    | invalidNumber => cases hk.symm.trans hb.1
    | unmatchedText => exact hb.elim
  | @lexeme read left hs hp hk hm =>
    have hne : t.value ≠ "" := by
      intro h
      rw [h] at hm
      exact absurd (Rule.firstMatch_pos hm) (Nat.lt_irrefl 0)
    have heof : t.kind ≠ .eof := Rule.ne_eof_of_firstMatch hm
    have hreads : ReadsAt (Lexer.ofText text).run.1 t.span.start (t.value.toList ++ left) t.kind
        t.value := ⟨⟨t, hmem, rfl, rfl, rfl⟩, hne, List.prefix_append _ _, heof, hk⟩
    refine ⟨read, _, hs, hp, ?_⟩
    cases cause with
    | unexpectedToken =>
      obtain ⟨-, rfl, rfl, -⟩ := hb
      exact hreads
    | unexpectedEnd => exact absurd hb.1 heof
    | unknownLiteral =>
      obtain ⟨rfl, rfl, -⟩ := hb
      simpa only [Cause.Describes, heof, if_false] using hreads
    | unknownOperator =>
      obtain ⟨rfl, -⟩ := hb
      exact ⟨hne, List.prefix_append _ _⟩
    | notAssignable =>
      obtain ⟨hop, before, us, rfl, hd⟩ := hb
      obtain ⟨after, hr⟩ := hr
      exact ⟨before, us, t, after, by simpa using hr.symm, rfl, hop, hd⟩
    | invalidNumber =>
      obtain ⟨hnum, rfl, -⟩ := hb
      exact ⟨hne, (Rule.takeWhile_isDigit_eq (hnum ▸ hm)).symm⟩
    | unmatchedText => exact hb.elim

/-- An error that a text is refused with points at the text it describes. -/
theorem pointsInto_of_parse {text : String} {e : Error} (h : parse text = .error e) :
    e.PointsInto text := by
  rw [parse, parseTokens] at h
  rcases hn : TokenStream.next (Lexer.ofText text) with ⟨e' | t, left⟩
  · rw [parseFrom_of_error hn] at h
    cases h
    exact (Lexer.stopsIn_of_next [] text.toList hn).pointsInto
  · obtain ⟨v, ts, u, hp, hv⟩ := exists_blames hn
    generalize parseFrom (Lexer.ofText text) = r at hp h
    cases hp with
    | value => cases h
    | refused _ hts hg =>
      cases h
      exact hv.pointsInto (Lexer.prefix_run_of_gives hts hg)
        ((Lexer.standsIn_of_gives [] text.toList hg).1 _ (by simp))
    | rejected _ hts hg =>
      cases h
      rw [List.append_cons] at hg
      exact hv.pointsInto ((List.prefix_append _ _).trans (Lexer.prefix_run_of_gives hts hg))
        ((Lexer.standsIn_of_gives [] text.toList hg).1 _ (by simp))
    | failed _ hg hn' =>
      cases h
      obtain ⟨-, read, left, rfl, hs⟩ := Lexer.standsIn_of_gives [] text.toList hg
      rw [List.nil_append] at hs
      exact (hs ▸ Lexer.stopsIn_of_next read left hn').pointsInto

theorem pointsInto_number_assigned :
    parse "\"é\"; 1 = 2;" = .error ⟨.notAssignable (.numericLit 1), 8⟩ ∧
      (⟨.notAssignable (.numericLit 1), 8⟩ : Error).PointsInto "\"é\"; 1 = 2;" := by
  have h : parse "\"é\"; 1 = 2;" = .error ⟨.notAssignable (.numericLit 1), 8⟩ := by decide +kernel
  exact ⟨h, pointsInto_of_parse h⟩

end Frontend
