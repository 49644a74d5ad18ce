import Mathlib.Data.List.Forall2
import Frontend.Grammar.Parse
import Frontend.Proofs.Token.Giving

/-! # Consumption

A parser changes its state by consuming tokens, never the end of input. The
tokens still ahead are those that can be consumed. A run reads the tokens it
consumes and the one it stops at, and it ends with a value, with an error about
the last token it read, or with an error of the source.
-/

namespace Frontend

namespace Token

/-- Tokens that differ in their spans at most. -/
structure Alike (a b : Token) : Prop where
  kind : a.kind = b.kind
  value : a.value = b.value

theorem Alike.refl (a : Token) : Alike a a := ⟨rfl, rfl⟩

abbrev AllAlike (as bs : List Token) : Prop := List.Forall₂ Alike as bs

theorem AllAlike.append_left {as bs cs : List Token} (h : AllAlike (as ++ bs) cs) :
    ∃ as' bs', AllAlike as as' ∧ AllAlike bs bs' ∧ cs = as' ++ bs' := by
  induction as generalizing cs with
  | nil => exact ⟨[], cs, .nil, h, rfl⟩
  | cons a as ih =>
    obtain ⟨c, cs, hac, ht, rfl⟩ := List.forall₂_cons_left_iff.mp h
    obtain ⟨as', bs', ha, hb, rfl⟩ := ih ht
    exact ⟨c :: as', bs', .cons hac ha, hb, rfl⟩

theorem AllAlike.refl (as : List Token) : AllAlike as as := List.forall₂_same.mpr fun a _ => .refl a

end Token

namespace ParserState

section

variable {σ : Type} [TokenStream σ] {s s₁ s₂ : ParserState σ} {ts us : List Token}

/-- Whether statements are handled as the language has them. -/
def IsStandard (s : ParserState σ) : Prop := s.handlers = Handlers.standard

/-- Consuming tokens one by one leads from a state to another. -/
def Consumes : ParserState σ → List Token → ParserState σ → Prop
  | s, [], s₁ => s = s₁
  | s, t :: ts, s₁ => s.lookahead = t ∧ t.kind ≠ .eof ∧ ∃ next source,
      TokenStream.next s.source = (.ok next, source) ∧
        Consumes { s with source, lookahead := next } ts s₁

@[simp] theorem consumes_nil : Consumes s [] s₁ ↔ s = s₁ := Iff.rfl

theorem consumes_cons {t : Token} : Consumes s (t :: ts) s₁ ↔
    s.lookahead = t ∧ t.kind ≠ .eof ∧ ∃ next source,
      TokenStream.next s.source = (.ok next, source) ∧
        Consumes { s with source, lookahead := next } ts s₁ := Iff.rfl

theorem consumes_append :
    Consumes s (ts ++ us) s₂ ↔ ∃ s₁, Consumes s ts s₁ ∧ Consumes s₁ us s₂ := by
  induction ts generalizing s with
  | nil => simp
  | cons t ts ih =>
    simp only [List.cons_append, consumes_cons, ih]
    constructor
    · rintro ⟨ht, hk, next, source, hn, s₁, h, h'⟩
      exact ⟨s₁, ⟨ht, hk, next, source, hn, h⟩, h'⟩
    · rintro ⟨s₁, ⟨ht, hk, next, source, hn, h⟩, h'⟩
      exact ⟨ht, hk, next, source, hn, s₁, h, h'⟩

theorem Consumes.trans (h : Consumes s ts s₁) (h' : Consumes s₁ us s₂) :
    Consumes s (ts ++ us) s₂ := consumes_append.mpr ⟨s₁, h, h'⟩

theorem Consumes.handlers_eq (h : Consumes s ts s₁) : s₁.handlers = s.handlers := by
  induction ts generalizing s with
  | nil => rw [consumes_nil.mp h]
  | cons t ts ih =>
    obtain ⟨_, _, _, _, _, h⟩ := h
    rw [ih h]

theorem Consumes.isStandard (h : Consumes s ts s₁) (hs : s.IsStandard) : s₁.IsStandard :=
  h.handlers_eq.trans hs

end

variable {σ : Type} [TokenSource σ] {s s₁ : ParserState σ} {ts : List Token}

/-- How many tokens stand before the end of input, or before the source fails. -/
def ahead (s : ParserState σ) : ℕ :=
  if s.lookahead.kind = .eof then 0 else TokenSource.count s.source + 1

theorem ahead_le_remaining : s.ahead ≤ s.remaining := by
  have := TokenSource.count_le_remaining s.source
  unfold ahead remaining
  split <;> omega

theorem Consumes.ahead_add_length (h : Consumes s ts s₁) : s₁.ahead + ts.length = s.ahead := by
  induction ts generalizing s with
  | nil => rw [consumes_nil.mp h]; rfl
  | cons t ts ih =>
    obtain ⟨rfl, hk, next, source, hn, h⟩ := h
    have hs : s.ahead = ahead { s with source, lookahead := next } + 1 := by
      simp only [ahead, hk, if_false, TokenSource.count_of_ok hn]
    rw [hs, ← ih h, List.length_cons, Nat.add_assoc]

end ParserState

namespace Parser

variable {σ : Type} {α β : Type} {s s₁ : ParserState σ}

@[simp] theorem pure_apply (a : α) (s : ParserState σ) : (pure a : Parser σ α) s = .ok a s := rfl

@[simp] theorem kind_apply (s : ParserState σ) : kind s = .ok s.lookahead.kind s := rfl

@[simp] theorem handler?_apply (s : ParserState σ) :
    handler? s = .ok (s.handlers.lookup s.lookahead.kind) s := rfl

@[simp] theorem fail_apply (cause : Cause) (position : ℕ) (s : ParserState σ) :
    (fail cause position : Parser σ α) s = .error (.error ⟨cause, position⟩) s := rfl

theorem bind_ok {p : Parser σ α} {a : α} (f : α → Parser σ β) (h : p s = .ok a s₁) :
    (p >>= f) s = f a s₁ := by
  change EStateM.bind p f s = _
  rw [EStateM.bind, h]

theorem bind_error {p : Parser σ α} {halt : Halt} (f : α → Parser σ β)
    (h : p s = .error halt s₁) : (p >>= f) s = .error halt s₁ := by
  change EStateM.bind p f s = _
  rw [EStateM.bind, h]

@[simp] theorem kind_bind_apply (f : TokenKind → Parser σ β) (s : ParserState σ) :
    (kind >>= f) s = f s.lookahead.kind s := rfl

@[simp] theorem handler?_bind_apply (f : Option Production → Parser σ β) (s : ParserState σ) :
    (handler? >>= f) s = f (s.handlers.lookup s.lookahead.kind) s := rfl

theorem bind_eq_ok {p : Parser σ α} {f : α → Parser σ β} {b : β} {s₂ : ParserState σ} :
    (p >>= f) s = .ok b s₂ ↔ ∃ a s₁, p s = .ok a s₁ ∧ f a s₁ = .ok b s₂ := by
  cases h : p s with
  | ok a s₁ => simp [bind_ok f h]
  | error halt s₁ => simp [bind_error f h]

theorem repeatWithin_eq_ok {wanted : TokenKind → Bool} {body : α → Parser σ α} {n : ℕ} {a b : α}
    (h : repeatWithin wanted body n a s = .ok b s₁) : wanted s₁.lookahead.kind = false := by
  induction n generalizing a s with
  | zero => cases h
  | succ n ih =>
    rw [repeatWithin, kind_bind_apply] at h
    split at h
    · obtain ⟨c, s₂, -, h⟩ := bind_eq_ok.mp h
      exact ih h
    · cases h
      simp_all

def refuse (cause : Token → Cause) : Parser σ α := fun state =>
  fail (cause state.lookahead) state.lookahead.span.start state

@[simp] theorem refuse_apply (cause : Token → Cause) (s : ParserState σ) :
    (refuse cause : Parser σ α) s =
      .error (.error ⟨cause s.lookahead, s.lookahead.span.start⟩) s := rfl

def mismatch (expected : TokenKind) (token : Token) : Cause :=
  if token.kind = .eof then .unexpectedEnd expected
  else .unexpectedToken token.kind token.value expected

variable [TokenStream σ]

theorem advance_ok {token : Token} {source : σ}
    (h : TokenStream.next s.source = (.ok token, source)) :
    advance s = .ok s.lookahead { s with source, lookahead := token } := by
  rw [advance, h]

theorem advance_error {e : Error} {source : σ}
    (h : TokenStream.next s.source = (.error e, source)) :
    advance s = .error (.error e) { s with source } := by
  rw [advance, h]

theorem consume_of_eq {expected : TokenKind} (h : s.lookahead.kind = expected) :
    consume expected s = advance s := if_pos h

theorem consume_of_ne {expected : TokenKind} (h : s.lookahead.kind ≠ expected) :
    consume expected s = refuse (mismatch expected) s := by
  simp only [consume, h, if_false, refuse, mismatch]
  split <;> rfl

end Parser

end Frontend
