import Frontend.Proofs.Grammar.Boundary
import Frontend.Proofs.Grammar.Termination

/-! # Following a list of tokens

Where the tokens at hand are known, up to one of a known kind, a parser does
what remains of it behind them. These steps compute a parser along a derivation.
-/

namespace Frontend

/-- The kind of the first of some tokens, or of the one behind them. -/
def entry (ts : List Token) (k : TokenKind) : TokenKind := ts.head?.elim k Token.kind

@[simp] theorem entry_nil (k : TokenKind) : entry [] k = k := rfl

@[simp] theorem entry_cons (t : Token) (ts : List Token) (k : TokenKind) :
    entry (t :: ts) k = t.kind := rfl

theorem entry_append (ts us : List Token) (k : TokenKind) :
    entry (ts ++ us) k = entry ts (entry us k) := by
  cases ts <;> rfl

theorem StartsWith.entry {known : TokenKind → Bool} {ts : List Token} (h : StartsWith known ts)
    (k : TokenKind) : known (entry ts k) = true := by
  obtain ⟨t, us, rfl, ht⟩ := h.exists_cons
  exact ht

theorem StartsWith.entry_ne {known : TokenKind → Bool} {ts : List Token} {k k' : TokenKind}
    (h : StartsWith known ts) (hk : known k' = false) : Frontend.entry ts k ≠ k' := by
  rintro rfl
  exact absurd (h.entry k) (by simp [hk])

variable {σ : Type} [TokenSource σ] {α β : Type} {ts us : List Token} {k : TokenKind}

theorem ParserState.Consumes.kind_eq {s s₁ : ParserState σ} (h : s.Consumes ts s₁) :
    s.lookahead.kind = entry ts s₁.lookahead.kind := by
  cases ts with
  | nil => rw [ParserState.consumes_nil.mp h]; rfl
  | cons t ts => rw [h.1]; rfl

namespace Parser

/-- Over tokens up to one of a kind, a parser goes on as another. -/
def Leads (p : Parser σ α) (ts : List Token) (k : TokenKind) (q : Parser σ α) : Prop :=
  ∀ s s₁, s.IsStandard → s.Consumes ts s₁ → s₁.lookahead.kind = k → p s = q s₁

namespace Leads

variable {p q r : Parser σ α} {f : α → Parser σ β} {g : Parser σ β} {a b : α} {t : Token}

theorem refl (p : Parser σ α) : Leads p [] k p := by
  rintro s _ _ rfl _
  rfl

theorem symm (h : Leads p [] k q) : Leads q [] k p := by
  rintro s _ hs rfl hk
  exact (h s s hs rfl hk).symm

theorem trans (h : Leads p ts (entry us k) q) (h' : Leads q us k r) : Leads p (ts ++ us) k r := by
  intro s s₂ hs hc hk
  obtain ⟨s₁, hc, hc'⟩ := ParserState.consumes_append.mp hc
  rw [h s s₁ hs hc (by rw [hc'.kind_eq, hk]), h' s₁ s₂ (hc.isStandard hs) hc' hk]

theorem bind_right (h : Leads p ts k q) (f : α → Parser σ β) : Leads (p >>= f) ts k (q >>= f) := by
  intro s s₁ hs hc hk
  change EStateM.bind p f s = EStateM.bind q f s₁
  rw [EStateM.bind, h s s₁ hs hc hk]
  rfl

theorem bind (h : Leads p ts (entry us k) (Pure.pure a)) (h' : Leads (f a) us k g) :
    Leads (p >>= f) (ts ++ us) k g := by
  intro s s₂ hs hc hk
  obtain ⟨s₁, hc, hc'⟩ := ParserState.consumes_append.mp hc
  rw [bind_ok f (h s s₁ hs hc (by rw [hc'.kind_eq, hk])), h' s₁ s₂ (hc.isStandard hs) hc' hk]

theorem last (h : Leads p ts k (Pure.pure a)) (h' : Leads (f a) [] k g) :
    Leads (p >>= f) ts k g := by
  have hb : Leads (p >>= f) (ts ++ []) k g := h.bind h'
  rwa [List.append_nil] at hb

theorem first (h : Leads p [] (entry us k) (Pure.pure a)) (h' : Leads (f a) us k g) :
    Leads (p >>= f) us k g := h.bind h'

theorem advance {f : Token → Parser σ β} (h : Leads (f t) ts k g) :
    Leads (Parser.advance >>= f) (t :: ts) k g := by
  rintro s s₁ hs ⟨rfl, _, next, source, hn, hc⟩ hk
  rw [bind_ok f (advance_ok hn)]
  exact h _ _ hs hc hk

theorem skip {expected : TokenKind} {f : Token → Parser σ β} (ht : t.kind = expected)
    (h : Leads (f t) ts k g) : Leads (consume expected >>= f) (t :: ts) k g := by
  intro s s₁ hs hc hk
  rw [consume_bind_eq, kind_bind_apply, if_pos (by rw [hc.1, ht])]
  exact h.advance s s₁ hs hc hk

theorem operator {ω : Type} [Operator ω] {f : ω → Parser σ β} {op : ω}
    (ho : Operator.ofSymbol? t.value = some op) (h : Leads (f op) ts k g) :
    Leads (Parser.operator >>= f) (t :: ts) k g := by
  rw [Parser.operator, bind_assoc]
  refine advance ?_
  rw [operatorOf, ho]
  exact h

theorem peek {f : TokenKind → Parser σ β} (h : Leads (f (entry ts k)) ts k g) :
    Leads (kind >>= f) ts k g := by
  intro s s₁ hs hc hk
  rw [kind_bind_apply, hc.kind_eq, hk]
  exact h s s₁ hs hc hk

theorem dispatch {f : Option Production → Parser σ β}
    (h : Leads (f (Handlers.standard.lookup (entry ts k))) ts k g) :
    Leads (handler? >>= f) ts k g := by
  intro s s₁ hs hc hk
  have hl : s.handlers = Handlers.standard := hs
  rw [handler?_bind_apply, hl, hc.kind_eq, hk]
  exact h s s₁ hs hc hk

theorem parser {p : Production} {q : Parser σ Node}
    (h : Leads (p.body Production.parser) ts k q) : Leads p.parser ts k q := by
  intro s s₁ hs hc hk
  rw [p.parser_eq hs]
  exact h s s₁ hs hc hk

theorem next {wanted : TokenKind → Bool} {body : α → Parser σ α}
    (hf : ∀ a, Form Production.parser Production.parser (wanted · = true) Production.levels true
      (body a) (body a))
    (hw : wanted (entry ts k) = true)
    (h : Leads (body a >>= fun b => repeatWhile wanted b body) ts k q) :
    Leads (repeatWhile wanted a body) ts k q := by
  intro s s₁ hs hc hk
  rw [repeatWhile_eq (fun a s hs hk => (hf a).settles hs hk) a hs,
    if_pos (by rwa [hc.kind_eq, hk])]
  exact h s s₁ hs hc hk

theorem stop {wanted : TokenKind → Bool} {body : α → Parser σ α} (hw : wanted k = false) :
    Leads (repeatWhile wanted a body) [] k (Pure.pure a) := by
  rintro s _ _ rfl rfl
  simp [repeatWhile, repeatWithin, hw]

end Leads

end Parser

end Frontend
