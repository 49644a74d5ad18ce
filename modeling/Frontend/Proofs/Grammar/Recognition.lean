import Frontend.Proofs.Grammar.Locality

/-! # Recognition

A parser recognizes a language if the values it returns belong to the tokens it
has read, and if it refuses a token only where the ones before it begin some
phrase of the language. What a parser does after another has to recognize what
the tokens read so far leave of the language.
-/

namespace Frontend.Parser

open ParserState

variable {σ : Type} [TokenSource σ] {α β : Type}

/-- What the end of a run says about a language of phrases with values, where some values
must not stand before `else`. -/
def Verdict.Explains (L : List Token → α → Prop) (opens : α → Prop) :
    Verdict α → List Token → TokenKind → Prop
  | value a, ts, k => L ts a ∧ (opens a → k ≠ .elseWord)
  | refused _, ts, _ => ∃ us a, L (ts ++ us) a
  | rejected _, _, _ | failed, _, _ => True

/-- In front of a token of a known kind, a parser stays within a language. -/
structure Recognizes (known : TokenKind → Prop) (p : Parser σ α) (L : List Token → α → Prop)
    (opens : α → Prop) : Prop where
  exists_phrase : ∃ ts a, L ts a
  run : ∀ s, s.IsStandard → known s.lookahead.kind → (∃ s₁, p s = .error .exhausted s₁) ∨
    ∃ v ts t, Ends s v ts t (p s) ∧ v.Explains L opens ts t.kind

namespace Recognizes

variable {known : TokenKind → Prop} {p : Parser σ α} {L L' : List Token → α → Prop}
  {M : List Token → β → Prop} {opens opens' : α → Prop} {opensᵦ : β → Prop}

theorem pure {a : α} (h : L [] a) (ho : ∀ k, known k → opens a → k ≠ .elseWord) :
    Recognizes known (Pure.pure a : Parser σ α) L opens where
  exists_phrase := ⟨[], a, h⟩
  run s _ hk := .inr ⟨.value a, [], s.lookahead, .value rfl, h, ho _ hk⟩

theorem done {a : α} (h : L [] a) (ho : ¬ opens a) :
    Recognizes known (Pure.pure a : Parser σ α) L opens := .pure h fun _ _ h => absurd h ho

theorem mono (h : Recognizes known p L opens) (hL : ∀ ts a, L ts a → L' ts a)
    (ho : ∀ ts a, L ts a → opens' a → opens a) : Recognizes known p L' opens' where
  exists_phrase := by
    obtain ⟨ts, a, ha⟩ := h.exists_phrase
    exact ⟨ts, a, hL ts a ha⟩
  run s hs hk := by
    refine (h.run s hs hk).imp_right ?_
    rintro ⟨v, ts, t, he, hv⟩
    refine ⟨v, ts, t, he, ?_⟩
    cases v with
    | value a => exact ⟨hL ts a hv.1, fun hp => hv.2 (ho ts a hv.1 hp)⟩
    | refused cause =>
      obtain ⟨us, a, ha⟩ := hv
      exact ⟨us, a, hL _ a ha⟩
    | rejected | failed => trivial

/-- What follows has to recognize the rest of a language only behind tokens that start with
a known kind, as long as every phrase read can be continued. -/
theorem bind_of_known {f : α → Parser σ β} (h : Recognizes known p L opens)
    (hf : ∀ ts a k, L ts a → (∀ t ∈ ts.head?, known t.kind) → (opens a → k ≠ .elseWord) →
      Recognizes (· = k) (f a) (fun us => M (ts ++ us)) opensᵦ)
    (hx : ∀ ts a, L ts a → ∃ us b, M (ts ++ us) b) : Recognizes known (p >>= f) M opensᵦ := by
  constructor
  · obtain ⟨ts, a, ha⟩ := h.exists_phrase
    obtain ⟨us, b, hb⟩ := hx ts a ha
    exact ⟨ts ++ us, b, hb⟩
  intro s hs hk
  rcases h.run s hs hk with ⟨s₁, he⟩ | ⟨v, ts, t, he, hv⟩
  · exact .inl ⟨s₁, bind_error f he⟩
  cases v with
  | value a =>
    obtain ⟨s₁, hp, hc, rfl⟩ := he.exists_ok
    rw [bind_ok f hp]
    have hhead : ∀ t ∈ ts.head?, known t.kind := by
      cases ts with
      | nil => simp
      | cons t ts => simpa [← hc.1] using hk
    refine ((hf ts a _ hv.1 hhead hv.2).run s₁ (hc.isStandard hs) rfl).imp_right ?_
    rintro ⟨v, us, u, he, hv'⟩
    refine ⟨v, ts ++ us, u, ends_append.mpr ⟨s₁, hc, he⟩, ?_⟩
    cases v with
    | value b => exact hv'
    | refused cause =>
      obtain ⟨vs, b, hb⟩ := hv'
      exact ⟨vs, b, by rwa [List.append_assoc]⟩
    | rejected | failed => trivial
  | refused cause =>
    obtain ⟨us, a, ha⟩ := hv
    obtain ⟨vs, b, hb⟩ := hx _ a ha
    exact .inr ⟨_, ts, t, he.bind_refused f, us ++ vs, b, by rwa [← List.append_assoc]⟩
  | rejected cause => exact .inr ⟨_, ts, t, he.bind_rejected f, trivial⟩
  | failed => exact .inr ⟨_, ts, t, he.bind_failed f, trivial⟩

theorem bind {f : α → Parser σ β} (h : Recognizes known p L opens)
    (hf : ∀ ts a k, L ts a → (opens a → k ≠ .elseWord) →
      Recognizes (· = k) (f a) (fun us => M (ts ++ us)) opensᵦ) :
    Recognizes known (p >>= f) M opensᵦ :=
  h.bind_of_known (fun ts a k ha _ => hf ts a k ha) fun ts a ha =>
    (hf ts a .eof ha (by simp)).exists_phrase

theorem peek {f : TokenKind → Parser σ β} (hx : ∃ k, known k)
    (h : ∀ k, known k → Recognizes (· = k) (f k) M opensᵦ) :
    Recognizes known (kind >>= f) M opensᵦ where
  exists_phrase := hx.elim fun k hk => (h k hk).exists_phrase
  run s hs hk := (h _ hk).run s hs rfl

theorem refuse (cause : Token → Cause) (hr : ∀ t, known t.kind → (cause t).Refuses t)
    (h : ∃ ts a, L ts a) : Recognizes known (Parser.refuse cause : Parser σ α) L opens where
  exists_phrase := h
  run s _ hk := .inr ⟨.refused _, [], s.lookahead, .refused rfl (hr _ hk), h⟩

theorem take {check : Token → Except Cause α} (hk : ∀ k, known k → k ≠ .eof)
    (hr : ∀ t cause, known t.kind → check t = .error cause → cause.Rejects t)
    (hx : ∃ t a, known t.kind ∧ check t = .ok a) :
    Recognizes known (advance >>= fun t => settle t (check t) : Parser σ α)
      (fun ts a => ∃ t, ts = [t] ∧ known t.kind ∧ check t = .ok a) (fun _ => False) where
  exists_phrase := by
    obtain ⟨t, a, ht⟩ := hx
    exact ⟨[t], a, t, rfl, ht⟩
  run s _ hs := by
    rcases take_cases (hk _ hs) (hr _ · hs) with ⟨a, next, hv, he⟩ | ⟨cause, -, he⟩ | he
    · exact .inr ⟨.value a, _, next, he, ⟨_, rfl, hs, hv⟩, False.elim⟩
    · exact .inr ⟨.rejected cause, [], _, he, trivial⟩
    · exact .inr ⟨.failed, [], _, he, trivial⟩

theorem reject {check : Token → Except Cause α} {f : α → Parser σ β} (hk : ∀ k, known k → k ≠ .eof)
    (hr : ∀ t, known t.kind → ∃ cause, check t = .error cause ∧ cause.Rejects t)
    (h : ∃ ts b, M ts b) :
    Recognizes known ((advance >>= fun t => settle t (check t)) >>= f) M opensᵦ where
  exists_phrase := h
  run s _ hs := by
    obtain ⟨cause, hv, hc⟩ := hr _ hs
    have hrej : ∀ cause', check s.lookahead = .error cause' → cause'.Rejects s.lookahead := by
      intro cause' hv'
      cases hv.symm.trans hv'
      exact hc
    rcases take_cases (hk _ hs) hrej with ⟨a, next, hv', -⟩ | ⟨cause', -, he⟩ | he
    · cases hv.symm.trans hv'
    · exact .inr ⟨_, [], _, he.bind_rejected f, trivial⟩
    · exact .inr ⟨_, [], _, he.bind_failed f, trivial⟩

theorem of_known {known' : TokenKind → Prop} (h : Recognizes known p L opens)
    (hk : ∀ k, known' k → known k) : Recognizes known' p L opens where
  exists_phrase := h.exists_phrase
  run s hs hk' := h.run s hs (hk _ hk')

theorem skip (expected : TokenKind) {f : Token → Parser σ β} (he : expected ≠ .eof)
    (h : ∀ t, t.kind = expected →
      Recognizes (fun _ => True) (f t) (fun us => M (t :: us)) opensᵦ) :
    Recognizes known (consume expected >>= f) M opensᵦ := by
  have hx : ∃ ts b, M ts b := by
    obtain ⟨us, b, hb⟩ := (h ⟨expected, "", default⟩ rfl).exists_phrase
    exact ⟨_, b, hb⟩
  refine ⟨hx, fun s hs _ => ?_⟩
  rw [consume_bind_eq, kind_bind_apply]
  split
  · rename_i hk
    have ht : Recognizes (· = expected)
        (advance >>= fun t => settle t (.ok t) : Parser σ Token) _ (fun _ => False) :=
      take (by rintro _ rfl; exact he) (by simp) ⟨⟨expected, "", default⟩, _, rfl, rfl⟩
    have hb : Recognizes (· = expected)
        ((advance >>= fun t => settle t (.ok t)) >>= f) M opensᵦ := by
      refine ht.bind fun ts t k ⟨u, hu, hk, he⟩ _ => ?_
      cases he
      cases hu
      exact (h t hk).of_known fun _ _ => trivial
    simpa [settle] using hb.run s hs hk
  · have hm :
        Recognizes (fun _ => True) (Parser.refuse (mismatch expected) : Parser σ β) M opensᵦ :=
      .refuse _ (fun t _ => mismatch_refuses _ t) hx
    exact hm.run s hs trivial

theorem dispatch {f : Option Production → Parser σ β}
    (h : ∀ k, Recognizes (· = k) (f (Handlers.standard.lookup k)) M opensᵦ) :
    Recognizes known (handler? >>= f) M opensᵦ where
  exists_phrase := (h .eof).exists_phrase
  run s hs _ := by
    have hl : s.handlers = Handlers.standard := hs
    rw [handler?_bind_apply, hl]
    exact (h _).run s hs rfl

theorem loop {wanted : TokenKind → Bool} {body : α → Parser σ α} {a : α} (h : L [] a)
    (hb : ∀ ts a, L ts a →
      Recognizes (wanted · = true) (body a) (fun us => L (ts ++ us)) (fun _ => False))
    (ho : ∀ a k, wanted k = false → opens a → k ≠ .elseWord) :
    Recognizes known (repeatWhile wanted a body) L opens := by
  have hround : ∀ n ts a, L ts a → Recognizes (fun _ => True) (repeatWithin wanted body n a)
      (fun us => L (ts ++ us)) opens := by
    intro n
    induction n with
    | zero =>
      exact fun ts a ha => ⟨⟨[], a, by rwa [List.append_nil]⟩, fun s _ _ => .inl ⟨s, rfl⟩⟩
    | succ n ih =>
      intro ts a ha
      refine .peek ⟨.eof, trivial⟩ fun k _ => ?_
      by_cases hw : wanted k = true
      · rw [if_pos hw]
        have hk : ∀ k', k' = k → wanted k' = true := by rintro _ rfl; exact hw
        refine ((hb ts a ha).of_known hk).bind fun us b k hb _ => ?_
        simpa only [List.append_assoc] using (ih (ts ++ us) b hb).of_known fun _ _ => trivial
      · rw [if_neg hw]
        exact .pure (by rwa [List.append_nil]) fun k' hk => ho a k' (by simp_all)
  exact ⟨⟨[], a, h⟩, fun s hs _ => (hround _ [] a h).run s hs trivial⟩

end Recognizes

end Frontend.Parser
