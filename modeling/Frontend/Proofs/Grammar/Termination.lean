import Frontend.Proofs.Grammar.Productions

/-! # Termination

No parser of a production spends its budget on a state with the standard
handlers, and success consumes tokens. A larger budget makes no difference, so
that the parser of a production is its body over the parsers of all.
-/

namespace Frontend

open ParserState

variable {σ : Type} [TokenSource σ] {α β : Type} {s : ParserState σ}

namespace Parser

/-- A result that is no spent budget, and a success that has consumed a token if required. -/
def Settles (strict : Bool) (s : ParserState σ) : EStateM.Result Halt (ParserState σ) α → Prop
  | .ok _ s₁ => ∃ ts, s.Consumes ts s₁ ∧ (strict = true → ts ≠ [])
  | .error (.error _) _ => True
  | .error .exhausted _ => False

def Agree (strict : Bool) (p q : Parser σ α) (s : ParserState σ) : Prop :=
  p s = q s ∧ Settles strict s (p s)

theorem Agree.symm {strict : Bool} {p q : Parser σ α} (h : Agree strict p q s) :
    Agree strict q p s := ⟨h.1.symm, h.1 ▸ h.2⟩

theorem Agree.trans {strict : Bool} {p q r : Parser σ α} (h : Agree strict p q s)
    (h' : Agree strict q r s) : Agree strict p r s := ⟨h.1.trans h'.1, h.2⟩

theorem Agree.weaken {p q : Parser σ α} (h : Agree true p q s) : Agree false p q s := by
  refine ⟨h.1, ?_⟩
  have hp := h.2
  match p s, hp with
  | .ok _ _, ⟨ts, hc, _⟩ => exact ⟨ts, hc, by simp⟩
  | .error (.error _) _, _ => trivial

theorem Agree.bind {c d : Bool} {p q : Parser σ α} {f g : α → Parser σ β} (h : Agree c p q s)
    (hf : ∀ a ts s₁, s.Consumes ts s₁ → (c = true → ts ≠ []) → Agree d (f a) (g a) s₁) :
    Agree (c || d) (p >>= f) (q >>= g) s := by
  obtain ⟨he, hp⟩ := h
  match hr : p s, hp with
  | .ok a s₁, ⟨ts, hc, hne⟩ =>
    obtain ⟨he', hp'⟩ := hf a ts s₁ hc hne
    refine ⟨by rw [bind_ok f hr, bind_ok g (he ▸ hr), he'], ?_⟩
    rw [bind_ok f hr]
    match f a s₁, hp' with
    | .ok _ _, ⟨us, hc', hne'⟩ =>
      refine ⟨ts ++ us, hc.trans hc', fun h hn => ?_⟩
      obtain ⟨hts, hus⟩ := List.append_eq_nil_iff.mp hn
      cases c with
      | true => exact hne rfl hts
      | false => exact hne' h hus
    | .error (.error _) _, _ => trivial
  | .error (.error e) s₁, _ =>
    refine ⟨by rw [bind_error f hr, bind_error g (he ▸ hr)], ?_⟩
    rw [bind_error f hr]
    trivial

theorem agree_repeatWithin {wanted : TokenKind → Bool} {body body' : α → Parser σ α} {n m : ℕ}
    (h : ∀ a ts s₁, s.Consumes ts s₁ → wanted s₁.lookahead.kind = true →
      Agree true (body a) (body' a) s₁)
    (a : α) (hn : s.ahead < n) (hm : s.ahead < m) :
    Agree false (repeatWithin wanted body n a) (repeatWithin wanted body' m a) s := by
  induction n generalizing m a s with
  | zero => omega
  | succ n ih =>
    obtain _ | m := m
    · omega
    by_cases hw : wanted s.lookahead.kind = true
    · have hb := (h a [] s rfl hw).bind (d := false) (f := repeatWithin wanted body n)
        (g := repeatWithin wanted body' m) fun b ts s₁ hc hne => by
          have := hc.ahead_add_length
          have := List.length_pos_iff.mpr (hne rfl)
          exact ih (fun a us s₂ hc' => h a (ts ++ us) s₂ (hc.trans hc')) b (by omega) (by omega)
      simpa only [Agree, repeatWithin, kind_bind_apply, hw, if_true] using hb.weaken
    · simp only [Agree, repeatWithin, kind_bind_apply, hw]
      exact ⟨rfl, [], rfl, by simp⟩

theorem repeatWhile_eq {wanted : TokenKind → Bool} {body : α → Parser σ α}
    (h : ∀ a (s : ParserState σ), s.IsStandard → wanted s.lookahead.kind = true →
      Settles true s (body a s)) (a : α) (hs : s.IsStandard) :
    repeatWhile wanted a body s =
      if wanted s.lookahead.kind then (body a >>= fun b => repeatWhile wanted b body) s
      else .ok a s := by
  by_cases hw : wanted s.lookahead.kind = true
  · have hb := h a s hs hw
    simp only [repeatWhile, repeatWithin, kind_bind_apply, hw, if_true]
    cases hr : body a s with
    | ok b s₁ =>
      rw [hr] at hb
      obtain ⟨ts, hc, hne⟩ := hb
      have := hc.ahead_add_length
      have := List.length_pos_iff.mpr (hne rfl)
      have := s.ahead_le_remaining
      have := s₁.ahead_le_remaining
      rw [bind_ok _ hr, bind_ok _ hr]
      refine (agree_repeatWithin (fun a us s₂ hc' hw => ?_) b (by omega) (by omega)).1
      exact ⟨rfl, h a s₂ (hc'.isStandard (hc.isStandard hs)) hw⟩
    | error e s₁ => rw [bind_error _ hr, bind_error _ hr]
  · simp only [repeatWhile, repeatWithin, kind_bind_apply, hw]
    rfl

/-- Parsers of one form agree if the parsers they are made of do, where these may be called: in
front of later tokens, or at the same token from a higher rank. -/
theorem Form.agree {self other : Production → Parser σ Node} {known : TokenKind → Prop}
    {rank : ℕ} {c : Bool} {p q : Parser σ α} (hf : Form self other known rank c p q)
    (H : ∀ r ts s₁, s.Consumes ts s₁ → (ts = [] → r.rank < rank) →
      Agree true (self r) (other r) s₁)
    (hs : s.IsStandard) (hk : known s.lookahead.kind) : Agree c p q s := by
  induction hf generalizing s with
  | pure a => exact ⟨rfl, [], rfl, by simp⟩
  | @bind _ rank c _ _ _ _ _ _ _ _ _ ih ih' =>
    refine (ih H hs hk).bind fun a ts s₁ hc hne => ih' a (fun r us s₂ hc' hr => ?_)
      (hc.isStandard hs) trivial
    refine H r (ts ++ us) s₂ (hc.trans hc') fun hn => ?_
    obtain ⟨hts, hus⟩ := List.append_eq_nil_iff.mp hn
    cases c with
    | true => exact absurd hts (hne rfl)
    | false => exact hr hus
  | peek _ ih => simpa only [Agree, kind_bind_apply] using ih _ hk H hs rfl
  | take check hne =>
    refine ⟨rfl, ?_⟩
    match hn : TokenStream.next s.source with
    | (.ok next, source) =>
      have hc : s.Consumes [s.lookahead] { s with source, lookahead := next } :=
        ⟨rfl, hne _ hk, next, source, hn, rfl⟩
      rw [bind_ok _ (advance_ok hn)]
      cases check s.lookahead with
      | ok a => exact ⟨_, hc, by simp⟩
      | error cause => trivial
    | (.error e, source) =>
      rw [bind_error _ (advance_error hn)]
      trivial
  | refuse => exact ⟨rfl, trivial⟩
  | call r hr => exact H r [] s rfl fun _ => hr
  | dispatch _ ih =>
    have hl : s.handlers = Handlers.standard := hs
    simpa only [Agree, handler?_bind_apply, hl] using ih _ H hs rfl
  | loop a _ _ ih =>
    have hr := s.ahead_le_remaining
    refine agree_repeatWithin (fun a ts s₁ hc hw => ?_) a (by omega) (by omega)
    refine ih a (fun r us s₂ hc' hlt => ?_) (hc.isStandard hs) hw
    exact H r (ts ++ us) s₂ (hc.trans hc') fun hn => hlt (List.append_eq_nil_iff.mp hn).2
  | weaken _ ih => exact (ih H hs hk).weaken

end Parser

namespace Production

/-- A bound on the budget that a production needs. -/
def need (p : Production) (s : ParserState σ) : ℕ := levels * s.ahead + p.rank

open Frontend.Parser

theorem need_lt_need {p r : Production} {ts : List Token} {s₁ : ParserState σ}
    (hc : s.Consumes ts s₁) (hr : ts = [] → r.rank < p.rank) : r.need s₁ < p.need s := by
  have hle := hc.ahead_add_length
  have hlt := r.rank_lt_levels
  simp only [need, levels] at *
  obtain rfl | hne := eq_or_ne ts []
  · have := hr rfl
    simp only [List.length_nil] at hle
    omega
  · have := List.length_pos_iff.mpr hne
    omega

/-- Enough budget makes a production settle, and more makes no difference. -/
theorem agree_within (N : ℕ) : ∀ (n m : ℕ) (p : Production) (s : ParserState σ), s.IsStandard →
    p.need s < N → p.need s < n → p.need s < m → Agree true (within n p) (within m p) s := by
  induction N with
  | zero => intros; omega
  | succ N ih =>
    intro n m p s hs hN hn hm
    obtain _ | n := n
    · omega
    obtain _ | m := m
    · omega
    refine (Form.body p).agree (fun r ts s₁ hc hr => ?_) hs trivial
    have hlt := need_lt_need hc hr
    exact ih n m r s₁ (hc.isStandard hs) (by omega) (by omega) (by omega)

theorem need_lt_budget (p : Production) (s : ParserState σ) :
    p.need s < levels * (s.remaining + 1) := by
  have := p.rank_lt_levels
  have := s.ahead_le_remaining
  simp only [need, levels] at *
  omega

theorem agree_parse (p : Production) (hs : s.IsStandard) {n : ℕ} (hn : p.need s < n) :
    Agree true (within n p) (parser p) s := by
  have h := agree_within (p.need s + 1) n (levels * (s.remaining + 1)) p s hs (by omega) hn
    (p.need_lt_budget s)
  exact ⟨h.1.trans (by rw [parser]), h.2⟩

theorem agree_self (p : Production) (hs : s.IsStandard) : Agree true (parser p) (parser p) s :=
  (p.agree_parse hs (Nat.lt_succ_self _)).symm.trans (p.agree_parse hs (Nat.lt_succ_self _))

end Production

namespace Parser

theorem Form.settles {known : TokenKind → Prop} {rank : ℕ} {c : Bool} {p : Parser σ α}
    (hf : Form Production.parser Production.parser known rank c p p) (hs : s.IsStandard)
    (hk : known s.lookahead.kind) : Settles c s (p s) :=
  (hf.agree (fun r _ _ hc _ => r.agree_self (hc.isStandard hs)) hs hk).2

end Parser

/-- The parser of a production is its body over the parsers of all productions. -/
theorem Production.parser_eq (p : Production) (hs : s.IsStandard) :
    parser p s = body parser p s := by
  have hb := p.need_lt_budget s
  obtain ⟨n, hn⟩ : ∃ n, levels * (s.remaining + 1) = n + 1 := ⟨_, (Nat.succ_pred (by omega)).symm⟩
  rw [hn] at hb
  have hw : parser p s = body (within n) p s := by rw [parser, hn, within]
  rw [hw]
  refine ((Parser.Form.body p).agree (fun r ts s₁ hc hr => ?_) hs trivial).1
  have hlt := need_lt_need hc hr
  exact r.agree_parse (hc.isStandard hs) (by omega)

end Frontend
