import Frontend.Proofs.Grammar.Termination

/-! # What a run depends on

A run reads the tokens it consumes and the one it stops at. The kinds and
values of these determine its verdict: from every state in front of the like,
on the same source or another, the run ends in the same way.
-/

namespace Frontend.Parser

open ParserState

section

variable {σ τ : Type} [TokenStream σ] [TokenStream τ] {α β : Type}

/-- How a run ends. -/
inductive Verdict (α : Type) where
  | value (a : α)
  /-- An error about the token at hand. -/
  | refused (cause : Cause)
  /-- An error about the last token consumed. -/
  | rejected (cause : Cause)
  /-- The source fails where it should follow up the token at hand. -/
  | failed

/-- A run reads some tokens and a last one, and its verdict on these fixes its result. -/
inductive Ends (s : ParserState σ) :
    Verdict α → List Token → Token → EStateM.Result Halt (ParserState σ) α → Prop where

  | value {a : α} {ts : List Token} {s₁ : ParserState σ} : s.Consumes ts s₁ →
      Ends s (.value a) ts s₁.lookahead (.ok a s₁)

  | refused {cause : Cause} {ts : List Token} {s₁ : ParserState σ} : s.Consumes ts s₁ →
      cause.Refuses s₁.lookahead → Ends s (.refused cause) ts s₁.lookahead
        (.error (.error ⟨cause, s₁.lookahead.span.start⟩) s₁)

  | rejected {cause : Cause} {ts : List Token} {t : Token} {s₁ : ParserState σ} :
      s.Consumes (ts ++ [t]) s₁ → cause.Rejects t →
      Ends s (.rejected cause) ts t (.error (.error ⟨cause, t.span.start⟩) s₁)

  | failed {e : Error} {ts : List Token} {s₁ : ParserState σ} {source : σ} : s.Consumes ts s₁ →
      s₁.lookahead.kind ≠ .eof → TokenStream.next s₁.source = (.error e, source) →
      Ends s .failed ts s₁.lookahead (.error (.error e) { s₁ with source })

variable {s : ParserState σ} {v : Verdict α} {ts us : List Token} {t : Token}
  {r : EStateM.Result Halt (ParserState σ) α}

/-- A run that reads more than some tokens consumes these first. -/
theorem ends_append :
    Ends s v (ts ++ us) t r ↔ ∃ s₁, s.Consumes ts s₁ ∧ Ends s₁ v us t r := by
  constructor
  · generalize hw : ts ++ us = ws
    intro h
    cases h with
    | value h =>
      obtain ⟨s₁, hc, h⟩ := consumes_append.mp (hw ▸ h)
      exact ⟨s₁, hc, .value h⟩
    | refused h hr =>
      obtain ⟨s₁, hc, h⟩ := consumes_append.mp (hw ▸ h)
      exact ⟨s₁, hc, .refused h hr⟩
    | rejected h hr =>
      rw [← hw, List.append_assoc] at h
      obtain ⟨s₁, hc, h⟩ := consumes_append.mp h
      exact ⟨s₁, hc, .rejected h hr⟩
    | failed h hk hn =>
      obtain ⟨s₁, hc, h⟩ := consumes_append.mp (hw ▸ h)
      exact ⟨s₁, hc, .failed h hk hn⟩
  · rintro ⟨s₁, hc, h⟩
    cases h with
    | value h => exact .value (hc.trans h)
    | refused h hr => exact .refused (hc.trans h) hr
    | rejected h hr => exact .rejected (by rw [List.append_assoc]; exact hc.trans h) hr
    | failed h hk hn => exact .failed (hc.trans h) hk hn

theorem Ends.lookahead_eq (h : Ends s v ts t r) : s.lookahead = (ts ++ [t]).head (by simp) := by
  have hc : ∃ s₁, s.Consumes ts s₁ ∧ s₁.lookahead = t := by
    cases h with
    | value h | refused h | failed h => exact ⟨_, h, rfl⟩
    | rejected h =>
      obtain ⟨s₁, h, h'⟩ := consumes_append.mp h
      exact ⟨s₁, h, h'.1⟩
  obtain ⟨s₁, hc, rfl⟩ := hc
  cases ts with
  | nil => rw [consumes_nil.mp hc]; rfl
  | cons u ts => exact hc.1

theorem Ends.alike {s' : ParserState τ} {us : List Token} {u : Token} {v' : Verdict β}
    {r' : EStateM.Result Halt (ParserState τ) β} (h : Ends s v ts t r) (h' : Ends s' v' us u r')
    (hts : Token.AllAlike ts us) (ht : t.Alike u) : s.lookahead.Alike s'.lookahead := by
  rw [h.lookahead_eq, h'.lookahead_eq]
  cases hts with
  | nil => exact ht
  | cons ha _ => exact ha

theorem take_cases {check : Token → Except Cause α} (hk : s.lookahead.kind ≠ .eof)
    (hr : ∀ cause, check s.lookahead = .error cause → cause.Rejects s.lookahead) :
    let r := (advance >>= fun t => settle t (check t) : Parser σ α) s
    (∃ a next, check s.lookahead = .ok a ∧ Ends s (.value a) [s.lookahead] next r) ∨
      (∃ cause, check s.lookahead = .error cause ∧ Ends s (.rejected cause) [] s.lookahead r) ∨
        Ends s .failed [] s.lookahead r := by
  intro r
  match hn : TokenStream.next s.source with
  | (.ok next, source) =>
    have hc : s.Consumes [s.lookahead] { s with source, lookahead := next } :=
      ⟨rfl, hk, next, source, hn, rfl⟩
    have hb : r = settle s.lookahead (check s.lookahead) _ := bind_ok _ (advance_ok hn)
    cases hv : check s.lookahead with
    | ok a =>
      rw [hb, hv]
      exact .inl ⟨a, next, rfl, .value hc⟩
    | error cause =>
      rw [hb, hv]
      exact .inr (.inl ⟨cause, rfl, .rejected hc (hr cause hv)⟩)
  | (.error e, source) =>
    have hb : r = .error (.error e) _ := bind_error _ (advance_error hn)
    rw [hb]
    exact .inr (.inr (.failed rfl hk hn))

section

variable {p : Parser σ α} {cause : Cause}

theorem Ends.exists_ok {a : α} (h : Ends s (.value a) ts t r) :
    ∃ s₁, r = .ok a s₁ ∧ s.Consumes ts s₁ ∧ s₁.lookahead = t := by
  cases h with
  | value hc => exact ⟨_, rfl, hc, rfl⟩

theorem Ends.bind_refused (f : α → Parser σ β) (h : Ends s (.refused cause) ts t (p s)) :
    Ends s (.refused cause) ts t ((p >>= f) s) := by
  generalize hp : p s = r at h
  cases h with
  | refused hc hr => exact bind_error f hp ▸ .refused hc hr

theorem Ends.bind_rejected (f : α → Parser σ β) (h : Ends s (.rejected cause) ts t (p s)) :
    Ends s (.rejected cause) ts t ((p >>= f) s) := by
  generalize hp : p s = r at h
  cases h with
  | rejected hc hr => exact bind_error f hp ▸ .rejected hc hr

theorem Ends.bind_failed (f : α → Parser σ β) (h : Ends s .failed ts t (p s)) :
    Ends s .failed ts t ((p >>= f) s) := by
  generalize hp : p s = r at h
  cases h with
  | failed hc hk hn => exact bind_error f hp ▸ .failed hc hk hn

end

/-- From every state in front of tokens like those that one parser reads, another ends alike. -/
def Local (p : Parser σ α) (q : Parser τ α) (s : ParserState σ) : Prop :=
  ∃ v ts t, Ends s v ts t (p s) ∧ ∀ (s' : ParserState τ) (us : List Token) (u : Token)
    (r : EStateM.Result Halt (ParserState τ) α), s'.IsStandard → Token.AllAlike ts us →
      t.Alike u → Ends s' v us u r → q s' = r

variable {p : Parser σ α} {q : Parser τ α}

theorem Local.of_eq_value {a : α} (hp : p s = .ok a s)
    (hq : ∀ s' : ParserState τ, s.lookahead.Alike s'.lookahead → q s' = .ok a s') :
    Local p q s := by
  refine ⟨.value a, [], s.lookahead, hp ▸ .value rfl, fun s' us u r _ hus hu h => ?_⟩
  cases hus
  cases h with
  | value h => cases h; exact hq s' hu

theorem Local.refuse (cause : Token → Cause) (hr : (cause s.lookahead).Refuses s.lookahead)
    (ha : ∀ t u, t.Alike u → cause t = cause u) :
    Local (refuse cause : Parser σ α) (refuse cause : Parser τ α) s := by
  refine ⟨.refused (cause s.lookahead), [], s.lookahead, .refused rfl hr, ?_⟩
  intro s' us u r _ hus hu h
  cases hus
  cases h with
  | refused h => cases h; rw [refuse_apply, ha _ _ hu]

theorem Local.take {check : Token → Except Cause α} (hk : s.lookahead.kind ≠ .eof)
    (ha : ∀ t u, t.Alike u → check t = check u)
    (hr : ∀ cause, check s.lookahead = .error cause → cause.Rejects s.lookahead) :
    Local (advance >>= fun t => settle t (check t) : Parser σ α)
      (advance >>= fun t => settle t (check t) : Parser τ α) s := by
  unfold Local
  match hn : TokenStream.next s.source with
  | (.ok next, source) =>
    have hc : s.Consumes [s.lookahead] { s with source, lookahead := next } :=
      ⟨rfl, hk, next, source, hn, rfl⟩
    rw [bind_ok _ (advance_ok hn)]
    cases hv : check s.lookahead with
    | ok a =>
      refine ⟨.value a, [s.lookahead], next, .value hc, fun s' us u r _ hus hu h => ?_⟩
      obtain ⟨w, ws, hw, hws, rfl⟩ := List.forall₂_cons_left_iff.mp hus
      cases hws
      cases h with
      | value h =>
        obtain ⟨rfl, -, next', source', hn', rfl⟩ := h
        rw [bind_ok _ (advance_ok hn'), ← ha _ _ hw, hv]
        rfl
    | error cause =>
      refine ⟨.rejected cause, [], s.lookahead, .rejected hc (hr cause hv), ?_⟩
      intro s' us u r _ hus hu h
      cases hus
      cases h with
      | rejected h =>
        obtain ⟨rfl, -, next', source', hn', rfl⟩ := h
        rw [bind_ok _ (advance_ok hn'), ← ha _ _ hu, hv]
        rfl
  | (.error e, source) =>
    refine ⟨.failed, [], s.lookahead, ?_, fun s' us u r _ hus _ h => ?_⟩
    · rw [bind_error _ (advance_error hn)]
      exact .failed rfl hk hn
    · cases hus
      cases h with
      | failed h _ hn' => cases h; exact bind_error _ (advance_error hn')

theorem Local.bind {f : α → Parser σ β} {g : α → Parser τ β} (h : Local p q s)
    (hf : ∀ a ts s₁, s.Consumes ts s₁ → p s = .ok a s₁ → Local (f a) (g a) s₁) :
    Local (p >>= f) (q >>= g) s := by
  obtain ⟨v, ts, t, he, hl⟩ := h
  unfold Local
  generalize hp : p s = r at he
  cases he with
  | @value a ts s₁ hc =>
    rw [bind_ok f hp]
    obtain ⟨v, us, u, he, hl'⟩ := hf a ts s₁ hc hp
    refine ⟨v, ts ++ us, u, ends_append.mpr ⟨s₁, hc, he⟩, fun s' ws w r hs hws hw h => ?_⟩
    obtain ⟨ts', us', hts, hus, rfl⟩ := hws.append_left
    obtain ⟨s₁', hc', h⟩ := ends_append.mp h
    rw [bind_ok g (hl s' ts' _ _ hs hts (he.alike h hus hw) (.value hc'))]
    exact hl' s₁' us' w r (hc'.isStandard hs) hus hw h
  | @refused cause ts s₁ hc hr =>
    rw [bind_error f hp]
    refine ⟨.refused cause, ts, _, .refused hc hr, fun s' us u r hs hus hu h => ?_⟩
    cases h with
    | refused h hr' => exact bind_error g (hl s' us _ _ hs hus hu (.refused h hr'))
  | @rejected cause ts t s₁ hc hr =>
    rw [bind_error f hp]
    refine ⟨.rejected cause, ts, _, .rejected hc hr, fun s' us u r hs hus hu h => ?_⟩
    cases h with
    | rejected h hr' => exact bind_error g (hl s' us _ _ hs hus hu (.rejected h hr'))
  | @failed e ts s₁ source hc hk hn =>
    rw [bind_error f hp]
    refine ⟨.failed, ts, _, .failed hc hk hn, fun s' us u r hs hus hu h => ?_⟩
    cases h with
    | failed h hk' hn' => exact bind_error g (hl s' us _ _ hs hus hu (.failed h hk' hn'))

end

variable {σ τ : Type} [TokenSource σ] [TokenSource τ] {α β : Type} {p : Parser σ α}
  {q : Parser τ α} {s : ParserState σ}

theorem Local.repeatWhile {wanted : TokenKind → Bool} {body : α → Parser σ α}
    {body' : α → Parser τ α}
    (hb : ∀ a s, s.IsStandard → wanted s.lookahead.kind = true → Settles true s (body a s))
    (hb' : ∀ a s, s.IsStandard → wanted s.lookahead.kind = true → Settles true s (body' a s))
    {k : ℕ} (h : ∀ a (s : ParserState σ), s.IsStandard → wanted s.lookahead.kind = true →
      s.ahead ≤ k → Local (body a) (body' a) s) (a : α) (hs : s.IsStandard) (hk : s.ahead ≤ k) :
    Local (repeatWhile wanted a body) (repeatWhile wanted a body') s := by
  induction hn : s.ahead using Nat.strongRecOn generalizing a s with
  | ind n ih =>
    by_cases hw : wanted s.lookahead.kind = true
    · have hl := (h a s hs hw hk).bind fun b ts s₁ hc hr => by
        have hne : s₁.ahead < s.ahead := by
          have hset := hb a s hs hw
          rw [hr] at hset
          obtain ⟨us, hc, hne⟩ := hset
          have := hc.ahead_add_length
          have := List.length_pos_iff.mpr (hne rfl)
          omega
        exact ih s₁.ahead (by omega) b (hc.isStandard hs) (by omega) rfl
      obtain ⟨v, ts, t, he, hl⟩ := hl
      refine ⟨v, ts, t, ?_, fun s' us u r hs' hus hu he' => ?_⟩
      · rw [repeatWhile_eq hb a hs, if_pos hw]
        exact he
      · have hw' : wanted s'.lookahead.kind = true := (he.alike he' hus hu).kind ▸ hw
        rw [repeatWhile_eq hb' a hs', if_pos hw']
        exact hl s' us u r hs' hus hu he'
    · refine .of_eq_value (a := a) ?_ fun s' hl => ?_
      · rw [repeatWhile_eq hb a hs, if_neg hw]
      · simp only [Parser.repeatWhile, repeatWithin, kind_bind_apply, ← hl.kind, hw]
        rfl

/-- Parsers of one form, made of the parsers of productions, depend on what they read. -/
theorem Form.local {known : TokenKind → Prop} {rank : ℕ} {c : Bool}
    (hf : Form Production.parser Production.parser known rank c p q) {N : ℕ}
    (H : ∀ (r : Production) (s : ParserState σ), s.IsStandard → r.need s < N →
      Local r.parser (r.parser : Parser τ Node) s)
    (hs : s.IsStandard) (hk : known s.lookahead.kind)
    (hN : Production.levels * s.ahead + rank ≤ N) : Local p q s := by
  induction hf generalizing s with
  | pure a => exact .of_eq_value rfl fun _ _ => rfl
  | @bind _ _ c _ _ _ _ _ _ _ hp _ ih ih' =>
    refine (ih hs hk hN).bind fun a ts s₁ hc hr => ih' a (hc.isStandard hs) trivial ?_
    have hset := hp.left.settles hs hk
    rw [hr] at hset
    obtain ⟨us, hc, hne⟩ := hset
    have := hc.ahead_add_length
    cases c with
    | true =>
      have := List.length_pos_iff.mpr (hne rfl)
      simp only [Production.levels, cond_true] at hN ⊢
      omega
    | false =>
      simp only [Production.levels, cond_false] at hN ⊢
      omega
  | peek _ ih =>
    obtain ⟨v, ts, t, he, hl⟩ := ih _ hk hs rfl hN
    refine ⟨v, ts, t, he, fun s' us u r hs' hus hu he' => ?_⟩
    rw [kind_bind_apply, ← (he.alike he' hus hu).kind]
    exact hl s' us u r hs' hus hu he'
  | take check hne ha hr => exact .take (hne _ hk) ha fun cause => hr _ cause hk
  | refuse cause hr ha => exact .refuse cause (hr _ hk) ha
  | call r hr => exact H r s hs (by simp only [Production.need]; omega)
  | dispatch _ ih =>
    have hl : s.handlers = Handlers.standard := hs
    obtain ⟨v, ts, t, he, hd⟩ := ih _ hs rfl hN
    refine ⟨v, ts, t, by rwa [handler?_bind_apply, hl], fun s' us u r hs' hus hu he' => ?_⟩
    have hl' : s'.handlers = Handlers.standard := hs'
    rw [handler?_bind_apply, hl', ← (he.alike he' hus hu).kind]
    exact hd s' us u r hs' hus hu he'
  | loop a _ hb ih =>
    refine .repeatWhile (k := s.ahead) (fun a s hs hw => (hb a).left.settles hs hw)
      (fun a s hs hw => (hb a).right.settles hs hw) (fun a s₁ hs₁ hw hle => ih a hs₁ hw ?_) a hs
      (Nat.le_refl _)
    have := Nat.mul_le_mul_left Production.levels hle
    omega
  | weaken _ ih => exact ih hs hk hN

end Frontend.Parser

namespace Frontend

open ParserState Frontend.Parser

variable {σ τ : Type} [TokenSource σ] [TokenSource τ] {s : ParserState σ}

/-- What a production does depends on the tokens it reads and on nothing else. -/
theorem Production.local_parse (p : Production) (hs : s.IsStandard) :
    Local p.parser (p.parser : Parser τ Node) s := by
  induction hN : p.need s using Nat.strongRecOn generalizing p s with
  | ind N ih =>
    have hl := (Form.body p).local (N := p.need s)
      (fun r s₁ hs₁ hr => ih _ (hN ▸ hr) r hs₁ rfl) hs trivial (Nat.le_refl _)
    obtain ⟨v, ts, t, he, hl⟩ := hl
    refine ⟨v, ts, t, p.parser_eq hs ▸ he, fun s' us u r hs' hus hu he' => ?_⟩
    rw [p.parser_eq hs']
    exact hl s' us u r hs' hus hu he'

theorem Parser.form_program : Form Production.parser Production.parser (fun _ => True)
    Production.levels true (program : Parser σ Node) (program : Parser τ Node) :=
  (Form.call .statement (by decide)).bind fun _ => Form.statements.bind fun _ => .pure _

theorem Parser.local_program (hs : s.IsStandard) :
    Local program (program : Parser τ Node) s :=
  form_program.local (fun r _ hs _ => r.local_parse hs) hs trivial (Nat.le_refl _)

end Frontend
