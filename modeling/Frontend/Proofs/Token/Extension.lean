import Frontend.Proofs.Token.Cursor

/-! # Tables with more rules

Of the rules that match at a place the first one counts. A table therefore goes on finding what it
found when rules are appended to it, and a lexer over it comes to the same places. The two lexers
part where the one over fewer rules fails, and only by a match of one of the other rules.
-/

namespace Frontend

namespace Rule

/-- A table finds whatever another one finds. -/
def Extends (rules' rules : List Rule) : Prop :=
  ∀ ⦃cs kind n⦄, firstMatch rules cs = some (kind, n) → firstMatch rules' cs = some (kind, n)

theorem extends_append (rules more : List Rule) : Extends (rules ++ more) rules := by
  intro cs kind n h
  rw [firstMatch_append, h]
  rfl

end Rule

namespace Lexer

open TokenStream

variable {lexer left after : Lexer} {rules more : List Rule} {t : Token} {ts : List Token}
  {e : Error} {n : ℕ}

def withRules (lexer : Lexer) (rules : List Rule) : Lexer := { lexer with rules := rules }

theorem exists_halts_withRules (h : Rule.Extends rules lexer.rules) :
    ∃ left, lexer.Reaches left ∧ left.Halts lexer.next ∧
      (lexer.withRules rules).Reaches (left.withRules rules) ∧
      (lexer.withRules rules).next = (left.withRules rules).next := by
  fun_induction next lexer with
  | case1 lexer hr => exact ⟨lexer, .refl, .eof hr, .refl, rfl⟩
  | case2 lexer hr hm => exact ⟨lexer, .refl, .stuck hr hm, .refl, rfl⟩
  | case3 lexer hr n hm ih =>
    obtain ⟨left, hl, hh, hl', hn⟩ := ih h
    have hr' : (lexer.withRules rules).rest ≠ [] := hr
    have hm' : Rule.firstMatch (lexer.withRules rules).rules (lexer.withRules rules).rest =
        some (.skip, n) := h hm
    have hskip := next_of_firstMatch hr' hm'
    rw [if_pos rfl] at hskip
    exact ⟨left, .head ⟨hr, hm⟩ hl, hh, .head ⟨hr', hm'⟩ hl', hskip.trans hn⟩
  | case4 lexer hr kind n hm hk => exact ⟨lexer, .refl, .token hr hm hk, .refl, rfl⟩

theorem Halts.withRules (h : left.Halts (.ok t, after)) (he : Rule.Extends rules left.rules) :
    (left.withRules rules).Halts (.ok t, after.withRules rules) := by
  cases h with
  | eof hr => exact .eof hr
  | token hr hm hk => exact .token hr (he hm) hk

theorem next_withRules_of_ok (h : Rule.Extends rules lexer.rules)
    (hn : lexer.next = (.ok t, after)) :
    (lexer.withRules rules).next = (.ok t, after.withRules rules) := by
  obtain ⟨left, hl, hh, -, he⟩ := exists_halts_withRules h
  rw [hn] at hh
  rw [← hl.rules_eq] at h
  exact he.trans (hh.withRules h).next_eq

theorem next_withRules_of_error (h : Rule.Extends rules lexer.rules)
    (hn : lexer.next = (.error e, left)) :
    e = left.stuck ∧ left.rest ≠ [] ∧ Rule.firstMatch lexer.rules left.rest = none ∧
      (lexer.withRules rules).Reaches (left.withRules rules) ∧
      (lexer.withRules rules).next = (left.withRules rules).next := by
  obtain ⟨place, hl, hh, hl', he⟩ := exists_halts_withRules h
  rw [hn] at hh
  cases hh with
  | stuck hr hm => exact ⟨rfl, hr, hl.rules_eq ▸ hm, hl', he⟩

theorem next_withRules (h : ∀ cs, Rule.firstMatch rules cs = Rule.firstMatch lexer.rules cs) :
    (lexer.withRules rules).next = (lexer.next.1, lexer.next.2.withRules rules) := by
  have hext : Rule.Extends rules lexer.rules := fun cs _ _ hm => (h cs).trans hm
  cases hn : lexer.next with
  | mk r left =>
    cases r with
    | ok t => exact next_withRules_of_ok hext hn
    | error e =>
      obtain ⟨rfl, hr, hm, -, he⟩ := next_withRules_of_error hext hn
      have hh : (left.withRules rules).Halts (.error left.stuck, left.withRules rules) :=
        .stuck hr ((h _).trans hm)
      exact he.trans hh.next_eq

theorem pull_withRules (h : ∀ cs, Rule.firstMatch rules cs = Rule.firstMatch lexer.rules cs)
    (n : ℕ) : pull n (lexer.withRules rules) = pull n lexer := by
  induction n generalizing lexer with
  | zero =>
    change (lexer.withRules rules).next.1 = lexer.next.1
    rw [next_withRules h]
  | succ n ih =>
    change pull n (lexer.withRules rules).next.2 = pull n lexer.next.2
    rw [next_withRules h]
    apply ih
    rwa [lexer.reaches_next.rules_eq]

theorem after_withRules (h : Rule.Extends rules lexer.rules)
    (hn : ∀ m < n, ∃ t, pull m lexer = .ok t) :
    TokenStream.after n (lexer.withRules rules) = (TokenStream.after n lexer).withRules rules := by
  induction n with
  | zero => rfl
  | succ n ih =>
    obtain ⟨t, ht⟩ := hn n n.lt_succ_self
    rw [pull_eq_next_after] at ht
    have hext : Rule.Extends rules (TokenStream.after n lexer).rules := by
      rwa [(reaches_after n lexer).rules_eq]
    rw [after_succ, after_succ, ih fun m hm => hn m (hm.trans n.lt_succ_self)]
    exact congrArg Prod.snd (next_withRules_of_ok hext (Prod.ext ht rfl))

theorem pull_withRules_of_ok (h : Rule.Extends rules lexer.rules)
    (hn : ∀ m ≤ n, ∃ t, pull m lexer = .ok t) :
    pull n (lexer.withRules rules) = pull n lexer := by
  obtain ⟨t, ht⟩ := hn n le_rfl
  rw [pull_eq_next_after] at ht
  have hext : Rule.Extends rules (TokenStream.after n lexer).rules := by
    rwa [(reaches_after n lexer).rules_eq]
  rw [pull_eq_next_after, pull_eq_next_after, after_withRules h fun m hm => hn m hm.le, ht]
  exact congrArg Prod.fst (next_withRules_of_ok hext (Prod.ext ht rfl))

theorem run_withRules (h : Rule.Extends rules lexer.rules) (hr : lexer.run = (ts, none)) :
    (lexer.withRules rules).run = (ts, none) := by
  fun_induction run lexer generalizing ts with
  | case1 => cases hr
  | case2 lexer t left hn hk =>
    rw [run_eq, next_withRules_of_ok h hn]
    exact (if_pos hk).trans hr
  | case3 lexer t left hn hk us failure hrun ih =>
    obtain ⟨rfl, rfl⟩ := Prod.mk.inj hr
    have hrules : left.rules = lexer.rules := by
      have hreach := lexer.reaches_next
      rw [hn] at hreach
      exact hreach.rules_eq
    have hrun' := ih (hrules ▸ h) hrun
    rw [run_eq, next_withRules_of_ok h hn]
    exact (if_neg hk).trans (by rw [hrun'])

/-- What a call gives at a place where none but some further rules may match. -/
inductive Resumes (more : List Rule) (place : Lexer) : Except Error Token × Lexer → Prop where

  | stuck : (∀ rule ∈ more, rule.matchLength place.rest = none) →
      Resumes more place (.error place.stuck, place)

  | layout {rule : Rule} {n : ℕ} : rule ∈ more → rule.matchLength place.rest = some n →
      Rule.firstMatch more place.rest = some (rule.kind, n) → rule.kind = .skip →
      Resumes more place (place.drop n).next

  | token {rule : Rule} {n : ℕ} : rule ∈ more → rule.matchLength place.rest = some n →
      Rule.firstMatch more place.rest = some (rule.kind, n) → rule.kind ≠ .skip →
      Resumes more place (.ok (place.lexeme rule.kind n), place.drop n)

theorem resumes_next (hr : left.rest ≠ []) (hm : Rule.firstMatch rules left.rest = none)
    (hl : left.rules = rules ++ more) : Resumes more left left.next := by
  have happend : Rule.firstMatch left.rules left.rest = Rule.firstMatch more left.rest := by
    rw [hl, Rule.firstMatch_append, hm]
    rfl
  cases hf : Rule.firstMatch more left.rest with
  | none =>
    rw [next_of_firstMatch_eq_none hr (happend.trans hf)]
    exact .stuck (Rule.firstMatch_eq_none_iff_forall.mp hf)
  | some found =>
    obtain ⟨kind, n⟩ := found
    obtain ⟨rule, hmem, rfl, hlength⟩ := Rule.exists_rule_of_firstMatch hf
    rw [next_of_firstMatch hr (happend.trans hf)]
    by_cases hk : rule.kind = .skip
    · rw [if_pos hk]
      exact .layout hmem hlength hf hk
    · rw [if_neg hk]
      exact .token hmem hlength hf hk

/-- Where a lexer fails behind some tokens, one with further rules behind these comes to the same
place, and only the further rules may match there. -/
theorem exists_resumes (more : List Rule) (hn : ∀ m < n, ∃ t, pull m lexer = .ok t)
    (he : pull n lexer = .error e) :
    ∃ place, (TokenStream.after n (lexer.withRules (lexer.rules ++ more))).Reaches place ∧
      e = place.stuck ∧ place.rest ≠ [] ∧
      (∀ rule ∈ lexer.rules, rule.matchLength place.rest = none) ∧
      Resumes more place (TokenStream.after n (lexer.withRules (lexer.rules ++ more))).next := by
  have hext := Rule.extends_append lexer.rules more
  rw [after_withRules hext hn, ← (reaches_after n lexer).rules_eq]
  rw [← (reaches_after n lexer).rules_eq] at hext
  rw [pull_eq_next_after] at he
  obtain ⟨rfl, hr, hm, hreach, hnext⟩ := next_withRules_of_error hext (Prod.ext he rfl)
  refine ⟨_, hreach, rfl, hr, Rule.firstMatch_eq_none_iff_forall.mp hm, ?_⟩
  rw [hnext]
  exact resumes_next hr hm rfl

/-- Rules appended to a table leave alone what is read without them. A text that is read up to its
end gives the same tokens. One where the lexer fails gives the same tokens up to there; then the
same error, or else what one of the appended rules matches at that very place. -/
theorem pull_ofText_append (text : String) (rules more : List Rule) :
    (∀ ts, (ofText text rules).run = (ts, none) →
      (ofText text (rules ++ more)).run = (ts, none)) ∧
    (∀ n, (∀ m ≤ n, ∃ t, pull m (ofText text rules) = .ok t) →
      pull n (ofText text (rules ++ more)) = pull n (ofText text rules)) ∧
    ∀ n e, (∀ m < n, ∃ t, pull m (ofText text rules) = .ok t) →
      pull n (ofText text rules) = .error e →
        (∀ m < n, pull m (ofText text (rules ++ more)) = pull m (ofText text rules)) ∧
        ∃ place, (TokenStream.after n (ofText text (rules ++ more))).Reaches place ∧
          e = place.stuck ∧ e.position = place.position ∧ place.rest ≠ [] ∧
          (∀ rule ∈ rules, rule.matchLength place.rest = none) ∧
          Resumes more place (TokenStream.after n (ofText text (rules ++ more))).next := by
  have hext : Rule.Extends (rules ++ more) (ofText text rules).rules :=
    Rule.extends_append rules more
  have hpull {n : ℕ} (hn : ∀ m ≤ n, ∃ t, pull m (ofText text rules) = .ok t) :
      pull n (ofText text (rules ++ more)) = pull n (ofText text rules) :=
    pull_withRules_of_ok hext hn
  refine ⟨fun ts hr => run_withRules hext hr, fun n hn => hpull hn, fun n e hn he => ?_⟩
  obtain ⟨place, hreach, rfl, hr, hm, hresumes⟩ := exists_resumes more hn he
  exact ⟨fun m hm => hpull fun k hk => hn k (hk.trans_lt hm),
    place, hreach, rfl, rfl, hr, hm, hresumes⟩

def remainder : List Rule := [Rule.exactly .multiplicativeOp "%"]

theorem pull_ofText_append_remainder :
    pull 1 (ofText "7 % 2") = .error ⟨.unmatchedText "% 2", 2⟩ ∧
    pull 0 (ofText "7 % 2" (Rule.table ++ remainder)) = pull 0 (ofText "7 % 2") ∧
    pull 1 (ofText "7 % 2" (Rule.table ++ remainder)) =
      .ok ⟨.multiplicativeOp, "%", ⟨2, 3⟩⟩ ∧
    (∃ place, place.position = 2 ∧ place.rest ≠ [] ∧ Resumes remainder place
      (TokenStream.after 1 (ofText "7 % 2" (Rule.table ++ remainder))).next) ∧
    ∃ ts, ts ≠ [] ∧ (ofText "7/2" (Rule.table ++ remainder)).run = (ts, none) := by
  have hfails : pull 1 (ofText "7 % 2") = .error ⟨.unmatchedText "% 2", 2⟩ := by decide +kernel
  have hgives : ∀ m < 1, ∃ t, pull m (ofText "7 % 2") = .ok t := by
    intro m hm
    obtain rfl : m = 0 := by omega
    exact ⟨⟨.number, "7", ⟨0, 1⟩⟩, by decide +kernel⟩
  obtain ⟨hsame, place, -, -, hp, hr, -, hresumes⟩ :=
    (pull_ofText_append "7 % 2" Rule.table remainder).2.2 1 _ hgives hfails
  have hrun : (ofText "7/2").run = ([⟨.number, "7", ⟨0, 1⟩⟩, ⟨.multiplicativeOp, "/", ⟨1, 2⟩⟩,
      ⟨.number, "2", ⟨2, 3⟩⟩, Token.eof 3], none) := by decide +kernel
  refine ⟨hfails, hsame 0 (by omega), by decide +kernel, ⟨place, hp.symm, hr, hresumes⟩, ?_⟩
  exact ⟨_, by simp, (pull_ofText_append "7/2" Rule.table remainder).1 _ hrun⟩

end Lexer

end Frontend
