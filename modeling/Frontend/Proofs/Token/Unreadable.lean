import Frontend.Proofs.Token.Cursor
import Frontend.Proofs.Token.Longest

/-! # Text that cannot be read

No rule matches in front of a character that is foreign to the language, of half an operator, and
of a string that is not closed. Everywhere else there is one. Hence a text has no tokens exactly if
the cursor comes to stand in front of such text.
-/

namespace Frontend

open Text

/-- A character outside of ASCII, a control character that is no layout, or a sign that the
language does not have. -/
def IsForeign (c : Char) : Prop :=
  128 ≤ c.toNat ∨
    (c.toNat < 32 ∨ c.toNat = 127) ∧ c ∉ ['\t', '\n', '\x0c', '\r'] ∨
    c ∈ ['#', '$', '%', ':', '?', '@', '\\', '^', '\x60', '~']

instance : DecidablePred IsForeign := fun _ => inferInstanceAs (Decidable (_ ∨ _ ∨ _))

/-- Text in front of which the lexer has to stop. -/
inductive IsUnreadable : List Char → Prop where

  | foreign {c : Char} {cs : List Char} : IsForeign c → IsUnreadable (c :: cs)

  /-- An operator of two equal characters, the second of which is missing. -/
  | half {c : Char} {cs : List Char} : c = '&' ∨ c = '|' → cs.head? ≠ some c →
      IsUnreadable (c :: cs)

  | unclosed {q : Char} {cs : List Char} : q = '"' ∨ q = '\'' → q ∉ cs → IsUnreadable (q :: cs)

namespace Rule

open Matcher

variable {c q : Char} {cs : List Char} {rule : Rule} {m : ℕ}

def openings : List Char :=
  [';', '{', '}', '(', ')', ',', '.', '[', ']', '=', '!', '<', '>', '+', '-', '*', '/']

theorem forall_ascii {P : Char → Prop} (h : ∀ n < 128, P (Char.ofNat n)) (hc : c.toNat < 128) :
    P c := by
  rw [← Char.ofNat_toNat c]
  exact h _ hc

theorem ascii_of_isWordChar (hc : isWordChar c = true) : c.toNat < 128 := by
  have hle {d : Char} (h : c ≤ d) (hd : d.toNat < 128) : c.toNat < 128 :=
    Nat.lt_of_le_of_lt (UInt32.le_iff_toNat_le.mp (Char.le_def.mp h)) hd
  simp only [isWordChar, isDigit, Bool.or_eq_true, Bool.and_eq_true, decide_eq_true_eq,
    beq_iff_eq] at hc
  rcases hc with ((⟨-, h⟩ | ⟨-, h⟩) | ⟨-, h⟩) | rfl
  · exact hle h (by decide)
  · exact hle h (by decide)
  · exact hle h (by decide)
  · decide

theorem ascii_of_isBlank (hc : isBlank c = true) : c.toNat < 128 := by
  simp only [isBlank, Bool.or_eq_true, beq_iff_eq] at hc
  rcases hc with (((rfl | rfl) | rfl) | rfl) | rfl <;> decide

theorem isForeign_iff (c : Char) :
    IsForeign c ↔ isSymbol c = true ∧ c ∉ openings ∧ c ≠ '&' ∧ c ≠ '|' := by
  rcases Nat.lt_or_ge c.toNat 128 with hc | hc
  · exact forall_ascii (P := fun c => IsForeign c ↔ isSymbol c = true ∧ c ∉ openings ∧ c ≠ '&' ∧
      c ≠ '|') (by decide +kernel) hc
  · have hne {d : Char} (hd : d.toNat < 128) : c ≠ d := by
      rintro rfl
      omega
    have hopen : openings.all (·.toNat < 128) = true := by decide
    have hb : isBlank c = false := by
      by_contra hb
      exact absurd (ascii_of_isBlank (by simpa using hb)) (by omega)
    have hw : isWordChar c = false := by
      by_contra hw
      exact absurd (ascii_of_isWordChar (by simpa using hw)) (by omega)
    have hs : isSymbol c = true := by
      simp [isSymbol, hb, hw, hne (d := '"') (by decide), hne (d := '\'') (by decide)]
    constructor
    · intro
      refine ⟨hs, fun h => ?_, hne (by decide), hne (by decide)⟩
      have hlt : c.toNat < 128 := by simpa using List.all_eq_true.mp hopen c h
      omega
    · intro
      exact .inl hc

theorem opening_of_signs (hr : rule ∈ signs) (h : rule.matchLength (c :: cs) = some m) :
    c ∈ openings ∨ (c = '&' ∨ c = '|') ∧ cs.head? = some c := by
  have hsigns : ∀ k ∈ signs.map Rule.kind, ∀ text ∈ k.spellings,
      text.toList.head?.any (· ∈ openings) = true ∨ text.toList = ['&', '&'] ∨
        text.toList = ['|', '|'] := by
    decide +kernel
  obtain ⟨m, rfl⟩ := Nat.exists_eq_add_one.mpr (matchLength_pos h)
  have htake := hsigns _ (List.mem_map_of_mem hr) _ ((isSpelled_signs hr).take_mem h)
  rw [String.toList_ofList, List.take_succ_cons] at htake
  have hdouble {d : Char} (he : c :: cs.take m = [d, d]) : c = d ∧ cs.head? = some c := by
    obtain ⟨rfl, he⟩ := List.cons.inj he
    obtain ⟨rest, rfl⟩ : ∃ rest, cs = c :: rest := ⟨cs.drop m, by
      rw [← List.singleton_append, ← he, List.take_append_drop]⟩
    exact ⟨rfl, rfl⟩
  rcases htake with hc | he | he
  · exact .inl (by simpa using hc)
  · exact .inr ⟨.inl (hdouble he).1, (hdouble he).2⟩
  · exact .inr ⟨.inr (hdouble he).1, (hdouble he).2⟩

theorem firstMatch_signs_of_openings (hc : c ∈ openings) (cs : List Char) :
    firstMatch signs (c :: cs) ≠ none := by
  have hone : openings.all (fun c => firstMatch signs [c] ≠ none) = true := by decide +kernel
  have htwo : openings.all (fun c => ['=', '&', '|'].all fun d =>
      firstMatch signs [c, d] ≠ none) = true := by
    decide +kernel
  simp only [List.all_eq_true, decide_eq_true_eq] at hone htwo
  obtain _ | ⟨d, ds⟩ := cs
  · exact hone c hc
  rw [signs, firstMatch_append, firstMatch_punctuation]
  by_cases hd : d ∈ ['=', '&', '|']
  · rw [firstMatch_operators, ← firstMatch_punctuation c [d], ← firstMatch_append]
    exact htwo c hc d hd
  · simp only [List.mem_cons, List.not_mem_nil, or_false, not_or] at hd
    rw [firstMatch_operators_of_ne hd.1 hd.2.1 hd.2.2, ← firstMatch_append]
    exact hone c hc

theorem firstMatch_signs_of_double (hc : c = '&' ∨ c = '|') (cs : List Char) :
    firstMatch signs (c :: c :: cs) ≠ none := by
  rw [signs, firstMatch_append, firstMatch_punctuation, firstMatch_operators]
  rcases hc with rfl | rfl <;> decide

theorem firstMatch_symbol_eq_none_iff (hc : isSymbol c = true) (cs : List Char) :
    firstMatch table (c :: cs) = none ↔
      c ∉ openings ∧ ((c = '&' ∨ c = '|') → cs.head? ≠ some c) := by
  constructor
  · intro h
    have hsigns : firstMatch signs (c :: cs) = none :=
      firstMatch_eq_none_iff_forall.mpr fun rule hr =>
        firstMatch_eq_none_iff_forall.mp h rule (mem_table_of_signs hr)
    refine ⟨fun hopen => firstMatch_signs_of_openings hopen cs hsigns, fun hhalf he => ?_⟩
    obtain ⟨ds, rfl⟩ := List.head?_eq_some_iff.mp he
    exact firstMatch_signs_of_double hhalf ds hsigns
  · rintro ⟨hopen, hhalf⟩
    have hl : firstMatch layout (c :: cs) = none := by
      apply firstMatch_layout (isBlank_of_isSymbol hc)
      rintro rfl
      exact hopen (by decide)
    rw [firstMatch_symbol hc hl, ← firstMatch_append]
    refine firstMatch_eq_none_iff_forall.mpr fun rule hr => ?_
    cases hm : rule.matchLength (c :: cs) with
    | none => rfl
    | some m =>
      rcases opening_of_signs hr hm with h | ⟨h, he⟩
      · exact absurd h hopen
      · exact absurd he (hhalf h)

theorem firstMatch_quote_eq_none_iff (hq : q = '"' ∨ q = '\'') (cs : List Char) :
    firstMatch table (q :: cs) = none ↔ q ∉ cs := by
  rw [firstMatch_quote hq, Option.map_eq_none_iff]
  constructor
  · intro h hm
    obtain ⟨body, rest, rfl, hb⟩ := List.eq_append_cons_of_mem hm
    have ht := through_singleton_eq_some.mpr ⟨body, rest, rfl, hb, rfl⟩
    cases h.symm.trans ht
  · intro h
    cases ht : through [q] cs with
    | none => rfl
    | some n =>
      obtain ⟨body, rest, rfl, -⟩ := through_singleton_eq_some.mp ht
      exact absurd (by simp) h

theorem firstMatch_ne_none (hs : ¬ isSymbol c = true) (hq : ¬ (c = '"' ∨ c = '\''))
    (cs : List Char) : firstMatch table (c :: cs) ≠ none := by
  rcases opening_cases c with hb | ⟨p, f, hrun, -⟩ | hq' | hs'
  · simp [matchesRun_of_isBlank hb cs]
  · simp [hrun cs]
  · exact absurd hq' hq
  · exact absurd hs' hs

theorem symbol_or_quote_of_isUnreadable (h : IsUnreadable (c :: cs)) :
    isSymbol c = true ∨ c = '"' ∨ c = '\'' := by
  cases h with
  | foreign hc => exact .inl ((isForeign_iff c).mp hc).1
  | half hc => exact .inl (by rcases hc with rfl | rfl <;> decide)
  | unclosed hq => exact .inr hq

/-- No rule matches exactly where text cannot be read. -/
theorem firstMatch_eq_none_iff (c : Char) (cs : List Char) :
    firstMatch table (c :: cs) = none ↔ IsUnreadable (c :: cs) := by
  by_cases hs : isSymbol c = true
  · rw [firstMatch_symbol_eq_none_iff hs]
    constructor
    · rintro ⟨hopen, hhalf⟩
      by_cases hc : c = '&' ∨ c = '|'
      · exact .half hc (hhalf hc)
      · exact .foreign ((isForeign_iff c).mpr ⟨hs, hopen, not_or.mp hc⟩)
    · rintro (hc | ⟨hc, he⟩ | ⟨hq, -⟩)
      · obtain ⟨-, hopen, hne⟩ := (isForeign_iff c).mp hc
        exact ⟨hopen, fun h => absurd h (not_or.mpr hne)⟩
      · exact ⟨by rcases hc with rfl | rfl <;> decide, fun _ => he⟩
      · rcases hq with rfl | rfl <;> cases hs
  by_cases hq : c = '"' ∨ c = '\''
  · rw [firstMatch_quote_eq_none_iff hq]
    constructor
    · exact .unclosed hq
    · rintro (hc | ⟨hc, -⟩ | ⟨-, h⟩)
      · exact absurd ((isForeign_iff c).mp hc).1 hs
      · rcases hc with rfl | rfl <;> cases hs rfl
      · exact h
  · constructor
    · intro h
      exact absurd h (firstMatch_ne_none hs hq cs)
    · intro h
      rcases symbol_or_quote_of_isUnreadable h with h | h
      · exact absurd h hs
      · exact absurd h hq

end Rule

namespace Lexer

open TokenStream

theorem run_snd_cases (lexer : Lexer) (hrules : lexer.rules = Rule.table) :
    ∃ left, lexer.Reaches left ∧ (left.rest = [] ∧ lexer.run.2 = none ∨
      IsUnreadable left.rest ∧ lexer.run.2 = some left.stuck) := by
  rcases run_cases lexer with
    ⟨ts, t, rest, hrun, -, ht, hg⟩ | ⟨ts, e, last, rest, hrun, -, hg, hn⟩
  · obtain ⟨last, hg, rest, hn, -⟩ := TokenStream.gives_append.mp hg
    obtain ⟨left, hl, hh⟩ := last.exists_halts
    have hleft : lexer.Reaches left := (reaches_of_gives hg).trans hl
    rw [show last.next = _ from hn] at hh
    cases hh with
    | eof hr => exact ⟨_, hleft, .inl ⟨hr, by rw [hrun]⟩⟩
    | token _ hm =>
      rw [hleft.rules_eq, hrules] at hm
      exact absurd ht (Rule.ne_eof_of_firstMatch hm)
  · obtain ⟨left, hl, hh⟩ := last.exists_halts
    have hleft : lexer.Reaches left := (reaches_of_gives hg).trans hl
    rw [hn] at hh
    cases hh with
    | stuck hr hm =>
      rw [hleft.rules_eq, hrules] at hm
      obtain ⟨c, cs, hc⟩ := List.exists_cons_of_ne_nil hr
      rw [hc, Rule.firstMatch_eq_none_iff, ← hc] at hm
      exact ⟨_, hleft, .inr ⟨hm, by rw [hrun]⟩⟩

theorem not_moves_of_isUnreadable {lexer : Lexer} (hrules : lexer.rules = Rule.table)
    (h : IsUnreadable lexer.rest) (left : Lexer) : ¬ lexer.Moves left := by
  apply not_moves_of_firstMatch_eq_none
  rw [hrules]
  generalize lexer.rest = s at h
  obtain _ | ⟨c, cs⟩ := s
  · cases h
  · exact (Rule.firstMatch_eq_none_iff c cs).mpr h

end Lexer

/-- Where the cursor of a lexer comes to stand in a text in front of what it cannot read. -/
def unreadablePlaces (text : String) : Set ℕ :=
  {p | ∃ read left, text.toList = read ++ left ∧ size read = p ∧ IsUnreadable left ∧
    (Lexer.ofText text).Reaches (Lexer.facing Rule.table p left)}

theorem mem_unreadablePlaces {text : String} {p : ℕ} : p ∈ unreadablePlaces text ↔
    ∃ left, (Lexer.ofText text).Reaches left ∧ IsUnreadable left.rest ∧ left.position = p := by
  constructor
  · rintro ⟨read, left, -, -, hu, hl⟩
    exact ⟨_, hl, hu, rfl⟩
  · rintro ⟨left, hl, hu, rfl⟩
    obtain ⟨read, ht, hp⟩ := hl.divides (Lexer.divides_ofText text _)
    have he : Lexer.facing Rule.table left.position left.rest = left := hl.facing_eq
    exact ⟨read, left.rest, ht, hp.symm, hu, he.symm ▸ hl⟩

theorem eq_of_reaches_unreadable {text : String} {left left' : Lexer}
    (hl : (Lexer.ofText text).Reaches left) (hu : IsUnreadable left.rest)
    (hl' : (Lexer.ofText text).Reaches left') (hu' : left'.rest = [] ∨ IsUnreadable left'.rest) :
    left = left' := by
  apply hl.eq_of_not_moves hl' (Lexer.not_moves_of_isUnreadable hl.rules_eq hu)
  rcases hu' with hr | hu'
  · exact Lexer.not_moves_of_rest_eq_nil hr
  · exact Lexer.not_moves_of_isUnreadable hl'.rules_eq hu'

theorem tokenize_eq (text : String) : tokenize text =
    match (Lexer.ofText text).run.2 with
    | none => .ok (Lexer.ofText text).run.1
    | some e => .error e := by
  rw [tokenize]
  split <;> rename_i h <;> rw [h]

/-- A text is either read to its end, or up to the one place where it cannot be read. -/
theorem tokenize_cases (text : String) :
    (∃ ts, tokenize text = .ok ts) ∧ unreadablePlaces text = ∅ ∨
      ∃ remaining p, tokenize text = .error ⟨.unmatchedText remaining, p⟩ ∧
        unreadablePlaces text = {p} := by
  obtain ⟨left, hl, ⟨hr, hrun⟩ | ⟨hu, hrun⟩⟩ :=
    (Lexer.ofText text).run_snd_cases rfl
  · left
    constructor
    · exact ⟨_, by rw [tokenize_eq, hrun]⟩
    · refine Set.eq_empty_of_forall_notMem fun p hp => ?_
      obtain ⟨left', hl', hu', -⟩ := mem_unreadablePlaces.mp hp
      rw [eq_of_reaches_unreadable hl' hu' hl (.inl hr), hr] at hu'
      cases hu'
  · refine .inr ⟨_, left.position, by rw [tokenize_eq, hrun]; rfl, ?_⟩
    ext p
    rw [mem_unreadablePlaces, Set.mem_singleton_iff]
    constructor
    · rintro ⟨left', hl', hu', rfl⟩
      rw [eq_of_reaches_unreadable hl' hu' hl (.inr hu)]
    · rintro rfl
      exact ⟨left, hl, hu, rfl⟩

/-- No rule matches exactly in front of text that cannot be read. Lexing fails at the first place
of such text that the cursor gets to, and succeeds if it gets to none. -/
theorem tokenize_eq_error_iff_isLeast (text : String) :
    (∀ c cs, (∀ rule ∈ Rule.table, rule.matchLength (c :: cs) = none) ↔ IsUnreadable (c :: cs)) ∧
    (∀ p, (∃ remaining, tokenize text = .error ⟨.unmatchedText remaining, p⟩) ↔
      IsLeast (unreadablePlaces text) p) ∧
    ((∃ ts, tokenize text = .ok ts) ↔ unreadablePlaces text = ∅) := by
  constructor
  · intro c cs
    rw [← Rule.firstMatch_eq_none_iff, Rule.firstMatch, List.findSome?_eq_none_iff]
    simp only [Option.map_eq_none_iff]
  rcases tokenize_cases text with ⟨⟨ts, ht⟩, hplaces⟩ | ⟨remaining, p, ht, hplaces⟩
  · rw [ht, hplaces]
    exact ⟨fun p => ⟨nofun, fun h => h.1.elim⟩, ⟨fun _ => rfl, fun _ => ⟨ts, rfl⟩⟩⟩
  · rw [ht, hplaces]
    constructor
    · intro p'
      constructor
      · rintro ⟨_, ⟨⟩⟩
        exact isLeast_singleton
      · intro h
        rw [h.unique isLeast_singleton]
        exact ⟨remaining, rfl⟩
    · constructor
      · rintro ⟨_, ⟨⟩⟩
      · intro h
        exact absurd h (Set.singleton_ne_empty p)

end Frontend
