import Frontend.Proofs.Token.Scan
import Frontend.Token.Lexer
import Mathlib.Algebra.GroupWithZero.Nat

/-! # Layout

A token is read in the same way wherever it is written, provided that what
stands behind it does not go on with it. Hence texts that write the same tokens
with other layout in between have the same tokens, at other positions.
-/

namespace Frontend

open Text

namespace Lexer

variable {lexer after : Lexer} {t : Token} {ts : List Token} {v w s : List Char} {c : Char}
  {kind : TokenKind} {position : ℕ}

theorem facing_drop (rules : List Rule) (position : ℕ) (v w : List Char) :
    (facing rules position (v ++ w)).drop v.length = facing rules (position + size v) w := by
  simp [facing, drop]

theorem next_facing_nil (rules : List Rule) (position : ℕ) :
    (facing rules position []).next = (.ok (Token.eof position), facing rules position []) := by
  have hr : (facing rules position []).rest = [] := rfl
  rw [next, if_pos hr]
  rfl

theorem next_of_firstMatch {n : ℕ} (hr : lexer.rest ≠ [])
    (hm : Rule.firstMatch lexer.rules lexer.rest = some (kind, n)) :
    lexer.next = if kind = .skip then (lexer.drop n).next
      else (.ok (lexer.lexeme kind n), lexer.drop n) := by
  rw [next, if_neg hr]
  split
  · rename_i h
    cases hm.symm.trans h
  · rename_i h
    cases hm.symm.trans h
    rfl

theorem append_ne_nil (h : Rule.firstMatch Rule.table (v ++ w) = some (kind, v.length)) :
    v ++ w ≠ [] := by
  have hv := List.length_pos_iff.mp (Rule.firstMatch_pos h)
  exact fun he => hv (List.append_eq_nil_iff.mp he).1

theorem next_skip (h : Rule.firstMatch Rule.table (v ++ w) = some (.skip, v.length)) :
    (facing Rule.table position (v ++ w)).next =
      (facing Rule.table (position + size v) w).next := by
  rw [next_of_firstMatch (append_ne_nil h) h, if_pos rfl, facing_drop]

theorem next_lexeme (h : Rule.firstMatch Rule.table (v ++ w) = some (kind, v.length))
    (hk : kind ≠ .skip) :
    (facing Rule.table position (v ++ w)).next =
      (.ok ⟨kind, String.ofList v, ⟨position, position + size v⟩⟩,
        facing Rule.table (position + size v) w) := by
  rw [next_of_firstMatch (append_ne_nil h) h, if_neg hk, facing_drop]
  simp [lexeme, facing]

theorem next_blanks (s : List Char) : (facing Rule.table position s).next =
    (facing Rule.table (position + size (s.takeWhile isBlank)) (s.dropWhile isBlank)).next := by
  cases s with
  | nil => rfl
  | cons c s =>
    by_cases hc : isBlank c = true
    · have h := Rule.matchesRun_of_isBlank hc s
      rw [← next_skip (by rw [List.takeWhile_append_dropWhile, h]),
        List.takeWhile_append_dropWhile]
    · simp [hc]

theorem next_blank (hc : isBlank c = true) (s : List Char) :
    (facing Rule.table position (c :: s)).next =
      (facing Rule.table (position + c.utf8Size) s).next := by
  rw [next_blanks (c :: s), next_blanks s, List.takeWhile_cons_of_pos hc,
    List.dropWhile_cons_of_pos hc, size_cons, Nat.add_assoc]

theorem length_value_add_length (h : lexer.next = (.ok t, after)) :
    t.value.length + after.rest.length ≤ lexer.rest.length := by
  fun_induction next lexer with
  | case1 lexer hr =>
    cases h
    simp [Token.eof]
  | case2 => cases h
  | case3 lexer hr n hm ih =>
    have := ih h
    rw [rest_drop, List.length_drop] at this
    omega
  | case4 lexer hr k n hm hk =>
    cases h
    simp only [lexeme, rest_drop, String.length_ofList, List.length_take, List.length_drop]
    omega

theorem sum_length_le_of_run (h : lexer.run = (ts, none)) :
    (ts.map (·.value.length)).sum ≤ lexer.rest.length := by
  fun_induction run lexer generalizing ts with
  | case1 => cases h
  | case2 lexer t rest hn hk =>
    cases h
    have := length_value_add_length hn
    simp only [List.map_cons, List.map_nil, List.sum_cons, List.sum_nil]
    omega
  | case3 lexer t rest hn hk ts failure hr ih =>
    cases h
    have := ih hr
    have := length_value_add_length hn
    simp only [List.map_cons, List.sum_cons]
    omega

theorem firstMatch_of_next (h : lexer.next = (.ok t, after)) (hk : t.kind ≠ .eof)
    (hl : lexer.rest.length ≤ t.value.length + after.rest.length) :
    ∃ n, Rule.firstMatch lexer.rules lexer.rest = some (t.kind, n) ∧ t.kind ≠ .skip ∧
      t.value.toList = lexer.rest.take n := by
  rw [next] at h
  split at h
  · cases h
    exact absurd rfl hk
  split at h
  · cases h
  rename_i hr k n hm
  split at h
  · have := length_value_add_length h
    have := Rule.firstMatch_pos hm
    have := List.length_pos_iff.mpr hr
    rw [rest_drop, List.length_drop] at *
    omega
  · cases h
    exact ⟨n, hm, ‹_›, by simp [lexeme]⟩

end Lexer

/-- Blanks, comments up to the end of a line, and closed comments. -/
inductive IsLayout : List Char → Prop where
  | nil : IsLayout []

  | blank {c : Char} {s : List Char} (hc : isBlank c = true) (hs : IsLayout s) : IsLayout (c :: s)

  | line {body s : List Char} (hb : '\n' ∉ body) (hs : IsLayout s) :
      IsLayout ('/' :: '/' :: body ++ '\n' :: s)

  | block {body s : List Char} (hb : ¬ ['*', '/'] <:+: body) (hs : IsLayout s) :
      IsLayout ('/' :: '*' :: body ++ '*' :: '/' :: s)

/-- Layout at the end of a text, whose last line need not end. -/
def IsFinalLayout (s : List Char) : Prop :=
  IsLayout s ∨ ∃ t body, IsLayout t ∧ '\n' ∉ body ∧ s = t ++ '/' :: '/' :: body

variable {s body : List Char} {c : Char} {position : ℕ}

theorem IsLayout.head_cases (h : IsLayout (c :: s)) : isBlank c = true ∨ c = '/' := by
  cases h with
  | blank hc => exact .inl hc
  | line | block => exact .inr rfl

theorem IsFinalLayout.head_cases (h : IsFinalLayout (c :: s)) : isBlank c = true ∨ c = '/' := by
  rcases h with h | ⟨_ | ⟨d, t⟩, body, ht, -, he⟩
  · exact h.head_cases
  · cases he
    exact .inr rfl
  · cases he
    exact ht.head_cases

theorem takeWhile_lineComment (hb : '\n' ∉ body) (hs : s.head?.all (· == '\n') = true) :
    (body ++ s).takeWhile (· != '\n') = body := by
  rw [List.takeWhile_append_of_pos fun c hc => by simpa using ne_of_mem_of_not_mem hc hb]
  cases s with
  | nil => simp
  | cons c s => simpa using hs

theorem Lexer.next_lineComment (hb : '\n' ∉ body) (hs : s.head?.all (· == '\n') = true)
    (position : ℕ) :
    (facing Rule.table position ('/' :: '/' :: body ++ s)).next =
      (facing Rule.table (position + size ('/' :: '/' :: body)) s).next := by
  refine next_skip ?_
  rw [List.cons_append, List.cons_append, Rule.firstMatch_lineComment,
    takeWhile_lineComment hb hs]
  rfl

/-- The lexer reads behind layout what it reads without. -/
theorem IsLayout.next (h : IsLayout s) (position : ℕ) (w : List Char) :
    (Lexer.facing Rule.table position (s ++ w)).next =
      (Lexer.facing Rule.table (position + size s) w).next := by
  induction h generalizing position with
  | nil => rfl
  | blank hc hs ih => rw [List.cons_append, Lexer.next_blank hc, ih, size_cons, Nat.add_assoc]
  | line hb hs ih =>
    rw [List.append_assoc, Lexer.next_lineComment hb rfl, List.cons_append,
      Lexer.next_blank (by decide), ih]
    simp only [size_append, size_cons, Nat.add_assoc]
  | @block body s hb hs ih =>
    have he : '/' :: '*' :: body ++ '*' :: '/' :: s ++ w =
        ('/' :: '*' :: body ++ ['*', '/']) ++ (s ++ w) := by simp
    rw [he, Lexer.next_skip, ih]
    · simp only [size_append, size_cons, size_nil]
      congr 2
      omega
    · simp [Rule.firstMatch_blockComment, Rule.through_of_not_infix hb]

theorem IsFinalLayout.next (h : IsFinalLayout s) :
    (Lexer.facing Rule.table position s).next =
      (.ok (Token.eof (position + size s)), .facing Rule.table (position + size s) []) := by
  rcases h with h | ⟨t, body, ht, hb, rfl⟩
  · have hn := h.next position []
    rw [List.append_nil] at hn
    rw [hn, Lexer.next_facing_nil]
  · have hn := Lexer.next_lineComment (s := []) hb rfl (position + size t)
    rw [List.append_nil] at hn
    rw [ht.next, hn, Lexer.next_facing_nil, size_append, Nat.add_assoc]

def contents (text : String) : Except Error (List (TokenKind × String)) :=
  (tokenize text).map (·.map fun t => (t.kind, t.value))

/-- A kind and a text that is one token of this kind. -/
structure Lexeme where
  kind : TokenKind
  value : String
  contents_value : contents value = .ok [(kind, value), (.eof, "")]

/-- Written without layout in between, two lexemes stay two. -/
def Adjacent (v w : Lexeme) : Prop :=
  contents (v.value ++ w.value) = .ok [(v.kind, v.value), (w.kind, w.value), (.eof, "")] ∧
    ¬ (v.value = "/" ∧ w.value.toList.head? = some '*')

/-- Lexemes, each with the layout behind it, may be written behind some layout. -/
def WellSpaced : List Char → List (Lexeme × List Char) → Prop
  | s, [] => IsFinalLayout s
  | s, (v, s') :: items =>
    IsLayout s ∧ (v.value = "/" → s'.head?.all isBlank = true) ∧
      (s' = [] → ∀ w ∈ items.head?, Adjacent v w.1) ∧ WellSpaced s' items

/-- The text of lexemes with layout. -/
def written : List Char → List (Lexeme × List Char) → List Char
  | s, [] => s
  | s, (v, s') :: items => s ++ v.value.toList ++ written s' items

/-- The tokens that lexemes with layout make from a position on. -/
def tokensFrom (position : ℕ) : List Char → List (Lexeme × List Char) → List Token
  | s, [] => [Token.eof (position + size s)]
  | s, (v, s') :: items =>
    let start := position + size s
    let stop := start + size v.value.toList
    ⟨v.kind, v.value, ⟨start, stop⟩⟩ :: tokensFrom stop s' items

theorem contents_eq_ok {text : String} {cs : List (TokenKind × String)} :
    contents text = .ok cs ↔ ∃ ts, (Lexer.ofText text).run = (ts, none) ∧
      ts.map (fun t => (t.kind, t.value)) = cs := by
  unfold contents tokenize
  split <;> rename_i hr <;> simp [Except.map, hr]

theorem firstMatch_of_contents {text v : String} {k : TokenKind}
    {rest : List (TokenKind × String)} (h : contents text = .ok ((k, v) :: rest))
    (hr : rest ≠ []) (hl : text.length ≤ v.length + (rest.map (·.2.length)).sum) :
    k ≠ .eof ∧ k ≠ .skip ∧
      Rule.firstMatch Rule.table text.toList = some (k, v.toList.length) := by
  obtain ⟨ts, hrun, hts⟩ := contents_eq_ok.mp h
  obtain ⟨t, ts, rfl, hkv, rfl⟩ := List.map_eq_cons_iff.mp hts
  obtain ⟨rfl, rfl⟩ := Prod.mk.inj hkv
  rw [Lexer.run_eq] at hrun
  split at hrun
  · cases hrun
  rename_i after hn
  split at hrun
  · cases hrun
    exact absurd rfl hr
  rename_i hk
  obtain ⟨he, hf⟩ := Prod.mk.inj hrun
  obtain ⟨rfl, rfl⟩ := List.cons.inj he
  have hsum := Lexer.sum_length_le_of_run (Prod.ext rfl hf)
  rw [List.map_map] at hl
  obtain ⟨n, hm, hs, hv⟩ := Lexer.firstMatch_of_next hn hk (by
    change text.toList.length ≤ _
    rw [String.length_toList]
    exact hl.trans (Nat.add_le_add_left hsum _))
  have hle := Rule.length_le_of_firstMatch hm
  refine ⟨hk, hs, ?_⟩
  rw [hv, List.length_take, Nat.min_eq_left hle]
  exact hm

theorem Lexeme.firstMatch_value (v : Lexeme) : v.kind ≠ .eof ∧ v.kind ≠ .skip ∧
    Rule.firstMatch Rule.table v.value.toList = some (v.kind, v.value.toList.length) :=
  firstMatch_of_contents v.contents_value (by simp) (by simp)

theorem Adjacent.firstMatch_append {v w : Lexeme} (h : Adjacent v w) :
    Rule.firstMatch Rule.table (v.value.toList ++ w.value.toList) =
      some (v.kind, v.value.toList.length) := by
  rw [← String.toList_append]
  exact (firstMatch_of_contents h.1 (by simp) (by simp)).2.2

theorem written_cons (c : Char) (s : List Char) (items : List (Lexeme × List Char)) :
    written (c :: s) items = c :: written s items := by
  cases items <;> rfl

theorem WellSpaced.head_cases {items : List (Lexeme × List Char)}
    (h : WellSpaced (c :: s) items) : isBlank c = true ∨ c = '/' := by
  cases items with
  | nil => exact IsFinalLayout.head_cases h
  | cons => exact h.1.head_cases

/-- In a text a lexeme is matched as it is alone. -/
theorem WellSpaced.firstMatch_append {v : Lexeme} {items : List (Lexeme × List Char)}
    (h : WellSpaced s items) (hs : v.value = "/" → s.head?.all isBlank = true)
    (hw : s = [] → ∀ w ∈ items.head?, Adjacent v w.1) :
    Rule.firstMatch Rule.table (v.value.toList ++ written s items) =
      some (v.kind, v.value.toList.length) := by
  obtain ⟨-, hk, hm⟩ := v.firstMatch_value
  have hv : v.value.toList = ['/'] → v.value = "/" := fun he => String.toList_inj.mp he
  rcases s with _ | ⟨d, s⟩
  · rcases items with _ | ⟨⟨w, s'⟩, items⟩
    · simpa [written] using hm
    · have ha := hw rfl (w, s') rfl
      have hm' := ha.firstMatch_append
      obtain ⟨d, ds, hd⟩ := List.exists_cons_of_ne_nil
        (List.length_pos_iff.mp (Rule.firstMatch_pos w.firstMatch_value.2.2))
      rw [hd] at hm'
      rw [written, List.nil_append, hd, List.cons_append]
      refine Rule.firstMatch_append_cons hm' hk (fun he => ?_) _
      rintro rfl
      exact ha.2 ⟨hv he, by simp [hd]⟩
  · rw [written_cons]
    refine Rule.firstMatch_append_of_layout hm hk h.head_cases (fun he => ?_) _
    rintro rfl
    exact absurd (hs (hv he)) (by simp [isBlank])

theorem run_written (items : List (Lexeme × List Char)) (h : WellSpaced s items) (position : ℕ) :
    (Lexer.facing Rule.table position (written s items)).run =
      (tokensFrom position s items, none) := by
  induction items generalizing s position with
  | nil =>
    rw [Lexer.run_eq, written, IsFinalLayout.next h]
    rfl
  | cons item items ih =>
    obtain ⟨v, s'⟩ := item
    obtain ⟨hl, hs, hw, h⟩ := h
    obtain ⟨he, hk, -⟩ := v.firstMatch_value
    rw [Lexer.run_eq, written, List.append_assoc, hl.next,
      Lexer.next_lexeme (h.firstMatch_append hs hw) hk]
    simp [he, ih h, tokensFrom]

/-- Lexing undoes layout. -/
theorem tokenize_written {items : List (Lexeme × List Char)} (h : WellSpaced s items) :
    tokenize (String.ofList (written s items)) = .ok (tokensFrom 0 s items) := by
  have hr := run_written items h 0
  rw [tokenize, Lexer.ofText, String.toList_ofList, hr]

theorem tokenize_quotient : tokenize "/*a*/x/ 1//" =
    .ok [⟨.identifier, "x", ⟨5, 6⟩⟩, ⟨.multiplicativeOp, "/", ⟨6, 7⟩⟩, ⟨.number, "1", ⟨8, 9⟩⟩,
      Token.eof 11] := by
  have hs : IsLayout ('/' :: '*' :: ['a'] ++ '*' :: '/' :: []) := .block (by decide) .nil
  have h : WellSpaced ('/' :: '*' :: ['a'] ++ '*' :: '/' :: [])
      [(⟨.identifier, "x", by decide +kernel⟩, []),
        (⟨.multiplicativeOp, "/", by decide +kernel⟩, [' ']),
        (⟨.number, "1", by decide +kernel⟩, ['/', '/'])] := by
    refine ⟨hs, nofun, ?_, .nil, fun _ => rfl, nofun, .blank rfl .nil, nofun, nofun,
      .inr ⟨[], [], .nil, by simp, rfl⟩⟩
    rintro - w ⟨⟩
    exact ⟨by decide +kernel, by decide⟩
  have ht := tokenize_written h
  simpa [written, tokensFrom, Char.utf8Size] using ht

end Frontend
