import Frontend.Proofs.Token.Reading

/-! # Tokens partition a text

The tokens of a text stand in it one behind the other, each where its span says,
and there is nothing but layout between them. Where no rule matches, the tokens
read so far partition the text before.
-/

namespace Frontend

open Text

/-- Between two positions, which both are character boundaries, a text has a piece. -/
def Text.Slice (text : List Char) (start stop : ℕ) (piece : List Char) : Prop :=
  ∃ before after, text = before ++ piece ++ after ∧ size before = start ∧
    size (before ++ piece) = stop

/-- From a position on, a text consists of tokens with layout in front of each, and of an
ending of some form. Every token stands where its span says. -/
inductive Tiles (text : List Char) (IsEnding : List Char → Prop) : ℕ → List Token → Prop where

  | nil {position : ℕ} {gap : List Char} : Slice text position (size text) gap → IsEnding gap →
      Tiles text IsEnding position []

  | cons {position : ℕ} {gap : List Char} {t : Token} {ts : List Token} :
      Slice text position t.span.start gap → IsLayout gap →
      Slice text t.span.start t.span.stop t.value.toList → t.value ≠ "" → t.kind ≠ .skip →
      t.kind ≠ .eof → Tiles text IsEnding t.span.stop ts → Tiles text IsEnding position (t :: ts)

variable {text piece : List Char} {IsEnding : List Char → Prop} {start stop position : ℕ}
  {ts : List Token}

theorem Text.Slice.le (h : Slice text start stop piece) : start ≤ stop := by
  obtain ⟨before, after, -, rfl, rfl⟩ := h
  rw [size_append]
  exact Nat.le_add_right _ _

theorem Text.Slice.lt (h : Slice text start stop piece) (hp : piece ≠ []) : start < stop := by
  obtain ⟨before, after, -, rfl, rfl⟩ := h
  obtain ⟨c, cs, rfl⟩ := List.exists_cons_of_ne_nil hp
  have := c.utf8Size_pos
  rw [size_append, size_cons]
  omega

namespace Tiles

theorem start_lt_stop (h : Tiles text IsEnding position ts) :
    ∀ t ∈ ts, position ≤ t.span.start ∧ t.span.start < t.span.stop := by
  induction h with
  | nil => simp
  | cons hg _ hv hne _ _ _ ih =>
    have hle := hg.le
    have hlt := hv.lt (by simpa using hne)
    refine List.forall_mem_cons.mpr ⟨⟨hle, hlt⟩, fun u hu => ?_⟩
    obtain ⟨hu, hu'⟩ := ih u hu
    exact ⟨by omega, hu'⟩

theorem pairwise (h : Tiles text IsEnding position ts) :
    ts.Pairwise fun t u => t.span.stop ≤ u.span.start := by
  induction h with
  | nil => exact .nil
  | cons _ _ _ _ _ _ h ih => exact .cons (fun u hu => (h.start_lt_stop u hu).1) ih

theorem read {before gap v w : List Char} {kind : TokenKind} (hg : IsLayout gap) (hv : v ≠ [])
    (hk : kind ≠ .skip) (he : kind ≠ .eof)
    (h : Tiles (before ++ gap ++ v ++ w) IsEnding (size (before ++ gap ++ v)) ts) :
    Tiles (before ++ gap ++ v ++ w) IsEnding (size before)
      (⟨kind, String.ofList v, ⟨size (before ++ gap), size (before ++ gap ++ v)⟩⟩ :: ts) :=
  .cons ⟨before, v ++ w, by simp, rfl, rfl⟩ hg
    ⟨before ++ gap, w, by simp, rfl, by simp⟩ (by simpa using hv) hk he h

end Tiles

namespace Lexer

/-- A run behind some text makes tiles of what is left of it, up to the end or up to a place
where no rule matches. -/
theorem run_tiles (before s : List Char) :
    (∃ ts, (facing Rule.table (size before) s).run =
      (ts ++ [Token.eof (size (before ++ s))], none) ∧
        Tiles (before ++ s) IsFinalLayout (size before) ts) ∨
    ∃ ts read left, (facing Rule.table (size before) s).run =
      (ts, some (facing Rule.table (size (before ++ read)) left).stuck) ∧ s = read ++ left ∧
        left ≠ [] ∧ Tiles (before ++ read) IsLayout (size before) ts := by
  induction hn : s.length using Nat.strong_induction_on generalizing before s with
  | _ n ih =>
    have hr := reads_next (size before) s
    rw [run_eq]
    generalize (facing Rule.table (size before) s).next = r at hr
    cases hr with
    | eof h =>
      refine .inl ⟨[], ?_, .nil ⟨before, [], by simp, rfl, by simp⟩ h⟩
      simp [Token.eof]
    | @stuck gap w h hw hm =>
      refine .inr ⟨[], gap, w, ?_, rfl, hw, .nil ⟨before, [], by simp, rfl, by simp⟩ h⟩
      simp
    | @token gap v w kind h hk hm =>
      have hv : v ≠ [] := List.length_pos_iff.mp (Rule.firstMatch_pos hm)
      have he := Rule.ne_eof_of_firstMatch hm
      have hlt : w.length < n := by
        have := Rule.firstMatch_pos hm
        rw [← hn, List.length_append, List.length_append]
        omega
      simp only [he, if_false, ← size_append]
      rcases ih w.length hlt (before ++ gap ++ v) w rfl with
        ⟨ts, hrun, ht⟩ | ⟨ts, read, left, hrun, rfl, hl, ht⟩
      · have hw : before ++ (gap ++ (v ++ w)) = before ++ gap ++ v ++ w := by simp
        rw [hrun, hw]
        exact .inl ⟨_, rfl, ht.read h hv hk he⟩
      · have hw : before ++ (gap ++ v ++ read) = before ++ gap ++ v ++ read := by simp
        rw [hrun, ← hw]
        exact .inr ⟨_, gap ++ v ++ read, left, rfl, by simp, hl, hw ▸ ht.read h hv hk he⟩

end Lexer

/-- Tokens partition a text if they and layout make it up, and if their spans increase without
overlaps. What stands behind the last token is of some form. -/
structure Partitions (text : List Char) (ts : List Token) (IsEnding : List Char → Prop) :
    Prop where
  tiles : Tiles text IsEnding 0 ts
  start_lt_stop : ∀ t ∈ ts, t.span.start < t.span.stop
  pairwise : ts.Pairwise fun t u => t.span.stop ≤ u.span.start

theorem Tiles.partitions (h : Tiles text IsEnding 0 ts) : Partitions text ts IsEnding :=
  ⟨h, fun t ht => (h.start_lt_stop t ht).2, h.pairwise⟩

/-- The tokens of a text partition it, with the end of input behind them. If a text cannot be cut
into tokens, those read before the error partition the text before the error. -/
theorem tokenize_partitions (text : String) :
    match tokenize text with
    | .ok ts => ∃ body, ts = body ++ [Token.eof text.utf8ByteSize] ∧
        Partitions text.toList body IsFinalLayout
    | .error e => ∃ body read left, (Lexer.ofText text).run = (body, some e) ∧
        text.toList = read ++ left ∧ left ≠ [] ∧ e.position = size read ∧
          e.cause = .unmatchedText (String.ofList (left.take Lexer.quotedLength)) ∧
            Partitions read body IsLayout := by
  rcases Lexer.run_tiles [] text.toList with ⟨ts, hrun, ht⟩ | ⟨ts, read, left, hrun, hs, hl, ht⟩
  · have hr : (Lexer.ofText text).run = _ := hrun
    rw [tokenize, hr]
    exact ⟨ts, by simp, ht.partitions⟩
  · have hr : (Lexer.ofText text).run = _ := hrun
    rw [tokenize, hr]
    exact ⟨ts, read, left, rfl, hs, hl, rfl, rfl, ht.partitions⟩

end Frontend
