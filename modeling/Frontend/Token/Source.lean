import Frontend.Error
import Frontend.Token.Basic

/-! # Token streams and sources

Tokens are pulled from a stream one at a time. A stream may go on for ever. A source
is a stream that runs dry, so that loops over its tokens come to an end.
-/

namespace Frontend

/-- Anything that tokens can be pulled from. A pull gives a token or fails, and more pulls may
follow: nothing is asked of their number, of the tokens, or of what follows an end of input. -/
class TokenStream (σ : Type) where
  /-- The next token, or why there is none, and the stream that is left. -/
  next : σ → Except Error Token × σ

/-- A stream that bounds the pulls which give something else than the end of input. -/
class TokenSource (σ : Type) extends TokenStream σ where
  remaining : σ → Nat
  remaining_next_le : ∀ source, remaining (next source).2 ≤ remaining source
  remaining_lt_of_next : ∀ {source token after}, next source = (.ok token, after) →
    token.kind ≠ .eof → remaining after < remaining source

/-- Pulls prepared in advance. Past the last one comes the end of input at position zero. -/
structure TokenList where
  pulls : List (Except Error Token)

namespace TokenList

def next : TokenList → Except Error Token × TokenList
  | ⟨[]⟩ => (.ok (Token.eof 0), ⟨[]⟩)
  | ⟨pull :: pulls⟩ => (pull, ⟨pulls⟩)

instance : TokenSource TokenList where
  next := next
  remaining source := source.pulls.length
  remaining_next_le source := by
    rcases source with ⟨_ | _⟩ <;> simp [next]
  remaining_lt_of_next {source token after} h hk := by
    rcases source with ⟨_ | _⟩ <;> cases h
    · exact absurd rfl hk
    · simp

end TokenList

/-- A stream that remembers the tokens it has given, the latest first. -/
structure Recorded (σ : Type) where
  source : σ
  given : List Token

namespace Recorded

section

variable {σ : Type} [TokenStream σ]

def start (source : σ) : Recorded σ := ⟨source, []⟩

def next (recorded : Recorded σ) : Except Error Token × Recorded σ :=
  match TokenStream.next recorded.source with
  | (.ok token, source) => (.ok token, ⟨source, token :: recorded.given⟩)
  | (.error e, source) => (.error e, ⟨source, recorded.given⟩)

theorem source_next (recorded : Recorded σ) :
    recorded.next.2.source = (TokenStream.next recorded.source).2 := by
  unfold next
  split <;> simp_all

theorem result_next (recorded : Recorded σ) :
    recorded.next.1 = (TokenStream.next recorded.source).1 := by
  unfold next
  split <;> simp_all

instance : TokenStream (Recorded σ) where
  next := next

end

instance {σ : Type} [TokenSource σ] : TokenSource (Recorded σ) where
  remaining recorded := TokenSource.remaining recorded.source
  remaining_next_le recorded := by
    change TokenSource.remaining recorded.next.2.source ≤ _
    rw [source_next]
    exact TokenSource.remaining_next_le _
  remaining_lt_of_next {recorded token after} h hk := by
    have hs := source_next recorded
    have hr := result_next recorded
    change recorded.next = _ at h
    rw [h] at hs hr
    exact TokenSource.remaining_lt_of_next (Prod.ext hr.symm hs.symm) hk

end Recorded

/-- A stream behind a meter, which answers so many pulls and then ends the input. -/
structure Metered (σ : Type) where
  source : σ
  pulls : Nat

namespace Metered

variable {σ : Type} [TokenStream σ]

def next : Metered σ → Except Error Token × Metered σ
  | ⟨source, 0⟩ => (.ok (Token.eof 0), ⟨source, 0⟩)
  | ⟨source, pulls + 1⟩ =>
    let (answer, rest) := TokenStream.next source
    (answer, ⟨rest, pulls⟩)

instance : TokenSource (Metered σ) where
  next := next
  remaining := pulls
  remaining_next_le metered := by
    rcases metered with ⟨source, _ | pulls⟩
    · exact Nat.le_refl _
    · exact Nat.le_succ pulls
  remaining_lt_of_next {metered token after} h hk := by
    rcases metered with ⟨source, _ | pulls⟩
    · cases h
      exact absurd rfl hk
    · obtain rfl := congrArg Prod.snd h
      exact Nat.lt_succ_self pulls

end Metered

end Frontend
