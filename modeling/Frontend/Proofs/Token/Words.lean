import Frontend.Proofs.Token.Cursor
import Frontend.Proofs.Token.Spelling

/-! # Words

Where the cursor comes to a run of letters, digits and underscores, the digits in front are a
number. The rest of the run is one reserved word or one name, even if it begins like another word.
-/

namespace Frontend

open Text TokenStream

theorem Rule.wordKind_ne_skip (word : List Char) : wordKind word ≠ .skip := by
  have hkeywords : ∀ k ∈ TokenKind.keywords, k ≠ .skip := by decide
  unfold wordKind
  cases hf : TokenKind.keywords.find? fun k => k.name.toList == word with
  | none => simp
  | some k => exact hkeywords k (List.mem_of_find?_eq_some hf)

namespace Lexer

variable {d e s : List Char}

theorem next_digits (position : ℕ) (hd : d ≠ []) (hall : ∀ c ∈ d, isDigit c = true)
    (hs : s.head?.any isDigit = false) : (facing Rule.table position (d ++ s)).next =
      (.ok ⟨.number, String.ofList d, ⟨position, position + size d⟩⟩,
        facing Rule.table (position + size d) s) := by
  obtain ⟨c, v, rfl⟩ := List.exists_cons_of_ne_nil hd
  have hrun := Rule.matchesRun_of_isDigit (hall c List.mem_cons_self)
  exact next_lexeme (hrun.firstMatch_append hall hs) nofun

theorem next_word (position : ℕ) (he : e ≠ []) (hd : e.head?.any isDigit = false)
    (hall : ∀ c ∈ e, isWordChar c = true) (hs : s.head?.any isWordChar = false) :
    (facing Rule.table position (e ++ s)).next =
      (.ok ⟨Rule.wordKind e, String.ofList e, ⟨position, position + size e⟩⟩,
        facing Rule.table (position + size e) s) := by
  obtain ⟨c, v, rfl⟩ := List.exists_cons_of_ne_nil he
  have hrun := Rule.matchesRun_of_isWordChar (hall c List.mem_cons_self) (by simpa using hd)
  exact next_lexeme (hrun.firstMatch_append hall hs) (Rule.wordKind_ne_skip _)

theorem head_append_not_isDigit (he : e.head?.any isDigit = false)
    (hs : s.head?.any isWordChar = false) : (e ++ s).head?.any isDigit = false := by
  obtain _ | ⟨c, e⟩ := e
  · obtain _ | ⟨c, s⟩ := s
    · rfl
    · by_contra hd
      have hw : isWordChar c = true := Rule.isWordChar_of_isDigit (by simpa using hd)
      simp [hw] at hs
  · exact he

theorem pull_digits_append (position : ℕ) (hd : d ≠ []) (hdigits : ∀ c ∈ d, isDigit c = true)
    (he : e.head?.any isDigit = false) (hall : ∀ c ∈ e, isWordChar c = true)
    (hs : s.head?.any isWordChar = false) :
    pull 0 (facing Rule.table position (d ++ e ++ s)) =
      .ok ⟨.number, String.ofList d, ⟨position, position + size d⟩⟩ ∧
    (e ≠ [] → pull 1 (facing Rule.table position (d ++ e ++ s)) =
      .ok ⟨Rule.wordKind e, String.ofList e,
        ⟨position + size d, position + size (d ++ e)⟩⟩) := by
  have hn := next_digits position hd hdigits (head_append_not_isDigit he hs)
  rw [← List.append_assoc] at hn
  constructor
  · exact congrArg Prod.fst hn
  · intro hne
    change (facing Rule.table position (d ++ e ++ s)).next.2.next.1 = _
    rw [hn, next_word _ hne he hall hs, size_append, Nat.add_assoc]

theorem spells_of_pull {text : String} {n : ℕ} {t : Token} (h : pull n (ofText text) = .ok t)
    (ht : t.kind ≠ .eof) : t.kind.Spells t.value.toList := by
  rw [pull_eq_next_after] at h
  have hfacing := (reaches_after n (ofText text)).facing_eq
  generalize after n (ofText text) = left at h hfacing
  have hr := reads_next left.position left.rest
  rw [show facing Rule.table left.position left.rest = left from hfacing] at hr
  rcases hn : left.next with ⟨result, rest⟩
  rw [hn] at hr
  cases (congrArg Prod.fst hn).symm.trans h
  exact hr.spells ht

/-- The digits of a word are a number, and what is left of it is a reserved word or a name. A name
begins with no digit and is no reserved word. -/
theorem pull_word (text : String) :
    (∀ position w s, (ofText text).Reaches (facing Rule.table position (w ++ s)) →
      w ≠ [] → (∀ c ∈ w, isWordChar c = true) → s.head?.any isWordChar = false →
      ∃ n, (w.takeWhile isDigit = [] → pull n (ofText text) =
          .ok ⟨Rule.wordKind w, String.ofList w, ⟨position, position + size w⟩⟩) ∧
        (w.takeWhile isDigit ≠ [] → pull n (ofText text) =
            .ok ⟨.number, String.ofList (w.takeWhile isDigit),
              ⟨position, position + size (w.takeWhile isDigit)⟩⟩ ∧
          (w.dropWhile isDigit ≠ [] → pull (n + 1) (ofText text) =
            .ok ⟨Rule.wordKind (w.dropWhile isDigit), String.ofList (w.dropWhile isDigit),
              ⟨position + size (w.takeWhile isDigit), position + size w⟩⟩))) ∧
    ∀ n t, pull n (ofText text) = .ok t → t.kind = .identifier →
      t.value.toList.head?.any isDigit = false ∧ ∀ k ∈ TokenKind.keywords, k.name ≠ t.value := by
  constructor
  · intro position w s hreach hne hall hs
    obtain ⟨n, hpull⟩ := hreach.exists_pull_eq
    have hsplit := List.takeWhile_append_dropWhile (p := isDigit) (l := w)
    have hdigits : ∀ c ∈ w.takeWhile isDigit, isDigit c = true := fun c => List.mem_takeWhile_imp
    have hhead : (w.dropWhile isDigit).head?.any isDigit = false := by
      have h := List.head?_dropWhile_not isDigit w
      cases hd : (w.dropWhile isDigit).head? <;> simp_all
    have hrest : ∀ c ∈ w.dropWhile isDigit, isWordChar c = true := fun c hc =>
      hall c ((List.dropWhile_sublist isDigit).subset hc)
    refine ⟨n, fun hd => ?_, fun hd => ?_⟩
    · rw [hd, List.nil_append] at hsplit
      rw [hsplit] at hhead
      rw [← Nat.add_zero n, hpull]
      exact congrArg Prod.fst (next_word position hne hhead hall hs)
    · obtain ⟨hnumber, hword⟩ := pull_digits_append position hd hdigits hhead hrest hs
      rw [hsplit] at hnumber hword
      rw [hpull 1, ← hnumber]
      exact ⟨hpull 0, hword⟩
  · intro n t ht hk
    have hspells := spells_of_pull ht (by simp [hk])
    rw [hk] at hspells
    obtain ⟨c, rest, he, hd, -, hkeywords⟩ : IsName t.value.toList := hspells
    constructor
    · simp [he, hd]
    · intro k hmem hname
      exact hkeywords k hmem (congrArg String.toList hname)

/-- Behind a blank the cursor stands in front of a word that ends before a letter outside of ASCII.
Its digits are a number, and the rest is a name that begins like a reserved word. -/
theorem pull_word_iffy :
    (ofText " 42iffyé").Reaches (facing Rule.table 1 (['4', '2', 'i', 'f', 'f', 'y'] ++ ['é'])) ∧
      ∃ n, pull n (ofText " 42iffyé") = .ok ⟨.number, "42", ⟨1, 3⟩⟩ ∧
        pull (n + 1) (ofText " 42iffyé") = .ok ⟨.identifier, "iffy", ⟨3, 7⟩⟩ := by
  have hm : Rule.firstMatch Rule.table (ofText " 42iffyé").rest = some (.skip, 1) := by
    decide +kernel
  have hr : (ofText " 42iffyé").Reaches
      (facing Rule.table 1 (['4', '2', 'i', 'f', 'f', 'y'] ++ ['é'])) :=
    .single (.over (by decide) hm)
  have hword : ['4', '2', 'i', 'f', 'f', 'y'].all isWordChar = true := by decide
  obtain ⟨n, -, h⟩ := (pull_word " 42iffyé").1 1 _ _ hr (by decide) (List.all_eq_true.mp hword)
    (by decide)
  obtain ⟨hnumber, hname⟩ := h (by decide)
  exact ⟨hr, n, hnumber, hname (by decide)⟩

end Lexer

end Frontend
