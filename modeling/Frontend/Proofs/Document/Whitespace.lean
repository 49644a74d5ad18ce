import Frontend.Proofs.Document.Writing

/-! # White space in the text of a document

The indented text of a document differs from the one on one line in its white
space, as far as this stands outside texts. A scan that tells texts from what is
around them removes it.
-/

namespace Frontend.Document

inductive Place where
  | outside
  /-- Between the quotes of a text. -/
  | inside
  /-- Between the quotes of a text, behind a backslash. -/
  | escaped

def Place.behind (c : Char) : Place → Place
  | outside => if c = '"' then inside else outside
  | inside => if c = '\\' then escaped else if c = '"' then outside else inside
  | escaped => inside

def squeeze : Place → List Char → List Char
  | _, [] => []
  | .outside, c :: cs =>
    if c.isWhitespace then squeeze .outside cs else c :: squeeze (.behind c .outside) cs
  | place, c :: cs => c :: squeeze (.behind c place) cs

/-- A text without the white space outside of quotes. -/
def withoutSpace (text : String) : String := String.ofList (squeeze .outside text.toList)

variable {s tail : List Char}

def IsPlain (c : Char) : Prop := c.isWhitespace = false ∧ c ≠ '"'

instance (c : Char) : Decidable (IsPlain c) := inferInstanceAs (Decidable (_ ∧ _))

@[simp] theorem squeeze_plain {c : Char} (hc : IsPlain c) :
    squeeze .outside (c :: s) = c :: squeeze .outside s := by
  simp [squeeze, Place.behind, hc.1, hc.2]

theorem squeeze_plain_append (hs : ∀ c ∈ s, IsPlain c) :
    squeeze .outside (s ++ tail) = s ++ squeeze .outside tail := by
  induction s with
  | nil => rfl
  | cons c s ih =>
    obtain ⟨hc, hs⟩ := List.forall_mem_cons.mp hs
    rw [List.cons_append, squeeze_plain hc, ih hs, List.cons_append]

theorem isPlain_of_isDigit {c : Char} (hc : c.isDigit = true) : IsPlain c := by
  constructor
  · by_contra hs
    simp only [Char.isWhitespace, Bool.not_eq_false, Bool.or_eq_true, decide_eq_true_eq] at hs
    rcases hs with ((rfl | rfl) | rfl) | rfl <;> cases hc
  · rintro rfl
    cases hc

theorem squeeze_decimal (n : ℤ) :
    squeeze .outside (decimal n ++ tail) = decimal n ++ squeeze .outside tail := by
  have hdigits : ∀ n, ∀ c ∈ Nat.toDigits 10 n, IsPlain c := fun n c hc =>
    isPlain_of_isDigit (Nat.isDigit_of_mem_toDigits (by decide) (by decide) hc)
  apply squeeze_plain_append
  cases n with
  | ofNat n => exact hdigits n
  | negSucc n => exact List.forall_mem_cons.mpr ⟨by decide, hdigits (n + 1)⟩

theorem squeeze_escapedChar (c : Char) :
    squeeze .inside (escapedChar c ++ s) = escapedChar c ++ squeeze .inside s := by
  have hinside : ∀ c, c ≠ '\\' → c ≠ '"' →
      ∀ s, squeeze .inside (c :: s) = c :: squeeze .inside s := by
    intro c hc hc' s
    simp [squeeze, Place.behind, hc, hc']
  have hdigit : ∀ n < 16, Nat.digitChar n ≠ '\\' ∧ Nat.digitChar n ≠ '"' := by decide
  unfold escapedChar
  split
  · rfl
  split
  · rfl
  split
  · rfl
  split
  · rfl
  split
  · rfl
  split
  · rfl
  split
  · rename_i h
    have hlt : c.toNat < 32 := h
    obtain ⟨hh, hh'⟩ := hdigit (c.toNat / 16) (by omega)
    obtain ⟨hl, hl'⟩ := hdigit (c.toNat % 16) (by omega)
    simp [squeeze, Place.behind, hh, hh', hl, hl']
  · rename_i h _ _ _ _ _ _
    simp only [Bool.or_eq_true, decide_eq_true_eq, not_or] at h
    exact hinside c h.2 h.1 s

theorem squeeze_escaped (cs : List Char) :
    squeeze .inside (cs.flatMap escapedChar ++ s) =
      cs.flatMap escapedChar ++ squeeze .inside s := by
  induction cs with
  | nil => rfl
  | cons c cs ih =>
    rw [List.flatMap_cons, List.append_assoc, squeeze_escapedChar, ih, List.append_assoc]

theorem squeeze_quotedText (value : String) :
    squeeze .outside (quotedText value ++ tail) = quotedText value ++ squeeze .outside tail := by
  have hopen : ∀ s, squeeze .outside ('"' :: s) = '"' :: squeeze .inside s := fun _ => rfl
  have hclose : squeeze .inside ('"' :: tail) = '"' :: squeeze .outside tail := rfl
  simp only [quotedText, List.cons_append, List.append_assoc, List.nil_append, hopen,
    squeeze_escaped, hclose]

theorem squeeze_lineBreak (layout : Layout) (depth : ℕ) :
    squeeze .outside (layout.lineBreak depth ++ tail) = squeeze .outside tail := by
  have hspaces : ∀ n, squeeze .outside (List.replicate n ' ' ++ tail) = squeeze .outside tail := by
    intro n
    induction n with
    | zero => rfl
    | succ n ih => exact ih
  cases layout with
  | oneLine => rfl
  | indented => exact hspaces _

theorem squeeze_colon (layout : Layout) :
    squeeze .outside (layout.colon ++ tail) = ':' :: squeeze .outside tail := by
  cases layout <;> rfl

section

variable (layout : Layout)

mutual

theorem squeeze_write : ∀ (doc : Document) (d d' : ℕ) (tail : List Char),
    squeeze .outside (write layout d doc tail) = write .oneLine d' doc (squeeze .outside tail)
  | .null, _, _, _ => rfl
  | .bool true, _, _, _ => rfl
  | .bool false, _, _, _ => rfl
  | .int n, _, _, _ => squeeze_decimal n
  | .text value, _, _, _ => squeeze_quotedText value
  | .array [], _, _, _ => rfl
  | .array (item :: items), d, d', tail => by
    rw [write, squeeze_plain (by decide), squeeze_lineBreak, squeeze_write item (d + 1) (d' + 1),
      squeeze_writeItems items (d + 1) (d' + 1), squeeze_lineBreak, squeeze_plain (by decide)]
    rfl
  | .object [], _, _, _ => rfl
  | .object (field :: fields), d, d', tail => by
    rw [write, squeeze_plain (by decide), squeeze_lineBreak,
      squeeze_writeField field (d + 1) (d' + 1), squeeze_writeFields fields (d + 1) (d' + 1),
      squeeze_lineBreak, squeeze_plain (by decide)]
    rfl

theorem squeeze_writeItems : ∀ (items : List Document) (d d' : ℕ) (tail : List Char),
    squeeze .outside (writeItems layout d items tail) =
      writeItems .oneLine d' items (squeeze .outside tail)
  | [], _, _, _ => rfl
  | item :: items, d, d', tail => by
    rw [writeItems, squeeze_plain (by decide), squeeze_lineBreak, squeeze_write item d d',
      squeeze_writeItems items d d']
    rfl

theorem squeeze_writeField : ∀ (field : String × Document) (d d' : ℕ) (tail : List Char),
    squeeze .outside (writeField layout d field tail) =
      writeField .oneLine d' field (squeeze .outside tail)
  | (key, value), d, d', tail => by
    rw [writeField, squeeze_quotedText, squeeze_colon, squeeze_write value d d']
    rfl

theorem squeeze_writeFields : ∀ (fields : List (String × Document)) (d d' : ℕ) (tail : List Char),
    squeeze .outside (writeFields layout d fields tail) =
      writeFields .oneLine d' fields (squeeze .outside tail)
  | [], _, _, _ => rfl
  | field :: fields, d, d', tail => by
    rw [writeFields, squeeze_plain (by decide), squeeze_lineBreak, squeeze_writeField field d d',
      squeeze_writeFields fields d d']
    rfl

end

end

/-- The indented text without its white space is the text on one line. -/
theorem withoutSpace_pretty (doc : Document) : withoutSpace doc.pretty = doc.compact := by
  rw [withoutSpace, pretty, String.toList_ofList, squeeze_write .indented doc 0 0]
  rfl

end Frontend.Document
