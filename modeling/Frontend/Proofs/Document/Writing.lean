import Frontend.Document
import Mathlib.Data.List.TakeWhile

/-! # What the text of a document says

On one line, the text of a document tells where the document ends and which one
it is, whatever stands behind. A number ends in front of what is no digit, a text
in front of a quote that is not escaped, and all else ends with a bracket or word
of its own.
-/

namespace Frontend.Document

variable {c : Char} {cs cs' rest tail tail' : List Char}

def hexValue (c : Char) : ℕ := if c.isDigit then c.toNat - '0'.toNat else c.toNat - 'a'.toNat + 10

/-- The character that an escaped text begins with, and what is left of the text. -/
def unescape : List Char → Option (Char × List Char)
  | [] => none
  | '\\' :: 'b' :: rest => some ('\x08', rest)
  | '\\' :: 'f' :: rest => some ('\x0c', rest)
  | '\\' :: 'n' :: rest => some ('\n', rest)
  | '\\' :: 'r' :: rest => some ('\r', rest)
  | '\\' :: 't' :: rest => some ('\t', rest)
  | '\\' :: 'u' :: '0' :: '0' :: high :: low :: rest =>
    some (Char.ofNat (16 * hexValue high + hexValue low), rest)
  | '\\' :: c :: rest => some (c, rest)
  | c :: rest => some (c, rest)

theorem hexValue_digitChar : ∀ n < 16, hexValue (Nat.digitChar n) = n := by decide

theorem unescape_escapedChar (c : Char) (rest : List Char) :
    unescape (escapedChar c ++ rest) = some (c, rest) := by
  unfold escapedChar
  split
  · rename_i h
    simp only [Bool.or_eq_true, decide_eq_true_eq] at h
    rcases h with rfl | rfl <;> rfl
  split
  · subst c; rfl
  split
  · subst c; rfl
  split
  · subst c; rfl
  split
  · subst c; rfl
  split
  · subst c; rfl
  split
  · rename_i h
    have hlt : c.toNat < 32 := h
    have hhigh := hexValue_digitChar (c.toNat / 16) (by omega)
    have hlow := hexValue_digitChar (c.toNat % 16) (by omega)
    simp [unescape, hhigh, hlow, Nat.div_add_mod]
  · rename_i h _ _ _ _ _ _
    rw [List.singleton_append, unescape.eq_def]
    split <;> simp_all

theorem escaped_inj (h : cs.flatMap escapedChar ++ '"' :: tail =
    cs'.flatMap escapedChar ++ '"' :: tail') : cs = cs' ∧ tail = tail' := by
  have hquote : ∀ (c : Char) (rest tail : List Char), escapedChar c ++ rest ≠ '"' :: tail := by
    intro c rest tail he
    have hu := unescape_escapedChar c rest
    rw [he] at hu
    cases hu
    simp [escapedChar] at he
  induction cs generalizing cs' with
  | nil =>
    cases cs' with
    | nil => exact ⟨rfl, List.tail_eq_of_cons_eq h⟩
    | cons c' cs' =>
      rw [List.flatMap_cons, List.append_assoc] at h
      exact absurd h.symm (hquote c' _ _)
  | cons c cs ih =>
    cases cs' with
    | nil =>
      rw [List.flatMap_cons, List.append_assoc] at h
      exact absurd h (hquote c _ _)
    | cons c' cs' =>
      have hu := congrArg unescape h
      simp only [List.flatMap_cons, List.append_assoc, unescape_escapedChar, Option.some.injEq,
        Prod.mk.injEq] at hu
      obtain ⟨rfl, hrest⟩ := hu
      obtain ⟨rfl, rfl⟩ := ih hrest
      exact ⟨rfl, rfl⟩

theorem quotedText_inj {v v' : String} (h : quotedText v ++ tail = quotedText v' ++ tail') :
    v = v' ∧ tail = tail' := by
  have he : v.toList.flatMap escapedChar ++ '"' :: tail =
      v'.toList.flatMap escapedChar ++ '"' :: tail' := by simpa [quotedText] using h
  obtain ⟨hv, rfl⟩ := escaped_inj he
  exact ⟨String.toList_inj.mp hv, rfl⟩

def EndsNumber (s : List Char) : Prop := ∀ c ∈ s.head?, c.isDigit = false

theorem takeWhile_toDigits_append (n : ℕ) (h : EndsNumber tail) :
    (Nat.toDigits 10 n ++ tail).takeWhile Char.isDigit = Nat.toDigits 10 n := by
  have hd : ∀ c ∈ Nat.toDigits 10 n, c.isDigit = true := fun c hc =>
    Nat.isDigit_of_mem_toDigits (by decide) (by decide) hc
  rw [List.takeWhile_append_of_pos hd]
  cases tail with
  | nil => simp
  | cons c tail => simp [h c rfl]

theorem toDigits_inj {n n' : ℕ} (h : EndsNumber tail) (h' : EndsNumber tail')
    (he : Nat.toDigits 10 n ++ tail = Nat.toDigits 10 n' ++ tail') : n = n' ∧ tail = tail' := by
  have hd := congrArg (List.takeWhile Char.isDigit) he
  rw [takeWhile_toDigits_append n h, takeWhile_toDigits_append n' h'] at hd
  have hn := congrArg (Nat.ofDigitChars 10 · 0) hd
  simp only [Nat.ofDigitChars_ten_toDigits] at hn
  subst hn
  exact ⟨rfl, List.append_cancel_left he⟩

theorem exists_toDigits (n : ℕ) : ∃ c cs, Nat.toDigits 10 n = c :: cs ∧ c.isDigit = true := by
  obtain ⟨c, cs, he⟩ := List.exists_cons_of_ne_nil (Nat.toDigits_ne_nil (n := n) (b := 10))
  have hc : c ∈ Nat.toDigits 10 n := he ▸ List.mem_cons_self
  exact ⟨c, cs, he, Nat.isDigit_of_mem_toDigits (by decide) (by decide) hc⟩

theorem toDigits_append_ne_minus (n : ℕ) : Nat.toDigits 10 n ++ tail ≠ '-' :: tail' := by
  intro he
  obtain ⟨c, cs, hc, hd⟩ := exists_toDigits n
  rw [hc] at he
  cases he
  cases hd

theorem decimal_inj {n n' : ℤ} (h : EndsNumber tail) (h' : EndsNumber tail')
    (he : decimal n ++ tail = decimal n' ++ tail') : n = n' ∧ tail = tail' := by
  cases n with
  | ofNat n =>
    cases n' with
    | ofNat n' =>
      obtain ⟨rfl, rfl⟩ := toDigits_inj h h' he
      exact ⟨rfl, rfl⟩
    | negSucc n' => exact absurd he (toDigits_append_ne_minus n)
  | negSucc n =>
    cases n' with
    | ofNat n' => exact absurd he.symm (toDigits_append_ne_minus n')
    | negSucc n' =>
      obtain ⟨hn, rfl⟩ := toDigits_inj h h' (List.tail_eq_of_cons_eq he)
      cases hn
      exact ⟨rfl, rfl⟩

def varietyOf (c : Char) : ℕ :=
  if c = 'n' then 0 else if c = 't' ∨ c = 'f' then 1 else if c = '-' ∨ c.isDigit = true then 2
  else if c = '"' then 3 else if c = '[' then 4 else if c = '\x7b' then 5 else 6

theorem varietyOf_digit (h : c.isDigit = true) : varietyOf c = 2 := by
  have hn : c ≠ 'n' ∧ c ≠ 't' ∧ c ≠ 'f' := by
    refine ⟨?_, ?_, ?_⟩ <;> rintro rfl <;> cases h
  simp [varietyOf, hn, h]

theorem exists_write (doc : Document) (layout : Layout) (depth : ℕ) (tail : List Char) :
    ∃ c cs, write layout depth doc tail = c :: cs ∧ varietyOf c = doc.ctorIdx := by
  cases doc with
  | null => exact ⟨'n', _, rfl, rfl⟩
  | bool v => cases v <;> exact ⟨_, _, rfl, rfl⟩
  | int n =>
    cases n with
    | ofNat n =>
      obtain ⟨c, cs, hc, hd⟩ := exists_toDigits n
      exact ⟨c, cs ++ tail, by rw [write, decimal, hc]; rfl, varietyOf_digit hd⟩
    | negSucc n => exact ⟨'-', _, rfl, rfl⟩
  | text v => exact ⟨'"', _, rfl, rfl⟩
  | array items => cases items <;> exact ⟨'[', _, rfl, rfl⟩
  | object fields => cases fields <;> exact ⟨'\x7b', _, rfl, rfl⟩

variable {layout : Layout} {a b : Document} {d d' : ℕ}

theorem ctorIdx_eq (h : write layout d a tail = write layout d' b tail') :
    b.ctorIdx = a.ctorIdx := by
  obtain ⟨c, cs, hc, hv⟩ := exists_write a layout d tail
  obtain ⟨c', cs', hc', hv'⟩ := exists_write b layout d' tail'
  rw [hc, hc'] at h
  cases h
  exact hv'.symm.trans hv

theorem write_ne_closing : write layout d a tail ≠ ']' :: tail' := by
  intro h
  obtain ⟨c, cs, hc, hv⟩ := exists_write a layout d tail
  rw [hc] at h
  cases h
  cases a <;> cases hv

theorem writeField_ne_closing {field : String × Document} :
    writeField layout d field tail ≠ '\x7d' :: tail' := by
  obtain ⟨key, value⟩ := field
  nofun

theorem endsNumber_writeItems (items : List Document) :
    EndsNumber (writeItems layout d items (']' :: tail)) := by
  cases items <;> (rintro c ⟨⟩; rfl)

theorem endsNumber_writeFields (fields : List (String × Document)) :
    EndsNumber (writeFields layout d fields ('\x7d' :: tail)) := by
  cases fields <;> (rintro c ⟨⟩; rfl)

mutual

theorem write_inj : ∀ (a b : Document) {d d' : ℕ} {tail tail' : List Char}, EndsNumber tail →
    EndsNumber tail' → write .oneLine d a tail = write .oneLine d' b tail' → a = b ∧ tail = tail'
  | .null, b, d, d', tail, tail', h, h', he => by
    obtain rfl : b = .null := null.elim b (ctorIdx_eq he) rfl
    simpa [write] using he
  | .bool v, b, d, d', tail, tail', h, h', he => by
    obtain ⟨v', rfl⟩ : ∃ v', b = .bool v' := bool.elim b (ctorIdx_eq he) fun v' => ⟨v', rfl⟩
    cases v <;> cases v' <;> simp_all [write]
  | .int n, b, d, d', tail, tail', h, h', he => by
    obtain ⟨n', rfl⟩ : ∃ n', b = .int n' := int.elim b (ctorIdx_eq he) fun n' => ⟨n', rfl⟩
    obtain ⟨rfl, rfl⟩ := decimal_inj h h' (by simpa [write] using he)
    exact ⟨rfl, rfl⟩
  | .text v, b, d, d', tail, tail', h, h', he => by
    obtain ⟨v', rfl⟩ : ∃ v', b = .text v' := text.elim b (ctorIdx_eq he) fun v' => ⟨v', rfl⟩
    obtain ⟨rfl, rfl⟩ := quotedText_inj (by simpa [write] using he)
    exact ⟨rfl, rfl⟩
  | .array [], b, d, d', tail, tail', h, h', he => by
    obtain ⟨items', rfl⟩ : ∃ items', b = .array items' :=
      array.elim b (ctorIdx_eq he) fun items' => ⟨items', rfl⟩
    cases items' with
    | nil => simpa [write] using he
    | cons => exact absurd (List.tail_eq_of_cons_eq he).symm write_ne_closing
  | .array (item :: items), b, d, d', tail, tail', h, h', he => by
    obtain ⟨items', rfl⟩ : ∃ items', b = .array items' :=
      array.elim b (ctorIdx_eq he) fun items' => ⟨items', rfl⟩
    cases items' with
    | nil => exact absurd (List.tail_eq_of_cons_eq he) write_ne_closing
    | cons item' items' =>
      obtain ⟨rfl, hi⟩ := write_inj item item' (endsNumber_writeItems items)
        (endsNumber_writeItems items') (List.tail_eq_of_cons_eq he)
      obtain ⟨rfl, rfl⟩ := writeItems_inj items items' hi
      exact ⟨rfl, rfl⟩
  | .object [], b, d, d', tail, tail', h, h', he => by
    obtain ⟨fields', rfl⟩ : ∃ fields', b = .object fields' :=
      object.elim b (ctorIdx_eq he) fun fields' => ⟨fields', rfl⟩
    cases fields' with
    | nil => simpa [write] using he
    | cons => exact absurd (List.tail_eq_of_cons_eq he).symm writeField_ne_closing
  | .object (field :: fields), b, d, d', tail, tail', h, h', he => by
    obtain ⟨fields', rfl⟩ : ∃ fields', b = .object fields' :=
      object.elim b (ctorIdx_eq he) fun fields' => ⟨fields', rfl⟩
    cases fields' with
    | nil => exact absurd (List.tail_eq_of_cons_eq he) writeField_ne_closing
    | cons field' fields' =>
      obtain ⟨rfl, hf⟩ := writeField_inj field field' (endsNumber_writeFields fields)
        (endsNumber_writeFields fields') (List.tail_eq_of_cons_eq he)
      obtain ⟨rfl, rfl⟩ := writeFields_inj fields fields' hf
      exact ⟨rfl, rfl⟩

theorem writeItems_inj : ∀ (as bs : List Document) {d d' : ℕ} {tail tail' : List Char},
    writeItems .oneLine d as (']' :: tail) = writeItems .oneLine d' bs (']' :: tail') →
      as = bs ∧ tail = tail'
  | [], [], _, _, _, _, he => ⟨rfl, List.tail_eq_of_cons_eq he⟩
  | [], _ :: _, _, _, _, _, he => by cases he
  | _ :: _, [], _, _, _, _, he => by cases he
  | item :: items, item' :: items', d, d', tail, tail', he => by
    obtain ⟨rfl, hi⟩ := write_inj item item' (endsNumber_writeItems items)
      (endsNumber_writeItems items') (List.tail_eq_of_cons_eq he)
    obtain ⟨rfl, rfl⟩ := writeItems_inj items items' hi
    exact ⟨rfl, rfl⟩

theorem writeField_inj : ∀ (a b : String × Document) {d d' : ℕ} {tail tail' : List Char},
    EndsNumber tail → EndsNumber tail' →
      writeField .oneLine d a tail = writeField .oneLine d' b tail' → a = b ∧ tail = tail'
  | (key, value), (key', value'), d, d', tail, tail', h, h', he => by
    obtain ⟨rfl, hv⟩ := quotedText_inj he
    obtain ⟨rfl, rfl⟩ := write_inj value value' h h' (List.tail_eq_of_cons_eq hv)
    exact ⟨rfl, rfl⟩

theorem writeFields_inj : ∀ (as bs : List (String × Document)) {d d' : ℕ} {tail tail' : List Char},
    writeFields .oneLine d as ('\x7d' :: tail) = writeFields .oneLine d' bs ('\x7d' :: tail') →
      as = bs ∧ tail = tail'
  | [], [], _, _, _, _, he => ⟨rfl, List.tail_eq_of_cons_eq he⟩
  | [], _ :: _, _, _, _, _, he => by cases he
  | _ :: _, [], _, _, _, _, he => by cases he
  | field :: fields, field' :: fields', d, d', tail, tail', he => by
    obtain ⟨rfl, hf⟩ := writeField_inj field field' (endsNumber_writeFields fields)
      (endsNumber_writeFields fields') (List.tail_eq_of_cons_eq he)
    obtain ⟨rfl, rfl⟩ := writeFields_inj fields fields' hf
    exact ⟨rfl, rfl⟩

end

/-- The text of a document on one line is the text of no other. -/
theorem compact_inj : a.compact = b.compact ↔ a = b := by
  constructor
  · intro h
    have he : write .oneLine 0 a [] = write .oneLine 0 b [] := String.ofList_inj.mp h
    exact (write_inj a b (by simp [EndsNumber]) (by simp [EndsNumber]) he).1
  · rintro rfl
    rfl

end Frontend.Document
