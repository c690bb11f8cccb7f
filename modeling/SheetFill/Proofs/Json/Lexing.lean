import SheetFill.Json.Reader
import SheetFill.Json.Writer

/-!
# A written value, token by token

A value is written without blanks, and its tokens can be read off the text again: punctuation stands for
itself, a string ends at the first quote that is not escaped, and a word ends where a character comes that
no word has. The last point is why a value is read in a text that goes on after it.

Of numbers this is said for naturals of 64 bits, which are written in plain digits and read as they are.

## Main definitions

* `Value.Fits` — values with such numbers, and containers of limited depth.
* `Value.tokens` — the tokens of a value.

## Main results

* `readString_escape` — a string is read back.
* `Number.read?_decimalDigits` — a number is read back.
* `tokens_chars` — the tokens of a text that begins with a value.
* `newline_not_mem_chars` — a value is written on one line, whatever numbers it has.
-/

namespace SheetFill.Json

open Text

/-! ## Strings -/

/-- The characters that are written after a backslash by a letter of their own, with these letters. -/
def escapeLetters : List (Char × Char) :=
  [('"', '"'), ('\\', '\\'), ('\x08', 'b'), ('\t', 't'), ('\n', 'n'), ('\x0c', 'f'), ('\r', 'r')]

theorem escape_of_mem_escapeLetters {c letter : Char} (h : (c, letter) ∈ escapeLetters) :
    letter ≠ 'u' ∧ letter ≠ '\n' ∧ escaped letter = some c ∧ escape c = ['\\', letter] := by
  simp only [escapeLetters, List.mem_cons, Prod.mk.injEq, List.not_mem_nil, or_false] at h
  rcases h with ⟨rfl, rfl⟩ | ⟨rfl, rfl⟩ | ⟨rfl, rfl⟩ | ⟨rfl, rfl⟩ | ⟨rfl, rfl⟩ | ⟨rfl, rfl⟩ | ⟨rfl, rfl⟩
  all_goals exact ⟨by decide, by decide, rfl, rfl⟩

/--
A character is written after a backslash by a letter of its own, or by its number if it is another control
character, or else as it is.
-/
theorem escape_cases (c : Char) :
    (∃ letter, (c, letter) ∈ escapeLetters) ∨
      (c.toNat < 0x20 ∧ escape c =
        ['\\', 'u', '0', '0', hexDigit (c.toNat / 16), hexDigit (c.toNat % 16)]) ∨
      (c ≠ '"' ∧ c ≠ '\\' ∧ 0x20 ≤ c.toNat ∧ escape c = [c]) := by
  by_cases hletter : c ∈ escapeLetters.map Prod.fst
  · obtain ⟨m, hm, rfl⟩ := List.mem_map.1 hletter
    exact .inl ⟨m.2, hm⟩
  · simp only [escapeLetters, List.map_cons, List.map_nil, List.mem_cons, List.not_mem_nil, or_false,
      not_or] at hletter
    obtain ⟨hquote, hslash, hb, ht, hn, hf, hr⟩ := hletter
    by_cases hcontrol : c.toNat < 0x20
    · exact .inr (.inl ⟨hcontrol, by simp [escape, *]⟩)
    · exact .inr (.inr ⟨hquote, hslash, by omega, by simp [escape, *]⟩)

theorem codeUnit_control {n : Nat} (h : n < 0x20) :
    codeUnit '0' '0' (hexDigit (n / 16)) (hexDigit (n % 16)) = some n := by
  have all : ∀ m ∈ List.range 0x20,
      codeUnit '0' '0' (hexDigit (m / 16)) (hexDigit (m % 16)) = some m := by decide +kernel
  exact all n (List.mem_range.2 h)

/-- An escaped character is read back, whatever comes after it. -/
theorem readString_escape (c : Char) (rest : List Char) :
    readString (escape c ++ rest) = prepend c (readString rest) := by
  rcases escape_cases c with ⟨letter, hmem⟩ | ⟨hcontrol, hc⟩ | ⟨hquote, hslash, hplain, hc⟩
  · obtain ⟨hu, -, hletter, hc⟩ := escape_of_mem_escapeLetters hmem
    rw [hc, List.cons_append, List.cons_append, List.nil_append, readString]
    · simp only [hletter]
    · intro a b c' d rest' heq
      exact absurd heq hu
  · have hlow : isLowSurrogate c.toNat = false := by
      simp only [isLowSurrogate, Bool.and_eq_false_iff, decide_eq_false_iff_not]
      omega
    have hhigh : isHighSurrogate c.toNat = false := by
      simp only [isHighSurrogate, Bool.and_eq_false_iff, decide_eq_false_iff_not]
      omega
    rw [hc]
    simp only [List.cons_append, List.nil_append, readString, codeUnit_control hcontrol, hlow, hhigh,
      Char.ofNat_toNat]
    rfl
  · rw [hc, List.cons_append, List.nil_append, readString]
    · rw [if_neg (Nat.not_lt.2 hplain)]
    · exact hquote
    · intro a b c' d rest' heq
      exact absurd heq hslash
    · intro c' rest' heq
      exact absurd heq hslash

/-- A string is read back up to its closing quote. -/
theorem readString_escaped (cs rest : List Char) :
    readString (cs.flatMap escape ++ '"' :: rest) = some (cs, rest) := by
  induction cs with
  | nil => rfl
  | cons c cs ih =>
      rw [List.flatMap_cons, List.append_assoc, readString_escape, ih]
      rfl

theorem newline_not_mem_escape (c : Char) : '\n' ∉ escape c := by
  rcases escape_cases c with ⟨letter, hmem⟩ | ⟨hcontrol, hc⟩ | ⟨-, -, hplain, hc⟩
  · obtain ⟨-, hn, -, hc⟩ := escape_of_mem_escapeLetters hmem
    rw [hc]
    simp [Ne.symm hn]
  · have all : ∀ m ∈ List.range 0x20, '\n' ∉ [hexDigit (m / 16), hexDigit (m % 16)] := by decide +kernel
    have hdigits := all c.toNat (List.mem_range.2 hcontrol)
    rw [hc]
    simpa using hdigits
  · rw [hc, List.mem_singleton]
    rintro rfl
    exact absurd hplain (by decide)

/-! ## Numbers -/

namespace Number

/-- Digits are taken up to the last one if the number fits. -/
theorem absorb_eq (cs : List Char) (n : Nat)
    (h : cs.foldl (fun v c => 10 * v + digitValue c) n ≤ maxWord) :
    absorb n cs = (cs.foldl (fun v c => 10 * v + digitValue c) n, []) := by
  induction cs generalizing n with
  | nil => rfl
  | cons c cs ih =>
      rw [List.foldl_cons] at h
      have hnext : 10 * n + digitValue c ≤ maxWord := Nat.le_trans (digitsValue_le_foldl cs _) h
      simp only [absorb, if_pos hnext, List.foldl_cons]
      exact ih _ h

/-- The digits of a number are a literal. -/
theorem readLiteral_decimalDigits (n : Nat) :
    readLiteral (decimalDigits n) = some ⟨false, decimalDigits n, [], none⟩ := by
  have hdigits : ∀ c ∈ decimalDigits n, c.isDigit = true := fun c => isDigit_of_mem_decimalDigits
  have hwhole : (decimalDigits n ++ []).takeWhile Char.isDigit = decimalDigits n ++ [] :=
    List.takeWhile_append_of_pos hdigits
  have hrest : (decimalDigits n ++ []).dropWhile Char.isDigit = [] :=
    List.dropWhile_append_of_pos hdigits
  rw [List.append_nil] at hwhole hrest
  have hzero : ((decimalDigits n).head? == some '0' && (decimalDigits n).length ≠ 1) = false := by
    by_cases hhead : (decimalDigits n).head? = some '0'
    · rw [eq_zero_of_head?_decimalDigits hhead]
      simp [decimalDigits]
    · simp [hhead]
  have hminus : ∀ cs, decimalDigits n ≠ '-' :: cs := by
    intro cs heq
    have := hdigits '-' (by rw [heq]; exact List.mem_cons_self)
    exact absurd this (by decide)
  unfold readLiteral
  split
  next minus cs hsign =>
    have hplain : (minus, cs) = (false, decimalDigits n) := by
      rw [← hsign]
      split
      · next heq => exact absurd heq (hminus _)
      · rfl
    obtain ⟨rfl, rfl⟩ := Prod.mk.inj hplain
    simp only [hwhole, hrest, hzero, List.isEmpty_eq_false_iff.2 (decimalDigits_ne_nil n)]
    rfl

/-- A number of 64 bits is read back. -/
theorem read?_decimalDigits {n : Nat} (h : n ≤ maxWord) :
    read? (decimalDigits n) = some (.natural n) := by
  have hvalue : (decimalDigits n).foldl (fun v c => 10 * v + digitValue c) 0 = n :=
    digitsValue_decimalDigits n
  have habsorb : absorb 0 (decimalDigits n) = (n, []) := by
    have hall := absorb_eq (decimalDigits n) 0 (by rwa [hvalue])
    rwa [hvalue] at hall
  rw [read?, readLiteral_decimalDigits, Option.bind_some, ofLiteral, habsorb]
  rfl

theorem ofWord_decimalDigits {n : Nat} (h : n ≤ maxWord) :
    ofWord (decimalDigits n) = some (.scalar (.number (.natural n))) := by
  have hletter (c : Char) (cs : List Char) (hc : c.isDigit = false) : decimalDigits n ≠ c :: cs := by
    intro heq
    have hdigit : c.isDigit = true :=
      isDigit_of_mem_decimalDigits (n := n) (by rw [heq]; exact List.mem_cons_self)
    rw [hc] at hdigit
    cases hdigit
  rw [ofWord, if_neg (hletter 't' _ (by decide)), if_neg (hletter 'f' _ (by decide)),
    if_neg (hletter 'n' _ (by decide)), read?_decimalDigits h]
  rfl

end Number

/-! ## Texts -/

/-- A text that does not go on with the word before it. -/
def EndsWord (rest : List Char) : Prop := ∀ c ∈ rest.head?, isWordChar c = false

theorem endsWord_cons {c : Char} (h : isWordChar c = false) (rest : List Char) : EndsWord (c :: rest) := by
  rintro _ ⟨⟩
  exact h

theorem tokens_space {c : Char} (h : isSpace c = true) (rest : List Char) :
    tokens (c :: rest) = tokens rest := by
  rw [tokens, if_pos h]

theorem tokens_punctuation {c : Char} {t : Token} (hspace : isSpace c = false)
    (h : punctuation? c = some t) (rest : List Char) :
    tokens (c :: rest) = (tokens rest).map (t :: ·) := by
  rw [tokens, hspace, h]
  rfl

theorem tokens_quote (s : String) (rest : List Char) :
    tokens (quote s ++ rest) = (tokens rest).map (.string s.toList :: ·) := by
  have hread : readString (s.toList.flatMap escape ++ ['"'] ++ rest) = some (s.toList, rest) := by
    rw [List.append_assoc]
    exact readString_escaped s.toList rest
  rw [quote, List.cons_append, tokens]
  split
  · next hspace => exact absurd hspace (by decide)
  · split
    · next hpunctuation => cases hpunctuation
    · rw [if_pos rfl]
      split
      · next heq =>
          rw [hread] at heq
          cases heq
      · next heq =>
          rw [hread] at heq
          cases heq
          rfl

theorem not_isSpace_of_isWordChar {c : Char} (h : isWordChar c = true) : isSpace c = false := by
  refine Bool.eq_false_iff.2 fun hspace => ?_
  simp only [isSpace, Bool.or_eq_true, beq_iff_eq] at hspace
  rcases hspace with ((rfl | rfl) | rfl) | rfl
  all_goals exact absurd h (by decide)

theorem punctuation?_of_isWordChar {c : Char} (h : isWordChar c = true) : punctuation? c = none := by
  unfold punctuation?
  have hne (d : Char) (hd : isWordChar d = false) : c ≠ d := by
    rintro rfl
    rw [h] at hd
    cases hd
  simp only [if_neg (hne '[' (by decide)), if_neg (hne ']' (by decide)), if_neg (hne '\x7b' (by decide)),
    if_neg (hne '\x7d' (by decide)), if_neg (hne ',' (by decide)), if_neg (hne ':' (by decide))]

/-- A word is a token where no character of a word comes after it. -/
theorem tokens_word {word rest : List Char} {t : Token} (hne : word ≠ [])
    (hword : ∀ c ∈ word, isWordChar c = true) (ht : ofWord word = some t) (hrest : EndsWord rest) :
    tokens (word ++ rest) = (tokens rest).map (t :: ·) := by
  obtain ⟨c, word, rfl⟩ := List.exists_cons_of_ne_nil hne
  obtain ⟨hc, hword⟩ := List.forall_mem_cons.1 hword
  have hquote : c ≠ '"' := by
    rintro rfl
    exact absurd hc (by decide)
  have htake : (word ++ rest).takeWhile isWordChar = word := by
    rw [List.takeWhile_append_of_pos hword]
    cases rest with
    | nil => simp
    | cons d rest => simp [hrest d rfl]
  have hdrop : (word ++ rest).dropWhile isWordChar = rest := by
    rw [List.dropWhile_append_of_pos hword]
    cases rest with
    | nil => rfl
    | cons d rest => simp [hrest d rfl]
  rw [List.cons_append, tokens, not_isSpace_of_isWordChar hc, punctuation?_of_isWordChar hc]
  simp only [Bool.false_eq_true, if_false, if_neg hquote, hc, if_true, htake, hdrop, ht]

/-! ## Values -/

namespace Value

/-- Numbers of 64 bits, and at most `room` containers inside each other. -/
inductive Fits : Nat → Value → Prop
  | null {room : Nat} : Fits room .null
  | bool {room : Nat} (b : Bool) : Fits room (.bool b)
  | number {room k : Nat} (h : k ≤ Number.maxWord) : Fits room (.number (.natural k))
  | string {room : Nat} (s : String) : Fits room (.string s)
  | array {room : Nat} {items : List Value} (h : ∀ v ∈ items, Fits room v) :
      Fits (room + 1) (.array items)
  | object {room : Nat} {members : List (String × Value)} (h : ∀ m ∈ members, Fits room m.2) :
      Fits (room + 1) (.object members)

mutual

/-- The tokens of a value. -/
def tokens : Value → List Token
  | .null => [.scalar .null]
  | .bool b => [.scalar (.bool b)]
  | .number n => [.scalar (.number n)]
  | .string s => [.string s.toList]
  | .array items => .openArray :: (itemTokens items ++ [.closeArray])
  | .object members => .openObject :: (memberTokens members ++ [.closeObject])

/-- The tokens of the items of an array. -/
def itemTokens : List Value → List Token
  | [] => []
  | [v] => v.tokens
  | v :: w :: rest => v.tokens ++ .comma :: itemTokens (w :: rest)

/-- The tokens of the members of an object. -/
def memberTokens : List (String × Value) → List Token
  | [] => []
  | [(k, v)] => .string k.toList :: .colon :: v.tokens
  | (k, v) :: m :: rest =>
    .string k.toList :: .colon :: (v.tokens ++ .comma :: memberTokens (m :: rest))

end

/-- The items of an array after the first have a comma before them. -/
theorem itemTokens_cons (v : Value) (items : List Value) :
    itemTokens (v :: items) = v.tokens ++ items.flatMap fun w => .comma :: w.tokens := by
  induction items generalizing v with
  | nil => simp [itemTokens]
  | cons w items ih => rw [itemTokens, ih, List.flatMap_cons, List.cons_append]

end Value

/-- The tokens of a text that begins with a value are those of the value, and those of the rest. -/
def Lexes (v : Value) : Prop :=
  ∀ rest, EndsWord rest → tokens (v.chars ++ rest) = (tokens rest).map (v.tokens ++ ·)

theorem tokens_itemChars {items : List Value} (h : ∀ v ∈ items, Lexes v) {rest : List Char}
    (hrest : EndsWord rest) :
    tokens (Value.itemChars items ++ rest) = (tokens rest).map (Value.itemTokens items ++ ·) := by
  induction items with
  | nil => simp [Value.itemChars, Value.itemTokens]
  | cons v items ih =>
      obtain ⟨hv, hitems⟩ := List.forall_mem_cons.1 h
      cases items with
      | nil =>
          simp only [Value.itemChars, Value.itemTokens]
          exact hv rest hrest
      | cons w items =>
          simp only [Value.itemChars, Value.itemTokens, List.append_assoc, List.cons_append]
          rw [hv _ (endsWord_cons (by decide) _), tokens_punctuation (by decide) rfl, ih hitems]
          simp [Function.comp_def]

theorem tokens_memberChars {members : List (String × Value)} (h : ∀ m ∈ members, Lexes m.2)
    {rest : List Char} (hrest : EndsWord rest) :
    tokens (Value.memberChars members ++ rest) =
      (tokens rest).map (Value.memberTokens members ++ ·) := by
  induction members with
  | nil => simp [Value.memberChars, Value.memberTokens]
  | cons m members ih =>
      obtain ⟨k, v⟩ := m
      obtain ⟨hv, hmembers⟩ := List.forall_mem_cons.1 h
      cases members with
      | nil =>
          simp only [Value.memberChars, Value.memberTokens, List.append_assoc, List.cons_append]
          rw [tokens_quote, tokens_punctuation (by decide) rfl, hv rest hrest]
          simp [Function.comp_def]
      | cons m members =>
          simp only [Value.memberChars, Value.memberTokens, List.append_assoc, List.cons_append]
          rw [tokens_quote, tokens_punctuation (by decide) rfl, hv _ (endsWord_cons (by decide) _),
            tokens_punctuation (by decide) rfl, ih hmembers]
          simp [Function.comp_def]

theorem lexes_number {n : Nat} (h : n ≤ Number.maxWord) : Lexes (.number (.natural n)) := by
  intro rest hrest
  have hword : ∀ c ∈ decimalDigits n, isWordChar c = true := by
    intro c hc
    simp [isWordChar, Char.isAlphanum, isDigit_of_mem_decimalDigits hc]
  have hchars : (Value.number (.natural n)).chars = decimalDigits n := by
    simp [Value.chars, Number.text, decimal]
  rw [hchars, tokens_word (decimalDigits_ne_nil n) hword (Number.ofWord_decimalDigits h) hrest]
  rfl

/-- A written value is read token by token. -/
theorem tokens_chars {room : Nat} {v : Value} (h : v.Fits room) : Lexes v := by
  induction h with
  | null => exact fun rest hrest => tokens_word (by decide) (List.all_eq_true.1 rfl) rfl hrest
  | bool b => cases b <;> exact fun rest hrest => tokens_word (by decide) (List.all_eq_true.1 rfl) rfl hrest
  | number hk => exact lexes_number hk
  | string s => exact fun rest _ => tokens_quote s rest
  | array _ ih =>
      intro rest hrest
      simp only [Value.chars, Value.tokens, List.append_assoc, List.cons_append]
      rw [tokens_punctuation (by decide) rfl, tokens_itemChars ih (endsWord_cons (by decide) _),
        List.nil_append, tokens_punctuation (by decide) rfl]
      simp [Function.comp_def]
  | object _ ih =>
      intro rest hrest
      simp only [Value.chars, Value.tokens, List.append_assoc, List.cons_append]
      rw [tokens_punctuation (by decide) rfl, tokens_memberChars ih (endsWord_cons (by decide) _),
        List.nil_append, tokens_punctuation (by decide) rfl]
      simp [Function.comp_def]

end SheetFill.Json

/-! ## Lines -/

namespace SheetFill.Number

open Text

theorem isDigit_of_mem_shortest {tie : Tie} {x : Binary64} {c : Char} (h : c ∈ (shortest tie x).digits) :
    c.isDigit = true := by
  have hzero : c ∈ ['0'] → c.isDigit = true := by
    intro hc
    rw [List.mem_singleton.1 hc]
    rfl
  unfold shortest at h
  split at h
  · exact hzero h
  · split at h
    · exact hzero h
    · exact isDigit_of_mem_decimalDigits h

theorem newline_not_mem_positional {layout : Layout} (hend : '\n' ∉ layout.wholeEnd) {d : Decimal}
    (hdigits : '\n' ∉ d.digits) : '\n' ∉ layout.positional d := by
  have htake (n : Nat) : '\n' ∉ d.digits.take n := fun hmem => hdigits (List.mem_of_mem_take hmem)
  have hdrop (n : Nat) : '\n' ∉ d.digits.drop n := fun hmem => hdigits (List.mem_of_mem_drop hmem)
  unfold Layout.positional
  split
  · simp [hdigits, List.mem_replicate]
  · dsimp only
    split
    · simp [htake, hend, List.mem_replicate]
    · simp [htake, hdrop, List.mem_replicate]

theorem newline_not_mem_scientific {d : Decimal} (hdigits : '\n' ∉ d.digits) :
    '\n' ∉ Layout.scientific d := by
  have htake (n : Nat) : '\n' ∉ d.digits.take n := fun hmem => hdigits (List.mem_of_mem_take hmem)
  have hrest : '\n' ∉ if d.digits.length ≤ 1 then [] else '.' :: d.digits.drop 1 := by
    split
    · exact List.not_mem_nil
    · simp only [List.mem_cons, not_or]
      exact ⟨by decide, fun hmem => hdigits (List.mem_of_mem_drop hmem)⟩
  have hsign : '\n' ≠ if d.exponent < 0 then '-' else '+' := by
    split
    · decide
    · decide
  have hexponent : '\n' ∉ decimalDigits d.exponent.natAbs := fun hmem =>
    absurd (isDigit_of_mem_decimalDigits hmem) (by decide)
  rw [Layout.scientific]
  simp only [List.mem_append, List.mem_cons, not_or]
  exact ⟨⟨htake 1, hrest⟩, by decide, hsign, hexponent⟩

/-- Digits are written around a point, or before an exponent, on one line. -/
theorem newline_not_mem_write {layout : Layout} (hend : '\n' ∉ layout.wholeEnd) (x : Binary64) :
    '\n' ∉ (layout.write x).toList := by
  have hdigits : '\n' ∉ (shortest layout.tie x).digits := fun hmem =>
    absurd (isDigit_of_mem_shortest hmem) (by decide)
  have htext : '\n' ∉ if layout.isPositional (shortest layout.tie x) then
      layout.positional (shortest layout.tie x) else Layout.scientific (shortest layout.tie x) := by
    split
    · exact newline_not_mem_positional hend hdigits
    · exact newline_not_mem_scientific hdigits
  rw [Layout.write, String.toList_ofList]
  split
  · exact fun hmem => htext ((List.mem_cons.1 hmem).resolve_left (by decide))
  · exact htext

end SheetFill.Number

namespace SheetFill.Json

open Text

theorem Number.newline_not_mem_text (n : Number) : '\n' ∉ n.text.toList := by
  have hdecimal (m : Nat) : '\n' ∉ (decimal m).toList := by
    rw [decimal, String.toList_ofList]
    exact fun hmem => absurd (isDigit_of_mem_decimalDigits hmem) (by decide)
  cases n with
  | natural m => exact hdecimal m
  | negative m => simp [text, hdecimal]
  | double x => exact SheetFill.Number.newline_not_mem_write (by decide) x

theorem newline_not_mem_quote (s : String) : '\n' ∉ quote s := by
  have hescaped : '\n' ∉ s.toList.flatMap escape := by
    intro hmem
    obtain ⟨c, -, hc⟩ := List.mem_flatMap.1 hmem
    exact newline_not_mem_escape c hc
  simp [quote, hescaped]

mutual

/-- A value is written on one line. -/
theorem newline_not_mem_chars (v : Value) : '\n' ∉ v.chars := by
  match v with
  | .null => decide
  | .bool true => decide
  | .bool false => decide
  | .number n => exact n.newline_not_mem_text
  | .string s => exact newline_not_mem_quote s
  | .array items => simp [Value.chars, newline_not_mem_itemChars items]
  | .object members => simp [Value.chars, newline_not_mem_memberChars members]

theorem newline_not_mem_itemChars (items : List Value) : '\n' ∉ Value.itemChars items := by
  match items with
  | [] => simp [Value.itemChars]
  | [v] => exact newline_not_mem_chars v
  | v :: w :: rest =>
      simp [Value.itemChars, newline_not_mem_chars v, newline_not_mem_itemChars (w :: rest)]

theorem newline_not_mem_memberChars (members : List (String × Value)) :
    '\n' ∉ Value.memberChars members := by
  match members with
  | [] => simp [Value.memberChars]
  | [(k, v)] => simp [Value.memberChars, newline_not_mem_quote, newline_not_mem_chars v]
  | (k, v) :: m :: rest =>
      simp [Value.memberChars, newline_not_mem_quote, newline_not_mem_chars v,
        newline_not_mem_memberChars (m :: rest)]

end

end SheetFill.Json
