import Mathlib.Data.List.TakeWhile
import Mathlib.Data.Nat.Digits.Lemmas
import LoxLang.Proofs.Token.Pieces
import LoxLang.Token.Listing

/-! # The lexical grammar

What can be a piece of a text is said here without cutting anything: a piece has one of a
few forms, and at every position of a text the longest piece counts. The cut at the front
of a text is shown to be that piece, and there is only one such piece.
-/

namespace LoxLang

/-! ## Forms of pieces -/

def decimalValue (digits : List Char) : Nat :=
  Nat.ofDigits 10 (digits.map fun digit => digit.toNat - '0'.toNat).reverse

/-- Texts of tokens, with the kind of the token and the value written. -/
inductive Lexeme : Kind → Literal → List Char → Prop
  | symbol (symbol : Symbol) : Lexeme symbol .nil symbol.spelling
  | keyword (word : Keyword) : Lexeme word .nil word.spelling.toList
  | identifier {lead : Char} {rest : List Char} (letter : isLetter lead)
      (inside : ∀ character ∈ rest, isWordCharacter character)
      (free : ∀ word : Keyword, word.spelling.toList ≠ lead :: rest) :
      Lexeme .identifier .nil (lead :: rest)
  | whole {digits : List Char} (nonempty : digits ≠ [])
      (areDigits : ∀ character ∈ digits, character.isDigit) :
      Lexeme .number (.number (Float.ofScientific (decimalValue digits) true 0)) digits
  | decimal {whole part : List Char} (nonempty : whole ≠ []) (nonempty' : part ≠ [])
      (areDigits : ∀ character ∈ whole ++ part, character.isDigit) :
      Lexeme .number
        (.number (Float.ofScientific (decimalValue (whole ++ part)) true part.length))
        (whole ++ '.' :: part)
  | string {body : List Char} (unquoted : '"' ∉ body) :
      Lexeme .string (.string (String.ofList body)) ('"' :: body ++ ['"'])

namespace Piece

/-- Pieces that may stand anywhere in a text. -/
inductive Regular : Piece → Prop
  | token {kind : Kind} {literal : Literal} {text : List Char}
      (lexeme : Lexeme kind literal text) : Regular ⟨.token kind, text⟩
  | comment {body : List Char} (oneLine : '\n' ∉ body) :
      Regular ⟨.comment, '/' :: '/' :: body⟩
  | blank {character : Char} (isBlank : isBlank character) :
      Regular ⟨.blank, [character]⟩
  | newline : Regular ⟨.newline, ['\n']⟩

/-- Pieces that may stand before the rest of a text. A string without its closing quote
goes on to the end, and a character is unexpected if no regular piece starts with it. -/
inductive Fits : Piece → List Char → Prop
  | regular {piece : Piece} {rest : List Char} (regular : piece.Regular) :
      Fits piece rest
  | unterminated {body : List Char} (unquoted : '"' ∉ body) :
      Fits ⟨.unterminated, '"' :: body⟩ []
  | unexpected {lead : Char} {rest : List Char}
      (startsNone : ∀ piece : Piece, piece.Regular → piece.text.head? ≠ some lead) :
      Fits ⟨.unexpected, [lead]⟩ rest

/-- The piece may be cut from the front of the text. -/
def Heads (piece : Piece) (text : List Char) : Prop :=
  ∃ rest, piece.text ++ rest = text ∧ piece.Fits rest

/-- No longer piece may be cut from the front of the text. -/
structure Longest (piece : Piece) (text : List Char) : Prop where
  heads : piece.Heads text
  atLeast : ∀ other : Piece, other.Heads text → other.text.length ≤ piece.text.length

end Piece

/-! ## Values of tokens -/

private theorem foldl_decimal (digits : List Char) (value : Nat) :
    digits.foldl (fun value digit => 10 * value + (digit.toNat - '0'.toNat)) value =
      decimalValue digits + 10 ^ digits.length * value := by
  induction digits generalizing value with
  | nil => simp [decimalValue]
  | cons digit rest induction =>
      rw [List.foldl_cons, induction]
      simp only [decimalValue, List.map_cons, List.reverse_cons, Nat.ofDigits_append,
        Nat.ofDigits_singleton, List.length_reverse, List.length_map, List.length_cons,
        pow_succ]
      ring

private theorem dropWhile_point {digits : List Char}
    (areDigits : ∀ character ∈ digits, character.isDigit) :
    digits.dropWhile (· ≠ '.') = [] := by
  rw [List.dropWhile_eq_nil_iff]
  intro character member
  have digit := areDigits character member
  rw [decide_eq_true_iff]
  rintro rfl
  exact absurd digit (by decide)

theorem Lexeme.literal_eq {kind : Kind} {literal : Literal} {text : List Char}
    (lexeme : Lexeme kind literal text) : literalOfText kind text = literal := by
  cases lexeme with
  | symbol => rfl
  | keyword => rfl
  | identifier => rfl
  | whole _ areDigits =>
      rw [literalOfText, numberOfText, List.filter_eq_self.mpr areDigits, foldl_decimal,
        dropWhile_point areDigits]
      rfl
  | @decimal whole part _ _ areDigits =>
      rcases List.forall_mem_append.mp areDigits with ⟨wholeDigits, partDigits⟩
      have digits : (whole ++ '.' :: part).filter Char.isDigit = whole ++ part := by
        rw [List.filter_append, List.filter_eq_self.mpr wholeDigits,
          List.filter_cons_of_neg (by decide), List.filter_eq_self.mpr partDigits]
      have decimals : (whole ++ '.' :: part).dropWhile (· ≠ '.') = '.' :: part := by
        rw [dropWhile_append_stop (by simp), dropWhile_point wholeDigits, List.nil_append]
      rw [literalOfText, numberOfText, digits, decimals, foldl_decimal]
      rfl
  | string => simp [literalOfText]

/-! ## How pieces begin -/

section Leads

variable {lead : Char}

theorem isDigit_of_isLetter (letter : isLetter lead) : lead.isDigit = false := by
  unfold isLetter Char.isAlpha Char.isUpper Char.isLower at letter
  simp only [Char.isDigit, Bool.or_eq_true, Bool.and_eq_true, decide_eq_true_eq,
    Bool.and_eq_false_iff, decide_eq_false_iff_not, ge_iff_le,
    UInt32.le_iff_toNat_le] at letter ⊢
  rcases letter with (upper | lower) | rfl
  · have : lead.val.toNat ≥ 65 := upper.1
    exact .inr (by change ¬ lead.val.toNat ≤ 57; omega)
  · have : lead.val.toNat ≥ 97 := lower.1
    exact .inr (by change ¬ lead.val.toNat ≤ 57; omega)
  · decide

theorem noLayout (inWord : isWordCharacter lead) :
    isBlank lead = false ∧ lead ≠ '\n' ∧ lead ≠ '"' := by
  refine ⟨?_, ?_, ?_⟩
  · rw [Bool.eq_false_iff]
    intro blank
    simp only [isBlank, Bool.or_eq_true, decide_eq_true_eq] at blank
    rcases blank with (rfl | rfl) | rfl <;> exact absurd inWord (by decide)
  · rintro rfl
    exact absurd inWord (by decide)
  · rintro rfl
    exact absurd inWord (by decide)

theorem startsNone_symbol (other : isLetter lead ∨ lead.isDigit ∨ lead = '"' ∨
    isBlank lead ∨ lead = '\n') (symbol : Symbol) : symbol.spelling.head? ≠ some lead := by
  intro starts
  cases symbol <;>
  · obtain rfl := Option.some.inj starts
    revert other
    decide

end Leads

namespace Symbol

theorem mem_all (symbol : Symbol) : symbol ∈ all := by
  cases symbol <;> decide

theorem exists_single (symbol : Symbol) :
    ∃ other : Symbol, other.spelling = symbol.spelling.take 1 := by
  have every : ∀ symbol ∈ all, ∃ other ∈ all, other.spelling = symbol.spelling.take 1 := by
    decide
  rcases every symbol symbol.mem_all with ⟨other, -, single⟩
  exact ⟨other, single⟩

theorem ofSpelling?_spelling (symbol : Symbol) :
    ofSpelling? symbol.spelling = some symbol := by
  cases symbol <;> rfl

theorem spelling_of_ofSpelling? {symbol : Symbol} {text : List Char}
    (found : ofSpelling? text = some symbol) : symbol.spelling = text := by
  have holds := List.find?_some found
  exact of_decide_eq_true holds

theorem ofSpelling?_eq_none {lead : Char}
    (startsNone : ∀ symbol : Symbol, symbol.spelling.head? ≠ some lead)
    (rest : List Char) : ofSpelling? (lead :: rest) = none := by
  rw [ofSpelling?, List.find?_eq_none]
  intro symbol _ same
  exact startsNone symbol (by rw [of_decide_eq_true same, List.head?_cons])

end Symbol

namespace Keyword

theorem spelling_letters (word : Keyword) :
    ∃ lead rest, word.spelling.toList = lead :: rest ∧ isLetter lead ∧
      ∀ character ∈ rest, isWordCharacter character := by
  cases word <;> exact ⟨_, _, rfl, by decide, List.all_eq_true.mp (by decide)⟩

theorem ofSpelling?_spelling (word : Keyword) :
    ofSpelling? word.spelling = some word := by
  cases word <;> rfl

end Keyword

/-! ## Cuts of the forms -/

namespace Piece

section Forms

variable {lead : Char} {body rest : List Char}

/-- Without a symbol in front, the first character tells what is cut. -/
theorem leading_of_startsNone
    (startsNone : ∀ symbol : Symbol, symbol.spelling.head? ≠ some lead)
    (rest : List Char) :
    leading lead rest =
      if isBlank lead then (⟨.blank, [lead]⟩, rest)
      else if lead = '\n' then (⟨.newline, [lead]⟩, rest)
      else if lead = '"' then string rest
      else if lead.isDigit then number lead rest
      else if isLetter lead then word lead rest
      else (⟨.unexpected, [lead]⟩, rest) := by
  have noSlash : lead ≠ '/' := by
    rintro rfl
    exact startsNone .slash rfl
  have noSymbol : symbol? lead rest = none := by
    rw [symbol?, Symbol.ofSpelling?_eq_none startsNone,
      Symbol.ofSpelling?_eq_none startsNone]
    rfl
  rw [leading, noSymbol]
  simp [noSlash]

theorem leading_word (letter : isLetter lead) (rest : List Char) :
    leading lead rest = word lead rest := by
  rcases noLayout (by rw [isWordCharacter, letter, Bool.true_or]) with
    ⟨noBlank, noNewline, noQuote⟩
  rw [leading_of_startsNone (startsNone_symbol (.inl letter))]
  simp [noBlank, noNewline, noQuote, isDigit_of_isLetter letter, letter]

theorem leading_number (digit : lead.isDigit) (rest : List Char) :
    leading lead rest = number lead rest := by
  rcases noLayout (by rw [isWordCharacter, digit, Bool.or_true]) with
    ⟨noBlank, noNewline, noQuote⟩
  rw [leading_of_startsNone (startsNone_symbol (.inr (.inl digit)))]
  simp [noBlank, noNewline, noQuote, digit]

theorem leading_string (rest : List Char) : leading '"' rest = string rest := by
  rw [leading_of_startsNone (startsNone_symbol (.inr (.inr (.inl rfl))))]
  rfl

theorem leading_blank (blank : isBlank lead) (rest : List Char) :
    leading lead rest = (⟨.blank, [lead]⟩, rest) := by
  rw [leading_of_startsNone (startsNone_symbol (.inr (.inr (.inr (.inl blank))))),
    if_pos blank]

theorem leading_comment (rest : List Char) :
    leading '/' ('/' :: rest) = comment ('/' :: rest) := rfl

theorem string_closed (unquoted : '"' ∉ body) (rest : List Char) :
    string (body ++ '"' :: rest) = (⟨.token .string, '"' :: body ++ ['"']⟩, rest) := by
  have inside : ∀ character ∈ body, decide (character ≠ '"') = true := by
    intro character member
    rw [decide_eq_true_iff]
    rintro rfl
    exact unquoted member
  have taken : (body ++ '"' :: rest).takeWhile (· ≠ '"') = body := by
    rw [List.takeWhile_append_of_pos inside, List.takeWhile_cons_of_neg (by simp),
      List.append_nil]
  have dropped : (body ++ '"' :: rest).dropWhile (· ≠ '"') = '"' :: rest := by
    rw [List.dropWhile_append_of_pos inside, List.dropWhile_cons_of_neg (by simp)]
  simp only [string, taken, dropped]

theorem string_open (unquoted : '"' ∉ body) :
    string body = (⟨.unterminated, '"' :: body⟩, []) := by
  have inside : ∀ character ∈ body, decide (character ≠ '"') = true := by
    intro character member
    rw [decide_eq_true_iff]
    rintro rfl
    exact unquoted member
  simp only [string, List.takeWhile_eq_self_iff.mpr inside,
    List.dropWhile_eq_nil_iff.mpr inside]

theorem fraction_point {digit : Char} (isDigit : digit.isDigit) (rest : List Char) :
    fraction ('.' :: digit :: rest) =
      ('.' :: digit :: rest.takeWhile Char.isDigit, rest.dropWhile Char.isDigit) := by
  rw [fraction, if_pos isDigit]

theorem word_alone (inside : ∀ character ∈ rest, isWordCharacter character) :
    word lead rest = (⟨.token (wordKind (lead :: rest)), lead :: rest⟩, []) := by
  simp only [word, List.takeWhile_eq_self_iff.mpr inside,
    List.dropWhile_eq_nil_iff.mpr inside]

theorem wordKind_keyword (keyword : Keyword) :
    wordKind keyword.spelling.toList = .keyword keyword := by
  rw [wordKind, String.ofList_toList, Keyword.ofSpelling?_spelling]

theorem wordKind_identifier {text : List Char}
    (free : ∀ keyword : Keyword, keyword.spelling.toList ≠ text) :
    wordKind text = .identifier := by
  have none : Keyword.ofSpelling? (String.ofList text) = none := by
    rw [Keyword.ofSpelling?, List.find?_eq_none]
    intro keyword _ same
    apply free keyword
    rw [of_decide_eq_true same, String.toList_ofList]
  rw [wordKind, none]

end Forms

/-! ## The cut is a piece of the grammar -/

theorem Regular.starts {piece : Piece} (regular : piece.Regular) {lead : Char}
    (starts : piece.text.head? = some lead) :
    (∃ symbol : Symbol, symbol.spelling = [lead]) ∨ isLetter lead ∨ lead.isDigit ∨
      lead = '"' ∨ isBlank lead ∨ lead = '\n' := by
  cases regular with
  | token lexeme =>
      cases lexeme with
      | symbol symbol =>
          rcases symbol.exists_single with ⟨other, single⟩
          refine .inl ⟨other, ?_⟩
          rw [single, List.take_one]
          exact congrArg Option.toList starts
      | keyword keyword =>
          rcases keyword.spelling_letters with ⟨first, rest, spelling, letter, -⟩
          simp only [spelling, List.head?_cons, Option.some.injEq] at starts
          exact .inr (.inl (starts ▸ letter))
      | identifier letter => exact .inr (.inl (Option.some.inj starts ▸ letter))
      | whole _ areDigits => exact .inr (.inr (.inl (areDigits _ (List.mem_of_mem_head? starts))))
      | decimal nonempty _ areDigits =>
          rw [List.head?_append_of_ne_nil _ nonempty] at starts
          exact .inr (.inr (.inl (areDigits _
            (List.mem_append_left _ (List.mem_of_mem_head? starts)))))
      | string => exact .inr (.inr (.inr (.inl (Option.some.inj starts).symm)))
  | comment => exact .inl ⟨.slash, congrArg (fun lead => [lead]) (Option.some.inj starts)⟩
  | blank blank => exact .inr (.inr (.inr (.inr (.inl (Option.some.inj starts ▸ blank)))))
  | newline => exact .inr (.inr (.inr (.inr (.inr (Option.some.inj starts).symm))))

theorem fits_comment (rest : List Char) :
    (comment ('/' :: rest)).1.Fits (comment ('/' :: rest)).2 := by
  refine .regular (@Regular.comment (rest.takeWhile (· ≠ '\n')) fun member => ?_)
  have different := List.mem_takeWhile_imp member
  simp at different

theorem fits_string (rest : List Char) : (string rest).1.Fits (string rest).2 := by
  by_cases quoted : '"' ∈ rest
  · rcases List.eq_append_cons_of_mem quoted with ⟨body, later, rfl, unquoted⟩
    rw [string_closed unquoted]
    exact .regular (.token (.string unquoted))
  · rw [string_open quoted]
    exact .unterminated quoted

theorem fits_number {lead : Char} (digit : lead.isDigit) (rest : List Char) :
    (number lead rest).1.Fits (number lead rest).2 := by
  have areDigits : ∀ character ∈ lead :: rest.takeWhile Char.isDigit,
      character.isDigit := by
    rw [List.forall_mem_cons]
    exact ⟨digit, fun _ => List.mem_takeWhile_imp⟩
  simp only [number, fraction]
  split
  case h_1 =>
      split
      case isTrue isDigit =>
          refine .regular (.token (.decimal (by simp) (by simp) ?_))
          refine List.forall_mem_append.mpr ⟨areDigits, List.forall_mem_cons.mpr ?_⟩
          exact ⟨isDigit, fun _ => List.mem_takeWhile_imp⟩
      case isFalse =>
          rw [List.append_nil]
          exact .regular (.token (.whole (by simp) areDigits))
  case h_2 =>
      rw [List.append_nil]
      exact .regular (.token (.whole (by simp) areDigits))

theorem fits_word {lead : Char} (letter : isLetter lead) (rest : List Char) :
    (word lead rest).1.Fits (word lead rest).2 := by
  have inside : ∀ character ∈ rest.takeWhile isWordCharacter,
      isWordCharacter character := fun _ => List.mem_takeWhile_imp
  simp only [word]
  by_cases isKeyword : ∃ keyword : Keyword,
      keyword.spelling.toList = lead :: rest.takeWhile isWordCharacter
  · rcases isKeyword with ⟨keyword, spelling⟩
    rw [← spelling, wordKind_keyword]
    exact .regular (.token (.keyword keyword))
  · have free := not_exists.mp isKeyword
    rw [wordKind_identifier free]
    exact .regular (.token (.identifier letter inside free))

theorem fits_symbol {lead : Char} {rest : List Char} {cut : Piece × List Char}
    (found : symbol? lead rest = some cut) : cut.1.Fits cut.2 := by
  have spelled : ∀ symbol text rest, Symbol.spelling symbol = text →
      Fits ⟨.token symbol, text⟩ rest := by
    rintro symbol _ rest rfl
    exact .regular (.token (.symbol symbol))
  rw [symbol?] at found
  split at found
  case h_1 symbol isSymbol =>
      rcases Option.some.inj found with rfl
      exact spelled symbol _ _ (Symbol.spelling_of_ofSpelling? isSymbol)
  case h_2 =>
      rcases Option.map_eq_some_iff.mp found with ⟨kind, isKind, rfl⟩
      rcases Option.bind_eq_some_iff.mp isKind with ⟨symbol, isSymbol, ⟨⟩⟩
      exact spelled symbol _ _ (Symbol.spelling_of_ofSpelling? isSymbol)

theorem fits_leading (lead : Char) (rest : List Char) :
    (leading lead rest).1.Fits (leading lead rest).2 := by
  rw [leading]
  split
  case isTrue starts =>
      obtain ⟨rfl, slash⟩ : lead = '/' ∧ rest.head? = some '/' := by simpa using starts
      rcases List.head?_eq_some_iff.mp slash with ⟨rest, rfl⟩
      exact fits_comment rest
  split
  case h_1 cut found => exact fits_symbol found
  case h_2 noSymbol =>
  split
  case isTrue blank => exact .regular (.blank blank)
  split
  case isTrue newline =>
      subst newline
      exact .regular .newline
  split
  case isTrue quote => exact fits_string rest
  split
  case isTrue digit => exact fits_number digit rest
  split
  case isTrue letter => exact fits_word letter rest
  case isFalse noBlank noNewline noQuote noDigit noLetter =>
      refine .unexpected fun piece regular starts => ?_
      rcases regular.starts starts with
        ⟨symbol, spelling⟩ | letter | digit | quote | blank | newline
      · have found := symbol.ofSpelling?_spelling
        rw [spelling] at found
        rw [symbol?, found] at noSymbol
        split at noSymbol <;> cases noSymbol
      · exact noLetter letter
      · exact noDigit digit
      · exact noQuote quote
      · exact noBlank blank
      · exact noNewline newline

/-! ## No longer piece could be cut -/

section Longest

variable {lead : Char} {rest : List Char}

theorem one_le_length_leading (lead : Char) (rest : List Char) :
    1 ≤ (leading lead rest).1.text.length :=
  List.length_pos_iff.mpr (cutFrom_leading lead rest).2

theorem length_le_takeWhile {holds : Char → Bool} {text : List Char}
    (belongs : ∀ character ∈ text, holds character) (later : List Char) :
    text.length ≤ ((text ++ later).takeWhile holds).length := by
  rw [List.takeWhile_append_of_pos belongs, List.length_append]
  exact Nat.le_add_right _ _

theorem length_le_word {text : List Char} (letter : isLetter lead)
    (inside : ∀ character ∈ text, isWordCharacter character) (later : List Char) :
    (lead :: text).length ≤ (leading lead (text ++ later)).1.text.length := by
  rw [leading_word letter]
  exact Nat.succ_le_succ (length_le_takeWhile inside later)

theorem length_le_number {text : List Char} (digit : lead.isDigit)
    (areDigits : ∀ character ∈ text, character.isDigit) (later : List Char) :
    (lead :: text).length ≤ (leading lead (text ++ later)).1.text.length := by
  rw [leading_number digit]
  simp only [number, List.length_append, List.length_cons]
  have taken := length_le_takeWhile areDigits later
  omega

theorem length_le_decimal {whole part : List Char} {first : Char} (digit : lead.isDigit)
    (areDigits : ∀ character ∈ whole, character.isDigit) (isDigit : first.isDigit)
    (areDigits' : ∀ character ∈ part, character.isDigit) (later : List Char) :
    (lead :: whole ++ '.' :: first :: part).length ≤
      (leading lead (whole ++ '.' :: first :: part ++ later)).1.text.length := by
  have stops : Char.isDigit '.' = false := by decide
  have dropped : (whole ++ '.' :: first :: (part ++ later)).dropWhile Char.isDigit =
      '.' :: first :: (part ++ later) := by
    rw [List.dropWhile_append_of_pos areDigits, List.dropWhile_cons_of_neg (by simp [stops])]
  have taken := length_le_takeWhile areDigits ('.' :: first :: (part ++ later))
  have taken' := length_le_takeWhile areDigits' later
  rw [leading_number digit]
  simp only [number, List.append_assoc, List.cons_append, dropped, fraction_point isDigit,
    List.length_append, List.length_cons]
  omega

theorem length_le_leading {piece : Piece} (heads : piece.Heads (lead :: rest)) :
    piece.text.length ≤ (leading lead rest).1.text.length := by
  rcases heads with ⟨later, whole, fits⟩
  cases fits with
  | unexpected => exact one_le_length_leading lead rest
  | unterminated unquoted =>
      rw [List.append_nil] at whole
      obtain ⟨rfl, rfl⟩ := List.cons.inj whole
      rw [leading_string, string_open unquoted]
  | regular regular =>
  cases regular with
  | blank | newline => exact one_le_length_leading lead rest
  | @comment body oneLine =>
      rw [List.cons_append, List.cons_append] at whole
      obtain ⟨rfl, rfl⟩ := List.cons.inj whole
      rw [leading_comment]
      refine Nat.succ_le_succ (@length_le_takeWhile _ ('/' :: body) ?_ later)
      intro character member
      rw [decide_eq_true_iff]
      rintro rfl
      exact oneLine (by simpa using member)
  | token lexeme =>
  cases lexeme with
  | symbol symbol =>
      -- Only the symbols of two characters could be cut too short.
      cases symbol
      case bangEqual | equalEqual | greaterEqual | lessEqual =>
        obtain ⟨rfl, rfl⟩ := List.cons.inj whole
        exact Nat.le_refl _
      all_goals exact one_le_length_leading lead rest
  | keyword keyword =>
      rcases keyword.spelling_letters with ⟨first, others, spelling, letter, inside⟩
      simp only [spelling] at whole ⊢
      obtain ⟨rfl, rfl⟩ := List.cons.inj whole
      exact length_le_word letter inside later
  | identifier letter inside =>
      obtain ⟨rfl, rfl⟩ := List.cons.inj whole
      exact length_le_word letter inside later
  | @whole digits nonempty areDigits =>
      rcases List.exists_cons_of_ne_nil nonempty with ⟨first, others, rfl⟩
      obtain ⟨rfl, rfl⟩ := List.cons.inj whole
      rw [List.forall_mem_cons] at areDigits
      exact length_le_number areDigits.1 areDigits.2 later
  | @decimal digits part nonempty nonempty' areDigits =>
      rcases List.exists_cons_of_ne_nil nonempty with ⟨first, others, rfl⟩
      rcases List.exists_cons_of_ne_nil nonempty' with ⟨first', others', rfl⟩
      obtain ⟨rfl, rfl⟩ := List.cons.inj whole
      rw [List.forall_mem_append, List.forall_mem_cons, List.forall_mem_cons] at areDigits
      exact length_le_decimal areDigits.1.1 areDigits.1.2 areDigits.2.1 areDigits.2.2 later
  | @string body unquoted =>
      rw [List.cons_append, List.cons_append, List.append_assoc,
        List.singleton_append] at whole
      obtain ⟨rfl, rfl⟩ := List.cons.inj whole
      rw [leading_string, string_closed unquoted]

theorem longest_leading (lead : Char) (rest : List Char) :
    (leading lead rest).1.Longest (lead :: rest) where
  heads := ⟨_, (cutFrom_leading lead rest).1, fits_leading lead rest⟩
  atLeast _ heads := length_le_leading heads

end Longest

/-! ## Only one piece can be cut -/

theorem Regular.shape_leading {piece : Piece} (regular : piece.Regular) {lead : Char}
    {rest : List Char} (text : piece.text = lead :: rest) :
    (leading lead rest).1.shape = piece.shape := by
  cases regular with
  | blank blank =>
      cases text
      rw [leading_blank blank]
  | newline =>
      cases text
      rfl
  | comment =>
      cases text
      rfl
  | token lexeme =>
  cases lexeme with
  | symbol symbol => cases symbol <;> (cases text; rfl)
  | keyword keyword =>
      rcases keyword.spelling_letters with ⟨first, others, spelling, letter, inside⟩
      obtain ⟨rfl, rfl⟩ := List.cons.inj (spelling.symm.trans text)
      rw [leading_word letter, word_alone inside, ← spelling, wordKind_keyword]
  | identifier letter inside free =>
      cases text
      rw [leading_word letter, word_alone inside, wordKind_identifier free]
  | @whole digits nonempty areDigits =>
      rcases List.exists_cons_of_ne_nil nonempty with ⟨first, others, rfl⟩
      obtain ⟨rfl, -⟩ := List.cons.inj text
      rw [leading_number (areDigits first (by simp))]
      rfl
  | @decimal whole part nonempty nonempty' areDigits =>
      rcases List.exists_cons_of_ne_nil nonempty with ⟨first, others, rfl⟩
      obtain ⟨rfl, -⟩ := List.cons.inj text
      rw [leading_number (areDigits first (by simp))]
      rfl
  | string unquoted =>
      obtain ⟨rfl, rfl⟩ := List.cons.inj text
      rw [leading_string, List.append_eq, string_closed unquoted]

theorem Regular.text_ne_nil {piece : Piece} (regular : piece.Regular) :
    piece.text ≠ [] := by
  cases regular with
  | blank | newline | comment => simp
  | token lexeme =>
      cases lexeme with
      | symbol symbol => cases symbol <;> simp [Symbol.spelling]
      | keyword keyword =>
          rcases keyword.spelling_letters with ⟨first, others, spelling, -⟩
          simp [spelling]
      | whole nonempty => exact nonempty
      | identifier | decimal | string => simp

theorem Fits.text_ne_nil {piece : Piece} {rest : List Char} (fits : piece.Fits rest) :
    piece.text ≠ [] := by
  cases fits with
  | regular regular => exact regular.text_ne_nil
  | unterminated | unexpected => simp

theorem regular_emptyString : Regular ⟨.token .string, ['"', '"']⟩ :=
  .token (@Lexeme.string [] (by simp))

theorem Fits.regular_of_text {piece other : Piece} {rest : List Char}
    (fits : other.Fits rest) (regular : piece.Regular) (same : piece.text = other.text) :
    other.Regular := by
  cases fits with
  | regular regular => exact regular
  | unterminated unquoted =>
      have shape := regular.shape_leading same
      rw [leading_string, string_open unquoted] at shape
      cases regular <;> cases shape
  | unexpected startsNone =>
      exact absurd (congrArg List.head? same) (startsNone piece regular)

private theorem shape_eq_of_regular {piece other : Piece} (regular : piece.Regular)
    (regular' : other.Regular) (same : piece.text = other.text) :
    piece.shape = other.shape := by
  rcases List.exists_cons_of_ne_nil regular.text_ne_nil with ⟨lead, later, text⟩
  rw [← regular.shape_leading text, regular'.shape_leading (same ▸ text)]

/-- A text is the text of one piece at most. -/
theorem Fits.unique {piece other : Piece} {rest rest' : List Char} (fits : piece.Fits rest)
    (fits' : other.Fits rest') (same : piece.text = other.text) : piece = other := by
  suffices shapes : piece.shape = other.shape by
    rcases piece with ⟨shape, text⟩
    rcases other with ⟨shape', text'⟩
    rw [show shape = shape' from shapes, show text = text' from same]
  rcases fits with regular | unquoted | startsNone
  · exact shape_eq_of_regular regular (fits'.regular_of_text regular same) same
  all_goals
    rcases fits' with regular' | unquoted' | startsNone'
  · exact shape_eq_of_regular
      ((Fits.unterminated unquoted).regular_of_text regular' same.symm) regular' same
  · rfl
  · exact (startsNone' _ regular_emptyString (congrArg List.head? same)).elim
  · exact absurd (congrArg List.head? same.symm) (startsNone _ regular')
  · exact (startsNone _ regular_emptyString (congrArg List.head? same.symm)).elim
  · rfl

theorem Longest.unique {piece other : Piece} {text : List Char}
    (longest : piece.Longest text) (longest' : other.Longest text) : piece = other := by
  rcases longest.heads with ⟨rest, whole, fits⟩
  rcases longest'.heads with ⟨rest', whole', fits'⟩
  have lengths : piece.text.length = other.text.length :=
    Nat.le_antisymm (longest'.atLeast _ longest.heads) (longest.atLeast _ longest'.heads)
  exact fits.unique fits' (List.append_inj (whole.trans whole'.symm) lengths).1

end Piece

end LoxLang
