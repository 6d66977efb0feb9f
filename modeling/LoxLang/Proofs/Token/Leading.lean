import LoxLang.Proofs.Token.Lexemes

/-! # What follows a piece

Whether a piece is cut from the front of a text depends on a character or two behind it. A
word ends where no letter or digit follows, a number where no digit and no fraction does, a
symbol where the next character makes it neither a longer symbol nor a comment. A blank
follows all of them.
-/

namespace LoxLang

/-! ## Where a run of characters ends -/

section Runs

variable {holds : Char → Bool} {text rest : List Char}

theorem takeWhile_eq_nil_iff : rest.takeWhile holds = [] ↔ rest.head?.any holds = false := by
  cases rest with
  | nil => simp
  | cons first rest =>
      rw [List.takeWhile_cons, List.head?_cons, Option.any_some]
      cases holds first <;> simp

theorem takeWhile_append_of_stop (inside : ∀ character ∈ text, holds character)
    (stop : rest.head?.any holds = false) : (text ++ rest).takeWhile holds = text := by
  rw [List.takeWhile_append_of_pos inside, takeWhile_eq_nil_iff.mpr stop, List.append_nil]

theorem dropWhile_of_stop (stop : rest.head?.any holds = false) :
    rest.dropWhile holds = rest := by
  have whole := List.takeWhile_append_dropWhile (p := holds) (l := rest)
  rwa [takeWhile_eq_nil_iff.mpr stop, List.nil_append] at whole

theorem dropWhile_append_of_stop (inside : ∀ character ∈ text, holds character)
    (stop : rest.head?.any holds = false) : (text ++ rest).dropWhile holds = rest := by
  rw [List.dropWhile_append_of_pos inside, dropWhile_of_stop stop]

theorem stop_dropWhile (holds : Char → Bool) (text : List Char) :
    (text.dropWhile holds).head?.any holds = false := by
  induction text with
  | nil => rfl
  | cons first rest induction =>
      rw [List.dropWhile_cons]
      split
      case isTrue => exact induction
      case isFalse stops =>
          rw [List.head?_cons, Option.any_some]
          exact Bool.eq_false_iff.mpr stops

end Runs

namespace Piece

variable {rest : List Char}

/-! ## What the text behind a piece tells about it -/

/-- The piece is cut from the front of the text that it makes up with the rest. -/
def Leads (piece : Piece) (rest : List Char) : Prop :=
  ∃ lead later, piece.text ++ rest = lead :: later ∧ leading lead later = (piece, rest)

theorem leads_leading (lead : Char) (later : List Char) :
    (leading lead later).1.Leads (leading lead later).2 :=
  ⟨lead, later, (cutFrom_leading lead later).1, rfl⟩

theorem Leads.pieces {piece : Piece} (leads : piece.Leads rest) :
    pieces (piece.text ++ rest) = piece :: LoxLang.pieces rest := by
  obtain ⟨lead, later, whole, cut⟩ := leads
  rw [whole, pieces_cons, cut]

section Words

variable {lead : Char} {text : List Char}

theorem leads_word (letter : isLetter lead)
    (inside : ∀ character ∈ text, isWordCharacter character) :
    Leads ⟨.token (wordKind (lead :: text)), lead :: text⟩ rest ↔
      rest.head?.any isWordCharacter = false := by
  constructor
  · intro leads
    obtain ⟨_, _, whole, cut⟩ := leads
    obtain ⟨rfl, rfl⟩ := List.cons.inj whole
    rw [leading_word letter] at cut
    have left : (text ++ rest).dropWhile isWordCharacter = rest := congrArg Prod.snd cut
    rw [← left]
    exact stop_dropWhile _ _
  · intro stop
    refine ⟨lead, text ++ rest, rfl, ?_⟩
    rw [leading_word letter, word, takeWhile_append_of_stop inside stop,
      dropWhile_append_of_stop inside stop]

end Words

section Numbers

variable {lead : Char} {text : List Char}

def NoFraction (rest : List Char) : Prop := ∀ later, rest = '.' :: later →
  later.head?.any Char.isDigit = false

theorem fraction_of_noFraction (none : NoFraction rest) : fraction rest = ([], rest) := by
  unfold fraction
  split
  case h_1 digit later =>
      have noDigit := none (digit :: later) rfl
      rw [List.head?_cons, Option.any_some] at noDigit
      rw [noDigit]
      rfl
  case h_2 => rfl

theorem noFraction_of_fraction (none : (fraction rest).1 = []) : NoFraction rest := by
  intro later starts
  subst starts
  cases later with
  | nil => rfl
  | cons digit later =>
      by_cases isDigit : digit.isDigit
      · rw [fraction_point isDigit] at none
        cases none
      · rw [List.head?_cons, Option.any_some]
        exact Bool.eq_false_iff.mpr isDigit

theorem leads_whole (digit : lead.isDigit)
    (areDigits : ∀ character ∈ text, character.isDigit) :
    Leads ⟨.token .number, lead :: text⟩ rest ↔
      rest.head?.any Char.isDigit = false ∧ NoFraction rest := by
  constructor
  · intro leads
    obtain ⟨_, _, whole, cut⟩ := leads
    obtain ⟨rfl, rfl⟩ := List.cons.inj whole
    rw [leading_number digit] at cut
    have left : (fraction ((text ++ rest).dropWhile Char.isDigit)).2 = rest :=
      congrArg Prod.snd cut
    rw [List.dropWhile_append_of_pos areDigits] at left
    -- Nothing was taken from the rest, neither more digits nor a fraction.
    have split := List.takeWhile_append_dropWhile (p := Char.isDigit) (l := rest)
    rw [← fraction_append_self (rest.dropWhile Char.isDigit), left,
      ← List.append_assoc] at split
    obtain ⟨noDigits, none⟩ := List.append_eq_nil_iff.mp (List.append_left_eq_self.mp split)
    have stop := takeWhile_eq_nil_iff.mp noDigits
    rw [dropWhile_of_stop stop] at none
    exact ⟨stop, noFraction_of_fraction none⟩
  · intro ends
    obtain ⟨stop, none⟩ := ends
    refine ⟨lead, text ++ rest, rfl, ?_⟩
    rw [leading_number digit, number, takeWhile_append_of_stop areDigits stop,
      dropWhile_append_of_stop areDigits stop, fraction_of_noFraction none]
    simp only [List.append_nil]

theorem leads_decimal {digit : Char} {part : List Char} (isDigit : lead.isDigit)
    (areDigits : ∀ character ∈ text, character.isDigit) (isDigit' : digit.isDigit)
    (areDigits' : ∀ character ∈ part, character.isDigit) :
    Leads ⟨.token .number, lead :: text ++ '.' :: digit :: part⟩ rest ↔
      rest.head?.any Char.isDigit = false := by
  have point : ('.' :: digit :: (part ++ rest)).head?.any Char.isDigit = false := rfl
  have cut : leading lead (text ++ '.' :: digit :: (part ++ rest)) =
      (⟨.token .number, lead :: text ++
        '.' :: digit :: (part ++ rest).takeWhile Char.isDigit⟩,
        (part ++ rest).dropWhile Char.isDigit) := by
    rw [leading_number isDigit, number, takeWhile_append_of_stop areDigits point,
      dropWhile_append_of_stop areDigits point, fraction_point isDigit']
  constructor
  · intro leads
    obtain ⟨_, _, whole, cut'⟩ := leads
    simp only [List.cons_append, List.append_assoc] at whole
    obtain ⟨rfl, rfl⟩ := List.cons.inj whole
    rw [cut] at cut'
    have left : (part ++ rest).dropWhile Char.isDigit = rest := congrArg Prod.snd cut'
    rw [← left]
    exact stop_dropWhile _ _
  · intro stop
    refine ⟨lead, text ++ '.' :: digit :: (part ++ rest), by simp, ?_⟩
    rw [cut, takeWhile_append_of_stop areDigits' stop,
      dropWhile_append_of_stop areDigits' stop]

end Numbers

section Symbols

variable {lead : Char} {body : List Char}

def joins (lead next : Char) : Bool :=
  lead = '/' && next = '/' || (Symbol.ofSpelling? [lead, next]).isSome

theorem joins_of_ne {next : Char} (noSlash : next ≠ '/') (noEquals : next ≠ '=') :
    joins lead next = false := by
  have noSymbol : Symbol.ofSpelling? [lead, next] = none := by
    rw [Symbol.ofSpelling?, List.find?_eq_none]
    intro symbol _ same
    have spelling := of_decide_eq_true same
    have second : next = '=' := by
      cases symbol <;> cases spelling <;> rfl
    exact noEquals second
  rw [joins, noSymbol, decide_eq_false noSlash, Bool.and_false]
  rfl

theorem joins_letter {next : Char} (letter : isLetter next) : joins lead next = false := by
  apply joins_of_ne
  all_goals
    intro same
    subst same
    exact absurd letter (by decide)

theorem spelling_cases (symbol : Symbol) : (∃ lead, symbol.spelling = [lead]) ∨
    ∃ lead, symbol.spelling = [lead, '='] := by
  cases symbol
  case bangEqual | equalEqual | greaterEqual | lessEqual => exact .inr ⟨_, rfl⟩
  all_goals exact .inl ⟨_, rfl⟩

theorem leads_double {symbol : Symbol} (double : symbol.spelling = [lead, '='])
    (rest : List Char) : Leads ⟨.token symbol, symbol.spelling⟩ rest := by
  have found := symbol.ofSpelling?_spelling
  rw [double] at found
  refine ⟨lead, '=' :: rest, by rw [double]; rfl, ?_⟩
  have noComment : ¬(lead = '/' && ('=' :: rest).head? = some '/') = true := by simp
  rw [leading, if_neg noComment, symbol?, List.take_succ_cons, List.take_zero, found, double]
  rfl

theorem leads_symbol {symbol : Symbol} (single : symbol.spelling = [lead]) :
    Leads ⟨.token symbol, [lead]⟩ rest ↔ rest.head?.any (joins lead) = false := by
  have found := symbol.ofSpelling?_spelling
  rw [single] at found
  have cut : leading lead rest = (⟨.token symbol, [lead]⟩, rest) ↔
      rest.head?.any (joins lead) = false := by
    cases rest with
    | nil => simp [leading, symbol?, found]
    | cons next rest =>
        rw [List.head?_cons, Option.any_some, joins, leading, symbol?, List.head?_cons,
          List.take_succ_cons, List.take_zero]
        by_cases slashes : lead = '/' ∧ next = '/'
        · simp [slashes, comment]
        · have noComment : ¬(lead = '/' && some next = some '/') = true := by simpa using slashes
          rw [if_neg noComment]
          cases Symbol.ofSpelling? [lead, next] with
          | none => simpa [found] using slashes
          | some symbol => simp
  constructor
  · intro leads
    obtain ⟨_, _, whole, cut'⟩ := leads
    obtain ⟨rfl, rfl⟩ := List.cons.inj whole
    exact cut.mp cut'
  · intro stop
    exact ⟨lead, rest, rfl, cut.mpr stop⟩

theorem leads_comment (oneLine : '\n' ∉ body) :
    Leads ⟨.comment, '/' :: '/' :: body⟩ rest ↔ rest.head?.any (· ≠ '\n') = false := by
  have inside : ∀ character ∈ '/' :: body, decide (character ≠ '\n') = true := by
    intro character member
    rw [decide_eq_true_iff]
    intro newline
    subst newline
    cases member with
    | tail _ member => exact oneLine member
  constructor
  · intro leads
    obtain ⟨_, _, whole, cut⟩ := leads
    obtain ⟨rfl, rfl⟩ := List.cons.inj whole
    have left : ('/' :: body ++ rest).dropWhile (· ≠ '\n') = rest :=
      congrArg Prod.snd cut
    rw [← left]
    exact stop_dropWhile _ _
  · intro stop
    refine ⟨'/', '/' :: body ++ rest, rfl, ?_⟩
    rw [List.cons_append, leading_comment, comment, ← List.cons_append,
      takeWhile_append_of_stop inside stop, dropWhile_append_of_stop inside stop]

end Symbols

/-! ## Tokens in front of blanks -/

theorem isBlank_iff {character : Char} :
    isBlank character ↔ character = ' ' ∨ character = '\r' ∨ character = '\t' := by
  rw [isBlank, Bool.or_eq_true, Bool.or_eq_true, decide_eq_true_iff, decide_eq_true_iff,
    decide_eq_true_iff, or_assoc]

theorem leads_of_lexeme {kind : Kind} {literal : Literal} {text : List Char}
    (lexeme : Lexeme kind literal text)
    (apart : ∀ character ∈ rest.head?, isBlank character) :
    Leads ⟨.token kind, text⟩ rest := by
  have stop : ∀ holds : Char → Bool,
      holds ' ' = false → holds '\r' = false → holds '\t' = false →
        rest.head?.any holds = false := by
    intro holds space return_ tab
    cases rest with
    | nil => rfl
    | cons first rest =>
        rw [List.head?_cons, Option.any_some]
        obtain rfl | rfl | rfl := isBlank_iff.mp (apart first rfl) <;> assumption
  have words : rest.head?.any isWordCharacter = false :=
    stop _ (by decide) (by decide) (by decide)
  have digits : rest.head?.any Char.isDigit = false :=
    stop _ (by decide) (by decide) (by decide)
  cases lexeme with
  | symbol symbol =>
      obtain ⟨lead, single⟩ | ⟨lead, double⟩ := spelling_cases symbol
      · rw [single, leads_symbol single]
        exact stop _ (joins_of_ne (by decide) (by decide)) (joins_of_ne (by decide) (by decide))
          (joins_of_ne (by decide) (by decide))
      · exact leads_double double rest
  | keyword keyword =>
      obtain ⟨lead, text, spelling, letter, inside⟩ := keyword.spelling_letters
      rw [← wordKind_keyword keyword, spelling, leads_word letter inside]
      exact words
  | identifier letter inside free =>
      rw [← wordKind_identifier free, leads_word letter inside]
      exact words
  | whole nonempty areDigits =>
      obtain ⟨lead, text, whole⟩ := List.exists_cons_of_ne_nil nonempty
      subst whole
      obtain ⟨digit, areDigits⟩ := List.forall_mem_cons.mp areDigits
      rw [leads_whole digit areDigits]
      refine ⟨digits, fun later starts => ?_⟩
      subst starts
      exact absurd (apart '.' rfl) (by decide)
  | decimal nonempty nonempty' areDigits =>
      obtain ⟨lead, text, whole⟩ := List.exists_cons_of_ne_nil nonempty
      obtain ⟨lead', part, whole'⟩ := List.exists_cons_of_ne_nil nonempty'
      subst whole whole'
      obtain ⟨left, right⟩ := List.forall_mem_append.mp areDigits
      obtain ⟨digit, areDigits⟩ := List.forall_mem_cons.mp left
      obtain ⟨digit', areDigits'⟩ := List.forall_mem_cons.mp right
      rw [leads_decimal digit areDigits digit' areDigits']
      exact digits
  | @string body unquoted =>
      refine ⟨'"', body ++ '"' :: rest, by simp, ?_⟩
      rw [leading_string, string_closed unquoted]

end Piece

end LoxLang
