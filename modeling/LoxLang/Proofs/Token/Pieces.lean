import LoxLang.Proofs.Grammar.Regular
import LoxLang.Token.Piece

/-! # Cutting a text into pieces

No piece reaches over a newline without being a string, so what follows a newline has no
influence on the pieces before it.
-/

namespace LoxLang

/-! ## Runs of characters -/

section Runs

variable {holds : Char → Bool} {character : Char}

theorem takeWhile_append_stop (stops : holds character = false) (text later : List Char) :
    (text ++ character :: later).takeWhile holds = text.takeWhile holds := by
  induction text with
  | nil => simp [stops]
  | cons first rest induction =>
      rw [List.cons_append, List.takeWhile_cons, List.takeWhile_cons, induction]

theorem dropWhile_append_stop (stops : holds character = false) (text later : List Char) :
    (text ++ character :: later).dropWhile holds =
      text.dropWhile holds ++ character :: later := by
  induction text with
  | nil => simp [stops]
  | cons first rest induction =>
      rw [List.cons_append, List.dropWhile_cons, List.dropWhile_cons, induction]
      split <;> rfl

theorem takeWhile_append_of_dropWhile {text ending : List Char}
    (found : text.dropWhile holds = character :: ending) (later : List Char) :
    (text ++ later).takeWhile holds = text.takeWhile holds := by
  induction text with
  | nil => simp at found
  | cons first rest induction =>
      rw [List.dropWhile_cons] at found
      rw [List.cons_append, List.takeWhile_cons, List.takeWhile_cons]
      split
      case isTrue belongs => rw [induction (by simpa [belongs] using found)]
      case isFalse => rfl

theorem dropWhile_append_of_dropWhile {text ending : List Char}
    (found : text.dropWhile holds = character :: ending) (later : List Char) :
    (text ++ later).dropWhile holds = character :: ending ++ later := by
  induction text with
  | nil => simp at found
  | cons first rest induction =>
      rw [List.dropWhile_cons] at found
      rw [List.cons_append, List.dropWhile_cons]
      split
      case isTrue belongs => exact induction (by simpa [belongs] using found)
      case isFalse other =>
          rw [if_neg other] at found
          rw [← List.cons_append, found]

end Runs

namespace Piece

/-! ## Nothing is left out -/

def CutFrom (text : List Char) (cut : Piece × List Char) : Prop :=
  cut.1.text ++ cut.2 = text ∧ cut.1.text ≠ []

theorem cutFrom_comment (rest : List Char) : CutFrom ('/' :: rest) (comment rest) :=
  ⟨by simp [comment, List.takeWhile_append_dropWhile], by simp [comment]⟩

theorem cutFrom_string (rest : List Char) : CutFrom ('"' :: rest) (string rest) := by
  have whole := List.takeWhile_append_dropWhile (p := (· ≠ '"')) (l := rest)
  rw [string]
  split
  case h_1 finished =>
      rw [finished, List.append_nil] at whole
      exact ⟨by simpa using whole, by simp⟩
  case h_2 quote later found =>
      rw [found] at whole
      exact ⟨by simpa using whole, by simp⟩

theorem fraction_append_self (text : List Char) :
    (fraction text).1 ++ (fraction text).2 = text := by
  unfold fraction
  split
  · split
    · simp [List.takeWhile_append_dropWhile]
    · rfl
  · rfl

theorem cutFrom_number (lead : Char) (rest : List Char) :
    CutFrom (lead :: rest) (number lead rest) := by
  refine ⟨?_, by simp [number]⟩
  simp only [number, List.append_assoc, fraction_append_self, List.cons_append,
    List.takeWhile_append_dropWhile]

theorem cutFrom_word (lead : Char) (rest : List Char) :
    CutFrom (lead :: rest) (word lead rest) :=
  ⟨by simp [word, List.takeWhile_append_dropWhile], by simp [word]⟩

theorem cutFrom_symbol {lead : Char} {rest : List Char} {cut : Piece × List Char}
    (found : symbol? lead rest = some cut) : CutFrom (lead :: rest) cut := by
  rw [symbol?] at found
  split at found
  case h_1 =>
      rcases Option.some.inj found with rfl
      exact ⟨by rw [List.cons_append, List.take_append_drop], by simp⟩
  case h_2 =>
      rcases Option.map_eq_some_iff.mp found with ⟨symbol, -, rfl⟩
      exact ⟨by simp, by simp⟩

theorem cutFrom_single (shape : PieceShape) (lead : Char) (rest : List Char) :
    CutFrom (lead :: rest) (⟨shape, [lead]⟩, rest) := ⟨by simp, by simp⟩

theorem cutFrom_leading (lead : Char) (rest : List Char) :
    CutFrom (lead :: rest) (leading lead rest) := by
  rw [leading]
  split
  case isTrue starts =>
      obtain ⟨rfl, -⟩ : lead = '/' ∧ rest.head? = some '/' := by simpa using starts
      exact cutFrom_comment rest
  split
  case h_1 cut found => exact cutFrom_symbol found
  split
  · exact cutFrom_single _ _ _
  split
  · exact cutFrom_single _ _ _
  split
  case isTrue quote =>
      subst quote
      exact cutFrom_string rest
  split
  · exact cutFrom_number lead rest
  split
  · exact cutFrom_word lead rest
  · exact cutFrom_single _ _ _

theorem length_leading (lead : Char) (rest : List Char) :
    (leading lead rest).2.length ≤ rest.length := by
  rcases cutFrom_leading lead rest with ⟨whole, nonempty⟩
  have lengths := congrArg List.length whole
  have positive := List.length_pos_iff.mpr nonempty
  simp only [List.length_append, List.length_cons] at lengths
  omega

/-! ## What follows a newline -/

def before (later : List Char) (cut : Piece × List Char) : Piece × List Char :=
  (cut.1, cut.2 ++ '\n' :: later)

variable (later : List Char)

theorem comment_before (rest : List Char) :
    comment (rest ++ '\n' :: later) = before later (comment rest) := by
  simp [comment, before, takeWhile_append_stop, dropWhile_append_stop]

theorem string_before {rest : List Char}
    (closed : (string rest).1.shape ≠ .unterminated) :
    string (rest ++ '\n' :: later) = before later (string rest) := by
  unfold string at closed ⊢
  split at closed
  case h_1 => exact absurd rfl closed
  case h_2 quote ending found =>
      simp only [dropWhile_append_of_dropWhile found, takeWhile_append_of_dropWhile found,
        List.cons_append, before]

theorem fraction_before (text : List Char) :
    fraction (text ++ '\n' :: later) =
      ((fraction text).1, (fraction text).2 ++ '\n' :: later) := by
  match text with
  | [] => simp [fraction]
  | [only] =>
      by_cases point : only = '.'
      · subst point
        simp [fraction]
      · simp [fraction, point]
  | first :: digit :: rest =>
      by_cases point : first = '.'
      · subst point
        by_cases isDigit : digit.isDigit
        · simp [fraction, isDigit, takeWhile_append_stop, dropWhile_append_stop]
        · simp [fraction, isDigit]
      · simp [fraction, point]

theorem number_before (lead : Char) (rest : List Char) :
    number lead (rest ++ '\n' :: later) = before later (number lead rest) := by
  have stops : Char.isDigit '\n' = false := by decide
  simp [number, before, takeWhile_append_stop stops, dropWhile_append_stop stops,
    fraction_before]

theorem word_before (lead : Char) (rest : List Char) :
    word lead (rest ++ '\n' :: later) = before later (word lead rest) := by
  have stops : isWordCharacter '\n' = false := by decide
  simp [word, before, takeWhile_append_stop stops, dropWhile_append_stop stops]

theorem ofSpelling?_newline (lead : Char) : Symbol.ofSpelling? [lead, '\n'] = none := by
  rw [Symbol.ofSpelling?, List.find?_eq_none]
  intro symbol _
  cases symbol <;> simp [Symbol.spelling]

theorem symbol?_before (lead : Char) (rest : List Char) :
    symbol? lead (rest ++ '\n' :: later) = (symbol? lead rest).map (before later) := by
  cases rest with
  | nil =>
      simp only [symbol?, List.nil_append, List.take_succ_cons, List.take_zero,
        List.take_nil, ofSpelling?_newline]
      cases Symbol.ofSpelling? [lead] <;> rfl
  | cons next rest =>
      simp only [symbol?, List.cons_append, List.take_succ_cons, List.take_zero,
        List.drop_succ_cons, List.drop_zero]
      cases Symbol.ofSpelling? [lead, next] with
      | some symbol => rfl
      | none => cases Symbol.ofSpelling? [lead] <;> rfl

theorem leading_before {lead : Char} {rest : List Char}
    (closed : (leading lead rest).1.shape ≠ .unterminated) :
    leading lead (rest ++ '\n' :: later) = before later (leading lead rest) := by
  have sameHead : decide ((rest ++ '\n' :: later).head? = some '/') =
      decide (rest.head? = some '/') := by
    cases rest <;> simp
  unfold leading at closed ⊢
  rw [sameHead, symbol?_before]
  split
  · exact comment_before later rest
  case isFalse noComment =>
  rw [if_neg noComment] at closed
  cases found : symbol? lead rest with
  | some cut => rfl
  | none =>
      simp only [found, Option.map_none] at closed ⊢
      split
      · rfl
      split
      · rfl
      case isFalse noBlank noNewline =>
      rw [if_neg noBlank, if_neg noNewline] at closed
      split
      case isTrue quote =>
          rw [if_pos quote] at closed
          exact string_before later closed
      split
      · exact number_before later lead rest
      split
      · exact word_before later lead rest
      · rfl

/-! ## Spelling -/

/-- What the grammar may rely on in a token: it does not end the input, keywords are
spelled as keywords are, and identifiers are not. -/
def IsSpelled (piece : Piece) : Prop :=
  ∀ kind, piece.shape = .token kind → kind ≠ .endOfInput ∧
    ∀ literal line, Token.Spelled ⟨kind, String.ofList piece.text, literal, line⟩

theorem isSpelled_symbol {lead : Char} {rest : List Char} {cut : Piece × List Char}
    (found : symbol? lead rest = some cut) : cut.1.IsSpelled := by
  have spelled : ∀ symbol text, IsSpelled ⟨.token (.symbol symbol), text⟩ := by
    rintro symbol text _ ⟨⟩
    exact ⟨nofun, fun _ _ => ⟨nofun, nofun⟩⟩
  rw [symbol?] at found
  split at found
  case h_1 =>
      rcases Option.some.inj found with rfl
      exact spelled _ _
  case h_2 =>
      rcases Option.map_eq_some_iff.mp found with ⟨kind, isKind, rfl⟩
      rcases Option.bind_eq_some_iff.mp isKind with ⟨symbol, -, ⟨⟩⟩
      exact spelled symbol _

theorem isSpelled_string (rest : List Char) : (string rest).1.IsSpelled := by
  intro kind shape
  rw [string] at shape
  split at shape
  · cases shape
  · cases shape
    exact ⟨nofun, fun _ _ => ⟨nofun, nofun⟩⟩

theorem isSpelled_number (lead : Char) (rest : List Char) :
    (number lead rest).1.IsSpelled := by
  intro kind shape
  cases shape
  exact ⟨nofun, fun _ _ => ⟨nofun, nofun⟩⟩

theorem isSpelled_word (lead : Char) (rest : List Char) :
    (word lead rest).1.IsSpelled := by
  intro kind shape
  simp only [word, wordKind, PieceShape.token.injEq] at shape
  split at shape
  case h_1 keyword found =>
      subst shape
      have spelling := List.find?_some found
      refine ⟨nofun, fun _ _ => ⟨?_, nofun⟩⟩
      rintro _ ⟨⟩
      exact (of_decide_eq_true spelling).symm
  case h_2 none =>
      subst shape
      refine ⟨nofun, fun _ _ => ⟨nofun, fun _ keyword same => ?_⟩⟩
      have known : keyword ∈ Keyword.all := by cases keyword <;> simp [Keyword.all]
      have different := List.find?_eq_none.mp none keyword known
      simp only [decide_eq_true_eq] at different
      exact different same.symm

theorem isSpelled_leading (lead : Char) (rest : List Char) :
    (leading lead rest).1.IsSpelled := by
  rw [leading]
  split
  · exact fun _ shape => nomatch shape
  split
  case h_1 cut found => exact isSpelled_symbol found
  split
  · exact fun _ shape => nomatch shape
  split
  · exact fun _ shape => nomatch shape
  split
  · exact isSpelled_string rest
  split
  · exact isSpelled_number lead rest
  split
  · exact isSpelled_word lead rest
  · exact fun _ shape => nomatch shape

end Piece

/-! ## All pieces of a text -/

section Pieces

open Piece

theorem piecesWithin_enough {limit limit' : Nat} {text : List Char}
    (enough : text.length ≤ limit)
    (enough' : text.length ≤ limit') :
    piecesWithin limit text = piecesWithin limit' text := by
  induction limit generalizing limit' text with
  | zero =>
      rcases List.eq_nil_of_length_eq_zero (Nat.le_zero.mp enough) with rfl
      simp [piecesWithin]
  | succ limit induction =>
      match text, limit' with
      | [], _ => simp [piecesWithin]
      | lead :: rest, 0 => simp at enough'
      | lead :: rest, limit' + 1 =>
          have shorter := length_leading lead rest
          simp only [List.length_cons] at enough enough'
          simp only [piecesWithin]
          rw [induction (by omega) (show _ ≤ limit' by omega)]

@[simp] theorem pieces_nil : pieces [] = [] := rfl

theorem pieces_cons (lead : Char) (rest : List Char) :
    pieces (lead :: rest) = (leading lead rest).1 :: pieces (leading lead rest).2 := by
  have shorter := length_leading lead rest
  simp only [pieces, List.length_cons, piecesWithin]
  rw [piecesWithin_enough shorter (Nat.le_refl _)]

/-- What holds of a text if it holds of the text behind its first piece holds of every
text. -/
theorem pieces_induction {motive : List Char → Prop} (nil : motive [])
    (cons : ∀ lead rest, motive (leading lead rest).2 → motive (lead :: rest))
    (text : List Char) : motive text :=
  match text with
  | [] => nil
  | lead :: rest => cons lead rest (pieces_induction nil cons (leading lead rest).2)
termination_by text.length
decreasing_by
  have shorter := length_leading lead rest
  simp only [List.length_cons]
  omega

theorem text_pieces (text : List Char) : (pieces text).flatMap (·.text) = text := by
  induction text using pieces_induction with
  | nil => rfl
  | cons lead rest induction =>
      rw [pieces_cons, List.flatMap_cons, induction, (cutFrom_leading lead rest).1]

theorem isSpelled_of_mem_pieces {text : List Char} :
    ∀ piece ∈ pieces text, piece.IsSpelled := by
  induction text using pieces_induction with
  | nil => simp
  | cons lead rest induction =>
      rw [pieces_cons, List.forall_mem_cons]
      exact ⟨isSpelled_leading lead rest, induction⟩

theorem pieces_append {text : List Char}
    (closed : ∀ piece ∈ pieces text, piece.shape ≠ .unterminated) (later : List Char) :
    pieces (text ++ '\n' :: later) =
      pieces text ++ ⟨.newline, ['\n']⟩ :: pieces later := by
  induction text using pieces_induction with
  | nil => rw [List.nil_append, pieces_cons]; rfl
  | cons lead rest induction =>
      rw [pieces_cons, List.forall_mem_cons] at closed
      rw [List.cons_append, pieces_cons, pieces_cons, leading_before later closed.1,
        before]
      simp only [List.cons_append, induction closed.2]

end Pieces

end LoxLang
