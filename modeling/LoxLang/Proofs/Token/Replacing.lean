import LoxLang.Proofs.Token.Leading
import LoxLang.Proofs.Token.Splitting

/-! # Other identifiers in a text

If identifiers in a text are replaced by another one, the text is still cut in the same
places. A piece is only affected by what the text behind it begins with, and there an
identifier looks like any other.
-/

namespace LoxLang

namespace Piece

/-! ## Texts that look alike -/

/-- The texts begin alike, or both with a letter. Behind the same first character there is
a digit in both or in none, which matters if it is a point. -/
inductive Alike : List Char → List Char → Prop
  | nil : Alike [] []
  | letters {first first' : Char} {rest rest' : List Char} (letter : isLetter first)
      (letter' : isLetter first') : Alike (first :: rest) (first' :: rest')
  | same (first : Char) {rest rest' : List Char}
      (behind : rest'.head?.any Char.isDigit = rest.head?.any Char.isDigit) :
      Alike (first :: rest) (first :: rest')

variable {rest rest' : List Char}

theorem Alike.any (alike : Alike rest rest') {holds : Char → Bool} {value : Bool}
    (letters : ∀ character, isLetter character → holds character = value) :
    rest'.head?.any holds = rest.head?.any holds := by
  cases alike with
  | nil => rfl
  | letters letter letter' =>
      rw [List.head?_cons, List.head?_cons, Option.any_some, Option.any_some,
        letters _ letter, letters _ letter']
  | same first => rfl

theorem Alike.append (alike : Alike rest rest') (text : List Char) :
    Alike (text ++ rest) (text ++ rest') := by
  cases text with
  | nil => exact alike
  | cons first text =>
      apply Alike.same
      cases text with
      | nil => exact alike.any fun _ => isDigit_of_isLetter
      | cons second text => rfl

theorem Alike.noFraction (alike : Alike rest rest') (none : NoFraction rest) :
    NoFraction rest' := by
  intro later starts
  cases alike with
  | nil => cases starts
  | letters _ letter' =>
      obtain ⟨rfl, rfl⟩ := List.cons.inj starts
      exact absurd letter' (by decide)
  | same first behind =>
      obtain ⟨rfl, rfl⟩ := List.cons.inj starts
      rw [behind]
      exact none _ rfl

/-! ## Pieces in front of texts that look alike -/

theorem Leads.alike {piece : Piece} (leads : piece.Leads rest) (regular : piece.Regular)
    (alike : Alike rest rest') : piece.Leads rest' := by
  have digits : rest'.head?.any Char.isDigit = rest.head?.any Char.isDigit :=
    alike.any fun _ => isDigit_of_isLetter
  have words : rest'.head?.any isWordCharacter = rest.head?.any isWordCharacter :=
    alike.any fun _ letter => by rw [isWordCharacter, letter, Bool.true_or]
  have lines : rest'.head?.any (· ≠ '\n') = rest.head?.any (· ≠ '\n') :=
    alike.any fun character letter => by
      have inWord : isWordCharacter character := by rw [isWordCharacter, letter, Bool.true_or]
      exact decide_eq_true (noLayout inWord).2.1
  cases regular with
  | blank blank => exact ⟨_, rest', rfl, leading_blank blank rest'⟩
  | newline => exact ⟨'\n', rest', rfl, rfl⟩
  | comment oneLine =>
      rw [leads_comment oneLine] at leads ⊢
      exact lines.trans leads
  | token lexeme =>
      cases lexeme with
      | symbol symbol =>
          obtain ⟨lead, single⟩ | ⟨lead, double⟩ := spelling_cases symbol
          · rw [single, leads_symbol single] at leads ⊢
            exact (alike.any fun _ => joins_letter).trans leads
          · exact leads_double double rest'
      | keyword keyword =>
          obtain ⟨lead, text, spelling, letter, inside⟩ := keyword.spelling_letters
          rw [← wordKind_keyword keyword, spelling, leads_word letter inside] at leads ⊢
          exact words.trans leads
      | identifier letter inside free =>
          rw [← wordKind_identifier free, leads_word letter inside] at leads ⊢
          exact words.trans leads
      | whole nonempty areDigits =>
          obtain ⟨lead, text, whole⟩ := List.exists_cons_of_ne_nil nonempty
          subst whole
          obtain ⟨digit, areDigits⟩ := List.forall_mem_cons.mp areDigits
          rw [leads_whole digit areDigits] at leads ⊢
          exact ⟨digits.trans leads.1, alike.noFraction leads.2⟩
      | decimal nonempty nonempty' areDigits =>
          obtain ⟨lead, text, whole⟩ := List.exists_cons_of_ne_nil nonempty
          obtain ⟨lead', part, whole'⟩ := List.exists_cons_of_ne_nil nonempty'
          subst whole whole'
          obtain ⟨left, right⟩ := List.forall_mem_append.mp areDigits
          obtain ⟨digit, areDigits⟩ := List.forall_mem_cons.mp left
          obtain ⟨digit', areDigits'⟩ := List.forall_mem_cons.mp right
          rw [leads_decimal digit areDigits digit' areDigits'] at leads ⊢
          exact digits.trans leads
      | @string body unquoted =>
          refine ⟨'"', body ++ '"' :: rest', by simp, ?_⟩
          rw [leading_string, string_closed unquoted]

/-- One identifier is cut like another. -/
theorem Leads.replace {text name : List Char} (identifier : Lexeme .identifier .nil text)
    (identifier' : Lexeme .identifier .nil name)
    (leads : Leads ⟨.token .identifier, text⟩ rest) (alike : Alike rest rest') :
    Leads ⟨.token .identifier, name⟩ rest' := by
  have words : rest'.head?.any isWordCharacter = rest.head?.any isWordCharacter :=
    alike.any fun _ letter => by rw [isWordCharacter, letter, Bool.true_or]
  cases identifier with
  | identifier letter inside free =>
      cases identifier' with
      | identifier letter' inside' free' =>
          rw [← wordKind_identifier free, leads_word letter inside] at leads
          rw [← wordKind_identifier free', leads_word letter' inside']
          exact words.trans leads

/-! ## Replacing identifiers -/

def renamed (chosen : Bool) (name : List Char) (piece : Piece) : Piece :=
  if chosen && piece.shape = .token .identifier then { piece with text := name } else piece

def places (piece : Piece) : Nat :=
  match piece.shape with
  | .token _ => 1
  | _ => 0

def renameFrom (chosen : Nat → Bool) (name : List Char) : Nat → List Piece → List Piece
  | _, [] => []
  | place, piece :: rest =>
    piece.renamed (chosen place) name ::
      renameFrom chosen name (place + piece.places) rest

variable {chosen : Bool} {name : List Char} {piece : Piece}

theorem shape_renamed : (piece.renamed chosen name).shape = piece.shape := by
  rw [renamed]
  split <;> rfl

theorem isClean_of_mem_renameFrom {choice : Nat → Bool} {pieces : List Piece}
    (clean : ∀ piece ∈ pieces, piece.IsClean) (place : Nat) :
    ∀ piece ∈ renameFrom choice name place pieces, piece.IsClean := by
  induction pieces generalizing place with
  | nil => exact nofun
  | cons piece rest induction =>
      obtain ⟨first, later⟩ := List.forall_mem_cons.mp clean
      rw [renameFrom, List.forall_mem_cons]
      refine ⟨?_, induction later _⟩
      rwa [IsClean, shape_renamed]

theorem newlines_identifier (identifier : Lexeme .identifier .nil name) :
    name.count '\n' = 0 := by
  cases identifier with
  | identifier letter inside _ =>
      rw [List.count_eq_zero]
      intro member
      have inWord : isWordCharacter '\n' := by
        cases member with
        | head => rw [isWordCharacter, letter, Bool.true_or]
        | tail _ member => exact inside _ member
      exact absurd inWord (by decide)

variable (identifier : Lexeme .identifier .nil name)

include identifier

theorem Leads.renamed (leads : piece.Leads rest) (regular : piece.Regular)
    (alike : Alike rest rest') : (piece.renamed chosen name).Leads rest' := by
  rw [Piece.renamed]
  split
  case isTrue isChosen =>
      obtain ⟨shape, text⟩ := piece
      obtain rfl : shape = .token .identifier := by simp_all
      cases regular with
      | @token _ literal _ lexeme =>
          cases lexeme with
          | identifier letter inside free =>
              exact leads.replace (.identifier letter inside free) identifier alike
  case isFalse => exact leads.alike regular alike

theorem Alike.renamed (regular : piece.Regular) (alike : Alike rest rest') :
    Alike (piece.text ++ rest) ((piece.renamed chosen name).text ++ rest') := by
  rw [Piece.renamed]
  split
  case isTrue isChosen =>
      obtain ⟨shape, text⟩ := piece
      obtain rfl : shape = .token .identifier := by simp_all
      cases regular with
      | token lexeme =>
          cases lexeme with
          | identifier letter =>
              cases identifier with
              | identifier letter' => exact .letters letter letter'
  case isFalse => exact alike.append piece.text

theorem newlines_renamed (regular : piece.Regular) :
    (piece.renamed chosen name).newlines = piece.newlines := by
  rw [Piece.renamed]
  split
  case isTrue isChosen =>
      obtain ⟨shape, text⟩ := piece
      obtain rfl : shape = .token .identifier := by simp_all
      cases regular with
      | token lexeme =>
          cases lexeme with
          | identifier letter inside free =>
              exact (newlines_identifier identifier).trans
                (newlines_identifier (.identifier letter inside free)).symm
  case isFalse => rfl

end Piece

open Piece

section Texts

variable {chosen : Nat → Bool} {name : List Char}

theorem regular_of_mem_pieces {text : List Char} {piece : Piece} (member : piece ∈ pieces text)
    (clean : piece.IsClean) : piece.Regular := by
  obtain ⟨rest, fits⟩ := (splits_pieces text).fits piece member
  cases fits with
  | regular regular => exact regular
  | unterminated => exact absurd rfl clean.2
  | unexpected => exact absurd rfl clean.1

theorem pieces_renameFrom (identifier : Lexeme .identifier .nil name) (text : List Char)
    (regular : ∀ piece ∈ pieces text, piece.Regular) :
    ∀ place, pieces ((renameFrom chosen name place (pieces text)).flatMap (·.text)) =
        renameFrom chosen name place (pieces text) ∧
      Alike text ((renameFrom chosen name place (pieces text)).flatMap (·.text)) := by
  induction text using pieces_induction with
  | nil => exact fun _ => ⟨rfl, .nil⟩
  | cons lead rest induction =>
      intro place
      rw [pieces_cons] at regular ⊢
      obtain ⟨first, later⟩ := List.forall_mem_cons.mp regular
      rw [renameFrom, List.flatMap_cons]
      obtain ⟨cut, alike⟩ := induction later (place + (leading lead rest).1.places)
      constructor
      · rw [((leads_leading lead rest).renamed identifier first alike).pieces, cut]
      · have begins : Alike _ (((leading lead rest).1.renamed (chosen place) name).text ++ _) :=
          alike.renamed identifier first
        rwa [(cutFrom_leading lead rest).1] at begins

end Texts

def Occurrence.renamed (chosen : Nat → Bool) (name : String) (word : Occurrence) : Occurrence :=
  if chosen word.place && word.kind = .identifier then { word with lexeme := name } else word

/-- The source text with another name for the identifiers that are chosen among its
tokens. -/
def renamedSource (chosen : Nat → Bool) (name source : String) : String :=
  String.ofList ((renameFrom chosen name.toList 0 (pieces source.toList)).flatMap (·.text))

namespace Listing

variable {chosen : Nat → Bool} {name source : String}
  (identifier : Lexeme .identifier .nil name.toList)

include identifier

theorem newlinesOf_renameFrom {pieces : List Piece}
    (regular : ∀ piece ∈ pieces, piece.Regular) (place : Nat) :
    newlinesOf (renameFrom chosen name.toList place pieces) = newlinesOf pieces := by
  induction pieces generalizing place with
  | nil => rfl
  | cons piece rest induction =>
      obtain ⟨first, later⟩ := List.forall_mem_cons.mp regular
      rw [renameFrom, newlinesOf_cons, newlinesOf_cons, newlines_renamed identifier first,
        induction later]

omit identifier in
theorem token?_renamed (piece : Piece) (place line : Nat) :
    (piece.renamed (chosen place) name.toList).token? line =
      (piece.token? line).map fun token =>
        (Occurrence.renamed chosen name ⟨token, place⟩).toToken := by
  obtain ⟨shape, text⟩ := piece
  rw [Piece.renamed]
  cases shape with
  | token kind =>
      by_cases isChosen : chosen place = true ∧ kind = .identifier
      · obtain ⟨here, rfl⟩ := isChosen
        simp [Piece.token?, Occurrence.renamed, here, literalOfText]
      · simp [Piece.token?, Occurrence.renamed, isChosen]
  | comment | blank | newline | unexpected | unterminated => simp [Piece.token?]

theorem words_renameFrom {pieces : List Piece} (regular : ∀ piece ∈ pieces, piece.Regular)
    (place line : Nat) :
    Token.placedFrom place (words line (renameFrom chosen name.toList place pieces)) =
      (Token.placedFrom place (words line pieces)).map (Occurrence.renamed chosen name) := by
  induction pieces generalizing place line with
  | nil => rfl
  | cons piece rest induction =>
      obtain ⟨first, later⟩ := List.forall_mem_cons.mp regular
      have lines : (piece.renamed (chosen place) name.toList).newlines = piece.newlines :=
        newlines_renamed identifier first
      rw [renameFrom, words, words, lines, token?_renamed]
      have others := induction later (place + piece.places) (line + piece.newlines)
      rw [Piece.places] at others ⊢
      cases shape : piece.shape with
      | token kind =>
          rw [shape] at others
          simp only [Piece.token?, shape, Option.map_some, Option.toList_some,
            List.singleton_append, Token.placedFrom, List.map_cons, others]
          rw [Occurrence.renamed]
          split <;> rfl
      | comment | blank | newline | unexpected | unterminated =>
          rw [shape] at others
          simpa only [Piece.token?, shape, Option.map_none, Option.toList_none,
            List.nil_append, Nat.add_zero] using others

end Listing

end LoxLang
