import LoxLang.Proofs.Token.Leading
import LoxLang.Proofs.Token.Splitting

/-! # Tokens with spaces between them

A token is written as its lexeme. Of lexemes with a space between each and the next none
goes on in the next one, so that their text is cut into the same tokens again, whatever
texts they come from and whatever was faulty there.
-/

namespace LoxLang

/-- The lexemes of the tokens with a single space between each and the next. -/
def spacedText (tokens : List Token) : String := " ".intercalate (tokens.map Token.lexeme)

theorem toList_spacedText (tokens : List Token) : (spacedText tokens).toList =
    [' '].intercalate (tokens.map fun token => token.lexeme.toList) := by
  rw [spacedText, String.toList_intercalate, List.map_map]
  rfl

namespace Token

/-- The token is written like tokens of its kind and value. The end of input is not written
at all. -/
inductive IsWritten : Token → Prop
  | endOfInput (line : Nat) : IsWritten (endOfInput line)
  | word {token : Token} (lexeme : Lexeme token.kind token.literal token.lexeme.toList) :
      IsWritten token

def written (token : Token) : List Piece :=
  if token.kind = .endOfInput then [] else [⟨.token token.kind, token.lexeme.toList⟩]

end Token

theorem Lexeme.kind_ne {kind : Kind} {literal : Literal} {text : List Char}
    (lexeme : Lexeme kind literal text) : kind ≠ .endOfInput := by
  cases lexeme <;> exact nofun

namespace Listing

theorem lexeme_of_mem_words {line : Nat} {pieces : List Piece}
    (fits : ∀ piece ∈ pieces, ∃ rest, piece.Fits rest) :
    ∀ word ∈ words line pieces, Lexeme word.kind word.literal word.lexeme.toList := by
  induction pieces generalizing line with
  | nil => exact nofun
  | cons piece rest induction =>
      rw [List.forall_mem_cons] at fits
      rw [words, List.forall_mem_append]
      refine ⟨fun word member => ?_, induction fits.2⟩
      rcases fits.1 with ⟨later, here⟩
      rw [Piece.token?] at member
      split at member
      case h_1 kind shape =>
          rcases List.mem_singleton.mp member with rfl
          simpa using here.lexeme shape
      case h_2 => cases member

theorem isWritten_of_mem_tokens {source : String} {token : Token}
    (member : token ∈ (ofSource source).tokens) : token.IsWritten := by
  rw [tokens_ofSource] at member
  rcases List.mem_append.mp member with word | last
  · exact .word (lexeme_of_mem_words (splits_pieces _).fits token word)
  · rcases List.mem_singleton.mp last with rfl
    exact .endOfInput _

end Listing

theorem Piece.isClean_blank {text : List Char} : IsClean ⟨.blank, text⟩ := ⟨nofun, nofun⟩

namespace Token

variable {token : Token}

theorem IsWritten.pieces (isWritten : token.IsWritten) {rest : List Char}
    (apart : ∀ character ∈ rest.head?, isBlank character) :
    pieces (token.lexeme.toList ++ rest) = token.written ++ LoxLang.pieces rest := by
  cases isWritten with
  | endOfInput => rfl
  | word lexeme =>
      rw [written, if_neg lexeme.kind_ne]
      exact (Piece.leads_of_lexeme lexeme apart).pieces

theorem isClean_of_mem_written : ∀ piece ∈ token.written, piece.IsClean := by
  rw [written]
  split
  · exact nofun
  · rw [List.forall_mem_singleton]
    exact ⟨nofun, nofun⟩

theorem IsWritten.words (isWritten : token.IsWritten) (line : Nat) :
    (Listing.words line token.written).map unlined =
      ([token].filter (·.kind ≠ .endOfInput)).map unlined := by
  cases isWritten with
  | endOfInput => rfl
  | word lexeme =>
      rw [written, if_neg lexeme.kind_ne,
        List.filter_cons_of_pos (by simpa using lexeme.kind_ne)]
      simp [Listing.words, Piece.token?, unlined, lexeme.literal_eq]

theorem words_spacedText {tokens : List Token} (written : ∀ token ∈ tokens, token.IsWritten) :
    (∀ piece ∈ LoxLang.pieces (spacedText tokens).toList, piece.IsClean) ∧
    ∀ line, (Listing.words line (LoxLang.pieces (spacedText tokens).toList)).map unlined =
      (tokens.filter (·.kind ≠ .endOfInput)).map unlined := by
  simp only [toList_spacedText]
  induction tokens with
  | nil => exact ⟨List.forall_mem_nil _, fun _ => rfl⟩
  | cons token rest induction =>
      rcases List.forall_mem_cons.mp written with ⟨first, others⟩
      cases rest with
      | nil =>
          have cut : LoxLang.pieces (token.lexeme.toList ++ []) = _ := first.pieces (by simp)
          rw [List.append_nil, pieces_nil, List.append_nil] at cut
          rw [List.map_singleton, List.intercalate_singleton, cut]
          exact ⟨isClean_of_mem_written, first.words⟩
      | cons next rest =>
          rcases induction others with ⟨clean, words⟩
          rw [List.map_cons] at clean words ⊢
          rw [List.map_cons, List.intercalate_cons_cons, List.append_assoc,
            first.pieces (by simp [isBlank]), List.singleton_append, pieces_cons,
            Piece.leading_blank (by decide)]
          constructor
          · rw [List.forall_mem_append, List.forall_mem_cons]
            exact ⟨isClean_of_mem_written, Piece.isClean_blank, clean⟩
          · intro line
            have split : token :: next :: rest = [token] ++ next :: rest := rfl
            rw [split, List.filter_append, List.map_append, Listing.words_append,
              List.map_append, first.words]
            exact congrArg _ (words _)

end Token

namespace Listing

theorem listing_spacedText {tokens : List Token}
    (written : ∀ token ∈ tokens, token.IsWritten) :
    (ofSource (spacedText tokens)).faults = [] ∧
      (ofSource (spacedText tokens)).tokens.map Token.unlined =
        (tokens.filter (·.kind ≠ .endOfInput)).map Token.unlined ++
          [Token.endOfInput 0] := by
  rcases Token.words_spacedText written with ⟨clean, words⟩
  refine ⟨(faults_ofPieces _ _).mpr clean, ?_⟩
  rw [tokens_ofSource, List.map_append, wordsOfSource, words]
  rfl

/-- The tokens of texts are listed again for their lexemes with spaces between them. Ends of
input among them leave nothing behind but the end of the whole. -/
theorem lists_spaced_tokens_again :
    (∀ tokens : List Token, (∀ token ∈ tokens, ∃ source, token ∈ (ofSource source).tokens) →
      (ofSource (spacedText tokens)).faults = [] ∧
      (ofSource (spacedText tokens)).tokens.map Token.unlined =
        (tokens.filter (·.kind ≠ .endOfInput)).map Token.unlined ++
          [Token.endOfInput 0]) ∧
    ∀ source : String,
      (ofSource (spacedText (ofSource source).tokens)).faults = [] ∧
      (ofSource (spacedText (ofSource source).tokens)).tokens.map Token.unlined =
        (ofSource source).tokens.map Token.unlined := by
  constructor
  · intro tokens listed
    apply listing_spacedText
    intro token member
    rcases listed token member with ⟨source, inSource⟩
    exact isWritten_of_mem_tokens inSource
  · intro source
    have written : ∀ token ∈ (ofSource source).tokens, token.IsWritten :=
      fun _ => isWritten_of_mem_tokens
    have again := listing_spacedText written
    have words : ((ofSource source).tokens).filter (·.kind ≠ .endOfInput) =
        wordsOfSource source := by
      rw [tokens_ofSource, List.filter_append, List.filter_eq_self.mpr]
      · simp [Token.endOfInput]
      · intro word member
        exact decide_eq_true (spelled_of_mem_wordsOfSource source word member).1
    refine ⟨again.1, again.2.trans ?_⟩
    rw [words, tokens_ofSource, List.map_append]
    rfl

def adjoiningTokens : List Token :=
  [⟨Keyword.orWord, "or", .nil, 1⟩, ⟨.identifier, "chid", .nil, 1⟩,
    ⟨Symbol.bang, "!", .nil, 1⟩, ⟨Symbol.equal, "=", .nil, 1⟩,
    ⟨Symbol.slash, "/", .nil, 1⟩, ⟨Symbol.slash, "/", .nil, 1⟩,
    ⟨.string, "\"//\"", .string "//", 1⟩]

/-- They are among the tokens of a text with faulty pieces. -/
theorem lists_spaced_tokens_again_adjoining :
    (∀ token ∈ adjoiningTokens, ∃ source, token ∈ (ofSource source).tokens) ∧
    (ofSource "or chid ! = / / \"//\"").faults = [] ∧
    (ofSource "or chid ! = / / \"//\"").tokens.map Token.unlined =
      [⟨Keyword.orWord, "or", .nil, 0⟩, ⟨.identifier, "chid", .nil, 0⟩,
        ⟨Symbol.bang, "!", .nil, 0⟩, ⟨Symbol.equal, "=", .nil, 0⟩,
        ⟨Symbol.slash, "/", .nil, 0⟩, ⟨Symbol.slash, "/", .nil, 0⟩,
        ⟨.string, "\"//\"", .string "//", 0⟩, Token.endOfInput 0] := by
  have tokens : (ofSource "chid=!/ $\"//\"or \"").tokens =
      [⟨.identifier, "chid", .nil, 1⟩, ⟨Symbol.equal, "=", .nil, 1⟩,
        ⟨Symbol.bang, "!", .nil, 1⟩, ⟨Symbol.slash, "/", .nil, 1⟩,
        ⟨.string, "\"//\"", .string "//", 1⟩, ⟨Keyword.orWord, "or", .nil, 1⟩,
        Token.endOfInput 1] := by rfl
  have listed : ∀ token ∈ adjoiningTokens, ∃ source, token ∈ (ofSource source).tokens := by
    intro token member
    refine ⟨"chid=!/ $\"//\"or \"", ?_⟩
    rw [tokens]
    revert token
    simp [adjoiningTokens]
  have text : spacedText adjoiningTokens = "or chid ! = / / \"//\"" := by decide
  have again := lists_spaced_tokens_again.1 adjoiningTokens listed
  rw [text] at again
  exact ⟨listed, again⟩

end Listing

end LoxLang
