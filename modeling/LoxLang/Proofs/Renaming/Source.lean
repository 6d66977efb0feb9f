import LoxLang.Proofs.Session.Layout
import LoxLang.Proofs.Token.Replacing

/-! # Renamed source texts

A text in which identifiers are replaced by another one is read as the same program, with
the other name at the places of these identifiers.
-/

namespace LoxLang

open Piece

theorem Token.length_placedFrom (place : Nat) (tokens : List Token) :
    (placedFrom place tokens).length = tokens.length := by
  induction tokens generalizing place with
  | nil => rfl
  | cons token rest induction => rw [placedFrom, List.length_cons, induction, List.length_cons]

namespace Occurrence

variable (chosen : Nat → Bool) (name : String)

theorem sameKinds_renamed : SameKinds (renamed chosen name) := by
  constructor <;> intro word <;> rw [renamed] <;> split <;> rfl

theorem place_renamed (word : Occurrence) : (renamed chosen name word).place = word.place := by
  rw [renamed]
  split <;> rfl

theorem line_renamed (word : Occurrence) : (renamed chosen name word).line = word.line := by
  rw [renamed]
  split <;> rfl

theorem recount_comp_renamed (start : Nat) :
    recount 0 start ∘ renamed chosen name =
      renamed (fun place => chosen (place - start)) name ∘ recount 0 start := by
  funext word
  have places : word.place - 0 + start - start = word.place := by omega
  change recount 0 start (if chosen word.place && word.kind = .identifier then _ else _) =
    if chosen (word.place - 0 + start - start) && word.kind = .identifier then _ else _
  rw [places]
  split <;> rfl

end Occurrence

variable {chosen : Nat → Bool} {name source : String}
  (identifier : Lexeme .identifier .nil name.toList)
  (clean : (Listing.ofSource source).faults = [])

namespace Listing

include clean

theorem regular_of_mem_source : ∀ piece ∈ pieces source.toList, piece.Regular :=
  fun piece member =>
    regular_of_mem_pieces member ((faults_ofPieces _ _).mp clean piece member)

include identifier

theorem pieces_renamedSource : pieces (renamedSource chosen name source).toList =
    renameFrom chosen name.toList 0 (pieces source.toList) := by
  rw [renamedSource, String.toList_ofList]
  exact (pieces_renameFrom identifier _ (regular_of_mem_source clean) 0).1

theorem faults_renamedSource :
    (ofSource (renamedSource chosen name source)).faults = [] := by
  rw [ofSource, faults_ofPieces, pieces_renamedSource identifier clean]
  exact isClean_of_mem_renameFrom ((faults_ofPieces _ _).mp clean) 0

theorem tokens_renamedSource :
    Token.placedFrom 0 (ofSource (renamedSource chosen name source)).tokens =
      (Token.placedFrom 0 (ofSource source).tokens).map (Occurrence.renamed chosen name) := by
  have regular := regular_of_mem_source clean
  have words : Token.placedFrom 0 (wordsOfSource (renamedSource chosen name source)) =
      (Token.placedFrom 0 (wordsOfSource source)).map (Occurrence.renamed chosen name) := by
    rw [wordsOfSource, pieces_renamedSource identifier clean]
    exact words_renameFrom identifier regular 0 1
  have lines : newlinesOfSource (renamedSource chosen name source) =
      newlinesOfSource source := by
    rw [newlinesOfSource, newlinesOfSource, ← newlinesOf_pieces, ← newlinesOf_pieces,
      pieces_renamedSource identifier clean, newlinesOf_renameFrom identifier regular]
  have counts : (wordsOfSource (renamedSource chosen name source)).length =
      (wordsOfSource source).length := by
    have lengths := congrArg List.length words
    rwa [List.length_map, Token.length_placedFrom, Token.length_placedFrom] at lengths
  rw [tokens_ofSource, tokens_ofSource, Token.placedFrom_append, Token.placedFrom_append,
    List.map_append, words, lines, counts]
  have finish : Occurrence.renamed chosen name
      ⟨Token.endOfInput (1 + newlinesOfSource source), 0 + (wordsOfSource source).length⟩ =
      ⟨Token.endOfInput (1 + newlinesOfSource source), 0 + (wordsOfSource source).length⟩ :=
    if_neg (by simp [Token.endOfInput])
  rw [Token.placedFrom, Token.placedFrom, List.map_singleton, finish]

end Listing

end LoxLang
