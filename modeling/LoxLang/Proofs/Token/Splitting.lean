import LoxLang.Proofs.Token.Lexemes
import LoxLang.Proofs.Token.Listing

/-! # The split of a text into longest pieces

A text is split by putting the longest piece at its front, and splitting the rest. There is
one such split. The listing of the text gives the token pieces in order, each at the line
on which it ends, and reports the faulty pieces.
-/

namespace LoxLang

/-! ## Splits -/

/-- Consecutive pieces that make up the text, each the longest where it starts. -/
structure Splits (text : List Char) (pieces : List Piece) : Prop where
  whole : pieces.flatMap (·.text) = text
  nonempty : ∀ piece ∈ pieces, piece.text ≠ []
  longest : ∀ before piece after, pieces = before ++ piece :: after →
    piece.Longest (piece.text ++ after.flatMap (·.text))
  last : ∀ before piece after, pieces = before ++ piece :: after →
    piece.shape = .unterminated → after = []

namespace Splits

variable {text rest : List Char} {piece : Piece} {pieces : List Piece}

theorem nil : Splits [] [] where
  whole := rfl
  nonempty := nofun
  longest before piece after whole := by simp at whole
  last before piece after whole := by simp at whole

theorem rest_eq_nil (longest : piece.Longest (piece.text ++ rest))
    (unterminated : piece.shape = .unterminated) : rest = [] := by
  rcases longest.heads with ⟨later, whole, fits⟩
  obtain rfl := List.append_cancel_left whole
  rcases fits with regular | _ | _
  · cases regular <;> cases unterminated
  · rfl
  · cases unterminated

theorem cons (longest : piece.Longest (piece.text ++ rest)) (splits : Splits rest pieces) :
    Splits (piece.text ++ rest) (piece :: pieces) where
  whole := by rw [List.flatMap_cons, splits.whole]
  nonempty := by
    rw [List.forall_mem_cons]
    rcases longest.heads with ⟨_, _, fits⟩
    exact ⟨fits.text_ne_nil, splits.nonempty⟩
  longest before other after whole := by
    rcases List.append_eq_cons_iff.mp whole.symm with ⟨rfl, same⟩ | ⟨others, rfl, same⟩
    · obtain ⟨rfl, rfl⟩ := List.cons.inj same
      rwa [splits.whole]
    · exact splits.longest others other after same
  last before other after whole unterminated := by
    rcases List.append_eq_cons_iff.mp whole.symm with ⟨rfl, same⟩ | ⟨others, rfl, same⟩
    · obtain ⟨rfl, rfl⟩ := List.cons.inj same
      obtain rfl := rest_eq_nil longest unterminated
      exact after.eq_nil_iff_forall_not_mem.mpr fun later member =>
        splits.nonempty later member (List.flatMap_eq_nil_iff.mp splits.whole later member)
    · exact splits.last others other after same unterminated

theorem uncons (splits : Splits text (piece :: pieces)) :
    piece.Longest text ∧ ∃ rest, text = piece.text ++ rest ∧ Splits rest pieces := by
  have whole := splits.whole
  rw [List.flatMap_cons] at whole
  refine ⟨whole ▸ splits.longest [] piece pieces rfl, _, whole.symm, rfl, ?_, ?_, ?_⟩
  · exact (List.forall_mem_cons.mp splits.nonempty).2
  · intro before other after same
    exact splits.longest (piece :: before) other after (same ▸ rfl)
  · intro before other after same
    exact splits.last (piece :: before) other after (same ▸ rfl)

theorem fits (splits : Splits text pieces) :
    ∀ piece ∈ pieces, ∃ rest, piece.Fits rest := by
  intro piece member
  rcases List.append_of_mem member with ⟨before, after, whole⟩
  rcases (splits.longest before piece after whole).heads with ⟨rest, -, fits⟩
  exact ⟨rest, fits⟩

theorem unique {other : List Piece} (splits : Splits text pieces)
    (splits' : Splits text other) : other = pieces := by
  induction pieces generalizing text other with
  | nil =>
      cases other with
      | nil => rfl
      | cons first others =>
          have whole := splits'.whole.trans splits.whole.symm
          rw [List.flatMap_nil, List.flatMap_eq_nil_iff] at whole
          exact absurd (whole first List.mem_cons_self)
            (splits'.nonempty first List.mem_cons_self)
  | cons piece pieces induction =>
      rcases splits.uncons with ⟨longest, rest, rfl, later⟩
      cases other with
      | nil =>
          have empty := (List.append_eq_nil_iff.mp splits'.whole.symm).1
          exact absurd empty (splits.nonempty piece List.mem_cons_self)
      | cons first others =>
          rcases splits'.uncons with ⟨longest', rest', whole, later'⟩
          obtain rfl := longest'.unique longest
          obtain rfl := List.append_cancel_left whole
          rw [induction later later']

end Splits

theorem splits_pieces (text : List Char) : Splits text (pieces text) := by
  induction text using pieces_induction with
  | nil => exact .nil
  | cons lead rest induction =>
      have whole := (Piece.cutFrom_leading lead rest).1
      have longest := Piece.longest_leading lead rest
      rw [← whole] at longest
      rw [pieces_cons]
      exact whole ▸ Splits.cons longest induction

/-! ## Lines -/

namespace Piece

/-- Pieces with the lines on which they end, which count the newlines in the text up to
their ends. The text `before` is in front of the pieces. -/
def withLines (before : List Char) : List Piece → List (Piece × Nat)
  | [] => []
  | piece :: rest =>
    (piece, 1 + (before ++ piece.text).count '\n') :: withLines (before ++ piece.text) rest

def IsToken (piece : Piece) : Prop := ∃ kind, piece.shape = .token kind

instance (piece : Piece) : Decidable piece.IsToken :=
  match shape : piece.shape with
  | .token kind => isTrue ⟨kind, shape⟩
  | .comment | .blank | .newline | .unexpected | .unterminated =>
    isFalse fun ⟨_, same⟩ => by rw [shape] at same; cases same

structure Denotes (placed : Piece × Nat) (token : Token) : Prop where
  kind : placed.1.shape = .token token.kind
  lexeme : token.lexeme = String.ofList placed.1.text
  literal : Lexeme token.kind token.literal placed.1.text
  line : token.line = placed.2

def fault? (piece : Piece) (line : Nat) : Option LexicalFault :=
  match piece.shape with
  | .unexpected => some ⟨.unexpectedCharacter, line⟩
  | .unterminated => some ⟨.unterminatedString, line⟩
  | .token _ | .comment | .blank | .newline => none

theorem Fits.lexeme {piece : Piece} {rest : List Char} (fits : piece.Fits rest)
    {kind : Kind} (shape : piece.shape = .token kind) :
    Lexeme kind (literalOfText kind piece.text) piece.text := by
  rcases fits with regular | _ | _
  · cases regular with
    | token lexeme =>
        cases shape
        rwa [lexeme.literal_eq]
    | comment | blank | newline => cases shape
  · cases shape
  · cases shape

end Piece

namespace Listing

open Piece

variable {pieces : List Piece} (before : List Char)

theorem count_newlines (piece : Piece) :
    1 + before.count '\n' + piece.newlines = 1 + (before ++ piece.text).count '\n' := by
  rw [List.count_append, ← Nat.add_assoc, newlines]

theorem denotes_words (fits : ∀ piece ∈ pieces, ∃ rest, piece.Fits rest) :
    List.Forall₂ Denotes ((withLines before pieces).filter (·.1.IsToken))
      (words (1 + before.count '\n') pieces) := by
  induction pieces generalizing before with
  | nil => exact .nil
  | cons piece pieces induction =>
      rw [List.forall_mem_cons] at fits
      rcases fits with ⟨⟨rest, here⟩, fits⟩
      have later := induction (before ++ piece.text) fits
      rw [withLines, words, count_newlines]
      cases shape : piece.shape with
      | token kind =>
          have isToken : piece.IsToken := ⟨kind, shape⟩
          rw [List.filter_cons_of_pos (by exact decide_eq_true isToken)]
          simp only [token?, shape, Option.toList_some, List.singleton_append]
          exact .cons ⟨shape, rfl, here.lexeme shape, rfl⟩ later
      | comment | blank | newline | unexpected | unterminated =>
          rw [List.filter_cons_of_neg (by simp [IsToken, shape])]
          simpa only [token?, shape, Option.toList_none, List.nil_append] using later

theorem faults_withLines (pieces : List Piece) :
    (ofPieces (1 + before.count '\n') pieces).faults =
      (withLines before pieces).filterMap fun placed => placed.1.fault? placed.2 := by
  induction pieces generalizing before with
  | nil => rfl
  | cons piece pieces induction =>
      have later := induction (before ++ piece.text)
      rw [ofPieces, withLines, count_newlines, List.filterMap_cons, ← later]
      rcases piece with ⟨shape, text⟩
      cases shape <;> rfl

/-- Every text is split in one way, and its listing gives one token for each token piece,
the end of input, and one fault for each faulty piece. -/
theorem lists_longest_pieces (source : String) :
    ∃ split : List Piece,
      Splits source.toList split ∧
      (∀ other, Splits source.toList other → other = split) ∧
      (∃ words : List Token,
        (ofSource source).tokens =
          words ++ [Token.endOfInput (1 + source.toList.count '\n')] ∧
        (∀ word ∈ words, word.kind ≠ .endOfInput) ∧
        List.Forall₂ Denotes ((withLines [] split).filter (·.1.IsToken)) words) ∧
      (ofSource source).faults =
        (withLines [] split).filterMap fun placed => placed.1.fault? placed.2 := by
  have splits := splits_pieces source.toList
  refine ⟨_, splits, fun other => splits.unique, ⟨wordsOfSource source,
    tokens_ofSource source, fun word member => ?_, denotes_words [] splits.fits⟩,
    faults_withLines [] _⟩
  exact (spelled_of_mem_wordsOfSource source word member).1

end Listing

end LoxLang
