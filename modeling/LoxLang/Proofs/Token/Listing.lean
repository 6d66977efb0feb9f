import Mathlib.Algebra.GroupWithZero.Nat
import LoxLang.Proofs.Token.Pieces
import LoxLang.Token.Listing

/-! # The words of a text

The token listing of a text is its words and the end of input. If all strings in a text are
closed, the listing of a longer text that goes on in the next line has its words and faults,
and then those of the further lines at greater line numbers.
-/

namespace LoxLang

def Token.movedBy (lines : Nat) (token : Token) : Token :=
  { token with line := token.line + lines }

def Token.unlined (token : Token) : Token := { token with line := 0 }

def LexicalFault.movedBy (lines : Nat) (fault : LexicalFault) : LexicalFault :=
  { fault with line := fault.line + lines }

namespace Piece

def token? (piece : Piece) (line : Nat) : Option Token :=
  match piece.shape with
  | .token kind =>
    some ⟨kind, String.ofList piece.text, literalOfText kind piece.text, line⟩
  | _ => none

theorem token?_add (piece : Piece) (line lines : Nat) :
    piece.token? (line + lines) = (piece.token? line).map (Token.movedBy lines) := by
  unfold token?
  split <;> rfl

def IsClean (piece : Piece) : Prop :=
  piece.shape ≠ .unexpected ∧ piece.shape ≠ .unterminated

end Piece

namespace Listing

def newlinesOf (pieces : List Piece) : Nat := (pieces.map Piece.newlines).sum

def words (line : Nat) : List Piece → List Token
  | [] => []
  | piece :: rest =>
    (piece.token? (line + piece.newlines)).toList ++ words (line + piece.newlines) rest

@[simp] theorem newlinesOf_nil : newlinesOf [] = 0 := rfl

@[simp] theorem newlinesOf_cons (piece : Piece) (rest : List Piece) :
    newlinesOf (piece :: rest) = piece.newlines + newlinesOf rest := by
  simp [newlinesOf]

theorem newlinesOf_pieces (text : List Char) :
    newlinesOf (pieces text) = text.count '\n' := by
  conv => rhs; rw [← text_pieces text, List.count_flatMap]
  rfl

theorem tokens_ofPieces (line : Nat) (pieces : List Piece) :
    (ofPieces line pieces).tokens =
      words line pieces ++ [Token.endOfInput (line + newlinesOf pieces)] := by
  induction pieces generalizing line with
  | nil => rfl
  | cons piece rest induction =>
      have later := induction (line + piece.newlines)
      rw [newlinesOf_cons, ← Nat.add_assoc, words, List.append_assoc, ← later, ofPieces]
      rcases piece with ⟨shape, text⟩
      cases shape <;> rfl

theorem faults_ofPieces (line : Nat) (pieces : List Piece) :
    (ofPieces line pieces).faults = [] ↔ ∀ piece ∈ pieces, piece.IsClean := by
  induction pieces generalizing line with
  | nil => simp [ofPieces]
  | cons piece rest induction =>
      rw [List.forall_mem_cons, ← induction (line + piece.newlines), ofPieces]
      rcases piece with ⟨shape, text⟩
      cases shape <;> simp [prepend, Piece.IsClean]

theorem words_append (line : Nat) (first second : List Piece) :
    words line (first ++ second) = words line first ++
      words (line + newlinesOf first) second := by
  induction first generalizing line with
  | nil => rfl
  | cons piece rest induction =>
      rw [List.cons_append, words, words, newlinesOf_cons, induction, List.append_assoc,
        ← Nat.add_assoc]

theorem words_add (line lines : Nat) (pieces : List Piece) :
    words (line + lines) pieces = (words line pieces).map (Token.movedBy lines) := by
  induction pieces generalizing line with
  | nil => rfl
  | cons piece rest induction =>
      have reorder : line + lines + piece.newlines = line + piece.newlines + lines := by
          omega
      rw [words, words, List.map_append, ← induction, reorder, Piece.token?_add]
      cases piece.token? (line + piece.newlines) <;> rfl

theorem faults_append (line : Nat) (first second : List Piece) :
    (ofPieces line (first ++ second)).faults = (ofPieces line first).faults ++
      (ofPieces (line + newlinesOf first) second).faults := by
  induction first generalizing line with
  | nil => rfl
  | cons piece rest induction =>
      have later := induction (line + piece.newlines)
      rw [Nat.add_assoc, ← newlinesOf_cons] at later
      rw [List.cons_append, ofPieces, ofPieces]
      rcases piece with ⟨shape, text⟩
      cases shape with
      | unexpected | unterminated => exact congrArg (List.cons _) later
      | token | comment | blank | newline => exact later

theorem faults_add (line lines : Nat) (pieces : List Piece) :
    (ofPieces (line + lines) pieces).faults =
      (ofPieces line pieces).faults.map (LexicalFault.movedBy lines) := by
  induction pieces generalizing line with
  | nil => rfl
  | cons piece rest induction =>
      have reorder : line + lines + piece.newlines = line + piece.newlines + lines := by
          omega
      have later := induction (line + piece.newlines)
      rw [ofPieces, ofPieces, reorder]
      rcases piece with ⟨shape, text⟩
      cases shape with
      | unexpected | unterminated => exact congrArg (List.cons _) later
      | token | comment | blank | newline => exact later

theorem spelled_of_mem_words {line : Nat} {pieces : List Piece}
    (spelled : ∀ piece ∈ pieces, piece.IsSpelled) :
    ∀ token ∈ words line pieces, token.kind ≠ .endOfInput ∧ token.Spelled := by
  induction pieces generalizing line with
  | nil => simp [words]
  | cons piece rest induction =>
      rw [List.forall_mem_cons] at spelled
      rw [words, List.forall_mem_append]
      refine ⟨fun token member => ?_, induction spelled.2⟩
      rw [Piece.token?] at member
      split at member
      case h_1 kind shape =>
          rcases List.mem_singleton.mp member with rfl
          exact ⟨(spelled.1 kind shape).1, (spelled.1 kind shape).2 _ _⟩
      case h_2 => cases member

end Listing

def wordsOfSource (source : String) : List Token := Listing.words 1 (pieces source.toList)

def newlinesOfSource (source : String) : Nat := source.toList.count '\n'

namespace Listing

theorem tokens_ofSource (source : String) :
    (ofSource source).tokens =
      wordsOfSource source ++ [Token.endOfInput (1 + newlinesOfSource source)] := by
  rw [ofSource, tokens_ofPieces, newlinesOf_pieces, wordsOfSource, newlinesOfSource]

theorem spelled_of_mem_wordsOfSource (source : String) :
    ∀ token ∈ wordsOfSource source, token.kind ≠ .endOfInput ∧ token.Spelled :=
  spelled_of_mem_words isSpelled_of_mem_pieces

variable {first : String}

def Closed (listing : Listing) : Prop :=
  ∀ fault ∈ listing.faults, fault.cause ≠ .unterminatedString

theorem Closed.of_faultless {listing : Listing} (faultless : listing.faults = []) :
    listing.Closed := by
  rw [Closed, faultless]
  exact nofun

theorem Closed.pieces {line : Nat} {pieces : List Piece}
    (closed : (ofPieces line pieces).Closed) :
    ∀ piece ∈ pieces, piece.shape ≠ .unterminated := by
  induction pieces generalizing line with
  | nil => exact nofun
  | cons piece rest induction =>
      rcases piece with ⟨shape, text⟩
      rw [List.forall_mem_cons]
      cases shape with
      | unterminated => exact absurd rfl (closed _ List.mem_cons_self)
      | unexpected =>
          exact ⟨nofun, induction fun fault member =>
            closed fault (List.mem_cons_of_mem _ member)⟩
      | token | comment | blank | newline => exact ⟨nofun, induction closed⟩

theorem nextLine_eq (source : String) :
    1 + newlinesOf (pieces source.toList) + 1 = 1 + (newlinesOfSource source + 1) := by
  rw [newlinesOf_pieces, newlinesOfSource, Nat.add_assoc]

section Lines

variable (closed : (ofSource first).Closed) (second : String)

include closed

theorem pieces_ofLines : pieces (first ++ "\n" ++ second).toList =
    pieces first.toList ++ ⟨.newline, ['\n']⟩ :: pieces second.toList := by
  have joined : (first ++ "\n" ++ second).toList =
      first.toList ++ '\n' :: second.toList := by
    simp
  rw [joined, pieces_append closed.pieces]

theorem wordsOfSource_ofLines : wordsOfSource (first ++ "\n" ++ second) =
    wordsOfSource first ++
      (wordsOfSource second).map (Token.movedBy (newlinesOfSource first + 1)) := by
  rw [wordsOfSource, pieces_ofLines closed, words_append, wordsOfSource, wordsOfSource,
    ← words_add, ← nextLine_eq]
  rfl

theorem faults_ofLines : (ofSource (first ++ "\n" ++ second)).faults =
    (ofSource first).faults ++
      (ofSource second).faults.map (LexicalFault.movedBy (newlinesOfSource first + 1)) := by
  rw [ofSource, pieces_ofLines closed, faults_append, ofSource, ofSource, ← faults_add,
    ← nextLine_eq]
  rfl

end Lines

/-- What is written in later lines has no influence on what is listed of a text, if all its
strings are closed, and is itself listed as it would be alone, only further down. -/
theorem lists_lines_apart (first second : String)
    (closed : ∀ fault ∈ (ofSource first).faults, fault.cause ≠ .unterminatedString) :
    ∃ words : List Token,
      (ofSource first).tokens =
        words ++ [Token.endOfInput (1 + first.toList.count '\n')] ∧
      (∀ word ∈ words, word.kind ≠ .endOfInput) ∧
      (ofSource (first ++ "\n" ++ second)).tokens =
        words ++ (ofSource second).tokens.map
          (Token.movedBy (first.toList.count '\n' + 1)) ∧
      (ofSource (first ++ "\n" ++ second)).faults =
        (ofSource first).faults ++ (ofSource second).faults.map
          (LexicalFault.movedBy (first.toList.count '\n' + 1)) := by
  refine ⟨wordsOfSource first, tokens_ofSource first, fun word member =>
    (spelled_of_mem_wordsOfSource first word member).1, ?_, faults_ofLines closed second⟩
  have newlines : newlinesOfSource (first ++ "\n" ++ second) =
      newlinesOfSource second + (newlinesOfSource first + 1) := by
    simp only [newlinesOfSource, String.toList_append, List.count_append]
    have single : "\n".toList.count '\n' = 1 := rfl
    omega
  rw [tokens_ofSource, tokens_ofSource, wordsOfSource_ofLines closed, newlines,
    List.map_append, List.append_assoc, ← Nat.add_assoc]
  rfl

/-- A number before a point, an unexpected character and a comment end with their line,
though a string over two lines and an open string follow. -/
theorem lists_lines_apart_faulty :
    (∀ fault ∈ (ofSource "a = 1. @ // \"").faults, fault.cause ≠ .unterminatedString) ∧
    ∃ words : List Token,
      (ofSource "a = 1. @ // \"").tokens = words ++ [Token.endOfInput 1] ∧
      (∀ word ∈ words, word.kind ≠ .endOfInput) ∧
      (ofSource "a = 1. @ // \"\n2 \"b\nc\" $ \"d").tokens =
        words ++ (ofSource "2 \"b\nc\" $ \"d").tokens.map (Token.movedBy 1) ∧
      (ofSource "a = 1. @ // \"\n2 \"b\nc\" $ \"d").faults =
        [⟨.unexpectedCharacter, 1⟩, ⟨.unexpectedCharacter, 3⟩, ⟨.unterminatedString, 3⟩] := by
  have closed : ∀ fault ∈ (ofSource "a = 1. @ // \"").faults,
      fault.cause ≠ .unterminatedString := by decide +kernel
  rcases lists_lines_apart _ "2 \"b\nc\" $ \"d" closed with
    ⟨words, whole, noEnd, tokens, faults⟩
  exact ⟨closed, words, whole, noEnd, tokens, faults.trans (by decide +kernel)⟩

end Listing

end LoxLang
