/-!
# Kinds of tokens

A kind is what the grammar looks at. Symbols and keywords are spelled in exactly one way;
each kind also has a name in capitals, by which token listings show it.
-/

namespace LoxLang

inductive Symbol where
  | leftParen | rightParen | leftBrace | rightBrace
  | comma | dot | minus | plus | semicolon | slash | star
  | bang | bangEqual | equal | equalEqual | greater | greaterEqual | less | lessEqual
  deriving DecidableEq, Repr

inductive Keyword where
  | andWord | classWord | elseWord | falseWord | forWord | funWord | ifWord | nilWord
  | orWord | printWord | returnWord | superWord | thisWord | trueWord | varWord
  | whileWord
  deriving DecidableEq, Repr

/-- What a token is to the grammar. A kind called `other` matches no rule of it. -/
inductive Kind where
  | symbol (sign : Symbol)
  | keyword (word : Keyword)
  | identifier
  | string
  | number
  | endOfInput
  | other (name : String)
  deriving DecidableEq, Repr

namespace Symbol

def all : List Symbol :=
  [leftParen, rightParen, leftBrace, rightBrace, comma, dot, minus, plus, semicolon,
    slash, star, bang, bangEqual, equal, equalEqual, greater, greaterEqual, less, lessEqual]

def spelling : Symbol → List Char
  | leftParen => ['('] | rightParen => [')'] | leftBrace => ['{'] | rightBrace => ['}']
  | comma => [','] | dot => ['.'] | minus => ['-'] | plus => ['+']
  | semicolon => [';'] | slash => ['/'] | star => ['*']
  | bang => ['!'] | bangEqual => ['!', '='] | equal => ['='] | equalEqual => ['=', '=']
  | greater => ['>'] | greaterEqual => ['>', '=']
  | less => ['<'] | lessEqual => ['<', '=']

def name : Symbol → String
  | leftParen => "LEFT_PAREN" | rightParen => "RIGHT_PAREN"
  | leftBrace => "LEFT_BRACE" | rightBrace => "RIGHT_BRACE"
  | comma => "COMMA" | dot => "DOT" | minus => "MINUS" | plus => "PLUS"
  | semicolon => "SEMICOLON" | slash => "SLASH" | star => "STAR"
  | bang => "BANG" | bangEqual => "BANG_EQUAL"
  | equal => "EQUAL" | equalEqual => "EQUAL_EQUAL"
  | greater => "GREATER" | greaterEqual => "GREATER_EQUAL"
  | less => "LESS" | lessEqual => "LESS_EQUAL"

def ofSpelling? (spelling : List Char) : Option Symbol :=
  all.find? fun symbol => symbol.spelling = spelling

end Symbol

namespace Keyword

def all : List Keyword :=
  [andWord, classWord, elseWord, falseWord, forWord, funWord, ifWord, nilWord,
    orWord, printWord, returnWord, superWord, thisWord, trueWord, varWord, whileWord]

def spelling : Keyword → String
  | andWord => "and" | classWord => "class" | elseWord => "else" | falseWord => "false"
  | forWord => "for" | funWord => "fun" | ifWord => "if" | nilWord => "nil"
  | orWord => "or" | printWord => "print" | returnWord => "return" | superWord => "super"
  | thisWord => "this" | trueWord => "true" | varWord => "var" | whileWord => "while"

def name : Keyword → String
  | andWord => "AND" | classWord => "CLASS" | elseWord => "ELSE" | falseWord => "FALSE"
  | forWord => "FOR" | funWord => "FUN" | ifWord => "IF" | nilWord => "NIL"
  | orWord => "OR" | printWord => "PRINT" | returnWord => "RETURN" | superWord => "SUPER"
  | thisWord => "THIS" | trueWord => "TRUE" | varWord => "VAR" | whileWord => "WHILE"

def ofSpelling? (spelling : String) : Option Keyword :=
  all.find? fun word => word.spelling = spelling

end Keyword

namespace Kind

instance : Coe Symbol Kind := ⟨symbol⟩
instance : Coe Keyword Kind := ⟨keyword⟩

def name : Kind → String
  | .symbol sign => sign.name
  | .keyword word => word.name
  | identifier => "IDENTIFIER"
  | string => "STRING"
  | number => "NUMBER"
  | endOfInput => "EOF"
  | other name => name

def named : List Kind :=
  Symbol.all.map symbol ++ Keyword.all.map keyword ++
    [identifier, string, number, endOfInput]

/-- The kind of this name. A name that no kind has is a kind unknown to the grammar. -/
def ofName (name : String) : Kind :=
  (named.find? fun kind => kind.name = name).getD (other name)

end Kind

end LoxLang
