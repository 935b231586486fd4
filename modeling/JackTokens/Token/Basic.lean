import JackTokens.Json
import JackTokens.Token.Keyword

/-!
# Tokens

A token is a classified lexeme with the line it starts on. Its lexeme is the text it stands for: the
spelling of a reserved word, an identifier or a run of digits as written, a string without its
quotation marks, or a single character. Any character may be a symbol; `jackSymbols` lists those
that the language uses.

Lines are counted in 32 bits.
-/

namespace JackTokens

/-- The kind of lexeme a token stands for. -/
inductive Category where
  | keyword | identifier | stringConstant | integerConstant | symbol
  deriving DecidableEq, Repr, Inhabited

namespace Category

/-- Every category, in order. -/
def all : List Category := [keyword, identifier, stringConstant, integerConstant, symbol]

/-- The name of a category in dumps and messages. -/
def name : Category → String
  | keyword => "keyword"
  | identifier => "identifier"
  | stringConstant => "stringConstant"
  | integerConstant => "integerConstant"
  | symbol => "symbol"

/-- The name of a category in a JSON document. -/
def tag : Category → String
  | keyword => "Keyword"
  | identifier => "Identifier"
  | stringConstant => "StringConstant"
  | integerConstant => "IntegerConstant"
  | symbol => "Symbol"

end Category

/-- What a token stands for. -/
inductive Kind where
  | keyword (word : Keyword)
  | identifier (name : String)
  | stringConstant (text : String)
  | integerConstant (digits : String)
  | symbol (c : Char)
  deriving DecidableEq, Repr, Inhabited

/-- The characters that the language uses as symbols. -/
def jackSymbols : String := "\x7b\x7d()[].,;+-*/&|<>=~"

namespace Kind

/-- The category of a kind. -/
def category : Kind → Category
  | keyword _ => .keyword
  | identifier _ => .identifier
  | stringConstant _ => .stringConstant
  | integerConstant _ => .integerConstant
  | symbol _ => .symbol

/-- The text a kind stands for. -/
def lexeme : Kind → String
  | keyword word => word.spelling
  | identifier name => name
  | stringConstant text => text
  | integerConstant digits => digits
  | symbol c => String.singleton c

/-- The kind of a given category with a given text. A reserved word must be one, and a symbol is the
first character of the text. -/
def ofLexeme? (category : Category) (text : String) : Option Kind :=
  match category with
  | .keyword => (Keyword.ofSpelling? text).map keyword
  | .identifier => some (identifier text)
  | .stringConstant => some (stringConstant text)
  | .integerConstant => some (integerConstant text)
  | .symbol => text.toList.head?.map symbol

/-- Is this a symbol that the language uses? -/
def isJackSymbol : Kind → Bool
  | symbol c => jackSymbols.toList.contains c
  | _ => false

/-- A kind in a message, as category and lexeme. -/
def describe (kind : Kind) : String := kind.category.name ++ "(" ++ kind.lexeme ++ ")"

/-- A kind as a JSON document. -/
def toJson (kind : Kind) : Json :=
  .object [("category", .string kind.category.tag), ("lexeme", .string kind.lexeme)]

end Kind

/-- **A token**: what it stands for, and the line it starts on. -/
structure Token where
  kind : Kind
  line : UInt32
  deriving DecidableEq, Repr, Inhabited

namespace Token

/-- The category of a token. -/
def category (token : Token) : Category := token.kind.category

/-- The text a token stands for. -/
def lexeme (token : Token) : String := token.kind.lexeme

/-- A token in a message, as line, category and lexeme. -/
def describe (token : Token) : String := toString token.line ++ ":" ++ token.kind.describe

/-- A token as a JSON document. -/
def toJson (token : Token) : Json :=
  .object [("kind", token.kind.toJson), ("line", .number token.line.toNat)]

end Token

end JackTokens
