import JackTokens.Json
import JackTokens.Tokenizer.Run

/-!
# Dumps

Tokens as they are shown. In the text form each token has a line with its own line number, its category
and its lexeme, with tabs between them; the lexeme comes last, so tabs inside it do no harm. Lines may
be grouped below the names of the files. The document form is a list of files, each with its name and
its tokens.
-/

namespace JackTokens

/-- The tokens of one file. -/
structure FileTokens where
  name : String
  tokens : List Token
  deriving DecidableEq, Repr, Inhabited

/-- The tokens of each file that has been opened. -/
def Tokenizer.fileTokens (t : Tokenizer) : List FileTokens :=
  t.files.toList.zipIdx.map fun (record, i) => ⟨record.name, (t.tokensOf? i).getD []⟩

namespace Dump

/-- The line of a token. -/
def tokenLine (token : Token) : String :=
  toString token.line ++ "\t" ++ token.category.name ++ "\t" ++ token.lexeme ++ "\n"

/-- The lines of tokens. -/
def lines (tokens : List Token) : String := String.join (tokens.map tokenLine)

/-- The lines of the tokens of each file, below its name. -/
def grouped (files : List FileTokens) : String :=
  String.join (files.map fun file => "# " ++ file.name ++ "\n" ++ lines file.tokens)

/-- A token in a document. -/
def tokenRecord (token : Token) : Json :=
  .object [("line", .number token.line.toNat), ("category", .string token.category.name),
    ("lexeme", .string token.lexeme)]

/-- A document with the tokens of each file. -/
def document (files : List FileTokens) : Json :=
  .array (files.map fun file =>
    .object [("file", .string file.name), ("tokens", .array (file.tokens.map tokenRecord))])

end Dump

end JackTokens
