/-!
# Policies

What a tokenizer may be told: the extension of the files that a directory contributes, whether the
line counter restarts with each file, and which characters make up an identifier.
-/

namespace JackTokens

/-- The scope of the line counter. -/
inductive LineNumbering where
  /-- One counter for the whole unit. -/
  | global
  /-- The counter restarts with each file. -/
  | perFile
  deriving DecidableEq, Repr, Inhabited

/-- Which runs of characters are identifiers. -/
inductive IdentifierRule where
  /-- A letter or an underscore, then letters, digits and underscores. -/
  | alphanumeric
  /-- Letters only. -/
  | alphabetic
  deriving DecidableEq, Repr, Inhabited

/-- The name of a numbering in settings. -/
def LineNumbering.name : LineNumbering → String
  | global => "global"
  | perFile => "per-file"

/-- The name of an identifier rule in settings. -/
def IdentifierRule.name : IdentifierRule → String
  | alphanumeric => "alphanumeric"
  | alphabetic => "alphabetic"

namespace IdentifierRule

/-- May an identifier start with this character? Only ASCII characters may. -/
def starts : IdentifierRule → Char → Bool
  | alphanumeric, c => c == '_' || c.isAlpha
  | alphabetic, c => c.isAlpha

/-- May an identifier go on with this character? Only ASCII characters may. -/
def continues : IdentifierRule → Char → Bool
  | alphanumeric, c => c == '_' || c.isAlphanum
  | alphabetic, c => c.isAlpha

end IdentifierRule

/-- **A tokenizer's policies.** -/
structure Policy where
  /-- The extension of the files collected from a directory, without the dot. -/
  extension : String := "jack"
  lineNumbering : LineNumbering := .global
  identifiers : IdentifierRule := .alphanumeric
  deriving DecidableEq, Repr, Inhabited

/-- An extension without its leading dots. -/
def bareExtension (extension : String) : String :=
  String.ofList (extension.toList.dropWhile (· == '.'))

namespace Policy

/-- Another extension; leading dots are ignored. -/
def withExtension (policy : Policy) (extension : String) : Policy :=
  { policy with extension := bareExtension extension }

/-- Another numbering. -/
def withLineNumbering (policy : Policy) (numbering : LineNumbering) : Policy :=
  { policy with lineNumbering := numbering }

/-- Another identifier rule. -/
def withIdentifiers (policy : Policy) (rule : IdentifierRule) : Policy :=
  { policy with identifiers := rule }

end Policy

end JackTokens
