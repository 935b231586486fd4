/-!
# Reserved words

The twenty-one reserved words of Jack. The order of declaration is the order in which they are
listed and compared.
-/

namespace JackTokens

/-- A reserved word of Jack. -/
inductive Keyword where
  | kClass | kConstructor | kFunction | kMethod | kField | kStatic | kVar
  | kInt | kChar | kBoolean | kVoid
  | kTrue | kFalse | kNull | kThis
  | kLet | kDo | kIf | kElse | kWhile | kReturn
  deriving DecidableEq, Repr, Inhabited

namespace Keyword

/-- Every reserved word, in order. -/
def all : List Keyword :=
  [kClass, kConstructor, kFunction, kMethod, kField, kStatic, kVar,
    kInt, kChar, kBoolean, kVoid,
    kTrue, kFalse, kNull, kThis,
    kLet, kDo, kIf, kElse, kWhile, kReturn]

/-- How a reserved word is written. -/
def spelling : Keyword → String
  | kClass => "class"
  | kConstructor => "constructor"
  | kFunction => "function"
  | kMethod => "method"
  | kField => "field"
  | kStatic => "static"
  | kVar => "var"
  | kInt => "int"
  | kChar => "char"
  | kBoolean => "boolean"
  | kVoid => "void"
  | kTrue => "true"
  | kFalse => "false"
  | kNull => "null"
  | kThis => "this"
  | kLet => "let"
  | kDo => "do"
  | kIf => "if"
  | kElse => "else"
  | kWhile => "while"
  | kReturn => "return"

/-- The reserved word with a given spelling. Case matters. -/
def ofSpelling? (text : String) : Option Keyword := all.find? fun k => k.spelling == text

/-- The place of a reserved word in the list of all. -/
def index (k : Keyword) : Nat := all.idxOf k

/-- How many reserved words come before this one. -/
def rank (k : Keyword) : Nat := (all.filter fun other => other.index < k.index).length

end Keyword

end JackTokens
