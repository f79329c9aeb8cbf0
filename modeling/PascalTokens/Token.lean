import PascalTokens.Text.Quoted

/-!
# Tokens

A token is a lexeme with its class and the line it was found on. A string literal carries the
text between its quotes and the line of the closing quote.
-/

namespace PascalTokens

inductive TokenClass where
  | reservedKeyword
  | relationalOperator
  | arithmeticOperator
  | identifier
  | number
  | stringLiteral
  deriving DecidableEq, Repr

namespace TokenClass

def all : List TokenClass :=
  [reservedKeyword, relationalOperator, arithmeticOperator, identifier, number, stringLiteral]

/-- The name in serialized results. -/
def name : TokenClass → Text
  | reservedKeyword => "RESERVED_KEYWORD".toList
  | relationalOperator => "RELATIONAL_OPERATOR".toList
  | arithmeticOperator => "ARITHMETIC_OPERATOR".toList
  | identifier => "IDENTIFIER".toList
  | number => "NUMBER".toList
  | stringLiteral => "STRING_LITERAL".toList

/-- The name in tables. -/
def label : TokenClass → Text
  | reservedKeyword => "Reserved Keyword".toList
  | relationalOperator => "Relational Operator".toList
  | arithmeticOperator => "Arithmetic Operator".toList
  | identifier => "Identifier".toList
  | number => "Number".toList
  | stringLiteral => "String".toList

def ofName? (t : Text) : Option TokenClass := all.find? fun c => c.name = t

theorem ofName?_name (c : TokenClass) : ofName? c.name = some c := by cases c <;> decide

end TokenClass

structure Token where
  lexeme : Text
  tokenClass : TokenClass
  line : Int
  deriving DecidableEq, Repr

end PascalTokens
