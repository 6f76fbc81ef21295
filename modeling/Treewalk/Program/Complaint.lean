import Treewalk.Token.Scan

/-!
# Errors of the front end

A syntax error names what the grammar wanted and the token that stood there instead. The texts are
the only ones that users see, so they are kept together here.
-/

namespace Treewalk

set_option autoImplicit false

inductive Slot where
  | variableName | variableEnd
  | forOpen | loopConditionEnd | forClose
  | ifOpen | ifClose
  | printEnd
  | whileOpen | whileClose
  | blockClose
  | functionName | functionOpen | parameterName | parametersClose | bodyOpen
  | returnEnd | breakEnd | expressionEnd
  | argumentsClose | groupingClose
deriving DecidableEq, Inhabited

namespace Slot

def kind : Slot → Kind
  | variableName | functionName | parameterName => .identifier
  | variableEnd | loopConditionEnd | printEnd | returnEnd | breakEnd | expressionEnd => .semicolon
  | forOpen | ifOpen | whileOpen | functionOpen => .leftParen
  | forClose | ifClose | whileClose | parametersClose | argumentsClose | groupingClose =>
      .rightParen
  | blockClose => .rightBrace
  | bodyOpen => .leftBrace

def message : Slot → String
  | variableName => "Expect variable name."
  | variableEnd => "Expect ';' after variable declaration."
  | forOpen => "Expect '(' after 'for'."
  | loopConditionEnd => "Expect ';' after loop condition."
  | forClose => "Expect ')' after for clauses."
  | ifOpen => "Expect '(' after 'if'."
  | ifClose => "Expect ')' after if condition."
  | printEnd => "Expect ';' after value."
  | whileOpen => "Expect '(' after 'while'."
  | whileClose => "Expect ')' after condition."
  | blockClose => "Expect '\x7d' after block."
  | functionName => "Expect function name."
  | functionOpen => "Expect '(' after function name."
  | parameterName => "Expect parameter name."
  | parametersClose => "Expect ')' after parameters."
  | bodyOpen => "Expect '\x7b' before function body."
  | returnEnd => "Expect ';' after return value."
  | breakEnd => "Expect ';' after 'break'."
  | expressionEnd => "Expect ';' after expression."
  | argumentsClose => "Expect ')' after arguments."
  | groupingClose => "Expect ')' after expression."

end Slot

inductive SyntaxCause where
  | missing (slot : Slot)
  | missingExpression
  | badTarget
  | unsupportedClass
deriving DecidableEq, Inhabited

namespace SyntaxCause

def message : SyntaxCause → String
  | missing slot => slot.message
  | missingExpression => "Expect expression."
  | badTarget => "Invalid assignment target."
  | unsupportedClass => "Classes are not supported."

/-- Advice on the token that was found; a reserved word is named where another token was wanted. -/
def notes (cause : SyntaxCause) (found : Kind) : List String :=
  let named := if found.isReserved then ["Found the keyword `" ++ found.spelling ++ "`."] else []
  match cause with
  | missing _ => named
  | missingExpression => named
  | badTarget => []
  | unsupportedClass => []

end SyntaxCause

structure SyntaxError where
  cause : SyntaxCause
  found : Token
deriving Inhabited

inductive ParseError where
  | lexical (error : LexError)
  | grammar (error : SyntaxError)
deriving Inhabited

namespace ParseError

def span : ParseError → Span
  | lexical error => error.span
  | grammar error => error.found.span

def line : ParseError → Nat
  | lexical error => error.line
  | grammar error => error.found.line

def message : ParseError → String
  | lexical error => error.cause.message
  | grammar error => error.cause.message

def notes : ParseError → List String
  | lexical error => error.cause.notes
  | grammar error => error.cause.notes error.found.kind

def site : ParseError → String
  | lexical _ => ""
  | grammar error =>
      if error.found.kind = .endOfInput then " at end" else " at '" ++ error.found.lexeme ++ "'"

def title (error : ParseError) : String :=
  "Error" ++ error.site ++ ": " ++ error.message

def headline (error : ParseError) : String :=
  s!"[line {error.line}] " ++ error.title

end ParseError

end Treewalk
