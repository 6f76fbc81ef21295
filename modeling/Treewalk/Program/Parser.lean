import Treewalk.Program.Tree
import Treewalk.Program.Complaint

/-!
# Parsing

Recursive descent over the tokens of a text. A syntax error unwinds to the nearest declaration,
which records it, skips to a likely statement boundary and goes on; so one pass reports every
independent error. A wrong assignment target is recorded without unwinding, since the statement
around it is well formed.

The grammar is

    program     → declaration* end
    declaration → "var" name ( "=" expression )? ";" | statement
    statement   → for | if | print | while | block | function | return | break | expression ";"
    expression  → name "=" expression | or
    or          → and ( "or" and )*            and        → equality ( "and" equality )*
    equality    → comparison ( … comparison )* comparison → term ( … term )*
    term        → factor ( … factor )*         factor     → unary ( … unary )*
    unary       → ( "!" | "-" ) unary | call   call       → primary ( "(" arguments? ")" )*

Every rule calls another with one unit of budget less, and a budget of twelve for each token is
never used up: from one token to the next there are at most eleven rules.
-/

namespace Treewalk

set_option autoImplicit false

/-- Where a parser takes its tokens from, and where it records errors. The tokens behind the one
that is looked at may be listed, or still have to be scanned. -/
class Supply (σ : Type) where
  /-- The token that is looked at; at the end it is the closing one. -/
  current : σ → Token
  isAtEnd : σ → Bool
  /-- Takes the token that is looked at; the closing token stays. -/
  advance : σ → σ
  record : SyntaxError → σ → σ
  /-- No more tokens than this are ahead. -/
  room : σ → Nat

/-- How a rule ends. Errors keep the state, because recovery goes on from there. -/
inductive Parsed (σ α : Type) where
  | done (value : α) (state : σ)
  | failed (error : SyntaxError) (state : σ)
  | exhausted

def Rule (σ α : Type) : Type :=
  σ → Parsed σ α

namespace Rule

section Steps

variable {σ α β : Type}

@[inline]
def succeed (value : α) : Rule σ α :=
  fun state => .done value state

@[inline]
def andThen (rule : Rule σ α) (next : α → Rule σ β) : Rule σ β :=
  fun state =>
    match rule state with
    | .done value after => next value after
    | .failed error after => .failed error after
    | .exhausted => .exhausted

@[inline]
instance : Monad (Rule σ) where
  pure := succeed
  bind := andThen

def exhausted : Rule σ α :=
  fun _ => .exhausted

variable [Supply σ]

@[inline]
def current : Rule σ Token :=
  fun state => .done (Supply.current state) state

@[inline]
def isAt (kind : Kind) : Rule σ Bool :=
  fun state => .done ((Supply.current state).kind = kind) state

@[inline]
def take : Rule σ Token :=
  fun state => .done (Supply.current state) (Supply.advance state)

def accept (kinds : List Kind) : Rule σ (Option Token) :=
  fun state =>
    if kinds.contains (Supply.current state).kind then
      .done (some (Supply.current state)) (Supply.advance state)
    else .done none state

@[inline]
def fail (cause : SyntaxCause) : Rule σ α :=
  fun state => .failed ⟨cause, Supply.current state⟩ state

def expect (slot : Slot) : Rule σ Token :=
  fun state =>
    if (Supply.current state).kind = slot.kind then
      .done (Supply.current state) (Supply.advance state)
    else .failed ⟨.missing slot, Supply.current state⟩ state

@[inline]
def record (cause : SyntaxCause) (found : Token) : Rule σ Unit :=
  fun state => .done () (Supply.record ⟨cause, found⟩ state)

@[inline]
def atEnd : Rule σ Bool :=
  fun state => .done (Supply.isAtEnd state) state

end Steps

end Rule

structure Level where
  kinds : List Kind
  isLogical : Bool
deriving Inhabited

namespace Level

def join (level : Level) (left : Expr) (operator : Token) (right : Expr) : Expr :=
  if level.isLogical then .logical left operator right else .binary left operator right

def all : List Level :=
  [⟨[.orWord], true⟩, ⟨[.andWord], true⟩, ⟨[.bangEqual, .equalEqual], false⟩,
    ⟨[.greater, .greaterEqual, .less, .lessEqual], false⟩, ⟨[.minus, .plus], false⟩,
    ⟨[.slash, .star], false⟩]

end Level

def Token.constant? (token : Token) : Option Literal :=
  match token.kind with
  | .falseWord => some (.boolean false)
  | .trueWord => some (.boolean true)
  | .nilWord => some .nil
  | .number => token.literal
  | .string => token.literal
  | _ => none

def budget (tokens : Nat) : Nat :=
  12 * (tokens + 1)

namespace Parser

section Grammar

variable {σ : Type} [Supply σ]

mutual

def assignment : Nat → Rule σ Expr
  | 0 => Rule.exhausted
  | units + 1 => do
      let left ← operation units Level.all
      match ← Rule.accept [.equal] with
      | none => pure left
      | some equals =>
          let value ← assignment units
          match left with
          | .reference name => pure (.assign name value)
          | target =>
              Rule.record .badTarget equals
              pure target

def operation : Nat → List Level → Rule σ Expr
  | 0, _ => Rule.exhausted
  | units + 1, [] => unary units
  | units + 1, level :: tighter => do
      let left ← operation units tighter
      operators units level tighter left

def operators : Nat → Level → List Level → Expr → Rule σ Expr
  | 0, _, _, _ => Rule.exhausted
  | units + 1, level, tighter, left => do
      match ← Rule.accept level.kinds with
      | none => pure left
      | some operator =>
          let right ← operation units tighter
          operators units level tighter (level.join left operator right)

def unary : Nat → Rule σ Expr
  | 0 => Rule.exhausted
  | units + 1 => do
      match ← Rule.accept [.bang, .minus] with
      | some operator =>
          let operand ← unary units
          pure (.unary operator operand)
      | none =>
          let callee ← primary units
          calls units callee

def calls : Nat → Expr → Rule σ Expr
  | 0, _ => Rule.exhausted
  | units + 1, callee => do
      match ← Rule.accept [.leftParen] with
      | none => pure callee
      | some _ =>
          let arguments ← if ← Rule.isAt .rightParen then pure [] else arguments units
          let paren ← Rule.expect .argumentsClose
          calls units (.call callee paren arguments)

def arguments : Nat → Rule σ (List Expr)
  | 0 => Rule.exhausted
  | units + 1 => do
      let first ← assignment units
      match ← Rule.accept [.comma] with
      | none => pure [first]
      | some _ =>
          let rest ← arguments units
          pure (first :: rest)

def primary : Nat → Rule σ Expr
  | 0 => Rule.exhausted
  | units + 1 => do
      let token ← Rule.current
      match token.constant? with
      | some value =>
          let _ ← Rule.take
          pure (.literal value token.line token.span)
      | none =>
          match token.kind with
          | .identifier =>
              let name ← Rule.take
              pure (.reference name)
          | .leftParen =>
              let openParen ← Rule.take
              let inner ← assignment units
              let closeParen ← Rule.expect .groupingClose
              pure (.grouping inner (openParen.span.hull closeParen.span))
          | _ => Rule.fail .missingExpression

end

def expression : Rule σ Expr :=
  fun state => assignment (budget (Supply.room state)) state

def variableDeclaration : Rule σ Stmt := do
  let _ ← Rule.take
  let name ← Rule.expect .variableName
  let initial ← match ← Rule.accept [.equal] with
    | some _ => some <$> expression
    | none => pure none
  let _ ← Rule.expect .variableEnd
  pure (.declare name initial)

def expressionStatement : Rule σ Stmt := do
  let value ← expression
  let _ ← Rule.expect .expressionEnd
  pure (.expression value)

def printStatement : Rule σ Stmt := do
  let keyword ← Rule.take
  let value ← expression
  let _ ← Rule.expect .printEnd
  pure (.print keyword value)

def returnStatement : Rule σ Stmt := do
  let keyword ← Rule.take
  let value ← if ← Rule.isAt .semicolon then pure none else some <$> expression
  let _ ← Rule.expect .returnEnd
  pure (.returnValue keyword value)

def breakStatement : Rule σ Stmt := do
  let keyword ← Rule.take
  let _ ← Rule.expect .breakEnd
  pure (.breakLoop keyword)

def forInitial : Rule σ (Option Stmt) := do
  let token ← Rule.current
  match token.kind with
  | .semicolon =>
      let _ ← Rule.take
      pure none
  | .varWord => some <$> variableDeclaration
  | _ => some <$> expressionStatement

def forClauses : Rule σ (Option Stmt × Option Expr × Option Expr) := do
  let _ ← Rule.expect .forOpen
  let initial ← forInitial
  let condition ← if ← Rule.isAt .semicolon then pure none else some <$> expression
  let _ ← Rule.expect .loopConditionEnd
  let increment ← if ← Rule.isAt .rightParen then pure none else some <$> expression
  let _ ← Rule.expect .forClose
  pure (initial, condition, increment)

/-- The loop that a `for` stands for: the initial clause and the loop in a block of their own, the
increment behind the body in a block of its own, and `true` for a missing condition. -/
def forLoop (keyword : Token) (initial : Option Stmt) (condition increment : Option Expr)
    (body : Stmt) : Stmt :=
  let body := match increment with
    | some step => .block [body, .expression step] (body.location.hull step.location)
    | none => body
  let condition := condition.getD (.literal (.boolean true) keyword.line keyword.span)
  let loop := .loop keyword condition body
  match initial with
  | some first => .block [first, loop] (keyword.span.hull body.location)
  | none => loop

def parameters : Nat → Rule σ (List Token)
  | 0 => Rule.exhausted
  | units + 1 => do
      let name ← Rule.expect .parameterName
      match ← Rule.accept [.comma] with
      | none => pure [name]
      | some _ =>
          let rest ← parameters units
          pure (name :: rest)

def functionHead : Rule σ (Token × List Token) := do
  let _ ← Rule.take
  let name ← Rule.expect .functionName
  let _ ← Rule.expect .functionOpen
  let names ← if ← Rule.isAt .rightParen then pure []
    else fun state => parameters (budget (Supply.room state)) state
  let _ ← Rule.expect .parametersClose
  let _ ← Rule.expect .bodyOpen
  pure (name, names)

/-- Skips tokens up to a likely statement boundary: behind a semicolon or in front of a word that
starts a statement. At least one token is skipped. -/
def synchronize : Nat → σ → σ
  | 0, state => state
  | units + 1, state =>
      if Supply.isAtEnd state then state
      else
        let after := Supply.advance state
        if (Supply.current state).kind = .semicolon then after
        else if (Supply.current after).kind.startsStatement then after
        else synchronize units after

@[inline]
def recover (rule : Rule σ Stmt) : Rule σ (Option Stmt) :=
  fun state =>
    match rule state with
    | .done statement after => .done (some statement) after
    | .failed error after =>
        let recorded := Supply.record error after
        .done none (synchronize (Supply.room recorded) recorded)
    | .exhausted => .exhausted

mutual

def statement : Nat → Rule σ Stmt
  | 0 => Rule.exhausted
  | units + 1 => do
      let token ← Rule.current
      match token.kind with
      | .forWord => forStatement units
      | .ifWord => ifStatement units
      | .printWord => printStatement
      | .whileWord => whileStatement units
      | .leftBrace => blockStatement units
      | .funWord => functionStatement units
      | .returnWord => returnStatement
      | .breakWord => breakStatement
      | .classWord => Rule.fail .unsupportedClass
      | _ => expressionStatement

def forStatement : Nat → Rule σ Stmt
  | 0 => Rule.exhausted
  | units + 1 => do
      let keyword ← Rule.take
      let (initial, condition, increment) ← forClauses
      let body ← statement units
      pure (forLoop keyword initial condition increment body)

def ifStatement : Nat → Rule σ Stmt
  | 0 => Rule.exhausted
  | units + 1 => do
      let keyword ← Rule.take
      let _ ← Rule.expect .ifOpen
      let condition ← expression
      let _ ← Rule.expect .ifClose
      let consequent ← statement units
      match ← Rule.accept [.elseWord] with
      | none => pure (.ifThen keyword condition consequent)
      | some _ =>
          let alternative ← statement units
          pure (.ifElse keyword condition consequent alternative)

def whileStatement : Nat → Rule σ Stmt
  | 0 => Rule.exhausted
  | units + 1 => do
      let keyword ← Rule.take
      let _ ← Rule.expect .whileOpen
      let condition ← expression
      let _ ← Rule.expect .whileClose
      let body ← statement units
      pure (.loop keyword condition body)

def blockStatement : Nat → Rule σ Stmt
  | 0 => Rule.exhausted
  | units + 1 => do
      let openBrace ← Rule.take
      let body ← declarations units true
      let closeBrace ← Rule.expect .blockClose
      pure (.block body (openBrace.span.hull closeBrace.span))

def functionStatement : Nat → Rule σ Stmt
  | 0 => Rule.exhausted
  | units + 1 => do
      let (name, names) ← functionHead
      let body ← declarations units true
      let _ ← Rule.expect .blockClose
      pure (.function name names body)

/-- Declarations up to the end of the input or, inside a block, up to its closing brace. -/
def declarations : Nat → Bool → Rule σ (List Stmt)
  | 0, _ => Rule.exhausted
  | units + 1, insideBlock => do
      let closed ← Rule.isAt .rightBrace
      let ended ← Rule.atEnd
      if ended || (insideBlock && closed) then pure []
      else
        let first ← declaration units
        let rest ← declarations units insideBlock
        pure (first.toList ++ rest)

def declaration : Nat → Rule σ (Option Stmt)
  | 0 => Rule.exhausted
  | units + 1 => do
      let token ← Rule.current
      recover (if token.kind = .varWord then variableDeclaration else statement units)

end

def program : Rule σ Program :=
  fun state => declarations (budget (Supply.room state)) false state

end Grammar

end Parser

/-- A parser in front of listed tokens: the tokens ahead, the token that closes them, and the errors
recorded so far in the order in which they were found. -/
structure ParseState where
  ahead : List Token
  closing : Token
  recorded : List SyntaxError
deriving Inhabited

namespace ParseState

def current (state : ParseState) : Token :=
  state.ahead.headD state.closing

def record (error : SyntaxError) (state : ParseState) : ParseState :=
  { state with recorded := state.recorded ++ [error] }

def skip (state : ParseState) : ParseState :=
  { state with ahead := state.ahead.tail }

instance : Supply ParseState where
  current := current
  isAtEnd state := state.ahead.isEmpty
  advance := skip
  record := record
  room state := state.ahead.length

end ParseState

def Parser.start (scanned : Scanned) : ParseState :=
  ⟨scanned.tokens, scanned.closing, []⟩

end Treewalk
