import Treewalk.Program.Tree

/-!
# The grammar

What it means for a list of tokens to be a program, said without a parser. A derivation relates a
phrase, which is a nonterminal together with the tree that it stands for, to the tokens that it
covers. Operators of one tier associate to the left because the rule for them is recursive on the
left; an assignment is recursive on the right and its target is one name.

The rule for conditionals would be ambiguous. A statement is `waiting` if it ends in a conditional
without alternative, and a consequent in front of an `else` must not be waiting: so an `else`
belongs to the nearest conditional that has none.
-/

namespace Treewalk.Grammar

set_option autoImplicit false

/-- Binary operators by strength, the loosest first. -/
inductive Tier where
  | disjunction
  | conjunction
  | equality
  | comparison
  | term
  | factor
deriving DecidableEq, Inhabited

namespace Tier

def operators : Tier → List Kind
  | disjunction => [.orWord]
  | conjunction => [.andWord]
  | equality => [.bangEqual, .equalEqual]
  | comparison => [.greater, .greaterEqual, .less, .lessEqual]
  | term => [.minus, .plus]
  | factor => [.slash, .star]

/-- The tree of an operation: `and` and `or` have a kind of node of their own. -/
def node (left : Expr) (operator : Token) (right : Expr) : Tier → Expr
  | disjunction => .logical left operator right
  | conjunction => .logical left operator right
  | equality => .binary left operator right
  | comparison => .binary left operator right
  | term => .binary left operator right
  | factor => .binary left operator right

end Tier

inductive Phrase where
  | expression (tree : Expr)
  | operation (tier : Tier) (tree : Expr)
  | unary (tree : Expr)
  | call (tree : Expr)
  | primary (tree : Expr)
  | arguments (trees : List Expr)

def Tier.operand (tree : Expr) : Tier → Phrase
  | disjunction => .operation .conjunction tree
  | conjunction => .operation .equality tree
  | equality => .operation .comparison tree
  | comparison => .operation .term tree
  | term => .operation .factor tree
  | factor => .unary tree

inductive Constant : Token → Literal → Prop where
  | trueWord {token : Token} (word : token.kind = .trueWord) : Constant token (.boolean true)
  | falseWord {token : Token} (word : token.kind = .falseWord) : Constant token (.boolean false)
  | nilWord {token : Token} (word : token.kind = .nilWord) : Constant token .nil
  | number {token : Token} {value : Literal} (digits : token.kind = .number)
      (read : token.literal = some value) : Constant token value
  | string {token : Token} {value : Literal} (quoted : token.kind = .string)
      (read : token.literal = some value) : Constant token value

inductive Derives : Phrase → List Token → Prop where
  | assign {name equals : Token} {value : Expr} {rest : List Token}
      (target : name.kind = .identifier) (sign : equals.kind = .equal)
      (assigned : Derives (.expression value) rest) :
      Derives (.expression (.assign name value)) (name :: equals :: rest)
  | plain {tree : Expr} {tokens : List Token}
      (whole : Derives (.operation .disjunction tree) tokens) :
      Derives (.expression tree) tokens
  | operand {tier : Tier} {tree : Expr} {tokens : List Token}
      (whole : Derives (tier.operand tree) tokens) : Derives (.operation tier tree) tokens
  | operator {tier : Tier} {left right : Expr} {operator : Token} {before behind : List Token}
      (first : Derives (.operation tier left) before) (sign : operator.kind ∈ tier.operators)
      (second : Derives (tier.operand right) behind) :
      Derives (.operation tier (tier.node left operator right)) (before ++ operator :: behind)
  | negation {operator : Token} {operand : Expr} {rest : List Token}
      (sign : operator.kind = .bang ∨ operator.kind = .minus)
      (negated : Derives (.unary operand) rest) :
      Derives (.unary (.unary operator operand)) (operator :: rest)
  | called {tree : Expr} {tokens : List Token} (whole : Derives (.call tree) tokens) :
      Derives (.unary tree) tokens
  | callee {tree : Expr} {tokens : List Token} (whole : Derives (.primary tree) tokens) :
      Derives (.call tree) tokens
  | emptyCall {callee : Expr} {before : List Token} {openParen closeParen : Token}
      (function : Derives (.call callee) before) (opened : openParen.kind = .leftParen)
      (closed : closeParen.kind = .rightParen) :
      Derives (.call (.call callee closeParen [])) (before ++ [openParen, closeParen])
  | fullCall {callee : Expr} {arguments : List Expr} {before inside : List Token}
      {openParen closeParen : Token} (function : Derives (.call callee) before)
      (opened : openParen.kind = .leftParen) (passed : Derives (.arguments arguments) inside)
      (closed : closeParen.kind = .rightParen) :
      Derives (.call (.call callee closeParen arguments))
        (before ++ openParen :: (inside ++ [closeParen]))
  | lastArgument {tree : Expr} {tokens : List Token} (whole : Derives (.expression tree) tokens) :
      Derives (.arguments [tree]) tokens
  | argument {tree : Expr} {trees : List Expr} {before behind : List Token} {comma : Token}
      (first : Derives (.expression tree) before) (sign : comma.kind = .comma)
      (others : Derives (.arguments trees) behind) :
      Derives (.arguments (tree :: trees)) (before ++ comma :: behind)
  | constant {token : Token} {value : Literal} (denoted : Constant token value) :
      Derives (.primary (.literal value token.line token.span)) [token]
  | reference {name : Token} (word : name.kind = .identifier) :
      Derives (.primary (.reference name)) [name]
  | grouping {inner : Expr} {inside : List Token} {openParen closeParen : Token}
      (opened : openParen.kind = .leftParen) (enclosed : Derives (.expression inner) inside)
      (closed : closeParen.kind = .rightParen) :
      Derives (.primary (.grouping inner (openParen.span.hull closeParen.span)))
        (openParen :: (inside ++ [closeParen]))

inductive Optional : Option Expr → List Token → Prop where
  | absent : Optional none []
  | present {tree : Expr} {tokens : List Token} (whole : Derives (.expression tree) tokens) :
      Optional (some tree) tokens

inductive VariableDeclaration : Stmt → List Token → Prop where
  | bare {keyword name semicolon : Token} (word : keyword.kind = .varWord)
      (named : name.kind = .identifier) (ended : semicolon.kind = .semicolon) :
      VariableDeclaration (.declare name none) [keyword, name, semicolon]
  | initialized {keyword name equals semicolon : Token} {value : Expr} {inside : List Token}
      (word : keyword.kind = .varWord) (named : name.kind = .identifier)
      (sign : equals.kind = .equal) (initial : Derives (.expression value) inside)
      (ended : semicolon.kind = .semicolon) :
      VariableDeclaration (.declare name (some value))
        (keyword :: name :: equals :: (inside ++ [semicolon]))

inductive ExpressionStatement : Stmt → List Token → Prop where
  | intro {value : Expr} {tokens : List Token} {semicolon : Token}
      (whole : Derives (.expression value) tokens) (ended : semicolon.kind = .semicolon) :
      ExpressionStatement (.expression value) (tokens ++ [semicolon])

inductive Initial : Option Stmt → List Token → Prop where
  | absent {semicolon : Token} (ended : semicolon.kind = .semicolon) : Initial none [semicolon]
  | declared {tree : Stmt} {tokens : List Token} (whole : VariableDeclaration tree tokens) :
      Initial (some tree) tokens
  | expression {tree : Stmt} {tokens : List Token} (whole : ExpressionStatement tree tokens) :
      Initial (some tree) tokens

inductive Names : List Token → List Token → Prop where
  | last {name : Token} (word : name.kind = .identifier) : Names [name] [name]
  | more {name comma : Token} {names rest : List Token} (word : name.kind = .identifier)
      (sign : comma.kind = .comma) (others : Names names rest) :
      Names (name :: names) (name :: comma :: rest)

inductive Parameters : List Token → List Token → Prop where
  | none : Parameters [] []
  | some {names tokens : List Token} (whole : Names names tokens) : Parameters names tokens

def stepped (body : Stmt) : Option Expr → Stmt
  | none => body
  | some increment =>
      .block [body, .expression increment] (body.location.hull increment.location)

/-- The condition of a loop; without one it is `true`, at the place of the keyword. -/
def guard (keyword : Token) : Option Expr → Expr
  | none => .literal (.boolean true) keyword.line keyword.span
  | some condition => condition

/-- What a `for` stands for: `{ initial; while (condition) { body; increment; } }`, where the blocks
are left out that a missing clause does not need. -/
def whileForm (keyword : Token) (initial : Option Stmt) (condition increment : Option Expr)
    (body : Stmt) : Stmt :=
  let loop := .loop keyword (guard keyword condition) (stepped body increment)
  match initial with
  | none => loop
  | some first => .block [first, loop] (keyword.span.hull (stepped body increment).location)

inductive Sentence where
  | statement (waiting : Bool) (tree : Stmt)
  | declaration (tree : Stmt)
  | declarations (trees : List Stmt)

inductive Forms : Sentence → List Token → Prop where
  | expression {tree : Stmt} {tokens : List Token} (whole : ExpressionStatement tree tokens) :
      Forms (.statement false tree) tokens
  | print {keyword semicolon : Token} {value : Expr} {inside : List Token}
      (word : keyword.kind = .printWord) (shown : Derives (.expression value) inside)
      (ended : semicolon.kind = .semicolon) :
      Forms (.statement false (.print keyword value)) (keyword :: (inside ++ [semicolon]))
  | returnValue {keyword semicolon : Token} {value : Option Expr} {inside : List Token}
      (word : keyword.kind = .returnWord) (result : Optional value inside)
      (ended : semicolon.kind = .semicolon) :
      Forms (.statement false (.returnValue keyword value)) (keyword :: (inside ++ [semicolon]))
  | breakLoop {keyword semicolon : Token} (word : keyword.kind = .breakWord)
      (ended : semicolon.kind = .semicolon) :
      Forms (.statement false (.breakLoop keyword)) [keyword, semicolon]
  | block {openBrace closeBrace : Token} {body : List Stmt} {inside : List Token}
      (opened : openBrace.kind = .leftBrace) (enclosed : Forms (.declarations body) inside)
      (closed : closeBrace.kind = .rightBrace) :
      Forms (.statement false (.block body (openBrace.span.hull closeBrace.span)))
        (openBrace :: (inside ++ [closeBrace]))
  | function {keyword name openParen closeParen openBrace closeBrace : Token}
      {parameters : List Token} {body : List Stmt} {listed inside : List Token}
      (word : keyword.kind = .funWord) (named : name.kind = .identifier)
      (opened : openParen.kind = .leftParen) (head : Parameters parameters listed)
      (closed : closeParen.kind = .rightParen) (begun : openBrace.kind = .leftBrace)
      (enclosed : Forms (.declarations body) inside) (ended : closeBrace.kind = .rightBrace) :
      Forms (.statement false (.function name parameters body))
        (keyword :: name :: openParen ::
          (listed ++ closeParen :: openBrace :: (inside ++ [closeBrace])))
  | ifThen {keyword openParen closeParen : Token} {condition : Expr} {waiting : Bool}
      {consequent : Stmt} {asked then_ : List Token} (word : keyword.kind = .ifWord)
      (opened : openParen.kind = .leftParen) (test : Derives (.expression condition) asked)
      (closed : closeParen.kind = .rightParen)
      (first : Forms (.statement waiting consequent) then_) :
      Forms (.statement true (.ifThen keyword condition consequent))
        (keyword :: openParen :: (asked ++ closeParen :: then_))
  | ifElse {keyword openParen closeParen elseWord : Token} {condition : Expr} {waiting : Bool}
      {consequent alternative : Stmt} {asked then_ else_ : List Token}
      (word : keyword.kind = .ifWord) (opened : openParen.kind = .leftParen)
      (test : Derives (.expression condition) asked) (closed : closeParen.kind = .rightParen)
      (first : Forms (.statement false consequent) then_) (divided : elseWord.kind = .elseWord)
      (second : Forms (.statement waiting alternative) else_) :
      Forms (.statement waiting (.ifElse keyword condition consequent alternative))
        (keyword :: openParen :: (asked ++ closeParen :: (then_ ++ elseWord :: else_)))
  | whileLoop {keyword openParen closeParen : Token} {condition : Expr} {waiting : Bool}
      {body : Stmt} {asked repeated : List Token} (word : keyword.kind = .whileWord)
      (opened : openParen.kind = .leftParen) (test : Derives (.expression condition) asked)
      (closed : closeParen.kind = .rightParen)
      (inner : Forms (.statement waiting body) repeated) :
      Forms (.statement waiting (.loop keyword condition body))
        (keyword :: openParen :: (asked ++ closeParen :: repeated))
  | forLoop {keyword openParen semicolon closeParen : Token} {initial : Option Stmt}
      {condition increment : Option Expr} {waiting : Bool} {body : Stmt}
      {begun asked advanced repeated : List Token} (word : keyword.kind = .forWord)
      (opened : openParen.kind = .leftParen) (start : Initial initial begun)
      (test : Optional condition asked) (divided : semicolon.kind = .semicolon)
      (step : Optional increment advanced) (closed : closeParen.kind = .rightParen)
      (inner : Forms (.statement waiting body) repeated) :
      Forms (.statement waiting (whileForm keyword initial condition increment body))
        (keyword :: openParen ::
          (begun ++ (asked ++ semicolon :: (advanced ++ closeParen :: repeated))))
  | declared {tree : Stmt} {tokens : List Token} (whole : VariableDeclaration tree tokens) :
      Forms (.declaration tree) tokens
  | statement {waiting : Bool} {tree : Stmt} {tokens : List Token}
      (whole : Forms (.statement waiting tree) tokens) : Forms (.declaration tree) tokens
  | none : Forms (.declarations []) []
  | more {tree : Stmt} {trees : List Stmt} {before behind : List Token}
      (first : Forms (.declaration tree) before) (others : Forms (.declarations trees) behind) :
      Forms (.declarations (tree :: trees)) (before ++ behind)

/-- `declaration* end`: the tokens of a whole text, the closing one included, form a program. -/
inductive Program : List Token → Treewalk.Program → Prop where
  | intro {trees : List Stmt} {tokens : List Token} {closing : Token}
      (whole : Forms (.declarations trees) tokens) (ended : closing.kind = .endOfInput) :
      Program (tokens ++ [closing]) trees

end Treewalk.Grammar
