import Treewalk.Program.Tree
import Treewalk.Text.Quoted

/-!
# Tree dumps

A dump shows every node of a program with the names of its fields, one field on a line and four
blanks for each level. Fields and their names are those of the tree listing that users read.
-/

namespace Treewalk

set_option autoImplicit false

/-- A value to be dumped: a word, or a named group of parts, which may be named themselves. -/
inductive Dump where
  | word (text : String)
  | tuple (name : String) (parts : List Dump)
  | record (name : String) (fields : List (String × Dump))
  | sequence (parts : List Dump)
deriving Inhabited

namespace Dump

def indent (depth : Nat) : String :=
  String.ofList (List.replicate (4 * depth) ' ')

mutual

/-- The dump at some depth; the first line is not indented, since it stands behind a field name. -/
def render (depth : Nat) : Dump → String
  | word text => text
  | tuple name parts => name ++ "(\n" ++ renderParts (depth + 1) parts ++ indent depth ++ ")"
  | record name fields =>
      name ++ " \x7b\n" ++ renderFields (depth + 1) fields ++ indent depth ++ "\x7d"
  | sequence [] => "[]"
  | sequence (first :: rest) =>
      "[\n" ++ renderParts (depth + 1) (first :: rest) ++ indent depth ++ "]"

def renderParts (depth : Nat) : List Dump → String
  | [] => ""
  | part :: rest => indent depth ++ render depth part ++ ",\n" ++ renderParts depth rest

def renderFields (depth : Nat) : List (String × Dump) → String
  | [] => ""
  | (name, part) :: rest =>
      indent depth ++ name ++ ": " ++ render depth part ++ ",\n" ++ renderFields depth rest

end

def natural (value : Nat) : Dump :=
  word (toString value)

def text (value : String) : Dump :=
  word (Text.quoted value)

def optional : Option Dump → Dump
  | some part => tuple "Some" [part]
  | none => word "None"

end Dump

def Span.dump (span : Span) : Dump :=
  .record "SrcSpan" [("start", .natural span.start), ("end", .natural span.stop)]

def Literal.dump : Literal → Dump
  | .nil => .word "Nil"
  | .boolean value => .tuple "Bool" [.word (if value then "true" else "false")]
  | .number value => .tuple "Number" [.word (Number.dumped value)]
  | .string value => .tuple "String" [.text value]

def Token.dump (token : Token) : Dump :=
  .record "Token"
    [("kind", .word token.kind.name), ("lexeme", .text token.lexeme),
      ("literal", .optional (token.literal.map Literal.dump)), ("line", .natural token.line),
      ("span", token.span.dump)]

namespace Expr

mutual

def dump : Expr → Dump
  | literal value line location =>
      .record "Literal"
        [("value", value.dump), ("line", .natural line), ("location", location.dump)]
  | grouping inner location =>
      .record "Grouping" [("expression", inner.dump), ("location", location.dump)]
  | unary operator operand =>
      .record "Unary" [("operator", operator.dump), ("right", operand.dump)]
  | binary left operator right =>
      .record "Binary"
        [("left", left.dump), ("operator", operator.dump), ("right", right.dump)]
  | logical left operator right =>
      .record "Logical"
        [("left", left.dump), ("operator", operator.dump), ("right", right.dump)]
  | reference name => .record "Variable" [("name", name.dump)]
  | assign name value => .record "Assign" [("name", name.dump), ("value", value.dump)]
  | call callee paren arguments =>
      .record "Call"
        [("callee", callee.dump), ("paren", paren.dump),
          ("arguments", .sequence (dumpArguments arguments))]

def dumpArguments : List Expr → List Dump
  | [] => []
  | argument :: rest => argument.dump :: dumpArguments rest

end

end Expr

namespace Stmt

mutual

def dump : Stmt → Dump
  | expression value => .record "Expression" [("expression", value.dump)]
  | print keyword value =>
      .record "Print" [("keyword", keyword.dump), ("expression", value.dump)]
  | declare name initial =>
      .record "Var"
        [("name", name.dump), ("initializer", .optional (initial.map Expr.dump))]
  | block body location =>
      .record "Block" [("statements", .sequence (dumpBody body)), ("location", location.dump)]
  | ifThen keyword condition consequent =>
      .record "If"
        [("keyword", keyword.dump), ("condition", condition.dump),
          ("then_branch", consequent.dump), ("else_branch", .optional none)]
  | ifElse keyword condition consequent alternative =>
      .record "If"
        [("keyword", keyword.dump), ("condition", condition.dump),
          ("then_branch", consequent.dump), ("else_branch", .optional (some alternative.dump))]
  | loop keyword condition body =>
      .record "While"
        [("keyword", keyword.dump), ("condition", condition.dump), ("body", body.dump)]
  | function name parameters body =>
      .tuple "Function"
        [.record "FunctionDecl"
          [("name", name.dump), ("params", .sequence (parameters.map Token.dump)),
            ("body", .sequence (dumpBody body))]]
  | returnValue keyword value =>
      .record "Return"
        [("keyword", keyword.dump), ("value", .optional (value.map Expr.dump))]
  | breakLoop keyword => .record "Break" [("keyword", keyword.dump)]

def dumpBody : List Stmt → List Dump
  | [] => []
  | first :: rest => first.dump :: dumpBody rest

end

end Stmt

def Program.dump (program : Program) : String :=
  (Dump.sequence (Stmt.dumpBody program)).render 0

end Treewalk
