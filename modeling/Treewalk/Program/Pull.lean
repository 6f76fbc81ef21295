import Treewalk.Program.Parser
import Treewalk.Token.Scanner

/-!
# Parsing while scanning

The parser takes its tokens from a scanner, and the scanner its characters from a file. Nothing is
read before it is asked for: taking a token makes the scanner go on to the next one, and the lexical
errors that it meets on the way are noted beside the syntax errors.
-/

namespace Treewalk

set_option autoImplicit false

/-- A parser in front of a scanner: the token that is looked at, the scanner behind it, the errors
of both kinds that have been met so far, and a bound for the rounds of the scanner. -/
structure Puller where
  current : Token
  scanner : Scanner
  lexical : List LexError
  recorded : List SyntaxError
  room : Nat

namespace Puller

/-- Goes on to the next token in at most `count` rounds, and notes the lexical errors in front of
it. -/
def pullUpTo : Nat → Puller → Puller
  | 0, puller => puller
  | count + 1, puller =>
      match puller.scanner.round count with
      | (.layout, after) => pullUpTo count { puller with scanner := after }
      | (.item (.token token), after) => { puller with current := token, scanner := after }
      | (.item (.error error), after) =>
          pullUpTo count { puller with scanner := after, lexical := puller.lexical ++ [error] }
      | (.finished closing, after) => { puller with current := closing, scanner := after }

def pull (puller : Puller) : Puller :=
  puller.pullUpTo puller.room

def isAtEnd (puller : Puller) : Bool :=
  puller.current.kind = .endOfInput

/-- Takes the token that is looked at. Behind the closing token nothing is pulled. -/
def advance (puller : Puller) : Puller :=
  if puller.isAtEnd then puller else puller.pull

def record (error : SyntaxError) (puller : Puller) : Puller :=
  { puller with recorded := puller.recorded ++ [error] }

def start (feed : Feed) : Puller :=
  pull ⟨⟨.endOfInput, "", none, 1, ⟨0, 0⟩⟩, Scanner.start feed, [], [], feed.pulls.length + 1⟩

instance : Supply Puller where
  current := current
  isAtEnd := isAtEnd
  advance := advance
  record := record
  room := room

end Puller

/-- Lexical and syntax errors in the order of their starts; at the same start, the lexical one comes
first. -/
def ParseError.merge (lexical : List LexError) (grammar : List SyntaxError) : List ParseError :=
  (lexical.map ParseError.lexical ++ grammar.map ParseError.grammar).mergeSort
    fun left right => left.span.start ≤ right.span.start

/-- What a parser that has come to its end makes of the program that it has read. -/
def Puller.conclude (program : Program) (puller : Puller) : Except (List ParseError) Program :=
  match ParseError.merge puller.lexical puller.recorded with
  | [] => .ok program
  | errors => .error errors

/-- Parses a file while it is read: the statements, or all errors of the front end, and the file as
far as it has been read. -/
def parseFeed (feed : Feed) : Except (List ParseError) Program × Feed :=
  match Parser.program (Puller.start feed) with
  | .done program after => (after.conclude program, after.scanner.feed)
  | .failed error after => ((after.record error).conclude [], after.scanner.feed)
  | .exhausted => (.error [], feed)

def parse (source : String) : Except (List ParseError) Program :=
  (parseFeed (Feed.ofText source.toList)).1

end Treewalk
