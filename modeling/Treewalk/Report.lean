import Treewalk.Report.Snippet

/-!
# Reports

A report is one problem as users see it: a headline, a snippet of the source if the problem has a
place in it, and a text. The line number is part of the headline, so that a report says something
without the snippet too. Snippets are written by a writer that is not part of this library: it is a
parameter, and there is one to run programs with, which writes without colours.
-/

namespace Treewalk

set_option autoImplicit false

inductive Severity where
  | warning
  | error
deriving DecidableEq, Inhabited

namespace Severity

def word : Severity → String
  | warning => "warning"
  | error => "error"

def colour : Severity → String
  | warning => "33"
  | error => "31"

end Severity

structure Document where
  path : String
  text : String
deriving DecidableEq, Inhabited

structure Place where
  document : Document
  main : Label
  others : List Label
deriving Inhabited

structure Report where
  severity : Severity
  title : String
  text : String
  line : Option Nat
  place : Option Place
deriving Inhabited

namespace Report

def headline (report : Report) : String :=
  match report.line with
  | some line => s!"[line {line}] " ++ report.title
  | none => report.title

def control (code : String) : String :=
  "\x1b[" ++ code ++ "m"

def titleLine (coloured : Bool) (report : Report) : String :=
  if coloured then
    control "0" ++ control "1" ++ control report.severity.colour ++ report.severity.word
      ++ control "0" ++ control "1" ++ ": " ++ report.headline ++ "\n" ++ control "0"
  else report.severity.word ++ ": " ++ report.headline ++ "\n"

end Report

/-- What a writer of snippets is asked to write: a headline and the place that it is about. -/
structure Drawing where
  severity : Severity
  headline : String
  place : Place
deriving Inhabited

class SnippetWriter where
  write (coloured : Bool) (drawing : Drawing) : String

def Drawing.plain (drawing : Drawing) : String :=
  let place := drawing.place
  let rows := Snippet.rows place.document.path place.document.text place.main place.others
  drawing.severity.word ++ ": " ++ drawing.headline ++ "\n"
    ++ String.join (rows.map (· ++ "\n")) ++ "\n"

instance : SnippetWriter :=
  ⟨fun _ drawing => drawing.plain⟩

namespace Report

variable [SnippetWriter]

/-- The whole report. The snippet is left out if the label does not fit the source. -/
def render (coloured : Bool) (report : Report) : String :=
  let head := match report.place with
    | some place =>
        if place.main.span.fits place.document.text then
          SnippetWriter.write coloured ⟨report.severity, report.headline, place⟩
        else report.titleLine coloured
    | none => report.titleLine coloured
  head ++ (if report.text.isEmpty then "" else report.text ++ "\n")

def block (coloured : Bool) (report : Report) : String :=
  report.render coloured ++ "\n"

end Report

end Treewalk
