import Treewalk.Program.Complaint
import Treewalk.Check.Problem
import Treewalk.Evaluation
import Treewalk.Source.Decoding
import Treewalk.Report

/-!
# Failures

Why a source did not run to its end: it could not be read, parsed or checked, or it stopped with an
error. Every failure is shown as one report or several.
-/

namespace Treewalk

set_option autoImplicit false

inductive Failure where
  | parsing (errors : List ParseError)
  | checking (errors : List StaticError)
  | running (error : RuntimeError)
  | reading (fault : Fault)
deriving Inhabited

def Report.at (severity : Severity) (title text : String) (line : Nat) (document : Document)
    (main : Label) : Report :=
  ⟨severity, title, text, some line, some ⟨document, main, []⟩⟩

def ParseError.report (document : Document) (error : ParseError) : Report :=
  Report.at .error error.title ("\n".intercalate error.notes) error.line document
    ⟨error.span, some error.message⟩

def StaticError.report (document : Document) (error : StaticError) : Report :=
  Report.at .error ("Error: " ++ error.message) "" error.line document ⟨error.location, none⟩

def RuntimeError.report (document : Document) (error : RuntimeError) : Report :=
  Report.at .error ("Runtime error: " ++ error.cause.message) "" error.site.line document
    ⟨error.site.span, none⟩

def Warning.report (document : Document) (warning : Warning) : Report :=
  Report.at .warning warning.suspicion.title "" (warning.location.lineIn document.text) document
    ⟨warning.location, warning.suspicion.label⟩

def Fault.report (fault : Fault) : Report :=
  ⟨.error, "Standard IO error", fault.message, none, none⟩

namespace Failure

def message : Failure → String
  | parsing _ => "failed to parse source code"
  | checking _ => "static check failed"
  | running error => "runtime error: " ++ error.headline
  | reading _ => "IO operation failed"

def headlines : Failure → List String
  | parsing errors => errors.map ParseError.headline
  | checking errors => errors.map StaticError.headline
  | running error => [error.headline]
  | reading fault => ["Error: " ++ fault.message]

def reports (document : Document) : Failure → List Report
  | parsing errors => errors.map (ParseError.report document)
  | checking errors => errors.map (StaticError.report document)
  | running error => [error.report document]
  | reading fault => [fault.report]

def text [SnippetWriter] (coloured : Bool) (document : Document) (failure : Failure) : String :=
  String.join ((failure.reports document).map (Report.block coloured))

def exitCode : Failure → Nat
  | parsing _ => 65
  | checking _ => 65
  | running _ => 70
  | reading _ => 74

end Failure

end Treewalk
