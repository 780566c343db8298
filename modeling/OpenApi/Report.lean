import OpenApi.Fault
import OpenApi.Json.Writer
/-! # Reports

What the program says: data on its output and messages beside them, each of them ended by a line
feed. Data are plain lines with tabs or JSON with a member on each line. Of the messages, information
can be turned off, and details have to be turned on.
-/
namespace OpenApi

inductive ReportFormat where
  | plain
  | json
  deriving DecidableEq, Repr

def ReportFormat.name : ReportFormat → String
  | plain => "plain"
  | json => "json"

inductive MessageKind where
  | info
  | warning
  | error
  | detail
  deriving DecidableEq, Repr

def MessageKind.label : MessageKind → String
  | info => ""
  | warning => "Warning: "
  | error => "Error: "
  | detail => "[debug] "

structure Reporter where
  format : ReportFormat
  quiet : Bool
  verbose : Bool
  deriving DecidableEq, Repr

structure Report where
  output : String
  messages : String
  exitCode : Nat
  deriving DecidableEq, Repr

def line (s : String) : String := s ++ "\n"

def lines (ss : List String) : String := String.join (ss.map line)

namespace Reporter

def shows (r : Reporter) : MessageKind → Bool
  | .info => !r.quiet
  | .detail => r.verbose
  | _ => true

def message (r : Reporter) (kind : MessageKind) (text : String) : String :=
  if r.shows kind then line (kind.label ++ text) else ""

def plainLines : Value → List String
  | .dict es => es.map fun e => e.1.text ++ "\t" ++ e.2.text
  | .list items => items.map Value.text
  | v => [v.text]

def page (v : Value) : Except Fault String :=
  match Json.writePage v with
  | .ok text => .ok (line text)
  | .error e => .error (.unwritten e)

def value (r : Reporter) (v : Value) : Except Fault String :=
  match r.format with
  | .plain => .ok (lines (plainLines v))
  | .json => page v

/-- A row under its headers. Cells without a header are left out, and of those under one header the
last counts. -/
def record (headers row : List String) : Value :=
  .dict (Entries.ofList ((headers.zip row).map fun cell => (.str cell.1, .str cell.2)))

def table (r : Reporter) (headers : List String) (rows : List (List String)) :
    Except Fault String :=
  match r.format with
  | .plain => .ok (lines ((headers :: rows).map (joined "\t")))
  | .json => page (.list (rows.map (record headers)))

/-- A report of a fault. One that users are told of has its exit code, and any other is
unexpected. -/
def failure (r : Reporter) (f : Fault) : Report :=
  match f.family? with
  | some family => ⟨"", r.message .error f.message, family.exitCode⟩
  | none => ⟨"", r.message .error ("Unexpected error: " ++ f.message), 1⟩

def data (r : Reporter) (written : Except Fault String) : Report :=
  match written with
  | .ok output => ⟨output, "", 0⟩
  | .error f => r.failure f

end Reporter

def Report.after (r : Report) (messages : String) : Report :=
  { r with messages := messages ++ r.messages }

end OpenApi
