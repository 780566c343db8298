import OpenApi.Report
import OpenApi.Text.Pieces
/-! # The command line

A command line has flags for the whole program, the word `inspect`, the topic and then the arguments
of that topic, between which options may stand. Two dashes end the options.
-/
namespace OpenApi

inductive Flag where
  | version
  | json
  | plain
  | noColor
  | quiet
  | verbose
  deriving DecidableEq, Repr

inductive Topic where
  | operations
  | models
  | schema (model : String)
  deriving DecidableEq, Repr

/-- An inspection of a source. Tags replace those of the project, if there are any. -/
structure Inspection where
  topic : Topic
  source : String
  wanted : List String
  unwanted : List String
  deriving DecidableEq, Repr

inductive Command where
  | version
  | inspect (flags : List Flag) (inspection : Inspection)
  deriving DecidableEq, Repr

namespace Flag

def ofLetter? : Char → Option Flag
  | 'q' => some quiet
  | 'v' => some verbose
  | _ => none

def ofWord? : String → Option Flag
  | "--version" => some version
  | "--json" => some json
  | "--plain" => some plain
  | "--no-color" => some noColor
  | "--quiet" => some quiet
  | "--verbose" => some verbose
  | _ => none

def ofArgument? (word : String) : Option (List Flag) :=
  match word.toList with
  | '-' :: '-' :: _ => (ofWord? word).map ([·])
  | '-' :: letters => letters.mapM ofLetter?
  | _ => none

/-- The preferences that flags state. JSON wins over plain text. -/
def reporter (flags : List Flag) : Reporter where
  format := if flags.contains json then .json else .plain
  quiet := flags.contains quiet
  verbose := flags.contains verbose

end Flag

/-- Whether a word is an option. A dash alone is none. -/
def isOption (word : String) : Bool := Text.startsWith word "-" && word != "-"

def splitFlags : List String → Option (List Flag × List String)
  | [] => some ([], [])
  | word :: rest =>
    if word = "--" then some ([], rest)
    else if isOption word then do
      let flags ← Flag.ofArgument? word
      let (more, words) ← splitFlags rest
      return (flags ++ more, words)
    else some ([], word :: rest)

inductive TagOption where
  | wanted
  | unwanted
  deriving DecidableEq, Repr

/-- The option that a word names, and the tag if it stands in the same word. -/
def TagOption.ofArgument? (word : String) : Option (TagOption × Option String) :=
  let named (option : TagOption) (tag : List Char) : TagOption × Option String :=
    (option, if tag.isEmpty then none else some (String.ofList tag))
  match word with
  | "--include" => some (wanted, none)
  | "--exclude" => some (unwanted, none)
  | _ =>
    if Text.startsWith word "--include=" then
      some (wanted, some (String.ofList (word.toList.drop 10)))
    else if Text.startsWith word "--exclude=" then
      some (unwanted, some (String.ofList (word.toList.drop 10)))
    else match word.toList with
      | '-' :: 'i' :: tag => some (named wanted tag)
      | '-' :: 'x' :: tag => some (named unwanted tag)
      | _ => none

/-- The words after a topic: arguments, and tags under the options that they are given for. -/
structure Words where
  arguments : List String
  tags : List (TagOption × String)

def Words.ofList? : List String → Option Words
  | [] => some ⟨[], []⟩
  | word :: rest =>
    if word = "--" then some ⟨rest, []⟩
    else if isOption word then
      match TagOption.ofArgument? word, rest with
      | some (option, some tag), rest =>
        (ofList? rest).map fun w => { w with tags := (option, tag) :: w.tags }
      | some (option, none), tag :: rest =>
        (ofList? rest).map fun w => { w with tags := (option, tag) :: w.tags }
      | _, _ => none
    else (ofList? rest).map fun w => { w with arguments := word :: w.arguments }

def Words.tagsOf (w : Words) (option : TagOption) : List String :=
  (w.tags.filter fun t => t.1 = option).map Prod.snd

def Inspection.ofWords? (words : List String) : Option Inspection :=
  match words with
  | "inspect" :: topic :: rest => do
    let w ← Words.ofList? rest
    match topic, w.arguments with
    | "operations", [source] => some ⟨.operations, source, w.tagsOf .wanted, w.tagsOf .unwanted⟩
    | "models", [source] => some ⟨.models, source, w.tagsOf .wanted, w.tagsOf .unwanted⟩
    | "schema", [source, model] => if w.tags.isEmpty then some ⟨.schema model, source, [], []⟩ else none
    | _, _ => none
  | _ => none

/-- The command of a command line, if it is one. The flag for the version makes the rest of it
unimportant. -/
def Command.ofWords? (words : List String) : Option Command := do
  let (flags, rest) ← splitFlags words
  if flags.contains .version then return .version
  return .inspect flags (← Inspection.ofWords? rest)

end OpenApi
