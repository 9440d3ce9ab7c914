import Playground.CommandLine.Command
import Playground.Pipeline.Configured
import Playground.Text.Newline
import Playground.Text.Path
import Playground.Text.Utf8.Message
/-!
# Running a command

What a command writes, logs and ends with, given the files that it can read and
what becomes of the compiler's process. Compiling is one pass of the pipeline:
it is started, waited for and halted.
-/

namespace Playground.CommandLine

/-- What a command works with. -/
structure Surroundings where
  settings : Settings
  /-- What the file at a tidied path holds, if there is one. -/
  file? : Text → Option Bytes
  /-- What becomes of the compiler's process. -/
  outcome : ProcessOutcome

/-- Something that a command does not expect. -/
inductive Mishap where
  | undecodable (bad : Utf8.Malformed)
  | badCommand (fault : ShellWords.Fault)
  | misconfigured (fault : ConfigurationFault)

/-- What a mishap reads like. -/
def Mishap.message : Mishap → Text
  | undecodable bad => bad.message
  | badCommand fault => fault.message
  | misconfigured fault => fault.message

/-- How a command ends. -/
inductive Ending where
  | exit (code : Nat)
  /-- The arguments are refused. -/
  | refused
  /-- Something unexpected ends it. -/
  | broken (mishap : Mishap)

/-- What a command has done. -/
structure Report where
  ending : Ending := .exit 0
  out : Text := []
  complaints : Text := []
  log : List LogRecord := []
  /-- The process that was started. -/
  started : Option StartedProcess := none

/-- A text as a line. -/
def line (t : Text) : Text :=
  t ++ text "\n"

/-- The end with code 1 and a complaint. -/
def Report.complain (complaint : Text) : Report :=
  { ending := .exit 1, complaints := line (text "Error: " ++ complaint) }

/-- The end with a mishap. -/
def Report.broken (mishap : Mishap) : Report :=
  { ending := .broken mishap }

/-- The session that a document and its options make. -/
def readSession (s : Surroundings) (document : Document) : Except Report Session :=
  let path := Path.tidy document.path
  match s.file? path with
  | none => .error (.complain (path ++ text " is not a file."))
  | some bytes =>
    match Utf8.decode bytes with
    | .error bad => .error (.broken (.undecodable bad))
    | .ok content =>
      .ok {
        source := content.withLineFeeds
        minify := document.minify
        strategy := document.strategy
        transpile := document.transpile
        view := document.view }

/-! ## Sessions and fragments -/

/-- Writes the fragment for a document. -/
def encode (s : Surroundings) (document : Document) : Report :=
  match readSession s document with
  | .error report => report
  | .ok session => { out := line (Fragment.encode Settings.fragmentLead session) }

/-- A session for people to read. -/
def showSession (session : Session) : Text :=
  Json.render .indented (.obj [
    (text "source_text", .str session.source),
    (text "minify_mode", .str session.minify.name),
    (text "entry_strategy", .str session.strategy.name),
    (text "transpile", .bool session.transpile),
    (text "view", .str session.view.name)])

/-- Writes the session of a fragment. -/
def decode (s : Surroundings) (fragment : Text) : Report :=
  match s.settings.newSession with
  | .error e => .broken (.misconfigured (.badView e))
  | .ok newSession =>
    { out := line (showSession (Fragment.decode Settings.fragmentLead newSession fragment)) }

/-! ## Compiling -/

/-- The words of the command that is given as one line, or else of the configured one. -/
def commandWords (s : Surroundings) (compiler : Option Text) : Except ShellWords.Fault (List Text) :=
  match compiler with
  | none | some [] => .ok s.settings.compilerCommand
  | some given => ShellWords.split given

/-- The pipeline after one pass over a session. -/
def passOnce (s : Surroundings) (command : List Text) (session : Session) :
    Except ConfigurationFault Pipeline := do
  let compiler := processCompiler command s.outcome
  let p ← Pipeline.configured s.settings (some compiler)
    (Fragment.encode Settings.fragmentLead session)
  let p := (p.run [.start]).1
  let p := (p.run [.wait]).1
  return (p.run [.stop]).1

/-- What is written for an artifact. -/
def showArtifact (path code : Text) : Text :=
  line (text "// ── " ++ path ++ text " ──") ++ line code

/-- What is written for the artifacts of the selected view. -/
def showDisplayed (p : Pipeline) : Text :=
  match p.displayed with
  | .inl chunks => chunks.flatMap fun c => showArtifact c.path c.code
  | .inr modules => modules.flatMap fun m => showArtifact m.path m.code

/-- What is written for a diagnostic: where its first highlight begins, if it has one, and its message. -/
def showDiagnostic (d : Diagnostic) : Text :=
  let place := match d.highlights with
    | [] => []
    | h :: _ =>
      Settings.inputPath ++ text ":" ++ Text.ofInt h.startLine ++ text ":" ++
        Text.ofInt h.startCol ++ text ": "
  line (place ++ text "error: " ++ d.message)

/-- Reports on a pipeline after its pass. -/
def reportOn (p : Pipeline) (started : Option StartedProcess) : Report :=
  if p.output.generation = 0 then
    { Report.complain (text "compilation failed (see log).") with log := p.log, started }
  else
    { ending := .exit (if p.output.diagnostics.isEmpty then 0 else 2)
      out := showDisplayed p
      complaints :=
        p.output.diagnostics.flatMap showDiagnostic ++
          line (text "\nFragment: " ++ p.fragment.current)
      log := p.log
      started }

/-- Compiles a document and writes what comes out. -/
def compile (s : Surroundings) (document : Document) (compiler : Option Text) : Report :=
  match readSession s document with
  | .error report => report
  | .ok session =>
    match commandWords s compiler with
    | .error fault => .broken (.badCommand fault)
    | .ok command =>
      if ProcessCall.available command s.outcome then
        match passOnce s command session with
        | .error fault => .broken (.misconfigured fault)
        | .ok p =>
          let options := p.calls.head?
          reportOn p (options.bind fun o => (ProcessCall.run command o s.outcome).started)
      else
        .complain (text "compiler command " ++ (Text.join (text " ") command).quoted ++
          text " not found. Set COMPILER_COMMAND in .env or pass --compiler.")

/-- Runs a command. -/
def Command.perform (s : Surroundings) : Command → Report
  | .encode document => CommandLine.encode s document
  | .decode fragment => CommandLine.decode s fragment
  | .compile document compiler => CommandLine.compile s document compiler

/-- Runs the command that the arguments give. -/
def perform (s : Surroundings) (arguments : List Text) : Report :=
  match Command.parse arguments with
  | .ok command => command.perform s
  | .error .help => {}
  | .error .refused => { ending := .refused }

end Playground.CommandLine
