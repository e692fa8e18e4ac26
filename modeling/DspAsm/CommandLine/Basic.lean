import DspAsm.Interchange.Program
import DspAsm.Json.Printer
import DspAsm.Listing
import DspAsm.Program.Image
import DspAsm.Program.Source

/-!
The command line: what each invocation reads, prints and writes.

`compile` assembles a source file and `decompile` disassembles an image. Both are functions from the contents of
the files to an outcome, so that what they do can be said without running them. Whoever runs them reads the
files and carries the outcome out.
-/

namespace DspAsm.CommandLine

inductive FileFault where
  | missing
  | notText
  | other (message : String)
  deriving DecidableEq

def FileFault.message : FileFault → String
  | missing => "No such file or directory (os error 2)"
  | notText => "stream did not contain valid UTF-8"
  | other message => message

structure Files where
  read : String → Except FileFault ByteArray
  /-- Why a file cannot be written, if it cannot. -/
  refusal : String → Option FileFault

def Files.readText (files : Files) (path : String) : Except FileFault String := do
  match String.fromUTF8? (← files.read path) with
  | some text => return text
  | none => throw .notText

inductive Format where
  | text
  | json
  deriving DecidableEq

structure CompileOptions where
  input : String
  output : Option String := none
  quiet : Bool := false

structure DecompileOptions where
  input : String
  output : Option String := none
  format : Format := .text
  config : Option String := none
  columnWidth : Option Nat := none
  noAutoLabels : Bool := false
  labelStem : Option String := none

inductive Invocation where
  | compile (options : CompileOptions)
  | decompile (options : DecompileOptions)

inductive Failure where
  | unreadableInput (path : String) (cause : FileFault)
  | unevenImage (path : String) (bytes : Nat)
  | unreadableConfig (path : String) (cause : FileFault)
  | malformedConfig (path : String)
  | assembling (path : String) (cause : Fault)
  | decoding (path : String) (cause : Fault)
  | writing (path : String) (cause : FileFault)

namespace Failure

def exitCode : Failure → UInt8
  | unreadableInput _ _ => 2
  | unevenImage _ _ => 3
  | _ => 1

/-- A fault as the command line tells it: a fault of a line is followed by what it was made from. -/
def traced : Fault → String
  | .line number tokens source => (Fault.line number tokens source).message ++ ": " ++ traced source
  | fault => fault.message

def message : Failure → String
  | unreadableInput path cause => "cannot read " ++ path ++ ": " ++ cause.message
  | unevenImage path bytes => s!"{path}: {bytes} bytes is not a multiple of 4"
  | unreadableConfig path cause => "reading config " ++ path ++ ": " ++ cause.message
  | malformedConfig path => "parsing config " ++ path
  | assembling path cause => "assembling " ++ path ++ ": " ++ traced cause
  | decoding path cause => "decoding " ++ path ++ ": " ++ traced cause
  | writing path cause => "writing " ++ path ++ ": " ++ cause.message

end Failure

structure Outcome where
  exitCode : UInt8 := 0
  stdout : String := ""
  stderr : String := ""
  written : Option (String × ByteArray) := none

def Outcome.ofFailure (failure : Failure) (stdout : String) : Outcome where
  exitCode := failure.exitCode
  stdout := stdout
  stderr := "error: " ++ failure.message ++ "\n"

def Outcome.writing (files : Files) (stdout path : String) (content : ByteArray) : Outcome :=
  match files.refusal path with
  | some cause => .ofFailure (.writing path cause) stdout
  | none => { stdout, written := some (path, content) }

def hexDump (words : List Word) : String :=
  String.join (words.map fun word => Numeral.hexWord word.toNat ++ "\n")

def loadSource (files : Files) (options : CompileOptions) : Except Failure Program := do
  let source ← (files.readText options.input).mapError (.unreadableInput options.input)
  (Program.assemble source).mapError (.assembling options.input)

def compile (files : Files) (options : CompileOptions) : Outcome :=
  match loadSource files options with
  | .error failure => .ofFailure failure ""
  | .ok program =>
    let stdout := if options.quiet then "" else hexDump program.words
    match options.output with
    | none => { stdout }
    | some path => .writing files stdout path ⟨program.toBytes.toArray⟩

def loadConfig (parse? : String → Option Layout) (files : Files) : Option String → Except Failure Layout
  | none => .ok {}
  | some path => do
    let text ← (files.readText path).mapError (.unreadableConfig path)
    match parse? text with
    | some layout => .ok layout
    | none => .error (.malformedConfig path)

def override (options : DecompileOptions) (layout : Layout) : Layout where
  columnWidth := options.columnWidth.getD layout.columnWidth
  autoLabels := layout.autoLabels && !options.noAutoLabels
  labelStem := options.labelStem.getD layout.labelStem

def loadImage (files : Files) (path : String) : Except Failure (List UInt8) := do
  let bytes ← (files.read path).mapError (.unreadableInput path)
  if bytes.size % 4 ≠ 0 then .error (.unevenImage path bytes.size) else .ok bytes.data.toList

def Format.render (layout : Layout) (program : Program) : Format → String
  | text => program.listing layout
  | json => program.image.pretty ++ "\n"

/-- The text that an image disassembles to. The configuration is looked at before the image. -/
def loadListing (parse? : String → Option Layout) (files : Files) (options : DecompileOptions) :
    Except Failure String := do
  let layout := override options (← loadConfig parse? files options.config)
  let bytes ← loadImage files options.input
  let program ← (Program.ofBytes layout bytes).mapError (.decoding options.input)
  return options.format.render layout program

def decompile (parse? : String → Option Layout) (files : Files) (options : DecompileOptions) : Outcome :=
  match loadListing parse? files options with
  | .error failure => .ofFailure failure ""
  | .ok text =>
    match options.output with
    | none => { stdout := text }
    | some path => .writing files "" path text.toUTF8

def run (parse? : String → Option Layout) (files : Files) : Invocation → Outcome
  | .compile options => compile files options
  | .decompile options => decompile parse? files options

end DspAsm.CommandLine
