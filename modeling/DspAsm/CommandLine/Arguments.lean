import DspAsm.CommandLine.Basic

namespace DspAsm.CommandLine

def usage : String :=
  "usage: compile INPUT [OUTPUT] [-q | --quiet]\n" ++
  "       decompile INPUT [OUTPUT] [--format text|json] [--config FILE] [--column-width N]\n" ++
  "                 [--no-auto-labels] [--label-prefix TEXT]\n"

/-- An argument `--name=value` as two arguments, and any other as it is. -/
def splitArgument (argument : String) : List String :=
  let name := argument.toList.takeWhile (· ≠ '=')
  match argument.toList.dropWhile (· ≠ '=') with
  | '=' :: value =>
    if name.take 2 = ['-', '-'] then [String.ofList name, String.ofList value] else [argument]
  | _ => [argument]

def isOption (argument : String) : Bool :=
  argument.toList.head? = some '-' && argument ≠ "-"

def paths? : List String → Option (String × Option String)
  | [input] => some (input, none)
  | [input, output] => some (input, some output)
  | _ => none

def compileArguments? (quiet : Bool) (paths : List String) : List String → Option CompileOptions
  | [] => do
    let (input, output) ← paths? paths
    return { input, output, quiet }
  | "-q" :: later => compileArguments? true paths later
  | "--quiet" :: later => compileArguments? true paths later
  | argument :: later =>
    if isOption argument then none else compileArguments? quiet (paths ++ [argument]) later

def number? (text : String) : Option Nat :=
  (Numeral.magnitude? 10 text.toList).filter (· < 0x10000000000000000)

def decompileArguments? (options : DecompileOptions) (paths : List String) :
    List String → Option DecompileOptions
  | [] => do
    let (input, output) ← paths? paths
    return { options with input, output }
  | "--no-auto-labels" :: later => decompileArguments? { options with noAutoLabels := true } paths later
  | "--format" :: "text" :: later => decompileArguments? { options with format := .text } paths later
  | "--format" :: "json" :: later => decompileArguments? { options with format := .json } paths later
  | "--config" :: path :: later => decompileArguments? { options with config := some path } paths later
  | "--label-prefix" :: stem :: later =>
    decompileArguments? { options with labelStem := some stem } paths later
  | "--column-width" :: text :: later =>
    match number? text with
    | some width => decompileArguments? { options with columnWidth := some width } paths later
    | none => none
  | argument :: later =>
    if isOption argument then none else decompileArguments? options (paths ++ [argument]) later

def Invocation.ofArguments? : List String → Option Invocation
  | "compile" :: arguments => (compileArguments? false [] (arguments.flatMap splitArgument)).map compile
  | "decompile" :: arguments =>
    (decompileArguments? { input := "" } [] (arguments.flatMap splitArgument)).map decompile
  | _ => none

def Invocation.inputs : Invocation → List String
  | compile options => [options.input]
  | decompile options => options.input :: options.config.toList

end DspAsm.CommandLine
