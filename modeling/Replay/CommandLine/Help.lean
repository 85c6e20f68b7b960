import Replay.CommandLine.Command
set_option autoImplicit false

namespace Replay.CommandLine

def programName : String := "snapguard"

def programAbout : String := "Validate and recover UI snapshots in recorded scripts"

namespace Help

def table (rows : List (String × String)) : String :=
  let width := rows.foldl (fun n row => max n row.1.length) 0
  String.join (rows.map fun (left, right) =>
    "  " ++ left ++ "".pushn ' ' (width + 2 - left.length) ++ right ++ "\n")

def label (o : Opt) : String :=
  let letter := match o.letter with
    | some c => "-" ++ String.singleton c ++ ", "
    | none => "    "
  letter ++ "--" ++ o.name ++ (if o.arity = .flag then "" else " <" ++ o.valueName ++ ">")

def explanation (vars : Config.Variables) (o : Opt) : String :=
  match o.substitute with
  | some key => o.about ++ " [env: " ++ key ++ "=" ++ (vars key).getD "" ++ "]"
  | none => o.about

/-- Options with equal places in their lists are sorted by this key: by letter, else by name. -/
def sortKey (o : Opt) : String :=
  match o.letter with
  | some c => String.singleton c ++ "0"
  | none => o.name

def merged (shared own : List Opt) : List Opt :=
  let before (a b : Opt × Nat) : Bool := a.2 < b.2 || (a.2 == b.2 && sortKey a.1 ≤ sortKey b.1)
  ((shared.zipIdx ++ own.zipIdx).mergeSort before).map Prod.fst

def helpOption : Opt := { flag "help" "Print help" with letter := some 'h' }

def versionOption : Opt := { flag "version" "Print version" with letter := some 'V' }

def optionTable (vars : Config.Variables) (options : List Opt) : String :=
  "\nOptions:\n" ++ table (options.map fun o => (label o, explanation vars o))

def helpAbout : String := "Print this message or the help of the given subcommand(s)"

def requiredWords (c : CommandForm) : String :=
  String.join ((c.options.filter (·.required)).map fun o =>
    " --" ++ o.name ++ " <" ++ o.valueName ++ ">") ++
    (if c.operands = 0 then "" else " <SCRIPT>")

def ofCommand (g : Grammar) (vars : Config.Variables) (c : CommandForm) : String :=
  c.about ++ "\n\nUsage: " ++ programName ++ " " ++ c.name ++ " [OPTIONS]" ++ requiredWords c ++
    "\n" ++ (if c.operands = 0 then "" else "\nArguments:\n" ++ table [("<SCRIPT>", c.operandAbout)]) ++
    optionTable vars (merged g.shared c.options ++ [helpOption])

def usage : String := "Usage: " ++ programName ++ " [OPTIONS] <COMMAND>\n"

def ofProgram (g : Grammar) (vars : Config.Variables) : String :=
  programAbout ++ "\n\n" ++ usage ++ "\nCommands:\n" ++
    table (g.commands.map (fun c => (c.name, c.about)) ++ [("help", helpAbout)]) ++
    optionTable vars (g.shared ++ [helpOption, versionOption])

def ofHelp : String :=
  helpAbout ++ "\n\nUsage: " ++ programName ++ " help [COMMAND]...\n\nArguments:\n" ++
    table [("[COMMAND]...", "Print help for the subcommand(s)")]

end Help

def help (g : Grammar) (vars : Config.Variables) (topic : Option String) : String :=
  match topic with
  | none => Help.ofProgram g vars
  | some name =>
    match g.commands.find? (·.name == name) with
    | some c => Help.ofCommand g vars c
    | none => Help.ofHelp

end Replay.CommandLine
