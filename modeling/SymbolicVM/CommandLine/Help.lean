import SymbolicVM.Text.Split

/-!
# Help texts of the command line
-/

namespace SymbolicVM.CommandLine

/-- The name of the program and its version. -/
def versionText : String := "symir 0.1.0\n"

/-- Lines of text. -/
def textOfLines (lines : List String) : String :=
  String.join (lines.map fun line => line ++ "\n")

/-- The commands and what they do. -/
def commandLines : List String :=
  ["Usage: symir <COMMAND>",
    "",
    "Commands:",
    "  ir     Print the instruction listing",
    "  cfg    Print the control-flow graph",
    "  stats  Opcode histogram and block/function/class counts",
    "  run    Execute the program",
    "  help   Print this message or the help of the given subcommand(s)",
    "",
    "Options:"]

/-- The brief explanation of the command line. -/
def briefHelp : String :=
  textOfLines <|
    ["Oracle-assisted symbolic execution over a flattened IR", ""] ++ commandLines ++
    ["  -h, --help     Print help (see more with '--help')",
      "  -V, --version  Print version"]

/-- The full explanation of the command line. -/
def fullHelp : String :=
  textOfLines <|
    ["Loads a lowered program (a JSON instruction document, or a textual listing ending in .ir), builds its control-flow graph and steps it with the local engine, asking an oracle whenever an instruction cannot be decided mechanically.",
      "",
      "Set SYMIR_LOG=1 (or a filter expression) to log to stderr.",
      ""] ++ commandLines ++
    ["  -h, --help",
      "          Print help (see a summary with '-h')",
      "",
      "  -V, --version",
      "          Print version"]

/-- The explanation of a command. -/
def commandHelp : String → String
  | "ir" => textOfLines
    ["Print the instruction listing",
      "",
      "Usage: symir ir <FILE>",
      "",
      "Arguments:",
      "  <FILE>  Program file (.json or .ir)",
      "",
      "Options:",
      "  -h, --help  Print help"]
  | "cfg" => textOfLines
    ["Print the control-flow graph",
      "",
      "Usage: symir cfg [OPTIONS] <FILE>",
      "",
      "Arguments:",
      "  <FILE>  ",
      "",
      "Options:",
      "      --mermaid          Emit a Mermaid flowchart instead of the text listing",
      "      --function <NAME>  Only the graph of this function's body",
      "  -h, --help             Print help"]
  | "stats" => textOfLines
    ["Opcode histogram and block/function/class counts",
      "",
      "Usage: symir stats <FILE>",
      "",
      "Arguments:",
      "  <FILE>  ",
      "",
      "Options:",
      "  -h, --help  Print help"]
  | _ => textOfLines
    ["Execute the program",
      "",
      "Usage: symir run [OPTIONS] <FILE>",
      "",
      "Arguments:",
      "  <FILE>  ",
      "",
      "Options:",
      "      --entry <ENTRY>     Entry block label, or a fragment of one",
      "      --max-steps <N>     ",
      "      --oracle <BACKEND>  Oracle backend: symbolic, command or replay",
      "      --oracle-cmd <ARG>  Oracle program and its arguments, one flag per word (implies --oracle command)",
      "      --replay <PATH>     Recorded oracle responses, one JSON object per line (implies --oracle replay)",
      "      --config <PATH>     Run config (.toml, .yaml/.yml or .json); flags override it",
      "      --trace             Record per-step snapshots",
      "      --json              Print the outcome as JSON",
      "  -h, --help              Print help"]

/-- The text for those who ask for help. -/
def helpText (topic : Option String) (isBrief : Bool) : String :=
  match topic with
  | some command => commandHelp command
  | none => if isBrief then briefHelp else fullHelp

end SymbolicVM.CommandLine
