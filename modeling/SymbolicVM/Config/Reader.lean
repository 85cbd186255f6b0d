import SymbolicVM.Config.JsonNode
import SymbolicVM.Config.Toml.Reader
import SymbolicVM.Config.Yaml.Reader

/-!
# Reading configurations

The extension of a file's name tells its format.
-/

namespace SymbolicVM

/-- The last part of a path that names something. -/
def fileName (path : String) : List Char :=
  let parts := (Text.splitWhere (fun c => c == '/') path.toList).filter fun part =>
    !part.isEmpty && part != ['.']
  (parts.getLast?.filter fun part => part != ['.', '.']).getD []

/-- The extension of a file's name: what follows the last dot, unless that is the first character.
-/
def fileExtension? (path : String) : Option String :=
  match Text.splitLast '.' (fileName path) with
  | some ([], _) => none
  | some (_, extension) => some (String.ofList extension)
  | none => none

/-- Reads a configuration in the format that the path of its file tells. -/
def RunConfig.parse (text path : String) : Except ConfigError RunConfig :=
  let read := match ((fileExtension? path).map Text.lower).getD "" with
    | "toml" => some Config.Toml.config?
    | "yaml" => some Config.Yaml.config?
    | "yml" => some Config.Yaml.config?
    | "json" => some Config.JsonNode.config?
    | _ => none
  match read with
  | none => .error (.unsupportedFormat path)
  | some read =>
    match read text with
    | some config => .ok config
    | none => .error (.invalid path)

end SymbolicVM
