import SymbolicVM.Shell.Machine
import SymbolicVM.Shell.Tool

/-!
# Programs that scripts call

Each program reads its input and the files that its arguments name, writes its output, and ends with
a status.
-/

namespace SymbolicVM.Shell

/-- The message about a file that does not exist. -/
def noSuchFile (program path : String) : String :=
  program ++ ": " ++ path ++ ": No such file or directory\n"

/-- The sources that arguments name: the input when there are none or one is a dash. A missing file
is reported and gives status one. -/
def sources (s : Surroundings) (complaint : String → String) :
    List String → Act (List (String × Source) × Nat)
  | [] => return ([], 0)
  | path :: rest => do
    let source ← if path == "-" then pure (some s.stdin) else openFile? path
    let (more, status) ← sources s complaint rest
    match source with
    | some source => return ((path, source) :: more, status)
    | none =>
      writeText s.stderr (complaint path)
      return (more, 1)

/-- Writes the content of files, or of the input, one after another. -/
def cat (s : Surroundings) (args : List String) : Act Nat := do
  let paths := args.filter fun a => a == "-" || a.toList.head? != some '-'
  let (files, status) ← sources s (noSuchFile "cat") (if paths.isEmpty then ["-"] else paths)
  for (_, source) in files do
    write s.stdout (← readAll source)
  return status

/-- The counts of `wc` that its options ask for. -/
def counts (options : List Char) (bytes : Bytes) : List Nat :=
  let wanted (c : Char) : Bool := options.isEmpty || options.contains c
  (if wanted 'l' then [countLines bytes] else []) ++
    (if wanted 'w' then [countWords bytes] else []) ++
    (if wanted 'c' then [bytes.length] else [])

/-- A line of counts. Several counts of an input stand in columns. -/
def countLine (numbers : List Nat) (path : String) : String :=
  let columns := if numbers.length ≤ 1 then numbers.map toString
    else numbers.map fun n => pad [] 7 (toString n)
  String.intercalate " " columns ++ (if path == "-" then "" else " " ++ path) ++ "\n"

/-- Counts lines, words and bytes. -/
def wc (s : Surroundings) (args : List String) : Act Nat := do
  let (options, paths) := args.partition fun a => a.toList.head? == some '-' && a != "-"
  let letters := options.flatMap fun a => a.toList.drop 1
  let (files, status) ← sources s (noSuchFile "wc") (if paths.isEmpty then ["-"] else paths)
  for (path, source) in files do
    writeText s.stdout (countLine (counts letters (← readAll source)) path)
  return status

/-- How much of its input `head` writes, and the other arguments. -/
def headLimit : List String → (Bool × Nat) × List String
  | "-c" :: n :: rest => ((true, (argumentNumber n).toNat), rest)
  | "-n" :: n :: rest => ((false, (argumentNumber n).toNat), rest)
  | a :: rest =>
    match a.toList with
    | '-' :: 'c' :: n => ((true, (argumentNumber (String.ofList n)).toNat), rest)
    | '-' :: 'n' :: n => ((false, (argumentNumber (String.ofList n)).toNat), rest)
    | '-' :: n => if n.isEmpty then ((false, 10), a :: rest)
      else ((false, (argumentNumber (String.ofList n)).toNat), rest)
    | _ => ((false, 10), a :: rest)
  | [] => ((false, 10), [])

/-- Writes the first bytes or lines. -/
def head (s : Surroundings) (args : List String) : Act Nat := do
  let ((countsBytes, n), paths) := headLimit args
  let complaint (path : String) : String :=
    "head: cannot open '" ++ path ++ "' for reading: No such file or directory\n"
  let (files, status) ← sources s complaint (if paths.isEmpty then ["-"] else paths)
  for (_, source) in files do
    if countsBytes then write s.stdout (← readSome n source)
    else
      match source with
      | .input slot => write s.stdout (← takeInput slot fun bytes => takeLines n [] bytes)
      | .zeros => throw .timeout
  return status

/-- Replaces or removes bytes of its input. -/
def tr (s : Surroundings) (args : List String) : Act Nat := do
  let set (a : String) : Bytes := setBytes (a.length + 1) a.toList
  match args with
  | ["-d", a] =>
    let bytes ← readAll s.stdin
    write s.stdout (bytes.filter fun b => !(set a).contains b)
    return 0
  | [a, b] =>
    let bytes ← readAll s.stdin
    write s.stdout (transliterate (set a) (set b) bytes)
    return 0
  | _ =>
    writeText s.stderr "tr: missing operand\n"
    return 1

/-- The milliseconds of a time in seconds, minutes, hours or days. -/
def milliseconds? (s : String) : Option Nat := do
  let cs := s.toList
  let (number, unit) := match cs.getLast? with
    | some 's' => (cs.dropLast, 1)
    | some 'm' => (cs.dropLast, 60)
    | some 'h' => (cs.dropLast, 3600)
    | some 'd' => (cs.dropLast, 86400)
    | _ => (cs, 1)
  let (whole, fraction) := (Text.splitOnce '.' number).getD (number, [])
  let digits := whole ++ (fraction ++ ['0', '0', '0']).take 3
  let n ← Text.digits? digits
  if whole.isEmpty && fraction.isEmpty then none else some (n * unit)

/-- Waits. -/
def sleep (s : Surroundings) (args : List String) : Act Nat := do
  match args.mapM milliseconds? with
  | some times =>
    if args.isEmpty then
      writeText s.stderr "sleep: missing operand\n"
      return 1
    else
      passTime (times.foldl (· + ·) 0)
      return 0
  | none =>
    writeText s.stderr "sleep: invalid time interval\n"
    return 1

/-- Writes arguments in a format. -/
def printf (s : Surroundings) (complaint : String → String) (args : List String) : Act Nat := do
  match args with
  | [] =>
    writeText s.stderr (complaint "usage: printf format [arg ...]")
    return 2
  | fmt :: args =>
    let (bytes, fault) := formatAll (args.length + 1) fmt.toList args
    write s.stdout bytes
    match fault with
    | some directive =>
      writeText s.stderr (complaint (directive ++ ": invalid directive"))
      return 1
    | none => return 0

/-- Tests a condition. -/
def testProgram (s : Surroundings) (complaint : String → String) (args : List String) :
    Act Nat := do
  match test (← get).files args with
  | .ok b => return if b then 0 else 1
  | .error word =>
    writeText s.stderr (complaint ("Illegal number: " ++ word))
    return 2

/-- The programs that there are outside of the shell. -/
def runTool? (s : Surroundings) (name : String) (args : List String) : Option (Act Nat) :=
  match name with
  | "true" => some (return 0)
  | "false" => some (return 1)
  | "cat" => some (cat s args)
  | "wc" => some (wc s args)
  | "head" => some (head s args)
  | "tr" => some (tr s args)
  | "sleep" => some (sleep s args)
  | "echo" => some (do write s.stdout (echo false args); return 0)
  | "printf" => some (printf s (fun m => "printf: " ++ m ++ "\n") args)
  | "test" => some (testProgram s (fun m => "test: " ++ m ++ "\n") args)
  | "[" => some (testProgram s (fun m => "[: " ++ m ++ "\n") args.dropLast)
  | _ => none

end SymbolicVM.Shell
