import SymbolicVM.Shell.Directory
import SymbolicVM.Text.Numeral

/-!
# Programs for scripts

What the small programs that scripts call do with bytes and words, apart from reading and writing
streams.
-/

namespace SymbolicVM.Shell

/-! ### Escapes -/

/-- The byte that a letter after a backslash stands for. -/
def escapeByte? : Char → Option UInt8
  | 'a' => some 7
  | 'b' => some 8
  | 'f' => some 12
  | 'n' => some 10
  | 'r' => some 13
  | 't' => some 9
  | 'v' => some 11
  | '\\' => some 92
  | _ => none

/-- Whether a character is an octal digit. -/
def isOctal (c : Char) : Bool :=
  '0' ≤ c && c ≤ '7'

/-- The byte of an octal numeral of at most `width` digits, and what follows it. -/
def octal (width : Nat) (cs : List Char) : UInt8 × List Char :=
  let digits := (cs.take width).takeWhile isOctal
  (Nat.toUInt8 (digits.foldl (fun n c => 8 * n + (c.toNat - '0'.toNat)) 0), cs.drop digits.length)

/-- The bytes of a character. -/
def charBytes (c : Char) : Bytes :=
  Bytes.ofText c.toString

/-- The text of `echo` with its escapes replaced, and whether it goes on after the text. -/
def echoText : Nat → List Char → Bytes × Bool
  | 0, _ => ([], true)
  | _ + 1, [] => ([], true)
  | _ + 1, '\\' :: 'c' :: _ => ([], false)
  | fuel + 1, '\\' :: '0' :: cs =>
    let (b, rest) := octal 3 cs
    let (more, goesOn) := echoText fuel rest
    (b :: more, goesOn)
  | fuel + 1, c :: cs =>
    let escape := if c == '\\' then cs.head?.bind escapeByte? else none
    match escape with
    | some b =>
      let (more, goesOn) := echoText fuel (cs.drop 1)
      (b :: more, goesOn)
    | none =>
      let (more, goesOn) := echoText fuel cs
      (charBytes c ++ more, goesOn)

/-- What `echo` writes. -/
def echo (replacesEscapes : Bool) (args : List String) : Bytes :=
  let (isBare, args) := match args with
    | "-n" :: rest => (true, rest)
    | _ => (false, args)
  let line := (String.intercalate " " args).toList
  let (bytes, goesOn) :=
    if replacesEscapes then echoText (line.length + 1) line
    else (Bytes.ofText (String.ofList line), true)
  bytes ++ (if goesOn && !isBare then [10] else [])

/-! ### `printf` -/

/-- A text with blanks or zeros in front, or blanks behind, to reach a width. -/
def pad (flags : List Char) (width : Nat) (s : String) : String :=
  let fill := width - s.length
  if flags.contains '-' then s ++ String.ofList (List.replicate fill ' ')
  else String.ofList (List.replicate fill (if flags.contains '0' then '0' else ' ')) ++ s

/-- The number of an argument. -/
def argumentNumber (s : String) : Int :=
  (Text.int? (Text.trimChars s.toList)).getD 0

/-- One pass over a format: the bytes, the arguments that are left, whether any was used, and the
directive that is none. -/
structure Formatted where
  bytes : Bytes
  arguments : List String
  usedAny : Bool
  fault : Option String := none

/-- The text of a directive for an argument. -/
def conversion? (letter : Char) (flags : List Char) (width : Nat) (arg : Option String) :
    Option Bytes :=
  let text := arg.getD ""
  let padded (s : String) : Bytes := Bytes.ofText (pad flags width s)
  match letter with
  | 's' => some (padded text)
  | 'd' => some (padded (toString (argumentNumber text)))
  | 'i' => some (padded (toString (argumentNumber text)))
  | 'u' => some (padded (toString (argumentNumber text)))
  | 'c' => some (padded (String.ofList (text.toList.take 1)))
  | 'x' => some (padded (String.ofList (Nat.toDigits 16 (argumentNumber text).toNat)))
  | 'o' => some (padded (String.ofList (Nat.toDigits 8 (argumentNumber text).toNat)))
  | 'b' => some (echoText (text.length + 1) text.toList).1
  | _ => none

/-- Goes through a format once. -/
def format : Nat → List Char → List String → Formatted
  | 0, _, args => ⟨[], args, false, none⟩
  | _ + 1, [], args => ⟨[], args, false, none⟩
  | fuel + 1, '%' :: '%' :: cs, args =>
    let r := format fuel cs args
    { r with bytes := 37 :: r.bytes }
  | fuel + 1, '%' :: cs, args =>
    let flags := cs.takeWhile fun c => c == '-' || c == '0' || c == '+' || c == ' ' || c == '#'
    let rest := cs.drop flags.length
    let width := rest.takeWhile Text.isDigit
    match rest.drop width.length with
    | letter :: after =>
      match conversion? letter flags (Text.digitsValue 0 width) args.head? with
      | some bytes =>
        let r := format fuel after (args.drop 1)
        { r with bytes := bytes ++ r.bytes, usedAny := true }
      | none => ⟨[], args, false, some (String.ofList ('%' :: flags ++ width ++ [letter]))⟩
    | [] => ⟨[], args, false, some (String.ofList ('%' :: cs))⟩
  | fuel + 1, '\\' :: c :: cs, args =>
    match escapeByte? c with
    | some b =>
      let r := format fuel cs args
      { r with bytes := b :: r.bytes }
    | none =>
      if isOctal c then
        let (b, rest) := octal 3 (c :: cs)
        let r := format fuel rest args
        { r with bytes := b :: r.bytes }
      else if c == '"' then
        let r := format fuel cs args
        { r with bytes := 34 :: r.bytes }
      else
        let r := format fuel cs args
        { r with bytes := 92 :: charBytes c ++ r.bytes }
  | fuel + 1, c :: cs, args =>
    let r := format fuel cs args
    { r with bytes := charBytes c ++ r.bytes }

/-- Repeats a format until all arguments are used. -/
def formatAll : Nat → List Char → List String → Bytes × Option String
  | 0, _, _ => ([], none)
  | fuel + 1, cs, args =>
    let r := format (cs.length + 1) cs args
    if r.fault.isSome || r.arguments.isEmpty || !r.usedAny then (r.bytes, r.fault)
    else
      let (more, fault) := formatAll fuel cs r.arguments
      (r.bytes ++ more, fault)

/-! ### Counting and cutting -/

/-- The number of line feeds. -/
def countLines (bytes : Bytes) : Nat :=
  bytes.countP fun b => b == 10

/-- The number of words. -/
def countWords (bytes : Bytes) : Nat :=
  (bytes.foldl
    (fun (state : Bool × Nat) b =>
      let isSpace : Bool := b == 32 || (9 ≤ b && b ≤ 13)
      if isSpace then (false, state.2) else (true, if state.1 then state.2 else state.2 + 1))
    (false, 0)).2

/-- The first lines of a stream, as many as are asked for, and the rest. -/
def takeLines : Nat → Bytes → Bytes → Bytes × Bytes
  | 0, acc, rest => (acc.reverse, rest)
  | _ + 1, acc, [] => (acc.reverse, [])
  | n + 1, acc, b :: rest => takeLines (if b == 10 then n else n + 1) (b :: acc) rest

/-! ### `tr` -/

/-- The bytes that a set of `tr` lists. -/
def setBytes : Nat → List Char → Bytes
  | 0, _ => []
  | _ + 1, [] => []
  | fuel + 1, '\\' :: c :: cs =>
    if isOctal c then
      let (b, rest) := octal 3 (c :: cs)
      b :: setBytes fuel rest
    else (escapeByte? c).getD (Nat.toUInt8 c.toNat) :: setBytes fuel cs
  | fuel + 1, a :: '-' :: b :: cs =>
    ((List.range (b.toNat + 1 - a.toNat)).map fun i => Nat.toUInt8 (a.toNat + i)) ++
      setBytes fuel cs
  | fuel + 1, c :: cs => charBytes c ++ setBytes fuel cs

/-- Replaces the bytes of one set by those of another; the last byte of a shorter one is repeated.
-/
def transliterate (source target : Bytes) (bytes : Bytes) : Bytes :=
  bytes.map fun b =>
    match source.idxOf? b with
    | some i => (target[i]?.or target.getLast?).getD b
    | none => b

/-! ### Tests -/

/-- Compares two numbers by the name of a test. -/
def compareNumbers? (op : String) (a b : Int) : Option Bool :=
  match op with
  | "-eq" => some (a == b)
  | "-ne" => some (a != b)
  | "-lt" => some (a < b)
  | "-le" => some (a ≤ b)
  | "-gt" => some (b < a)
  | "-ge" => some (b ≤ a)
  | _ => none

/-- The truth of a test of one operand. -/
def testOne (files : Directory) (op operand : String) : Bool :=
  match op with
  | "-n" => !operand.isEmpty
  | "-z" => operand.isEmpty
  | "!" => operand.isEmpty
  | "-s" => (files.read? operand).any fun bytes => !bytes.isEmpty
  | "-e" | "-f" | "-r" => (files.read? operand).isSome
  | _ => false

/-- The truth of a test of two operands, or the word that is no number or no test. -/
def testTwo (a op b : String) : Except String Bool :=
  match op with
  | "=" => .ok (a == b)
  | "!=" => .ok (a != b)
  | _ =>
    match Text.int? (Text.trimChars a.toList), Text.int? (Text.trimChars b.toList) with
    | none, _ => .error a
    | _, none => .error b
    | some a, some b =>
      match compareNumbers? op a b with
      | some r => .ok r
      | none => .error op

/-- The truth of a test, or the word that is no number or no test. -/
def test (files : Directory) (words : List String) : Except String Bool :=
  match words with
  | [] => .ok false
  | [s] => .ok !s.isEmpty
  | [op, s] => .ok (testOne files op s)
  | ["!", op, s] => if op == "=" || op == "!=" then testTwo "!" op s else .ok !testOne files op s
  | [a, op, b] => testTwo a op b
  | ["!", a, op, b] => (testTwo a op b).map fun r => !r
  | _ => .ok false

end SymbolicVM.Shell
