import SymbolicVM.Config.Node

/-!
# Scalars of TOML

Strings in their four notations, and the unquoted scalars: truth values, whole numbers,
floating-point numbers and dates. Numbers that are not whole, and dates, have no reading in a
configuration, but must be well formed.
-/

namespace SymbolicVM.Config.Toml

/-! ### Characters -/

/-- The blanks inside a line. -/
def isBlank (c : Char) : Bool :=
  c == ' ' || c == '\t'

/-- The characters that may stand in comments and strings as they are. -/
def isPrintable (c : Char) : Bool :=
  c == '\t' || (' ' ≤ c && c != '\x7f')

/-- The number of a hexadecimal numeral. -/
def hexadecimal? (cs : List Char) : Option Nat :=
  cs.foldlM
    (fun n c =>
      if '0' ≤ c && c ≤ '9' then some (16 * n + (c.toNat - '0'.toNat))
      else if 'a' ≤ c && c ≤ 'f' then some (16 * n + (c.toNat - 'a'.toNat + 10))
      else if 'A' ≤ c && c ≤ 'F' then some (16 * n + (c.toNat - 'A'.toNat + 10))
      else none)
    0

/-- The character with a hexadecimal numeral of a given width at the start of a text, and what
follows. -/
def numbered? (width : Nat) (cs : List Char) : Option (Char × List Char) :=
  if cs.length < width then none
  else
    (hexadecimal? (cs.take width)).bind fun n =>
      if h : n.isValidChar then some (Char.ofNatAux n h, cs.drop width) else none

/-- The character that an escape stands for, and what follows it. -/
def escaped? : List Char → Option (Char × List Char)
  | 'b' :: cs => some ('\x08', cs)
  | 't' :: cs => some ('\t', cs)
  | 'n' :: cs => some ('\n', cs)
  | 'f' :: cs => some ('\x0c', cs)
  | 'r' :: cs => some ('\r', cs)
  | 'e' :: cs => some ('\x1b', cs)
  | '"' :: cs => some ('"', cs)
  | '\\' :: cs => some ('\\', cs)
  | 'x' :: cs => numbered? 2 cs
  | 'u' :: cs => numbered? 4 cs
  | 'U' :: cs => numbered? 8 cs
  | _ => none

/-! ### Strings -/

/-- The rest of a string between double quotes. The characters read so far are reversed. -/
def basicString : Nat → List Char → List Char → Option (String × List Char)
  | 0, _, _ => none
  | _ + 1, acc, '"' :: cs => some (String.ofList acc.reverse, cs)
  | fuel + 1, acc, '\\' :: cs =>
    (escaped? cs).bind fun (c, rest) => basicString fuel (c :: acc) rest
  | fuel + 1, acc, c :: cs => if isPrintable c then basicString fuel (c :: acc) cs else none
  | _ + 1, _, [] => none

/-- The rest of a string between single quotes. -/
def literalString (acc : List Char) : List Char → Option (String × List Char)
  | [] => none
  | '\'' :: cs => some (String.ofList acc.reverse, cs)
  | c :: cs => if isPrintable c then literalString (c :: acc) cs else none

/-- A line feed, with or without a carriage return before it, and what follows. -/
def lineFeed? : List Char → Option (List Char)
  | '\n' :: cs => some cs
  | '\r' :: '\n' :: cs => some cs
  | _ => none

/-- Drops a line feed at the start. -/
def dropLineFeed (cs : List Char) : List Char :=
  (lineFeed? cs).getD cs

/-- Whether a character separates words or lines. -/
def isSpace (c : Char) : Bool :=
  isBlank c || c == '\n' || c == '\r'

/-- What follows three quotes that close a text. One or two more quotes belong to the text. -/
def closing? (quote : Char) (cs : List Char) : Option (List Char × List Char) :=
  let quotes := (cs.takeWhile fun c => c == quote).length
  if quotes < 3 then none
  else
    let extra := min (quotes - 3) 2
    some (List.replicate extra quote, cs.drop (3 + extra))

/-- The rest of a string between three double quotes. -/
def longBasicString : Nat → List Char → List Char → Option (String × List Char)
  | 0, _, _ => none
  | fuel + 1, acc, cs =>
    match closing? '"' cs with
    | some (extra, rest) => some (String.ofList (acc.reverse ++ extra), rest)
    | none =>
      match cs with
      | [] => none
      | '\\' :: rest =>
        match lineFeed? (rest.dropWhile isBlank) with
        | some after => longBasicString fuel acc (after.dropWhile isSpace)
        | none => (escaped? rest).bind fun (c, rest) => longBasicString fuel (c :: acc) rest
      | c :: rest =>
        match lineFeed? cs with
        | some after => longBasicString fuel ('\n' :: acc) after
        | none => if isPrintable c then longBasicString fuel (c :: acc) rest else none

/-- The rest of a string between three single quotes. -/
def longLiteralString : Nat → List Char → List Char → Option (String × List Char)
  | 0, _, _ => none
  | fuel + 1, acc, cs =>
    match closing? '\'' cs with
    | some (extra, rest) => some (String.ofList (acc.reverse ++ extra), rest)
    | none =>
      match cs with
      | [] => none
      | c :: rest =>
        match lineFeed? cs with
        | some after => longLiteralString fuel ('\n' :: acc) after
        | none => if isPrintable c then longLiteralString fuel (c :: acc) rest else none

/-- A string on one line, and what follows it. -/
def shortString? (cs : List Char) : Option (String × List Char) :=
  match cs with
  | '"' :: rest => basicString (rest.length + 1) [] rest
  | '\'' :: rest => literalString [] rest
  | _ => none

/-- A string in any notation, and what follows it. -/
def string? (cs : List Char) : Option (String × List Char) :=
  match cs with
  | '"' :: '"' :: '"' :: rest => longBasicString (rest.length + 1) [] (dropLineFeed rest)
  | '\'' :: '\'' :: '\'' :: rest => longLiteralString (rest.length + 1) [] (dropLineFeed rest)
  | _ => shortString? cs

/-! ### Numbers -/

/-- Digits of a class with single underscores between them; without the underscores. -/
def digits? (isDigit : Char → Bool) (cs : List Char) : Option (List Char) :=
  let groups := Text.splitWhere (fun c => c == '_') cs
  if groups.all fun g => !g.isEmpty && g.all isDigit then some groups.flatten else none

/-- The value of a digit in any base. -/
def digitValue (c : Char) : Nat :=
  if c ≤ '9' then c.toNat - '0'.toNat else c.toLower.toNat - 'a'.toNat + 10

/-- The number of a numeral in a base. -/
def numeral? (base : Nat) (isDigit : Char → Bool) (cs : List Char) : Option Int :=
  (digits? isDigit cs).map fun ds => ((ds.foldl (fun n c => base * n + digitValue c) 0 : Nat) : Int)

/-- A decimal numeral without superfluous zeros. -/
def decimal? (cs : List Char) : Option Int :=
  match cs with
  | '0' :: _ :: _ => none
  | _ => numeral? 10 Text.isDigit cs

/-- Whether a character is a hexadecimal digit. -/
def isHexDigit (c : Char) : Bool :=
  Text.isDigit c || ('a' ≤ c && c ≤ 'f') || ('A' ≤ c && c ≤ 'F')

/-- A whole number. -/
def int? (cs : List Char) : Option Int :=
  match cs with
  | '0' :: 'x' :: ds => numeral? 16 isHexDigit ds
  | '0' :: 'o' :: ds => numeral? 8 (fun c => '0' ≤ c && c ≤ '7') ds
  | '0' :: 'b' :: ds => numeral? 2 (fun c => c == '0' || c == '1') ds
  | '+' :: ds => decimal? ds
  | '-' :: ds => (decimal? ds).map fun i => -i
  | _ => decimal? cs

/-- Drops a sign. -/
def unsigned (cs : List Char) : List Char :=
  match cs with
  | '+' :: rest => rest
  | '-' :: rest => rest
  | _ => cs

/-- Whether a text is a floating-point number. -/
def isFloat (cs : List Char) : Bool :=
  let body := unsigned cs
  let isDigits (ds : List Char) : Bool := (digits? Text.isDigit ds).isSome
  if body = "inf".toList ∨ body = "nan".toList then true
  else
    let mantissa := body.takeWhile fun c => c != 'e' && c != 'E'
    let exponent := (body.drop mantissa.length).drop 1
    let hasExponent : Bool := mantissa.length < body.length
    let mantissaFits := match Text.splitOnce '.' mantissa with
      | some (whole, fraction) => (decimal? whole).isSome && isDigits fraction
      | none => hasExponent && (decimal? mantissa).isSome
    mantissaFits && (!hasExponent || isDigits (unsigned exponent))

/-! ### Dates -/

/-- The number of exactly `width` digits. -/
def fixed? (width : Nat) (cs : List Char) : Option Nat :=
  if cs.length = width then Text.digits? cs else none

/-- The number of days of a month. -/
def daysOf (year month : Nat) : Nat :=
  if month = 2 then
    if (year % 4 = 0 ∧ year % 100 ≠ 0) ∨ year % 400 = 0 then 29 else 28
  else if month = 4 ∨ month = 6 ∨ month = 9 ∨ month = 11 then 30
  else 31

/-- Whether a text is a date. -/
def isDate (cs : List Char) : Bool :=
  match (Text.splitWhere (fun c => c == '-') cs) with
  | [y, m, d] =>
    match fixed? 4 y, fixed? 2 m, fixed? 2 d with
    | some y, some m, some d => 1 ≤ m && m ≤ 12 && 1 ≤ d && d ≤ daysOf y m
    | _, _, _ => false
  | _ => false

/-- Whether a text is a time of a day. Seconds may be left out. -/
def isTime (cs : List Char) : Bool :=
  let clock (h m : List Char) : Bool :=
    (fixed? 2 h).any (fun h => h ≤ 23) && (fixed? 2 m).any (fun m => m ≤ 59)
  match (Text.splitWhere (fun c => c == ':') cs) with
  | [h, m] => clock h m
  | [h, m, s] =>
    let secondsFit := match Text.splitOnce '.' s with
      | some (whole, fraction) =>
        (fixed? 2 whole).any (fun s => s ≤ 60) && (Text.digits? fraction).isSome
      | none => (fixed? 2 s).any (fun s => s ≤ 60)
    clock h m && secondsFit
  | _ => false

/-- Whether a text is a time of a day with its distance from universal time, or without. -/
def isZonedTime (cs : List Char) : Bool :=
  match cs.getLast? with
  | some 'Z' => isTime cs.dropLast
  | some 'z' => isTime cs.dropLast
  | _ =>
    let clock := cs.takeWhile fun c => c != '+' && c != '-'
    match cs.drop clock.length with
    | [] => isTime cs
    | _ :: offset => isTime clock && offset.length == 5 && isTime offset

/-- Whether a text is a date, a time, or both. -/
def isDateTime (cs : List Char) : Bool :=
  let day := cs.take 10
  match cs.drop 10 with
  | [] => isDate cs || isTime cs
  | mark :: clock =>
    if mark == 'T' || mark == 't' || mark == ' ' then isDate day && isZonedTime clock
    else isTime cs

/-! ### Unquoted scalars -/

/-- Whether a character may stand in an unquoted scalar. -/
def isAtomChar (c : Char) : Bool :=
  c.isAlphanum || c == '_' || c == '+' || c == '-' || c == '.' || c == ':'

/-- The characters of an unquoted scalar, and what follows them. A blank may stand between a date
and a time. -/
def atom (cs : List Char) : List Char × List Char :=
  let run := cs.takeWhile isAtomChar
  let rest := cs.drop run.length
  match rest with
  | ' ' :: d :: _ =>
    if isDate run && Text.isDigit d then
      let clock := (rest.drop 1).takeWhile isAtomChar
      (run ++ ' ' :: clock, rest.drop (1 + clock.length))
    else (run, rest)
  | _ => (run, rest)

/-- The scalar of an unquoted text. -/
def atomScalar? (cs : List Char) : Option Scalar :=
  if cs = "true".toList then some (.ofBool true)
  else if cs = "false".toList then some (.ofBool false)
  else
    match int? cs with
    | some i => some (.ofInt i)
    | none => if isFloat cs || isDateTime cs then some {} else none

end SymbolicVM.Config.Toml
