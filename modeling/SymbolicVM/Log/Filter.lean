import SymbolicVM.Text.Numeral
import SymbolicVM.Text.WordChar

/-!
# Which log records are shown

A filter is a list of directives, each a threshold for the targets that begin with a given text. Of
the directives that concern a record the one with the longest target decides.
-/

namespace SymbolicVM.Log

/-- How important a record is, the most important kind first. -/
inductive Level where
  | error
  | warn
  | info
  | debug
  | trace
deriving DecidableEq, Inhabited

namespace Level

/-- All levels. -/
def all : List Level := [.error, .warn, .info, .debug, .trace]

/-- The name of a level. -/
def name : Level → String
  | .error => "error"
  | .warn => "warn"
  | .info => "info"
  | .debug => "debug"
  | .trace => "trace"

/-- The number of a level. -/
def rank : Level → Nat
  | .error => 1
  | .warn => 2
  | .info => 3
  | .debug => 4
  | .trace => 5

end Level

/-- The least important level that is shown, if any is. -/
abbrev Threshold := Option Level

/-- The threshold of a name or number. -/
def threshold? (s : String) : Option Threshold :=
  match Text.nat64? s.toList with
  | some 0 => some none
  | some n => (Level.all.find? fun l => l.rank == n).map some
  | none =>
    if Text.sameIgnoringCase s "off" then some none
    else (Level.all.find? fun l => Text.sameIgnoringCase s l.name).map some

/-- A part of a filter. -/
structure Directive where
  /-- The beginning of the targets that it concerns; without it, all of them. -/
  target : Option String := none
  threshold : Threshold := some .trace
  /-- It concerns only records inside of named spans, of which there are none. -/
  isSpanned : Bool := false
deriving DecidableEq

/-- A log record, as far as filters see it. -/
structure Event where
  target : String
  level : Level
deriving DecidableEq

namespace Directive

/-- The threshold after an equals sign; everything is shown if it is left out. -/
def thresholdAfter? (cs : List Char) : Option Threshold :=
  if cs.isEmpty then some (some .trace) else threshold? (String.ofList cs)

/-- Whether a directive may begin with a character. -/
def startsTarget (c : Char) : Bool :=
  Text.isWordChar c || c == '-' || c == ':'

/-- The directive with a span after a target. -/
def spanned? (target : List Char) (span : List Char) : Option Directive := do
  let (_, after) ← Text.splitOnce ']' span
  let threshold ← match after with
    | [] => some (some .trace)
    | '=' :: level => thresholdAfter? level
    | _ => none
  return { target := some (String.ofList target), threshold, isSpanned := true }

/-- Reads a directive: a level, a target, or a target with a level. -/
def parse? (text : List Char) : Option Directive :=
  match Text.trimChars text with
  | [] => none
  | first :: rest =>
    if first == '[' then spanned? [] rest
    else if !startsTarget first then none
    else
      let before := 1 + (rest.takeWhile fun c => c != '=' && c != '[').length
      match (first :: rest)[before]? with
      | some '=' =>
        (thresholdAfter? (text.drop (before + 1))).map fun threshold =>
          { target := some (String.ofList (text.take before)), threshold }
      | some _ => spanned? (text.take before) (text.drop (before + 1))
      | none =>
        let whole := String.ofList text
        match threshold? whole with
        | some threshold => some { threshold }
        | none => some { target := some whole }

/-- Whether a directive concerns a record. -/
def concerns (d : Directive) (e : Event) : Bool :=
  !d.isSpanned && (match d.target with
    | some target => Text.startsWith target e.target
    | none => true)

/-- The length of a directive's target. -/
def precision (d : Directive) : Nat :=
  match d.target with
  | some target => target.length + 1
  | none => 0

end Directive

/-- The directives of a filter. -/
abbrev Filter := List Directive

namespace Filter

/-- Reads a filter: directives between commas. Without any, only errors are shown. -/
def parse? (text : String) : Option Filter := do
  let pieces := (Text.splitWhere (fun c => c == ',') text.toList).filter fun p => !p.isEmpty
  let directives ← pieces.mapM Directive.parse?
  return if directives.isEmpty then [{ threshold := some .error }] else directives

/-- The directive that decides on a record: of those with the longest target the last. -/
def deciding? (f : Filter) (e : Event) : Option Directive :=
  (f.filter fun d => d.concerns e).foldl
    (fun best d =>
      match best with
      | some b => if d.precision < b.precision then some b else some d
      | none => some d)
    none

/-- Whether a filter shows a record. -/
def shows (f : Filter) (e : Event) : Bool :=
  match f.deciding? e with
  | some d => d.threshold.any fun l => e.level.rank ≤ l.rank
  | none => false

end Filter

/-! ### The setting of a user -/

/-- Whether a setting asks for log records at all. -/
def isEnabled (setting : String) : Bool :=
  let word := Text.trim setting
  !(word.isEmpty || ["0", "false", "off"].any fun no => Text.sameIgnoringCase word no)

/-- The filter that a setting gives, unless it only asks for log records. -/
def expression? (setting : String) : Option String :=
  let word := Text.trim setting
  if word.isEmpty || ["1", "true", "on"].any (fun yes => Text.sameIgnoringCase word yes) then none
  else some word

/-- The filter of users who do not give one that can be read. -/
def defaultFilter : Filter :=
  ["symir::run", "symir::oracle", "symir_core", "symir_cli"].map fun target =>
    { target := some target, threshold := some .info }

/-- The filter for a setting and a general filter of the surroundings; none when no records are
wanted. -/
def filterFor (setting general : Option String) : Option Filter :=
  match setting with
  | none => none
  | some setting =>
    if isEnabled setting then
      some ((((expression? setting).or general).bind Filter.parse?).getD defaultFilter)
    else none

end SymbolicVM.Log
