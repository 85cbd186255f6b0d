import SymbolicVM.Decimal.Shortest

/-!
# Written floating-point numbers

The shortest decimal of a number, laid out positionally when the point falls near its digits and in
scientific form otherwise. A layout fixes how a positive exponent is written; values and documents
differ in nothing else.
-/

namespace SymbolicVM.Decimal

/-- How the exponent of the scientific form is written. -/
structure Layout where
  /-- What stands between the letter `e` and a positive exponent. -/
  positiveSign : String

/-- Numbers in texts for readers: no sign before a positive exponent. -/
def Layout.plain : Layout := ⟨""⟩

/-- Numbers in documents: a plus sign before a positive exponent. -/
def Layout.document : Layout := ⟨"+"⟩

/-- Lays out a positive decimal. With `n` digits and the point after the first `p` of them, the
positional form is taken for `-5 < p ≤ 16`; a number without fractional digits then ends in `.0`. -/
def Layout.positive (layout : Layout) (d : Digits) : String :=
  let ds := (toString d.digits).toList
  let n : Int := ds.length
  let p : Int := n + d.exponent
  let zeros (k : Int) : List Char := List.replicate k.toNat '0'
  if n ≤ p ∧ p ≤ 16 then String.ofList (ds ++ zeros (p - n) ++ ['.', '0'])
  else if 0 < p ∧ p ≤ 16 then String.ofList (ds.take p.toNat ++ '.' :: ds.drop p.toNat)
  else if -5 < p ∧ p ≤ 0 then String.ofList ('0' :: '.' :: zeros (-p) ++ ds)
  else
    let mantissa := match ds with
      | c :: d :: rest => c :: '.' :: d :: rest
      | _ => ds
    let e := p - 1
    let sign := if 0 < e then layout.positiveSign else ""
    String.ofList mantissa ++ "e" ++ sign ++ toString e

/-- The text of a finite number. Zero keeps its sign. -/
def Layout.finite (layout : Layout) (x : Float) : String :=
  let bits := x.toBits.toNat
  let sign := if bits >>> 63 = 1 then "-" else ""
  let magnitude := bits % (1 <<< 63)
  if magnitude = 0 then sign ++ "0.0"
  else sign ++ layout.positive (Binary.ofBits magnitude).shortest

/-- The text of any number as readers see it. -/
def render (x : Float) : String :=
  if x.isNaN then "nan"
  else if x.isInf then (if 0 < x then "inf" else "-inf")
  else Layout.plain.finite x

end SymbolicVM.Decimal
