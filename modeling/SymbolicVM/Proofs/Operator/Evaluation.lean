import SymbolicVM.Proofs.Operator.Words

/-!
# Operators and builtin functions in machine words

What a machine does on values for an operator or a builtin function: repetitions make room for their
result at once, a range is counted and its items are computed one by one, an extreme is sought among
the items after the first, quotes are cut off a literal. Each of them computes what its definition
on whole numbers says and never fails (`BinaryOp.evalInWords_eq`, `Builtin.valueInWords_eq`,
`Words.literal_eq`).
-/

namespace SymbolicVM

namespace Words

/-! ### Operators on values -/

/-- Goes on with the result of a checked operation, if there is one. -/
def whenSome {α β : Type} (x : Option α) (f : α → Except Overflow (Option β)) :
    Except Overflow (Option β) :=
  match x with
  | some a => f a
  | none => .ok none

theorem whenSome_eq {α β : Type} {x : Option α} {f : α → Except Overflow (Option β)}
    {g : α → Option β} (h : ∀ a, x = some a → f a = .ok (g a)) :
    whenSome x f = .ok (x.bind g) := by
  cases x with
  | none => rfl
  | some a => exact h a rfl

/-- An operation whose integers are computed in words; on other operands nothing plain happens. -/
def onInts (f : Int64 → Int64 → Except Overflow (Option Int64))
    (other : Value → Value → Option Value) (l r : Value) : Except Overflow (Option Value) :=
  match l.number?, r.number? with
  | some (.int a), some (.int b) => (f a b).map fun w => w.map .int
  | _, _ => .ok (other l r)

theorem onInts_eq {f : Int64 → Int64 → Except Overflow (Option Int64)}
    {other : Value → Value → Option Value} {l r : Value}
    (h : ∀ a b, l.number? = some (.int a) → r.number? = some (.int b) →
      ((f a b).map fun w => w.map Value.int) = .ok (other l r)) :
    onInts f other l r = .ok (other l r) := by
  unfold onInts
  split
  · rename_i a b hl hr
    exact h a b hl hr
  · rfl

theorem onInts_floorDiv_eq (l r : Value) :
    onInts floorDiv Value.floorDiv l r = .ok (Value.floorDiv l r) := by
  refine onInts_eq fun a b hl hr => ?_
  unfold Value.floorDiv
  rw [hl, hr, floorDiv_eq]
  dsimp only
  split_ifs
  · rfl
  · rfl

theorem onInts_mod_eq (l r : Value) : onInts mod Value.mod l r = .ok (Value.mod l r) := by
  refine onInts_eq fun a b hl hr => ?_
  unfold Value.mod
  rw [hl, hr, mod_eq]
  dsimp only
  split_ifs
  · rfl
  · cases Text.word? (a.toInt.fdiv b.toInt) with
    | none => rfl
    | some q => rfl

/-- A shift by at least zero and fewer than 64 places. -/
def shift (f : Int64 → Nat → Except Overflow (Option Int64)) (l r : Value) :
    Except Overflow (Option Value) :=
  match l.int?, r.int? with
  | some a, some b =>
    if 0 ≤ b.toInt ∧ b.toInt < 64 then (f a b.toInt.toNat).map fun w => w.map .int else .ok none
  | _, _ => .ok none

theorem shift_eq {f : Int64 → Nat → Except Overflow (Option Int64)} {g : Int → Nat → Int}
    (h : ∀ a n, n < 64 → f a n = .ok (Text.word? (g a.toInt n))) (l r : Value) :
    shift f l r = .ok (Value.shift g l r) := by
  unfold shift Value.shift
  cases l.int? with
  | none => rfl
  | some a =>
    cases r.int? with
    | none => rfl
    | some b =>
      dsimp only
      split_ifs with hplaces
      · rw [h a b.toInt.toNat (by omega)]
        rfl
      · rfl

/-! ### Repetitions -/

/-- How often to repeat something of size `unit`. The size of the result is taken as the greatest
length where it is beyond that. -/
def repeatCount? (count : Int64) (unit : Nat) : Option Nat :=
  let n := count.toInt.toNat
  if saturatingMul n unit ≤ Value.maxRepeatLength then some n else none

theorem repeatCount?_eq (count : Int64) (unit : Nat) :
    repeatCount? count unit = Value.repeatCount? count unit := by
  -- a product that is cut off is far beyond what a repetition may make
  have hsmall : Value.maxRepeatLength < UInt64.size - 1 := by decide
  unfold repeatCount? Value.repeatCount? saturatingMul
  dsimp only
  generalize count.toInt.toNat * unit = total
  split_ifs with hcut hfits hfits
  · rfl
  · omega
  · omega
  · rfl

/-- Repeats something of size `unit`. Room is made for the whole result at once, so its size must be
a length. -/
def repeated (count : Int64) (unit : Nat) (make : Nat → Value) : Except Overflow (Option Value) :=
  whenSome (repeatCount? count unit) fun n => do
    let _ ← mulLength unit n
    return some (make n)

theorem repeated_eq (count : Int64) (unit : Nat) (make : Nat → Value) :
    repeated count unit make = .ok ((Value.repeatCount? count unit).map make) := by
  unfold repeated
  rw [repeatCount?_eq, Option.map_eq_bind]
  refine whenSome_eq fun n hn => ?_
  have hfits : unit * n < UInt64.size := by
    have hsmall : Value.maxRepeatLength < UInt64.size := by decide
    unfold Value.repeatCount? at hn
    dsimp only at hn
    split_ifs at hn with hle
    obtain rfl := Option.some.inj hn
    rw [Nat.mul_comm]
    omega
  unfold mulLength
  rw [if_pos hfits]
  rfl

def repeatText (s : String) (count : Int64) : Except Overflow (Option Value) :=
  repeated count s.utf8ByteSize fun n => .str (String.ofList (Value.repeatList n s.toList))

def repeatItems (items : List Value) (count : Int64) : Except Overflow (Option Value) :=
  repeated count items.length fun n => .list (Value.repeatList n items)

/-- Product of numbers, or a text or list repeated. -/
def product (l r : Value) : Except Overflow (Option Value) :=
  match l, r with
  | .str s, .int n => repeatText s n
  | .int n, .str s => repeatText s n
  | .list items, .int n => repeatItems items n
  | .int n, .list items => repeatItems items n
  | _, _ => .ok (Value.arithmetic (· * ·) (· * ·) l r)

theorem product_eq (l r : Value) : product l r = .ok (Value.mul l r) := by
  unfold product
  split
  · exact repeated_eq _ _ _
  · exact repeated_eq _ _ _
  · exact repeated_eq _ _ _
  · exact repeated_eq _ _ _
  · rename_i htext htext' hitems hitems'
    rw [Value.mul.eq_5 l r htext htext' hitems hitems']

end Words

namespace Builtin

/-! ### How long a range is -/

/-- The number lies strictly before the stop in the direction of the step. -/
def Before (step stop number : Int) : Prop :=
  (0 < step ∧ number < stop) ∨ (step < 0 ∧ stop < number)

/-- Exactly the first `n` numbers from the start on lie before the stop. -/
def IsCount (start stop step : Int) (n : Nat) : Prop :=
  ∀ i : Nat, Before step stop (start + i * step) ↔ i < n

theorem lt_divCeil_iff {m n i : Nat} (hn : 0 < n) : i < (m + n - 1) / n ↔ i * n < m := by
  rw [Nat.lt_iff_add_one_le, Nat.le_div_iff_mul_le hn, Nat.add_mul, Nat.one_mul]
  omega

/-- Steps add up in their own direction. -/
theorem offset_direction (i : Nat) (step : Int) :
    (0 < step → 0 ≤ i * step) ∧ (step < 0 → i * step ≤ 0) := by
  constructor
  · intro hstep
    exact Int.mul_nonneg (Int.natCast_nonneg i) (by omega)
  · intro hstep
    exact Int.mul_nonpos_of_nonneg_of_nonpos (Int.natCast_nonneg i) (by omega)

/-- **The count is exact**: the number after `i` steps lies before the stop exactly if `i` is below
the count, which is a quotient of absolute values, rounded up. -/
theorem isCount_rangeLength (start stop : Int) {step : Int} (hstep : step ≠ 0) :
    IsCount start stop step (rangeLength (stop - start) step) := by
  intro i
  have hpos : 0 < step.natAbs := Int.natAbs_pos.mpr hstep
  have habs : (i * step).natAbs = i * step.natAbs := by
    rw [Int.natAbs_mul, Int.natAbs_natCast]
  have hdirection := offset_direction i step
  unfold Before rangeLength
  split_ifs with hway
  · -- the steps go towards the stop, so absolute values tell whether it is reached
    rw [lt_divCeil_iff hpos, ← habs]
    omega
  · omega

theorem IsCount.unique {start stop step : Int} {m n : Nat} (hm : IsCount start stop step m)
    (hn : IsCount start stop step n) : m = n := by
  have hle := (hn m).symm.trans (hm m)
  have hge := (hn n).symm.trans (hm n)
  omega

/-- What lies before the stop is computed in words: the steps stay between zero and the distance,
and their sum with the start between the start and the stop. -/
theorem Before.fits {start stop step : Int} {i : Nat} (hstart : Words.Fits start)
    (hstop : Words.Fits stop) (hspan : Words.Fits (stop - start))
    (h : Before step stop (start + i * step)) :
    Words.Fits (i * step) ∧ Words.Fits (start + i * step) := by
  have hdirection := offset_direction i step
  unfold Before at h
  unfold Words.Fits at *
  omega

end Builtin

namespace Words

/-! ### Ranges -/

/-- How many steps lead from zero to a span without passing it. -/
def rangeLength (span step : Int64) : Except Overflow Nat :=
  if span.toInt ≠ 0 ∧ (0 < span.toInt ↔ 0 < step.toInt) then
    divCeil span.toInt.natAbs step.toInt.natAbs
  else .ok 0

theorem divCeil_eq {m n : Nat} (hn : 0 < n) : divCeil m n = .ok ((m + n - 1) / n) := by
  have hless : n - 1 < n := by omega
  unfold divCeil
  rw [if_neg (Nat.ne_of_gt hn), Nat.add_sub_assoc hn, Nat.add_div hn, Nat.div_eq_of_lt hless,
    Nat.mod_eq_of_lt hless]
  congr 2
  split_ifs <;> omega

theorem rangeLength_eq {span step : Int64} (hstep : step.toInt ≠ 0) :
    rangeLength span step = .ok (Builtin.rangeLength span.toInt step.toInt) := by
  unfold rangeLength Builtin.rangeLength
  split_ifs
  · exact divCeil_eq (Int.natAbs_pos.mpr hstep)
  · rfl

/-- The item of a range at a position. -/
def rangeItem (start step : Int64) (i : Nat) : Except Overflow Value := do
  let offset ← mul (Int64.ofNat i) step
  let v ← add start offset
  return .int v

/-- The list of a range, for a step that is not zero. -/
def rangeFrom (start stop step : Int64) : Except Overflow (Option Value) :=
  whenSome (Text.word? (stop.toInt - start.toInt)) fun span => do
    let count ← rangeLength span step
    if count ≤ Builtin.maxRangeLength then
      let items ← (List.range count).mapM (rangeItem start step)
      return some (.list items)
    else return none

def rangeOf : List Int64 → Except Overflow (Option Value)
  | [stop] => rangeFrom 0 stop 1
  | [start, stop] => rangeFrom start stop 1
  | [start, stop, step] => if step.toInt = 0 then .ok none else rangeFrom start stop step
  | _ => .ok none

def range (args : List Value) : Except Overflow (Option Value) :=
  whenSome (args.mapM Value.int?) rangeOf

theorem rangeItem_eq {start stop step span : Int64} {i : Nat} (hstep : step.toInt ≠ 0)
    (hspan : Text.word? (stop.toInt - start.toInt) = some span)
    (hcount : Builtin.rangeLength span.toInt step.toInt ≤ Builtin.maxRangeLength)
    (hi : i < Builtin.rangeLength span.toInt step.toInt) :
    rangeItem start step i = .ok (.int (Int64.ofInt (start.toInt + i * step.toInt))) := by
  have hindex : (Int64.ofNat i).toInt = i := by
    have hsmall : Builtin.maxRangeLength < 0x8000000000000000 := by decide
    exact Int64.toInt_ofNat_of_lt (by omega)
  have hbounds : Fits span.toInt := bounds span
  rw [Text.toInt_of_word? hspan] at hi hbounds
  have hbefore := (Builtin.isCount_rangeLength start.toInt stop.toInt hstep i).mpr hi
  obtain ⟨hmul, hadd⟩ := hbefore.fits (bounds start) (bounds stop) hbounds
  unfold rangeItem mul add
  rw [hindex, ofInt_eq hmul, ok_bind, toInt_ofInt hmul, ofInt_eq hadd, ok_bind]
  rfl

/-- The list of a range whose bounds are known. -/
def rangeList? (start stop step : Int) : Option Value :=
  (Text.word? (stop - start)).bind fun _ =>
    let count := Builtin.rangeLength (stop - start) step
    if count ≤ Builtin.maxRangeLength then
      some (.list ((List.range count).map fun (i : Nat) => .int (Int64.ofInt (start + i * step))))
    else none

theorem rangeFrom_eq (start stop : Int64) {step : Int64} (hstep : step.toInt ≠ 0) :
    rangeFrom start stop step = .ok (rangeList? start.toInt stop.toInt step.toInt) := by
  unfold rangeFrom rangeList?
  refine whenSome_eq fun span hspan => ?_
  rw [← Text.toInt_of_word? hspan, rangeLength_eq hstep, ok_bind]
  dsimp only
  split_ifs with hcount
  · rw [mapM_eq_ok_map fun i hi => rangeItem_eq hstep hspan hcount (List.mem_range.mp hi)]
    rfl
  · rfl

/-- **A range is made without overflow**, since all its items lie between its start and its stop. -/
theorem range_eq (args : List Value) : range args = .ok (Builtin.range? args) := by
  have hone : (1 : Int64).toInt ≠ 0 := by decide
  have hbounds : ∀ ints : List Int64, rangeOf ints =
      .ok ((Builtin.rangeBounds? ints).bind fun b => rangeList? b.1 b.2.1 b.2.2) := by
    intro ints
    rcases ints with _ | ⟨first, _ | ⟨second, _ | ⟨third, _ | ⟨surplus, rest⟩⟩⟩⟩
    · rfl
    · exact rangeFrom_eq 0 first hone
    · exact rangeFrom_eq first second hone
    · dsimp only [rangeOf, Builtin.rangeBounds?]
      split_ifs with hstep
      · rfl
      · exact rangeFrom_eq first second hstep
    · rfl
  exact whenSome_eq fun ints _ => hbounds ints

/-! ### Extremes -/

/-- The first item that no other one is better than: the first item of all against those after it.
-/
def extreme (op : BinaryOp) (args : List Value) : Except Overflow (Option Value) :=
  let items := Builtin.extremeItems args
  whenSome items.head? fun first => do
    let rest ← slice items 1 items.length
    return rest.foldlM (Builtin.better? op) first

theorem extreme_eq (op : BinaryOp) (args : List Value) :
    extreme op args = .ok (Builtin.extreme? op args) := by
  unfold extreme Builtin.extreme?
  cases Builtin.extremeItems args with
  | nil => rfl
  | cons first rest =>
    dsimp only [List.head?_cons, whenSome]
    rw [slice_length (by simp), ok_bind]
    rfl

/-! ### Literals -/

/-- The text between two equal quotes at the ends. -/
def unquote (cs : List Char) : Except Overflow (Option (List Char)) :=
  if 2 ≤ cs.length then do
    let first ← get cs 0
    let last ← get cs (cs.length - 1)
    if (first = '"' ∨ first = '\'') ∧ last = first then
      (slice cs 1 (cs.length - 1)).map some
    else return none
  else return none

theorem unquote_eq (cs : List Char) : unquote cs = .ok (Value.unquote? cs) := by
  cases cs with
  | nil => rfl
  | cons q rest =>
    rcases List.eq_nil_or_concat rest with rfl | ⟨inner, last, hrest⟩
    · simp [unquote, Value.unquote?]
      rfl
    · obtain rfl := hrest.trans List.concat_eq_append
      have hget :
          get (q :: (inner ++ [last])) ((q :: (inner ++ [last])).length - 1) = .ok last := by
        simp [get]
      have hslice : slice (q :: (inner ++ [last])) 1 ((q :: (inner ++ [last])).length - 1) =
          .ok inner := by
        simp [slice]
      unfold unquote Value.unquote?
      rw [if_pos (by simp), hget, hslice]
      simp only [get, List.getElem?_cons_zero, ok_bind, List.getLast?_concat, Option.some.injEq,
        List.dropLast_concat]
      split_ifs
      · rfl
      · rfl

/-- The value of a literal. -/
def literal (raw : String) : Except Overflow Value :=
  match Value.named? raw with
  | some v => .ok v
  | none =>
    let cs := raw.toList
    match Text.int64? cs with
    | some i => .ok (.int i)
    | none =>
      match Decimal.float? cs with
      | some x => .ok (.float x)
      | none => do
        match ← unquote cs with
        | some inner => return .str (String.ofList inner)
        | none => return .str raw

/-- **A literal is read without a position outside of it.** -/
theorem literal_eq (raw : String) : literal raw = .ok (Value.ofLiteral raw) := by
  unfold literal Value.ofLiteral
  dsimp only
  rw [unquote_eq]
  cases Value.named? raw with
  | some v => rfl
  | none =>
    cases Text.int64? raw.toList with
    | some i => rfl
    | none =>
      cases Decimal.float? raw.toList with
      | some x => rfl
      | none =>
        cases Value.unquote? raw.toList with
        | some inner => rfl
        | none => rfl

end Words

/-! ### Operators and builtin functions -/

/-- The result of an operator, computed in words. What is not listed has only checked operations. -/
def BinaryOp.evalInWords (op : BinaryOp) (l r : Value) : Except Overflow (Option Value) :=
  match op with
  | .mul => Words.product l r
  | .floorDiv => Words.onInts Words.floorDiv Value.floorDiv l r
  | .mod => Words.onInts Words.mod Value.mod l r
  | .shl => Words.shift Words.shl l r
  | .shr => Words.shift Words.shr l r
  | op => .ok (op.eval l r)

/-- **No operator overflows**: it has the result that it has on whole numbers, or none. -/
theorem BinaryOp.evalInWords_eq (op : BinaryOp) (l r : Value) :
    op.evalInWords l r = .ok (op.eval l r) := by
  unfold BinaryOp.evalInWords
  split
  · exact Words.product_eq l r
  · exact Words.onInts_floorDiv_eq l r
  · exact Words.onInts_mod_eq l r
  · exact Words.shift_eq (g := fun a n => a * Int.pow 2 n) (fun a _ => Words.shl_eq a) l r
  · exact Words.shift_eq (g := fun a n => a.fdiv (Int.pow 2 n)) (fun a _ => Words.shr_eq a) l r
  · rfl

/-- The value that a function without effects computes, in words. -/
def Builtin.valueInWords (heap : Dict HeapObject) (b : Builtin) (args : List Value) :
    Except Overflow (Option Value) :=
  match b with
  | .range => Words.range args
  | .max => Words.extreme .gt args
  | .min => Words.extreme .lt args
  | b => .ok (b.value? heap args)

/-- **No builtin function overflows.** -/
theorem Builtin.valueInWords_eq (heap : Dict HeapObject) (b : Builtin) (args : List Value) :
    b.valueInWords heap args = .ok (b.value? heap args) := by
  unfold Builtin.valueInWords
  split
  · exact Words.range_eq args
  · exact Words.extreme_eq .gt args
  · exact Words.extreme_eq .lt args
  · rfl

end SymbolicVM
