import SymbolicVM.Engine.Builtin
import SymbolicVM.Proofs.Value.Unknowns

/-!
# Operators introduce no unknowns

The result of an operator or of a builtin function is a scalar or is put together from the operands
(`BinaryOp.built_eval`, `UnaryOp.isScalar_eval`, `Builtin.built_value?`). So every unknown in it
occurs in an operand, and a result computed from operands without symbolic parts is free of them,
too.
-/

namespace SymbolicVM

namespace Value

/-! ### Results that are numbers or truth values -/

theorem isScalar_ofInt? {i : Int} {v : Value} (h : ofInt? i = some v) : v.isScalar = true := by
  obtain ⟨w, -, rfl⟩ := Option.map_eq_some_iff.mp h
  rfl

theorem isScalar_arithmetic {onInt : Int → Int → Int} {onFloat : Float → Float → Float}
    {l r v : Value} (h : arithmetic onInt onFloat l r = some v) : v.isScalar = true := by
  unfold arithmetic at h
  split at h
  · exact isScalar_ofInt? h
  · obtain rfl := Option.some.inj h
    rfl
  · contradiction

theorem isScalar_divideFloat {f : Float → Float → Float} {a b : Float} {v : Value}
    (h : divideFloat f a b = some v) : v.isScalar = true := by
  unfold divideFloat at h
  split_ifs at h
  obtain rfl := Option.some.inj h
  rfl

theorem isScalar_div {l r v : Value} (h : div l r = some v) : v.isScalar = true := by
  unfold div at h
  split at h
  · exact isScalar_divideFloat h
  · contradiction

theorem isScalar_floorDiv {l r v : Value} (h : floorDiv l r = some v) : v.isScalar = true := by
  unfold floorDiv at h
  split at h
  · split_ifs at h
    exact isScalar_ofInt? h
  · exact isScalar_divideFloat h
  · contradiction

theorem isScalar_mod {l r v : Value} (h : mod l r = some v) : v.isScalar = true := by
  unfold mod at h
  split at h
  · split_ifs at h
    obtain ⟨_, -, h⟩ := Option.bind_eq_some_iff.mp h
    exact isScalar_ofInt? h
  · exact isScalar_divideFloat h
  · contradiction

theorem isScalar_power? {base : Int} {exponent : Nat} {v : Value}
    (h : power? base exponent = some v) : v.isScalar = true := by
  unfold power? at h
  split_ifs at h
  · exact isScalar_ofInt? h
  · exact isScalar_ofInt? h

theorem isScalar_pow {l r v : Value} (h : pow l r = some v) : v.isScalar = true := by
  unfold pow at h
  dsimp only at h
  split at h
  · split_ifs at h
    · exact isScalar_power? h
    · obtain rfl := Option.some.inj h
      rfl
  · split_ifs at h
    obtain rfl := Option.some.inj h
    rfl
  · contradiction

theorem isScalar_compares {accepted : List Comparison} {l r v : Value}
    (h : compares accepted l r = some v) : v.isScalar = true := by
  obtain ⟨c, -, rfl⟩ := Option.map_eq_some_iff.mp h
  rfl

theorem isScalar_bitwise {f : Int64 → Int64 → Int64} {l r v : Value}
    (h : bitwise f l r = some v) : v.isScalar = true := by
  unfold bitwise at h
  dsimp only at h
  split at h
  · obtain rfl := Option.some.inj h
    rfl
  · split at h
    · obtain rfl := Option.some.inj h
      rfl
    · contradiction

theorem isScalar_shift {f : Int → Nat → Int} {l r v : Value} (h : shift f l r = some v) :
    v.isScalar = true := by
  unfold shift at h
  split at h
  · split_ifs at h
    exact isScalar_ofInt? h
  · contradiction

/-! ### Results that are put together from the operands -/

theorem mem_repeatList {α : Type} {n : Nat} {items : List α} {a : α}
    (h : a ∈ repeatList n items) : a ∈ items := by
  unfold repeatList at h
  split_ifs at h
  · simp at h
  · obtain ⟨l, hl, ha⟩ := List.mem_flatten.mp h
    rwa [List.eq_of_mem_replicate hl] at ha

theorem isScalar_repeatText? {s : String} {n : Int64} {v : Value}
    (h : repeatText? s n = some v) : v.isScalar = true := by
  obtain ⟨_, -, rfl⟩ := Option.map_eq_some_iff.mp h
  rfl

section Built

variable {given : Value → Prop} {l r v : Value}

theorem built_repeatItems? {items : List Value} {n : Int64} (hitems : (list items).Built given)
    (h : repeatItems? items n = some v) : v.Built given := by
  obtain ⟨_, -, rfl⟩ := Option.map_eq_some_iff.mp h
  exact .list fun item hitem => .item hitems (mem_repeatList hitem)

theorem built_add (hl : l.Built given) (hr : r.Built given) (h : add l r = some v) :
    v.Built given := by
  unfold add at h
  split at h
  · obtain rfl := Option.some.inj h
    exact .scalar rfl
  · obtain rfl := Option.some.inj h
    refine .list fun item hitem => ?_
    rcases List.mem_append.mp hitem with hitem | hitem
    · exact .item hl hitem
    · exact .item hr hitem
  · exact .scalar (isScalar_arithmetic h)

theorem built_mul (hl : l.Built given) (hr : r.Built given) (h : mul l r = some v) :
    v.Built given := by
  unfold mul at h
  split at h
  · exact .scalar (isScalar_repeatText? h)
  · exact .scalar (isScalar_repeatText? h)
  · exact built_repeatItems? hl h
  · exact built_repeatItems? hr h
  · exact .scalar (isScalar_arithmetic h)

end Built

end Value

/-- The result of a binary operator is put together from its operands. -/
theorem BinaryOp.built_eval {given : Value → Prop} {op : BinaryOp} {l r v : Value}
    (hl : l.Built given) (hr : r.Built given) (h : op.eval l r = some v) : v.Built given := by
  unfold BinaryOp.eval at h
  cases op
  case add => exact Value.built_add hl hr h
  case mul => exact Value.built_mul hl hr h
  case sub => exact .scalar (Value.isScalar_arithmetic h)
  case div => exact .scalar (Value.isScalar_div h)
  case floorDiv => exact .scalar (Value.isScalar_floorDiv h)
  case mod => exact .scalar (Value.isScalar_mod h)
  case pow => exact .scalar (Value.isScalar_pow h)
  case eq | ne =>
    obtain rfl := Option.some.inj h
    exact .scalar rfl
  case lt | gt | le | ge => exact .scalar (Value.isScalar_compares h)
  -- a connective gives back one of its operands
  case and | or =>
    obtain ⟨b, -, rfl⟩ := Option.map_eq_some_iff.mp h
    cases b
    · assumption
    · assumption
  case isIn =>
    obtain ⟨b, -, rfl⟩ := Option.map_eq_some_iff.mp h
    exact .scalar rfl
  case bitAnd | bitOr | bitXor => exact .scalar (Value.isScalar_bitwise h)
  case shl | shr => exact .scalar (Value.isScalar_shift h)

/-- Every unknown in the result of a binary operator occurs in one of the operands. -/
theorem BinaryOp.unknowns_eval {op : BinaryOp} {l r v : Value} (h : op.eval l r = some v) :
    v.unknowns ⊆ l.unknowns ++ r.unknowns := by
  have hbuilt : v.Built (fun u => u = l ∨ u = r) :=
    built_eval (.given (.inl rfl)) (.given (.inr rfl)) h
  refine hbuilt.forall_unknowns ?_
  rintro u (rfl | rfl) x hx
  · exact List.mem_append_left _ hx
  · exact List.mem_append_right _ hx

/-- The result of a unary operator is a scalar. -/
theorem UnaryOp.isScalar_eval {op : UnaryOp} {x v : Value} (h : op.eval x = some v) :
    v.isScalar = true := by
  unfold UnaryOp.eval at h
  cases op
  case neg =>
    dsimp only at h
    split at h
    · exact Value.isScalar_ofInt? h
    · obtain rfl := Option.some.inj h
      rfl
    · contradiction
  case pos =>
    dsimp only at h
    split at h
    · obtain rfl := Option.some.inj h
      rfl
    · obtain rfl := Option.some.inj h
      rfl
    · contradiction
  case not | bitNot =>
    obtain ⟨_, -, rfl⟩ := Option.map_eq_some_iff.mp h
    rfl

namespace Builtin

/-! ### Builtin functions -/

theorem isScalar_length? {heap : Dict HeapObject} {x v : Value} (h : length? heap x = some v) :
    v.isScalar = true := by
  unfold length? at h
  split at h
  · unfold objectLength? at h
    split at h <;> first | contradiction | (obtain rfl := Option.some.inj h; rfl)
  · split at h <;> first | contradiction | (obtain rfl := Option.some.inj h; rfl)

theorem built_range? {given : Value → Prop} {args : List Value} {v : Value}
    (h : range? args = some v) : v.Built given := by
  unfold range? at h
  simp only [Option.bind_eq_bind, Option.bind_eq_some_iff] at h
  obtain ⟨ints, -, ⟨start, stop, step⟩, -, _, -, h⟩ := h
  dsimp only at h
  split_ifs at h
  obtain rfl := Option.some.inj h
  refine .list fun item hitem => ?_
  obtain ⟨_, -, rfl⟩ := List.mem_map.mp hitem
  exact .scalar rfl

theorem isScalar_toInt? {x : Option Value} {v : Value} (h : toInt? x = some v) :
    v.isScalar = true := by
  unfold toInt? at h
  split at h
  · obtain rfl := Option.some.inj h; rfl
  · obtain rfl := Option.some.inj h; rfl
  · obtain rfl := Option.some.inj h; rfl
  · unfold truncate? at h
    split_ifs at h
    obtain rfl := Option.some.inj h
    rfl
  · obtain ⟨_, -, rfl⟩ := Option.map_eq_some_iff.mp h
    rfl
  · contradiction

theorem isScalar_toFloat? {x : Option Value} {v : Value} (h : toFloat? x = some v) :
    v.isScalar = true := by
  unfold toFloat? at h
  split at h
  · obtain rfl := Option.some.inj h; rfl
  · obtain rfl := Option.some.inj h; rfl
  · obtain rfl := Option.some.inj h; rfl
  · obtain rfl := Option.some.inj h; rfl
  · obtain ⟨_, -, rfl⟩ := Option.map_eq_some_iff.mp h
    rfl
  · contradiction

theorem isScalar_abs? {x v : Value} (h : abs? x = some v) : v.isScalar = true := by
  unfold abs? at h
  split at h
  · exact Value.isScalar_ofInt? h
  · obtain rfl := Option.some.inj h; rfl
  · obtain rfl := Option.some.inj h; rfl
  · contradiction

/-- The better of two items is one of them. -/
theorem better?_eq_some {op : BinaryOp} {best item v : Value} (h : better? op best item = some v) :
    v = item ∨ v = best := by
  unfold better? at h
  split at h
  · exact .inl (Option.some.inj h).symm
  · exact .inr (Option.some.inj h).symm
  · contradiction

/-- An extreme is one of the items among which it is sought. -/
theorem mem_of_extreme? {op : BinaryOp} {args : List Value} {v : Value}
    (h : extreme? op args = some v) : v ∈ extremeItems args := by
  unfold extreme? at h
  split at h
  · contradiction
  · rename_i first rest hitems
    rw [hitems]
    clear hitems
    induction rest generalizing first with
    | nil =>
      obtain rfl := Option.some.inj h
      exact List.mem_cons_self
    | cons item rest ih =>
      rw [List.foldlM_cons] at h
      obtain ⟨best, hbest, h⟩ := Option.bind_eq_some_iff.mp h
      rcases List.mem_cons.mp (ih best h) with rfl | hv
      · rcases better?_eq_some hbest with rfl | rfl
        · exact List.mem_cons_of_mem _ List.mem_cons_self
        · exact List.mem_cons_self
      · exact List.mem_cons_of_mem _ (List.mem_cons_of_mem _ hv)

/-- The items of which an extreme is sought are the arguments, or the items of the only one. -/
theorem built_of_mem_extremeItems {given : Value → Prop} {args : List Value} {v : Value}
    (hargs : ∀ a ∈ args, a.Built given) (h : v ∈ extremeItems args) : v.Built given := by
  unfold extremeItems at h
  split at h
  · exact .item (hargs _ List.mem_cons_self) h
  · exact hargs v h

/-- The value of a builtin function is put together from its arguments. -/
theorem built_value? {given : Value → Prop} {heap : Dict HeapObject} {b : Builtin}
    {args : List Value} {v : Value} (hargs : ∀ a ∈ args, a.Built given)
    (h : b.value? heap args = some v) : v.Built given := by
  unfold value? at h
  cases b
  case len =>
    obtain ⟨x, -, h⟩ := Option.bind_eq_some_iff.mp h
    exact .scalar (isScalar_length? h)
  case range => exact built_range? h
  case print =>
    obtain rfl := Option.some.inj h
    exact .scalar rfl
  case int => exact .scalar (isScalar_toInt? h)
  case float => exact .scalar (isScalar_toFloat? h)
  case str =>
    dsimp only at h
    split at h
    · obtain rfl := Option.some.inj h
      exact .scalar rfl
    · obtain rfl := Option.some.inj h
      exact .scalar rfl
  case bool =>
    dsimp only at h
    split at h
    · obtain rfl := Option.some.inj h
      exact .scalar rfl
    · obtain ⟨_, -, rfl⟩ := Option.map_eq_some_iff.mp h
      exact .scalar rfl
  case abs =>
    obtain ⟨x, -, h⟩ := Option.bind_eq_some_iff.mp h
    exact .scalar (isScalar_abs? h)
  case max | min => exact built_of_mem_extremeItems hargs (mem_of_extreme? h)
  case arrayOf => contradiction

/-- Every unknown in the value of a builtin function occurs in one of the arguments. -/
theorem unknowns_value? {heap : Dict HeapObject} {b : Builtin} {args : List Value} {v : Value}
    (h : b.value? heap args = some v) : v.unknowns ⊆ args.flatMap Value.unknowns := by
  have hbuilt : v.Built (fun u => u ∈ args) := built_value? (fun a ha => .given ha) h
  exact hbuilt.forall_unknowns fun u hu x hx => List.mem_flatMap.mpr ⟨u, hu, hx⟩

end Builtin

end SymbolicVM
