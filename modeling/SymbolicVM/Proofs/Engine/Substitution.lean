import SymbolicVM.Proofs.Engine.Operands
import SymbolicVM.Proofs.Machine.Substitution
import SymbolicVM.Proofs.Operator.Unknowns

/-!
# Decisions hold for every instance of the unknowns

What the engine decides in a state with unknowns it decides in every instance of that state, and
with the same effects up to the substitution. First the readers of operands: they read the instance
of what they read before, and exactly the same where they ask for a value without unknowns. Then one
lemma for each kind of instruction, and `Engine.decide_subst` for all of them.

Four kinds of instructions take an unknown for something else than a value that is not known, and
are left out: the size of a new array, the length of an object, a field that may hold a function,
and an index from the end.
-/

namespace SymbolicVM.Engine

variable {ρ : Symbolic → Value} {s : State} {inst : Instruction} {d : Delta} {registry : Registry}

/-! ### Readers -/

theorem resolve_subst {op : Operand} {v : Value} (h : resolve s op = .ok v) :
    resolve (s.subst ρ) op = .ok (v.subst ρ) := by
  rw [resolve_eq_ok] at h ⊢
  rcases h with ⟨reg, hop, hreg⟩ | ⟨hop, rfl⟩
  · refine .inl ⟨reg, hop, ?_⟩
    rw [State.register?_subst, hreg]
    rfl
  · exact .inr ⟨hop, Value.subst_of_unknowns_eq_nil (Operand.unknowns_literal op)⟩

theorem resolveAll_subst {ops : List Operand} {vs : List Value} (h : resolveAll s ops = .ok vs) :
    resolveAll (s.subst ρ) ops = .ok (vs.map (Value.subst ρ)) := by
  unfold resolveAll at h ⊢
  induction ops generalizing vs with
  | nil =>
    obtain rfl := Except.ok.inj h
    rfl
  | cons op ops ih =>
    rw [List.mapM_cons] at h ⊢
    obtain ⟨v, hv, h⟩ := bind_eq_ok.mp h
    obtain ⟨ws, hws, h⟩ := bind_eq_ok.mp h
    obtain rfl := Except.ok.inj h
    exact bind_eq_ok.mpr ⟨_, resolve_subst hv, bind_eq_ok.mpr ⟨_, ih hws, rfl⟩⟩

/-- A value without unknowns is read as it is. -/
theorem concrete_subst {op : Operand} {v : Value} (h : concrete s op = .ok v) :
    concrete (s.subst ρ) op = .ok v := by
  rw [concrete_eq_ok] at h ⊢
  obtain ⟨hv, hfree⟩ := h
  refine ⟨?_, hfree⟩
  rw [resolve_subst hv, Value.subst_of_unknowns_eq_nil hfree]

theorem heapObject_subst {op : Operand} {address : String} {obj : HeapObject}
    (h : heapObject s op = .ok (address, obj)) :
    heapObject (s.subst ρ) op = .ok (address, obj.subst ρ) := by
  rw [heapObject_eq_ok] at h ⊢
  obtain ⟨base, hbase, haddress, hobj⟩ := h
  refine ⟨base.subst ρ, resolve_subst hbase, Value.heapAddress?_subst haddress, ?_⟩
  show (s.heap.mapValues (HeapObject.subst ρ)).get? address = _
  rw [Dict.get?_mapValues, hobj]
  rfl

theorem memberKey_subst {opcode : Opcode} {op : Operand} {key : String}
    (h : memberKey s opcode op = .ok key) : memberKey (s.subst ρ) opcode op = .ok key := by
  unfold memberKey at h ⊢
  split at h
  · exact h
  · obtain ⟨v, hv, hkey⟩ := bind_eq_ok.mp h
    exact bind_eq_ok.mpr ⟨v, concrete_subst hv, hkey⟩

/-- The part that an index selects of an instance is the instance of the part that it selects. -/
theorem indexValue?_subst {base : Value} {op : Operand} {part : Option Value}
    (hbase : ∀ x, base ≠ .symbolic x) (h : indexValue? s base op = .ok part) :
    indexValue? (s.subst ρ) (base.subst ρ) op = .ok (part.map (Value.subst ρ)) := by
  unfold indexValue? at h
  split at h
  · rename_i items
    obtain ⟨k, hk, h⟩ := bind_eq_ok.mp h
    obtain ⟨i, hi, h⟩ := bind_eq_ok.mp h
    obtain ⟨n, hn, h⟩ := bind_eq_ok.mp h
    obtain rfl := Except.ok.inj h
    rw [Value.subst_list]
    refine bind_eq_ok.mpr ⟨k, concrete_subst hk, bind_eq_ok.mpr ⟨i, hi, bind_eq_ok.mpr ⟨n, ?_, ?_⟩⟩⟩
    · rw [List.length_map]
      exact hn
    · rw [List.getElem?_map]
      rfl
  · rename_i text
    rw [Value.subst_str]
    have hcontains : (s.subst ρ).heap.contains text = s.heap.contains text :=
      Dict.contains_mapValues _ _ _
    unfold indexValue?
    dsimp only
    rw [hcontains]
    split_ifs at h ⊢ with hheap
    · obtain rfl := Except.ok.inj h
      rfl
    · obtain ⟨k, hk, h⟩ := bind_eq_ok.mp h
      obtain ⟨i, hi, h⟩ := bind_eq_ok.mp h
      obtain ⟨n, hn, h⟩ := bind_eq_ok.mp h
      obtain rfl := Except.ok.inj h
      refine bind_eq_ok.mpr ⟨k, concrete_subst hk, bind_eq_ok.mpr ⟨i, hi, bind_eq_ok.mpr
        ⟨n, hn, ?_⟩⟩⟩
      cases text.toList[n]? with
      | none => rfl
      | some c =>
        rw [Option.map_some, Option.map_some, Value.subst_str]
        rfl
  · rename_i entries
    obtain ⟨w, hw, h⟩ := bind_eq_ok.mp h
    obtain ⟨k, hk, h⟩ := bind_eq_ok.mp h
    obtain ⟨v, hv, h⟩ := bind_eq_ok.mp h
    obtain rfl := Except.ok.inj h
    rw [Value.subst_map]
    refine bind_eq_ok.mpr ⟨w, concrete_subst hw, bind_eq_ok.mpr ⟨k, hk, bind_eq_ok.mpr
      ⟨v.subst ρ, ?_, rfl⟩⟩⟩
    rw [orRefuse_eq_ok] at hv ⊢
    rw [Entries.get?_mapValues, hv]
    rfl
  · obtain rfl := Except.ok.inj h
    cases base with
    | symbolic x => exact absurd rfl (hbase x)
    | list items => simp_all
    | str text => simp_all
    | map entries => simp_all
    | null | bool | int | float => simp [indexValue?]

/-- What a load selects without the heap, where it does. -/
theorem loadedPart?_subst {base : Value} {op : Operand} {part : Option Value}
    (hbase : ∀ x, base ≠ .symbolic x) (h : loadedPart? inst s base op = .ok part) :
    loadedPart? inst (s.subst ρ) (base.subst ρ) op = .ok (part.map (Value.subst ρ)) := by
  unfold loadedPart? at h ⊢
  split_ifs at h ⊢
  · exact indexValue?_subst hbase h
  · obtain rfl := Except.ok.inj h
    rfl

/-! ### Literals and variables -/

/-- The substitution leaves the next unknown of the state alone. -/
def KeepsNext (ρ : Symbolic → Value) (s : State) : Prop :=
  ∀ x : Symbolic, x.name = IdKind.symbol.name s.counter → ρ x = .symbolic x

theorem closureFor_subst {result : Option (String × Option NewClosure)}
    (h : closureFor s = .ok result) :
    closureFor (s.subst ρ) =
      .ok (result.map fun e => (e.1, e.2.map (NewClosure.subst ρ))) := by
  have hframes' : (s.subst ρ).frames = s.frames.map (Frame.subst ρ) := rfl
  unfold closureFor at h ⊢
  rw [hframes']
  rcases hframes : s.frames with _ | ⟨frame, _ | ⟨caller, callers⟩⟩
  · rw [hframes] at h
    obtain rfl := Except.ok.inj h
    rfl
  · rw [hframes] at h
    obtain rfl := Except.ok.inj h
    rfl
  · have howned' : (frame.subst ρ).ownedEnv = frame.ownedEnv := rfl
    rw [hframes] at h
    dsimp only [List.map] at h ⊢
    rw [howned']
    cases howned : frame.ownedEnv with
    | some env =>
      rw [howned] at h
      obtain rfl := Except.ok.inj h
      rfl
    | none =>
      rw [howned] at h
      obtain ⟨id, hid, h⟩ := bind_eq_ok.mp h
      obtain rfl := Except.ok.inj h
      exact bind_eq_ok.mpr ⟨id, hid, rfl⟩

theorem closeOver_subst {raw v : Value} {closure : Option NewClosure} (hraw : raw.unknowns = [])
    (h : closeOver s raw = .ok (v, closure)) :
    closeOver (s.subst ρ) raw = .ok (v.subst ρ, closure.map (NewClosure.subst ρ)) := by
  have hself : raw.subst ρ = raw := Value.subst_of_unknowns_eq_nil hraw
  unfold closeOver at h ⊢
  split at h
  · obtain ⟨rfl, rfl⟩ := Prod.mk.inj (Except.ok.inj h)
    rw [hself]
    rfl
  · split_ifs at h ⊢
    · obtain ⟨rfl, rfl⟩ := Prod.mk.inj (Except.ok.inj h)
      rw [hself]
      rfl
    · obtain ⟨result, hresult, h⟩ := bind_eq_ok.mp h
      refine bind_eq_ok.mpr ⟨_, closureFor_subst hresult, ?_⟩
      split at h
      · obtain ⟨rfl, rfl⟩ := Prod.mk.inj (Except.ok.inj h)
        rw [hself]
        rfl
      · obtain ⟨rfl, rfl⟩ := Prod.mk.inj (Except.ok.inj h)
        rw [Value.subst_str]
        rfl

theorem decideConst_subst (h : decideConst inst s = .ok d) :
    ∃ d', decideConst inst (s.subst ρ) = .ok d' ∧ d.Instance ρ d' := by
  obtain ⟨⟨v, closure⟩, hclose, h⟩ := bind_eq_ok.mp h
  obtain rfl := Except.ok.inj h
  have hraw : (((inst.operand? 0).map Operand.literal).getD .null).unknowns = [] := by
    cases inst.operand? 0 with
    | none => simp
    | some op => simp
  refine ⟨_, bind_eq_ok.mpr ⟨_, closeOver_subst hraw hclose, rfl⟩, ?_⟩
  have hclosure : Delta.Instance ρ
      { newClosure := closure, reasoning := "constant " ++ v.render }
      { newClosure := closure.map (NewClosure.subst ρ)
        reasoning := "constant " ++ (v.subst ρ).render } := ⟨_, rfl⟩
  exact hclosure.produce inst v

/-- A new unknown is an instance of itself. -/
theorem subst_next (hρ : KeepsNext ρ s) {sym : String} (hsym : fresh s .symbol = .ok sym)
    (constraints : List String) :
    (Value.symbolic { name := sym, constraints }).subst ρ =
      .symbolic { name := sym, constraints } := by
  rw [Value.subst_symbolic]
  exact hρ _ (fresh_eq_ok.mp hsym).1

theorem decideLoadVar_subst (hρ : KeepsNext ρ s) (h : decideLoadVar inst s = .ok d) :
    ∃ d', decideLoadVar inst (s.subst ρ) = .ok d' ∧ d.Instance ρ d' := by
  obtain ⟨name, hname, h⟩ := bind_eq_ok.mp h
  have hlookup := State.lookup?_subst (ρ := ρ) s name
  cases hv : s.lookup? name with
  | some v =>
    rw [hv] at h hlookup
    obtain rfl := Except.ok.inj h
    have hload := (Delta.Instance.of_reasoning (ρ := ρ) ("load " ++ name)
      ("load " ++ name)).produce inst v
    refine ⟨_, bind_eq_ok.mpr ⟨name, hname, ?_⟩, hload⟩
    rw [hlookup]
    rfl
  | none =>
    rw [hv] at h hlookup
    obtain ⟨sym, hsym, h⟩ := bind_eq_ok.mp h
    obtain rfl := Except.ok.inj h
    have hnew := (Delta.Instance.of_reasoning (ρ := ρ)
      ("unbound variable " ++ name ++ " -> symbolic " ++ sym)
      ("unbound variable " ++ name ++ " -> symbolic " ++ sym)).produce inst
        (.symbolic { name := sym })
    rw [subst_next hρ hsym] at hnew
    refine ⟨_, bind_eq_ok.mpr ⟨name, hname, ?_⟩, hnew⟩
    rw [hlookup]
    exact bind_eq_ok.mpr ⟨sym, hsym, rfl⟩

theorem decideStoreVar_subst (h : decideStoreVar inst s = .ok d) :
    ∃ d', decideStoreVar inst (s.subst ρ) = .ok d' ∧ d.Instance ρ d' := by
  obtain ⟨name, hname, h⟩ := bind_eq_ok.mp h
  obtain ⟨op, hop, h⟩ := bind_eq_ok.mp h
  obtain ⟨v, hv, h⟩ := bind_eq_ok.mp h
  obtain rfl := Except.ok.inj h
  exact ⟨_, bind_eq_ok.mpr ⟨name, hname, bind_eq_ok.mpr ⟨op, hop, bind_eq_ok.mpr
    ⟨_, resolve_subst hv, rfl⟩⟩⟩, (Delta.Instance.of_reasoning _ _).writeVar name v⟩

/-! ### Objects -/

theorem decideNewObject_subst (h : decideNewObject inst s = .ok d) :
    ∃ d', decideNewObject inst (s.subst ρ) = .ok d' ∧ d.Instance ρ d' := by
  obtain ⟨address, haddress, h⟩ := bind_eq_ok.mp h
  obtain rfl := Except.ok.inj h
  have hnew := ((Delta.Instance.of_reasoning (ρ := ρ) ("new object " ++ address)
    ("new object " ++ address)).allocate address ((inst.operand? 0).map Operand.render)).produce
      inst (.str address)
  rw [Value.subst_str] at hnew
  exact ⟨_, bind_eq_ok.mpr ⟨address, haddress, rfl⟩, hnew⟩

/-- The instruction loads at an index whose key is a negative integer. -/
def NegativeIndex (inst : Instruction) (s : State) : Prop :=
  inst.opcode = .loadIndex ∧ ∃ op key i, inst.operand? 1 = some op ∧
    memberKey s .loadIndex op = .ok key ∧ Text.int64? key.toList = some i ∧ i.toInt < 0

/-- Only an index from the end depends on the object. -/
theorem loadedField_eq {obj obj' : HeapObject} {key : String}
    (h : ∀ i, inst.opcode = .loadIndex → Text.int64? key.toList = some i → ¬ i.toInt < 0) :
    loadedField inst obj key = loadedField inst obj' key := by
  unfold loadedField elementKey
  split_ifs with hop
  · cases hi : Text.int64? key.toList with
    | none => rfl
    | some i =>
      dsimp only
      rw [if_neg (h i hop hi), if_neg (h i hop hi)]
  · rfl

theorem loadField_subst (hρ : KeepsNext ρ s) {address field : String} {obj : HeapObject}
    (h : loadField inst s address obj field = .ok d) :
    ∃ d', loadField inst (s.subst ρ) address (obj.subst ρ) field = .ok d' ∧ d.Instance ρ d' := by
  have hfield : (obj.subst ρ).fields.get? field = (obj.fields.get? field).map (Value.subst ρ) :=
    Dict.get?_mapValues _ _ _
  unfold loadField at h ⊢
  dsimp only at h ⊢
  rw [hfield]
  cases hv : obj.fields.get? field with
  | some v =>
    rw [hv] at h
    obtain rfl := Except.ok.inj h
    exact ⟨_, rfl, (Delta.Instance.of_reasoning _ _).produce inst v⟩
  | none =>
    rw [hv] at h
    obtain ⟨sym, hsym, h⟩ := bind_eq_ok.mp h
    obtain rfl := Except.ok.inj h
    have hnew := ((Delta.Instance.of_reasoning (ρ := ρ)
      ("undefined " ++ (address ++ "[" ++ field ++ "]") ++ " -> symbolic " ++ sym)
      ("undefined " ++ (address ++ "[" ++ field ++ "]") ++ " -> symbolic " ++ sym)).writeHeap
        address field (.symbolic { name := sym, constraints := [address ++ "[" ++ field ++ "]"] })
        ).produce inst (.symbolic { name := sym, constraints := [address ++ "[" ++ field ++ "]"] })
    rw [subst_next hρ hsym] at hnew
    exact ⟨_, bind_eq_ok.mpr ⟨sym, hsym, rfl⟩, hnew⟩

theorem loadFromHeap_subst (hρ : KeepsNext ρ s) {base key : Operand}
    (hkey : inst.operand? 1 = some key) (hindex : ¬ NegativeIndex inst s)
    (h : loadFromHeap inst s base key = .ok d) :
    ∃ d', loadFromHeap inst (s.subst ρ) base key = .ok d' ∧ d.Instance ρ d' := by
  rw [loadFromHeap_eq] at h
  obtain ⟨⟨address, obj⟩, hobj, h⟩ := bind_eq_ok.mp h
  obtain ⟨name, hname, h⟩ := bind_eq_ok.mp h
  obtain ⟨field, hfield, h⟩ := bind_eq_ok.mp h
  obtain ⟨d', hd', hinstance⟩ := loadField_subst hρ h
  refine ⟨d', ?_, hinstance⟩
  rw [loadFromHeap_eq]
  refine bind_eq_ok.mpr ⟨_, heapObject_subst hobj, bind_eq_ok.mpr ⟨name, memberKey_subst hname,
    bind_eq_ok.mpr ⟨field, ?_, hd'⟩⟩⟩
  rw [← hfield]
  apply loadedField_eq
  intro i hop hi hnegative
  rw [hop] at hname
  exact hindex ⟨hop, key, name, i, hkey, hname, hi, hnegative⟩

theorem decideLoad_subst (hρ : KeepsNext ρ s) (hindex : ¬ NegativeIndex inst s)
    (h : decideLoad inst s = .ok d) :
    ∃ d', decideLoad inst (s.subst ρ) = .ok d' ∧ d.Instance ρ d' := by
  rw [decideLoad_eq] at h
  obtain ⟨baseOperand, hoperand, h⟩ := bind_eq_ok.mp h
  obtain ⟨base, hbase, h⟩ := bind_eq_ok.mp h
  obtain ⟨key, hkey, h⟩ := bind_eq_ok.mp h
  obtain ⟨part, hpart, h⟩ := bind_eq_ok.mp h
  -- an unknown has no parts and refers to no object
  have hknown : ∀ x, base ≠ .symbolic x := by
    rintro x rfl
    cases part with
    | some v =>
      unfold loadedPart? indexValue? at hpart
      split_ifs at hpart
      · simp at hpart
      · simp at hpart
    | none =>
      rw [loadFromHeap_eq] at h
      obtain ⟨⟨address, obj⟩, hobj, -⟩ := bind_eq_ok.mp h
      obtain ⟨base', hbase', haddress, -⟩ := heapObject_eq_ok.mp hobj
      rw [hbase] at hbase'
      obtain rfl := Except.ok.inj hbase'
      simp [Value.heapAddress?] at haddress
  rw [decideLoad_eq, hoperand, ok_bind, resolve_subst hbase, ok_bind, hkey, ok_bind,
    loadedPart?_subst hknown hpart, ok_bind]
  cases part with
  | some v =>
    obtain rfl := Except.ok.inj h
    exact ⟨_, rfl, (Delta.Instance.of_reasoning _ _).produce inst v⟩
  | none => exact loadFromHeap_subst hρ (operand_eq_ok.mp hkey) hindex h

theorem decideStore_subst (h : decideStore inst s = .ok d) :
    ∃ d', decideStore inst (s.subst ρ) = .ok d' ∧ d.Instance ρ d' := by
  obtain ⟨op, hop, h⟩ := bind_eq_ok.mp h
  obtain ⟨⟨address, obj⟩, hobj, h⟩ := bind_eq_ok.mp h
  obtain ⟨keyOp, hkeyOp, h⟩ := bind_eq_ok.mp h
  obtain ⟨key, hkey, h⟩ := bind_eq_ok.mp h
  obtain ⟨valueOp, hvalueOp, h⟩ := bind_eq_ok.mp h
  obtain ⟨v, hv, h⟩ := bind_eq_ok.mp h
  obtain rfl := Except.ok.inj h
  exact ⟨_, bind_eq_ok.mpr ⟨op, hop, bind_eq_ok.mpr ⟨_, heapObject_subst hobj, bind_eq_ok.mpr
    ⟨keyOp, hkeyOp, bind_eq_ok.mpr ⟨key, memberKey_subst hkey, bind_eq_ok.mpr ⟨valueOp, hvalueOp,
      bind_eq_ok.mpr ⟨_, resolve_subst hv, rfl⟩⟩⟩⟩⟩⟩,
    (Delta.Instance.of_reasoning _ _).writeHeap address key v⟩

/-! ### Operators and control -/

theorem decideBinop_subst (h : decideBinop inst s = .ok d) :
    ∃ d', decideBinop inst (s.subst ρ) = .ok d' ∧ d.Instance ρ d' := by
  obtain ⟨word, hword, h⟩ := bind_eq_ok.mp h
  obtain ⟨op, hop, h⟩ := bind_eq_ok.mp h
  obtain ⟨leftOp, hleftOp, h⟩ := bind_eq_ok.mp h
  obtain ⟨l, hl, h⟩ := bind_eq_ok.mp h
  obtain ⟨rightOp, hrightOp, h⟩ := bind_eq_ok.mp h
  obtain ⟨r, hr, h⟩ := bind_eq_ok.mp h
  obtain ⟨v, hv, h⟩ := bind_eq_ok.mp h
  obtain rfl := Except.ok.inj h
  have hfree : v.unknowns = [] := by
    have hsub := BinaryOp.unknowns_eval (orRefuse_eq_ok.mp hv)
    rw [(concrete_eq_ok.mp hl).2, (concrete_eq_ok.mp hr).2] at hsub
    exact List.subset_nil.mp hsub
  have hresult := (Delta.Instance.of_reasoning (ρ := ρ)
    (l.render ++ " " ++ op.symbol ++ " " ++ r.render ++ " = " ++ v.render)
    (l.render ++ " " ++ op.symbol ++ " " ++ r.render ++ " = " ++ v.render)).produce inst v
  rw [Value.subst_of_unknowns_eq_nil hfree] at hresult
  exact ⟨_, bind_eq_ok.mpr ⟨word, hword, bind_eq_ok.mpr ⟨op, hop, bind_eq_ok.mpr
    ⟨leftOp, hleftOp, bind_eq_ok.mpr ⟨l, concrete_subst hl, bind_eq_ok.mpr ⟨rightOp, hrightOp,
      bind_eq_ok.mpr ⟨r, concrete_subst hr, bind_eq_ok.mpr ⟨v, hv, rfl⟩⟩⟩⟩⟩⟩⟩, hresult⟩

theorem decideUnop_subst (h : decideUnop inst s = .ok d) :
    ∃ d', decideUnop inst (s.subst ρ) = .ok d' ∧ d.Instance ρ d' := by
  obtain ⟨word, hword, h⟩ := bind_eq_ok.mp h
  obtain ⟨op, hop, h⟩ := bind_eq_ok.mp h
  obtain ⟨xOp, hxOp, h⟩ := bind_eq_ok.mp h
  obtain ⟨x, hx, h⟩ := bind_eq_ok.mp h
  obtain ⟨v, hv, h⟩ := bind_eq_ok.mp h
  obtain rfl := Except.ok.inj h
  have hresult := (Delta.Instance.of_reasoning (ρ := ρ)
    (op.symbol ++ " " ++ x.render ++ " = " ++ v.render)
    (op.symbol ++ " " ++ x.render ++ " = " ++ v.render)).produce inst v
  rw [Value.subst_of_unknowns_eq_nil
    (Value.unknowns_of_isScalar (UnaryOp.isScalar_eval (orRefuse_eq_ok.mp hv)))] at hresult
  exact ⟨_, bind_eq_ok.mpr ⟨word, hword, bind_eq_ok.mpr ⟨op, hop, bind_eq_ok.mpr ⟨xOp, hxOp,
    bind_eq_ok.mpr ⟨x, concrete_subst hx, bind_eq_ok.mpr ⟨v, hv, rfl⟩⟩⟩⟩⟩, hresult⟩

theorem decideBranchIf_subst (h : decideBranchIf inst s = .ok d) :
    ∃ d', decideBranchIf inst (s.subst ρ) = .ok d' ∧ d.Instance ρ d' := by
  obtain ⟨targets, htargets, h⟩ := bind_eq_ok.mp h
  obtain ⟨condition, hcondition, h⟩ := bind_eq_ok.mp h
  obtain ⟨v, hv, h⟩ := bind_eq_ok.mp h
  obtain ⟨taken, htaken, h⟩ := bind_eq_ok.mp h
  obtain rfl := Except.ok.inj h
  have htaken' : orRefuse (.symbolicCondition (v.subst ρ)) (v.subst ρ).truthy? = .ok taken :=
    orRefuse_eq_ok.mpr (Value.truthy?_subst (orRefuse_eq_ok.mp htaken))
  exact ⟨_, bind_eq_ok.mpr ⟨targets, htargets, bind_eq_ok.mpr ⟨condition, hcondition,
    bind_eq_ok.mpr ⟨_, resolve_subst hv, bind_eq_ok.mpr ⟨taken, htaken', rfl⟩⟩⟩⟩, ⟨_, rfl⟩⟩

theorem decideReturn_subst (h : decideReturn inst s = .ok d) :
    ∃ d', decideReturn inst (s.subst ρ) = .ok d' ∧ d.Instance ρ d' := by
  unfold decideReturn at h ⊢
  cases hop : inst.operand? 0 with
  | some op =>
    rw [hop] at h
    obtain ⟨v, hv, h⟩ := bind_eq_ok.mp h
    obtain rfl := Except.ok.inj h
    exact ⟨_, bind_eq_ok.mpr ⟨_, resolve_subst hv, rfl⟩, ⟨_, rfl⟩⟩
  | none =>
    rw [hop] at h
    obtain rfl := Except.ok.inj h
    refine ⟨_, rfl, ⟨"return " ++ Value.null.render, ?_⟩⟩
    unfold Delta.subst
    rw [Option.map_some, Value.subst_null]
    rfl

theorem decideSymbolic_subst (h : decideSymbolic inst s = .ok d) :
    ∃ d', decideSymbolic inst (s.subst ρ) = .ok d' ∧ d.Instance ρ d' := by
  obtain ⟨hint, hhint, h⟩ := bind_eq_ok.mp h
  obtain ⟨param, hparam, h⟩ := bind_eq_ok.mp h
  obtain ⟨v, hv, h⟩ := bind_eq_ok.mp h
  obtain rfl := Except.ok.inj h
  have hv' : orRefuse (.unboundParameter param)
      ((s.subst ρ).current?.bind fun f => f.locals.get? param) = .ok (v.subst ρ) := by
    obtain ⟨frame, hframe, hlocal⟩ := Option.bind_eq_some_iff.mp (orRefuse_eq_ok.mp hv)
    rw [orRefuse_eq_ok, State.current?_subst, hframe, Option.map_some, Option.bind_some]
    show (frame.locals.mapValues (Value.subst ρ)).get? param = _
    rw [Dict.get?_mapValues, hlocal]
    rfl
  exact ⟨_, bind_eq_ok.mpr ⟨hint, hhint, bind_eq_ok.mpr ⟨param, hparam, bind_eq_ok.mpr
    ⟨_, hv', rfl⟩⟩⟩, (Delta.Instance.of_reasoning _ _).produce inst v⟩

/-! ### Calls -/

theorem dispatch_subst {f : FunctionRef} {args : List Value}
    (h : dispatch registry f args = .ok d) :
    ∃ d', dispatch registry f (args.map (Value.subst ρ)) = .ok d' ∧ d.Instance ρ d' := by
  obtain ⟨params, hparams, h⟩ := bind_eq_ok.mp h
  obtain rfl := Except.ok.inj h
  refine ⟨_, bind_eq_ok.mpr ⟨params, hparams, rfl⟩, ?_⟩
  exact Delta.Instance.bindArguments params args ⟨_, rfl⟩

theorem construct_subst {c : ClassRef} {args : List Value}
    (h : construct registry c args inst s = .ok d) :
    ∃ d', construct registry c (args.map (Value.subst ρ)) inst (s.subst ρ) = .ok d' ∧
      d.Instance ρ d' := by
  obtain ⟨address, haddress, h⟩ := bind_eq_ok.mp h
  have hmade := ((Delta.Instance.of_reasoning (ρ := ρ) "" "").allocate address
    (some c.name)).produce inst (.str address)
  rw [Value.subst_str] at hmade
  dsimp only at h
  cases hconstructor : registry.constructor? c.name with
  | none =>
    rw [hconstructor] at h
    obtain rfl := Except.ok.inj h
    refine ⟨_, bind_eq_ok.mpr ⟨address, haddress, ?_⟩,
      hmade.explain _ ("new " ++ c.name ++ " -> " ++ address)⟩
    dsimp only
    rw [hconstructor]
    rfl
  | some entry =>
    obtain ⟨name, label⟩ := entry
    rw [hconstructor] at h
    obtain rfl := Except.ok.inj h
    refine ⟨_, bind_eq_ok.mpr ⟨address, haddress, ?_⟩,
      Delta.Instance.bindArguments ((registry.parameters? label).getD []) (.str address :: args)
        (hmade.steer (some { function := name, isConstructor := true }) (some label) _
          ("new " ++ c.name ++ " -> " ++ address ++ ", run " ++ name))⟩
    dsimp only
    rw [hconstructor, List.map_cons, Value.subst_str]
    rfl

/-- Only `len` reads the heap. -/
theorem value?_eq_of_ne_len {b : Builtin} (h : b ≠ .len) (heap heap' : Dict HeapObject)
    (args : List Value) : b.value? heap args = b.value? heap' args := by
  cases b with
  | len => exact absurd rfl h
  | range | print | int | float | str | bool | abs | max | min | arrayOf => rfl

theorem unknowns_of_any_eq_false {args : List Value}
    (h : args.any Value.containsSymbolic = false) : ∀ a ∈ args, a.unknowns = [] := by
  intro a ha
  rw [← Value.containsSymbolic_eq_false_iff]
  simpa using List.any_eq_false.mp h a ha

theorem map_subst_of_any_eq_false {args : List Value}
    (h : args.any Value.containsSymbolic = false) : args.map (Value.subst ρ) = args := by
  have hself : ∀ a ∈ args, a.subst ρ = id a := fun a ha =>
    Value.subst_of_unknowns_eq_nil (unknowns_of_any_eq_false h a ha)
  rw [List.map_congr_left hself, List.map_id]

/-- The value of a builtin function that is neither `len` nor makes an array has no unknowns, and is
the same for every instance of the arguments. -/
theorem value?_subst {b : Builtin} {heap : Dict HeapObject} (heap' : Dict HeapObject)
    {args : List Value} {v : Value} (hlen : b ≠ .len)
    (hargs : b.toleratesSymbolic = false → args.any Value.containsSymbolic = false)
    (h : b.value? heap args = some v) :
    b.value? heap' (args.map (Value.subst ρ)) = some v ∧ v.unknowns = [] := by
  cases htolerates : b.toleratesSymbolic with
  | true =>
    -- `print`, which gives null whatever it is given
    cases b with
    | len => exact absurd rfl hlen
    | print =>
      obtain rfl := Option.some.inj h
      exact ⟨rfl, by simp⟩
    | range | int | float | str | bool | abs | max | min | arrayOf => contradiction
  | false =>
    have hfree := hargs htolerates
    refine ⟨?_, List.subset_nil.mp ?_⟩
    · rw [map_subst_of_any_eq_false hfree, value?_eq_of_ne_len hlen heap' heap]
      exact h
    · rw [← List.flatMap_eq_nil_iff.mpr (unknowns_of_any_eq_false hfree)]
      exact Builtin.unknowns_value? h

theorem callBuiltin_subst {name : String} {b : Builtin} {args : List Value} (hlen : b ≠ .len)
    (h : callBuiltin name b args inst s = .ok d) :
    ∃ d', callBuiltin name b (args.map (Value.subst ρ)) inst (s.subst ρ) = .ok d' ∧
      d.Instance ρ d' := by
  by_cases hrefused : (!b.toleratesSymbolic && args.any Value.containsSymbolic) = true
  · unfold callBuiltin at h
    rw [if_pos hrefused] at h
    contradiction
  · have hargs : b.toleratesSymbolic = false → args.any Value.containsSymbolic = false := by
      intro htolerates
      simpa [htolerates] using hrefused
    have haccepted :
        ¬ (!b.toleratesSymbolic &&
          (args.map (Value.subst ρ)).any Value.containsSymbolic) = true := by
      cases htolerates : b.toleratesSymbolic with
      | true => simp
      | false =>
        rw [map_subst_of_any_eq_false (hargs htolerates), hargs htolerates]
        simp
    unfold callBuiltin at h ⊢
    rw [if_neg hrefused] at h
    rw [if_neg haccepted]
    split_ifs at h ⊢ with harray
    · obtain ⟨address, haddress, h⟩ := bind_eq_ok.mp h
      obtain rfl := Except.ok.inj h
      have hmade := ((Delta.Instance.arrayDelta (ρ := ρ) address args).explain
        ("builtin " ++ name ++ " -> " ++ address)
        ("builtin " ++ name ++ " -> " ++ address)).produce inst (.str address)
      rw [Value.subst_str] at hmade
      exact ⟨_, bind_eq_ok.mpr ⟨address, haddress, rfl⟩, hmade⟩
    · obtain ⟨v, hv, h⟩ := bind_eq_ok.mp h
      obtain rfl := Except.ok.inj h
      obtain ⟨hv', hfree⟩ := value?_subst (ρ := ρ) (s.subst ρ).heap hlen hargs
        (orRefuse_eq_ok.mp hv)
      have hresult := (Delta.Instance.of_reasoning (ρ := ρ)
        ("builtin " ++ name ++ " -> " ++ v.render)
        ("builtin " ++ name ++ " -> " ++ v.render)).produce inst v
      rw [Value.subst_of_unknowns_eq_nil hfree] at hresult
      exact ⟨_, bind_eq_ok.mpr ⟨v, orRefuse_eq_ok.mpr hv', rfl⟩, hresult⟩

theorem decideCallFunction_subst (hlen : inst.text? 0 ≠ some "len")
    (h : decideCallFunction registry inst s = .ok d) :
    ∃ d', decideCallFunction registry inst (s.subst ρ) = .ok d' ∧ d.Instance ρ d' := by
  obtain ⟨name, hname, h⟩ := bind_eq_ok.mp h
  obtain ⟨args, hargs, h⟩ := bind_eq_ok.mp h
  unfold decideCallFunction
  rw [hname, ok_bind, resolveAll_subst hargs, ok_bind]
  cases hb : Builtin.ofName? name with
  | some b =>
    rw [hb] at h
    refine callBuiltin_subst ?_ h
    rintro rfl
    have : name = "len" := by
      unfold Builtin.ofName? at hb
      split at hb <;> first | rfl | simp at hb
    exact hlen (this ▸ text_eq_ok.mp hname)
  | none =>
    rw [hb] at h
    obtain ⟨target, htarget, h⟩ := bind_eq_ok.mp h
    have htarget' : orRefuse (.unresolvedFunction name)
        (((s.subst ρ).lookup? name).bind Value.str?) = .ok target := by
      obtain ⟨v, hv, hstr⟩ := Option.bind_eq_some_iff.mp (orRefuse_eq_ok.mp htarget)
      rw [orRefuse_eq_ok, State.lookup?_subst, hv, Option.map_some, Option.bind_some]
      exact Value.str?_subst hstr
    dsimp only
    rw [htarget', ok_bind]
    cases hf : FunctionRef.parse? target with
    | some f =>
      rw [hf] at h
      exact dispatch_subst h
    | none =>
      rw [hf] at h
      dsimp only at h ⊢
      cases hc : ClassRef.parse? target with
      | some c =>
        rw [hc] at h
        exact construct_subst h
      | none =>
        rw [hc] at h
        contradiction

/-! ### All instructions -/

/-- What the engine decides it decides for every instance of the unknowns, as long as the
substitution leaves the next unknown alone. -/
theorem decide_subst (hρ : KeepsNext ρ s) (harray : inst.opcode ≠ .newArray)
    (hmethod : inst.opcode ≠ .callMethod)
    (hlen : ¬ (inst.opcode = .callFunction ∧ inst.text? 0 = some "len"))
    (hindex : ¬ NegativeIndex inst s) (h : decide registry inst s = .ok d) :
    ∃ d', decide registry inst (s.subst ρ) = .ok d' ∧ d.Instance ρ d' := by
  unfold decide at h ⊢
  split at h
  case h_1 hop =>
    obtain rfl := Except.ok.inj h
    exact ⟨_, rfl, .of_reasoning "" ""⟩
  case h_2 hop => exact decideConst_subst h
  case h_3 hop => exact decideLoadVar_subst hρ h
  case h_4 hop => exact decideStoreVar_subst h
  case h_5 hop => exact decideNewObject_subst h
  case h_6 hop => exact absurd hop harray
  case h_7 hop => exact decideLoad_subst hρ hindex h
  case h_8 hop => exact decideLoad_subst hρ hindex h
  case h_9 hop => exact decideStore_subst h
  case h_10 hop => exact decideStore_subst h
  case h_11 hop => exact decideBinop_subst h
  case h_12 hop => exact decideUnop_subst h
  case h_13 hop =>
    obtain rfl := Except.ok.inj h
    exact ⟨_, rfl, _, rfl⟩
  case h_14 hop => exact decideBranchIf_subst h
  case h_15 hop => exact decideCallFunction_subst (fun hname => hlen ⟨hop, hname⟩) h
  case h_16 hop => exact absurd hop hmethod
  case h_17 hop => exact decideReturn_subst h
  case h_18 hop => exact decideSymbolic_subst h
  case h_19 => contradiction
  case h_20 => contradiction

/-- **Decisions are sound for every instance of the unknowns.** Take a decision that the engine
makes in a state, an unknown `x` other than the next one, and any value `v`. With `v` in the place
of `x` everywhere in the state the engine makes the same decision, with `v` in the place of `x` in
all values that it writes; only the text that explains it may differ.

The instructions left out ask whether something is an integer or a function, and do something else
when it is an unknown: making an array, calling a method, `len`, and loading at an index from the
end. -/
theorem decide_replacing {x : String} {v : Value} (hx : x ≠ IdKind.symbol.name s.counter)
    (harray : inst.opcode ≠ .newArray) (hmethod : inst.opcode ≠ .callMethod)
    (hlen : ¬ (inst.opcode = .callFunction ∧ inst.text? 0 = some "len"))
    (hindex : ¬ NegativeIndex inst s) (h : decide registry inst s = .ok d) :
    ∃ reasoning, decide registry inst (s.subst (Value.replacing x v)) =
      .ok { d.subst (Value.replacing x v) with reasoning } := by
  have hkeeps : KeepsNext (Value.replacing x v) s := by
    intro y hy
    unfold Value.replacing
    rw [if_neg (fun hname => hx (hname.symm.trans hy))]
  obtain ⟨d', hd', reasoning, rfl⟩ := decide_subst hkeeps harray hmethod hlen hindex h
  exact ⟨reasoning, hd'⟩

/-- A state with a list in a field whose first item is not known. -/
def partlyKnownList : State where
  heap := Dict.empty.insert "obj_0"
    { fields := Dict.empty.insert "items" (.list [.symbolic { name := "sym_1" }, .int 2]) }
  frames := [{ function := mainFrameName, registers := Dict.empty.insert "%0" (.str "obj_0") }]
  counter := 2

/-- The instruction that loads the list. -/
def loadList : Instruction where
  opcode := .loadField
  result := some "%1"
  operands := [.text "%0", .text "items"]

/-- Loading the list when its first item is 5. -/
theorem decide_replacing_partlyKnownList :
    ∃ reasoning,
      decide {} loadList (partlyKnownList.subst (Value.replacing "sym_1" (.int 5))) =
        .ok { registerWrites := Dict.empty.insert "%1" (.list [.int 5, .int 2]), reasoning } := by
  let loaded : Dict Value :=
    Dict.empty.insert "%1" (.list [.symbolic { name := "sym_1" }, .int 2])
  have hdecide : decide {} loadList partlyKnownList =
      .ok { registerWrites := loaded, reasoning := "load obj_0[items]" } := by
    rfl
  obtain ⟨reasoning, h⟩ := decide_replacing (x := "sym_1") (v := .int 5) (by decide) (by decide)
    (by decide) (by decide) (fun hindex => absurd hindex.1 (by decide)) hdecide
  exact ⟨reasoning, h⟩

end SymbolicVM.Engine
