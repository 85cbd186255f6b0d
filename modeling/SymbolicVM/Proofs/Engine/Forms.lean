import SymbolicVM.Proofs.Engine.Operands
import SymbolicVM.Proofs.Operator.Unknowns

/-!
# The forms of the engine's decisions

Twenty opcodes and the builtin functions lead to eleven forms of deltas. `Engine.Form` lists them
with all their fields and with what is known where the engine decides so, and `Engine.decide_form`
says that every decision has one of the forms. What decisions may touch, ask of control or capture
is read off the forms, and no other proof goes through the opcodes for it.
-/

namespace SymbolicVM

/-- The value is put together from values of the state. -/
def Value.Known (v : Value) (s : State) : Prop :=
  v.Built (· ∈ s.values)

/-- The opcodes of the instructions that the engine decides with a result. -/
def Opcode.producers : List Opcode :=
  [.const, .loadVar, .loadField, .loadIndex, .newObject, .newArray, .binop, .unop, .callFunction,
    .callMethod, .symbolic]

/-- The register write that gives an instruction its result, if it names a register. -/
def Instruction.resultWrites (inst : Instruction) (v : Value) : Dict Value :=
  inst.result.elim .empty fun reg => Dict.empty.insert reg v

/-- Only the registers of a delta change when a result is produced. -/
theorem Delta.produce_eq {d : Delta} (h : d.registerWrites = .empty) (inst : Instruction)
    (v : Value) : d.produce inst v = { d with registerWrites := inst.resultWrites v } := by
  unfold Delta.produce Instruction.resultWrites
  cases inst.result with
  | none =>
    rw [Option.elim_none, ← h]
  | some reg =>
    unfold Delta.writeRegister
    rw [Option.elim_some, h]

theorem Delta.allocations_produce (d : Delta) (inst : Instruction) (v : Value) :
    (d.produce inst v).allocations = d.allocations := by
  unfold Delta.produce
  cases inst.result with
  | none => rfl
  | some reg => rfl

namespace Engine

/-- The forms that the engine's decisions have. -/
inductive Form (registry : Registry) (inst : Instruction) (s : State) : Delta → Prop where
  /-- Nothing happens. -/
  | idles (opcode : inst.opcode = .label) : Form registry inst s {}
  /-- Control goes to the label of the instruction. -/
  | jumps {why : String} (opcode : inst.opcode = .branch) :
    Form registry inst s { nextLabel := inst.label, reasoning := why }
  /-- Control goes to the target that a condition with a known truth value picks. -/
  | branches {onTrue onFalse why : String} {condition : Operand} {v : Value} {taken : Bool}
      (opcode : inst.opcode = .branchIf)
      (targets : inst.branchTargets? = some (onTrue, onFalse))
      (operand : inst.operand? 0 = some condition) (resolved : resolve s condition = .ok v)
      (truth : v.truthy? = some taken) :
    Form registry inst s
      { nextLabel := some (if taken then onTrue else onFalse)
        pathCondition := some (condition.render ++ " is " ++ (Value.bool taken).render)
        reasoning := why }
  /-- The frame ends with a value. -/
  | returns {v : Value} {why : String} (opcode : inst.opcode = .ret) (known : v.Known s) :
    Form registry inst s { returnValue := some v, callPop := true, reasoning := why }
  /-- A variable is written. -/
  | assigns {name why : String} {v : Value} (opcode : inst.opcode = .storeVar)
      (known : v.Known s) :
    Form registry inst s { varWrites := Dict.empty.insert name v, reasoning := why }
  /-- A field of an object is written. -/
  | stores {w : HeapWrite} {why : String}
      (opcode : inst.opcode = .storeField ∨ inst.opcode = .storeIndex)
      (live : w.address ∈ s.heap.keys) (known : w.value.Known s) :
    Form registry inst s { heapWrites := [w], reasoning := why }
  /-- The result is known. -/
  | gives {v : Value} {why : String} (produces : inst.opcode ∈ Opcode.producers)
      (known : v.Known s) :
    Form registry inst s { registerWrites := inst.resultWrites v, reasoning := why }
  /-- The result is a new unknown, which an object may remember. -/
  | invents {x : Symbolic} {writes : List HeapWrite} {why : String}
      (produces : inst.opcode ∈ Opcode.producers) (name : x.name = IdKind.symbol.name s.counter)
      (room : s.counter + 1 < counterBound)
      (live : ∀ w ∈ writes, w.address ∈ s.heap.keys ∧ w.value = .symbolic x) :
    Form registry inst s
      { registerWrites := inst.resultWrites (.symbolic x), heapWrites := writes, reasoning := why }
  /-- The result is a function over a new environment with the locals of the frame. -/
  | captures {v : Value} {frame caller : Frame} {callers : List Frame} {why : String}
      (opcode : inst.opcode = .const) (scalar : v.isScalar = true)
      (frames : s.frames = frame :: caller :: callers) (owned : frame.ownedEnv = none)
      (room : s.counter + 1 < counterBound) :
    Form registry inst s
      { registerWrites := inst.resultWrites v
        newClosure := some
          { id := IdKind.environment.name s.counter, bindings := frame.locals
            parent := frame.closureEnv }
        reasoning := why }
  /-- The result is the address of a new object or array, which may have fields. -/
  | allocates {kind : IdKind} {hint : Option String} {writes : List HeapWrite} {why : String}
      (produces : inst.opcode ∈ Opcode.producers) (onHeap : kind ∈ [IdKind.object, .array])
      (room : s.counter + 1 < counterBound)
      (fields : ∀ w ∈ writes, w.address = kind.name s.counter ∧ w.value.Known s) :
    Form registry inst s
      { registerWrites := inst.resultWrites (.str (kind.name s.counter))
        newObjects := [⟨kind.name s.counter, hint⟩], heapWrites := writes, reasoning := why }
  /-- A function whose parameters are known is called. -/
  | calls {f : FunctionRef} {params : List String} {vars : Dict Value} {why : String}
      (opcode : inst.opcode = .callFunction ∨ inst.opcode = .callMethod)
      (entry : registry.parameters? f.label = some params)
      (bound : ∀ v ∈ vars.values, v.Known s) :
    Form registry inst s
      { varWrites := vars, callPush := some { function := f.name, closureEnv := f.env }
        nextLabel := some f.label, reasoning := why }
  /-- The result is the address of a new object, and the constructor of its class is called. -/
  | constructs {c : ClassRef} {name label : String} {vars : Dict Value} {why : String}
      (opcode : inst.opcode = .callFunction)
      (entry : registry.constructor? c.name = some (name, label))
      (room : s.counter + 1 < counterBound) (bound : ∀ v ∈ vars.values, v.Known s) :
    Form registry inst s
      { registerWrites := inst.resultWrites (.str (IdKind.object.name s.counter))
        varWrites := vars, newObjects := [⟨IdKind.object.name s.counter, some c.name⟩]
        callPush := some { function := name, isConstructor := true }
        nextLabel := some label, reasoning := why }

variable {s : State} {inst : Instruction} {d : Delta} {registry : Registry}

theorem known_of_resolve {op : Operand} {v : Value} (h : resolve s op = .ok v) : v.Known s := by
  rcases mem_or_isScalar_of_resolve h with hmem | hscalar
  · exact .given hmem
  · exact .scalar hscalar

theorem known_of_resolveAll {ops : List Operand} {vs : List Value}
    (h : resolveAll s ops = .ok vs) : ∀ v ∈ vs, v.Known s := by
  intro v hv
  rcases mem_or_isScalar_of_resolveAll h v hv with hmem | hscalar
  · exact .given hmem
  · exact .scalar hscalar

/-! ### Results -/

/-- A delta that explains itself and produces a known result. -/
theorem form_produce (hopcode : inst.opcode ∈ Opcode.producers) {v : Value} (hv : v.Known s)
    (why : String) : Form registry inst s ({ reasoning := why : Delta }.produce inst v) := by
  rw [Delta.produce_eq rfl]
  exact .gives hopcode hv

/-- An environment is made in a frame that owns none and is not the outermost one, and it has the
locals of the frame. -/
theorem closureFor_eq_ok {env : String} {c : NewClosure}
    (h : closureFor s = .ok (some (env, some c))) :
    ∃ frame caller callers, s.frames = frame :: caller :: callers ∧ frame.ownedEnv = none ∧
      s.counter + 1 < counterBound ∧
      c = { id := IdKind.environment.name s.counter, bindings := frame.locals,
            parent := frame.closureEnv } := by
  unfold closureFor at h
  split at h
  · rename_i frame caller callers hframes
    split at h
    · simp at h
    · rename_i howned
      obtain ⟨id, hid, h⟩ := bind_eq_ok.mp h
      obtain ⟨-, hc⟩ := Prod.mk.inj (Option.some.inj (Except.ok.inj h))
      obtain ⟨rfl, hroom⟩ := fresh_eq_ok.mp hid
      exact ⟨frame, caller, callers, hframes, howned, hroom, (Option.some.inj hc).symm⟩
  · simp at h

/-- Closing over a literal gives a scalar, and the environment that is made for it if one is. -/
theorem closeOver_eq_ok {raw v : Value} {closure : Option NewClosure} (hraw : raw.isScalar = true)
    (h : closeOver s raw = .ok (v, closure)) :
    v.isScalar = true ∧
      ∀ c, closure = some c → ∃ env, closureFor s = .ok (some (env, some c)) := by
  unfold closeOver at h
  split at h
  · obtain ⟨rfl, rfl⟩ := Prod.mk.inj (Except.ok.inj h)
    exact ⟨hraw, by simp⟩
  · split_ifs at h
    · obtain ⟨rfl, rfl⟩ := Prod.mk.inj (Except.ok.inj h)
      exact ⟨hraw, by simp⟩
    · obtain ⟨env?, henv, h⟩ := bind_eq_ok.mp h
      split at h
      · obtain ⟨rfl, rfl⟩ := Prod.mk.inj (Except.ok.inj h)
        exact ⟨hraw, by simp⟩
      · rename_i env closure'
        obtain ⟨rfl, rfl⟩ := Prod.mk.inj (Except.ok.inj h)
        exact ⟨rfl, fun c hc => ⟨env, hc ▸ henv⟩⟩

theorem form_decideConst (hopcode : inst.opcode = .const) (h : decideConst inst s = .ok d) :
    Form registry inst s d := by
  obtain ⟨⟨v, closure⟩, hclose, h⟩ := bind_eq_ok.mp h
  obtain rfl := Except.ok.inj h
  have hraw : (((inst.operand? 0).map Operand.literal).getD .null).isScalar = true := by
    cases inst.operand? 0 with
    | none => rfl
    | some op => exact op.isScalar_literal
  obtain ⟨hv, hclosure⟩ := closeOver_eq_ok hraw hclose
  rw [Delta.produce_eq rfl]
  cases closure with
  | none => exact .gives (by simp [Opcode.producers, hopcode]) (.scalar hv)
  | some c =>
    obtain ⟨env, henv⟩ := hclosure c rfl
    obtain ⟨frame, caller, callers, hframes, howned, hroom, rfl⟩ := closureFor_eq_ok henv
    exact .captures hopcode hv hframes howned hroom

theorem form_decideLoadVar (hopcode : inst.opcode = .loadVar) (h : decideLoadVar inst s = .ok d) :
    Form registry inst s d := by
  have hproduces : inst.opcode ∈ Opcode.producers := by simp [Opcode.producers, hopcode]
  obtain ⟨name, -, h⟩ := bind_eq_ok.mp h
  split at h
  · rename_i v hv
    obtain rfl := Except.ok.inj h
    exact form_produce hproduces (.given (State.mem_values_of_lookup? hv)) _
  · obtain ⟨sym, hsym, h⟩ := bind_eq_ok.mp h
    obtain rfl := Except.ok.inj h
    obtain ⟨rfl, hroom⟩ := fresh_eq_ok.mp hsym
    rw [Delta.produce_eq rfl]
    exact .invents hproduces rfl hroom (by simp)

theorem form_decideSymbolic (hopcode : inst.opcode = .symbolic)
    (h : decideSymbolic inst s = .ok d) : Form registry inst s d := by
  obtain ⟨hint, -, h⟩ := bind_eq_ok.mp h
  obtain ⟨param, -, h⟩ := bind_eq_ok.mp h
  obtain ⟨v, hv, h⟩ := bind_eq_ok.mp h
  obtain rfl := Except.ok.inj h
  obtain ⟨frame, hframe, hlocal⟩ := Option.bind_eq_some_iff.mp (orRefuse_eq_ok.mp hv)
  have hmem : v ∈ s.values := State.mem_values_of_local (State.current?_mem hframe) hlocal
  exact form_produce (by simp [Opcode.producers, hopcode]) (.given hmem) _

theorem form_decideBinop (hopcode : inst.opcode = .binop) (h : decideBinop inst s = .ok d) :
    Form registry inst s d := by
  obtain ⟨word, -, h⟩ := bind_eq_ok.mp h
  obtain ⟨op, -, h⟩ := bind_eq_ok.mp h
  obtain ⟨leftOp, -, h⟩ := bind_eq_ok.mp h
  obtain ⟨l, hl, h⟩ := bind_eq_ok.mp h
  obtain ⟨rightOp, -, h⟩ := bind_eq_ok.mp h
  obtain ⟨r, hr, h⟩ := bind_eq_ok.mp h
  obtain ⟨v, hv, h⟩ := bind_eq_ok.mp h
  obtain rfl := Except.ok.inj h
  have hknown : v.Known s := BinaryOp.built_eval (known_of_resolve (concrete_eq_ok.mp hl).1)
    (known_of_resolve (concrete_eq_ok.mp hr).1) (orRefuse_eq_ok.mp hv)
  exact form_produce (by simp [Opcode.producers, hopcode]) hknown _

theorem form_decideUnop (hopcode : inst.opcode = .unop) (h : decideUnop inst s = .ok d) :
    Form registry inst s d := by
  obtain ⟨word, -, h⟩ := bind_eq_ok.mp h
  obtain ⟨op, -, h⟩ := bind_eq_ok.mp h
  obtain ⟨xOp, -, h⟩ := bind_eq_ok.mp h
  obtain ⟨x, -, h⟩ := bind_eq_ok.mp h
  obtain ⟨v, hv, h⟩ := bind_eq_ok.mp h
  obtain rfl := Except.ok.inj h
  have hknown : v.Known s := .scalar (UnaryOp.isScalar_eval (orRefuse_eq_ok.mp hv))
  exact form_produce (by simp [Opcode.producers, hopcode]) hknown _

/-! ### Variables, objects and arrays -/

theorem form_decideStoreVar (hopcode : inst.opcode = .storeVar)
    (h : decideStoreVar inst s = .ok d) : Form registry inst s d := by
  obtain ⟨name, -, h⟩ := bind_eq_ok.mp h
  obtain ⟨op, -, h⟩ := bind_eq_ok.mp h
  obtain ⟨v, hv, h⟩ := bind_eq_ok.mp h
  obtain rfl := Except.ok.inj h
  exact .assigns hopcode (known_of_resolve hv)

theorem form_decideNewObject (hopcode : inst.opcode = .newObject)
    (h : decideNewObject inst s = .ok d) : Form registry inst s d := by
  obtain ⟨address, haddress, h⟩ := bind_eq_ok.mp h
  obtain rfl := Except.ok.inj h
  obtain ⟨rfl, hroom⟩ := fresh_eq_ok.mp haddress
  rw [Delta.produce_eq rfl]
  exact .allocates (by simp [Opcode.producers, hopcode]) (by simp) hroom
    fun w hw => absurd hw List.not_mem_nil

/-- The length of a new array, if its size is an integer. -/
def lengthWrites (address : String) : Option Value → List HeapWrite
  | some (.int n) => [⟨address, "length", .int n⟩]
  | _ => []

theorem decideNewArray_eq_ok (h : decideNewArray inst s = .ok d) :
    ∃ size why, arraySize? inst s = .ok size ∧ s.counter + 1 < counterBound ∧
      d = { registerWrites := inst.resultWrites (.str (IdKind.array.name s.counter))
            newObjects := [⟨IdKind.array.name s.counter, (inst.operand? 0).map Operand.render⟩]
            heapWrites := lengthWrites (IdKind.array.name s.counter) size
            reasoning := why } := by
  rw [decideNewArray_eq] at h
  obtain ⟨size, hsize, h⟩ := bind_eq_ok.mp h
  obtain ⟨address, haddress, h⟩ := bind_eq_ok.mp h
  obtain ⟨rfl, hroom⟩ := fresh_eq_ok.mp haddress
  refine ⟨size, "new array " ++ IdKind.array.name s.counter, hsize, hroom, ?_⟩
  rw [← Except.ok.inj h]
  cases size with
  | none => exact Delta.produce_eq rfl _ _
  | some v =>
    cases v with
    | _ => exact Delta.produce_eq rfl _ _

theorem form_decideNewArray (hopcode : inst.opcode = .newArray)
    (h : decideNewArray inst s = .ok d) : Form registry inst s d := by
  obtain ⟨size, why, -, hroom, rfl⟩ := decideNewArray_eq_ok h
  refine .allocates (by simp [Opcode.producers, hopcode]) (by simp) hroom fun w hw => ?_
  unfold lengthWrites at hw
  split at hw
  · rw [List.mem_singleton.mp hw]
    exact ⟨rfl, .scalar rfl⟩
  · exact absurd hw List.not_mem_nil

theorem mem_keys_of_heapObject {op : Operand} {address : String} {obj : HeapObject}
    (h : heapObject s op = .ok (address, obj)) : address ∈ s.heap.keys := by
  obtain ⟨base, -, -, hget⟩ := heapObject_eq_ok.mp h
  exact Dict.mem_keys_of_get? hget

theorem form_loadFromHeap (hproduces : inst.opcode ∈ Opcode.producers) {base key : Operand}
    (h : loadFromHeap inst s base key = .ok d) : Form registry inst s d := by
  rw [loadFromHeap_eq] at h
  obtain ⟨⟨address, obj⟩, hobj, h⟩ := bind_eq_ok.mp h
  obtain ⟨name, -, h⟩ := bind_eq_ok.mp h
  obtain ⟨field, -, h⟩ := bind_eq_ok.mp h
  unfold loadField at h
  dsimp only at h
  split at h
  · rename_i v hv
    obtain rfl := Except.ok.inj h
    obtain ⟨base, -, -, hget⟩ := heapObject_eq_ok.mp hobj
    exact form_produce hproduces (.given (State.mem_values_of_field hget hv)) _
  · obtain ⟨sym, hsym, h⟩ := bind_eq_ok.mp h
    obtain rfl := Except.ok.inj h
    obtain ⟨rfl, hroom⟩ := fresh_eq_ok.mp hsym
    rw [Delta.produce_eq rfl]
    refine .invents hproduces rfl hroom fun w hw => ?_
    rw [List.mem_singleton.mp hw]
    exact ⟨mem_keys_of_heapObject hobj, rfl⟩

theorem form_decideLoad (hproduces : inst.opcode ∈ Opcode.producers)
    (h : decideLoad inst s = .ok d) : Form registry inst s d := by
  rw [decideLoad_eq] at h
  obtain ⟨baseOperand, -, h⟩ := bind_eq_ok.mp h
  obtain ⟨base, hbase, h⟩ := bind_eq_ok.mp h
  obtain ⟨key, -, h⟩ := bind_eq_ok.mp h
  obtain ⟨direct, hdirect, h⟩ := bind_eq_ok.mp h
  split at h
  · rename_i v
    obtain rfl := Except.ok.inj h
    unfold loadedPart? at hdirect
    split_ifs at hdirect
    · exact form_produce hproduces (built_of_indexValue? (known_of_resolve hbase) hdirect) _
    · simp at hdirect
  · exact form_loadFromHeap hproduces h

theorem form_decideStore (hopcode : inst.opcode = .storeField ∨ inst.opcode = .storeIndex)
    (h : decideStore inst s = .ok d) : Form registry inst s d := by
  obtain ⟨op, -, h⟩ := bind_eq_ok.mp h
  obtain ⟨⟨address, obj⟩, hobj, h⟩ := bind_eq_ok.mp h
  obtain ⟨keyOp, -, h⟩ := bind_eq_ok.mp h
  obtain ⟨key, -, h⟩ := bind_eq_ok.mp h
  obtain ⟨valueOp, -, h⟩ := bind_eq_ok.mp h
  obtain ⟨v, hv, h⟩ := bind_eq_ok.mp h
  obtain rfl := Except.ok.inj h
  exact .stores (w := ⟨address, key, v⟩) hopcode (mem_keys_of_heapObject hobj)
    (known_of_resolve hv)

/-! ### Control -/

theorem form_decideBranchIf (hopcode : inst.opcode = .branchIf)
    (h : decideBranchIf inst s = .ok d) : Form registry inst s d := by
  obtain ⟨⟨onTrue, onFalse⟩, htargets, h⟩ := bind_eq_ok.mp h
  obtain ⟨condition, hoperand, h⟩ := bind_eq_ok.mp h
  obtain ⟨v, hv, h⟩ := bind_eq_ok.mp h
  obtain ⟨taken, htaken, h⟩ := bind_eq_ok.mp h
  obtain rfl := Except.ok.inj h
  exact .branches hopcode (orRefuse_eq_ok.mp htargets) (operand_eq_ok.mp hoperand) hv
    (orRefuse_eq_ok.mp htaken)

theorem form_decideReturn (hopcode : inst.opcode = .ret) (h : decideReturn inst s = .ok d) :
    Form registry inst s d := by
  unfold decideReturn at h
  split at h
  · obtain ⟨v, hv, h⟩ := bind_eq_ok.mp h
    obtain rfl := Except.ok.inj h
    exact .returns hopcode (known_of_resolve hv)
  · obtain rfl := Except.ok.inj h
    exact .returns hopcode (.scalar rfl)

/-! ### Calls -/

/-- Binding arguments writes variables and nothing else. -/
theorem bindArguments_eq (params : List String) (args : List Value) (d : Delta) :
    ∃ vars, bindArguments d params args = { d with varWrites := vars } := by
  induction params generalizing args d with
  | nil => exact ⟨d.varWrites, rfl⟩
  | cons name params ih =>
    cases args with
    | nil => exact ⟨d.varWrites, rfl⟩
    | cons a args =>
      obtain ⟨vars, heq⟩ := ih args (d.writeVar name a)
      exact ⟨vars, heq⟩

theorem mem_values_bindArguments {params : List String} {args : List Value} {v : Value}
    (h : v ∈ (bindArguments d params args).varWrites.values) :
    v ∈ d.varWrites.values ∨ v ∈ args := by
  induction params generalizing args d with
  | nil => exact .inl h
  | cons name params ih =>
    cases args with
    | nil => exact .inl h
    | cons a args =>
      rcases ih h with hwritten | hmem
      · rcases Dict.mem_values_insert hwritten with rfl | hwritten
        · exact .inr List.mem_cons_self
        · exact .inl hwritten
      · exact .inr (List.mem_cons_of_mem _ hmem)

/-- Where no variable is written yet, binding known arguments writes known values. -/
theorem known_bindArguments {d' : Delta} {params : List String} {args : List Value}
    (h : bindArguments d params args = d') (hd : d.varWrites = .empty)
    (hargs : ∀ v ∈ args, v.Known s) :
    ∃ vars, d' = { d with varWrites := vars } ∧ ∀ v ∈ vars.values, v.Known s := by
  obtain ⟨vars, heq⟩ := bindArguments_eq params args d
  refine ⟨vars, h.symm.trans heq, fun v hv => ?_⟩
  have hbound : v ∈ (bindArguments d params args).varWrites.values := by rwa [heq]
  rcases mem_values_bindArguments hbound with hwritten | hmem
  · rw [hd] at hwritten
    exact absurd hwritten List.not_mem_nil
  · exact hargs v hmem

theorem form_dispatch (hopcode : inst.opcode = .callFunction ∨ inst.opcode = .callMethod)
    {f : FunctionRef} {args : List Value} (hargs : ∀ v ∈ args, v.Known s)
    (h : dispatch registry f args = .ok d) : Form registry inst s d := by
  obtain ⟨params, hparams, h⟩ := bind_eq_ok.mp h
  obtain ⟨vars, rfl, hvars⟩ := known_bindArguments (Except.ok.inj h) rfl hargs
  exact .calls hopcode (orRefuse_eq_ok.mp hparams) hvars

theorem form_construct (hopcode : inst.opcode = .callFunction) {c : ClassRef} {args : List Value}
    (hargs : ∀ v ∈ args, v.Known s) (h : construct registry c args inst s = .ok d) :
    Form registry inst s d := by
  obtain ⟨address, haddress, h⟩ := bind_eq_ok.mp h
  obtain ⟨rfl, hroom⟩ := fresh_eq_ok.mp haddress
  dsimp only at h
  rw [Delta.produce_eq rfl] at h
  split at h
  · obtain rfl := Except.ok.inj h
    exact .allocates (by simp [Opcode.producers, hopcode]) (by simp) hroom
      fun w hw => absurd hw List.not_mem_nil
  · rename_i name label hconstructor
    have hself : ∀ v ∈ .str (IdKind.object.name s.counter) :: args, v.Known s := by
      intro v hv
      rcases List.mem_cons.mp hv with rfl | hv
      · exact .scalar rfl
      · exact hargs v hv
    obtain ⟨vars, rfl, hvars⟩ := known_bindArguments (Except.ok.inj h) rfl hself
    exact .constructs hopcode hconstructor hroom hvars

/-- Filling an array writes its items to its address. -/
theorem foldl_writeHeap_eq (address : String) (es : List (Value × Nat)) (d : Delta) :
    ∃ writes, es.foldl (fun (d : Delta) e =>
        d.writeHeap address (Text.ofInt64 (Int64.ofNat e.2)) e.1) d =
        { d with heapWrites := d.heapWrites ++ writes } ∧
      ∀ w ∈ writes, w.address = address ∧ ∃ e ∈ es, w.value = e.1 := by
  induction es generalizing d with
  | nil => exact ⟨[], by rw [List.append_nil]; rfl, by simp⟩
  | cons e es ih =>
    obtain ⟨writes, heq, hwrites⟩ := ih (d.writeHeap address (Text.ofInt64 (Int64.ofNat e.2)) e.1)
    refine ⟨⟨address, Text.ofInt64 (Int64.ofNat e.2), e.1⟩ :: writes, ?_, ?_⟩
    · rw [List.foldl_cons, heq]
      exact congrArg (fun ws => { d with heapWrites := ws }) (List.append_assoc _ _ _)
    · intro w hw
      rcases List.mem_cons.mp hw with rfl | hw
      · exact ⟨rfl, e, List.mem_cons_self, rfl⟩
      · obtain ⟨haddress, e', he', hvalue⟩ := hwrites w hw
        exact ⟨haddress, e', List.mem_cons_of_mem _ he', hvalue⟩

/-- An array is made by announcing it and writing its fields. -/
theorem arrayDelta_eq (address : String) (items : List Value) :
    ∃ writes, Builtin.arrayDelta address items =
        { newObjects := [⟨address, some "array"⟩], heapWrites := writes } ∧
      ∀ w ∈ writes, w.address = address ∧ (w.value ∈ items ∨ w.value.isScalar = true) := by
  obtain ⟨writes, heq, hwrites⟩ := foldl_writeHeap_eq address items.zipIdx
    (({} : Delta).allocate address (some "array"))
  refine ⟨writes ++ [⟨address, "length", .int (Int64.ofNat items.length)⟩], ?_, ?_⟩
  · show (items.zipIdx.foldl (fun (d : Delta) e =>
      d.writeHeap address (Text.ofInt64 (Int64.ofNat e.2)) e.1) _).writeHeap address "length" _ = _
    rw [heq]
    rfl
  · intro w hw
    rcases List.mem_append.mp hw with hw | hw
    · obtain ⟨haddress, e, he, hvalue⟩ := hwrites w hw
      exact ⟨haddress, .inl (hvalue ▸ List.fst_mem_of_mem_zipIdx he)⟩
    · rw [List.mem_singleton.mp hw]
      exact ⟨rfl, .inr rfl⟩

theorem form_callBuiltin (hproduces : inst.opcode ∈ Opcode.producers) {name : String} {b : Builtin}
    {args : List Value} (hargs : ∀ v ∈ args, v.Known s)
    (h : callBuiltin name b args inst s = .ok d) : Form registry inst s d := by
  unfold callBuiltin at h
  split_ifs at h
  · obtain ⟨address, haddress, h⟩ := bind_eq_ok.mp h
    obtain rfl := Except.ok.inj h
    obtain ⟨rfl, hroom⟩ := fresh_eq_ok.mp haddress
    obtain ⟨writes, heq, hwrites⟩ := arrayDelta_eq (IdKind.array.name s.counter) args
    rw [heq, Delta.produce_eq rfl]
    refine .allocates hproduces (by simp) hroom fun w hw => ?_
    obtain ⟨hwrite, hitem | hscalar⟩ := hwrites w hw
    · exact ⟨hwrite, hargs w.value hitem⟩
    · exact ⟨hwrite, .scalar hscalar⟩
  · obtain ⟨v, hv, h⟩ := bind_eq_ok.mp h
    obtain rfl := Except.ok.inj h
    exact form_produce hproduces (Builtin.built_value? hargs (orRefuse_eq_ok.mp hv)) _

theorem form_decideCallFunction (hopcode : inst.opcode = .callFunction)
    (h : decideCallFunction registry inst s = .ok d) : Form registry inst s d := by
  obtain ⟨name, -, h⟩ := bind_eq_ok.mp h
  obtain ⟨args, hargs, h⟩ := bind_eq_ok.mp h
  have hknown := known_of_resolveAll hargs
  split at h
  · exact form_callBuiltin (by simp [Opcode.producers, hopcode]) hknown h
  · obtain ⟨target, -, h⟩ := bind_eq_ok.mp h
    split at h
    · exact form_dispatch (.inl hopcode) hknown h
    · split at h
      · exact form_construct hopcode hknown h
      · contradiction

theorem form_decideCallMethod (hopcode : inst.opcode = .callMethod)
    (h : decideCallMethod registry inst s = .ok d) : Form registry inst s d := by
  obtain ⟨op, -, h⟩ := bind_eq_ok.mp h
  obtain ⟨⟨address, obj⟩, -, h⟩ := bind_eq_ok.mp h
  obtain ⟨method, -, h⟩ := bind_eq_ok.mp h
  obtain ⟨args, hargs, h⟩ := bind_eq_ok.mp h
  have hknown := known_of_resolveAll hargs
  split at h
  · exact form_dispatch (.inr hopcode) hknown h
  · obtain ⟨cls, -, h⟩ := bind_eq_ok.mp h
    obtain ⟨label, -, h⟩ := bind_eq_ok.mp h
    refine form_dispatch (.inr hopcode) (fun v hv => ?_) h
    rcases List.mem_cons.mp hv with rfl | hv
    · exact .scalar rfl
    · exact hknown v hv

/-! ### All instructions -/

/-- **Every decision has one of the forms.** -/
theorem decide_form (h : decide registry inst s = .ok d) : Form registry inst s d := by
  unfold decide at h
  split at h
  case h_1 hop =>
    obtain rfl := Except.ok.inj h
    exact .idles hop
  case h_2 hop => exact form_decideConst hop h
  case h_3 hop => exact form_decideLoadVar hop h
  case h_4 hop => exact form_decideStoreVar hop h
  case h_5 hop => exact form_decideNewObject hop h
  case h_6 hop => exact form_decideNewArray hop h
  case h_7 hop => exact form_decideLoad (by simp [Opcode.producers, hop]) h
  case h_8 hop => exact form_decideLoad (by simp [Opcode.producers, hop]) h
  case h_9 hop => exact form_decideStore (.inl hop) h
  case h_10 hop => exact form_decideStore (.inr hop) h
  case h_11 hop => exact form_decideBinop hop h
  case h_12 hop => exact form_decideUnop hop h
  case h_13 hop =>
    obtain rfl := Except.ok.inj h
    exact .jumps hop
  case h_14 hop => exact form_decideBranchIf hop h
  case h_15 hop => exact form_decideCallFunction hop h
  case h_16 hop => exact form_decideCallMethod hop h
  case h_17 hop => exact form_decideReturn hop h
  case h_18 hop => exact form_decideSymbolic hop h
  case h_19 => contradiction
  case h_20 => contradiction

end Engine

end SymbolicVM
