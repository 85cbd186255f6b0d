import SymbolicVM.Proofs.Value.Substitution
import SymbolicVM.Engine.Builtin
import SymbolicVM.Engine.Decide

/-!
# Instances of states and deltas

A substitution for the unknowns acts on all values of a state and on all values that a delta writes.
Reading a register, a field or a variable of an instance gives the instance of what is read
(`State.lookup?_subst`), since a substitution changes no key and no link between environments.

`Delta.Instance` relates the delta of a decision to that of the same decision in an instance of the
state: it is the instance of the first one but for the text that explains it. The operations by
which deltas are made respect this relation.
-/

namespace SymbolicVM

variable (ρ : Symbolic → Value)

/-! ### States -/

/-- The object with every symbolic part of its fields replaced. -/
def HeapObject.subst (o : HeapObject) : HeapObject :=
  { o with fields := o.fields.mapValues (Value.subst ρ) }

/-- The frame with every symbolic part of its registers and locals replaced. -/
def Frame.subst (f : Frame) : Frame :=
  { f with
    registers := f.registers.mapValues (Value.subst ρ)
    locals := f.locals.mapValues (Value.subst ρ) }

/-- The environment with every symbolic part of its bindings replaced. -/
def Environment.subst (e : Environment) : Environment :=
  { e with bindings := e.bindings.mapValues (Value.subst ρ) }

/-- The state with every symbolic part of its values replaced. -/
def State.subst (s : State) : State :=
  { s with
    heap := s.heap.mapValues (HeapObject.subst ρ)
    frames := s.frames.map (Frame.subst ρ)
    closures := s.closures.mapValues (Environment.subst ρ) }

namespace State

variable {ρ} (s : State)

theorem current?_subst : (s.subst ρ).current? = s.current?.map (Frame.subst ρ) := by
  unfold current? subst
  exact List.head?_map

theorem register?_subst (reg : String) :
    (s.subst ρ).register? reg = (s.register? reg).map (Value.subst ρ) := by
  unfold register?
  rw [current?_subst]
  cases s.current? with
  | none => rfl
  | some frame => exact Dict.get?_mapValues _ _ _

theorem envChainFrom_subst (closures : Dict Environment) :
    ∀ (fuel : Nat) (start : Option String),
      envChainFrom (closures.mapValues (Environment.subst ρ)) fuel start =
        (envChainFrom closures fuel start).map fun e => (e.1, e.2.subst ρ)
  | 0, _ => rfl
  | _ + 1, none => rfl
  | fuel + 1, some id => by
    unfold envChainFrom
    rw [Dict.get?_mapValues]
    cases closures.get? id with
    | none => rfl
    | some env =>
      show (id, env.subst ρ) :: envChainFrom _ fuel env.parent = _ :: _
      rw [envChainFrom_subst closures fuel env.parent]

theorem chainLookup?_subst (chain : List (String × Environment)) (name : String) :
    chainLookup? (chain.map fun e => (e.1, e.2.subst ρ)) name =
      (chainLookup? chain name).map (Value.subst ρ) := by
  unfold chainLookup?
  induction chain with
  | nil => rfl
  | cons e chain ih =>
    have hbinding : (e.2.subst ρ).bindings.get? name =
        (e.2.bindings.get? name).map (Value.subst ρ) := Dict.get?_mapValues _ _ _
    rw [List.map_cons, List.findSome?_cons, List.findSome?_cons]
    dsimp only
    rw [hbinding]
    cases e.2.bindings.get? name with
    | none => exact ih
    | some v => rfl

theorem lookupIn?_subst (frame : Frame) (name : String) :
    (s.subst ρ).lookupIn? (frame.subst ρ) name =
      (s.lookupIn? frame name).map (Value.subst ρ) := by
  have howned : (((s.subst ρ).ownedEnvironment? (frame.subst ρ)).bind fun env =>
        env.bindings.get? name) =
      ((s.ownedEnvironment? frame).bind fun env => env.bindings.get? name).map
        (Value.subst ρ) := by
    unfold ownedEnvironment?
    show (frame.ownedEnv.bind (s.closures.mapValues (Environment.subst ρ)).get?).bind _ = _
    cases frame.ownedEnv with
    | none => rfl
    | some id =>
      rw [Option.bind_some, Option.bind_some, Dict.get?_mapValues]
      cases s.closures.get? id with
      | none => rfl
      | some env => exact Dict.get?_mapValues _ _ _
  have hchain : (s.subst ρ).envChain (frame.subst ρ).closureEnv =
      (s.envChain frame.closureEnv).map fun e => (e.1, e.2.subst ρ) := by
    unfold envChain
    show envChainFrom (s.closures.mapValues (Environment.subst ρ)) _ frame.closureEnv = _
    rw [show (s.subst ρ).closures.size = s.closures.size from Dict.size_mapValues _ _,
      envChainFrom_subst]
  have hlocal : (frame.subst ρ).locals.get? name =
      (frame.locals.get? name).map (Value.subst ρ) := Dict.get?_mapValues _ _ _
  unfold lookupIn?
  rw [howned, hlocal, hchain, chainLookup?_subst, Option.map_or, Option.map_or]

theorem lookup?_subst (name : String) :
    (s.subst ρ).lookup? name = (s.lookup? name).map (Value.subst ρ) := by
  unfold lookup?
  show (s.frames.map (Frame.subst ρ)).findSome? _ = _
  induction s.frames with
  | nil => rfl
  | cons frame frames ih =>
    rw [List.map_cons, List.findSome?_cons, List.findSome?_cons, lookupIn?_subst]
    cases s.lookupIn? frame name with
    | none => exact ih
    | some v => rfl

end State

/-! ### Deltas -/

/-- The environment that comes into being with every symbolic part of its bindings replaced. -/
def NewClosure.subst (c : NewClosure) : NewClosure :=
  { c with bindings := c.bindings.mapValues (Value.subst ρ) }

/-- The write with every symbolic part of its value replaced. -/
def HeapWrite.subst (w : HeapWrite) : HeapWrite :=
  { w with value := w.value.subst ρ }

/-- The delta with every symbolic part of the values that it writes replaced. -/
def Delta.subst (d : Delta) : Delta :=
  { d with
    registerWrites := d.registerWrites.mapValues (Value.subst ρ)
    varWrites := d.varWrites.mapValues (Value.subst ρ)
    heapWrites := d.heapWrites.map (HeapWrite.subst ρ)
    newClosure := d.newClosure.map (NewClosure.subst ρ)
    returnValue := d.returnValue.map (Value.subst ρ) }

/-- The delta `d'` is the instance of `d` but for the text that explains it. -/
def Delta.Instance (d d' : Delta) : Prop :=
  ∃ reasoning, d' = { d.subst ρ with reasoning }

namespace Delta.Instance

variable {ρ} {d d' : Delta}

/-- Deltas that write no value and differ in their explanation only. -/
theorem of_reasoning (text text' : String) :
    Delta.Instance ρ { reasoning := text } { reasoning := text' } :=
  ⟨text', rfl⟩

theorem writeRegister (h : Instance ρ d d') (reg : String) (v : Value) :
    Instance ρ (d.writeRegister reg v) (d'.writeRegister reg (v.subst ρ)) := by
  obtain ⟨reasoning, rfl⟩ := h
  refine ⟨reasoning, ?_⟩
  unfold Delta.writeRegister Delta.subst
  rw [Dict.mapValues_insert]

theorem produce (h : Instance ρ d d') (inst : Instruction) (v : Value) :
    Instance ρ (d.produce inst v) (d'.produce inst (v.subst ρ)) := by
  unfold Delta.produce
  cases inst.result with
  | none => exact h
  | some reg => exact h.writeRegister reg v

theorem writeVar (h : Instance ρ d d') (name : String) (v : Value) :
    Instance ρ (d.writeVar name v) (d'.writeVar name (v.subst ρ)) := by
  obtain ⟨reasoning, rfl⟩ := h
  refine ⟨reasoning, ?_⟩
  unfold Delta.writeVar Delta.subst
  rw [Dict.mapValues_insert]

theorem writeHeap (h : Instance ρ d d') (address field : String) (v : Value) :
    Instance ρ (d.writeHeap address field v) (d'.writeHeap address field (v.subst ρ)) := by
  obtain ⟨reasoning, rfl⟩ := h
  refine ⟨reasoning, ?_⟩
  unfold Delta.writeHeap Delta.subst
  rw [List.map_append]
  rfl

theorem allocate (h : Instance ρ d d') (address : String) (hint : Option String) :
    Instance ρ (d.allocate address hint) (d'.allocate address hint) := by
  obtain ⟨reasoning, rfl⟩ := h
  exact ⟨reasoning, rfl⟩

theorem explain (h : Instance ρ d d') (text text' : String) :
    Instance ρ { d with reasoning := text } { d' with reasoning := text' } := by
  obtain ⟨reasoning, rfl⟩ := h
  exact ⟨text', rfl⟩

theorem steer (h : Instance ρ d d') (push : Option CallPush) (label : Option String)
    (text text' : String) :
    Instance ρ { d with callPush := push, nextLabel := label, reasoning := text }
      { d' with callPush := push, nextLabel := label, reasoning := text' } := by
  obtain ⟨reasoning, rfl⟩ := h
  exact ⟨text', rfl⟩

theorem bindArguments (params : List String) (args : List Value) (h : Instance ρ d d') :
    Instance ρ (Engine.bindArguments d params args)
      (Engine.bindArguments d' params (args.map (Value.subst ρ))) := by
  induction params generalizing args d d' with
  | nil => exact h
  | cons name params ih =>
    cases args with
    | nil => exact h
    | cons a args => exact ih args (h.writeVar name a)

/-- An array of instances is an instance of the array. -/
theorem arrayDelta (address : String) (items : List Value) :
    Instance ρ (Builtin.arrayDelta address items)
      (Builtin.arrayDelta address (items.map (Value.subst ρ))) := by
  have hfill (es : List (Value × Nat)) (d d' : Delta) (h : Instance ρ d d') :
      Instance ρ
        (es.foldl (fun (d : Delta) e =>
          d.writeHeap address (Text.ofInt64 (Int64.ofNat e.2)) e.1) d)
        ((es.map fun e => (e.1.subst ρ, e.2)).foldl (fun (d : Delta) e =>
          d.writeHeap address (Text.ofInt64 (Int64.ofNat e.2)) e.1) d') := by
    induction es generalizing d d' with
    | nil => exact h
    | cons e es ih => exact ih _ _ (h.writeHeap address _ e.1)
  have hzip : (items.map (Value.subst ρ)).zipIdx =
      items.zipIdx.map fun e => (e.1.subst ρ, e.2) := by
    rw [List.zipIdx_map]
    rfl
  unfold Builtin.arrayDelta
  rw [hzip, List.length_map]
  have hstart := (of_reasoning (ρ := ρ) "" "").allocate address (some "array")
  have hlength := (hfill items.zipIdx _ _ hstart).writeHeap address "length"
    (.int (Int64.ofNat items.length))
  rwa [Value.subst_int] at hlength

end Delta.Instance

end SymbolicVM
