import SymbolicVM.Proofs.Machine.Values
import SymbolicVM.Proofs.Machine.Identifier
import SymbolicVM.Engine.Operands

/-!
# The footprint of a delta

What the delta of one instruction may touch. `Delta.Footprint` bounds its data: what it creates is
numbered from the counter on, what it writes to exists or is created by it, and the unknowns that it
writes are in the state already or are new. `Delta.StackEffect` bounds its effect on the stack: it
leaves the stack alone, pushes one frame, or pops one and carries a value back.
-/

namespace SymbolicVM

/-- An identifier of a kind that is numbered from the counter on. -/
def State.Fresh (s : State) (kind : IdKind) (name : String) : Prop :=
  ∃ n, s.counter ≤ n ∧ n + 1 < counterBound ∧ name = kind.name n

/-- The value is put together from values of the state and unknowns with fresh names. -/
def Value.Within (v : Value) (s : State) : Prop :=
  v.Built fun u => u ∈ s.values ∨ ∃ x, u = .symbolic x ∧ s.Fresh .symbol x.name

namespace Value.Within

variable {s : State} {v : Value}

theorem symbolic {x : Symbolic} (h : s.Fresh .symbol x.name) : (Value.symbolic x).Within s :=
  .given (.inr ⟨x, rfl, h⟩)

/-- Every unknown in the value is one of the state or has a fresh name. -/
theorem of_mem_unknowns (h : v.Within s) :
    ∀ x ∈ v.unknowns, (∃ u ∈ s.values, x ∈ u.unknowns) ∨ s.Fresh .symbol x.name := by
  refine h.forall_unknowns ?_
  rintro u (hu | ⟨y, rfl, hfresh⟩) x hx
  · exact .inl ⟨u, hu, hx⟩
  · rw [unknowns_symbolic, List.mem_singleton] at hx
    exact .inr (hx ▸ hfresh)

end Value.Within

namespace Delta

variable {s : State} {d : Delta} {inst : Instruction} {v : Value}

theorem mem_writtenValues :
    v ∈ d.writtenValues ↔
      v ∈ d.registerWrites.values ∨ v ∈ d.varWrites.values ∨ v ∈ d.heapWrites.map (·.value) ∨
        d.returnValue = some v ∨ ∃ c, d.newClosure = some c ∧ v ∈ c.bindings.values := by
  unfold writtenValues
  cases d.newClosure with
  | none => simp
  | some c => simp

/-! ### Data -/

/-- What the delta of an instruction may create, write to and write. -/
structure Footprint (s : State) (d : Delta) : Prop where
  objects : ∀ obj ∈ d.newObjects, s.Fresh .object obj.address ∨ s.Fresh .array obj.address
  closure : ∀ c, d.newClosure = some c → s.Fresh .environment c.id
  writes : ∀ w ∈ d.heapWrites,
    w.address ∈ s.heap.keys ∨ w.address ∈ d.newObjects.map (·.address)
  values : ∀ v ∈ d.writtenValues, v.Within s

namespace Footprint

/-- A delta that creates and writes nothing, whatever it does with control. -/
theorem of_empty (hobjects : d.newObjects = []) (hclosure : d.newClosure = none)
    (hheap : d.heapWrites = []) (hvalues : ∀ v ∈ d.writtenValues, v.Within s) :
    d.Footprint s where
  objects := by simp [hobjects]
  closure := by simp [hclosure]
  writes := by simp [hheap]
  values := hvalues

theorem writeRegister (h : d.Footprint s) (hv : v.Within s) (reg : String) :
    (d.writeRegister reg v).Footprint s where
  objects := h.objects
  closure := h.closure
  writes := h.writes
  values u hu := by
    rcases mem_writtenValues.mp hu with hu | hu
    · rcases Dict.mem_values_insert hu with rfl | hu
      · exact hv
      · exact h.values u (mem_writtenValues.mpr (.inl hu))
    · exact h.values u (mem_writtenValues.mpr (.inr hu))

theorem writeVar (h : d.Footprint s) (hv : v.Within s) (name : String) :
    (d.writeVar name v).Footprint s where
  objects := h.objects
  closure := h.closure
  writes := h.writes
  values u hu := by
    rcases mem_writtenValues.mp hu with hu | hu | hu
    · exact h.values u (mem_writtenValues.mpr (.inl hu))
    · rcases Dict.mem_values_insert hu with rfl | hu
      · exact hv
      · exact h.values u (mem_writtenValues.mpr (.inr (.inl hu)))
    · exact h.values u (mem_writtenValues.mpr (.inr (.inr hu)))

/-- What a delta allocates has a fresh name. -/
theorem fresh_of_mem_allocations (h : d.Footprint s) {name : String}
    (hname : name ∈ d.allocations) : ∃ kind, s.Fresh kind name := by
  rcases List.mem_append.mp hname with hname | hname
  · obtain ⟨obj, hobj, rfl⟩ := List.mem_map.mp hname
    rcases h.objects obj hobj with hfresh | hfresh
    · exact ⟨_, hfresh⟩
    · exact ⟨_, hfresh⟩
  · obtain ⟨c, hc, rfl⟩ := List.mem_map.mp hname
    exact ⟨_, h.closure c (Option.mem_toList.mp hc)⟩

/-- An unknown that a delta writes is one of the state or has a fresh name. -/
theorem of_mem_symbolNames (h : d.Footprint s) {name : String} (hname : name ∈ d.symbolNames) :
    (∃ u ∈ s.values, ∃ x ∈ u.unknowns, x.name = name) ∨ ∃ kind, s.Fresh kind name := by
  obtain ⟨v, hv, hname⟩ := List.mem_flatMap.mp hname
  obtain ⟨x, hx, rfl⟩ := List.mem_map.mp hname
  rcases (h.values v hv).of_mem_unknowns x hx with ⟨u, hu, hxu⟩ | hfresh
  · exact .inl ⟨u, hu, x, hxu, rfl⟩
  · exact .inr ⟨_, hfresh⟩

end Footprint

/-! ### The stack -/

/-- A delta that neither pushes nor pops a frame. -/
structure KeepsStack (d : Delta) : Prop where
  push : d.callPush = none
  pop : d.callPop = false

end Delta

/-- An instruction that ends the activation of its frame. -/
def Instruction.Unwinds (inst : Instruction) : Prop :=
  inst.opcode = .ret ∨ inst.opcode = .throw

/-- What the delta of an instruction does to the stack. A pushed frame comes with the label of the
code that it runs; a constructor's caller has the new object in its result register. -/
inductive Delta.StackEffect (inst : Instruction) (d : Delta) : Prop where
  | keeps (stack : d.KeepsStack) (opcode : ¬ inst.Unwinds)
  | pushes (push : CallPush) (pushed : d.callPush = some push) (pop : d.callPop = false)
      (opcode : ¬ inst.Unwinds) (label : d.nextLabel.isSome = true)
      (constructs : push.isConstructor = true → ∃ obj, d.newObjects = [obj] ∧
        ∀ reg, inst.result = some reg → d.registerWrites.get? reg = some (.str obj.address))
  | pops (v : Value) (push : d.callPush = none) (pop : d.callPop = true) (opcode : inst.Unwinds)
      (value : d.returnValue = some v)

end SymbolicVM
