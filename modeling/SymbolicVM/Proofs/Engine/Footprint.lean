import SymbolicVM.Proofs.Engine.Forms
import SymbolicVM.Proofs.Machine.Footprint

/-!
# The footprint of the engine's decisions

What the engine's delta may touch, for each form of its decisions. `Engine.decide_eq_ok` puts it
together; proofs about runs use only this one.
-/

namespace SymbolicVM

theorem Value.Known.within {s : State} {v : Value} (h : v.Known s) : v.Within s :=
  h.mono fun _ hu => .inl hu

namespace Engine

variable {s : State} {inst : Instruction} {d : Delta} {registry : Registry}

/-- What produces a result does not end a frame. -/
theorem not_unwinds_of_mem_producers (h : inst.opcode ∈ Opcode.producers) : ¬ inst.Unwinds := by
  rintro (hopcode | hopcode)
  · rw [hopcode] at h
    exact absurd h (by decide)
  · rw [hopcode] at h
    exact absurd h (by decide)

theorem fresh_counter (kind : IdKind) (hroom : s.counter + 1 < counterBound) :
    s.Fresh kind (kind.name s.counter) :=
  ⟨s.counter, Nat.le_refl _, hroom, rfl⟩

/-- A delta that only explains itself. -/
theorem footprint_reasoning (reasoning : String) : ({ reasoning } : Delta).Footprint s :=
  .of_empty rfl rfl rfl (by simp [Delta.mem_writtenValues])

theorem get?_produce {reg : String} {v : Value} (hresult : inst.result = some reg) :
    (d.produce inst v).registerWrites.get? reg = some v := by
  unfold Delta.produce
  rw [hresult]
  exact Dict.get?_insert_self _ _ _

/-! ### Data -/

theorem eq_of_mem_resultWrites {u v : Value} (h : u ∈ (inst.resultWrites v).values) : u = v := by
  unfold Instruction.resultWrites at h
  cases hresult : inst.result with
  | none =>
    rw [hresult] at h
    exact absurd h List.not_mem_nil
  | some reg =>
    rw [hresult] at h
    exact List.mem_singleton.mp h

theorem get?_resultWrites {reg : String} {v : Value} (hresult : inst.result = some reg) :
    (inst.resultWrites v).get? reg = some v := by
  unfold Instruction.resultWrites
  rw [hresult]
  exact Dict.get?_insert_self _ _ _

namespace Form

/-- What a decision writes is known, or else it is one unknown that is numbered by the counter, and
the decision allocates nothing. -/
theorem known_or_invented (h : Form registry inst s d) :
    (∀ v ∈ d.writtenValues, v.Known s) ∨
      (d.allocations = [] ∧ s.counter + 1 < counterBound ∧
        ∃ x, x.name = IdKind.symbol.name s.counter ∧ ∀ v ∈ d.writtenValues, v = .symbolic x) := by
  cases h with
  | idles | jumps | branches => exact .inl (by simp [Delta.mem_writtenValues])
  | returns _ known => exact .inl (by simpa [Delta.mem_writtenValues] using known)
  | assigns _ known | stores _ _ known => exact .inl (by simpa [Delta.mem_writtenValues] using known)
  | @gives u _ _ known =>
    refine .inl fun v hv => ?_
    have hvalue : v ∈ (inst.resultWrites u).values := by simpa [Delta.mem_writtenValues] using hv
    exact eq_of_mem_resultWrites hvalue ▸ known
  | @invents x writes _ _ name room live =>
    refine .inr ⟨rfl, room, x, name, fun v hv => ?_⟩
    have hvalue : v ∈ (inst.resultWrites (.symbolic x)).values ∨ ∃ w ∈ writes, w.value = v := by
      simpa [Delta.mem_writtenValues] using hv
    rcases hvalue with hresult | ⟨w, hw, rfl⟩
    · exact eq_of_mem_resultWrites hresult
    · exact (live w hw).2
  | @captures u frame _ _ _ _ scalar frames _ _ =>
    refine .inl fun v hv => ?_
    have hvalue : v ∈ (inst.resultWrites u).values ∨ v ∈ frame.locals.values := by
      simpa [Delta.mem_writtenValues] using hv
    rcases hvalue with hresult | hlocal
    · exact .scalar (eq_of_mem_resultWrites hresult ▸ scalar)
    · have hframe : frame ∈ s.frames := frames ▸ List.mem_cons_self
      exact .given (State.mem_values.mpr (.inl ⟨frame, hframe, List.mem_append_right _ hlocal⟩))
  | @allocates kind _ writes _ _ _ _ fields =>
    refine .inl fun v hv => ?_
    have hvalue : v ∈ (inst.resultWrites (.str (kind.name s.counter))).values ∨
        ∃ w ∈ writes, w.value = v := by
      simpa [Delta.mem_writtenValues] using hv
    rcases hvalue with hresult | ⟨w, hw, rfl⟩
    · exact .scalar (eq_of_mem_resultWrites hresult ▸ rfl)
    · exact (fields w hw).2
  | @calls _ _ vars _ _ _ bound =>
    refine .inl fun v hv => bound v ?_
    simpa [Delta.mem_writtenValues] using hv
  | @constructs _ _ _ vars _ _ _ _ bound =>
    refine .inl fun v hv => ?_
    have hvalue : v ∈ (inst.resultWrites (.str (IdKind.object.name s.counter))).values ∨
        v ∈ vars.values := by
      simpa [Delta.mem_writtenValues] using hv
    rcases hvalue with hresult | hbound
    · exact .scalar (eq_of_mem_resultWrites hresult ▸ rfl)
    · exact bound v hbound

/-- What a decision announces is numbered by the counter. -/
theorem fresh_of_newObjects (h : Form registry inst s d) {obj : NewObject}
    (hobj : obj ∈ d.newObjects) :
    s.Fresh .object obj.address ∨ s.Fresh .array obj.address := by
  cases h with
  | @allocates kind hint _ _ _ onHeap room _ =>
    rw [List.mem_singleton.mp hobj]
    rcases List.mem_pair.mp onHeap with rfl | rfl
    · exact .inl (fresh_counter .object room)
    · exact .inr (fresh_counter .array room)
  | constructs _ _ room _ =>
    rw [List.mem_singleton.mp hobj]
    exact .inl (fresh_counter .object room)
  | _ => exact absurd hobj List.not_mem_nil

theorem fresh_of_newClosure (h : Form registry inst s d) {c : NewClosure}
    (hc : d.newClosure = some c) : s.Fresh .environment c.id := by
  cases h with
  | captures _ _ _ _ room =>
    obtain rfl := Option.some.inj hc
    exact fresh_counter .environment room
  | _ => contradiction

/-- A decision writes to objects that are there or that it announces. -/
theorem address_of_heapWrites (h : Form registry inst s d) {w : HeapWrite}
    (hw : w ∈ d.heapWrites) :
    w.address ∈ s.heap.keys ∨ w.address ∈ d.newObjects.map (·.address) := by
  cases h with
  | stores _ live _ =>
    rw [List.mem_singleton.mp hw]
    exact .inl live
  | invents _ _ _ live => exact .inl (live w hw).1
  | allocates _ _ _ fields => exact .inr (List.mem_singleton.mpr (fields w hw).1)
  | _ => exact absurd hw List.not_mem_nil

theorem footprint (h : Form registry inst s d) : d.Footprint s where
  objects _ hobj := h.fresh_of_newObjects hobj
  closure _ hc := h.fresh_of_newClosure hc
  writes _ hw := h.address_of_heapWrites hw
  values v hv := by
    rcases h.known_or_invented with hknown | ⟨-, hroom, x, hname, hinvented⟩
    · exact (hknown v hv).within
    · rw [hinvented v hv]
      exact .symbolic (hname ▸ fresh_counter .symbol hroom)

/-! ### The stack -/

theorem stackEffect (h : Form registry inst s d) : d.StackEffect inst := by
  cases h with
  | idles opcode | jumps opcode | branches opcode | assigns opcode _ | captures opcode _ _ _ _ =>
    exact .keeps ⟨rfl, rfl⟩ (by simp [Instruction.Unwinds, opcode])
  | stores opcode _ _ =>
    refine .keeps ⟨rfl, rfl⟩ ?_
    rcases opcode with hopcode | hopcode
    · simp [Instruction.Unwinds, hopcode]
    · simp [Instruction.Unwinds, hopcode]
  | gives produces _ | invents produces _ _ _ | allocates produces _ _ _ =>
    exact .keeps ⟨rfl, rfl⟩ (not_unwinds_of_mem_producers produces)
  | returns opcode _ => exact .pops _ rfl rfl (.inl opcode) rfl
  | calls opcode _ _ =>
    refine .pushes _ rfl rfl (not_unwinds_of_mem_producers ?_) rfl (by simp)
    rcases opcode with hopcode | hopcode
    · simp [Opcode.producers, hopcode]
    · simp [Opcode.producers, hopcode]
  | constructs opcode _ _ _ =>
    exact .pushes _ rfl rfl (by simp [Instruction.Unwinds, opcode]) rfl
      fun _ => ⟨_, rfl, fun reg hreg => get?_resultWrites hreg⟩

end Form

/-- **What the engine's decisions may touch.** -/
theorem decide_eq_ok (h : decide registry inst s = .ok d) : d.StackEffect inst ∧ d.Footprint s :=
  ⟨(decide_form h).stackEffect, (decide_form h).footprint⟩

end Engine

end SymbolicVM
