import SymbolicVM.Proofs.Machine.Apply

/-!
# The values in a state

`State.values` lists every value that a state holds: in the registers and locals of every frame, in
the fields of every object and in the bindings of every environment. Reading a register, a variable
or a field gives one of them. A delta adds nothing to them but the values that it writes, and the
heap and the arena gain no key but those that the delta names (`State.grows_effect`).
-/

namespace SymbolicVM

/-- The values in the registers and locals of a frame. -/
def Frame.values (f : Frame) : List Value :=
  f.registers.values ++ f.locals.values

namespace State

/-- All values that a state holds. -/
def values (s : State) : List Value :=
  s.frames.flatMap Frame.values ++ s.heap.values.flatMap (·.fields.values) ++
    s.closures.values.flatMap (·.bindings.values)

theorem mem_values {s : State} {v : Value} :
    v ∈ s.values ↔
      (∃ f ∈ s.frames, v ∈ f.values) ∨ (∃ o ∈ s.heap.values, v ∈ o.fields.values) ∨
        ∃ e ∈ s.closures.values, v ∈ e.bindings.values := by
  simp only [values, List.mem_append, List.mem_flatMap, or_assoc]

/-! ### Reading -/

theorem current?_mem {s : State} {frame : Frame} (h : s.current? = some frame) :
    frame ∈ s.frames :=
  List.mem_of_head? h

theorem mem_values_of_register? {s : State} {reg : String} {v : Value}
    (h : s.register? reg = some v) : v ∈ s.values := by
  obtain ⟨frame, hframe, hv⟩ := Option.bind_eq_some_iff.mp h
  refine mem_values.mpr (.inl ⟨frame, current?_mem hframe, ?_⟩)
  exact List.mem_append_left _ (Dict.mem_values_of_get? hv)

theorem mem_values_of_local {s : State} {frame : Frame} {name : String} {v : Value}
    (hframe : frame ∈ s.frames) (h : frame.locals.get? name = some v) : v ∈ s.values :=
  mem_values.mpr (.inl ⟨frame, hframe, List.mem_append_right _ (Dict.mem_values_of_get? h)⟩)

theorem mem_values_of_field {s : State} {address key : String} {obj : HeapObject} {v : Value}
    (hobj : s.heap.get? address = some obj) (h : obj.fields.get? key = some v) : v ∈ s.values :=
  mem_values.mpr
    (.inr (.inl ⟨obj, Dict.mem_values_of_get? hobj, Dict.mem_values_of_get? h⟩))

theorem mem_values_of_binding {s : State} {id name : String} {env : Environment} {v : Value}
    (henv : s.closures.get? id = some env) (h : env.bindings.get? name = some v) :
    v ∈ s.values :=
  mem_values.mpr
    (.inr (.inr ⟨env, Dict.mem_values_of_get? henv, Dict.mem_values_of_get? h⟩))

/-- The environments of a chain are those of the arena. -/
theorem get?_of_mem_envChainFrom {closures : Dict Environment} {e : String × Environment} :
    ∀ {fuel : Nat} {start : Option String}, e ∈ envChainFrom closures fuel start →
      closures.get? e.1 = some e.2
  | 0, _, h => by simp [envChainFrom] at h
  | _ + 1, none, h => by simp [envChainFrom] at h
  | fuel + 1, some id, h => by
    unfold envChainFrom at h
    cases henv : closures.get? id with
    | none => simp [henv] at h
    | some env =>
      simp only [henv, List.mem_cons] at h
      rcases h with rfl | h
      · exact henv
      · exact get?_of_mem_envChainFrom h

theorem mem_values_of_lookupIn? {s : State} {frame : Frame} {name : String} {v : Value}
    (hframe : frame ∈ s.frames) (h : s.lookupIn? frame name = some v) : v ∈ s.values := by
  unfold lookupIn? at h
  rcases Option.or_eq_some_iff.mp h with h | ⟨-, h⟩
  · rcases Option.or_eq_some_iff.mp h with h | ⟨-, h⟩
    · obtain ⟨env, henv, hv⟩ := Option.bind_eq_some_iff.mp h
      obtain ⟨id, -, hid⟩ := Option.bind_eq_some_iff.mp henv
      exact mem_values_of_binding hid hv
    · exact mem_values_of_local hframe h
  · obtain ⟨e, he, hv⟩ := List.exists_of_findSome?_eq_some h
    exact mem_values_of_binding (get?_of_mem_envChainFrom he) hv

theorem mem_values_of_lookup? {s : State} {name : String} {v : Value}
    (h : s.lookup? name = some v) : v ∈ s.values := by
  obtain ⟨frame, hframe, hv⟩ := List.exists_of_findSome?_eq_some h
  exact mem_values_of_lookupIn? hframe hv

/-! ### Writing -/

/-- The state `t` holds no value that is neither in `s` nor in `vs`; on its heap are the objects of
`s` and those at `addresses`, and in its arena the environments of `s` and those named in `ids`. -/
structure Grows (s t : State) (vs : List Value) (addresses ids : List String) : Prop where
  values : ∀ v ∈ t.values, v ∈ s.values ∨ v ∈ vs
  heap : ∀ key, key ∈ t.heap.keys ↔ key ∈ s.heap.keys ∨ key ∈ addresses
  closures : ∀ key, key ∈ t.closures.keys ↔ key ∈ s.closures.keys ∨ key ∈ ids

namespace Grows

variable {s t u : State} {vs ws : List Value} {as bs is js : List String}

theorem refl (s : State) : Grows s s [] [] [] :=
  ⟨fun _ hv => .inl hv, fun _ => by simp, fun _ => by simp⟩

theorem trans (h : Grows s t vs as is) (h' : Grows t u ws bs js) :
    Grows s u (vs ++ ws) (as ++ bs) (is ++ js) where
  values v hv := by
    rw [List.mem_append]
    rcases h'.values v hv with hv | hv
    · rcases h.values v hv with hv | hv
      · exact .inl hv
      · exact .inr (.inl hv)
    · exact .inr (.inr hv)
  heap key := by rw [h'.heap, h.heap, List.mem_append, or_assoc]
  closures key := by rw [h'.closures, h.closures, List.mem_append, or_assoc]

theorem weaken (h : Grows s t vs as is) (hsub : vs ⊆ ws) : Grows s t ws as is :=
  ⟨fun v hv => (h.values v hv).imp_right (@hsub v), h.heap, h.closures⟩

/-- A fold grows by what its steps grow by. -/
theorem foldl {α : Type} {f : State → α → State} {vals : α → List Value}
    {addrs names : α → List String} (hf : ∀ s a, Grows s (f s a) (vals a) (addrs a) (names a))
    (l : List α) (s : State) :
    Grows s (l.foldl f s) (l.flatMap vals) (l.flatMap addrs) (l.flatMap names) := by
  induction l generalizing s with
  | nil => exact refl s
  | cons a l ih =>
    simp only [List.foldl_cons, List.flatMap_cons]
    exact (hf s a).trans (ih (f s a))

end Grows

/-- Changing the current frame adds the values that enter this frame. -/
theorem grows_modifyCurrent (s : State) {f : Frame → Frame} {vs : List Value}
    (hf : ∀ frame, ∀ v ∈ (f frame).values, v ∈ frame.values ∨ v ∈ vs) :
    Grows s (s.modifyCurrent f) vs [] [] := by
  unfold modifyCurrent
  split
  · exact (Grows.refl s).weaken (List.nil_subset _)
  · rename_i frame callers hframes
    refine ⟨fun v hv => ?_, fun _ => by simp, fun _ => by simp⟩
    rw [mem_values, hframes]
    rcases mem_values.mp hv with ⟨g, hg, hv⟩ | hv
    · rcases List.mem_cons.mp hg with rfl | hg
      · rcases hf frame v hv with hv | hv
        · exact .inl (.inl ⟨frame, List.mem_cons_self, hv⟩)
        · exact .inr hv
      · exact .inl (.inl ⟨g, List.mem_cons_of_mem _ hg, hv⟩)
    · exact .inl (.inr hv)

theorem grows_writeRegister (s : State) (reg : String) (v : Value) :
    Grows s (s.writeRegister reg v) [v] [] [] := by
  apply grows_modifyCurrent
  intro frame w hw
  rw [List.mem_singleton]
  rcases List.mem_append.mp hw with hw | hw
  · rcases Dict.mem_values_insert hw with hw | hw
    · exact .inr hw
    · exact .inl (List.mem_append_left _ hw)
  · exact .inl (List.mem_append_right _ hw)

theorem grows_writeLocal (s : State) (name : String) (v : Value) :
    Grows s (s.modifyCurrent fun frame => { frame with locals := frame.locals.insert name v })
      [v] [] [] := by
  apply grows_modifyCurrent
  intro frame w hw
  rw [List.mem_singleton]
  rcases List.mem_append.mp hw with hw | hw
  · exact .inl (List.mem_append_left _ hw)
  · rcases Dict.mem_values_insert hw with hw | hw
    · exact .inr hw
    · exact .inl (List.mem_append_right _ hw)

/-- Putting an object on the heap adds the values of its fields that were not there. -/
theorem grows_insertObject (s : State) (address : String) (obj : HeapObject) {vs : List Value}
    (hobj : ∀ v ∈ obj.fields.values,
      v ∈ ((s.heap.get? address).getD {}).fields.values ∨ v ∈ vs) :
    Grows s { s with heap := s.heap.insert address obj } vs [address] [] := by
  refine ⟨fun v hv => ?_, fun key => ?_, fun _ => by simp⟩
  · rw [mem_values]
    rcases mem_values.mp hv with hframe | ⟨o, ho, hfield⟩ | henv
    · exact .inl (.inl hframe)
    · rcases Dict.mem_values_insert ho with rfl | ho
      · rcases hobj v hfield with hold | hnew
        · cases hget : s.heap.get? address with
          | none => simp [hget] at hold
          | some old =>
            rw [hget] at hold
            exact .inl (.inr (.inl ⟨old, Dict.mem_values_of_get? hget, hold⟩))
        · exact .inr hnew
      · exact .inl (.inr (.inl ⟨o, ho, hfield⟩))
    · exact .inl (.inr (.inr henv))
  · rw [Dict.mem_keys_insert, List.mem_singleton, or_comm]

theorem grows_installObject (s : State) (obj : NewObject) :
    Grows s (s.installObject obj) [] [obj.address] [] :=
  grows_insertObject s _ _ fun _ hv => .inl hv

theorem grows_writeField (s : State) (w : HeapWrite) :
    Grows s (s.writeField w) [w.value] [w.address] [] := by
  apply grows_insertObject
  intro v hv
  rw [List.mem_singleton]
  exact (Dict.mem_values_insert hv).symm

/-- Putting an environment in the arena adds the values of its bindings that were not there. -/
theorem grows_insertEnvironment (s : State) (id : String) (env : Environment) {vs : List Value}
    (henv : ∀ v ∈ env.bindings.values, v ∈ s.values ∨ v ∈ vs) :
    Grows s { s with closures := s.closures.insert id env } vs [] [id] := by
  refine ⟨fun v hv => ?_, fun _ => by simp, fun key => ?_⟩
  · rcases mem_values.mp hv with hframe | hfield | ⟨e, he, hbinding⟩
    · exact .inl (mem_values.mpr (.inl hframe))
    · exact .inl (mem_values.mpr (.inr (.inl hfield)))
    · rcases Dict.mem_values_insert he with rfl | he
      · exact henv v hbinding
      · exact .inl (mem_values.mpr (.inr (.inr ⟨e, he, hbinding⟩)))
  · rw [Dict.mem_keys_insert, List.mem_singleton, or_comm]

theorem grows_installClosure (s : State) (c : NewClosure) :
    Grows s (s.installClosure c) c.bindings.values [] [c.id] := by
  let t : State := { s with closures := s.closures.insert c.id ⟨c.bindings, c.parent⟩ }
  have hinsert : Grows s t c.bindings.values [] [c.id] :=
    grows_insertEnvironment s c.id ⟨c.bindings, c.parent⟩ fun _ hv => .inr hv
  have howned : Grows t (s.installClosure c) [] [] [] :=
    grows_modifyCurrent t fun _ _ hv => .inl hv
  simpa using hinsert.trans howned

/-- Binding a name in an environment of the arena adds no environment. -/
theorem grows_bindIn (s : State) {id : String} {env : Environment} (name : String) (v : Value)
    (henv : s.closures.get? id = some env) : Grows s (s.bindIn id env name v) [v] [] [] := by
  have hinsert : Grows s (s.bindIn id env name v) [v] [] [id] := by
    apply grows_insertEnvironment
    intro w hw
    rcases Dict.mem_values_insert hw with rfl | hw
    · exact .inr List.mem_cons_self
    · exact .inl (mem_values.mpr (.inr (.inr ⟨env, Dict.mem_values_of_get? henv, hw⟩)))
  refine ⟨hinsert.values, hinsert.heap, fun key => ?_⟩
  refine (hinsert.closures key).trans ?_
  -- the key that is written to is one of the arena's already
  rw [List.mem_singleton]
  constructor
  · rintro (h | rfl)
    · exact .inl h
    · exact .inl (Dict.mem_keys_of_get? henv)
  · rintro (h | h)
    · exact .inl h
    · simp at h

theorem grows_store (s : State) (name : String) (v : Value) :
    Grows s (s.store name v) [v] [] [] := by
  unfold store
  cases hframe : s.current? with
  | none => exact (Grows.refl s).weaken (List.nil_subset _)
  | some frame =>
    dsimp only
    split
    · -- the name is bound in the chain of environments
      rename_i id env hholder
      split_ifs at hholder
      exact grows_bindIn s name v (get?_of_mem_envChainFrom (List.mem_of_find?_eq_some hholder))
    · -- the name is local, and bound in the owned environment as well
      have hlocal (t : State) (ht : Grows s t [v] [] []) :
          Grows s (t.modifyCurrent fun frame =>
            { frame with locals := frame.locals.insert name v }) [v] [] [] := by
        exact (ht.trans (grows_writeLocal t name v)).weaken (by simp)
      have hself : Grows s s [v] [] [] := (Grows.refl s).weaken (List.nil_subset _)
      apply hlocal
      split
      · split
        · rename_i henv
          exact grows_bindIn s name v henv
        · exact hself
      · exact hself

theorem grows_pushFrame (s : State) (p : CallPush) : Grows s (s.pushFrame p) [] [] [] := by
  refine ⟨fun v hv => .inl ?_, fun _ => by simp [pushFrame], fun _ => by simp [pushFrame]⟩
  rw [mem_values]
  rcases mem_values.mp hv with ⟨f, hf, hv⟩ | hv
  · rcases List.mem_cons.mp hf with rfl | hf
    · simp [Frame.values] at hv
    · exact .inl ⟨f, hf, hv⟩
  · exact .inr hv

theorem grows_popFrame (s : State) : Grows s s.popFrame.1 [] [] [] := by
  unfold popFrame
  split
  · rename_i frame caller callers hframes
    refine ⟨fun v hv => .inl ?_, fun _ => by simp, fun _ => by simp⟩
    rw [mem_values, hframes]
    rcases mem_values.mp hv with ⟨f, hf, hv⟩ | hv
    · exact .inl ⟨f, List.mem_cons_of_mem _ hf, hv⟩
    · exact .inr hv
  · exact Grows.refl s

/-! ### What a delta adds -/

theorem flatMap_const_nil {α β : Type} (l : List α) : l.flatMap (fun _ => ([] : List β)) = [] := by
  simp

theorem grows_install (s : State) (d : Delta) :
    Grows s (s.install d) (d.newClosure.toList.flatMap (·.bindings.values))
      (d.newObjects.map (·.address)) (d.newClosure.toList.map (·.id)) := by
  have hobjects := Grows.foldl grows_installObject d.newObjects s
  unfold install
  cases d.newClosure with
  | none => simpa [List.map_eq_flatMap, flatMap_const_nil] using hobjects
  | some c =>
    simpa [List.map_eq_flatMap, flatMap_const_nil] using hobjects.trans (grows_installClosure _ c)

theorem grows_record (s : State) (d : Delta) :
    Grows s (s.record d) (d.registerWrites.values ++ d.heapWrites.map (·.value))
      (d.heapWrites.map (·.address)) [] := by
  have hregisters := Grows.foldl (fun s (e : String × Value) => grows_writeRegister s e.1 e.2)
    d.registerWrites.entries s
  have hfields := Grows.foldl grows_writeField d.heapWrites
    (d.registerWrites.entries.foldl (fun s e => s.writeRegister e.1 e.2) s)
  have h := hregisters.trans hfields
  simp only [flatMap_const_nil, List.nil_append, List.append_nil, ← List.map_eq_flatMap] at h
  unfold record
  cases d.pathCondition with
  | none => exact h
  | some cond => exact ⟨h.values, h.heap, h.closures⟩

theorem grows_moveStack (s : State) (d : Delta) :
    Grows s (s.moveStack d).1 d.varWrites.values [] [] := by
  have hpush : Grows s (d.callPush.elim s s.pushFrame) [] [] [] := by
    cases d.callPush with
    | none => exact Grows.refl s
    | some p => exact grows_pushFrame s p
  have hvars : Grows s ((d.callPush.elim s s.pushFrame).writeVars d.callPush.isSome d.varWrites)
      d.varWrites.values [] [] := by
    have hstep : ∀ (s : State) (e : String × Value),
        Grows s (if d.callPush.isSome then
          s.modifyCurrent fun frame => { frame with locals := frame.locals.insert e.1 e.2 }
          else s.store e.1 e.2) [e.2] [] [] := by
      intro s e
      split_ifs
      · exact grows_writeLocal s e.1 e.2
      · exact grows_store s e.1 e.2
    have h := hpush.trans (Grows.foldl hstep d.varWrites.entries _)
    simp only [flatMap_const_nil, List.nil_append, ← List.map_eq_flatMap] at h
    exact h
  unfold moveStack
  dsimp only
  split_ifs
  · simpa using hvars.trans (grows_popFrame _)
  · exact hvars

/-- **What a delta adds to a state**: of values those that it writes, of objects those that it
creates or writes to, of environments the one that it creates. -/
theorem grows_effect (s : State) (d : Delta) :
    Grows s (s.effect d).1 d.writtenValues
      (d.newObjects.map (·.address) ++ d.heapWrites.map (·.address))
      (d.newClosure.toList.map (·.id)) := by
  have h := ((grows_install s d).trans (grows_record _ d)).trans (grows_moveStack _ d)
  rw [List.append_nil, List.append_nil, List.append_nil] at h
  refine h.weaken fun v hv => ?_
  simp only [Delta.writtenValues, List.mem_append] at hv ⊢
  rcases hv with (hv | hv | hv) | hv
  · cases hc : d.newClosure with
    | none => simp [hc] at hv
    | some c =>
      simp only [hc, Option.toList_some, List.flatMap_cons, List.flatMap_nil,
        List.append_nil] at hv
      exact .inr hv
  · exact .inl (.inl (.inl (.inl hv)))
  · exact .inl (.inl (.inr hv))
  · exact .inl (.inl (.inl (.inr hv)))

end State

end SymbolicVM
