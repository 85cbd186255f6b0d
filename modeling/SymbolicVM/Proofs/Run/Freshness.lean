import SymbolicVM.Proofs.Machine.Numbering
import SymbolicVM.Proofs.Oracle.Symbolic
import SymbolicVM.Proofs.Run.Stack

/-!
# Identifiers are numbered below the counter

Throughout a run with the symbolic oracle every identifier in the state is numbered below the
counter (`Run.numbered_of_history`), and the counter only grows (`Run.counter_mono`). The numbers
that a step mints lie between the counter before it and the counter after it (`Run.fresh_of_mints`,
`State.Absorbs.exists_number`), so what it allocates is new (`Run.created_of_performs`).
-/

namespace SymbolicVM

namespace State

/-- The state `t` has the heap and the counter of `s` and no values besides `vs` that `s` has
not. -/
structure Settles (s t : State) (vs : List Value) : Prop where
  grows : Grows s t vs [] []
  heap : t.heap = s.heap
  counter : t.counter = s.counter

namespace Settles

theorem refl (s : State) : s.Settles s [] :=
  ⟨.refl s, rfl, rfl⟩

theorem trans {s t u : State} {vs ws : List Value} (h : s.Settles t vs) (h' : t.Settles u ws) :
    s.Settles u (vs ++ ws) where
  grows := h.grows.trans h'.grows
  heap := h'.heap.trans h.heap
  counter := h'.counter.trans h.counter

theorem weaken {s t : State} {vs ws : List Value} (h : s.Settles t vs) (hsub : vs ⊆ ws) :
    s.Settles t ws :=
  ⟨h.grows.weaken hsub, h.heap, h.counter⟩

end Settles

theorem counter_modifyCurrent (s : State) (change : Frame → Frame) :
    (s.modifyCurrent change).counter = s.counter := by
  unfold modifyCurrent
  split
  · rfl
  · rfl

theorem settles_stampReturn (s : State) (label : String) (offset : Nat)
    (register : Option String) : s.Settles (s.stampReturn label offset register) [] where
  grows := grows_modifyCurrent s fun _ _ hv => .inl hv
  heap := heap_modifyCurrent s _
  counter := counter_modifyCurrent s _

theorem settles_writeRegister (s : State) (reg : String) (v : Value) :
    s.Settles (s.writeRegister reg v) [v] where
  grows := grows_writeRegister s reg v
  heap := heap_modifyCurrent s _
  counter := counter_modifyCurrent s _

theorem settles_popFrame (s : State) : s.Settles s.popFrame.1 [] := by
  refine ⟨grows_popFrame s, ?_, ?_⟩
  · unfold popFrame
    split <;> rfl
  · unfold popFrame
    split <;> rfl

end State

namespace Run

variable {g : FlowGraph} {registry : Registry} {control : Control} {inst : Instruction} {d : Delta}
  {depth : Nat} {applied : State.Applied} {s s' : State} {flow : Flow}

theorem settles_stamp : applied.state.Settles (stamp inst control d applied).state [] := by
  unfold stamp
  split
  · exact State.settles_stampReturn _ _ _ _
  · exact .refl _

theorem settles_removed : applied.state.Settles (removed applied).1 [] := by
  unfold removed
  split
  · exact .refl _
  · exact State.settles_popFrame _

theorem settles_handOver (frame : Frame) (s : State) :
    s.Settles (handOver d frame s) d.returnValue.toList := by
  unfold handOver
  split
  · rename_i reg v _ hvalue
    rw [hvalue]
    exact State.settles_writeRegister s reg v
  · exact (State.Settles.refl s).weaken (List.nil_subset _)

/-- Unwinding brings at most the returned value into a register. -/
theorem settles_unwind (h : unwind g d depth applied = (s', flow)) :
    applied.state.Settles s' d.returnValue.toList := by
  rw [unwind_eq] at h
  split_ifs at h
  · obtain ⟨rfl, -⟩ := Prod.mk.inj h
    exact (State.Settles.refl _).weaken (List.nil_subset _)
  · split at h
    · obtain ⟨rfl, -⟩ := Prod.mk.inj h
      exact settles_removed.weaken (List.nil_subset _)
    · obtain ⟨rfl, -⟩ := Prod.mk.inj h
      exact settles_removed.trans (settles_handOver _ _)

theorem settles_advance (h : advance g inst control d depth applied = (s', flow)) :
    applied.state.Settles s' d.returnValue.toList := by
  by_cases hunwinds : inst.Unwinds
  · rw [advance_of_unwinds hunwinds] at h
    exact settles_stamp.trans (settles_unwind h)
  · rw [advance_of_not_unwinds hunwinds] at h
    obtain ⟨rfl, -⟩ := Prod.mk.inj h
    exact settles_stamp.weaken (List.nil_subset _)

/-- Performing an instruction absorbs its delta. -/
theorem absorbs_of_advance (happly : s.apply d = .ok applied)
    (hadvance : advance g inst control d depth applied = (s', flow)) : s.Absorbs d s' := by
  have habsorbs := State.absorbs_of_apply happly
  have hsettles := settles_advance hadvance
  have hgrows := habsorbs.grows.trans hsettles.grows
  rw [List.append_nil, List.append_nil] at hgrows
  refine ⟨hgrows.weaken fun v hv => ?_, hsettles.heap.trans habsorbs.heap, ?_⟩
  · rcases List.mem_append.mp hv with hv | hv
    · exact hv
    · exact Delta.mem_writtenValues.mpr (.inr (.inr (.inr (.inl (Option.mem_toList.mp hv)))))
  · rw [hsettles.counter]
    exact habsorbs.counter

/-! ### Steps and runs -/

section

variable {σ : Type} {oracle : Oracle σ} {oracleState : σ} {p q : Progress σ} {options : RunOptions}

theorem absorbs_empty (s : State) : s.Absorbs {} s where
  grows := .refl s
  heap := rfl
  counter := rfl

/-- A step absorbs the delta of the instruction at its point. -/
theorem absorbs_of_performs (h : StepOutcome g registry oracle p q flow)
    (hperforms : Performs g registry oracle p inst d) : p.state.Absorbs d q.state := by
  rcases advance_of_performs h hperforms with ⟨rfl, hstate⟩ | ⟨applied, happly, hadvance⟩
  · rw [hstate]
    exact absorbs_empty p.state
  · exact absorbs_of_advance happly hadvance

/-- A step leaves the state as it is or absorbs the delta of an instruction. -/
theorem exists_performs_of_outcome (h : StepOutcome g registry oracle p q flow) :
    q.state = p.state ∨
      ∃ inst d, Performs g registry oracle p inst d ∧ p.state.Absorbs d q.state := by
  cases h with
  | moved state idle ends => exact .inl state
  | performed inst d applied located decided apply advance =>
    exact .inr ⟨inst, d, ⟨located, decided⟩, absorbs_of_advance apply advance⟩

/-- The unknowns of a state are reserved throughout a run, whatever the oracle answers. -/
theorem reserved_of_history :
    ∀ p ∈ history g registry oracle oracleState options, p.state.Reserved := by
  apply history_induction
  · intro label
    exact State.reserved_start
  · intro k p q flow _ _ hp houtcome
    rcases exists_performs_of_outcome houtcome with hstate | ⟨inst, d, -, habsorbs⟩
    · rwa [hstate]
    · exact hp.absorb habsorbs

/-- The counter never decreases along a run. -/
theorem counter_mono {i j : Nat} (hij : i ≤ j)
    (hp : (history g registry oracle oracleState options)[i]? = some p)
    (hq : (history g registry oracle oracleState options)[j]? = some q) :
    p.state.counter ≤ q.state.counter := by
  induction j, hij using Nat.le_induction generalizing q with
  | base =>
    obtain rfl := Option.some.inj (hp.symm.trans hq)
    exact Nat.le_refl _
  | succ j hij ih =>
    obtain ⟨m, hm⟩ := exists_earlier (Nat.le_succ j) hq
    obtain ⟨flow, hreaches⟩ := reaches_of_history hm hq
    refine Nat.le_trans (ih hm) ?_
    rcases exists_performs_of_outcome (stepOutcome_of_reaches hreaches) with
      hstate | ⟨inst, d, -, habsorbs⟩
    · exact Nat.le_of_eq (congrArg State.counter hstate.symm)
    · exact habsorbs.counter_le

end

/-! ### Runs with the symbolic oracle -/

variable {p q : Progress Unit} {options : RunOptions}

/-- All identifiers are numbered below the counter, throughout a run. -/
theorem numbered_of_history :
    ∀ p ∈ history g registry SymbolicOracle.oracle () options, p.state.Numbered := by
  apply history_induction
  · intro label
    exact State.numbered_start
  · intro k p q flow _ _ hp houtcome
    rcases exists_performs_of_outcome houtcome with hstate | ⟨inst, d, hperforms, habsorbs⟩
    · rwa [hstate]
    · exact hp.absorb (decision?_symbolic hperforms.2).2 habsorbs

theorem numbered_of_run {outcome : Outcome}
    (h : (run g registry SymbolicOracle.oracle () options).1 = .ok outcome) :
    outcome.state.Numbered := by
  rcases run_eq_ok h with ⟨-, hstate⟩ | ⟨q, hq, hstate, -⟩
  · rw [hstate]
    exact State.numbered_start
  · rw [hstate]
    exact numbered_of_history q hq

/-! ### What a step mints -/

/-- A delta mints an identifier: it allocates it, or writes an unknown of that name that the state
does not have. These are the identifiers that a step brings into the state. The names that it draws
for the purpose are told by `Draws`. -/
def Mints (s : State) (d : Delta) (name : String) : Prop :=
  name ∈ d.allocations ∨
    (name ∈ d.symbolNames ∧ ∀ v ∈ s.values, ∀ x ∈ v.unknowns, x.name ≠ name)

theorem mem_reservations_of_mints {name : String} (h : Mints s d name) : name ∈ d.reservations := by
  unfold Delta.reservations
  rcases h with hmem | ⟨hmem, -⟩
  · exact List.mem_append_left _ hmem
  · exact List.mem_append_right _ hmem

theorem fresh_of_mints (hfoot : d.Footprint s) {name : String} (h : Mints s d name) :
    ∃ kind, s.Fresh kind name := by
  rcases h with hmem | ⟨hmem, hnew⟩
  · exact hfoot.fresh_of_mem_allocations hmem
  · rcases hfoot.of_mem_symbolNames hmem with ⟨u, hu, x, hx, rfl⟩ | hfresh
    · exact absurd rfl (hnew u hu x hx)
    · exact hfresh

/-- Known values have no unknown that the state does not have. -/
theorem not_known_of_new {v : Value} {x : Symbolic} (hx : x ∈ v.unknowns)
    (hnew : ∀ u ∈ s.values, ∀ y ∈ u.unknowns, y.name ≠ x.name) : ¬ v.Known s := by
  intro hknown
  have hold : ∀ y ∈ v.unknowns, ∃ u ∈ s.values, y ∈ u.unknowns :=
    hknown.forall_unknowns fun u hu y hy => ⟨u, hu, hy⟩
  obtain ⟨u, hu, hxu⟩ := hold x hx
  exact hnew u hu x hxu rfl

/-- What is new in known values is what is allocated. -/
theorem mem_allocations_of_mints {name : String} (hknown : ∀ v ∈ d.writtenValues, v.Known s)
    (h : Mints s d name) : name ∈ d.allocations := by
  rcases h with hmem | ⟨hmem, hnew⟩
  · exact hmem
  · obtain ⟨v, hv, hname⟩ := List.mem_flatMap.mp hmem
    obtain ⟨x, hx, rfl⟩ := List.mem_map.mp hname
    exact absurd (hknown v hv) (not_known_of_new hx hnew)

/-- A new object is at an address that was free, and it has only the fields that its delta
writes. -/
theorem created_of_performs {i : Nat}
    (hp : (history g registry SymbolicOracle.oracle () options)[i]? = some p)
    (hq : (history g registry SymbolicOracle.oracle () options)[i + 1]? = some q)
    (hperforms : Performs g registry SymbolicOracle.oracle p inst d) {obj : NewObject}
    (hobj : obj ∈ d.newObjects) :
    obj.address ∉ p.state.heap.keys ∧
      ∃ made, q.state.heap.get? obj.address = some made ∧
        ∀ field v, made.fields.get? field = some v → ⟨obj.address, field, v⟩ ∈ d.heapWrites := by
  have hnumbered := numbered_of_history p (List.mem_of_getElem? hp)
  have hfoot := (decision?_symbolic hperforms.2).2
  obtain ⟨flow, hreaches⟩ := reaches_of_history hp hq
  have habsorbs := absorbs_of_performs (stepOutcome_of_reaches hreaches) hperforms
  have hfree : obj.address ∉ p.state.heap.keys := by
    rcases hfoot.objects obj hobj with hfresh | hfresh
    · exact hnumbered.address_notMem hfresh
    · exact hnumbered.address_notMem hfresh
  have hmade : obj.address ∈ q.state.heap.keys :=
    (habsorbs.grows.heap obj.address).mpr
      (.inr (List.mem_append_left _ (List.mem_map_of_mem hobj)))
  obtain ⟨made, hget⟩ := Option.ne_none_iff_exists'.mp
    fun hnone => Dict.get?_eq_none_iff.mp hnone hmade
  refine ⟨hfree, made, hget, ?_⟩
  rw [habsorbs.heap] at hget
  exact State.fieldsFrom_effect hfree made hget

end Run

end SymbolicVM
