import SymbolicVM.Proofs.Engine.Footprint
import SymbolicVM.Proofs.Machine.Numbering

/-!
# What a decision takes from the supply of names

The engine takes the names of new things from a supply. A name that it draws becomes unavailable to
later steps only by being in the delta, so what matters is whether every name gets there.
`Engine.atMostOne_decide` says that a decision draws at most one name and that this name is in the
delta, with one exception: the unknown for an unbound variable that is loaded into no register
(`Engine.Discards`) is in no part of it but the reasoning.

Which name a decision draws is told by withholding names (`Engine.withhold`): the decision is
not made exactly without the one that it draws.
-/

namespace SymbolicVM

/-- The delta allocates nothing, and of what it writes just the unknowns with these names are not
known. -/
structure Delta.Invents (d : Delta) (s : State) (names : List String) : Prop where
  allocations : d.allocations = []
  known : ∀ v ∈ d.writtenValues, v.Known s ∨ ∃ x, v = .symbolic x ∧ x.name ∈ names
  written : ∀ name ∈ names, ∃ x : Symbolic, x.name = name ∧ .symbolic x ∈ d.writtenValues

namespace Engine

/-- The supply without a name: it is used up where this name would come next. -/
def withhold (name : String) (supply : Supply) : Supply := fun kind =>
  match supply kind with
  | .ok next => if next = name then .error .overflow else .ok next
  | .error e => .error e

/-- Where a name is missing, the counter is exhausted. -/
theorem eq_overflow_of_map_fresh {α : Type} {s : State} {kind : IdKind} {rest : String → α}
    {e : Refusal} (h : (fresh s kind).map rest = .error e) : e = .overflow := by
  unfold fresh at h
  split at h
  · contradiction
  · exact (Except.error.inj h).symm

/-! ### Computations that draw at most one name -/

/-- The computation takes nothing from the supply, or it draws one name and then has a result with
the property. -/
inductive AtMostOne {α : Type} (P : IdKind → String → α → Prop) (f : Supply → Step α) : Prop where
  | nothing (result : Step α) (same : ∀ supply, f supply = result)
  | one (kind : IdKind) (rest : String → α) (draws : ∀ supply, f supply = (supply kind).map rest)
      (holds : ∀ name, P kind name (rest name))

namespace AtMostOne

variable {α β : Type} {P : IdKind → String → α → Prop} {Q : IdKind → String → β → Prop}

theorem after {x : Step β} {next : β → Supply → Step α}
    (h : ∀ b, x = .ok b → AtMostOne P (next b)) :
    AtMostOne P fun supply => x >>= fun b => next b supply := by
  cases x with
  | error e => exact .nothing (.error e) fun _ => rfl
  | ok b => exact h b rfl

theorem draw (kind : IdKind) (rest : String → α) (h : ∀ name, P kind name (rest name)) :
    AtMostOne P fun supply => supply kind >>= fun name => .ok (rest name) := by
  refine .one kind rest (fun supply => ?_) h
  cases supply kind with
  | error e => rfl
  | ok name => rfl

theorem followed {f : Supply → Step α} (hf : AtMostOne P f) {next : α → Step β}
    (hnext : ∀ a, ∃ b, next a = .ok b ∧ ∀ kind name, P kind name a → Q kind name b) :
    AtMostOne Q fun supply => f supply >>= next := by
  choose result hresult hholds using hnext
  cases hf with
  | nothing r same => exact .nothing (r >>= next) fun supply => by rw [same]
  | one kind rest draws holds =>
    refine .one kind (result ∘ rest) (fun supply => ?_) fun name => hholds _ _ _ (holds name)
    rw [draws]
    cases supply kind with
    | error e => rfl
    | ok name => exact hresult (rest name)

section

variable {f : Supply → Step α} {s : State} {a : α}

/-- A computation that is made takes nothing from the supply, or there is one name without which
the supply is used up for it. -/
theorem drawn (h : AtMostOne P f) (hmade : f (fresh s) = .ok a) :
    (∀ supply, f supply = .ok a) ∨
      ∃ kind, P kind (kind.name s.counter) a ∧
        ∀ name, f (withhold name (fresh s)) =
          if kind.name s.counter = name then .error .overflow else .ok a := by
  cases h with
  | nothing r same => exact .inl fun supply => (same _).trans ((same _).symm.trans hmade)
  | one kind rest draws holds =>
    rw [draws] at hmade
    obtain ⟨next, hnext, rfl⟩ := map_eq_ok.mp hmade
    obtain ⟨rfl, -⟩ := fresh_eq_ok.mp hnext
    refine .inr ⟨kind, holds _, fun name => ?_⟩
    rw [draws]
    unfold withhold
    rw [hnext]
    dsimp only
    split_ifs
    · rfl
    · rfl

/-- A computation that fails for another reason than that the counter is exhausted takes nothing
from the supply. -/
theorem eq_error (h : AtMostOne P f) {e : Refusal} (herror : f (fresh s) = .error e)
    (hne : e ≠ .overflow) (supply : Supply) : f supply = .error e := by
  cases h with
  | nothing r same => rw [same, ← herror, same]
  | one kind rest draws holds =>
    rw [draws] at herror
    exact absurd (eq_overflow_of_map_fresh herror) hne

end

end AtMostOne

variable {registry : Registry} {inst : Instruction} {s : State} {d : Delta} {name : String}

/-! ### Decisions -/

/-- The instruction loads an unbound variable into no register. -/
def Discards (inst : Instruction) (s : State) : Prop :=
  inst.opcode = .loadVar ∧ inst.result = none ∧
    ∃ x, inst.text? 0 = some x ∧ s.lookup? x = none

/-- What becomes of a name that is drawn for an instruction: the delta allocates it or invents an
unknown of this name, or an unknown is discarded. -/
def Accounts (inst : Instruction) (s : State) (kind : IdKind) (name : String) (d : Delta) : Prop :=
  d.allocations = [name] ∨
    kind = .symbol ∧ (d.Invents s [name] ∨ Discards inst s ∧ d.reservations = [])

/-- An unknown that becomes the result or is written to fields is invented. -/
theorem invents_result {x : Symbolic} {writes : List HeapWrite} {why : String}
    (hwrites : ∀ w ∈ writes, w.value = .symbolic x) (hused : inst.result.isSome ∨ writes ≠ []) :
    Delta.Invents
      { registerWrites := inst.resultWrites (.symbolic x), heapWrites := writes, reasoning := why }
      s [x.name] where
  allocations := rfl
  known v hv := by
    have hvalue : v ∈ (inst.resultWrites (.symbolic x)).values ∨ ∃ w ∈ writes, w.value = v := by
      simpa [Delta.mem_writtenValues] using hv
    refine .inr ⟨x, ?_, List.mem_singleton.mpr rfl⟩
    rcases hvalue with hresult | ⟨w, hw, rfl⟩
    · exact eq_of_mem_resultWrites hresult
    · exact hwrites w hw
  written name hname := by
    rw [List.mem_singleton.mp hname]
    refine ⟨x, rfl, Delta.mem_writtenValues.mpr ?_⟩
    rcases hused with hresult | hne
    · obtain ⟨reg, hreg⟩ := Option.isSome_iff_exists.mp hresult
      exact .inl (Dict.mem_values_of_get? (get?_resultWrites hreg))
    · obtain ⟨w, hw⟩ := List.exists_mem_of_ne_nil writes hne
      exact .inr (.inr (.inl (List.mem_map.mpr ⟨w, hw, hwrites w hw⟩)))

theorem allocations_bindArguments (d : Delta) (params : List String) (args : List Value) :
    (bindArguments d params args).allocations = d.allocations := by
  obtain ⟨vars, heq⟩ := bindArguments_eq params args d
  rw [heq]
  rfl

theorem atMostOne_closureFor :
    AtMostOne (fun _ name env? => ∃ env c, env? = some (env, some c) ∧ c.id = name)
      (closureFor s ·) := by
  unfold closureFor
  split
  · split
    · exact .nothing _ fun _ => rfl
    · exact .draw .environment _ fun name => ⟨_, _, rfl, rfl⟩
  · exact .nothing _ fun _ => rfl

theorem atMostOne_closeOver (v : Value) :
    AtMostOne (fun _ name closed => ∃ c, closed.2 = some c ∧ c.id = name) (closeOver s v ·) := by
  unfold closeOver
  split
  · exact .nothing _ fun _ => rfl
  · split
    · exact .nothing _ fun _ => rfl
    · refine atMostOne_closureFor.followed fun env? => ?_
      cases env? with
      | none => exact ⟨_, rfl, by simp⟩
      | some pair =>
        refine ⟨_, rfl, ?_⟩
        rintro - name ⟨env, c, hpair, hid⟩
        exact ⟨c, by rw [Option.some.inj hpair], hid⟩

theorem atMostOne_decideConst : AtMostOne (Accounts inst s) (decideConst inst s ·) := by
  unfold decideConst
  refine (atMostOne_closeOver _).followed fun closed => ⟨_, rfl, ?_⟩
  rintro - name ⟨c, hc, rfl⟩
  refine .inl ?_
  rw [Delta.allocations_produce]
  simp [Delta.allocations, hc]

theorem atMostOne_decideLoadVar (hopcode : inst.opcode = .loadVar) :
    AtMostOne (Accounts inst s) (decideLoadVar inst s ·) := by
  refine .after fun x hx => ?_
  cases hlookup : s.lookup? x with
  | some v => exact .nothing _ fun _ => rfl
  | none =>
    refine .draw .symbol _ fun sym => .inr ⟨rfl, ?_⟩
    rw [Delta.produce_eq rfl]
    cases hresult : inst.result with
    | none =>
      refine .inr ⟨⟨hopcode, hresult, x, text_eq_ok.mp hx, hlookup⟩, ?_⟩
      unfold Instruction.resultWrites
      rw [hresult]
      rfl
    | some reg => exact .inl (invents_result (by simp) (.inl (by simp [hresult])))

theorem atMostOne_decideNewObject : AtMostOne (Accounts inst s) (decideNewObject inst s ·) := by
  refine .draw .object _ fun address => .inl ?_
  rw [Delta.allocations_produce]
  rfl

theorem atMostOne_decideNewArray : AtMostOne (Accounts inst s) (decideNewArray inst s ·) := by
  simp only [decideNewArray_eq]
  refine .after fun size _ => .draw .array _ fun address => .inl ?_
  rw [Delta.allocations_produce]
  split
  · rfl
  · rfl

theorem atMostOne_loadFromHeap (base key : Operand) :
    AtMostOne (Accounts inst s) (loadFromHeap inst s base key ·) := by
  simp only [loadFromHeap_eq]
  refine .after fun found _ => .after fun name _ => .after fun field _ => ?_
  unfold loadField
  dsimp only
  split
  · exact .nothing _ fun _ => rfl
  · refine .draw .symbol _ fun sym => .inr ⟨rfl, .inl ?_⟩
    rw [Delta.produce_eq rfl]
    refine invents_result (fun w hw => ?_) (.inr (by simp [Delta.writeHeap]))
    rw [List.mem_singleton.mp hw]

theorem atMostOne_decideLoad : AtMostOne (Accounts inst s) (decideLoad inst s ·) := by
  simp only [decideLoad_eq]
  refine .after fun baseOperand _ => .after fun base _ => .after fun key _ =>
    .after fun part _ => ?_
  cases part with
  | some v => exact .nothing _ fun _ => rfl
  | none => exact atMostOne_loadFromHeap baseOperand key

theorem atMostOne_construct (c : ClassRef) (args : List Value) :
    AtMostOne (Accounts inst s) (construct registry c args inst s ·) := by
  unfold construct
  dsimp only
  cases registry.constructor? c.name with
  | none =>
    refine .draw .object _ fun address => .inl ?_
    show (Delta.produce _ inst _).allocations = [address]
    rw [Delta.allocations_produce]
    rfl
  | some entry =>
    refine .draw .object _ fun address => .inl ?_
    rw [allocations_bindArguments]
    show (Delta.produce _ inst _).allocations = [address]
    rw [Delta.allocations_produce]
    rfl

theorem atMostOne_callBuiltin (name : String) (b : Builtin) (args : List Value) :
    AtMostOne (Accounts inst s) (callBuiltin name b args inst s ·) := by
  unfold callBuiltin
  split_ifs
  · exact .nothing _ fun _ => rfl
  · refine .draw .array _ fun address => .inl ?_
    obtain ⟨writes, heq, -⟩ := arrayDelta_eq address args
    rw [Delta.allocations_produce, heq]
    rfl
  · exact .nothing _ fun _ => rfl

theorem atMostOne_decideCallFunction :
    AtMostOne (Accounts inst s) (decideCallFunction registry inst s ·) := by
  refine .after fun name _ => .after fun args _ => ?_
  cases Builtin.ofName? name with
  | some b => exact atMostOne_callBuiltin name b args
  | none =>
    refine .after fun target _ => ?_
    cases FunctionRef.parse? target with
    | some f => exact .nothing _ fun _ => rfl
    | none =>
      cases ClassRef.parse? target with
      | some c => exact atMostOne_construct c args
      | none => exact .nothing _ fun _ => rfl

/-- **A decision draws at most one name**, and the name is in the delta unless it is discarded. -/
theorem atMostOne_decide : AtMostOne (Accounts inst s) (decide registry inst s ·) := by
  unfold decide
  cases hopcode : inst.opcode with
  | const => exact atMostOne_decideConst
  | loadVar => exact atMostOne_decideLoadVar hopcode
  | newObject => exact atMostOne_decideNewObject
  | newArray => exact atMostOne_decideNewArray
  | loadField | loadIndex => exact atMostOne_decideLoad
  | callFunction => exact atMostOne_decideCallFunction
  | _ => exact .nothing _ fun _ => rfl

/-- An unknown that is discarded leaves no trace in the data of the delta. -/
theorem decide_of_discards (registry : Registry) (h : Discards inst s) :
    ∃ why : String → String, ∀ supply, decide registry inst s supply =
      (supply .symbol).map fun name => { reasoning := why name } := by
  obtain ⟨hopcode, hresult, x, hx, hlookup⟩ := h
  refine ⟨fun sym => "unbound variable " ++ x ++ " -> symbolic " ++ sym, fun supply => ?_⟩
  unfold decide decideLoadVar Delta.produce
  rw [hopcode]
  dsimp only
  rw [text_eq_ok.mpr hx, ok_bind, hlookup, hresult]
  cases supply .symbol with
  | error e => rfl
  | ok name => rfl

/-- Decisions depend on the counter only through the supply. -/
theorem decide_withCounter (n : Nat) (supply : Supply) :
    decide registry inst (s.withCounter n) supply = decide registry inst s supply := rfl

end Engine

end SymbolicVM
