import SymbolicVM.Proofs.Engine.Stores
import SymbolicVM.Proofs.Machine.Fields
import SymbolicVM.Proofs.Run.Freshness

/-!
# Loads are remembered

A load of a field that nobody wrote gives a new unknown, and the object remembers it. So whatever a
load has given once, it gives again (`Engine.load_remembered`): as long as nothing is written to the
object, every load of the same kind with the same base and the same key is decided with the same
value, writes nothing and mints nothing. The field that a negative index leads to does not move,
either, since the length of the array is a field of the same object.
-/

namespace SymbolicVM.Engine

variable {registry : Registry} {load inst : Instruction} {s t : State} {d : Delta} {base u : Value}
  {address key field : String} {obj obj' : HeapObject}

theorem heapWrites_produce (d : Delta) (inst : Instruction) (v : Value) :
    (d.produce inst v).heapWrites = d.heapWrites := by
  unfold Delta.produce
  cases inst.result with
  | none => rfl
  | some reg => rfl

/-- A load gives the value of the field, or makes a new unknown and writes it to the field. -/
theorem loadField_eq_ok (h : loadField load s address obj field = .ok d) :
    ∃ u, (∀ reg, load.result = some reg → d.registerWrites.get? reg = some u) ∧
      ((obj.fields.get? field = some u ∧ d.heapWrites = []) ∨
        (obj.fields.get? field = none ∧ d.heapWrites = [⟨address, field, u⟩])) := by
  unfold loadField at h
  dsimp only at h
  cases hvalue : obj.fields.get? field with
  | some v =>
    rw [hvalue] at h
    obtain rfl := Except.ok.inj h
    exact ⟨v, fun reg hreg => get?_produce hreg, .inl ⟨rfl, heapWrites_produce _ _ _⟩⟩
  | none =>
    rw [hvalue] at h
    obtain ⟨sym, -, h⟩ := bind_eq_ok.mp h
    obtain rfl := Except.ok.inj h
    exact ⟨_, fun reg hreg => get?_produce hreg, .inr ⟨rfl, heapWrites_produce _ _ _⟩⟩

/-- The field that a key leads to depends on the fields of the object alone. -/
theorem loadedField_congr (h : obj'.fields = obj.fields) (hopcode : inst.opcode = load.opcode) :
    loadedField inst obj' key = loadedField load obj key := by
  have helement : elementKey obj' key = elementKey obj key := by
    unfold elementKey
    rw [h]
  unfold loadedField
  rw [hopcode, helement]

/-- A delta that puts a value of the state into a register mints nothing. -/
theorem not_mints_produce {why name : String} (hu : u ∈ t.values) :
    ¬ Run.Mints t ({ reasoning := why : Delta }.produce inst u) name := by
  have hwritten : ({ reasoning := why : Delta }.produce inst u).writtenValues ⊆ [u] := by
    unfold Delta.produce
    cases inst.result with
    | none => exact List.nil_subset _
    | some reg => exact List.Subset.refl _
  intro hmints
  have hname := Run.mem_allocations_of_mints
    (fun v hv => List.mem_singleton.mp (hwritten hv) ▸ .given hu) hmints
  rw [Delta.allocations_produce] at hname
  exact absurd hname List.not_mem_nil

/-- **What a load has given it gives again.** Let a load of a field or of an element of the object
at an address be decided. After its delta and any deltas that do not write to the address, each load
of the same kind with the same base and the same key is decided with the same value; it writes
nothing to the heap and mints no identifier. -/
theorem load_remembered {ds : List Delta}
    (hload : load.opcode = .loadField ∨ load.opcode = .loadIndex)
    (haccess : Accesses load s base key) (hreference : base.heapAddress? = some address)
    (hdirect : load.opcode = .loadIndex → base = .str address)
    (hlive : s.heap.contains address = true) (hdecide : decide registry load s = .ok d)
    (hds : ∀ d' ∈ ds, ∀ w ∈ d'.heapWrites, w.address ≠ address)
    (happly : s.applyAll (d :: ds) = .ok t) :
    ∃ u, (∀ reg, load.result = some reg → d.registerWrites.get? reg = some u) ∧
      ((∃ field, d.heapWrites = [⟨address, field, u⟩]) ∨ d.heapWrites = []) ∧
      ∀ (registry' : Registry) (again : Instruction), again.opcode = load.opcode →
        Accesses again t base key →
        ∃ d', decide registry' again t = .ok d' ∧
          (∀ reg, again.result = some reg → d'.registerWrites.get? reg = some u) ∧
          d'.heapWrites = [] ∧ ∀ name, ¬ Run.Mints t d' name := by
  obtain ⟨obj, hobj⟩ := Option.isSome_iff_exists.mp hlive
  rw [decide_of_isLoad hload, decideLoad_of_accesses haccess hreference hdirect hobj] at hdecide
  obtain ⟨field, hfield, hdecide⟩ := bind_eq_ok.mp hdecide
  obtain ⟨u, hresult, hcases⟩ := loadField_eq_ok hdecide
  obtain ⟨applied, hfirst, hrest⟩ := State.applyAll_cons_eq_ok happly
  -- the object that the second load finds
  have hobject : State.FieldsAt address obj.fields s.heap := ⟨obj, hobj, rfl⟩
  obtain ⟨obj', hobj', hfields⟩ := (hobject.apply hfirst).applyAll hds hrest
  -- it has the value in the field, and its key still leads there
  have hvalue : obj'.fields.get? field = some u ∧ loadedField load obj' key = .ok field := by
    rcases hcases with ⟨hfound, hwrites⟩ | ⟨-, hwrites⟩
    · have hsame : obj'.fields = obj.fields := by
        rw [hfields, hwrites]
        rfl
      exact ⟨by rw [hsame, hfound], by rw [loadedField_congr hsame rfl, hfield]⟩
    · have hsame : obj'.fields = (obj.write field u).fields := by
        rw [hfields, hwrites]
        exact if_pos rfl
      refine ⟨?_, by rw [loadedField_congr hsame rfl, loadedField_write_self hfield u]⟩
      rw [hsame]
      exact Dict.get?_insert_self _ _ _
  refine ⟨u, hresult, ?_, fun registry' again hopcode haccess' => ?_⟩
  · rcases hcases with ⟨-, hwrites⟩ | ⟨-, hwrites⟩
    · exact .inr hwrites
    · exact .inl ⟨field, hwrites⟩
  · obtain ⟨why, hagain⟩ := @loadField_of_get? again t address field obj' u hvalue.1
    have hdecide' : decide registry' again t =
        .ok ({ reasoning := why : Delta }.produce again u) := by
      rw [decide_of_isLoad (by rwa [hopcode]), decideLoad_of_accesses haccess' hreference
        (fun h => hdirect (hopcode.symm.trans h)) hobj', loadedField_congr rfl hopcode, hvalue.2,
        ok_bind, hagain]
    exact ⟨_, hdecide', fun reg hreg => get?_produce hreg, heapWrites_produce _ _ _,
      fun name => not_mints_produce (State.mem_values_of_field hobj' hvalue.1)⟩

/-- The array is announced again as one of another kind, and then a function is called that writes
to another object. -/
def interveningDeltas : List Delta :=
  [{ newObjects := [{ address := "arr_0", hint := some "float" }] },
    { heapWrites := [⟨"obj_7", "x", .null⟩], callPush := some { function := "f" } }]

/-- Loads the last element of the array in a frame that does not have the array in a register. -/
def loadLast : Instruction where
  opcode := .loadIndex
  operands := [.text "arr_0", .int (-1)]
  result := some "%9"

/-- The last element of an array of length three is unknown, and remembered as the third one. -/
theorem loadAt_remembered :
    ∃ d t u, decide {} (loadAt (-1)) blankArrayState = .ok d ∧
      d.heapWrites.map (·.field) = ["2"] ∧ d.registerWrites.get? "%1" = some u ∧
      blankArrayState.applyAll (d :: interveningDeltas) = .ok t ∧ t.frames.length = 2 ∧
      ∃ d', decide {} loadLast t = .ok d' ∧ d'.registerWrites.get? "%9" = some u ∧
        d'.heapWrites = [] ∧ ∀ name, ¬ Run.Mints t d' name := by
  have hview : ((decide {} (loadAt (-1)) blankArrayState).toOption.bind fun d =>
      (blankArrayState.applyAll (d :: interveningDeltas)).toOption.map fun t =>
        (d.heapWrites.map (·.field), t.frames.length)) = some (["2"], 2) := by
    decide +kernel
  obtain ⟨d, hd, hview⟩ := Option.bind_eq_some_iff.mp hview
  obtain ⟨t, ht, hview⟩ := Option.map_eq_some_iff.mp hview
  obtain ⟨hfield, hframes⟩ := Prod.mk.inj hview
  have hdecide := toOption_eq_some hd
  have happly := toOption_eq_some ht
  have hspelled : (memberKey {} .loadIndex (.int (-1))).toOption = some "-1" := by
    decide +kernel
  have hliteral : (Operand.text "arr_0").literal.str? = some "arr_0" := by
    decide +kernel
  have hkey (s : State) : memberKey s .loadIndex (.int (-1)) = .ok "-1" := toOption_eq_some hspelled
  have haccess : Accesses (loadAt (-1)) blankArrayState (.str "arr_0") "-1" :=
    ⟨⟨.text "%0", rfl, rfl⟩, .int (-1), rfl, hkey _⟩
  have haccess' : Accesses loadLast t (.str "arr_0") "-1" :=
    ⟨⟨.text "arr_0", rfl,
      resolve_eq_ok.mpr (.inr ⟨by decide, (Value.str?_eq_some.mp hliteral).symm⟩)⟩,
      .int (-1), rfl, hkey _⟩
  obtain ⟨u, hresult, -, hagain⟩ := load_remembered (.inr rfl) haccess rfl (fun _ => rfl)
    (by decide) hdecide (by decide) happly
  obtain ⟨d', hdecide', hresult', hwrites, hmints⟩ := hagain {} loadLast rfl haccess'
  exact ⟨d, t, u, hdecide, hfield, hresult "%1" rfl, happly, hframes, d', hdecide',
    hresult' "%9" rfl, hwrites, hmints⟩

end SymbolicVM.Engine
