import SymbolicVM.Oracle.Command
import SymbolicVM.Oracle.Replay
import SymbolicVM.Proofs.Machine.Reading
import SymbolicVM.Proofs.Oracle.Response
import SymbolicVM.Proofs.Oracle.Shape

/-!
# Answers are regular

An answer is read from a canonical document, and then its unknowns are named, which keeps the shapes
of its values. Whether a value is regular can be told from its shape
(`Value.everywhere_regular_shape`), so all values of an answer that is accepted are regular
(`Response.regular_of_parse`). This concerns every oracle that reads its answers (`Oracle.Parses`),
as the replay oracle and the command oracle do.
-/

namespace SymbolicVM

/-! ### Names -/

namespace Value

/-- Nothing but the mark of an unknown has its shape. -/
theorem shape_eq_true_iff {v : Value} : v.shape = .bool true ↔ v = .bool true := by
  cases v with
  | symbolic x => simp [shape, Symbolic.unnamed]
  | _ => simp [shape]

theorem regularMap_map {entries : List (String × Value)} :
    (Value.map entries).RegularMap ↔ Entries.Ascending entries ∧
      Entries.get? symbolicMarker entries ≠ some (.bool true) := by
  simp [RegularMap]

theorem regularMap_shape_map {entries : List (String × Value)} :
    (Value.map (Entries.mapValues shape entries)).RegularMap ↔
      (Value.map entries).RegularMap := by
  rw [regularMap_map, regularMap_map, Entries.ascending_mapValues, Entries.get?_mapValues]
  simp [shape_eq_true_iff]

mutual

/-- Whether a value is regular can be told from its shape. -/
theorem everywhere_regular_shape : ∀ v : Value,
    v.shape.Everywhere RegularMap ↔ v.Everywhere RegularMap
  | .null | .bool _ | .int _ | .float _ | .str _ => by simp [shape]
  | .symbolic x => iff_of_true (everywhere_regular_symbolic _) (everywhere_regular_symbolic x)
  | .list items => by
    rw [shape_list, everywhere_list, everywhere_list, List.forall_mem_map,
      regular_shape_items items]
    exact and_congr_left fun _ => iff_of_true (regularMap_list _) (regularMap_list items)
  | .map entries => by
    rw [shape_map, everywhere_map, everywhere_map, regularMap_shape_map, Entries.mapValues,
      List.forall_mem_map, regular_shape_entries entries]

theorem regular_shape_items : ∀ items : List Value,
    (∀ v ∈ items, v.shape.Everywhere RegularMap) ↔ ∀ v ∈ items, v.Everywhere RegularMap
  | [] => by simp
  | v :: vs => by
    rw [List.forall_mem_cons, List.forall_mem_cons, everywhere_regular_shape v,
      regular_shape_items vs]

theorem regular_shape_entries : ∀ entries : List (String × Value),
    (∀ e ∈ entries, e.2.shape.Everywhere RegularMap) ↔ ∀ e ∈ entries, e.2.Everywhere RegularMap
  | [] => by simp
  | e :: es => by
    rw [List.forall_mem_cons, List.forall_mem_cons, everywhere_regular_shape e.2,
      regular_shape_entries es]

end

end Value

namespace Response

/-! ### Deltas -/

/-- Naming the unknowns of a delta keeps its values regular. -/
theorem regular_of_nameDelta {counter : Nat} {d d' : Delta} (h : nameDelta counter d = .ok d')
    (hd : ∀ v ∈ d.writtenValues, v.Everywhere Value.RegularMap) :
    ∀ v ∈ d'.writtenValues, v.Everywhere Value.RegularMap := by
  intro v hv
  have hshape : v.shape ∈ d'.shape.writtenValues := by
    rw [Delta.writtenValues_shape]
    exact List.mem_map_of_mem hv
  rw [shape_of_nameDelta h, Delta.writtenValues_shape] at hshape
  obtain ⟨u, hu, heq⟩ := List.mem_map.mp hshape
  rw [← Value.everywhere_regular_shape, ← heq, Value.everywhere_regular_shape]
  exact hd u hu

theorem regular_of_decode {j : Json} {d : Delta} (h : decode j.canonical = .ok d) :
    ∀ v ∈ d.writtenValues, v.Everywhere Value.RegularMap := by
  unfold decode at h
  split_ifs at h
  cases hdelta : Delta.ofJson? j.canonical with
  | none =>
    rw [hdelta] at h
    cases h
  | some delta =>
    rw [hdelta] at h
    obtain rfl := Except.ok.inj h
    exact Delta.reads _ _ (Json.isCanonical_canonical j) hdelta

/-- **The values of an accepted answer are regular.** -/
theorem regular_of_parse {text : String} {inst : Instruction} {s : State} {d : Delta}
    (h : parse text inst s = .ok d) :
    ∀ v ∈ d.writtenValues, v.Everywhere Value.RegularMap := by
  unfold parse Json.read? at h
  cases hdocument : Json.parse? (String.ofList (stripFences text.toList)) with
  | none =>
    rw [hdocument] at h
    obtain ⟨read, hread, -⟩ := bind_eq_ok.mp h
    cases hread
  | some j =>
    rw [hdocument] at h
    obtain ⟨read, hread, h⟩ := bind_eq_ok.mp h
    obtain ⟨-, -, h⟩ := bind_eq_ok.mp h
    cases hnamed : nameDelta s.counter read with
    | error e =>
      rw [hnamed] at h
      cases h
    | ok named =>
      rw [hnamed] at h
      obtain rfl := Except.ok.inj h
      exact regular_of_nameDelta hnamed (regular_of_decode hread)

end Response

/-! ### Oracles that read their answers -/

/-- All answers of the oracle are read from texts. -/
def Oracle.Parses {σ : Type} (oracle : Oracle σ) : Prop :=
  ∀ inst s os d, (oracle.decide inst s os).1 = .ok d →
    ∃ text, Response.parse text inst s = .ok d

theorem ReplayOracle.parses : oracle.Parses := by
  intro inst s recording d h
  obtain ⟨responses, answered⟩ := recording
  have hanswer : (answer inst s ⟨responses, answered⟩).1 = .ok d := h
  unfold answer at hanswer
  cases responses with
  | nil => contradiction
  | cons text rest =>
    dsimp only at hanswer
    refine ⟨text, ?_⟩
    cases hparse : Response.parse text inst s with
    | ok parsed =>
      rw [hparse] at hanswer
      exact hanswer
    | error e =>
      rw [hparse] at hanswer
      cases e with
      | overflow => cases hanswer
      | _ => cases hanswer

namespace CommandOracle

variable {σ : Type} {transport : Transport σ} {settings : CommandSettings}

theorem parses_attempt {payload : String} {inst : Instruction} {s : State} {world : σ} {d : Delta}
    (h : (attempt transport settings payload inst s world).1 = .ok d) :
    ∃ text, Response.parse text inst s = .ok d := by
  obtain ⟨text, -, hparse⟩ := bind_eq_ok.mp h
  exact ⟨text, hparse⟩

/-- An answer is that of the first attempt or of the later ones. -/
theorem attempts_eq_ok {payload : String} {inst : Instruction} {s : State} {d : Delta} {left : Nat}
    {session : Session σ}
    (h : (attempts transport settings payload inst s left session).1 = .ok d) :
    (attempt transport settings payload inst s session.surroundings).1 = .ok d ∨
      ∃ left' session', left = left' + 1 ∧
        (attempts transport settings payload inst s left' session').1 = .ok d := by
  unfold attempts at h
  cases hattempt : attempt transport settings payload inst s session.surroundings with
  | mk result world =>
    rw [hattempt] at h
    cases result with
    | ok first => exact .inl h
    | error e =>
      -- an overflow ends the attempts, every other error costs one of those that are left
      by_cases he : e = .overflow
      · subst he
        cases h
      · cases left with
        | zero =>
          cases e with
          | overflow => exact absurd rfl he
          | _ => cases h
        | succ left =>
          refine .inr ⟨left, ⟨world, session.failures + 1⟩, rfl, ?_⟩
          cases e with
          | overflow => exact absurd rfl he
          | _ => exact h

theorem parses_attempts {payload : String} {inst : Instruction} {s : State} {d : Delta} {left : Nat}
    {session : Session σ}
    (h : (attempts transport settings payload inst s left session).1 = .ok d) :
    ∃ text, Response.parse text inst s = .ok d := by
  induction left generalizing session with
  | zero =>
    rcases attempts_eq_ok h with hfirst | ⟨left', -, heq, -⟩
    · exact parses_attempt hfirst
    · omega
  | succ left ih =>
    rcases attempts_eq_ok h with hfirst | ⟨left', session', heq, hlater⟩
    · exact parses_attempt hfirst
    · obtain rfl := Nat.succ.inj heq
      exact ih hlater

/-- However often it is tried, an answer is read. -/
theorem parses : (oracle transport settings).Parses :=
  fun _ _ _ _ h => parses_attempts h

end CommandOracle

end SymbolicVM
