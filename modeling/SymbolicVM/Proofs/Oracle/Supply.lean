import SymbolicVM.Proofs.Engine.Supply
import SymbolicVM.Proofs.Oracle.Symbolic

/-!
# What an answer takes from the supply of unknowns

The symbolic oracle takes its unknowns from a supply, too, and unlike the engine it may take two:
one that a store writes to a variable and one for the result register. All of them are in its
answer.
`SymbolicOracle.answer_invents` says that the unknowns without which there is no answer are those
that the answer invents, and that they are the next ones after the counter.
-/

namespace SymbolicVM

namespace SymbolicOracle

variable {s : State} {inst : Instruction} {d : Delta} {number : Nat} {name : String}

/-- The supply of unknowns without a name. -/
def withhold (name : String) : Supply := fun number constraint =>
  if IdKind.symbol.name number = name then .error .overflow else mint number constraint

/-- The symbolic oracle with a name withheld from it. -/
def oracleWithout (name : String) : Oracle Unit :=
  { oracle with decide := fun inst s _ => (answer inst s (withhold name), ()) }

/-- The computation is not made without the name. -/
def Needs {α : Type} (f : Supply → Except OracleError α) (name : String) : Prop :=
  ∀ a, f (withhold name) ≠ .ok a

theorem not_needs_ok {α : Type} (a : α) (name : String) :
    ¬ Needs (fun _ => (.ok a : Except OracleError α)) name :=
  fun h => h a rfl

/-- A computation that starts with an unknown needs its name, and what the rest needs. -/
theorem needs_iff {α : Type} {f : Supply → Except OracleError α} {constraint : String}
    {minted : Symbolic × Nat} (rest : Symbolic × Nat → Supply → Except OracleError α)
    (hf : ∀ supply, f supply = supply number constraint >>= fun m => rest m supply)
    (h : mint number constraint = .ok minted) :
    Needs f name ↔ name = IdKind.symbol.name number ∨ Needs (rest minted) name := by
  have hdraw : withhold name number constraint =
      if IdKind.symbol.name number = name then .error .overflow else .ok minted := by
    rw [← h]
    rfl
  unfold Needs
  rw [hf, hdraw]
  by_cases hname : IdKind.symbol.name number = name
  · rw [if_pos hname]
    exact iff_of_true (fun a ha => by contradiction) (.inl hname.symm)
  · rw [if_neg hname, ok_bind, or_iff_right (Ne.symm hname)]

/-- The names of the next unknowns. -/
def namesFrom (first count : Nat) : List String :=
  (List.range' first count).map IdKind.symbol.name

theorem mem_namesFrom {first count : Nat} :
    name ∈ namesFrom first count ↔
      ∃ n, first ≤ n ∧ n < first + count ∧ name = IdKind.symbol.name n := by
  unfold namesFrom
  rw [List.mem_map]
  constructor
  · rintro ⟨n, hn, rfl⟩
    obtain ⟨hle, hlt⟩ := List.mem_range'_1.mp hn
    exact ⟨n, hle, hlt, rfl⟩
  · rintro ⟨n, hle, hlt, rfl⟩
    exact ⟨n, List.mem_range'_1.mpr ⟨hle, hlt⟩, rfl⟩

theorem namesFrom_append (first count more : Nat) :
    namesFrom first (count + more) = namesFrom first count ++ namesFrom (first + count) more := by
  unfold namesFrom
  rw [← List.map_append, List.range'_append_1]

theorem invents_of_known (hallocations : d.allocations = [])
    (hknown : ∀ v ∈ d.writtenValues, v.Known s) : d.Invents s [] :=
  ⟨hallocations, fun v hv => .inl (hknown v hv), by simp⟩

/-- The effects apart from the result register take nothing from the supply and write what is
known, or they are the store of a new unknown. -/
theorem effects_cases (h : effects inst s = .ok (d, number)) :
    ((∀ supply, effects inst s supply = .ok (d, number)) ∧ number = s.counter ∧
      d.registerWrites = .empty ∧ d.allocations = [] ∧ ∀ v ∈ d.writtenValues, v.Known s) ∨
    ∃ x reg, ∀ supply, effects inst s supply = (supply s.counter reg).map fun m =>
      ({ reasoning := "store of unknown value" : Delta }.writeVar x (.symbolic m.1), m.2) := by
  unfold effects at h ⊢
  cases hopcode : inst.opcode with
  | branchIf =>
    simp only [hopcode] at h ⊢
    split at h
    · contradiction
    · obtain ⟨rfl, rfl⟩ := Prod.mk.inj (Except.ok.inj h)
      exact .inl ⟨fun _ => rfl, rfl, rfl, rfl, by simp [Delta.mem_writtenValues]⟩
  | ret | throw =>
    simp only [hopcode] at h ⊢
    obtain ⟨rfl, rfl⟩ := Prod.mk.inj (Except.ok.inj h)
    refine .inl ⟨fun _ => rfl, rfl, rfl, rfl, ?_⟩
    simpa [Delta.mem_writtenValues] using known_valueOf (inst.operand? 0)
  | storeVar =>
    simp only [hopcode] at h ⊢
    cases htext : inst.text? 0 with
    | none =>
      simp only [htext] at h ⊢
      obtain ⟨rfl, rfl⟩ := Prod.mk.inj (Except.ok.inj h)
      exact .inl ⟨fun _ => rfl, rfl, rfl, rfl, by simp [Delta.mem_writtenValues]⟩
    | some x =>
      cases hsource : unsetSource? inst s with
      | some reg => exact .inr ⟨x, reg, fun _ => rfl⟩
      | none =>
        simp only [htext, hsource] at h ⊢
        obtain ⟨rfl, rfl⟩ := Prod.mk.inj (Except.ok.inj h)
        refine .inl ⟨fun _ => rfl, rfl, rfl, rfl, ?_⟩
        simpa [Delta.mem_writtenValues, Delta.writeVar] using known_valueOf (inst.operand? 1)
  | _ =>
    simp only [hopcode] at h ⊢
    obtain ⟨rfl, rfl⟩ := Prod.mk.inj (Except.ok.inj h)
    exact .inl ⟨fun _ => rfl, rfl, rfl, rfl, by simp [Delta.mem_writtenValues]⟩

/-- One more unknown in a register. -/
theorem invents_writeRegister {names : List String} (h : d.Invents s names)
    (hempty : d.registerWrites = .empty) (why reg : String) (x : Symbolic) :
    ({ d with reasoning := why }.writeRegister reg (.symbolic x)).Invents s
      (names ++ [x.name]) where
  allocations := h.allocations
  known v hv := by
    rcases Delta.mem_writtenValues.mp hv with hv | hv
    · have hvalue : v ∈ (Dict.empty.insert reg (.symbolic x)).values := by rwa [← hempty]
      exact .inr ⟨x, List.mem_singleton.mp hvalue, by simp⟩
    · rcases h.known v (Delta.mem_writtenValues.mpr (.inr hv)) with hknown | ⟨y, rfl, hy⟩
      · exact .inl hknown
      · exact .inr ⟨y, rfl, List.mem_append_left _ hy⟩
  written name hname := by
    rcases List.mem_append.mp hname with hname | hname
    · obtain ⟨y, rfl, hy⟩ := h.written name hname
      refine ⟨y, rfl, Delta.mem_writtenValues.mpr ?_⟩
      rcases Delta.mem_writtenValues.mp hy with hy | hy
      · rw [hempty] at hy
        exact absurd hy List.not_mem_nil
      · exact .inr hy
    · rw [List.mem_singleton.mp hname]
      refine ⟨x, rfl, Delta.mem_writtenValues.mpr (.inl ?_)⟩
      exact Dict.mem_values_of_get? (Dict.get?_insert_self _ _ _)

theorem invents_store (why x : String) (y : Symbolic) :
    ({ reasoning := why : Delta }.writeVar x (.symbolic y)).Invents s [y.name] where
  allocations := rfl
  known v hv := by
    have hvalue : v = .symbolic y := by
      simpa [Delta.mem_writtenValues, Delta.writeVar] using hv
    exact .inr ⟨y, hvalue, by simp⟩
  written name hname := by
    rw [List.mem_singleton.mp hname]
    exact ⟨y, rfl, by simp [Delta.mem_writtenValues, Delta.writeVar]⟩

theorem withResult_invents {e : Delta} {count : Nat} (hempty : e.registerWrites = .empty)
    (he : e.Invents s (namesFrom s.counter count))
    (h : withResult inst s e (s.counter + count) = .ok d) :
    ∃ more, d.Invents s (namesFrom s.counter (count + more)) ∧
      ∀ name, Needs (withResult inst s e (s.counter + count) ·) name ↔
        name ∈ namesFrom (s.counter + count) more := by
  unfold withResult at h ⊢
  cases hresult : inst.result with
  | none =>
    rw [hresult] at h
    obtain rfl := Except.ok.inj h
    exact ⟨0, he, fun name => iff_of_false (not_needs_ok _ _) List.not_mem_nil⟩
  | some reg =>
    rw [hresult] at h
    obtain ⟨⟨x, after⟩, hmint, h⟩ := bind_eq_ok.mp h
    obtain rfl := Except.ok.inj h
    obtain ⟨hname, -, -⟩ := mint_eq_ok hmint
    have hnames : namesFrom (s.counter + count) 1 = [x.name] := by rw [hname]; rfl
    refine ⟨1, ?_, fun name => ?_⟩
    · rw [namesFrom_append, hnames]
      exact invents_writeRegister he hempty _ _ _
    · rw [needs_iff _ (fun _ => rfl) hmint, hnames, hname, List.mem_singleton]
      exact or_iff_left (not_needs_ok _ _)

/-- **What the symbolic oracle draws.** An answer needs the next unknowns after the counter, as many
as there are in it that the state does not have. -/
theorem answer_invents (h : answer inst s = .ok d) :
    ∃ count, d.Invents s (namesFrom s.counter count) ∧
      ∀ name, Needs (answer inst s ·) name ↔ name ∈ namesFrom s.counter count := by
  obtain ⟨⟨e, number⟩, heffects, hresult⟩ := bind_eq_ok.mp h
  rcases effects_cases heffects with ⟨hsame, rfl, hempty, hallocations, hknown⟩ | ⟨x, reg, hstore⟩
  · have he : e.Invents s (namesFrom s.counter 0) := invents_of_known hallocations hknown
    obtain ⟨more, hd, hneeds⟩ := withResult_invents hempty he hresult
    rw [Nat.zero_add] at hd
    refine ⟨more, hd, fun name => ?_⟩
    unfold answer
    simp only [hsame]
    exact hneeds name
  · rw [hstore] at heffects
    obtain ⟨⟨y, after⟩, hmint, heq⟩ := map_eq_ok.mp heffects
    obtain ⟨rfl, rfl⟩ := Prod.mk.inj heq
    obtain ⟨hname, -, rfl⟩ := mint_eq_ok hmint
    have hnames : namesFrom s.counter 1 = [y.name] := by rw [hname]; rfl
    obtain ⟨more, hd, hneeds⟩ := withResult_invents rfl (hnames ▸ invents_store _ _ _) hresult
    refine ⟨1 + more, hd, fun name => ?_⟩
    -- the answer is the stored unknown followed by the result
    have hanswer : ∀ supply, answer inst s supply = supply s.counter reg >>= fun m =>
        withResult inst s ({ reasoning := "store of unknown value" : Delta }.writeVar x
          (.symbolic m.1)) m.2 supply := by
      intro supply
      unfold answer
      rw [hstore]
      cases supply s.counter reg with
      | error e => rfl
      | ok m => rfl
    rw [needs_iff _ hanswer hmint, namesFrom_append, hnames, hname, List.singleton_append,
      List.mem_cons]
    exact or_congr_right (hneeds name)

end SymbolicOracle

end SymbolicVM
