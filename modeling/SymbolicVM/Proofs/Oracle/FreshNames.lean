import SymbolicVM.Proofs.Machine.Values
import SymbolicVM.Proofs.Oracle.Exhaustion

/-!
# The names that an answer gets are fresh

The gaps in the names of an answer are filled with consecutive numbers (`Response.assigned_fill`),
the first of which is not below the counter and above the numbers of all names that are there. So
the new names differ from each other and from the names in the answer, and if the unknowns of the
state are numbered below its counter, then also from those (`Response.parse_names_freshly`). Nothing
else in the answer changes.
-/

namespace SymbolicVM

namespace Response

/-! ### Filled gaps -/

/-- The names that stand in `after` where there was none in `before`. -/
def assigned (before after : List String) : List String :=
  ((before.zip after).filter fun p => p.1 == "").map (·.2)

variable {next : Nat} {names : List String}

/-- The gaps are filled with consecutive numbers. -/
theorem assigned_fill (next : Nat) (names : List String) :
    assigned names (fill next names) =
      (List.range' next (gaps names)).map IdKind.symbol.name := by
  induction names generalizing next with
  | nil => rfl
  | cons name names ih =>
    rw [fill]
    split_ifs with hname
    · rw [hname, gaps_cons_empty, List.range'_succ, List.map_cons, ← ih]
      rfl
    · rw [gaps_cons_of_ne hname, ← ih]
      simp [assigned, hname]

theorem nodup_assigned_fill (next : Nat) (names : List String) :
    (assigned names (fill next names)).Nodup := by
  rw [assigned_fill]
  refine List.pairwise_map.mpr (List.Pairwise.imp ?_ (List.nodup_range' 1))
  exact fun hne heq => hne (IdKind.symbol.name_injective heq)

/-- A name in a gap has a number that can be read back. -/
theorem of_mem_assigned_fill (hroom : Room next (gaps names)) {name : String}
    (h : name ∈ assigned names (fill next names)) :
    ∃ n, next ≤ n ∧ name = IdKind.symbol.name n ∧ IdKind.symbol.number? name = some n := by
  rw [assigned_fill] at h
  obtain ⟨n, hn, rfl⟩ := List.mem_map.mp h
  obtain ⟨hle, hlt⟩ := List.mem_range'_1.mp hn
  unfold Room at hroom
  exact ⟨n, hle, rfl, IdKind.symbol.number?_name (by omega)⟩

/-- Names that are there stay. -/
theorem fill_keeps (next : Nat) (names : List String) :
    List.Forall₂ (fun old new => old ≠ "" → new = old) names (fill next names) := by
  induction names generalizing next with
  | nil => exact .nil
  | cons name names ih =>
    rw [fill]
    split_ifs with hname
    · exact .cons (fun h => absurd hname h) (ih _)
    · exact .cons (fun _ => rfl) (ih _)

theorem ne_empty_of_mem_fill {name : String} (h : name ∈ fill next names) : name ≠ "" := by
  induction names generalizing next with
  | nil => exact absurd h List.not_mem_nil
  | cons first names ih =>
    rw [fill] at h
    split_ifs at h with hfirst
    · rcases List.mem_cons.mp h with rfl | h
      · exact IdKind.name_ne_empty _ _
      · exact ih h
    · rcases List.mem_cons.mp h with rfl | h
      · exact hfirst
      · exact ih h

/-! ### Answers -/

/-- All unknowns of `named` have names, those that have none in `d` have fresh ones, and there is no
other difference. -/
structure NamesFreshly (s : State) (d named : Delta) : Prop where
  /-- Every unknown has a name. -/
  complete : ∀ v ∈ named.writtenValues, ∀ x ∈ v.unknowns, x.name ≠ ""
  /-- An unknown that had a name keeps it. -/
  kept : List.Forall₂ (fun old new => old ≠ "" → new = old) d.symbolNames named.symbolNames
  /-- All but the names of unknowns is the same. -/
  shape : named.shape = d.shape
  /-- No name is given twice. -/
  nodup : (assigned d.symbolNames named.symbolNames).Nodup
  /-- A name that is given has a number that the state has not used. -/
  numbered : ∀ name ∈ assigned d.symbolNames named.symbolNames,
    ∃ n, s.counter ≤ n ∧ name = IdKind.symbol.name n
  /-- A name that is given is not one that was there. -/
  unused : ∀ name ∈ assigned d.symbolNames named.symbolNames, name ∉ d.symbolNames
  /-- If the unknowns of the state are numbered below its counter, then no name that is given is one
  of theirs. -/
  unusedInState :
    (∀ v ∈ s.values, ∀ x ∈ v.unknowns, ∀ n ∈ IdKind.symbol.number? x.name, n < s.counter) →
      ∀ name ∈ assigned d.symbolNames named.symbolNames,
        ∀ v ∈ s.values, ∀ x ∈ v.unknowns, x.name ≠ name

/-- **Reading an answer names its unknowns freshly** and leaves it as it is otherwise. -/
theorem parse_names_freshly {text : String} {inst : Instruction} {s : State} {named : Delta}
    (h : parse text inst s = .ok named) :
    ∃ d, accept text inst = .ok d ∧ NamesFreshly s d named := by
  obtain ⟨d, haccept, hnamed⟩ := parse_eq_ok_iff.mp h
  obtain ⟨first, hfirst, hroom, hnames, -⟩ := nameDelta_eq_ok hnamed
  obtain ⟨hcounter, habove, -⟩ := raises_above.foldlM_eq_ok hfirst
  have hassigned : ∀ name ∈ assigned d.symbolNames named.symbolNames,
      ∃ n, first ≤ n ∧ name = IdKind.symbol.name n ∧ IdKind.symbol.number? name = some n := by
    intro name hname
    rw [hnames] at hname
    exact of_mem_assigned_fill hroom hname
  refine ⟨d, haccept, ?_, ?_, shape_of_nameDelta hnamed, ?_, ?_, ?_, ?_⟩
  · intro v hv x hx
    have hmem : x.name ∈ named.symbolNames :=
      List.mem_flatMap.mpr ⟨v, hv, List.mem_map_of_mem hx⟩
    rw [hnames] at hmem
    exact ne_empty_of_mem_fill hmem
  · rw [hnames]
    exact fill_keeps first d.symbolNames
  · rw [hnames]
    exact nodup_assigned_fill first d.symbolNames
  · intro name hname
    obtain ⟨n, hle, rfl, -⟩ := hassigned name hname
    exact ⟨n, Nat.le_trans hcounter hle, rfl⟩
  · -- the numbers in the answer are below the first new one
    intro name hname hmem
    obtain ⟨n, hle, -, hnumber⟩ := hassigned name hname
    have hlt := habove name hmem n hnumber
    omega
  · -- those in the state are below the counter, which the first new one is not
    rintro hbelow name hname v hv x hx rfl
    obtain ⟨n, hle, -, hnumber⟩ := hassigned x.name hname
    have hlt := hbelow v hv x hx n hnumber
    omega

/-- An answer with two unknowns that have no name, around one with a name that looks like a later
one. -/
def gappedAnswer : String :=
  r#"{"register_writes": {"%0": [{"__symbolic__": true}, "# ++
    r#"{"__symbolic__": true, "name": "sym_007"}, {"__symbolic__": true}]}}"#

/-- A state that has used three numbers, the last one for an unknown. -/
def afterThreeNames : State where
  frames := [{ function := mainFrameName
               registers := .ofList [("%1", .symbolic { name := "sym_2" })] }]
  counter := 3

/-- The answer gets numbers above the one that it mentions. -/
theorem gappedAnswer_named_freshly :
    ∃ d named, parse gappedAnswer unknownCall afterThreeNames = .ok named ∧
      accept gappedAnswer unknownCall = .ok d ∧
      d.symbolNames = ["", "sym_007", ""] ∧
      named.symbolNames = ["sym_8", "sym_007", "sym_9"] ∧
      (∀ v ∈ afterThreeNames.values, ∀ x ∈ v.unknowns, ∀ n ∈ IdKind.symbol.number? x.name,
        n < afterThreeNames.counter) ∧
      NamesFreshly afterThreeNames d named := by
  have hview : ((accept gappedAnswer unknownCall).toOption.bind fun d =>
      (nameDelta afterThreeNames.counter d).toOption.map fun named =>
        (d.symbolNames, named.symbolNames)) =
      some (["", "sym_007", ""], ["sym_8", "sym_007", "sym_9"]) := by
    decide +kernel
  obtain ⟨d, hd, hview⟩ := Option.bind_eq_some_iff.mp hview
  obtain ⟨named, hnamed, heq⟩ := Option.map_eq_some_iff.mp hview
  obtain ⟨hold, hnew⟩ := Prod.mk.inj heq
  have haccept := toOption_eq_some hd
  have hparse : parse gappedAnswer unknownCall afterThreeNames = .ok named :=
    parse_eq_ok_iff.mpr ⟨d, haccept, toOption_eq_some hnamed⟩
  obtain ⟨d', haccept', hfresh⟩ := parse_names_freshly hparse
  obtain rfl := Except.ok.inj (haccept'.symm.trans haccept)
  exact ⟨d', named, hparse, haccept, hold, hnew, by decide, hfresh⟩

end Response

end SymbolicVM
