import SymbolicVM.Proofs.Oracle.Supply
import SymbolicVM.Proofs.Run.Freshness

/-!
# Which names the steps of a run draw

A step draws the names of new things, and the names that get into its delta are reserved with it. So
no two steps bring the same identifier into the state. A name that gets nowhere is not reserved: the
unknown for an unbound variable that is loaded into no register is drawn again by the next step that
draws an unknown, unless the counter has moved on (`Run.identifiers_fresh_unless_discarded`).

`Run.exists_drawn` says once what a step draws and what becomes of it, whoever decides the
instruction. What two steps have in common is read off it (`Run.draws_both_iff`).
-/

namespace SymbolicVM.Run

variable {g : FlowGraph} {registry : Registry} {inst : Instruction} {d : Delta} {s : State}
  {p q : Progress Unit} {options : RunOptions}

/-- What a delta invents is what it mints. -/
theorem mints_iff_of_invents (hs : s.Numbered) {names : List String} (h : d.Invents s names)
    (hnumbers : ∀ name ∈ names, ∃ n, s.counter ≤ n ∧ name = IdKind.symbol.name n) {name : String} :
    Mints s d name ↔ name ∈ names := by
  constructor
  · rintro (hmem | ⟨hmem, hnew⟩)
    · rw [h.allocations] at hmem
      exact absurd hmem List.not_mem_nil
    · obtain ⟨v, hv, hname⟩ := List.mem_flatMap.mp hmem
      obtain ⟨x, hx, rfl⟩ := List.mem_map.mp hname
      rcases h.known v hv with hknown | ⟨y, rfl, hy⟩
      · exact absurd hknown (not_known_of_new hx hnew)
      · rw [Value.unknowns_symbolic, List.mem_singleton] at hx
        exact hx ▸ hy
  · intro hname
    obtain ⟨x, rfl, hx⟩ := h.written name hname
    refine .inr ⟨List.mem_flatMap.mpr ⟨_, hx, by simp⟩, fun v hv y hy heq => ?_⟩
    obtain ⟨n, hlt, hyn⟩ := hs.symbols v hv y hy
    obtain ⟨m, hle, hxm⟩ := hnumbers _ hname
    obtain ⟨-, rfl⟩ := IdKind.eq_of_name_eq (hyn.symm.trans (heq.trans hxm))
    omega

/-! ### What a step draws -/

/-- A step draws a name: its instruction is decided, but not if the name is withheld. -/
def Draws (g : FlowGraph) (registry : Registry) (p : Progress Unit) (name : String) : Prop :=
  ∃ inst d, Performs g registry SymbolicOracle.oracle p inst d ∧
    decision? registry (SymbolicOracle.oracleWithout name) inst p
      (Engine.withhold name (Engine.fresh p.state)) = none

/-- A step discards a name: it loads an unbound variable into no register. -/
def Discards (g : FlowGraph) (p : Progress Unit) : Prop :=
  ∃ inst, instruction? g p.control = some inst ∧ Engine.Discards inst p.state

/-- What becomes of the names that are drawn for an instruction. -/
structure Drawn (inst : Instruction) (s : State) (d : Delta) (names : List String) : Prop where
  /-- They are numbered from the counter on. -/
  numbers : ∀ name ∈ names, ∃ (kind : IdKind) (n : Nat), s.counter ≤ n ∧ name = kind.name n
  /-- The first unknown among them has the number of the counter. -/
  first : ∀ n, IdKind.symbol.name n ∈ names → IdKind.symbol.name s.counter ∈ names
  /-- Just these are minted, unless an unknown is discarded. -/
  minted : (¬ Engine.Discards inst s ∧ ∀ name, Mints s d name ↔ name ∈ names) ∨
    (Engine.Discards inst s ∧ names = [IdKind.symbol.name s.counter] ∧ ∀ name, ¬ Mints s d name)

theorem not_mints_of_reservations (h : d.reservations = []) (name : String) : ¬ Mints s d name := by
  intro hmints
  have hmem := mem_reservations_of_mints hmints
  rw [h] at hmem
  exact absurd hmem List.not_mem_nil

/-- A decision that takes nothing from the supply mints nothing. -/
theorem not_mints_of_same (h : ∀ supply, Engine.decide registry inst s supply = .ok d)
    (name : String) : ¬ Mints s d name := by
  intro hmints
  obtain ⟨kind, n, -, -, rfl⟩ := fresh_of_mints (Engine.decide_eq_ok (h _)).2 hmints
  -- the same delta is decided when the counter stands above the number of the name
  have hlater : Engine.decide registry inst (s.withCounter (n + 1)) = .ok d :=
    (Engine.decide_withCounter _ _).trans (h _)
  have hmints' : Mints (s.withCounter (n + 1)) d (kind.name n) := hmints
  obtain ⟨kind', m, hle, -, hname⟩ := fresh_of_mints (Engine.decide_eq_ok hlater).2 hmints'
  obtain ⟨-, rfl⟩ := IdKind.eq_of_name_eq hname
  exact absurd hle (Nat.not_succ_le_self n)

theorem not_mints_of_discards (hdiscards : Engine.Discards inst s)
    (h : Engine.decide registry inst s = .ok d) (name : String) : ¬ Mints s d name := by
  obtain ⟨why, hdecide⟩ := Engine.decide_of_discards registry hdiscards
  rw [hdecide] at h
  obtain ⟨sym, -, rfl⟩ := map_eq_ok.mp h
  exact not_mints_of_reservations rfl name

/-- The one name that a decision draws. -/
theorem drawn_of_accounts (hs : s.Numbered) {kind : IdKind}
    (h : Engine.decide registry inst s = .ok d)
    (haccounts : Engine.Accounts inst s kind (kind.name s.counter) d) :
    Drawn inst s d [kind.name s.counter] where
  numbers name hname := ⟨kind, s.counter, Nat.le_refl _, List.mem_singleton.mp hname⟩
  first n hn := by
    obtain ⟨rfl, rfl⟩ := IdKind.eq_of_name_eq (List.mem_singleton.mp hn)
    exact hn
  minted := by
    have hkept (hmints : ∀ name, Mints s d name ↔ name ∈ [kind.name s.counter]) :
        ¬ Engine.Discards inst s := fun hdiscards =>
      not_mints_of_discards hdiscards h _ ((hmints _).mpr (List.mem_singleton.mpr rfl))
    rcases haccounts with hone | ⟨rfl, hinvents | ⟨hdiscards, hnone⟩⟩
    · have hmints (name : String) : Mints s d name ↔ name ∈ [kind.name s.counter] := by
        rw [← hone]
        refine ⟨fun hmints => ?_, .inl⟩
        rcases (Engine.decide_form h).known_or_invented with hknown | ⟨hnone, -⟩
        · exact mem_allocations_of_mints hknown hmints
        · rw [hone] at hnone
          contradiction
      exact .inl ⟨hkept hmints, hmints⟩
    · have hmints (name : String) : Mints s d name ↔ name ∈ [IdKind.symbol.name s.counter] :=
        mints_iff_of_invents hs hinvents fun name hname =>
          ⟨s.counter, Nat.le_refl _, List.mem_singleton.mp hname⟩
      exact .inl ⟨hkept hmints, hmints⟩
    · exact .inr ⟨hdiscards, rfl, not_mints_of_reservations hnone⟩

/-- What the engine draws: nothing, or one name without which the supply is used up. -/
theorem exists_drawn_of_decide (hs : s.Numbered) (h : Engine.decide registry inst s = .ok d) :
    ∃ names, Drawn inst s d names ∧ ∀ name,
      Engine.decide registry inst s (Engine.withhold name (Engine.fresh s)) =
        if name ∈ names then .error .overflow else .ok d := by
  rcases Engine.atMostOne_decide.drawn h with hsame | ⟨kind, haccounts, hdraws⟩
  · refine ⟨[], ⟨by simp, by simp, .inl ⟨fun hdiscards => ?_, fun name => ?_⟩⟩, fun name => hsame _⟩
    · obtain ⟨why, hdecide⟩ := Engine.decide_of_discards registry hdiscards
      have herror := (hsame fun _ => .error .overflow).symm.trans (hdecide _)
      contradiction
    · exact iff_of_false (not_mints_of_same hsame name) List.not_mem_nil
  · refine ⟨[kind.name s.counter], drawn_of_accounts hs h haccounts, fun name => ?_⟩
    rw [hdraws]
    simp only [List.mem_singleton, eq_comm]

/-- What the symbolic oracle draws where the engine declines. -/
theorem exists_drawn_of_answer (hs : s.Numbered) {refusal : Refusal}
    (hengine : Engine.decide registry inst s = .error refusal) (hne : refusal ≠ .overflow)
    (h : SymbolicOracle.answer inst s = .ok d) :
    ∃ names, Drawn inst s d names ∧
      ∀ name, SymbolicOracle.Needs (SymbolicOracle.answer inst s ·) name ↔ name ∈ names := by
  obtain ⟨count, hinvents, hneeds⟩ := SymbolicOracle.answer_invents h
  have hnumbers : ∀ name ∈ SymbolicOracle.namesFrom s.counter count,
      ∃ n, s.counter ≤ n ∧ name = IdKind.symbol.name n := by
    intro name hname
    obtain ⟨n, hle, -, hname⟩ := SymbolicOracle.mem_namesFrom.mp hname
    exact ⟨n, hle, hname⟩
  refine ⟨_, ⟨fun name hname => ⟨.symbol, hnumbers name hname⟩, fun n hn => ?_,
    .inl ⟨fun hdiscards => ?_, fun name => mints_iff_of_invents hs hinvents hnumbers⟩⟩, hneeds⟩
  · obtain ⟨m, hle, hlt, -⟩ := SymbolicOracle.mem_namesFrom.mp hn
    exact SymbolicOracle.mem_namesFrom.mpr ⟨s.counter, Nat.le_refl _, by omega, rfl⟩
  · obtain ⟨why, hdecide⟩ := Engine.decide_of_discards registry hdiscards
    rw [hdecide] at hengine
    exact hne (Engine.eq_overflow_of_map_fresh hengine)

theorem draws_iff (h : Performs g registry SymbolicOracle.oracle p inst d) {name : String} :
    Draws g registry p name ↔
      decision? registry (SymbolicOracle.oracleWithout name) inst p
        (Engine.withhold name (Engine.fresh p.state)) = none := by
  constructor
  · rintro ⟨inst', d', hperforms, hnone⟩
    obtain rfl := Option.some.inj (h.1.symm.trans hperforms.1)
    exact hnone
  · intro hnone
    exact ⟨inst, d, h, hnone⟩

/-- **What a step draws.** -/
theorem exists_drawn (hs : p.state.Numbered)
    (h : Performs g registry SymbolicOracle.oracle p inst d) :
    ∃ names, Drawn inst p.state d names ∧ ∀ name, Draws g registry p name ↔ name ∈ names := by
  have hdecided := h.2
  cases hengine : Engine.decide registry inst p.state with
  | ok e =>
    obtain rfl := Option.some.inj ((decision?_of_engine hengine).symm.trans hdecided)
    obtain ⟨names, hdrawn, hwithheld⟩ := exists_drawn_of_decide hs hengine
    refine ⟨names, hdrawn, fun name => ?_⟩
    rw [draws_iff h, decision?, hwithheld]
    by_cases hname : name ∈ names
    · rw [if_pos hname]
      exact iff_of_true rfl hname
    · rw [if_neg hname]
      exact iff_of_false (Option.some_ne_none _) hname
  | error refusal =>
    have hne : refusal ≠ .overflow := by
      rintro rfl
      unfold decision? at hdecided
      rw [hengine] at hdecided
      contradiction
    rw [decision?_of_refusal hengine hne, toOption_eq_some_iff] at hdecided
    obtain ⟨names, hdrawn, hneeds⟩ := exists_drawn_of_answer hs hengine hne hdecided
    refine ⟨names, hdrawn, fun name => ?_⟩
    have hwithheld := Engine.atMostOne_decide.eq_error hengine hne
      (Engine.withhold name (Engine.fresh p.state))
    rw [draws_iff h, decision?_of_refusal hwithheld hne, ← hneeds]
    exact toOption_eq_none_iff

/-! ### Two steps -/

section

variable {i j : Nat} (hij : i < j)
  (hp : (history g registry SymbolicOracle.oracle () options)[i]? = some p)
  (hq : (history g registry SymbolicOracle.oracle () options)[j]? = some q)
include hij hp hq

/-- What a step mints has a number below the counter at all later points. -/
theorem exists_lt_counter_of_mints (hperforms : Performs g registry SymbolicOracle.oracle p inst d)
    {name : String} (hmints : Mints p.state d name) :
    ∃ (kind : IdKind) (n : Nat), n < q.state.counter ∧ name = kind.name n := by
  obtain ⟨m, hm⟩ := exists_earlier (Nat.succ_le_of_lt hij) hq
  obtain ⟨flow, hreaches⟩ := reaches_of_history hp hm
  have habsorbs := absorbs_of_performs (stepOutcome_of_reaches hreaches) hperforms
  obtain ⟨kind, hfresh⟩ := fresh_of_mints (decision?_symbolic hperforms.2).2 hmints
  obtain ⟨n, -, hlt, hname⟩ := habsorbs.exists_number (mem_reservations_of_mints hmints) hfresh
  exact ⟨kind, n, hlt.trans_le (counter_mono (by omega) hm hq), hname⟩

/-- A step that discards an unknown is performed if there is a point after it. -/
theorem exists_performs_of_discards (h : Discards g p) :
    ∃ inst d, Performs g registry SymbolicOracle.oracle p inst d ∧
      Engine.Discards inst p.state := by
  obtain ⟨inst, hlocated, hdiscards⟩ := h
  obtain ⟨m, hm⟩ := exists_earlier (Nat.succ_le_of_lt hij) hq
  obtain ⟨flow, hreaches⟩ := reaches_of_history hp hm
  cases stepOutcome_of_reaches hreaches with
  | moved state idle ends =>
    have hlabel := idle inst hlocated
    rw [Instruction.isLabel, hdiscards.1] at hlabel
    contradiction
  | performed inst' d applied located decided apply advance =>
    obtain rfl := Option.some.inj (hlocated.symm.trans located)
    exact ⟨inst, d, ⟨located, decided⟩, hdiscards⟩

/-- **When two steps draw the same name.** -/
theorem draws_both_iff :
    (∃ name, Draws g registry p name ∧ Draws g registry q name) ↔
      Discards g p ∧ q.state.counter = p.state.counter ∧
        ∃ n, Draws g registry q (IdKind.symbol.name n) := by
  have hnumbered := numbered_of_history p (List.mem_of_getElem? hp)
  have hnumbered' := numbered_of_history q (List.mem_of_getElem? hq)
  constructor
  · rintro ⟨name, hdraws, hdraws'⟩
    obtain ⟨inst, d, hperforms, -⟩ := id hdraws
    obtain ⟨inst', d', hperforms', -⟩ := id hdraws'
    obtain ⟨names, hdrawn, hnames⟩ := exists_drawn hnumbered hperforms
    obtain ⟨names', hdrawn', hnames'⟩ := exists_drawn hnumbered' hperforms'
    obtain ⟨kind', n', hle, hname'⟩ := hdrawn'.numbers name ((hnames' name).mp hdraws')
    rcases hdrawn.minted with ⟨-, hmints⟩ | ⟨hdiscards, hone, -⟩
    · -- the name is below the counter where the second step draws it
      obtain ⟨kind, n, hlt, hname⟩ := exists_lt_counter_of_mints hij hp hq hperforms
        ((hmints name).mpr ((hnames name).mp hdraws))
      obtain ⟨-, rfl⟩ := IdKind.eq_of_name_eq (hname.symm.trans hname')
      omega
    · have hmem := (hnames name).mp hdraws
      rw [hone, List.mem_singleton] at hmem
      obtain ⟨-, rfl⟩ := IdKind.eq_of_name_eq (hmem.symm.trans hname')
      have hmono := counter_mono hij.le hp hq
      refine ⟨⟨inst, hperforms.1, hdiscards⟩, by omega, p.state.counter, hmem ▸ hdraws'⟩
  · rintro ⟨hdiscards, hcounter, n, hdraws'⟩
    obtain ⟨inst, d, hperforms, hdiscards⟩ := exists_performs_of_discards hij hp hq hdiscards
    obtain ⟨inst', d', hperforms', -⟩ := id hdraws'
    obtain ⟨names, hdrawn, hnames⟩ := exists_drawn hnumbered hperforms
    obtain ⟨names', hdrawn', hnames'⟩ := exists_drawn hnumbered' hperforms'
    refine ⟨IdKind.symbol.name p.state.counter, ?_, ?_⟩
    · rcases hdrawn.minted with ⟨hnot, -⟩ | ⟨-, hone, -⟩
      · exact absurd hdiscards hnot
      · rw [hnames, hone]
        exact List.mem_singleton.mpr rfl
    · rw [hnames', ← hcounter]
      exact hdrawn'.first n ((hnames' _).mp hdraws')

end

/-- A step mints what it draws, unless it discards it. -/
theorem mints_iff_draws (hs : p.state.Numbered)
    (h : Performs g registry SymbolicOracle.oracle p inst d) {name : String} :
    Mints p.state d name ↔ Draws g registry p name ∧ ¬ Discards g p := by
  obtain ⟨names, hdrawn, hnames⟩ := exists_drawn hs h
  have hdiscards : Discards g p ↔ Engine.Discards inst p.state := by
    refine ⟨?_, fun hdiscards => ⟨inst, h.1, hdiscards⟩⟩
    rintro ⟨inst', hlocated, hdiscards⟩
    obtain rfl := Option.some.inj (hlocated.symm.trans h.1)
    exact hdiscards
  rw [hnames, hdiscards]
  rcases hdrawn.minted with ⟨hnot, hmints⟩ | ⟨hdoes, -, hnone⟩
  · rw [hmints, and_iff_left hnot]
  · exact iff_of_false (hnone name) fun hboth => hboth.2 hdoes

/-- How far identifiers are globally fresh in a run through these points. -/
structure GloballyFresh (g : FlowGraph) (registry : Registry) (points : List (Progress Unit)) :
    Prop where
  /-- All addresses, environments and unknowns are identifiers numbered below the counter. -/
  numbered : ∀ p ∈ points, p.state.Numbered
  /-- The counter never decreases. -/
  counter : ∀ (i j : Nat) (p q : Progress Unit), i ≤ j → points[i]? = some p →
    points[j]? = some q → p.state.counter ≤ q.state.counter
  /-- The address of a new object is not on the heap, and the object has only the fields that the
  step writes that creates it. -/
  created : ∀ (i : Nat) p q inst d, points[i]? = some p → points[i + 1]? = some q →
    Performs g registry SymbolicOracle.oracle p inst d →
    ∀ obj ∈ d.newObjects, obj.address ∉ p.state.heap.keys ∧
      ∃ made, q.state.heap.get? obj.address = some made ∧
        ∀ field v, made.fields.get? field = some v → ⟨obj.address, field, v⟩ ∈ d.heapWrites
  /-- The name of a new environment is not in the arena. -/
  captured : ∀ (p : Progress Unit) inst d, p ∈ points →
    Performs g registry SymbolicOracle.oracle p inst d →
    ∀ c, d.newClosure = some c → c.id ∉ p.state.closures.keys
  /-- No two steps bring the same identifier into the state. -/
  minted : ∀ (i j : Nat) p q inst d inst' d' name, i ≠ j → points[i]? = some p →
    points[j]? = some q → Performs g registry SymbolicOracle.oracle p inst d →
    Performs g registry SymbolicOracle.oracle q inst' d' →
    Mints p.state d name → ¬ Mints q.state d' name
  /-- A step brings the names that it draws into the state, unless it discards them. -/
  carried : ∀ (p : Progress Unit) inst d name, p ∈ points →
    Performs g registry SymbolicOracle.oracle p inst d →
    (Mints p.state d name ↔ Draws g registry p name ∧ ¬ Discards g p)
  /-- Two steps draw the same name exactly if the first one discards an unknown and the second one
  draws an unknown while the counter is still the same. -/
  drawn : ∀ (i j : Nat) p q, i < j → points[i]? = some p → points[j]? = some q →
    ((∃ name, Draws g registry p name ∧ Draws g registry q name) ↔
      Discards g p ∧ q.state.counter = p.state.counter ∧
        ∃ n, Draws g registry q (IdKind.symbol.name n))

/-- **Identifiers are globally fresh unless they are discarded.** In every run with the symbolic
oracle no identifier gets into the state twice, and two steps draw the same name exactly if the
first one loads an unbound variable into no register and the second one draws the next unknown. The
state in which the run ends is numbered like all states before. -/
theorem identifiers_fresh_unless_discarded (g : FlowGraph) (registry : Registry)
    (options : RunOptions) :
    GloballyFresh g registry (history g registry SymbolicOracle.oracle () options) ∧
      ∀ outcome, (run g registry SymbolicOracle.oracle () options).1 = .ok outcome →
        outcome.state.Numbered := by
  have hcarried (p : Progress Unit) (inst : Instruction) (d : Delta) (name : String)
      (hp : p ∈ history g registry SymbolicOracle.oracle () options)
      (hperforms : Performs g registry SymbolicOracle.oracle p inst d) :
      Mints p.state d name ↔ Draws g registry p name ∧ ¬ Discards g p :=
    mints_iff_draws (numbered_of_history p hp) hperforms
  refine ⟨⟨numbered_of_history, fun _ _ _ _ => counter_mono, fun _ _ _ _ _ hp hq hperforms _ =>
    created_of_performs hp hq hperforms, ?_, ?_, hcarried, fun _ _ _ _ => draws_both_iff⟩,
    fun _ => numbered_of_run⟩
  · intro p inst d hp hperforms c hc
    have hfresh := (decision?_symbolic hperforms.2).2.closure c hc
    exact (numbered_of_history p hp).id_notMem hfresh
  · intro i j p q inst d inst' d' name hne hp hq hperforms hperforms' hmints hmints'
    obtain ⟨hdraws, hkept⟩ := (hcarried p inst d name (List.mem_of_getElem? hp) hperforms).mp hmints
    obtain ⟨hdraws', hkept'⟩ :=
      (hcarried q inst' d' name (List.mem_of_getElem? hq) hperforms').mp hmints'
    rcases Nat.lt_or_gt_of_ne hne with hlt | hgt
    · exact hkept ((draws_both_iff hlt hp hq).mp ⟨name, hdraws, hdraws'⟩).1
    · exact hkept' ((draws_both_iff hgt hq hp).mp ⟨name, hdraws', hdraws⟩).1

/-- What can be computed of a step that is performed. -/
theorem exists_performs_of_view {β : Type} (g : FlowGraph) (registry : Registry)
    (view : Progress Unit → Instruction → Delta → β) (k : Nat) {b : β}
    (h : ((history g registry SymbolicOracle.oracle () options)[k]?.bind fun p =>
      (instruction? g p.control).bind fun inst =>
        (decision? registry SymbolicOracle.oracle inst p).map (view p inst)) = some b) :
    ∃ p inst d, (history g registry SymbolicOracle.oracle () options)[k]? = some p ∧
      Performs g registry SymbolicOracle.oracle p inst d ∧ view p inst d = b := by
  obtain ⟨p, hp, h⟩ := Option.bind_eq_some_iff.mp h
  obtain ⟨inst, hlocated, h⟩ := Option.bind_eq_some_iff.mp h
  obtain ⟨d, hdecided, hview⟩ := Option.map_eq_some_iff.mp h
  exact ⟨p, inst, d, hp, ⟨hlocated, hdecided⟩, hview⟩

/-- A program that makes two objects. -/
def twoObjects : List Instruction :=
  [{ opcode := .newObject, result := some "%0", operands := [.text "Point"] },
    { opcode := .newObject, result := some "%1", operands := [.text "Point"] }]

/-- Its first step mints `obj_0`, its second step does not, and there is no name that both draw. -/
theorem twoObjects_minted :
    ∃ p q inst d inst' d',
      (history (.ofInstructions twoObjects) {} SymbolicOracle.oracle () {})[0]? = some p ∧
      (history (.ofInstructions twoObjects) {} SymbolicOracle.oracle () {})[1]? = some q ∧
      Performs (.ofInstructions twoObjects) {} SymbolicOracle.oracle p inst d ∧
      Performs (.ofInstructions twoObjects) {} SymbolicOracle.oracle q inst' d' ∧
      Mints p.state d "obj_0" ∧ ¬ Mints q.state d' "obj_0" ∧
      ¬ ∃ name, Draws (.ofInstructions twoObjects) {} p name ∧
        Draws (.ofInstructions twoObjects) {} q name := by
  have hallocates (k : Nat) (names : List String) :=
    @exists_performs_of_view {} _ (.ofInstructions twoObjects) {} (fun _ _ d => d.allocations) k
      names
  obtain ⟨p, inst, d, hp, hperforms, hnames⟩ := hallocates 0 ["obj_0"] (by decide +kernel)
  obtain ⟨q, inst', d', hq, hperforms', -⟩ := hallocates 1 ["obj_1"] (by decide +kernel)
  have hmints : Mints p.state d "obj_0" := .inl (by simp [hnames])
  have hfresh := (identifiers_fresh_unless_discarded (.ofInstructions twoObjects) {} {}).1
  refine ⟨p, q, inst, d, inst', d', hp, hq, hperforms, hperforms', hmints, ?_, fun hboth => ?_⟩
  · exact hfresh.minted 0 1 p q inst d inst' d' _ (by decide) hp hq hperforms hperforms' hmints
  · have hkept := (hfresh.carried p inst d _ (List.mem_of_getElem? hp) hperforms).mp hmints
    exact hkept.2 ((hfresh.drawn 0 1 p q (by decide) hp hq).mp hboth).1

/-- A program that loads an unbound variable into no register, and then another one into a
register that it returns. -/
def unboundLoads : List Instruction :=
  [{ opcode := .loadVar, operands := [.text "x"] },
    { opcode := .loadVar, result := some "%0", operands := [.text "y"] },
    { opcode := .ret, operands := [.text "%0"] }]

/-- Its first two steps both draw `sym_0`, each for another variable. -/
theorem unboundLoads_collide :
    ∃ p q, (history (.ofInstructions unboundLoads) {} SymbolicOracle.oracle () {})[0]? = some p ∧
      (history (.ofInstructions unboundLoads) {} SymbolicOracle.oracle () {})[1]? = some q ∧
      Draws (.ofInstructions unboundLoads) {} p "sym_0" ∧
      Draws (.ofInstructions unboundLoads) {} q "sym_0" := by
  -- a step draws the name if its instruction is not decided without it
  have hdraws (k : Nat) := @exists_performs_of_view {} _ (.ofInstructions unboundLoads) {}
    (fun p inst _ => (decision? {} (SymbolicOracle.oracleWithout "sym_0") inst p
      (Engine.withhold "sym_0" (Engine.fresh p.state))).isNone) k true
  obtain ⟨p, inst, d, hp, hperforms, hnone⟩ := hdraws 0 (by decide +kernel)
  obtain ⟨q, inst', d', hq, hperforms', hnone'⟩ := hdraws 1 (by decide +kernel)
  exact ⟨p, q, hp, hq, ⟨inst, d, hperforms, Option.isNone_iff_eq_none.mp hnone⟩,
    ⟨inst', d', hperforms', Option.isNone_iff_eq_none.mp hnone'⟩⟩

end SymbolicVM.Run
