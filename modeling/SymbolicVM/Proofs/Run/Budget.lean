import SymbolicVM.Proofs.Run.Replay

/-!
# Budgets only truncate

`Run.after` is the point at which a run is after a number of steps, if it goes on for so long. A
loop follows these points until a step ends it or the budget is used up (`Run.loop_cases`). So a
larger budget goes on where a smaller one was used up (`Run.loop_add`), and where the smaller one
was not, it makes no difference.

Every step costs one of the budget, and at most one decision is made in it, which is put on the
trace (`Progress.Tallied`). Leaving a block at its end costs a step without a decision.
-/

namespace SymbolicVM

variable {σ : Type}

/-- The point at which the run goes on after a step. -/
def StepResult.next? : StepResult σ → Option (Progress σ)
  | .next p => some p
  | .halt _ _ => none
  | .fail _ _ => none

/-- How a step ends the run, if it does. -/
def StepResult.ending? : StepResult σ → Option (Run.Ending σ)
  | .next _ => none
  | .halt reason p => some (.halted reason p)
  | .fail e oracleState => some (.failed e oracleState)

namespace Run

/-! ### Points along a run -/

section Points

variable (g : FlowGraph) (registry : Registry) (oracle : Oracle σ) (keepTrace : Bool)

/-- Where a run is after a number of steps, if it goes on for so long. -/
def after : Nat → Progress σ → Option (Progress σ)
  | 0, p => some p
  | k + 1, p => (step g registry oracle keepTrace p).next?.bind (after k)

variable {g registry oracle keepTrace} {k n m : Nat} {p q r : Progress σ} {ending : Ending σ}

theorem next?_eq_some {result : StepResult σ} : result.next? = some p ↔ result = .next p := by
  cases result with
  | next q => simp [StepResult.next?]
  | halt reason q => simp [StepResult.next?]
  | fail e os => simp [StepResult.next?]

theorem ending?_halted {result : StepResult σ} {reason : HaltReason} :
    result.ending? = some (.halted reason p) ↔ result = .halt reason p := by
  cases result with
  | next q => simp [StepResult.ending?]
  | halt reason' q => simp [StepResult.ending?]
  | fail e os => simp [StepResult.ending?]

theorem ending?_failed {result : StepResult σ} {e : RunError} {os : σ} :
    result.ending? = some (.failed e os) ↔ result = .fail e os := by
  cases result with
  | next q => simp [StepResult.ending?]
  | halt reason q => simp [StepResult.ending?]
  | fail e' os' => simp [StepResult.ending?]

theorem ending?_eq_none {result : StepResult σ} (h : result.ending? = none) :
    ∃ q, result = .next q := by
  cases result with
  | next q => exact ⟨q, rfl⟩
  | halt reason q => contradiction
  | fail e os => contradiction

theorem after_succ :
    after g registry oracle keepTrace (k + 1) p = some q ↔
      ∃ r, step g registry oracle keepTrace p = .next r ∧
        after g registry oracle keepTrace k r = some q := by
  rw [after, Option.bind_eq_some_iff]
  simp only [next?_eq_some]

theorem loop_of_next (h : step g registry oracle keepTrace p = .next r) :
    loop g registry oracle keepTrace (n + 1) p = loop g registry oracle keepTrace n r := by
  rw [loop, h]

theorem loop_of_ending (h : (step g registry oracle keepTrace p).ending? = some ending) :
    loop g registry oracle keepTrace (n + 1) p = ending := by
  rw [loop]
  cases hstep : step g registry oracle keepTrace p with
  | next r =>
    rw [hstep] at h
    contradiction
  | halt reason r =>
    rw [hstep] at h
    exact Option.some.inj h
  | fail e os =>
    rw [hstep] at h
    exact Option.some.inj h

/-- **A loop goes on from every point that it comes to**, with what is left of its budget. -/
theorem loop_add (h : after g registry oracle keepTrace k p = some q) (n : Nat) :
    loop g registry oracle keepTrace (k + n) p = loop g registry oracle keepTrace n q := by
  induction k generalizing p with
  | zero =>
    obtain rfl := Option.some.inj h
    rw [Nat.zero_add]
  | succ k ih =>
    obtain ⟨r, hstep, hrest⟩ := after_succ.mp h
    rw [Nat.add_right_comm, loop_of_next hstep]
    exact ih hrest

/-- A step that ends the run ends every loop with a budget for it. -/
theorem loop_of_after (h : after g registry oracle keepTrace k p = some q)
    (hend : (step g registry oracle keepTrace q).ending? = some ending) (hk : k < n) :
    loop g registry oracle keepTrace n p = ending := by
  obtain ⟨rest, rfl⟩ : ∃ rest, n = k + (rest + 1) := ⟨n - k - 1, by omega⟩
  rw [loop_add h, loop_of_ending hend]

/-- **How a loop ends**: its budget is used up, or an earlier step ends it. -/
theorem loop_cases (g : FlowGraph) (registry : Registry) (oracle : Oracle σ) (keepTrace : Bool)
    (n : Nat) (p : Progress σ) :
    (∃ q, after g registry oracle keepTrace n p = some q ∧
        loop g registry oracle keepTrace n p = .halted .budgetExhausted q) ∨
      ∃ k q ending, k < n ∧ after g registry oracle keepTrace k p = some q ∧
        (step g registry oracle keepTrace q).ending? = some ending ∧
        loop g registry oracle keepTrace n p = ending := by
  induction n generalizing p with
  | zero => exact .inl ⟨p, rfl, rfl⟩
  | succ n ih =>
    cases hend : (step g registry oracle keepTrace p).ending? with
    | some ending => exact .inr ⟨0, p, ending, by omega, rfl, hend, loop_of_ending hend⟩
    | none =>
      -- the step goes on, and the rest of the run is a loop with one step less
      obtain ⟨r, hstep⟩ := ending?_eq_none hend
      rw [loop_of_next hstep]
      rcases ih r with ⟨q, hq, hloop⟩ | ⟨k, q, ending, hk, hq, hend, hloop⟩
      · exact .inl ⟨q, after_succ.mpr ⟨r, hstep, hq⟩, hloop⟩
      · exact .inr ⟨k + 1, q, ending, by omega, after_succ.mpr ⟨r, hstep, hq⟩, hend, hloop⟩

end Points

/-! ### No step exhausts the budget -/

section Halts

variable {g : FlowGraph} {registry : Registry} {oracle : Oracle σ} {keepTrace : Bool}
  {p q : Progress σ} {reason : HaltReason}

theorem returnFlow_ne_budgetExhausted (f : Frame) :
    returnFlow g f ≠ .halt .budgetExhausted := by
  unfold returnFlow
  split
  · intro h
    contradiction
  · intro h
    exact absurd (Flow.halt.inj h) (by decide)

theorem advance_ne_budgetExhausted {inst : Instruction} {control : Control} {d : Delta}
    {depth : Nat} {applied : State.Applied} {s : State} :
    advance g inst control d depth applied ≠ (s, .halt .budgetExhausted) := by
  intro h
  rcases flow_of_advance h with hflow | ⟨frame, hflow⟩ | hflow
  · cases hflow
  · exact returnFlow_ne_budgetExhausted frame hflow.symm
  · cases hflow

/-- A step halts the run for another reason than its budget. -/
theorem ne_budgetExhausted_of_step (h : step g registry oracle keepTrace p = .halt reason q) :
    reason ≠ .budgetExhausted := by
  rintro rfl
  have houtcome : StepOutcome g registry oracle p q (.halt .budgetExhausted) :=
    stepOutcome_of_reaches (.inr ⟨_, h, rfl⟩)
  cases houtcome with
  | moved state idle ends => cases ends _ rfl
  | performed inst d applied located decided apply advance =>
    exact advance_ne_budgetExhausted advance

end Halts

end Run

/-! ### Counting -/

/-- The counts of an outcome agree: there is one entry of the trace for each decision, and no more
decisions than steps. -/
structure Outcome.Tallied (o : Outcome) : Prop where
  traced : ∀ t, o.trace = some t →
    t.steps.length = o.stats.localDecisions + o.stats.oracleCalls
  bounded : o.stats.localDecisions + o.stats.oracleCalls ≤ o.stats.steps

/-- The counts of a run agree: what is kept of a trace has one entry for each decision, and each
decision is made in a step of its own. -/
structure Progress.Tallied (keepTrace : Bool) (p : Progress σ) : Prop where
  traced : keepTrace = true → p.trace.length = p.localDecisions + p.oracleCalls
  bounded : p.localDecisions + p.oracleCalls ≤ p.steps

namespace Run

variable {g : FlowGraph} {registry : Registry} {oracle : Oracle σ} {keepTrace : Bool} {k n m : Nat}
  {p q : Progress σ} {reason : HaltReason}

/-- Performing an instruction puts it on the trace. Its decision is counted already. -/
theorem tallied_perform {inst : Instruction} {d : Delta} {source : DecisionSource}
    (htraced : keepTrace = true → p.trace.length + 1 = p.localDecisions + p.oracleCalls)
    (hbounded : p.localDecisions + p.oracleCalls ≤ p.steps) :
    LeadsTo (fun q _ => q.Tallied keepTrace ∧ q.steps = p.steps)
      (perform g keepTrace p inst d source) := by
  unfold perform
  split
  · trivial
  · dsimp only
    have hlength : ∀ t : TraceStep, keepTrace = true →
        (if keepTrace then t :: p.trace else p.trace).length =
          p.localDecisions + p.oracleCalls := by
      intro t hkeep
      rw [if_pos hkeep, List.length_cons]
      exact htraced hkeep
    split
    · exact ⟨⟨hlength _, hbounded⟩, rfl⟩
    · exact ⟨⟨hlength _, hbounded⟩, rfl⟩

theorem tallied_execute {inst : Instruction}
    (htraced : keepTrace = true → p.trace.length = p.localDecisions + p.oracleCalls)
    (hbounded : p.localDecisions + p.oracleCalls + 1 ≤ p.steps) :
    LeadsTo (fun q _ => q.Tallied keepTrace ∧ q.steps = p.steps)
      (execute g registry oracle keepTrace p inst) := by
  unfold execute
  split
  · refine tallied_perform (fun hkeep => ?_) ?_
    · have := htraced hkeep
      dsimp only
      omega
    · dsimp only
      omega
  · trivial
  · dsimp only
    split
    · refine tallied_perform (fun hkeep => ?_) ?_
      · have := htraced hkeep
        dsimp only
        omega
      · dsimp only
        omega
    · trivial
    · trivial

/-- **Every step counts one**, and keeps the counts in agreement. -/
theorem tallied_step (h : p.Tallied keepTrace) :
    LeadsTo (fun q _ => q.Tallied keepTrace ∧ q.steps = p.steps + 1)
      (step g registry oracle keepTrace p) := by
  have hbounded := h.bounded
  -- a step without a decision changes the number of steps only
  have hidle : ∀ q : Progress σ, q.trace = p.trace → q.localDecisions = p.localDecisions →
      q.oracleCalls = p.oracleCalls → q.steps = p.steps + 1 →
      q.Tallied keepTrace ∧ q.steps = p.steps + 1 := by
    intro q htrace hlocal hcalls hsteps
    refine ⟨⟨fun hkeep => ?_, by omega⟩, hsteps⟩
    rw [htrace, hlocal, hcalls]
    exact h.traced hkeep
  unfold step
  dsimp only
  split
  · trivial
  · split
    · split
      · exact hidle _ rfl rfl rfl rfl
      · exact hidle _ rfl rfl rfl rfl
    · split_ifs
      · exact hidle _ rfl rfl rfl rfl
      · exact tallied_execute h.traced (by dsimp only; omega)

theorem tallied_startAt (os : σ) (label : String) : (startAt os label).Tallied keepTrace where
  traced _ := rfl
  bounded := Nat.le_refl 0

/-- After `k` steps there are `k` steps more. -/
theorem tallied_of_after (hp : p.Tallied keepTrace)
    (h : after g registry oracle keepTrace k p = some q) :
    q.Tallied keepTrace ∧ q.steps = p.steps + k := by
  induction k generalizing p with
  | zero =>
    obtain rfl := Option.some.inj h
    exact ⟨hp, rfl⟩
  | succ k ih =>
    obtain ⟨r, hstep, hrest⟩ := after_succ.mp h
    have hr := @tallied_step σ g registry oracle keepTrace p hp
    rw [hstep] at hr
    obtain ⟨hq, hsteps⟩ := ih hr.1 hrest
    have hfirst := hr.2
    exact ⟨hq, by omega⟩

/-- The counts agree where a loop halts, and a loop that uses up its budget takes that many
steps. -/
theorem tallied_of_loop (hp : p.Tallied keepTrace)
    (h : loop g registry oracle keepTrace n p = .halted reason q) :
    q.Tallied keepTrace ∧ (reason = .budgetExhausted → q.steps = p.steps + n) := by
  rcases loop_cases g registry oracle keepTrace n p with
    ⟨r, hr, hloop⟩ | ⟨k, r, ending, -, hr, hend, hloop⟩
  · obtain ⟨rfl, rfl⟩ := Ending.halted.inj (hloop.symm.trans h)
    obtain ⟨hq, hsteps⟩ := tallied_of_after hp hr
    exact ⟨hq, fun _ => hsteps⟩
  · have hlast := @tallied_step σ g registry oracle keepTrace r (tallied_of_after hp hr).1
    obtain rfl : ending = .halted reason q := hloop.symm.trans h
    have hstep := ending?_halted.mp hend
    have hreason := ne_budgetExhausted_of_step hstep
    rw [hstep] at hlast
    exact ⟨hlast.1, fun hexhausted => absurd hexhausted hreason⟩

/-! ### Two budgets -/

/-- **The loop with a larger budget** goes on where the smaller one was used up, and otherwise is
the same. -/
theorem loop_of_le (g : FlowGraph) (registry : Registry) (oracle : Oracle σ) (keepTrace : Bool)
    (p : Progress σ) (h : n ≤ m) :
    (∃ q, loop g registry oracle keepTrace n p = .halted .budgetExhausted q ∧
        loop g registry oracle keepTrace m p = loop g registry oracle keepTrace (m - n) q) ∨
      (loop g registry oracle keepTrace m p = loop g registry oracle keepTrace n p ∧
        ∀ q, loop g registry oracle keepTrace n p ≠ .halted .budgetExhausted q) := by
  rcases loop_cases g registry oracle keepTrace n p with
    ⟨q, hq, hloop⟩ | ⟨k, q, ending, hk, hq, hend, hloop⟩
  · refine .inl ⟨q, hloop, ?_⟩
    have hadd := loop_add hq (m - n)
    rwa [Nat.add_sub_cancel' h] at hadd
  · refine .inr ⟨(loop_of_after hq hend (by omega)).trans hloop.symm, fun r hr => ?_⟩
    obtain rfl : ending = .halted .budgetExhausted r := hloop.symm.trans hr
    exact ne_budgetExhausted_of_step (ending?_halted.mp hend) rfl

/-! ### Whole runs -/

/-- What a run gives that ends in this way. -/
def Ending.result (keepTrace : Bool) : Ending σ → Except RunError Outcome × σ
  | .halted reason p => (.ok (outcome {} keepTrace reason p), p.oracleState)
  | .failed e oracleState => (.error e, oracleState)

theorem run_of_entry {oracleState : σ} {options : RunOptions} {label : String}
    (hentry : resolveEntry g options.entry = .ok (some label)) :
    run g registry oracle oracleState options =
      (loop g registry oracle options.trace options.maxSteps (startAt oracleState label)).result
        options.trace := by
  unfold run startAt
  rw [hentry]
  dsimp only
  cases loop g registry oracle options.trace options.maxSteps
      { state := {}, control := ⟨label, 0⟩, oracleState } with
  | halted reason q => rfl
  | failed e os => rfl

/-- The run that gave `short` with a budget of `n` steps is what a larger budget, with which it gave
`long`, leaves of the same run. -/
structure Truncates (n : Nat) (short long : Except RunError Outcome × σ) : Prop where
  /-- If the longer run has an outcome, then so has the shorter one, and its trace is the beginning
  of the longer one's. -/
  trace : ∀ outcome, long.1 = .ok outcome → ∃ shorter t t', short.1 = .ok shorter ∧
    shorter.trace = some t ∧ outcome.trace = some t' ∧ t.start = t'.start ∧ t.steps <+: t'.steps
  /-- An error stays. -/
  failed : ∀ e, short.1 = .error e → long = short
  /-- So does an outcome, unless it is that the budget is used up. -/
  halted : ∀ outcome, short.1 = .ok outcome → outcome.halt ≠ .budgetExhausted → long = short
  /-- Then all of it is used up. -/
  exhausted : ∀ outcome, short.1 = .ok outcome → outcome.halt = .budgetExhausted →
    outcome.stats.steps = n

/-- Two runs are the same if neither uses up its budget. -/
theorem truncates_of_eq {short long : Except RunError Outcome × σ} (h : long = short)
    (htrace : ∀ outcome, short.1 = .ok outcome → outcome.trace.isSome = true)
    (hhalt : ∀ outcome, short.1 = .ok outcome → outcome.halt ≠ .budgetExhausted) :
    Truncates n short long where
  trace outcome houtcome := by
    rw [h] at houtcome
    obtain ⟨t, ht⟩ := Option.isSome_iff_exists.mp (htrace outcome houtcome)
    exact ⟨outcome, t, t, houtcome, ht, ht, rfl, List.prefix_rfl⟩
  failed _ _ := h
  halted _ _ _ := h
  exhausted outcome houtcome hexhausted := absurd hexhausted (hhalt outcome houtcome)

/-- A loop that uses up its budget, and one that goes on from there. -/
theorem truncates_of_exhausted (os : σ) (label : String)
    (hshort : loop g registry oracle true n (startAt os label) = .halted .budgetExhausted q)
    (hlong : loop g registry oracle true m (startAt os label) =
      loop g registry oracle true k q) :
    Truncates n ((loop g registry oracle true n (startAt os label)).result true)
      ((loop g registry oracle true m (startAt os label)).result true) := by
  rw [hshort, hlong]
  refine ⟨fun longer hlonger => ?_, fun e he => ?_, fun shorter hshorter hne => ?_,
    fun shorter hshorter _ => ?_⟩
  · cases hrest : loop g registry oracle true k q with
    | failed e os' =>
      rw [hrest] at hlonger
      contradiction
    | halted reason r =>
      rw [hrest] at hlonger
      obtain rfl := Except.ok.inj hlonger
      have hsuffix : q.trace <:+ r.trace := suffix_of_loop hrest
      exact ⟨_, _, _, rfl, rfl, rfl, rfl, List.reverse_prefix.mpr hsuffix⟩
  · contradiction
  · obtain rfl := Except.ok.inj hshorter
    exact absurd rfl hne
  · obtain rfl := Except.ok.inj hshorter
    have hsteps := (tallied_of_loop (tallied_startAt os label) hshort).2 rfl
    exact hsteps.trans (Nat.zero_add n)

theorem tallied_of_run {oracleState : σ} {options : RunOptions} {o : Outcome}
    (h : (run g registry oracle oracleState options).1 = .ok o) : o.Tallied := by
  cases hentry : resolveEntry g options.entry with
  | error e =>
    unfold run at h
    rw [hentry] at h
    contradiction
  | ok entry =>
    cases entry with
    | none =>
      unfold run at h
      rw [hentry] at h
      obtain rfl := Except.ok.inj h
      refine ⟨fun t ht => ?_, Nat.le_refl 0⟩
      obtain ⟨-, rfl⟩ := trace_eq_some ht
      rfl
    | some label =>
      rw [run_of_entry hentry] at h
      cases hloop : loop g registry oracle options.trace options.maxSteps
          (startAt oracleState label) with
      | failed e os =>
        rw [hloop] at h
        contradiction
      | halted reason q =>
        rw [hloop] at h
        obtain rfl := Except.ok.inj h
        obtain ⟨hq, -⟩ := tallied_of_loop (tallied_startAt oracleState label) hloop
        refine ⟨fun t ht => ?_, hq.bounded⟩
        obtain ⟨hkeep, rfl⟩ := trace_eq_some ht
        rw [List.length_reverse]
        exact hq.traced hkeep

/-- A run that does not start has no use for its budget. -/
theorem truncates_of_no_start {oracleState : σ} {entry : Option String}
    (h : ∀ label, resolveEntry g entry ≠ .ok (some label)) :
    Truncates n (run g registry oracle oracleState { entry, maxSteps := n, trace := true })
      (run g registry oracle oracleState { entry, maxSteps := m, trace := true }) := by
  unfold run
  dsimp only
  cases hentry : resolveEntry g entry with
  | error e =>
    refine truncates_of_eq rfl (fun o ho => ?_) (fun o ho => ?_)
    · contradiction
    · contradiction
  | ok first =>
    cases first with
    | some label => exact absurd hentry (h label)
    | none =>
      refine truncates_of_eq rfl (fun o ho => ?_) (fun o ho => ?_)
      · obtain rfl := Except.ok.inj ho
        rfl
      · obtain rfl := Except.ok.inj ho
        show HaltReason.empty ≠ .budgetExhausted
        decide

/-- A run that starts is a loop, with either budget. -/
theorem truncates_of_start {oracleState : σ} {entry : Option String} {label : String}
    (h : resolveEntry g entry = .ok (some label)) (hle : n ≤ m) :
    Truncates n (run g registry oracle oracleState { entry, maxSteps := n, trace := true })
      (run g registry oracle oracleState { entry, maxSteps := m, trace := true }) := by
  have hrun : ∀ budget,
      run g registry oracle oracleState { entry, maxSteps := budget, trace := true } =
        (loop g registry oracle true budget (startAt oracleState label)).result true :=
    fun _ => run_of_entry h
  rw [hrun n, hrun m]
  rcases loop_of_le g registry oracle true (startAt oracleState label) hle with
    ⟨q, hshort, hlong⟩ | ⟨hsame, hne⟩
  · exact truncates_of_exhausted oracleState label hshort hlong
  · rw [hsame]
    cases hloop : loop g registry oracle true n (startAt oracleState label) with
    | failed e os =>
      refine truncates_of_eq rfl (fun o ho => ?_) (fun o ho => ?_)
      · contradiction
      · contradiction
    | halted reason q =>
      refine truncates_of_eq rfl (fun o ho => ?_) (fun o ho hexhausted => ?_)
      · obtain rfl := Except.ok.inj ho
        rfl
      · obtain rfl := Except.ok.inj ho
        obtain rfl : reason = .budgetExhausted := hexhausted
        exact hne q hloop

/-- **A budget only truncates.** For every graph, registry, entry and oracle:

* the traced run with a budget of `n` steps is what a budget of `m ≥ n` steps leaves of it: its
  trace is a prefix, its result is the same unless the budget is used up, and then it took exactly
  `n` steps;
* in every run with an outcome there are as many entries on the trace as decisions of the engine and
  answers of the oracle, and no more than steps. -/
theorem budget_truncates {σ : Type} (g : FlowGraph) (registry : Registry) (oracle : Oracle σ)
    (oracleState : σ) (entry : Option String) :
    (∀ n m, n ≤ m →
      Truncates n (run g registry oracle oracleState { entry, maxSteps := n, trace := true })
        (run g registry oracle oracleState { entry, maxSteps := m, trace := true })) ∧
    ∀ options o, (run g registry oracle oracleState options).1 = .ok o → o.Tallied := by
  refine ⟨fun n m hle => ?_, fun options o ho => tallied_of_run ho⟩
  by_cases hstart : ∃ label, resolveEntry g entry = .ok (some label)
  · obtain ⟨label, hlabel⟩ := hstart
    exact truncates_of_start hlabel hle
  · exact truncates_of_no_start (not_exists.mp hstart)

/-- A program of two blocks. The first is left at its end, and the second asks the oracle. -/
def crossingProgram : List Instruction :=
  [{ opcode := .label, label := some "first" },
    { opcode := .const, result := some "%0", operands := [.int 1] },
    { opcode := .label, label := some "second" },
    { opcode := .callUnknown, result := some "%1", operands := [.text "ext"] },
    { opcode := .ret, operands := [.text "%1"] }]

/-- The traced run of this program with a budget. -/
def crossingRun (budget : Nat) : Except RunError Outcome × Unit :=
  run (.ofInstructions crossingProgram)
    (.build crossingProgram (.ofInstructions crossingProgram)) SymbolicOracle.oracle ()
    { entry := none, maxSteps := budget, trace := true }

/-- What is seen of the run with a budget. -/
theorem crossingRun_eq_ok {budget steps decisions : Nat} {halt : HaltReason}
    (h : ((crossingRun budget).1.toOption.map fun o =>
      (o.halt, o.stats.steps, o.stats.localDecisions + o.stats.oracleCalls)) =
        some (halt, steps, decisions)) :
    ∃ o, (crossingRun budget).1 = .ok o ∧ o.halt = halt ∧ o.stats.steps = steps ∧
      o.stats.localDecisions + o.stats.oracleCalls = decisions := by
  obtain ⟨o, ho, hview⟩ := Option.map_eq_some_iff.mp h
  obtain ⟨hhalt, hstats⟩ := Prod.mk.inj hview
  obtain ⟨hsteps, hdecisions⟩ := Prod.mk.inj hstats
  exact ⟨o, toOption_eq_some ho, hhalt, hsteps, hdecisions⟩

/-- Two steps do one decision and the way to the second block. The run returns with its fourth step,
which is the last that a budget of four allows, so that nine steps change nothing. -/
theorem crossingRun_truncated :
    ∃ short long t t', (crossingRun 2).1 = .ok short ∧ (crossingRun 4).1 = .ok long ∧
      short.halt = .budgetExhausted ∧ short.stats.steps = 2 ∧
      long.halt = .returned ∧ long.stats.steps = 4 ∧
      short.trace = some t ∧ long.trace = some t' ∧ t.steps <+: t'.steps ∧
      t.steps.length = 1 ∧ t'.steps.length = 3 ∧
      crossingRun 9 = crossingRun 4 := by
  obtain ⟨short, hshort, hhalt, hsteps, hdecisions⟩ :=
    @crossingRun_eq_ok 2 2 1 .budgetExhausted (by decide +kernel)
  obtain ⟨long, hlong, hhalt', hsteps', hdecisions'⟩ :=
    @crossingRun_eq_ok 4 4 3 .returned (by decide +kernel)
  obtain ⟨htruncates, htallied⟩ := budget_truncates (.ofInstructions crossingProgram)
    (.build crossingProgram (.ofInstructions crossingProgram)) SymbolicOracle.oracle () none
  have hfour : Truncates 2 (crossingRun 2) (crossingRun 4) := htruncates 2 4 (by decide)
  have hnine : Truncates 4 (crossingRun 4) (crossingRun 9) := htruncates 4 9 (by decide)
  obtain ⟨shorter, t, t', hshorter, ht, ht', -, hprefix⟩ := hfour.trace long hlong
  obtain rfl := Except.ok.inj (hshort.symm.trans hshorter)
  have htally : short.Tallied := htallied { entry := none, maxSteps := 2, trace := true } _ hshort
  have htally' : long.Tallied := htallied { entry := none, maxSteps := 4, trace := true } _ hlong
  refine ⟨short, long, t, t', hshort, hlong, hhalt, hfour.exhausted short hshort hhalt, hhalt',
    hsteps', ht, ht', hprefix, (htally.traced t ht).trans hdecisions,
    (htally'.traced t' ht').trans hdecisions', ?_⟩
  exact hnine.halted long hlong (by rw [hhalt']; decide)

end Run

end SymbolicVM
