import SymbolicVM.Proofs.Run.History
import Mathlib.Data.List.Infix

/-!
# Asking the oracle

A run depends on its oracle only where the oracle is asked, that is where the engine declines an
instruction (`Run.Asks`). All other steps are the same with any oracle (`Run.step_withOracle`).
Where the oracle is asked, its answer is performed (`Run.step_of_asks`) and, if a trace is kept,
recorded in it: `answersOn` lists the answers of a trace. It grows by those that are performed
(`Run.answersOn_of_perform`) and by nothing else (`Run.answersOn_of_not_asks`).
-/

namespace SymbolicVM

/-- The same point of a run, with another state of the oracle. -/
def Progress.withOracle {σ τ : Type} (p : Progress σ) (oracleState : τ) : Progress τ where
  state := p.state
  control := p.control
  steps := p.steps
  localDecisions := p.localDecisions
  oracleCalls := p.oracleCalls
  trace := p.trace
  oracleState := oracleState

/-- The same result of a step, with another state of the oracle. -/
def StepResult.withOracle {σ τ : Type} (r : StepResult σ) (oracleState : τ) : StepResult τ :=
  match r with
  | .next p => .next (p.withOracle oracleState)
  | .halt reason p => .halt reason (p.withOracle oracleState)
  | .fail e _ => .fail e oracleState

namespace Run

variable {σ τ : Type} {g : FlowGraph} {registry : Registry} {keepTrace : Bool} {inst : Instruction}
  {d : Delta}

theorem perform_withOracle (p : Progress σ) (os : τ) (source : DecisionSource) :
    perform g keepTrace (p.withOracle os) inst d source =
      (perform g keepTrace p inst d source).withOracle os := by
  unfold perform
  show _ = _
  cases happly : p.state.apply d with
  | error e =>
    cases e
    simp only [Progress.withOracle, happly]
    rfl
  | ok applied =>
    simp only [Progress.withOracle, happly]
    cases (advance g inst p.control d p.state.depth applied).2 with
    | goto control => rfl
    | halt reason => rfl

variable (g registry) in
/-- The oracle is asked: the engine declines the instruction at the point of control. -/
def Asks (p : Progress σ) (inst : Instruction) : Prop :=
  instruction? g p.control = some inst ∧
    ∃ refusal, Engine.decide registry inst p.state = .error refusal ∧ refusal ≠ .overflow

/-- An instruction that the engine decides, or that makes it overflow, is executed without the
oracle. -/
theorem execute_withOracle {oracle : Oracle σ} {oracle' : Oracle τ} {p : Progress σ} (os : τ)
    (h : ∀ refusal, Engine.decide registry inst p.state = .error refusal → refusal = .overflow) :
    execute g registry oracle' keepTrace (p.withOracle os) inst =
      (execute g registry oracle keepTrace p inst).withOracle os := by
  unfold execute
  cases hdecide : Engine.decide registry inst p.state with
  | ok d =>
    have hsame : Engine.decide registry inst (p.withOracle os).state = .ok d := hdecide
    rw [hsame]
    exact perform_withOracle { p with localDecisions := p.localDecisions + 1 } os .engine
  | error refusal =>
    obtain rfl := h refusal hdecide
    have hsame : Engine.decide registry inst (p.withOracle os).state = .error .overflow := hdecide
    rw [hsame]
    rfl

/-- A step at which the oracle is not asked does not depend on it. -/
theorem step_withOracle {oracle : Oracle σ} {oracle' : Oracle τ} {p : Progress σ} (os : τ)
    (h : ∀ inst, ¬ Asks g registry p inst) :
    step g registry oracle' keepTrace (p.withOracle os) =
      (step g registry oracle keepTrace p).withOracle os := by
  unfold step
  dsimp only [Progress.withOracle]
  cases hblock : g.block? p.control.label with
  | none => rfl
  | some block =>
    dsimp only
    cases hinst : block.body[p.control.offset]? with
    | none =>
      dsimp only
      cases block.successors.head? with
      | none => rfl
      | some next => rfl
    | some inst =>
      dsimp only
      split_ifs with hlabel
      · rfl
      · have hlocated : instruction? g p.control = some inst := by
          rw [instruction?, hblock, Option.bind_some, hinst]
        have hdecided : ∀ refusal, Engine.decide registry inst p.state = .error refusal →
            refusal = .overflow := by
          intro refusal hrefusal
          by_contra hne
          exact h inst ⟨hlocated, refusal, hrefusal, hne⟩
        exact @execute_withOracle σ τ g registry keepTrace inst oracle oracle'
          { p with steps := p.steps + 1 } os hdecided

/-- A step at an instruction that is no label executes it. -/
theorem step_eq_execute {oracle : Oracle σ} {p : Progress σ}
    (hlocated : instruction? g p.control = some inst) (hlabel : inst.isLabel = false) :
    step g registry oracle keepTrace p =
      execute g registry oracle keepTrace { p with steps := p.steps + 1 } inst := by
  obtain ⟨block, hblock, hinst⟩ := Option.bind_eq_some_iff.mp hlocated
  unfold step
  dsimp only
  rw [hblock]
  dsimp only
  rw [hinst]
  dsimp only
  rw [hlabel]
  rfl

theorem Asks.isLabel_eq_false {p : Progress σ} (h : Asks g registry p inst) :
    inst.isLabel = false := by
  obtain ⟨-, refusal, hrefusal, -⟩ := h
  by_contra hlabel
  have hopcode : inst.opcode = .label := by simpa [Instruction.isLabel] using hlabel
  unfold Engine.decide at hrefusal
  rw [hopcode] at hrefusal
  contradiction

/-- What a step does with the answer of an oracle. -/
def consult (g : FlowGraph) (keepTrace : Bool) (p : Progress σ) (inst : Instruction)
    (answer : Except OracleError Delta) (oracleState : σ) : StepResult σ :=
  let p := { p with oracleCalls := p.oracleCalls + 1, oracleState }
  match answer with
  | .ok d => perform g keepTrace p inst d .oracle
  | .error .overflow => .fail .overflow oracleState
  | .error e => .fail (.oracle (p.steps - 1) p.control inst e) oracleState

/-- Where the oracle is asked, the step does what its answer says. -/
theorem step_of_asks {oracle : Oracle σ} {p : Progress σ} (h : Asks g registry p inst) :
    step g registry oracle keepTrace p =
      consult g keepTrace { p with steps := p.steps + 1 } inst
        (oracle.decide inst p.state p.oracleState).1
        (oracle.decide inst p.state p.oracleState).2 := by
  rw [step_eq_execute h.1 h.isLabel_eq_false]
  obtain ⟨-, refusal, hrefusal, hne⟩ := h
  unfold execute
  split
  · rename_i heq
    exact absurd (hrefusal.symm.trans heq) nofun
  · rename_i heq
    exact absurd (Except.error.inj (hrefusal.symm.trans heq)) hne
  · rfl

/-- Without an answer the run fails. -/
theorem consult_error (p : Progress σ) (e : OracleError) (os : σ) :
    ∃ e', consult g keepTrace p inst (.error e) os = .fail e' os := by
  unfold consult
  dsimp only
  split
  · contradiction
  · exact ⟨_, rfl⟩
  · exact ⟨_, rfl⟩

/-! ### Traces -/

theorem leadsTo_mono {P Q : Progress σ → Flow → Prop} (h : ∀ q flow, P q flow → Q q flow)
    {r : StepResult σ} (hr : LeadsTo P r) : LeadsTo Q r := by
  cases r with
  | next q => exact h q _ hr
  | halt reason q => exact h q _ hr
  | fail e os => trivial

/-- Performing an instruction puts it on the trace. -/
theorem perform_trace (p : Progress σ) (source : DecisionSource) :
    LeadsTo (fun q _ => ∃ t, q.trace = t :: p.trace ∧ t.delta = d ∧ t.source = source)
      (perform g true p inst d source) := by
  unfold perform
  split
  · trivial
  · dsimp only
    split
    · exact ⟨_, rfl, rfl, rfl⟩
    · exact ⟨_, rfl, rfl, rfl⟩

/-- A step at which the oracle is not asked puts at most a decision of the engine on the trace. -/
theorem step_trace_of_not_asks {oracle : Oracle σ} {p : Progress σ}
    (h : ∀ inst, ¬ Asks g registry p inst) :
    LeadsTo (fun q _ => q.trace = p.trace ∨ ∃ t, q.trace = t :: p.trace ∧ t.source = .engine)
      (step g registry oracle true p) := by
  unfold step
  dsimp only
  split
  · trivial
  · rename_i block hblock
    split
    · split
      · exact .inl rfl
      · exact .inl rfl
    · rename_i inst hinst
      split_ifs
      · exact .inl rfl
      · unfold execute
        split
        · rename_i d hd
          refine leadsTo_mono ?_ (perform_trace _ .engine)
          rintro q flow ⟨t, htrace, -, hsource⟩
          exact .inr ⟨t, htrace, hsource⟩
        · trivial
        · rename_i refusal hne hrefusal
          have hlocated : instruction? g p.control = some inst := by
            rw [instruction?, hblock, Option.bind_some, hinst]
          exact absurd ⟨hlocated, refusal, hrefusal, hne⟩ (h inst)

end Run

/-- The answers of the oracle that are on a trace. The last step of a trace stands first. -/
def answersOn (trace : List TraceStep) : List Delta :=
  (trace.reverse.filter fun t => t.source = .oracle).map (·.delta)

theorem answersOn_append (new old : List TraceStep) :
    answersOn (new ++ old) = answersOn old ++ answersOn new := by
  unfold answersOn
  rw [List.reverse_append, List.filter_append, List.map_append]

theorem answersOn_cons_of_engine {t : TraceStep} (h : t.source = .engine)
    (trace : List TraceStep) : answersOn (t :: trace) = answersOn trace := by
  rw [← List.singleton_append, answersOn_append]
  simp [answersOn, h]

theorem answersOn_cons_of_oracle {t : TraceStep} (h : t.source = .oracle)
    (trace : List TraceStep) : answersOn (t :: trace) = answersOn trace ++ [t.delta] := by
  rw [← List.singleton_append, answersOn_append]
  simp [answersOn, h]

namespace Run

variable {σ : Type} {g : FlowGraph} {registry : Registry} {inst : Instruction} {d : Delta}

/-- A step at which the oracle is not asked adds no answer. -/
theorem answersOn_of_not_asks {oracle : Oracle σ} {p : Progress σ}
    (h : ∀ inst, ¬ Asks g registry p inst) :
    LeadsTo (fun q _ => answersOn q.trace = answersOn p.trace)
      (step g registry oracle true p) := by
  refine leadsTo_mono ?_ (step_trace_of_not_asks h)
  rintro q flow (htrace | ⟨t, htrace, hsource⟩)
  · rw [htrace]
  · rw [htrace, answersOn_cons_of_engine hsource]

/-- Performing an answer adds it. -/
theorem answersOn_of_perform (p : Progress σ) :
    LeadsTo (fun q _ => answersOn q.trace = answersOn p.trace ++ [d])
      (perform g true p inst d .oracle) := by
  refine leadsTo_mono ?_ (perform_trace p .oracle)
  rintro q flow ⟨t, htrace, hdelta, hsource⟩
  rw [htrace, answersOn_cons_of_oracle hsource, hdelta]

/-- A step only adds to the trace. -/
theorem suffix_of_step {oracle : Oracle σ} (p : Progress σ) :
    LeadsTo (fun q _ => p.trace <:+ q.trace) (step g registry oracle true p) := by
  by_cases hasks : ∃ inst, Asks g registry p inst
  · obtain ⟨inst, hasks⟩ := hasks
    rw [step_of_asks hasks]
    unfold consult
    dsimp only
    split
    · refine leadsTo_mono ?_ (perform_trace _ .oracle)
      rintro q flow ⟨t, htrace, -⟩
      exact htrace ▸ List.suffix_cons t p.trace
    · trivial
    · trivial
  · refine leadsTo_mono ?_ (step_trace_of_not_asks (not_exists.mp hasks))
    rintro q flow (htrace | ⟨t, htrace, -⟩)
    · exact htrace ▸ List.suffix_rfl
    · exact htrace ▸ List.suffix_cons t p.trace

/-- A run that halts does so at once, or takes a step and halts later. -/
theorem loop_succ_cases {oracle : Oracle σ} {keepTrace : Bool} {budget : Nat} {p q : Progress σ}
    {reason : HaltReason}
    (h : loop g registry oracle keepTrace (budget + 1) p = .halted reason q) :
    step g registry oracle keepTrace p = .halt reason q ∨
      ∃ r, step g registry oracle keepTrace p = .next r ∧
        loop g registry oracle keepTrace budget r = .halted reason q := by
  unfold loop at h
  cases hstep : step g registry oracle keepTrace p with
  | next r =>
    rw [hstep] at h
    exact .inr ⟨r, rfl, h⟩
  | halt reason' r =>
    rw [hstep] at h
    obtain ⟨rfl, rfl⟩ := Ending.halted.inj h
    exact .inl rfl
  | fail e os =>
    rw [hstep] at h
    contradiction

/-- A run only adds to the trace. -/
theorem suffix_of_loop {oracle : Oracle σ} {budget : Nat} {p q : Progress σ} {reason : HaltReason}
    (h : loop g registry oracle true budget p = .halted reason q) : p.trace <:+ q.trace := by
  induction budget generalizing p with
  | zero =>
    unfold loop at h
    obtain ⟨-, rfl⟩ := Ending.halted.inj h
    exact List.suffix_rfl
  | succ budget ih =>
    have hsuffix := @suffix_of_step σ g registry oracle p
    rcases loop_succ_cases h with hstep | ⟨r, hstep, hrest⟩
    · rw [hstep] at hsuffix
      exact hsuffix
    · rw [hstep] at hsuffix
      exact List.IsSuffix.trans hsuffix (ih hrest)

/-- What a run that halts adds to the answers. -/
theorem exists_answersOn_of_loop {oracle : Oracle σ} {budget : Nat} {p q : Progress σ}
    {reason : HaltReason} (h : loop g registry oracle true budget p = .halted reason q) :
    ∃ answers, answersOn q.trace = answersOn p.trace ++ answers := by
  obtain ⟨new, htrace⟩ := suffix_of_loop h
  exact ⟨answersOn new, by rw [← htrace, answersOn_append]⟩

end Run

end SymbolicVM
