import SymbolicVM.Oracle.Replay
import SymbolicVM.Proofs.Oracle.Response
import SymbolicVM.Proofs.Run.Consultation
import SymbolicVM.Proofs.Run.Freshness

/-!
# Runs are replayed from their traces

The answers of the symbolic oracle in a run can be written down as documents, and the replay oracle
can read them back to it. This gives the same run, with the same state, statistics, trace and reason
to halt, exactly if no answer returns `null` (`Run.replayed_iff`): a returned `null` is lost on the
way.
-/

namespace SymbolicVM

/-! ### What holds of the states of a run -/

theorem Value.Within.regular {v : Value} {s : State} (h : v.Within s)
    (hs : ∀ u ∈ s.values, u.Everywhere Value.RegularMap) : v.Everywhere Value.RegularMap := by
  refine Value.Built.everywhere h ?_ (fun u hu entries hmap => ?_) (fun _ _ hmap => ?_)
  · rintro u (hu | ⟨x, rfl, -⟩)
    · exact hs u hu
    · exact Value.everywhere_symbolic.mpr nofun
  · rw [hmap] at hu
    contradiction
  · contradiction

namespace State

/-- The identifiers of the state are numbered below the counter, which fits its word, and its maps
are regular. -/
structure Orderly (s : State) : Prop where
  numbered : s.Numbered
  bounded : s.counter < counterBound
  regular : ∀ v ∈ s.values, v.Everywhere Value.RegularMap

theorem orderly_start : ({} : State).Orderly where
  numbered := numbered_start
  bounded := by decide
  regular := by simp [values_start]

/-- A delta within its footprint keeps a state orderly. -/
theorem Orderly.absorb {s t : State} {d : Delta} (hs : s.Orderly) (hd : d.Footprint s)
    (h : s.Absorbs d t) : t.Orderly where
  numbered := hs.numbered.absorb hd h
  bounded := foldlM_reserveNumber_lt hs.bounded h.counter
  regular v hv := by
    rcases h.grows.values v hv with hv | hv
    · exact hs.regular v hv
    · exact (hd.values v hv).regular hs.regular

end State

/-! ### Answers of the symbolic oracle -/

namespace SymbolicOracle

variable {s : State} {inst : Instruction} {d : Delta}

/-- An answer writes the result register. -/
theorem contains_result_of_answer {reg : String} (h : answer inst s = .ok d)
    (hreg : inst.result = some reg) : d.registerWrites.contains reg = true := by
  obtain ⟨⟨e, number⟩, -, h⟩ := bind_eq_ok.mp h
  dsimp only [withResult] at h
  rw [hreg] at h
  obtain ⟨⟨x, next⟩, -, h⟩ := bind_eq_ok.mp h
  obtain rfl := Except.ok.inj h
  unfold Dict.contains Delta.writeRegister
  rw [Dict.get?_insert_self]
  rfl

/-- The answers are acceptable. -/
theorem acceptable_of_answer (hs : s.Orderly) (h : answer inst s = .ok d) :
    Response.Acceptable inst d := by
  have hfoot := (answer_eq_ok h).2
  -- the unknowns of an answer are numbered, be they old or new
  have hnumbered : ∀ v ∈ d.writtenValues, ∀ x ∈ v.unknowns,
      ∃ n, n + 1 < counterBound ∧ x.name = IdKind.symbol.name n := by
    intro v hv x hx
    rcases (hfoot.values v hv).of_mem_unknowns x hx with ⟨u, hu, hxu⟩ | ⟨n, -, hroom, hname⟩
    · obtain ⟨n, hlt, hname⟩ := hs.numbered.symbols u hu x hxu
      have hbounded := hs.bounded
      exact ⟨n, by omega, hname⟩
    · exact ⟨n, hroom, hname⟩
  refine ⟨fun reg hreg => contains_result_of_answer h hreg, fun obj hobj => ?_,
    fun v hv x hx => ?_, fun v hv x hx m hm => ?_⟩
  · rcases hfoot.objects obj hobj with ⟨n, -, -, hname⟩ | ⟨n, -, -, hname⟩
    · exact hname ▸ IdKind.name_ne_empty _ n
    · exact hname ▸ IdKind.name_ne_empty _ n
  · obtain ⟨n, -, hname⟩ := hnumbered v hv x hx
    exact hname ▸ IdKind.name_ne_empty _ n
  · obtain ⟨n, hroom, hname⟩ := hnumbered v hv x hx
    rw [hname, IdKind.number?_name _ (by omega)] at hm
    obtain rfl := Option.some.inj hm
    exact hroom

/-- An answer is read back from its document, but for a returned `null`. -/
theorem parse_of_answer (hs : s.Orderly) (h : answer inst s = .ok d)
    (hfinite : ∀ v ∈ d.writtenValues, v.Everywhere Value.FiniteFloat)
    (hread : Json.parse? d.toJson.compact = some d.toJson) :
    Response.parse d.toJson.compact inst s = .ok d.reread := by
  refine Response.parse_compact s (acceptable_of_answer hs h) (fun v hv => ?_) hread
  exact ⟨hfinite v hv, ((answer_eq_ok h).2.values v hv).regular hs.regular⟩

end SymbolicOracle

/-- The next recorded text is the answer, if it is accepted. -/
theorem ReplayOracle.answer_eq {inst : Instruction} {s : State} {d : Delta} {text : String}
    {rest : List String} {n : Nat} (h : Response.parse text inst s = .ok d) :
    ReplayOracle.oracle.decide inst s ⟨text :: rest, n⟩ = (.ok d, ⟨rest, n + 1⟩) := by
  show ReplayOracle.answer inst s ⟨text :: rest, n⟩ = _
  unfold answer
  dsimp only
  rw [h]

namespace Run

variable {g : FlowGraph} {registry : Registry} {inst : Instruction} {d : Delta} {n : Nat}
  {p q : Progress Unit}

/-! ### One step of both runs -/

/-- A delta whose document is read as it was printed, and whose numbers are all finite. -/
structure Recorded (d : Delta) : Prop where
  finite : ∀ v ∈ d.writtenValues, v.Everywhere Value.FiniteFloat
  read : Json.parse? d.toJson.compact = some d.toJson

/-- The answer with a given document is recorded if that is read as it was printed. -/
theorem recorded_of_documents {ds : List Delta} {document : Json}
    (hdocument : ds.map (·.toJson) = [document])
    (hfinite : ∀ d ∈ ds, ∀ v ∈ d.writtenValues, v.Everywhere Value.FiniteFloat)
    (hread : Json.parse? document.compact = some document) : ∀ d ∈ ds, Recorded d := by
  intro d hd
  have hmem : d.toJson ∈ [document] := hdocument ▸ List.mem_map_of_mem hd
  exact ⟨hfinite d hd, List.mem_singleton.mp hmem ▸ hread⟩

/-- A recording of answers, of which some were given already. -/
def recordingOf (answers : List Delta) (answered : Nat) : Recording :=
  ⟨answers.map fun d => d.toJson.compact, answered⟩

/-- A step with the symbolic oracle keeps the state orderly. -/
theorem orderly_step (h : p.state.Orderly) :
    LeadsTo (fun q _ => q.state.Orderly)
      (step g registry SymbolicOracle.oracle true p) := by
  refine leadsTo_mono ?_ (step_leadsTo p)
  intro q flow houtcome
  rcases exists_performs_of_outcome houtcome with hstate | ⟨inst, d, hperforms, habsorbs⟩
  · rwa [hstate]
  · exact h.absorb (decision?_symbolic hperforms.2).2 habsorbs

/-- A step at which the symbolic oracle answers. -/
theorem step_symbolic (hasks : Asks g registry p inst)
    (hanswer : SymbolicOracle.answer inst p.state = .ok d) :
    step g registry SymbolicOracle.oracle true p =
      perform g true { p with steps := p.steps + 1, oracleCalls := p.oracleCalls + 1 } inst d
        .oracle := by
  rw [step_of_asks hasks]
  show consult _ _ _ _ (SymbolicOracle.answer inst p.state) () = _
  rw [hanswer]
  rfl

/-- The same step with the replay oracle, when the answer is the next one that is recorded. -/
theorem step_replay (horderly : p.state.Orderly) (hasks : Asks g registry p inst)
    (hanswer : SymbolicOracle.answer inst p.state = .ok d) (hrecorded : Recorded d)
    (ds : List Delta) (n : Nat) :
    step g registry ReplayOracle.oracle true (p.withOracle (recordingOf (d :: ds) n)) =
      perform g true (Progress.withOracle
        { p with steps := p.steps + 1, oracleCalls := p.oracleCalls + 1 } (recordingOf ds (n + 1)))
        inst d.reread .oracle := by
  have hparse := SymbolicOracle.parse_of_answer horderly hanswer hrecorded.finite hrecorded.read
  have hdecide : ReplayOracle.oracle.decide inst (p.withOracle (recordingOf (d :: ds) n)).state
      (p.withOracle (recordingOf (d :: ds) n)).oracleState =
        (.ok d.reread, recordingOf ds (n + 1)) := ReplayOracle.answer_eq hparse
  have hasks' : Asks g registry (p.withOracle (recordingOf (d :: ds) n)) inst := hasks
  rw [step_of_asks hasks', hdecide]
  rfl

variable (g registry p) in
/-- The answers of the symbolic oracle in one step, of which there is at most one. The same step
with the replay oracle performs them as they are reread. If that changes none of them, then it is
the same step. -/
structure Gives (answers : List Delta) : Prop where
  given : LeadsTo (fun q _ => answersOn q.trace = answersOn p.trace ++ answers)
    (step g registry SymbolicOracle.oracle true p)
  reread (hrecorded : ∀ d ∈ answers, Recorded d) (ds : List Delta) (n : Nat) :
    LeadsTo (fun q _ => answersOn q.trace = answersOn p.trace ++ answers.map Delta.reread)
      (step g registry ReplayOracle.oracle true (p.withOracle (recordingOf (answers ++ ds) n)))
  replayed (hrecorded : ∀ d ∈ answers, Recorded d) (hsame : ∀ d ∈ answers, d.reread = d)
      (ds : List Delta) (n : Nat) :
    step g registry ReplayOracle.oracle true (p.withOracle (recordingOf (answers ++ ds) n)) =
      (step g registry SymbolicOracle.oracle true p).withOracle
        (recordingOf ds (n + answers.length))

/-- A step at which the oracle is not asked. -/
theorem gives_nil (h : ∀ inst, ¬ Asks g registry p inst) : Gives g registry p [] where
  given := by
    rw [List.append_nil]
    exact answersOn_of_not_asks h
  reread _ ds n := by
    rw [List.map_nil, List.append_nil]
    exact answersOn_of_not_asks h
  replayed _ _ ds n := step_withOracle _ h

/-- A step at which the oracle is asked. -/
theorem gives_singleton (horderly : p.state.Orderly) (hasks : Asks g registry p inst)
    (hanswer : SymbolicOracle.answer inst p.state = .ok d) : Gives g registry p [d] where
  given := by
    rw [step_symbolic hasks hanswer]
    exact answersOn_of_perform _
  reread hrecorded ds n := by
    have hd := hrecorded d (List.mem_singleton_self d)
    rw [List.singleton_append, step_replay horderly hasks hanswer hd]
    exact answersOn_of_perform _
  replayed hrecorded hsame ds n := by
    have hd := hrecorded d (List.mem_singleton_self d)
    rw [List.singleton_append, step_replay horderly hasks hanswer hd, step_symbolic hasks hanswer,
      hsame d (List.mem_singleton_self d), perform_withOracle]
    rfl

/-- A step that does not fail gives answers. -/
theorem exists_gives (horderly : p.state.Orderly)
    (h : ∀ e os, step g registry SymbolicOracle.oracle true p ≠ .fail e os) :
    ∃ answers, Gives g registry p answers := by
  by_cases hasks : ∃ inst, Asks g registry p inst
  · obtain ⟨inst, hasks⟩ := hasks
    cases hanswer : SymbolicOracle.answer inst p.state with
    | ok d => exact ⟨[d], gives_singleton horderly hasks hanswer⟩
    | error e =>
      -- without an answer the step fails
      have hstep : step g registry SymbolicOracle.oracle true p =
          consult g true { p with steps := p.steps + 1 } inst
            (SymbolicOracle.answer inst p.state) () := step_of_asks hasks
      rw [hanswer] at hstep
      obtain ⟨e', hfail⟩ := @consult_error _ g true inst { p with steps := p.steps + 1 } e ()
      exact absurd (hstep.trans hfail) (h e' ())
  · exact ⟨[], gives_nil (not_exists.mp hasks)⟩

/-! ### Whole runs -/

variable {budget : Nat} {reason reason' : HaltReason} {q' : Progress Recording} {ds : List Delta}

/-- The answers of a run that halts are those of its first step and those of the rest. -/
theorem exists_gives_of_loop (horderly : p.state.Orderly)
    (hloop : loop g registry SymbolicOracle.oracle true (budget + 1) p = .halted reason q)
    (hanswers : answersOn q.trace = answersOn p.trace ++ ds) :
    ∃ answers ds', Gives g registry p answers ∧ ds = answers ++ ds' ∧
      ((step g registry SymbolicOracle.oracle true p = .halt reason q ∧ ds' = []) ∨
        ∃ r, step g registry SymbolicOracle.oracle true p = .next r ∧ r.state.Orderly ∧
          loop g registry SymbolicOracle.oracle true budget r = .halted reason q ∧
          answersOn q.trace = answersOn r.trace ++ ds') := by
  have hok : ∀ e os, step g registry SymbolicOracle.oracle true p ≠ .fail e os := by
    intro e os hfail
    unfold loop at hloop
    rw [hfail] at hloop
    contradiction
  obtain ⟨answers, hgives⟩ := exists_gives horderly hok
  have hgiven := hgives.given
  have horderly' := @orderly_step g registry p horderly
  rcases loop_succ_cases hloop with hstep | ⟨r, hstep, hrest⟩
  · rw [hstep] at hgiven
    refine ⟨answers, [], hgives, ?_, .inl ⟨hstep, rfl⟩⟩
    rw [List.append_nil]
    exact List.append_cancel_left (hanswers.symm.trans hgiven)
  · rw [hstep] at hgiven horderly'
    obtain ⟨ds', hlater⟩ := exists_answersOn_of_loop hrest
    refine ⟨answers, ds', hgives, ?_, .inr ⟨r, hstep, horderly', hrest, hlater⟩⟩
    apply List.append_cancel_left
    calc answersOn p.trace ++ ds = answersOn r.trace ++ ds' := hanswers.symm.trans hlater
      _ = answersOn p.trace ++ answers ++ ds' := congrArg (· ++ ds') hgiven
      _ = answersOn p.trace ++ (answers ++ ds') := List.append_assoc _ _ _

/-- If rereading changes no answer, then the replayed run is the run itself. -/
theorem loop_replay (horderly : p.state.Orderly)
    (hloop : loop g registry SymbolicOracle.oracle true budget p = .halted reason q)
    (hanswers : answersOn q.trace = answersOn p.trace ++ ds) (hrecorded : ∀ d ∈ ds, Recorded d)
    (hsame : ∀ d ∈ ds, d.reread = d) (n : Nat) :
    loop g registry ReplayOracle.oracle true budget (p.withOracle (recordingOf ds n)) =
      .halted reason (q.withOracle (recordingOf [] (n + ds.length))) := by
  -- the first step uses up its own answers, and what is left of the recording is for the rest
  induction budget generalizing p ds n with
  | zero =>
    unfold loop at hloop ⊢
    obtain ⟨rfl, rfl⟩ := Ending.halted.inj hloop
    obtain rfl := List.append_right_eq_self.mp hanswers.symm
    rfl
  | succ budget ih =>
    obtain ⟨answers, ds', hgives, rfl, hcases⟩ := exists_gives_of_loop horderly hloop hanswers
    have hreplayed := hgives.replayed (fun d hd => hrecorded d (List.mem_append_left _ hd))
      (fun d hd => hsame d (List.mem_append_left _ hd)) ds' n
    unfold loop
    rw [hreplayed]
    rcases hcases with ⟨hstep, rfl⟩ | ⟨r, hstep, hr, hrest, hlater⟩
    · rw [hstep, List.append_nil]
      rfl
    · rw [hstep, List.length_append, ← Nat.add_assoc]
      exact ih hr hrest hlater (fun d hd => hrecorded d (List.mem_append_right _ hd))
        (fun d hd => hsame d (List.mem_append_right _ hd)) (n + answers.length)

/-- A replayed run performs the answers of its first step as they are reread. If they are on its
trace as they were given, then rereading does not change them. -/
theorem Gives.reread_eq_self {answers : List Delta} (h : Gives g registry p answers)
    (hrecorded : ∀ d ∈ answers, Recorded d)
    (hreplay : loop g registry ReplayOracle.oracle true (budget + 1)
      (p.withOracle (recordingOf (answers ++ ds) n)) = .halted reason' q')
    (hanswers : answersOn q'.trace = answersOn p.trace ++ (answers ++ ds)) :
    ∀ d ∈ answers, d.reread = d := by
  have hreread := h.reread hrecorded ds n
  obtain ⟨later, hlater⟩ : ∃ later,
      answersOn q'.trace = answersOn p.trace ++ answers.map Delta.reread ++ later := by
    rcases loop_succ_cases hreplay with hstep | ⟨r, hstep, hrest⟩
    · rw [hstep] at hreread
      exact ⟨[], hreread.trans (List.append_nil _).symm⟩
    · rw [hstep] at hreread
      obtain ⟨later, hlater⟩ := exists_answersOn_of_loop hrest
      exact ⟨later, hlater.trans (congrArg (· ++ later) hreread)⟩
  -- both lists begin with as many answers, so these agree
  rw [hanswers, List.append_assoc] at hlater
  have hmap : answers = answers.map Delta.reread :=
    List.append_inj_left (List.append_cancel_left hlater) (List.length_map _).symm
  exact List.map_inj_left.mp (hmap.symm.trans (List.map_id _).symm)

/-- If the replayed run has the same answers on its trace, then rereading changes none of them. -/
theorem reread_eq_self_of_loop (horderly : p.state.Orderly)
    (hloop : loop g registry SymbolicOracle.oracle true budget p = .halted reason q)
    (hanswers : answersOn q.trace = answersOn p.trace ++ ds) (hrecorded : ∀ d ∈ ds, Recorded d)
    (hreplay : loop g registry ReplayOracle.oracle true budget (p.withOracle (recordingOf ds n)) =
      .halted reason' q')
    (hsame : answersOn q'.trace = answersOn q.trace) : ∀ d ∈ ds, d.reread = d := by
  induction budget generalizing p ds n with
  | zero =>
    unfold loop at hloop
    obtain ⟨rfl, rfl⟩ := Ending.halted.inj hloop
    obtain rfl := List.append_right_eq_self.mp hanswers.symm
    exact fun d hd => absurd hd List.not_mem_nil
  | succ budget ih =>
    obtain ⟨answers, ds', hgives, rfl, hcases⟩ := exists_gives_of_loop horderly hloop hanswers
    have hrecorded₁ : ∀ d ∈ answers, Recorded d :=
      fun d hd => hrecorded d (List.mem_append_left _ hd)
    have hsame₁ := hgives.reread_eq_self hrecorded₁ hreplay (hsame.trans hanswers)
    rcases hcases with ⟨-, rfl⟩ | ⟨r, hstep, hr, hrest, hlater⟩
    · rwa [List.append_nil]
    · -- the first steps agree, so the rest is a replayed run, too
      have hreplayed := hgives.replayed hrecorded₁ hsame₁ ds' n
      rw [hstep] at hreplayed
      unfold loop at hreplay
      rw [hreplayed] at hreplay
      have hsame₂ := ih hr hrest hlater (fun d hd => hrecorded d (List.mem_append_right _ hd))
        hreplay
      exact fun d hd => (List.mem_append.mp hd).elim (hsame₁ d) (hsame₂ d)

end Run

/-- The answers of the oracle on a trace. -/
def Trace.answers (trace : Trace) : List Delta :=
  (trace.steps.filter fun t => t.source = .oracle).map (·.delta)

/-- The documents of the answers on a trace. -/
def Trace.recording (trace : Trace) : Recording where
  responses := trace.answers.map fun d => d.toJson.compact

theorem Trace.recording_eq {trace : Trace} {documents : List Json}
    (h : trace.answers.map (·.toJson) = documents) :
    trace.recording = ⟨documents.map Json.compact, 0⟩ := by
  rw [← h, List.map_map]
  rfl

namespace Run

/-- The outcome of a run from the block with the given label. -/
theorem run_eq_ok_iff_of_entry {σ : Type} {g : FlowGraph} {registry : Registry} {oracle : Oracle σ}
    {oracleState : σ} {options : RunOptions} {label : String} {result : Outcome}
    (hentry : resolveEntry g options.entry = .ok (some label)) :
    (run g registry oracle oracleState options).1 = .ok result ↔
      ∃ reason q, loop g registry oracle options.trace options.maxSteps
          (startAt oracleState label) = .halted reason q ∧
        outcome {} options.trace reason q = result := by
  unfold run
  rw [hentry]
  constructor
  · intro h
    dsimp only at h
    split at h
    · rename_i reason q hloop
      exact ⟨reason, q, hloop, Except.ok.inj h⟩
    · contradiction
  · rintro ⟨reason, q, hloop, rfl⟩
    unfold startAt at hloop
    dsimp only
    rw [hloop]

/-- The trace of an outcome, if it is kept. -/
theorem trace_eq_some {keepTrace : Bool} {start : State} {steps : List TraceStep} {trace : Trace}
    (h : (if keepTrace then some (⟨start, steps⟩ : Trace) else none) = some trace) :
    keepTrace = true ∧ trace = ⟨start, steps⟩ := by
  cases keepTrace with
  | true => exact ⟨rfl, (Option.some.inj h).symm⟩
  | false => contradiction

/-- **A run with the symbolic oracle is replayed from the documents of its answers**, with the same
final state, statistics, reason to halt and trace, exactly if no answer returns `null`. The numbers
in the answers are finite, and documents are read as they were printed. -/
theorem replayed_iff {g : FlowGraph} {registry : Registry} {options : RunOptions}
    {result : Outcome} {trace : Trace}
    (hrun : (run g registry SymbolicOracle.oracle () options).1 = .ok result)
    (htrace : result.trace = some trace)
    (hrecorded : ∀ d ∈ trace.answers, Recorded d) :
    (run g registry ReplayOracle.oracle trace.recording options).1 = .ok result ↔
      ∀ d ∈ trace.answers, d.returnValue ≠ some .null := by
  simp only [← Delta.reread_eq_self_iff]
  cases hentry : resolveEntry g options.entry with
  | error e =>
    unfold run at hrun
    rw [hentry] at hrun
    contradiction
  | ok entry =>
    cases entry with
    | none =>
      -- an empty program asks nothing
      unfold run at hrun ⊢
      rw [hentry] at hrun ⊢
      obtain rfl := Except.ok.inj hrun
      obtain ⟨-, rfl⟩ := trace_eq_some htrace
      exact ⟨fun _ d hd => absurd hd List.not_mem_nil, fun _ => rfl⟩
    | some label =>
      obtain ⟨reason, q, hloop, rfl⟩ := (run_eq_ok_iff_of_entry hentry).mp hrun
      rw [run_eq_ok_iff_of_entry hentry]
      obtain ⟨hkeep, rfl⟩ := trace_eq_some htrace
      rw [hkeep] at hloop ⊢
      have hstart : (startAt () label).state.Orderly := State.orderly_start
      have hanswers : answersOn q.trace =
          answersOn (startAt () label).trace ++ Trace.answers ⟨{}, q.trace.reverse⟩ := rfl
      constructor
      · rintro ⟨reason', q', hreplay, hsame⟩
        have htraces : some (⟨{}, q'.trace.reverse⟩ : Trace) = some ⟨{}, q.trace.reverse⟩ :=
          congrArg Outcome.trace hsame
        have hsteps : q'.trace = q.trace :=
          List.reverse_injective (Trace.mk.inj (Option.some.inj htraces)).2
        exact reread_eq_self_of_loop hstart hloop hanswers hrecorded hreplay
          (congrArg answersOn hsteps)
      · intro hsame
        exact ⟨reason, _, loop_replay hstart hloop hanswers hrecorded hsame 0, rfl⟩

/-- A program that calls a function which throws the operands, and returns what the call gives. -/
def throwingProgram (operands : List Operand) : List Instruction :=
  [{ opcode := .branch, label := some "main" },
    { opcode := .label, label := some "func_f_0" },
    { opcode := .throw, operands },
    { opcode := .label, label := some "main" },
    { opcode := .const, result := some "%0", operands := [.text "<function:f@func_f_0>"] },
    { opcode := .storeVar, operands := [.text "f", .text "%0"] },
    { opcode := .callFunction, result := some "%1", operands := [.text "f"] },
    { opcode := .ret, operands := [.text "%1"] }]

/-- The traced run of such a program. -/
def throwingRun {σ : Type} (oracle : Oracle σ) (oracleState : σ) (operands : List Operand) :
    Except RunError Outcome :=
  (run (.ofInstructions (throwingProgram operands))
    (.build (throwingProgram operands) (.ofInstructions (throwingProgram operands))) oracle
    oracleState { trace := true }).1

/-- The document of an answer that throws. -/
def thrownDocument (value : Json) : Json :=
  .obj [("call_pop", .bool true), ("return_value", value),
    ("reasoning", .str "THROW unwinds the frame")]

/-- A thrown number is recorded, and the run is replayed from it. -/
theorem throwingRun_replayed :
    ∃ result trace, throwingRun SymbolicOracle.oracle () [.text "5"] = .ok result ∧
      result.trace = some trace ∧ trace.answers.map (·.toJson) = [thrownDocument (.int 5)] ∧
      (∀ d ∈ trace.answers, Recorded d) ∧
      throwingRun ReplayOracle.oracle trace.recording [.text "5"] = .ok result := by
  have hview : ((throwingRun SymbolicOracle.oracle () [.text "5"]).toOption.bind fun result =>
      result.trace.map fun trace =>
        decide (trace.answers.map (·.toJson) = [thrownDocument (.int 5)] ∧
          (∀ d ∈ trace.answers, ∀ v ∈ d.writtenValues, v.Everywhere Value.FiniteFloat) ∧
          ∀ d ∈ trace.answers, ∀ v ∈ d.returnValue, v ≠ .null)) = some true := by
    decide +kernel
  have hread : Json.parse? (thrownDocument (.int 5)).compact = some (thrownDocument (.int 5)) := by
    decide +kernel
  -- outcomes cannot be compared by evaluation, but what is asked of the answers can be decided
  obtain ⟨result, hresult, hview⟩ := Option.bind_eq_some_iff.mp hview
  obtain ⟨trace, htrace, hdecide⟩ := Option.map_eq_some_iff.mp hview
  obtain ⟨hdocuments, hfinite, hnull⟩ := of_decide_eq_true hdecide
  have hrun := toOption_eq_some hresult
  have hrecorded := recorded_of_documents hdocuments hfinite hread
  refine ⟨result, trace, hrun, htrace, hdocuments, hrecorded, ?_⟩
  unfold throwingRun at hrun ⊢
  exact (replayed_iff hrun htrace hrecorded).mpr fun d hd hreturn => hnull d hd .null hreturn rfl

/-- A throw without operand returns `null`. The replayed call leaves its register without a value,
so that more is asked than was answered. -/
theorem throwingRun_notReplayed :
    ∃ result trace, throwingRun SymbolicOracle.oracle () [] = .ok result ∧
      result.trace = some trace ∧ trace.answers.map (·.toJson) = [thrownDocument .null] ∧
      (∀ d ∈ trace.answers, Recorded d) ∧
      ∀ other, throwingRun ReplayOracle.oracle trace.recording [] ≠ .ok other := by
  have hview : ((throwingRun SymbolicOracle.oracle () []).toOption.bind fun result =>
      result.trace.map fun trace =>
        decide (trace.answers.map (·.toJson) = [thrownDocument .null] ∧
          ∀ d ∈ trace.answers, ∀ v ∈ d.writtenValues, v.Everywhere Value.FiniteFloat)) =
            some true := by
    decide +kernel
  have hread : Json.parse? (thrownDocument .null).compact = some (thrownDocument .null) := by
    decide +kernel
  have hnone : (throwingRun ReplayOracle.oracle
      ⟨[thrownDocument .null].map Json.compact, 0⟩ []).toOption.isNone = true := by
    decide +kernel
  obtain ⟨result, hresult, hview⟩ := Option.bind_eq_some_iff.mp hview
  obtain ⟨trace, htrace, hdecide⟩ := Option.map_eq_some_iff.mp hview
  obtain ⟨hdocuments, hfinite⟩ := of_decide_eq_true hdecide
  have hrecorded := recorded_of_documents hdocuments hfinite hread
  refine ⟨result, trace, toOption_eq_some hresult, htrace, hdocuments, hrecorded, fun other h => ?_⟩
  rw [← Trace.recording_eq hdocuments, h] at hnone
  cases hnone

end Run

end SymbolicVM
