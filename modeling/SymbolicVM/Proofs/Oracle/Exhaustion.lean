import SymbolicVM.Proofs.Oracle.Naming

/-!
# Answers that exhaust the numbers

An oracle chooses its names freely, and every number that it mentions raises the counter. So an
answer whose names are at the top of the range leaves no number for the next one. There are two
places where this shows, and for both it is said exactly which answers do it
(`Response.overflow_iff`): reading the answer fails if there are not enough numbers for the unknowns
without a name (`Delta.Exhausts`), and applying it fails if an identifier of whatever kind has the
greatest number (`Delta.NamesLast`). All other answers are read, or refused for what they say, and
applied.
-/

namespace SymbolicVM

namespace Delta

/-- There are not enough numbers above the counter and above the delta's own symbolic names for its
unknowns without a name. -/
def Exhausts (d : Delta) (counter : Nat) : Prop :=
  counterBound ≤ counter + Response.gaps d.symbolNames ∨
    ∃ name ∈ d.symbolNames, ∃ n ∈ IdKind.symbol.number? name,
      counterBound ≤ n + 1 + Response.gaps d.symbolNames

/-- One of the delta's identifiers has the greatest number. -/
def NamesLast (d : Delta) : Prop :=
  ∃ name ∈ d.reservations, ∃ n ∈ IdKind.anyNumber? name, counterBound ≤ n + 1

instance (d : Delta) (counter : Nat) : Decidable (d.Exhausts counter) :=
  inferInstanceAs (Decidable (_ ∨ ∃ name ∈ d.symbolNames, ∃ n ∈ IdKind.symbol.number? name, _))

instance (d : Delta) : Decidable d.NamesLast :=
  inferInstanceAs (Decidable (∃ name ∈ d.reservations, ∃ n ∈ IdKind.anyNumber? name, _))

end Delta

/-- Applying a delta fails exactly if one of its identifiers has the greatest number. -/
theorem State.apply_eq_error_iff {s : State} {d : Delta} (hs : s.counter < counterBound) :
    s.apply d = .error .overflow ↔ d.NamesLast := by
  have hfold : d.reservations.foldlM reserveNumber s.counter = .error .overflow ↔ d.NamesLast :=
    raises_reserveNumber.foldlM_eq_error_iff hs
  rw [apply_eq, ← hfold]
  cases d.reservations.foldlM reserveNumber s.counter with
  | error e => exact ⟨fun _ => rfl, fun _ => rfl⟩
  | ok c =>
    constructor
    · intro h
      contradiction
    · intro h
      contradiction

namespace Response

variable {counter : Nat} {d d' : Delta}

/-! ### Naming -/

/-- Naming the unknowns of a delta fails exactly if there are not enough numbers. -/
theorem nameDelta_eq_error_iff (hc : counter < counterBound) :
    nameDelta counter d = .error .overflow ↔ d.Exhausts counter := by
  have hnames : firstNumber counter d.writtenValues = d.symbolNames.foldlM above counter := by
    rw [firstNumber_eq, namesIn_writtenValues]
  cases hfirst : firstNumber counter d.writtenValues with
  | error e =>
    -- a number in the delta has no successor, let alone one for each gap
    have hexhausts : d.Exhausts counter := by
      rw [hnames] at hfirst
      obtain ⟨name, hname, n, hn, hle⟩ := (raises_above.foldlM_eq_error_iff hc).mp hfirst
      exact .inr ⟨name, hname, n, hn, by omega⟩
    have herror : nameDelta counter d = .error .overflow := by
      rw [nameDelta, hfirst]
      rfl
    exact ⟨fun _ => hexhausts, fun _ => herror⟩
  | ok first =>
    rw [hnames] at hfirst
    obtain ⟨hle, habove, hleast⟩ := raises_above.foldlM_eq_ok hfirst
    have hlt := raises_above.foldlM_lt hc hfirst
    rw [← hnames] at hfirst
    -- the first number is the greatest of those that `Exhausts` adds the gaps to
    have hroom : Room first (gaps d.symbolNames) ↔ ¬ d.Exhausts counter := by
      constructor
      · rintro hroom (hfull | ⟨name, hname, n, hn, hfull⟩)
        · unfold Room at hroom
          omega
        · have hn' := habove name hname n hn
          unfold Room at hroom
          omega
      · intro hnot
        by_contra hfull
        unfold Room at hfull
        rcases hleast with rfl | ⟨name, hname, n, hn, rfl⟩
        · exact hnot (.inl (by omega))
        · exact hnot (.inr ⟨name, hname, n, hn, by omega⟩)
    rcases nameDelta_takes hfirst with ⟨hfits, d', hok, -⟩ | ⟨hfull, herror⟩
    · rw [hok]
      refine ⟨fun h => ?_, fun h => absurd h (hroom.mp hfits)⟩
      contradiction
    · exact ⟨fun _ => not_not.mp fun h => hfull (hroom.mpr h), fun _ => herror⟩

/-- New names do not have the greatest number, so a delta has one with it if it had one before. -/
theorem namesLast_of_nameDelta (hc : counter < counterBound) (h : nameDelta counter d = .ok d') :
    d'.NamesLast ↔ d.NamesLast := by
  obtain ⟨first, hfirst, hroom, hnames, hallocations⟩ := nameDelta_eq_ok h
  have hlt := raises_above.foldlM_lt hc hfirst
  unfold Delta.NamesLast Delta.reservations
  rw [hnames, hallocations]
  constructor
  · rintro ⟨name, hname, n, hn, hlast⟩
    rcases List.mem_append.mp hname with hname | hname
    · exact ⟨name, List.mem_append_left _ hname, n, hn, hlast⟩
    · rcases of_mem_fill hname with hname | ⟨m, -, hm, rfl⟩
      · exact ⟨name, List.mem_append_right _ hname, n, hn, hlast⟩
      · -- a number that was taken has a successor
        have hm' : m + 1 < counterBound := by
          unfold Room at hroom
          omega
        have hnumber := IdKind.anyNumber?_eq_some
          (IdKind.symbol.number?_name (Nat.lt_of_succ_lt hm'))
        obtain rfl := Option.some.inj (hnumber.symm.trans hn)
        omega
  · rintro ⟨name, hname, n, hn, hlast⟩
    refine ⟨name, ?_, n, hn, hlast⟩
    rcases List.mem_append.mp hname with hname | hname
    · exact List.mem_append_left _ hname
    · refine List.mem_append_right _ (mem_fill_of_mem hname ?_)
      rintro rfl
      contradiction

/-! ### Reading -/

/-- The delta that an answer spells out, before its unknowns are named. -/
def accept (text : String) (inst : Instruction) : Except OracleError Delta := do
  let d ← (Json.read? (String.ofList (stripFences text.toList))).elim (.error .notJson) decode
  check inst d
  return d

theorem parse_eq (text : String) (inst : Instruction) (s : State) :
    parse text inst s =
      (accept text inst >>= fun d => (nameDelta s.counter d).mapError .ofOverflow) := by
  unfold parse accept
  cases Json.read? (String.ofList (stripFences text.toList)) with
  | none => rfl
  | some j =>
    show (decode j >>= _) = ((decode j >>= _) >>= _)
    cases decode j with
    | error e => rfl
    | ok d =>
      show (check inst d >>= _) = ((check inst d >>= _) >>= _)
      cases check inst d with
      | error e => rfl
      | ok u =>
        show _ = (nameDelta s.counter d).mapError _
        rw [ok_bind]
        cases nameDelta s.counter d with
        | error e => rfl
        | ok d' => rfl

theorem decode_avoids (j : Json) : Avoids .overflow (decode j) := by
  unfold decode
  split_ifs
  · cases Delta.ofJson? j with
    | none => exact .error (by simp)
    | some d => exact .ok d
  · exact .error (by simp)

theorem check_avoids (inst : Instruction) (d : Delta) : Avoids .overflow (check inst d) := by
  unfold check
  cases d.newObjects.find? fun obj => obj.address.isEmpty with
  | none =>
    cases inst.result with
    | none => exact .ok ()
    | some reg =>
      dsimp only
      split_ifs
      · exact .ok ()
      · exact .error (by simp)
  | some obj =>
    cases inst.result with
    | none => exact .error (by simp)
    | some reg =>
      dsimp only
      split_ifs
      · exact .error (by simp)
      · exact .error (by simp)

theorem accept_avoids (text : String) (inst : Instruction) :
    Avoids .overflow (accept text inst) := by
  unfold accept
  refine .bind ?_ fun d => .bind (check_avoids inst d) fun _ => .ok d
  cases Json.read? (String.ofList (stripFences text.toList)) with
  | none => exact .error (by simp)
  | some j => exact decode_avoids j

variable {text : String} {inst : Instruction} {s : State}

theorem parse_eq_ok_iff :
    parse text inst s = .ok d' ↔
      ∃ d, accept text inst = .ok d ∧ nameDelta s.counter d = .ok d' := by
  rw [parse_eq, bind_eq_ok]
  exact exists_congr fun d => and_congr_right fun _ => mapError_eq_ok

theorem parse_eq_overflow_iff :
    parse text inst s = .error .overflow ↔
      ∃ d, accept text inst = .ok d ∧ nameDelta s.counter d = .error .overflow := by
  rw [parse_eq, (accept_avoids text inst).bind_eq_error_iff]
  refine exists_congr fun d => and_congr_right fun _ => ?_
  rw [mapError_eq_error]
  constructor
  · rintro ⟨⟨⟩, herror, -⟩
    exact herror
  · exact fun herror => ⟨.overflow, herror, rfl⟩

/-- **Which answers run out of numbers.** An answer overflows the numbers of identifiers while it is
read exactly if it is accepted and has not enough numbers for its unknowns without a name, and while
it is applied exactly if it is accepted, has enough, and one of its identifiers has the greatest
number. -/
theorem overflow_iff (text : String) (inst : Instruction) {s : State}
    (hs : s.counter < counterBound) :
    (parse text inst s = .error .overflow ↔
      ∃ d, accept text inst = .ok d ∧ d.Exhausts s.counter) ∧
    ((∃ d, parse text inst s = .ok d ∧ s.apply d = .error .overflow) ↔
      ∃ d, accept text inst = .ok d ∧ ¬ d.Exhausts s.counter ∧ d.NamesLast) := by
  refine ⟨?_, ?_, ?_⟩
  · rw [parse_eq_overflow_iff]
    exact exists_congr fun d => and_congr_right fun _ => nameDelta_eq_error_iff hs
  · rintro ⟨named, hparse, happly⟩
    obtain ⟨d, haccept, hname⟩ := parse_eq_ok_iff.mp hparse
    have hlast := (namesLast_of_nameDelta hs hname).mp ((State.apply_eq_error_iff hs).mp happly)
    refine ⟨d, haccept, fun hexhausts => ?_, hlast⟩
    rw [(nameDelta_eq_error_iff hs).mpr hexhausts] at hname
    cases hname
  · rintro ⟨d, haccept, hroom, hlast⟩
    cases hname : nameDelta s.counter d with
    | error e => exact absurd ((nameDelta_eq_error_iff hs).mp hname) hroom
    | ok named =>
      refine ⟨named, parse_eq_ok_iff.mpr ⟨d, haccept, hname⟩, ?_⟩
      exact (State.apply_eq_error_iff hs).mpr ((namesLast_of_nameDelta hs hname).mpr hlast)

/-- A call of something unknown. -/
def unknownCall : Instruction where
  opcode := .callUnknown
  result := some "%0"
  operands := [.text "ext"]

/-- An answer with a new object at the last address. -/
def lastAddressAnswer : String :=
  r#"{"register_writes": {"%0": null}, "# ++
    r#""new_objects": [{"addr": "obj_18446744073709551615"}]}"#

/-- The answer is read, but it cannot be applied. -/
theorem lastAddressAnswer_overflows :
    ({} : State).counter < counterBound ∧
      (∃ d, accept lastAddressAnswer unknownCall = .ok d ∧ ¬ d.Exhausts 0 ∧ d.NamesLast) ∧
      ∃ d, parse lastAddressAnswer unknownCall {} = .ok d ∧
        ({} : State).apply d = .error .overflow := by
  have hview : ((accept lastAddressAnswer unknownCall).toOption.map fun d =>
      decide (¬ d.Exhausts 0 ∧ d.NamesLast)) = some true := by
    decide +kernel
  obtain ⟨d, hd, hdecide⟩ := Option.map_eq_some_iff.mp hview
  have hs : ({} : State).counter < counterBound := by decide
  have hlast := of_decide_eq_true hdecide
  have haccept := toOption_eq_some hd
  exact ⟨hs, ⟨d, haccept, hlast⟩,
    (overflow_iff lastAddressAnswer unknownCall hs).2.mpr ⟨d, haccept, hlast⟩⟩

/-- An answer that writes an unknown with the last name. -/
def lastSymbolAnswer : String :=
  r#"{"register_writes": {"%0": {"__symbolic__": true, "name": "sym_18446744073709551615"}}}"#

/-- It has the shape of an answer, but reading it overflows. -/
theorem lastSymbolAnswer_overflows :
    (∃ d, accept lastSymbolAnswer unknownCall = .ok d) ∧
      parse lastSymbolAnswer unknownCall {} = .error .overflow := by
  have haccept : (accept lastSymbolAnswer unknownCall).toOption.isSome = true := by
    decide +kernel
  have hparse : failure? (parse lastSymbolAnswer unknownCall {}) = some .overflow := by
    decide +kernel
  obtain ⟨d, hd⟩ := Option.isSome_iff_exists.mp haccept
  exact ⟨⟨d, toOption_eq_some hd⟩, failure?_eq_some_iff.mp hparse⟩

end Response

end SymbolicVM
