import SymbolicVM.Proofs.Machine.Identifier
import SymbolicVM.Proofs.Oracle.Answers

/-!
# How an answer gets its names

The names of the unknowns in an answer form one list, from left to right. The first new number is
the least one that is not below the counter and above the numbers of all these names
(`Response.firstNumber_eq`, `Response.raises_above`). Naming the unknowns of an answer fills the
gaps in the list with the numbers from there on (`Response.fill`) and leaves the other identifiers
alone (`Response.nameDelta_takes`). It fails exactly if there are not enough numbers.
-/

namespace SymbolicVM

namespace Response

/-! ### Gaps -/

/-- The list of names with a new one in each gap, numbered upwards from `next`. -/
def fill (next : Nat) : List String → List String
  | [] => []
  | name :: names =>
    if name = "" then IdKind.symbol.name next :: fill (next + 1) names
    else name :: fill next names

/-- How many gaps there are in a list of names. -/
def gaps (names : List String) : Nat :=
  names.count ""

theorem gaps_cons_empty (names : List String) : gaps ("" :: names) = gaps names + 1 :=
  List.count_cons_self

theorem gaps_cons_of_ne {name : String} (h : name ≠ "") (names : List String) :
    gaps (name :: names) = gaps names :=
  List.count_cons_of_ne h

theorem gaps_append (as bs : List String) : gaps (as ++ bs) = gaps as + gaps bs :=
  List.count_append

theorem fill_append (next : Nat) (as bs : List String) :
    fill next (as ++ bs) = fill next as ++ fill (next + gaps as) bs := by
  induction as generalizing next with
  | nil => rfl
  | cons name names ih =>
    rw [List.cons_append, fill, fill]
    split_ifs with hname
    · rw [ih, hname, gaps_cons_empty, List.cons_append, Nat.add_right_comm next 1, Nat.add_assoc]
    · rw [ih, gaps_cons_of_ne hname, List.cons_append]

/-- A filled list has the names that were there, and names with the numbers that were taken. -/
theorem of_mem_fill {next : Nat} {names : List String} {name : String}
    (h : name ∈ fill next names) :
    name ∈ names ∨ ∃ n, next ≤ n ∧ n < next + gaps names ∧ name = IdKind.symbol.name n := by
  induction names generalizing next with
  | nil => exact absurd h List.not_mem_nil
  | cons first names ih =>
    rw [fill] at h
    split_ifs at h with hfirst
    · rw [hfirst, gaps_cons_empty]
      rcases List.mem_cons.mp h with rfl | h
      · exact .inr ⟨next, Nat.le_refl _, by omega, rfl⟩
      · rcases ih h with hmem | ⟨n, hle, hlt, rfl⟩
        · exact .inl (List.mem_cons_of_mem _ hmem)
        · exact .inr ⟨n, by omega, by omega, rfl⟩
    · rw [gaps_cons_of_ne hfirst]
      rcases List.mem_cons.mp h with rfl | h
      · exact .inl List.mem_cons_self
      · rcases ih h with hmem | htaken
        · exact .inl (List.mem_cons_of_mem _ hmem)
        · exact .inr htaken

theorem mem_fill_of_mem {next : Nat} {names : List String} {name : String} (h : name ∈ names)
    (hname : name ≠ "") : name ∈ fill next names := by
  obtain ⟨before, after, rfl⟩ := List.append_of_mem h
  rw [fill_append, fill, if_neg hname]
  exact List.mem_append_right _ List.mem_cons_self

/-! ### Computations that take numbers -/

/-- The numbers from `next` on suffice for `k` names. A number is taken only if it has a
successor. -/
def Room (next k : Nat) : Prop :=
  k = 0 ∨ next + k < counterBound

theorem room_add {next k l : Nat} : Room next (k + l) ↔ Room next k ∧ Room (next + k) l := by
  unfold Room
  omega

variable {α β γ : Type}

/-- The computation takes `k` numbers from `next` on, and its result has the property. It fails
exactly if there are not so many. -/
def Takes (next k : Nat) (P : α → Prop) (x : Except Overflow α) : Prop :=
  (Room next k ∧ ∃ a, x = .ok a ∧ P a) ∨ (¬ Room next k ∧ x = .error .overflow)

namespace Takes

variable {next k l : Nat} {P : α → Prop} {Q : β → Prop} {x : Except Overflow α}

theorem ok {a : α} (h : P a) : Takes next 0 P (.ok a) :=
  .inl ⟨.inl rfl, a, rfl, h⟩

theorem bind {f : α → Except Overflow β} (hx : Takes next k P x)
    (hf : ∀ a, P a → Takes (next + k) l Q (f a)) : Takes next (k + l) Q (x >>= f) := by
  rcases hx with ⟨hroom, a, rfl, ha⟩ | ⟨hfull, rfl⟩
  · rcases hf a ha with ⟨hroom', b, hb, hQ⟩ | ⟨hfull, hb⟩
    · exact .inl ⟨room_add.mpr ⟨hroom, hroom'⟩, b, hb, hQ⟩
    · exact .inr ⟨fun h => hfull (room_add.mp h).2, hb⟩
  · exact .inr ⟨fun h => hfull (room_add.mp h).1, rfl⟩

theorem map {f : α → β} (hx : Takes next k P x) (hf : ∀ a, x = .ok a → P a → Q (f a)) :
    Takes next k Q (x.map f) := by
  rcases hx with ⟨hroom, a, rfl, ha⟩ | ⟨hfull, rfl⟩
  · exact .inl ⟨hroom, f a, rfl, hf a rfl ha⟩
  · exact .inr ⟨hfull, rfl⟩

end Takes

theorem nextNumber_takes (next : Nat) : Takes next 1 (· = next + 1) (nextNumber next) := by
  unfold nextNumber
  split_ifs with hlt
  · exact .inl ⟨.inr hlt, next + 1, rfl, rfl⟩
  · refine .inr ⟨fun hroom => ?_, rfl⟩
    rcases hroom with hzero | hroom
    · contradiction
    · exact hlt hroom

/-- The computation fills the gaps in a list of names from `next` on. It returns something with the
filled names, and the next number. -/
def Fills (view : α → List String) (names : List String) (next : Nat)
    (x : Except Overflow (α × Nat)) : Prop :=
  Takes next (gaps names) (fun r => view r.1 = fill next names ∧ r.2 = next + gaps names) x

namespace Fills

variable {view : α → List String} {view' : β → List String} {view'' : γ → List String}
  {names names' : List String} {next : Nat} {x : Except Overflow (α × Nat)}

theorem nil {a : α} (h : view a = []) : Fills view [] next (.ok (a, next)) :=
  Takes.ok ⟨h, rfl⟩

theorem map {f : α → β} (hx : Fills view names next x)
    (hf : ∀ a n, x = .ok (a, n) → view' (f a) = view a) :
    Fills view' names next (x.map fun r => (f r.1, r.2)) := by
  refine Takes.map hx ?_
  rintro ⟨a, n⟩ ha ⟨hnames, hnext⟩
  exact ⟨(hf a n ha).trans hnames, hnext⟩

/-- What two computations fill one after the other is filled together. -/
theorem append {y : Nat → Except Overflow (β × Nat)} (pair : α → β → γ)
    (hx : Fills view names next x) (hy : ∀ n, Fills view' names' n (y n))
    (hpair : ∀ a b, view'' (pair a b) = view a ++ view' b) :
    Fills view'' (names ++ names') next
      (x >>= fun r => y r.2 >>= fun q => .ok (pair r.1 q.1, q.2)) := by
  unfold Fills
  rw [gaps_append]
  refine Takes.bind hx ?_
  rintro ⟨a, n⟩ ⟨hnames, rfl⟩
  refine Takes.bind (l := 0) (hy _) ?_
  rintro ⟨b, m⟩ ⟨hnames', rfl⟩
  refine Takes.ok ⟨?_, ?_⟩
  · rw [hpair, hnames, hnames', fill_append]
  · dsimp only
    omega

end Fills

/-! ### Values -/

mutual

theorem nameValue_fills (next : Nat) :
    ∀ v : Value, Fills Value.symbolicNames v.symbolicNames next (nameValue next v)
  | .null | .bool _ | .int _ | .float _ | .str _ => .nil rfl
  | .symbolic x => by
    rw [Value.symbolicNames_symbolic, nameValue]
    by_cases hname : x.name = ""
    · have hempty : x.name.isEmpty = true := by rw [hname]; rfl
      rw [if_pos hempty, hname]
      exact (nextNumber_takes next).map fun after _ hafter =>
        ⟨Value.symbolicNames_symbolic _, hafter⟩
    · have hempty : x.name.isEmpty = false := by simpa [String.isEmpty_iff] using hname
      rw [if_neg (by simp [hempty])]
      have hgaps : gaps [x.name] = 0 := gaps_cons_of_ne hname []
      have hfill : fill next [x.name] = [x.name] := by
        rw [fill, if_neg hname]
        rfl
      unfold Fills
      rw [hgaps, hfill]
      exact .ok ⟨Value.symbolicNames_symbolic x, rfl⟩
  | .list items => by
    rw [nameValue, Value.symbolicNames_list]
    exact (nameItems_fills next items).map fun items _ _ => Value.symbolicNames_list items
  | .map entries => by
    rw [nameValue, Value.symbolicNames_map]
    exact (nameEntries_fills next entries).map fun entries _ _ => Value.symbolicNames_map entries

theorem nameItems_fills (next : Nat) : ∀ items : List Value,
    Fills (List.flatMap Value.symbolicNames) (items.flatMap Value.symbolicNames) next
      (nameItems next items)
  | [] => .nil rfl
  | v :: vs => by
    rw [nameItems, List.flatMap_cons]
    exact (nameValue_fills next v).append List.cons (fun n => nameItems_fills n vs)
      fun _ _ => List.flatMap_cons

theorem nameEntries_fills (next : Nat) : ∀ entries : List (String × Value),
    Fills (List.flatMap fun e => e.2.symbolicNames) (entries.flatMap fun e => e.2.symbolicNames)
      next (nameEntries next entries)
  | [] => .nil rfl
  | (k, v) :: es => by
    rw [nameEntries, List.flatMap_cons]
    exact (nameValue_fills next v).append (fun v es => (k, v) :: es)
      (fun n => nameEntries_fills n es) fun _ _ => List.flatMap_cons

end

/-! ### The parts of a delta -/

/-- The names of the unknowns in a list of values. -/
def namesIn (values : List Value) : List String :=
  values.flatMap Value.symbolicNames

theorem nameDict_fills (next : Nat) (d : Dict Value) :
    Fills (fun d => namesIn d.values) (namesIn d.values) next (nameDict next d) := by
  have hnames : ∀ es : List (String × Value),
      namesIn (es.map (·.2)) = es.flatMap fun e => e.2.symbolicNames :=
    fun es => List.flatMap_map ..
  have hvalues : namesIn d.values = d.entries.flatMap fun e => e.2.symbolicNames := hnames d.entries
  rw [hvalues]
  refine (nameEntries_fills next d.entries).map fun es n hes => ?_
  rw [Dict.values, entries_ofList_of_nameEntries hes, hnames]

theorem nameHeapWrites_fills (next : Nat) (ws : List HeapWrite) :
    Fills (fun ws => namesIn (ws.map (·.value))) (namesIn (ws.map (·.value))) next
      (nameHeapWrites next ws) := by
  induction ws generalizing next with
  | nil => exact .nil rfl
  | cons w ws ih =>
    have hcons : ∀ (w : HeapWrite) (ws : List HeapWrite), namesIn ((w :: ws).map (·.value)) =
        w.value.symbolicNames ++ namesIn (ws.map (·.value)) := fun _ _ => List.flatMap_cons
    rw [nameHeapWrites, hcons]
    refine (nameValue_fills next w.value).append (fun v ws => { w with value := v } :: ws) ih ?_
    exact fun v ws => hcons { w with value := v } ws

theorem nameOption_fills (next : Nat) (o : Option Value) :
    Fills (fun o => namesIn o.toList) (namesIn o.toList) next (nameOption next o) := by
  cases o with
  | none => exact .nil rfl
  | some v =>
    have hsingle : ∀ v : Value, namesIn (some v).toList = v.symbolicNames := by
      simp [namesIn]
    rw [hsingle, nameOption]
    exact (nameValue_fills next v).map fun v _ _ => hsingle v

/-- The values that a new environment binds. -/
def boundValues (o : Option NewClosure) : List Value :=
  o.toList.flatMap fun c => c.bindings.values

theorem nameClosure_takes (next : Nat) (o : Option NewClosure) :
    Takes next (gaps (namesIn (boundValues o)))
      (fun o' => namesIn (boundValues o') = fill next (namesIn (boundValues o)) ∧
        o'.map (·.id) = o.map (·.id)) (nameClosure next o) := by
  cases o with
  | none => exact .ok ⟨rfl, rfl⟩
  | some c =>
    have hsingle : ∀ c : NewClosure, boundValues (some c) = c.bindings.values := by
      simp [boundValues]
    rw [hsingle, nameClosure]
    refine Takes.map (nameDict_fills next c.bindings) fun r _ hr => ⟨?_, rfl⟩
    rw [hsingle]
    exact hr.1

/-- The unknowns that a delta writes are those of its values. -/
theorem namesIn_writtenValues (d : Delta) : namesIn d.writtenValues = d.symbolNames := by
  unfold namesIn Delta.symbolNames
  rw [funext Value.symbolicNames_eq]

theorem symbolNames_eq (d : Delta) :
    d.symbolNames = namesIn d.registerWrites.values ++ (namesIn d.varWrites.values ++
      (namesIn (d.heapWrites.map (·.value)) ++ (namesIn d.returnValue.toList ++
        namesIn (boundValues d.newClosure)))) := by
  have hvalues : d.writtenValues = d.registerWrites.values ++ (d.varWrites.values ++
      (d.heapWrites.map (·.value) ++ (d.returnValue.toList ++ boundValues d.newClosure))) := by
    unfold Delta.writtenValues boundValues
    cases d.newClosure with
    | none => simp
    | some c => simp
  rw [← namesIn_writtenValues, hvalues]
  simp only [namesIn, List.flatMap_append]

/-! ### The first number -/

/-- The first number is the counter, raised above the names of all unknowns. -/
theorem firstNumber_eq (counter : Nat) (values : List Value) :
    firstNumber counter values = (namesIn values).foldlM above counter := by
  unfold firstNumber namesIn
  rw [State.foldlM_flatMap]

theorem raises_above : State.Raises IdKind.symbol.number? above where
  least {c c' name} h := by
    unfold above at h
    cases hn : IdKind.symbol.number? name with
    | none =>
      rw [hn] at h
      obtain rfl := Except.ok.inj h
      simp
    | some n =>
      rw [hn] at h
      obtain ⟨m, hm, rfl⟩ := map_eq_ok.mp h
      obtain ⟨rfl, -⟩ := State.nextNumber_eq_ok hm
      refine ⟨Nat.le_max_left _ _, ?_, ?_⟩
      · rintro k hk
        obtain rfl := Option.some.inj hk
        exact Nat.le_max_right _ _
      · rcases Nat.le_total c (n + 1) with hle | hle
        · exact .inr ⟨n, rfl, Nat.max_eq_right hle⟩
        · exact .inl (Nat.max_eq_left hle)
  bounded {c c' name} hc h := by
    unfold above at h
    cases hn : IdKind.symbol.number? name with
    | none =>
      rw [hn] at h
      rwa [← Except.ok.inj h]
    | some n =>
      rw [hn] at h
      obtain ⟨m, hm, rfl⟩ := map_eq_ok.mp h
      obtain ⟨rfl, hroom⟩ := State.nextNumber_eq_ok hm
      exact Nat.max_lt.mpr ⟨hc, hroom⟩
  total c name h := by
    unfold above nextNumber
    cases hn : IdKind.symbol.number? name with
    | none => exact ⟨c, rfl⟩
    | some n =>
      dsimp only
      rw [if_pos (h n hn)]
      exact ⟨_, rfl⟩

/-! ### Whole deltas -/

/-- **Naming the unknowns of a delta fills the gaps in its list of names** and leaves the other
identifiers alone. It fails exactly if there are not enough numbers. -/
theorem nameDelta_takes {counter first : Nat} {d : Delta}
    (hfirst : firstNumber counter d.writtenValues = .ok first) :
    Takes first (gaps d.symbolNames)
      (fun d' => d'.symbolNames = fill first d.symbolNames ∧ d'.allocations = d.allocations)
      (nameDelta counter d) := by
  rw [symbolNames_eq d, nameDelta, hfirst, ok_bind]
  simp only [gaps_append, fill_append]
  refine Takes.bind (nameDict_fills first d.registerWrites) ?_
  rintro ⟨registers, n₁⟩ ⟨hregisters, rfl⟩
  refine Takes.bind (nameDict_fills _ d.varWrites) ?_
  rintro ⟨vars, n₂⟩ ⟨hvars, rfl⟩
  refine Takes.bind (nameHeapWrites_fills _ d.heapWrites) ?_
  rintro ⟨writes, n₃⟩ ⟨hwrites, rfl⟩
  refine Takes.bind (nameOption_fills _ d.returnValue) ?_
  rintro ⟨value, n₄⟩ ⟨hvalue, rfl⟩
  refine Takes.map (nameClosure_takes _ d.newClosure) ?_
  rintro closure - ⟨hclosure, hid⟩
  dsimp only at hregisters hvars hwrites hvalue
  refine ⟨?_, ?_⟩
  · rw [symbolNames_eq, hregisters, hvars, hwrites, hvalue, hclosure]
  · unfold Delta.allocations
    rw [← Option.toList_map, ← Option.toList_map, hid]

/-- A delta whose unknowns are named had its gaps filled from the first number on. -/
theorem nameDelta_eq_ok {counter : Nat} {d d' : Delta} (h : nameDelta counter d = .ok d') :
    ∃ first, d.symbolNames.foldlM above counter = .ok first ∧ Room first (gaps d.symbolNames) ∧
      d'.symbolNames = fill first d.symbolNames ∧ d'.allocations = d.allocations := by
  obtain ⟨first, hfirst, -⟩ := bind_eq_ok.mp h
  have htakes := nameDelta_takes hfirst
  rw [firstNumber_eq, namesIn_writtenValues] at hfirst
  rw [h] at htakes
  rcases htakes with ⟨hroom, named, hok, hnames, hallocations⟩ | ⟨-, herror⟩
  · obtain rfl := Except.ok.inj hok
    exact ⟨first, hfirst, hroom, hnames, hallocations⟩
  · cases herror

end Response

end SymbolicVM
