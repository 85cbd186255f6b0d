import SymbolicVM.Proofs.FlowGraph.Labels
import SymbolicVM.Proofs.Registry

/-!
# The scan for methods

The scan goes through a program and keeps the class whose region is open, and the methods found so
far. One step does little: a label may open or close a region (`Registry.Scan.current_step`), and a
literal declares a method for the class that is open (`Registry.Scan.method?_step`). So after the
whole scan the last label decides which region is open (`Registry.openAt?_eq_some_iff`), and the
last literal which label a method has (`Registry.method?_build_eq_some_iff`).
-/

namespace SymbolicVM

/-- **A value that is overwritten from time to time is that of the last update.** -/
theorem eq_iff_last_update {γ : Type} {view : Nat → γ} {update : Nat → Option γ}
    (hstep : ∀ n, view (n + 1) = (update n).getD (view n)) {value : γ} (hstart : view 0 ≠ value)
    (n : Nat) :
    view n = value ↔
      ∃ i < n, update i = some value ∧ ∀ j, i < j → j < n → update j = none := by
  induction n with
  | zero =>
    refine iff_of_false hstart ?_
    rintro ⟨i, hi, -⟩
    exact absurd hi (Nat.not_lt_zero i)
  | succ n ih =>
    rw [hstep]
    cases hupdate : update n with
    | some new =>
      rw [Option.getD_some]
      constructor
      · rintro rfl
        exact ⟨n, Nat.lt_succ_self n, hupdate, fun j hj hjn => absurd hj (by omega)⟩
      · rintro ⟨i, hi, hvalue, hlast⟩
        -- an earlier update would not be the last one
        have hin : i = n := by
          by_contra hne
          rw [hlast n (by omega) (by omega)] at hupdate
          cases hupdate
        rw [hin, hupdate] at hvalue
        exact Option.some.inj hvalue
    | none =>
      rw [Option.getD_none, ih]
      constructor
      · rintro ⟨i, hi, hvalue, hlast⟩
        refine ⟨i, by omega, hvalue, fun j hj hjn => ?_⟩
        by_cases hlt : j < n
        · exact hlast j hj hlt
        · rw [show j = n by omega]
          exact hupdate
      · rintro ⟨i, hi, hvalue, hlast⟩
        have hne : i ≠ n := by
          rintro rfl
          rw [hupdate] at hvalue
          cases hvalue
        exact ⟨i, by omega, hvalue, fun j hj hjn => hlast j hj (by omega)⟩

namespace Registry

variable {insts : List Instruction} {classes : Dict String} {cls label : String} {p : Nat}

/-! ### Labels and literals -/

/-- The name of the label at a position. -/
def labelAt? (insts : List Instruction) (p : Nat) : Option String :=
  insts[p]?.bind FlowGraph.labelName?

/-- The function reference in the literal of an instruction. -/
def functionOf? (inst : Instruction) : Option FunctionRef :=
  (literalText? inst).bind FunctionRef.parse?

/-- The function reference in the literal at a position. -/
def functionAt? (insts : List Instruction) (p : Nat) : Option FunctionRef :=
  insts[p]?.bind functionOf?

theorem lt_length_of_labelAt? (h : labelAt? insts p = some label) : p < insts.length := by
  obtain ⟨inst, hinst, -⟩ := Option.bind_eq_some_iff.mp h
  exact (List.getElem?_eq_some_iff.mp hinst).1

/-! ### Labels of classes -/

theorem exists_classOfLabel? (h : classes.get? cls = some label) :
    ∃ name, classOfLabel? classes label = some name := by
  cases hfound : classOfLabel? classes label with
  | some name => exact ⟨name, rfl⟩
  | none =>
    have hmem := (Entries.get?_eq_some_iff classes.ascending).mp h
    have hnone := List.find?_eq_none.mp (Option.map_eq_none_iff.mp hfound) _ hmem
    simp at hnone

/-- The class of a label is the first one, by name, whose body begins with the label. -/
theorem classOfLabel?_eq_some_iff :
    classOfLabel? classes label = some cls ↔
      classes.get? cls = some label ∧ ∀ other, classes.get? other = some label → ¬ other < cls := by
  have hmem {name : String} : classes.get? name = some label ↔ (name, label) ∈ classes.entries :=
    Entries.get?_eq_some_iff classes.ascending
  have hfirst {name : String} (h : classOfLabel? classes label = some name) :
      classes.get? name = some label ∧
        ∀ other, classes.get? other = some label → ¬ other < name := by
    obtain ⟨e, hfind, rfl⟩ := Option.map_eq_some_iff.mp h
    obtain ⟨hlabel, before, after, hentries, hbefore⟩ := List.find?_eq_some_iff_append.mp hfind
    obtain rfl : e.2 = label := by simpa using hlabel
    refine ⟨hmem.mpr (List.mem_of_find?_eq_some hfind), fun other hother => ?_⟩
    have hascending := classes.ascending
    rw [Entries.Ascending, hentries, List.pairwise_append, List.pairwise_cons] at hascending
    -- what has the label does not stand before the first such entry
    have hplace := hmem.mp hother
    rw [hentries, List.mem_append, List.mem_cons] at hplace
    rcases hplace with hearlier | hsame | hlater
    · have hnot := hbefore _ hearlier
      simp at hnot
    · rw [← congrArg Prod.fst hsame]
      exact String.lt_irrefl _
    · intro hlt
      exact String.lt_irrefl _ (String.lt_trans hlt (hascending.2.1.1 _ hlater))
  refine ⟨hfirst, fun h => ?_⟩
  obtain ⟨name, hfound⟩ := exists_classOfLabel? h.1
  obtain ⟨hname, hleast⟩ := hfirst hfound
  rcases Std.lt_trichotomy name cls with hlt | heq | hgt
  · exact absurd hlt (h.2 name hname)
  · rw [hfound, heq]
  · exact absurd hgt (hleast cls h.1)

/-- What a label does to the scan: it opens the region of a class, or closes the one that is open,
or neither. -/
def turn? (classes : Dict String) (label : String) : Option (Option String) :=
  if Text.startsWith "end_class_" label then some none
  else if Text.startsWith "class_" label then (classOfLabel? classes label).map some
  else none

/-- A label does not both open and close. -/
theorem startsWith_end_of_class (h : Text.startsWith "class_" label = true) :
    Text.startsWith "end_class_" label = false := by
  unfold Text.startsWith at h ⊢
  cases hchars : label.toList with
  | nil => rfl
  | cons c cs =>
    rw [hchars] at h
    have hc : 'c' = c := by
      have := (List.cons_prefix_cons.mp (List.isPrefixOf_iff_prefix.mp h)).1
      exact this
    rw [← hc]
    rfl

theorem startsWith_end_append (h : Text.startsWith "class_" label = true) :
    Text.startsWith "end_class_" ("end_" ++ label) = true := by
  unfold Text.startsWith at h ⊢
  rw [List.isPrefixOf_iff_prefix] at h ⊢
  obtain ⟨rest, hrest⟩ := h
  refine ⟨rest, ?_⟩
  rw [String.toList_append, ← hrest]
  simp

theorem turn?_eq_open :
    turn? classes label = some (some cls) ↔
      Text.startsWith "class_" label = true ∧ classOfLabel? classes label = some cls := by
  unfold turn?
  by_cases hclass : Text.startsWith "class_" label = true
  · rw [startsWith_end_of_class hclass]
    simp [hclass]
  · simp [hclass]

/-! ### One step of the scan -/

namespace Scan

variable (scan : Scan) (inst : Instruction)

/-- The label of a method of a class, as far as it is known. -/
def method? (scan : Scan) (cls m : String) : Option String :=
  (scan.methods.get? cls).bind fun ms => ms.get? m

/-- The method that an instruction declares while a class is open: the label of the function
literal, if it has the name that is asked for. -/
def declared? (current : Option String) (inst : Instruction) (cls m : String) : Option String :=
  ((functionOf? inst).filter fun f => current == some cls && f.name == m).map (·.label)

/-- Only labels open and close regions. -/
theorem current_step (classes : Dict String) :
    (scan.step classes inst).current =
      ((FlowGraph.labelName? inst).bind (turn? classes)).getD scan.current := by
  unfold step
  dsimp only
  split
  · rename_i label hopcode hlabel
    have hlabelName : FlowGraph.labelName? inst = some label := by
      simp [FlowGraph.labelName?, Instruction.isLabel, hopcode, hlabel]
    rw [hlabelName, Option.bind_some]
    unfold turn?
    split_ifs
    · rfl
    · cases classOfLabel? classes label <;> rfl
    · rfl
  · rename_i hother
    have hlabelName : FlowGraph.labelName? inst = none := by
      unfold FlowGraph.labelName? Instruction.isLabel
      split_ifs with hlabel
      · cases hname : inst.label with
        | none => rfl
        | some label => exact absurd hname (hother label (by simpa using hlabel))
      · rfl
    rw [hlabelName]
    split <;> rfl

/-- The methods of a class that is not known yet are none. -/
theorem method?_eq (cls m : String) :
    scan.method? cls m = ((scan.methods.get? cls).getD .empty).get? m := by
  unfold method?
  cases scan.methods.get? cls <;> rfl

theorem method?_insert (current : Option String) (opened : String) (ms : Dict String)
    (cls m : String) :
    (⟨current, scan.methods.insert opened ms⟩ : Scan).method? cls m =
      if opened = cls then ms.get? m else scan.method? cls m := by
  unfold method?
  rw [Dict.get?_insert]
  split_ifs <;> rfl

/-- Only literals declare methods, each for the class that is open. -/
theorem method?_step (classes : Dict String) (cls m : String) :
    (scan.step classes inst).method? cls m =
      (declared? scan.current inst cls m).or (scan.method? cls m) := by
  unfold step declared? functionOf?
  dsimp only
  split
  · rename_i label hopcode hlabel
    have hliteral : literalText? inst = none := by simp [literalText?, hopcode]
    rw [hliteral, Option.bind_none, Option.filter_none, Option.map_none, Option.none_or]
    split_ifs
    · rfl
    · cases classOfLabel? classes label with
      | none => rfl
      | some opened =>
        -- the methods of the class are entered again as they are
        dsimp only
        rw [method?_insert, ← method?_eq]
        split_ifs with heq
        · rw [heq]
        · rfl
    · rfl
  · cases hcurrent : scan.current with
    | none =>
      cases (literalText? inst).bind FunctionRef.parse? <;> rfl
    | some opened =>
      cases (literalText? inst).bind FunctionRef.parse? with
      | none => rfl
      | some f =>
        dsimp only
        rw [← hcurrent, method?_insert, Dict.get?_insert, ← method?_eq, hcurrent]
        by_cases hcls : opened = cls
        · by_cases hname : f.name = m
          · simp [hcls, hname, Option.filter]
          · simp [hcls, hname, Option.filter]
        · simp [hcls, Option.filter]

end Scan

/-! ### The whole scan -/

/-- The scan before a position. -/
def scanUpTo (insts : List Instruction) (n : Nat) : Scan :=
  (insts.take n).foldl (Scan.step (scanClasses insts)) {}

/-- The region that is open before a position. -/
def openAt? (insts : List Instruction) (n : Nat) : Option String :=
  (scanUpTo insts n).current

/-- What the label at a position does to the scan. -/
def turnAt? (insts : List Instruction) (p : Nat) : Option (Option String) :=
  (labelAt? insts p).bind (turn? (scanClasses insts))

/-- The method that the literal at a position declares. -/
def declaredAt? (insts : List Instruction) (cls m : String) (p : Nat) : Option String :=
  ((functionAt? insts p).filter fun f => openAt? insts p == some cls && f.name == m).map (·.label)

theorem scanUpTo_succ (insts : List Instruction) (n : Nat) :
    scanUpTo insts (n + 1) =
      insts[n]?.elim (scanUpTo insts n) ((scanUpTo insts n).step (scanClasses insts)) := by
  unfold scanUpTo
  rw [List.take_add_one, List.foldl_append]
  cases insts[n]? <;> rfl

theorem openAt?_succ (insts : List Instruction) (n : Nat) :
    openAt? insts (n + 1) = (turnAt? insts n).getD (openAt? insts n) := by
  unfold openAt? turnAt? labelAt?
  rw [scanUpTo_succ]
  cases insts[n]? with
  | none => rfl
  | some inst => exact Scan.current_step _ _ _

theorem method?_scanUpTo_succ (insts : List Instruction) (cls m : String) (n : Nat) :
    (scanUpTo insts (n + 1)).method? cls m =
      ((declaredAt? insts cls m n).map some).getD ((scanUpTo insts n).method? cls m) := by
  have hor (x y : Option String) : (x.map some).getD y = x.or y := by cases x <;> rfl
  unfold declaredAt? functionAt? openAt?
  rw [hor, scanUpTo_succ]
  cases insts[n]? with
  | none => rfl
  | some inst => exact Scan.method?_step _ _ _ _ _

/-- **Which region is open** is decided by the last label of a class. -/
theorem openAt?_eq_some_iff (insts : List Instruction) (cls : String) (n : Nat) :
    openAt? insts n = some cls ↔
      ∃ p < n, turnAt? insts p = some (some cls) ∧
        ∀ q, p < q → q < n → turnAt? insts q = none :=
  eq_iff_last_update (openAt?_succ insts) (by simp [openAt?, scanUpTo]) n

/-- **Which label a method has** is decided by the last literal that declares it. -/
theorem method?_build_eq_some_iff (insts : List Instruction) (g : FlowGraph)
    (cls m label : String) :
    (build insts g).method? cls m = some label ↔
      ∃ i < insts.length, declaredAt? insts cls m i = some label ∧
        ∀ j, i < j → j < insts.length → declaredAt? insts cls m j = none := by
  have hbuild : (build insts g).method? cls m =
      (scanUpTo insts insts.length).method? cls m := by
    unfold scanUpTo
    rw [List.take_length]
    rfl
  have hlast := @eq_iff_last_update _ (fun n => (scanUpTo insts n).method? cls m) _
    (method?_scanUpTo_succ insts cls m) (some label) (by simp [scanUpTo, Scan.method?]) insts.length
  rw [hbuild, hlast]
  simp only [Option.map_eq_some_iff, Option.map_eq_none_iff, Option.some.injEq, exists_eq_right]

end Registry

end SymbolicVM
