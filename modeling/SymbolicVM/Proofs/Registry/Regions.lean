import SymbolicVM.Proofs.Registry.Scan
import Mathlib.Data.Nat.Find

/-!
# Which literals are methods of a class

The region of a class reaches from the label of its body to the label that ends this class
(`Registry.regions`). A function literal should be a method of the class in whose region it stands
and in no smaller one (`Registry.Innermost`). The scan for methods keeps one class at a time: a
label of a class body sets it, and the end of any class clears it, that of a nested class too. So a
literal counts for its innermost class exactly if no class ends between the beginning of the region
and the literal (`Registry.Declares`), and outside of all regions nothing counts
(`Registry.methods_declared`).
-/

namespace SymbolicVM

namespace Registry

variable {insts : List Instruction} {cls label : String} {p i : Nat}

/-! ### Regions -/

/-- A label at the position ends a class, whichever. -/
def ClassEndAt (insts : List Instruction) (p : Nat) : Prop :=
  ∃ label, labelAt? insts p = some label ∧ Text.startsWith "end_class_" label = true

/-- The part of a program that belongs to a class, between two positions. -/
@[ext]
structure Region where
  cls : String
  /-- The position of the label of the class's body. -/
  first : Nat
  /-- The position of the label that ends the class. -/
  last : Nat
deriving DecidableEq

namespace Region

/-- The position lies in the region. -/
def Holds (r : Region) (p : Nat) : Prop :=
  r.first < p ∧ p < r.last

/-- The regions have no position in common. -/
def Apart (r r' : Region) : Prop :=
  r.last ≤ r'.first ∨ r'.last ≤ r.first

/-- The one region lies in the other. -/
def Within (r outer : Region) : Prop :=
  outer.first ≤ r.first ∧ r.last ≤ outer.last

instance (r : Region) (p : Nat) : Decidable (r.Holds p) :=
  inferInstanceAs (Decidable (_ ∧ _))

instance (r r' : Region) : Decidable (r.Apart r') :=
  inferInstanceAs (Decidable (_ ∨ _))

instance (r r' : Region) : Decidable (r.Within r') :=
  inferInstanceAs (Decidable (_ ∧ _))

end Region

/-- Where the class whose body begins with a label at a position ends: at its own end label, or with
the program if it has none. -/
def regionEnd (insts : List Instruction) (body : String) (first : Nat) : Nat :=
  ((List.range insts.length).find? fun p =>
    first < p && labelAt? insts p == some ("end_" ++ body)).getD insts.length

/-- The regions of the classes of a program whose bodies begin with a class label. -/
def regions (insts : List Instruction) : List Region :=
  ((scanClasses insts).entries.filter fun e => Text.startsWith "class_" e.2).flatMap fun e =>
    ((List.range insts.length).filter fun p => labelAt? insts p == some e.2).map fun p =>
      ⟨e.1, p, regionEnd insts e.2 p⟩

/-- Of two regions, one lies in the other, or they have no position in common. -/
def ProperlyNested (insts : List Instruction) : Prop :=
  ∀ r ∈ regions insts, ∀ r' ∈ regions insts, r.Apart r' ∨ r.Within r' ∨ r'.Within r

instance (insts : List Instruction) : Decidable (ProperlyNested insts) :=
  inferInstanceAs (Decidable (∀ r ∈ regions insts, ∀ r' ∈ regions insts, _))

/-- The region holds the position, and no region nested in it does. -/
structure Innermost (insts : List Instruction) (r : Region) (p : Nat) : Prop where
  region : r ∈ regions insts
  holds : r.Holds p
  inner : ∀ r' ∈ regions insts, r.first < r'.first → r'.last ≤ r.last → ¬ r'.Holds p

variable {r : Region}

theorem mem_regions :
    r ∈ regions insts ↔ ∃ body, (scanClasses insts).get? r.cls = some body ∧
      Text.startsWith "class_" body = true ∧ labelAt? insts r.first = some body ∧
      r.last = regionEnd insts body r.first := by
  unfold regions
  simp only [List.mem_flatMap, List.mem_filter, List.mem_map, List.mem_range, beq_iff_eq]
  constructor
  · rintro ⟨e, ⟨he, hbody⟩, p, ⟨-, hlabel⟩, rfl⟩
    exact ⟨e.2, (Entries.get?_eq_some_iff (scanClasses insts).ascending).mpr he, hbody, hlabel, rfl⟩
  · rintro ⟨body, hget, hbody, hlabel, hlast⟩
    refine ⟨(r.cls, body), ⟨Entries.mem_of_get? hget, hbody⟩, r.first,
      ⟨lt_length_of_labelAt? hlabel, hlabel⟩, ?_⟩
    rw [← hlast]

/-- A region ends with the program or at a label that ends its class. -/
theorem regionEnd_cases (insts : List Instruction) (body : String) (first : Nat) :
    regionEnd insts body first = insts.length ∨
      (first < regionEnd insts body first ∧
        labelAt? insts (regionEnd insts body first) = some ("end_" ++ body)) := by
  unfold regionEnd
  cases hfind : (List.range insts.length).find? fun p =>
      first < p && labelAt? insts p == some ("end_" ++ body) with
  | none => exact .inl rfl
  | some p =>
    have hp := List.find?_some hfind
    rw [Bool.and_eq_true, decide_eq_true_eq, beq_iff_eq] at hp
    exact .inr hp

/-! ### Regions that are open -/

theorem turnAt?_eq_open :
    turnAt? insts p = some (some cls) ↔
      ∃ body, labelAt? insts p = some body ∧ Text.startsWith "class_" body = true ∧
        classOfLabel? (scanClasses insts) body = some cls := by
  unfold turnAt?
  simp only [Option.bind_eq_some_iff, turn?_eq_open]

/-- A region begins where the first of its classes, by name, is opened. -/
theorem turnAt?_first (hr : r ∈ regions insts)
    (hleast : ∀ other ∈ regions insts, other.first = r.first → ¬ other.cls < r.cls) :
    turnAt? insts r.first = some (some r.cls) := by
  obtain ⟨body, hget, hbody, hlabel, -⟩ := mem_regions.mp hr
  refine turnAt?_eq_open.mpr ⟨body, hlabel, hbody, classOfLabel?_eq_some_iff.mpr ⟨hget, ?_⟩⟩
  intro other hother
  exact hleast ⟨other, r.first, regionEnd insts body r.first⟩
    (mem_regions.mpr ⟨body, hother, hbody, hlabel, rfl⟩) rfl

/-- Where a class is opened, its region begins, and the class is the first one, by name, that has a
region there. -/
theorem exists_region_of_open (h : turnAt? insts p = some (some cls)) :
    ∃ r ∈ regions insts, r.cls = cls ∧ r.first = p ∧
      ∀ other ∈ regions insts, other.first = p → ¬ other.cls < cls := by
  obtain ⟨body, hlabel, hbody, hclass⟩ := turnAt?_eq_open.mp h
  obtain ⟨hget, hleast⟩ := classOfLabel?_eq_some_iff.mp hclass
  refine ⟨⟨cls, p, regionEnd insts body p⟩, mem_regions.mpr ⟨body, hget, hbody, hlabel, rfl⟩, rfl,
    rfl, fun other hother hfirst => ?_⟩
  obtain ⟨body', hget', -, hlabel', -⟩ := mem_regions.mp hother
  rw [hfirst, hlabel] at hlabel'
  obtain rfl := Option.some.inj hlabel'
  exact hleast other.cls hget'

theorem turnAt?_ne_none_of_mem_regions (hr : r ∈ regions insts) :
    turnAt? insts r.first ≠ none := by
  obtain ⟨body, hget, hbody, hlabel, -⟩ := mem_regions.mp hr
  obtain ⟨name, hname⟩ := exists_classOfLabel? hget
  rw [turnAt?_eq_open.mpr ⟨body, hlabel, hbody, hname⟩]
  simp

/-- A label leaves the scan alone exactly if it does not end a class and no region begins there. -/
theorem turnAt?_eq_none_iff :
    turnAt? insts p = none ↔ ¬ ClassEndAt insts p ∧ ∀ r ∈ regions insts, r.first ≠ p := by
  constructor
  · intro hnone
    refine ⟨?_, ?_⟩
    · rintro ⟨label, hlabel, hend⟩
      unfold turnAt? turn? at hnone
      rw [hlabel, Option.bind_some, if_pos hend] at hnone
      cases hnone
    · rintro r hr rfl
      exact turnAt?_ne_none_of_mem_regions hr hnone
  · rintro ⟨hend, hfirst⟩
    cases hturn : turnAt? insts p with
    | none => rfl
    | some opened =>
      cases opened with
      | some cls =>
        obtain ⟨r, hr, -, hp, -⟩ := exists_region_of_open hturn
        exact absurd hp (hfirst r hr)
      | none =>
        obtain ⟨label, hlabel, hturn⟩ := Option.bind_eq_some_iff.mp hturn
        refine absurd ⟨label, hlabel, ?_⟩ hend
        by_contra hnot
        unfold turn? at hturn
        rw [if_neg hnot] at hturn
        split_ifs at hturn
        obtain ⟨name, -, hname⟩ := Option.map_eq_some_iff.mp hturn
        cases hname

/-- A region in which no class has ended before a position still holds the position. -/
theorem holds_of_no_classEnd (hr : r ∈ regions insts) (hi : i < insts.length)
    (hlabel : labelAt? insts i = none) (hfirst : r.first < i)
    (hopen : ∀ q, r.first < q → q < i → ¬ ClassEndAt insts q) : r.Holds i := by
  refine ⟨hfirst, ?_⟩
  obtain ⟨body, -, hbody, -, hlast⟩ := mem_regions.mp hr
  by_contra hnot
  rcases regionEnd_cases insts body r.first with hend | ⟨hlt, hend⟩
  · rw [hlast, hend] at hnot
    exact hnot hi
  · rw [← hlast] at hlt hend
    -- the end label stands at the position or before it
    rcases Nat.lt_or_eq_of_le (Nat.le_of_not_lt hnot) with hbefore | heq
    · exact hopen r.last hlt hbefore ⟨_, hend, startsWith_end_append hbody⟩
    · rw [heq, hlabel] at hend
      cases hend

/-- Literals at the position count for the class of the region: it is the innermost one, no class
has ended since it began, and its class is the first one, by name, that has the region. -/
structure Counts (insts : List Instruction) (r : Region) (i : Nat) : Prop where
  innermost : Innermost insts r i
  unended : ∀ q, r.first < q → q < i → ¬ ClassEndAt insts q
  least : ∀ other ∈ regions insts, other.first = r.first → ¬ other.cls < r.cls

/-- A class has one innermost region at a position. -/
theorem Innermost.unique (h : ProperlyNested insts) {r' : Region} (hr : Innermost insts r i)
    (hr' : Innermost insts r' i) (hcls : r.cls = r'.cls) : r = r' := by
  have hholds := hr.holds
  have hholds' := hr'.holds
  unfold Region.Holds at hholds hholds'
  have hfirst : r.first = r'.first := by
    -- of two regions that hold the position, one lies in the other and is the smaller one
    rcases h r hr.region r' hr'.region with hapart | hwithin | hwithin
    · unfold Region.Apart at hapart
      omega
    · by_contra hne
      exact hr'.inner r hr.region (Nat.lt_of_le_of_ne hwithin.1 (Ne.symm hne)) hwithin.2 hr.holds
    · by_contra hne
      exact hr.inner r' hr'.region (Nat.lt_of_le_of_ne hwithin.1 hne) hwithin.2 hr'.holds
  obtain ⟨body, -, -, hlabel, hlast⟩ := mem_regions.mp hr.region
  obtain ⟨body', -, -, hlabel', hlast'⟩ := mem_regions.mp hr'.region
  rw [hfirst, hlabel', Option.some.injEq] at hlabel
  rw [hfirst, ← hlabel, ← hlast'] at hlast
  exact Region.ext hcls hfirst hlast

/-- **The scan has the region open in which literals count.** -/
theorem openAt?_iff_counts (h : ProperlyNested insts) (hi : i < insts.length)
    (hlabel : labelAt? insts i = none) :
    openAt? insts i = some cls ↔ ∃ r, r.cls = cls ∧ Counts insts r i := by
  rw [openAt?_eq_some_iff]
  constructor
  · rintro ⟨p, hp, hturn, hquiet⟩
    obtain ⟨r, hr, hcls, hfirst, hleast⟩ := exists_region_of_open hturn
    have hends : ∀ q, r.first < q → q < i → ¬ ClassEndAt insts q := by
      intro q hq hqi
      exact (turnAt?_eq_none_iff.mp (hquiet q (hfirst ▸ hq) hqi)).1
    refine ⟨r, hcls, ⟨hr, ?_, ?_⟩, hends, by rw [hcls, hfirst]; exact hleast⟩
    · exact holds_of_no_classEnd hr hi hlabel (hfirst ▸ hp) hends
    · -- a region that begins later would have been opened later
      intro r' hr' hlater _ hholds
      have hquiet' := hquiet r'.first (hfirst ▸ hlater) hholds.1
      exact turnAt?_ne_none_of_mem_regions hr' hquiet'
  · rintro ⟨r, rfl, hcounts⟩
    have hr := hcounts.innermost.region
    have hholds := hcounts.innermost.holds
    refine ⟨r.first, hholds.1, turnAt?_first hr hcounts.least, fun q hq hqi => ?_⟩
    refine turnAt?_eq_none_iff.mpr ⟨hcounts.unended q hq hqi, ?_⟩
    rintro r' hr' rfl
    -- a region that begins in between holds the position too, so it would lie further inside
    have hholds' : r'.Holds i := by
      refine holds_of_no_classEnd hr' hi hlabel hqi fun q' hq' hq'i => ?_
      exact hcounts.unended q' (Nat.lt_trans hq hq') hq'i
    rcases h r hr r' hr' with hapart | hwithin | hwithin
    · unfold Region.Apart at hapart
      unfold Region.Holds at hholds hholds'
      omega
    · unfold Region.Within at hwithin
      omega
    · exact hcounts.innermost.inner r' hr' hq hwithin.2 hholds'

/-! ### Methods -/

/-- The literal at the position is a function reference without environment and nothing else. -/
def MethodLiteralAt (insts : List Instruction) (i : Nat) (f : FunctionRef) : Prop :=
  ∃ inst, insts[i]? = some inst ∧ literalText? inst = some f.render ∧ f.IsWords ∧ f.env = none

/-- The literal at the position makes the function a method of the class. -/
structure Declares (insts : List Instruction) (cls : String) (i : Nat) (f : FunctionRef) :
    Prop where
  literal : functionAt? insts i = some f
  region : ∃ r, r.cls = cls ∧ Counts insts r i

variable {f : FunctionRef}

theorem functionAt?_of_methodLiteralAt (h : MethodLiteralAt insts i f) :
    functionAt? insts i = some f := by
  obtain ⟨inst, hinst, htext, hwords, -⟩ := h
  unfold functionAt? functionOf?
  rw [hinst, Option.bind_some, htext, Option.bind_some]
  exact FunctionRef.parse?_render hwords

theorem lt_length_of_functionAt? (h : functionAt? insts i = some f) : i < insts.length := by
  obtain ⟨inst, hinst, -⟩ := Option.bind_eq_some_iff.mp h
  exact (List.getElem?_eq_some_iff.mp hinst).1

/-- A literal is no label. -/
theorem labelAt?_of_functionAt? (h : functionAt? insts i = some f) : labelAt? insts i = none := by
  obtain ⟨inst, hinst, hfunction⟩ := Option.bind_eq_some_iff.mp h
  obtain ⟨text, htext, -⟩ := Option.bind_eq_some_iff.mp hfunction
  unfold literalText? at htext
  split_ifs at htext with hopcode
  unfold labelAt? FlowGraph.labelName? Instruction.isLabel
  rw [hinst, Option.bind_some, hopcode]
  rfl

theorem declaredAt?_eq_some_iff (h : ProperlyNested insts) {m : String} :
    declaredAt? insts cls m i = some label ↔
      ∃ f, Declares insts cls i f ∧ f.name = m ∧ f.label = label := by
  unfold declaredAt?
  simp only [Option.map_eq_some_iff, Option.filter_eq_some_iff, Bool.and_eq_true, beq_iff_eq]
  constructor
  · rintro ⟨f, ⟨hliteral, hopen, hname⟩, hlabel⟩
    have hcounts := (openAt?_iff_counts h (lt_length_of_functionAt? hliteral)
      (labelAt?_of_functionAt? hliteral)).mp hopen
    exact ⟨f, ⟨hliteral, hcounts⟩, hname, hlabel⟩
  · rintro ⟨f, ⟨hliteral, hcounts⟩, hname, hlabel⟩
    have hopen := (openAt?_iff_counts h (lt_length_of_functionAt? hliteral)
      (labelAt?_of_functionAt? hliteral)).mpr hcounts
    exact ⟨f, ⟨hliteral, hopen, hname⟩, hlabel⟩

theorem declaredAt?_eq_none_iff (h : ProperlyNested insts) {m : String} :
    declaredAt? insts cls m i = none ↔ ∀ f, Declares insts cls i f → f.name ≠ m := by
  rw [Option.eq_none_iff_forall_ne_some]
  constructor
  · intro hnone f hdeclares hname
    exact hnone f.label ((declaredAt?_eq_some_iff h).mpr ⟨f, hdeclares, hname, rfl⟩)
  · intro hnone label hsome
    obtain ⟨f, hdeclares, hname, -⟩ := (declaredAt?_eq_some_iff h).mp hsome
    exact hnone f hdeclares hname

/-- A literal declares a method of its innermost class exactly if no class has ended since the
region of the class began, and the class is the first one, by name, that has the region. -/
theorem declares_iff (h : ProperlyNested insts) (hr : Innermost insts r i)
    (hliteral : MethodLiteralAt insts i f) :
    Declares insts r.cls i f ↔ (∀ q, r.first < q → q < i → ¬ ClassEndAt insts q) ∧
      ∀ other ∈ regions insts, other.first = r.first → ¬ other.cls < r.cls := by
  constructor
  · rintro ⟨-, r', hcls, hcounts⟩
    obtain rfl := hr.unique h hcounts.innermost hcls.symm
    exact ⟨hcounts.unended, hcounts.least⟩
  · rintro ⟨hunended, hleast⟩
    exact ⟨functionAt?_of_methodLiteralAt hliteral, r, rfl, hr, hunended, hleast⟩

/-- A class has a method with a name exactly if some literal declares one. -/
theorem exists_method?_iff (h : ProperlyNested insts) (g : FlowGraph) {m : String} :
    (∃ label, (build insts g).method? cls m = some label) ↔
      ∃ i f, Declares insts cls i f ∧ f.name = m := by
  constructor
  · rintro ⟨label, hmethod⟩
    obtain ⟨i, -, hdeclared, -⟩ := (method?_build_eq_some_iff insts g cls m label).mp hmethod
    obtain ⟨f, hdeclares, hname, -⟩ := (declaredAt?_eq_some_iff h).mp hdeclared
    exact ⟨i, f, hdeclares, hname⟩
  · rintro ⟨i, f, hdeclares, hname⟩
    -- of all such literals the last one gives the label
    have hi := lt_length_of_functionAt? hdeclares.literal
    have hsome : (declaredAt? insts cls m i).isSome = true := by
      rw [(declaredAt?_eq_some_iff h).mpr ⟨f, hdeclares, hname, rfl⟩]
      rfl
    have hdeclared := Nat.findGreatest_spec (P := fun k => (declaredAt? insts cls m k).isSome)
      (Nat.le_sub_one_of_lt hi) hsome
    obtain ⟨label, hlabel⟩ := Option.isSome_iff_exists.mp hdeclared
    have hle := Nat.findGreatest_le (P := fun k => (declaredAt? insts cls m k).isSome)
      (insts.length - 1)
    refine ⟨label, (method?_build_eq_some_iff insts g cls m label).mpr
      ⟨_, by omega, hlabel, fun j hj hjn => ?_⟩⟩
    exact Option.not_isSome_iff_eq_none.mp
      (Nat.findGreatest_is_greatest hj (Nat.le_sub_one_of_lt hjn))

/-- **Which functions are methods of a class.** A method has the label of the last literal that
declares it, and a literal outside of all regions declares none. A literal in the innermost region
of a class declares a method of it exactly if no class has ended since the region began. So the
literals in the regions of classes are methods of them exactly if for each one some literal of the
same name declares it. -/
theorem methods_declared (h : ProperlyNested insts) (g : FlowGraph) :
    (∀ cls m label, (build insts g).method? cls m = some label ↔
      ∃ i f, Declares insts cls i f ∧ f.name = m ∧ f.label = label ∧
        ∀ j f', i < j → Declares insts cls j f' → f'.name ≠ m) ∧
    (∀ i, (∀ r ∈ regions insts, ¬ r.Holds i) → ∀ cls f, ¬ Declares insts cls i f) ∧
    (∀ r i f, Innermost insts r i → MethodLiteralAt insts i f →
      (Declares insts r.cls i f ↔ (∀ q, r.first < q → q < i → ¬ ClassEndAt insts q) ∧
        ∀ other ∈ regions insts, other.first = r.first → ¬ other.cls < r.cls)) ∧
    ((∀ r i f, Innermost insts r i → MethodLiteralAt insts i f →
        ∃ label, (build insts g).method? r.cls f.name = some label) ↔
      ∀ r i f, Innermost insts r i → MethodLiteralAt insts i f →
        ∃ j f', Declares insts r.cls j f' ∧ f'.name = f.name) := by
  refine ⟨fun cls m label => ?_, fun i houtside cls f hdeclares => ?_,
    fun r i f hr hliteral => declares_iff h hr hliteral, ?_⟩
  · rw [method?_build_eq_some_iff]
    constructor
    · rintro ⟨i, -, hdeclared, hlast⟩
      obtain ⟨f, hdeclares, hname, hlabel⟩ := (declaredAt?_eq_some_iff h).mp hdeclared
      refine ⟨i, f, hdeclares, hname, hlabel, fun j f' hj hdeclares' => ?_⟩
      have hjn := lt_length_of_functionAt? hdeclares'.literal
      exact (declaredAt?_eq_none_iff h).mp (hlast j hj hjn) f' hdeclares'
    · rintro ⟨i, f, hdeclares, hname, hlabel, hlast⟩
      refine ⟨i, lt_length_of_functionAt? hdeclares.literal,
        (declaredAt?_eq_some_iff h).mpr ⟨f, hdeclares, hname, hlabel⟩, fun j hj _ => ?_⟩
      exact (declaredAt?_eq_none_iff h).mpr fun f' hdeclares' => hlast j f' hj hdeclares'
  · obtain ⟨r, -, hcounts⟩ := hdeclares.region
    exact houtside r hcounts.innermost.region hcounts.innermost.holds
  · simp only [exists_method?_iff h g]

/-! ### A class within a class -/

/-- The label of a block. -/
def labelled (name : String) : Instruction where
  opcode := .label
  label := some name

/-- A literal. -/
def literal (text : String) : Instruction where
  opcode := .const
  operands := [.text text]
  result := some "%0"

/-- A class with a method before and one behind a class that is nested in it, and a function behind
both. -/
def nestedClasses : List Instruction :=
  [labelled "class_A_0", literal "<function:m@func_m_1>",
    labelled "class_B_2", literal "<function:k@func_k_3>", labelled "end_class_B_2",
    literal "<class:B@class_B_2>", literal "<function:n@func_n_4>",
    labelled "end_class_A_0", literal "<class:A@class_A_0>", literal "<function:f@func_f_5>"]

theorem regions_nestedClasses : regions nestedClasses = [⟨"A", 0, 7⟩, ⟨"B", 2, 4⟩] := by
  decide +kernel

theorem properlyNested_nestedClasses : ProperlyNested nestedClasses := by
  unfold ProperlyNested
  rw [regions_nestedClasses]
  decide

/-- The method before the nested class is declared by its literal, and that of the nested class by
its own. -/
theorem nestedClasses_declares :
    ProperlyNested nestedClasses ∧
      (∃ i f, Declares nestedClasses "A" i f ∧ f.name = "m" ∧ f.label = "func_m_1") ∧
      (∃ i f, Declares nestedClasses "B" i f ∧ f.name = "k" ∧ f.label = "func_k_3") ∧
      ∀ cls f, ¬ Declares nestedClasses cls 9 f := by
  have hmethods : (build nestedClasses ⟨[]⟩).method? "A" "m" = some "func_m_1" ∧
      (build nestedClasses ⟨[]⟩).method? "B" "k" = some "func_k_3" := by
    decide +kernel
  have hbehind : ∀ r ∈ regions nestedClasses, ¬ r.Holds 9 := by
    rw [regions_nestedClasses]
    decide
  obtain ⟨hdeclared, houtside, -, -⟩ := methods_declared properlyNested_nestedClasses ⟨[]⟩
  obtain ⟨i, f, hm, hname, hlabel, -⟩ := (hdeclared "A" "m" "func_m_1").mp hmethods.1
  obtain ⟨j, f', hk, hname', hlabel', -⟩ := (hdeclared "B" "k" "func_k_3").mp hmethods.2
  exact ⟨properlyNested_nestedClasses, ⟨i, f, hm, hname, hlabel⟩, ⟨j, f', hk, hname', hlabel'⟩,
    houtside 9 hbehind⟩

/-- The method behind the nested class stands in the region of the outer class and in no other one,
but is not known as a method of it. -/
theorem nestedClasses_forgets :
    ProperlyNested nestedClasses ∧ Innermost nestedClasses ⟨"A", 0, 7⟩ 6 ∧
      MethodLiteralAt nestedClasses 6 { name := "n", label := "func_n_4" } ∧
      (build nestedClasses ⟨[]⟩).method? "A" "n" = none := by
  have hparse : FunctionRef.parse? "<function:n@func_n_4>" =
      some { name := "n", label := "func_n_4" } := by
    decide +kernel
  have hwords := (FunctionRef.parse?_eq_some_iff.mp hparse).words
  have hinner : ∀ r' ∈ regions nestedClasses, 0 < r'.first → r'.last ≤ 7 → ¬ r'.Holds 6 := by
    rw [regions_nestedClasses]
    decide
  refine ⟨properlyNested_nestedClasses, ⟨?_, by decide, hinner⟩, ⟨_, rfl, rfl, hwords, rfl⟩, ?_⟩
  · rw [regions_nestedClasses]
    exact List.mem_cons_self
  · decide +kernel

end Registry

end SymbolicVM
