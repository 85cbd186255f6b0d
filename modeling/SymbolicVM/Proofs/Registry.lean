import SymbolicVM.Registry
import SymbolicVM.Proofs.Dict
import SymbolicVM.Proofs.Reference

/-!
# What the registry of a program knows

Parameters are known of blocks only (`Registry.contains_of_parameters?`). Methods are known of
classes only whose reference occurs in the program (`Registry.exists_classRef_of_constructor?`); the
label of a method comes from a literal, and nothing says that it is the label of a block.
-/

namespace SymbolicVM.Registry

variable {insts : List Instruction} {g : FlowGraph}

/-! ### Parameters -/

/-- A label with known parameters is the label of a block. -/
theorem contains_of_parameters? {label : String} {params : List String}
    (h : (build insts g).parameters? label = some params) : g.contains label = true := by
  obtain ⟨b, hb, heq⟩ := List.mem_map.mp (Dict.mem_of_get?_ofList h)
  obtain ⟨rfl, -⟩ := Prod.mk.inj heq
  exact List.any_eq_true.mpr ⟨b, (List.mem_filter.mp hb).1, beq_self_eq_true b.label⟩

/-! ### Classes and methods -/

/-- The classes that the scan for methods has met are known. -/
structure Scan.Sound (classes : Dict String) (scan : Scan) : Prop where
  current : ∀ cls, scan.current = some cls → cls ∈ classes.keys
  methods : ∀ cls ∈ scan.methods.keys, cls ∈ classes.keys

theorem mem_keys_of_classOfLabel? {classes : Dict String} {label cls : String}
    (h : classOfLabel? classes label = some cls) : cls ∈ classes.keys := by
  obtain ⟨e, he, rfl⟩ := Option.map_eq_some_iff.mp h
  exact List.mem_map_of_mem (List.mem_of_find?_eq_some he)

theorem Scan.Sound.step {classes : Dict String} {scan : Scan} (h : scan.Sound classes)
    (inst : Instruction) : (scan.step classes inst).Sound classes := by
  -- a class enters the methods only while its region is open
  have hinsert {cls : String} (hcls : cls ∈ classes.keys) (ms : Dict String) :
      ∀ other ∈ (scan.methods.insert cls ms).keys, other ∈ classes.keys := by
    intro other hother
    rcases Dict.mem_keys_insert.mp hother with rfl | hother
    · exact hcls
    · exact h.methods other hother
  unfold Scan.step
  dsimp only
  split
  · split_ifs
    · exact ⟨nofun, h.methods⟩
    · split
      · rename_i cls hcls
        have hmem := mem_keys_of_classOfLabel? hcls
        refine ⟨fun other hother => ?_, hinsert hmem _⟩
        obtain rfl := Option.some.inj hother
        exact hmem
      · exact h
    · exact h
  · split
    · rename_i cls f hcls _
      exact ⟨h.current, hinsert (h.current cls hcls) _⟩
    · exact h

theorem Scan.Sound.foldl {classes : Dict String} (insts : List Instruction) {scan : Scan}
    (h : scan.Sound classes) : (insts.foldl (Scan.step classes) scan).Sound classes := by
  induction insts generalizing scan with
  | nil => exact h
  | cons inst insts ih => exact ih (h.step inst)

/-- A class with a method is referred to somewhere in the program. -/
theorem exists_classRef_of_method? {cls method label : String}
    (h : (build insts g).method? cls method = some label) :
    ∃ text c, ClassRef.parse? text = some c ∧ c.name = cls := by
  obtain ⟨ms, hms, -⟩ := Option.bind_eq_some_iff.mp h
  have hstart : Scan.Sound (scanClasses insts) {} := ⟨nofun, by simp⟩
  have hkey := (hstart.foldl insts).methods cls (Dict.mem_keys_of_get? hms)
  obtain ⟨body, hmem⟩ := Dict.mem_of_mem_keys_ofList hkey
  obtain ⟨text, -, hparse⟩ := List.mem_filterMap.mp hmem
  obtain ⟨c, hc, heq⟩ := Option.map_eq_some_iff.mp hparse
  exact ⟨text, c, hc, (Prod.mk.inj heq).1⟩

theorem method?_of_constructor? {r : Registry} {cls name label : String}
    (h : r.constructor? cls = some (name, label)) : r.method? cls name = some label := by
  obtain ⟨declared, -, hmethod⟩ := List.exists_of_findSome?_eq_some h
  obtain ⟨found, hfound, heq⟩ := Option.map_eq_some_iff.mp hmethod
  obtain ⟨rfl, rfl⟩ := Prod.mk.inj heq
  exact hfound

/-- A class with a constructor has a reference that is read back from its text. -/
theorem exists_classRef_of_constructor? {cls name label : String}
    (h : (build insts g).constructor? cls = some (name, label)) :
    ∃ c : ClassRef, c.name = cls ∧ ClassRef.parse? c.render = some c ∧
      FunctionRef.parse? c.render = none := by
  obtain ⟨text, c, hparse, hname⟩ := exists_classRef_of_method? (method?_of_constructor? h)
  have hwords := (ClassRef.parse?_eq_some_iff.mp hparse).words
  exact ⟨c, hname, ClassRef.parse?_render hwords, FunctionRef.parse?_render_class hwords⟩

end SymbolicVM.Registry
