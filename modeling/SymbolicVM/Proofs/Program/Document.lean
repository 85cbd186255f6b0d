import SymbolicVM.Program
import SymbolicVM.Proofs.Json.Compact
import SymbolicVM.Proofs.Json.Record

/-!
# Programs are read back from their documents

An operand is written without a tag that tells its kind, but no two kinds share a document as long
as floating-point numbers are finite, so each comes back as the kind that it was
(`Operand.ofJson?_toJson`). What an instruction leaves out is what its default stands for
(`Instruction.ofJson?_toJson`). So a program is read back from its document, and its instructions
from the bare list of theirs.

The text of a program's document is read back to the document, whatever the texts in it are, but for
floating-point operands whose digits do not say enough (`Program.writable_toJson`). Both together
are `Program.documents_read_back`.
-/

namespace SymbolicVM

/-! ### Operands -/

namespace Operand

/-- A floating-point operand has a document of its own if it is finite. -/
def Finite (op : Operand) : Prop :=
  ∀ x, op = .float x → x.isFinite = true

/-- **An operand comes back as the kind that it was.** -/
theorem ofJson?_toJson {op : Operand} (h : op.Finite) : ofJson? op.toJson.canonical = some op := by
  cases op with
  | bool b => rfl
  | int i =>
    have hread : ofJson? (.int i.toInt) = some (.int i) := by
      rw [ofJson?, Text.word?_toInt]
    exact hread
  | float x =>
    rw [toJson, Json.ofFloat, if_pos (h x rfl)]
    rfl
  | text s => rfl
  | null => rfl

/-- The digits of a floating-point operand are read as this number. -/
def Legible (op : Operand) : Prop :=
  ∀ x, op = .float x → Json.number? (Json.renderFloat x).toList = some (.float x)

theorem writable_toJson {op : Operand} (h : op.Legible) (depth : Nat) :
    Json.Writable depth op.toJson := by
  cases op with
  | bool b => exact .bool
  | int i =>
    have hlower := Int64.le_toInt i
    have hupper := Int64.toInt_lt i
    exact .int (by omega) (Int.lt_of_lt_of_le hupper (by decide))
  | float x =>
    rw [toJson, Json.ofFloat]
    split_ifs
    · exact .float (h x rfl)
    · exact .null
  | text s => exact .str
  | null => exact .null

end Operand

/-! ### Instructions -/

namespace Json

/-- A 32-bit word is read back. -/
theorem requiredField_word32 (name : String) (w : UInt32) :
    requiredField word32? (fieldOf (always name (.int w.toNat))) = some w := by
  have hcanonical : canonical (.int w.toNat) = .int w.toNat := rfl
  have hbound : (0 : Int) ≤ w.toNat ∧ (w.toNat : Int) < UInt32.size :=
    ⟨Int.natCast_nonneg _, Int.ofNat_lt.mpr w.toNat_lt_size⟩
  rw [requiredField_always, hcanonical, word32?, natBelow?, if_pos hbound, Int.toNat_natCast]
  exact congrArg some UInt32.ofNat_toNat

@[simp] theorem choice?_canonical {α : Type} (ofName : String → Option α) (name : String) :
    choice? ofName (canonical (.str name)) = ofName name := rfl

end Json

namespace SourceRange

/-- A range is read if its four fields are. -/
theorem ofJson?_of_fields {j : Json} {r : SourceRange} {a b c d : Option Json}
    (hfields : j.fields? ["start_line", "start_col", "end_line", "end_col"] = some [a, b, c, d])
    (ha : Json.requiredField Json.word32? a = some r.startLine)
    (hb : Json.requiredField Json.word32? b = some r.startColumn)
    (hc : Json.requiredField Json.word32? c = some r.endLine)
    (hd : Json.requiredField Json.word32? d = some r.endColumn) : ofJson? j = some r := by
  rw [ofJson?, hfields]
  simp only [Option.bind_eq_bind, Option.bind_some, ha, hb, hc, hd]
  rfl

/-- Every range is read back, also the one of all zeros. -/
theorem ofJson?_toJson (r : SourceRange) : ofJson? r.toJson.canonical = some r := by
  have hfields := Json.fields?_record
    (show ["start_line", "start_col", "end_line", "end_col"].Nodup by decide)
    (.cons Json.named_always (.cons Json.named_always (.cons Json.named_always
      (.cons Json.named_always .nil))) :
      List.Forall₂ Json.Named _ [Json.always "start_line" (.int r.startLine.toNat),
        Json.always "start_col" (.int r.startColumn.toNat),
        Json.always "end_line" (.int r.endLine.toNat),
        Json.always "end_col" (.int r.endColumn.toNat)])
  exact ofJson?_of_fields hfields (Json.requiredField_word32 _ _) (Json.requiredField_word32 _ _)
    (Json.requiredField_word32 _ _) (Json.requiredField_word32 _ _)

theorem writable_toJson (r : SourceRange) : Json.Writable 1 r.toJson := by
  have hword (w : UInt32) : Json.Writable 0 (.int w.toNat) := by
    exact .int (by omega) (Int.ofNat_lt.mpr (Nat.lt_trans w.toNat_lt_size (by decide)))
  refine .obj ?_
  simp only [List.forall_mem_cons]
  exact ⟨hword _, hword _, hword _, hword _, List.forall_mem_nil _⟩

end SourceRange

namespace Instruction

/-- All floating-point operands are finite. -/
def Finite (inst : Instruction) : Prop :=
  ∀ op ∈ inst.operands, op.Finite

/-- **An instruction is read back from its canonical document**: what is left out is what its
default stands for. -/
theorem ofJson?_toJson {inst : Instruction} (h : inst.Finite) :
    ofJson? inst.toJson.canonical = some inst := by
  have hfields : inst.toJson.canonical.fields?
      ["opcode", "result_reg", "operands", "label", "source_location"] = some _ :=
    Json.fields?_record (by decide) (.cons Json.named_always (.cons Json.named_whenSome
      (.cons Json.named_memberUnless (.cons Json.named_whenSome
      (.cons Json.named_whenSome .nil)))))
  have hoperands := @Json.fieldOr_list _ "operands" Operand.ofJson? Operand.toJson inst.operands
    fun op hop => Operand.ofJson?_toJson (h op hop)
  have hlocation := @Json.optionalField_whenSome _ "source_location" SourceRange.ofJson?
    SourceRange.toJson inst.location fun r _ => ⟨Json.canonical_obj_ne_null _, r.ofJson?_toJson⟩
  rw [ofJson?, hfields]
  simp only [List.map_cons, List.map_nil, Option.bind_eq_bind, Option.bind_some,
    Json.requiredField_always, Json.choice?_canonical, Opcode.ofName?_name,
    Json.optionalField_whenSome_str, hoperands, hlocation]
  rfl

/-- The digits of all floating-point operands are read as these numbers. -/
def Legible (inst : Instruction) : Prop :=
  ∀ op ∈ inst.operands, op.Legible

theorem writable_toJson {inst : Instruction} (h : inst.Legible) :
    Json.Writable 2 inst.toJson := by
  have hoperands : Json.Writable 1 (.arr (inst.operands.map Operand.toJson)) := by
    refine .arr fun j hj => ?_
    obtain ⟨op, hop, rfl⟩ := List.mem_map.mp hj
    exact Operand.writable_toJson (h op hop) 0
  refine .record ?_
  simp only [List.forall_mem_cons]
  exact ⟨Json.writable_always .str, Json.writable_whenSome fun _ => .str,
    Json.writable_memberUnless hoperands, Json.writable_whenSome fun _ => .str,
    Json.writable_whenSome SourceRange.writable_toJson, List.forall_mem_nil _⟩

end Instruction

/-! ### Programs -/

namespace Program

/-- All floating-point operands are finite. -/
def Finite (p : Program) : Prop :=
  ∀ inst ∈ p.instructions, inst.Finite

/-- The document of the bare list of instructions. -/
def bareJson (p : Program) : Json :=
  .arr (p.instructions.map Instruction.toJson)

variable {p : Program}

theorem list?_bareJson (h : p.Finite) :
    Json.list? Instruction.ofJson? p.bareJson.canonical = some p.instructions :=
  Json.list?_arr fun inst hinst => Instruction.ofJson?_toJson (h inst hinst)

/-- **A program is read back from its canonical document.** -/
theorem ofJson_toJson (h : p.Finite) : ofJson p.toJson.canonical = .ok p := by
  have hfields : p.toJson.canonical.fields? ["language", "instructions"] = some _ :=
    Json.fields?_record (by decide) (.cons Json.named_whenSome (.cons Json.named_always .nil))
  have hinsts : Json.list? Instruction.ofJson?
      (Json.canonical (.arr (p.instructions.map Instruction.toJson))) = some p.instructions :=
    list?_bareJson h
  rw [toJson, Json.record, Json.canonical_obj] at hfields ⊢
  rw [Json.fields?, Option.some.injEq] at hfields
  simp only [List.map_cons, List.map_nil, List.cons.injEq, and_true] at hfields
  rw [ofJson, hfields.1, hfields.2, Json.optionalField_whenSome_str, Json.requiredField_always,
    hinsts]
  rfl

/-- Its instructions are read back from their bare list. -/
theorem ofJson_bareJson (h : p.Finite) :
    ofJson p.bareJson.canonical = .ok { instructions := p.instructions } := by
  have hread := list?_bareJson h
  unfold bareJson at hread ⊢
  rw [Json.canonical_arr] at hread ⊢
  rw [Json.list?] at hread
  rw [ofJson, hread]

/-- The digits of all floating-point operands are read as these numbers. -/
def Legible (p : Program) : Prop :=
  ∀ inst ∈ p.instructions, inst.Legible

theorem writable_bareJson (h : p.Legible) : Json.Writable 3 p.bareJson := by
  refine .arr fun j hj => ?_
  obtain ⟨inst, hinst, rfl⟩ := List.mem_map.mp hj
  exact Instruction.writable_toJson (h inst hinst)

theorem writable_toJson (h : p.Legible) : Json.Writable 4 p.toJson := by
  refine .record ?_
  simp only [List.forall_mem_cons]
  exact ⟨Json.writable_whenSome fun _ => .str, Json.writable_always (writable_bareJson h),
    List.forall_mem_nil _⟩

/-- A text is read as the program of its document. -/
theorem ofDocument_of_parse? {text : String} {j : Json} (h : Json.parse? text = some j) :
    ofDocument text = ofJson j.canonical := by
  have hread : Json.read? text = some j.canonical := by
    rw [Json.read?, h]
    rfl
  unfold ofDocument
  rw [hread]

/-- **Programs are read back from their documents.** A program whose floating-point operands are
finite is read back from every text of its document, and its instructions are read back from every
text of their bare list. If the digits of these operands say enough, its compact document is such a
text, and so is that of the bare list. -/
theorem documents_read_back (h : p.Finite) :
    (∀ text, Json.parse? text = some p.toJson → ofDocument text = .ok p) ∧
      (∀ text, Json.parse? text = some p.bareJson →
        ofDocument text = .ok { language := none, instructions := p.instructions }) ∧
      (p.Legible → ofDocument p.toJson.compact = .ok p ∧
        ofDocument p.bareJson.compact =
          .ok { language := none, instructions := p.instructions }) := by
  have hrecord (text : String) (hparse : Json.parse? text = some p.toJson) :
      ofDocument text = .ok p := by
    rw [ofDocument_of_parse? hparse, ofJson_toJson h]
  have hbare (text : String) (hparse : Json.parse? text = some p.bareJson) :
      ofDocument text = .ok { language := none, instructions := p.instructions } := by
    rw [ofDocument_of_parse? hparse, ofJson_bareJson h]
  refine ⟨hrecord, hbare, fun hlegible => ⟨hrecord _ ?_, hbare _ ?_⟩⟩
  · exact Json.parse?_compact (writable_toJson hlegible) (by decide)
  · exact Json.parse?_compact (writable_bareJson hlegible) (by decide)

/-- A program with an operand of each kind, the text of a number among them, and a location of
zeros. -/
def sampleProgram : Program where
  language := some "c"
  instructions :=
    [{ opcode := .const, result := some "%0",
       operands := [.text "1", .int (-1), .float 0.5, .bool true, .null],
       location := some ⟨0, 0, 0, 0⟩ }]

/-- Its document in a layout and in spellings other than the compact ones. -/
def sampleText : String :=
  r#"{"language": "c","# ++ "\n " ++
    r#""instructions": [{"opcode": "CONST", "result_reg": "%0", "# ++
    r#""operands": ["\u0031", -1, 5e-1, true, null], "source_location": "# ++
    r#"{"start_line": 0, "start_col": 0, "end_line": 0, "end_col": 0}}]}"#

theorem sampleProgram_read_back :
    sampleProgram.Finite ∧ sampleProgram.Legible ∧
      ofDocument sampleText = .ok sampleProgram ∧
      ofDocument sampleProgram.toJson.compact = .ok sampleProgram ∧
      ofDocument sampleProgram.bareJson.compact =
        .ok { instructions := sampleProgram.instructions } := by
  have hfloat : ∀ inst ∈ sampleProgram.instructions, ∀ x, Operand.float x ∈ inst.operands →
      x = 0.5 := by
    simp [sampleProgram]
  have hfinite : sampleProgram.Finite := by
    rintro inst hinst op hop x rfl
    obtain rfl := hfloat inst hinst x hop
    decide +kernel
  have hlegible : sampleProgram.Legible := by
    rintro inst hinst op hop x rfl
    obtain rfl := hfloat inst hinst x hop
    decide +kernel
  have hparse : Json.parse? sampleText = some sampleProgram.toJson := by decide +kernel
  obtain ⟨htext, -, hcompact⟩ := documents_read_back hfinite
  exact ⟨hfinite, hlegible, htext _ hparse, hcompact hlegible⟩

end Program

end SymbolicVM
