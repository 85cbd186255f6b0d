import SymbolicVM.Machine.Document
import SymbolicVM.Instruction.Document

/-!
# Questions to an oracle process

A question is a document: the standing instructions for the one who answers, the instruction in
question, the values of its register operands, and the part of the state that the current frame
sees.
-/

namespace SymbolicVM

/-- The question about one instruction. -/
structure Request where
  instruction : String
  opcode : Opcode
  operands : List Operand
  result : Option String
  /-- The registers among the operands that have a value. -/
  operandValues : Dict Value
  vars : Dict Value
  heap : Dict HeapObject
  pathConditions : List String

namespace Request

/-- The standing instructions that go with every question. -/
def protocol : String :=
  String.intercalate "\n"
    ["You execute one instruction of a flattened intermediate representation against a symbolic machine state.",
      "",
      "The request carries the instruction text, its opcode, raw operands and result register, the current values of every register operand (`resolved_operand_values`), and a compact state snapshot (variables visible from the current frame; the heap and the path conditions when non-empty).",
      "",
      "Reply with exactly one JSON object describing the instruction's effects. Every field is optional:",
      "",
      r"{",
      r#"  "register_writes": {"<reg>": <value>},"#,
      r#"  "var_writes": {"<name>": <value>},"#,
      r#"  "heap_writes": [{"obj_addr": "...", "field": "...", "value": <value>}],"#,
      r#"  "new_objects": [{"addr": "...", "type_hint": "..."}],"#,
      r#"  "next_label": "<label>","#,
      r#"  "call_push": {"function_name": "...", "return_label": "..."},"#,
      r#"  "call_pop": false,"#,
      r#"  "return_value": <value>,"#,
      r#"  "path_condition": "<assumption>","#,
      r#"  "reasoning": "<short explanation>""#,
      r"}",
      "",
      r#"Unknown values are written as {"__symbolic__": true, "name": "sym_N", "type_hint": "...", "constraints": ["..."]}; an empty or missing name is assigned by the engine."#,
      "",
      "Rules:",
      "- If the instruction has a result register, register_writes must contain it.",
      r#"- Arithmetic on unknown operands yields a symbolic value whose constraint is the expression, e.g. "sym_0 * 4"."#,
      r#"- Calls to functions you cannot evaluate yield a symbolic value constrained by the call, e.g. "factorial(5)"."#,
      r#"- For branch_if the label field is "true_label,false_label": set next_label to the side you pick and record the assumption in path_condition."#,
      "",
      "Answer with the JSON object only."]

/-- The question about an instruction in a state. -/
def ofState (inst : Instruction) (s : State) : Request where
  instruction := inst.render
  opcode := inst.opcode
  operands := inst.operands
  result := inst.result
  operandValues := Dict.ofList <|
    (inst.operands.filterMap Operand.register?).filterMap fun reg =>
      (s.register? reg).map fun v => (reg, v)
  vars := s.visibleVars
  heap := s.heap
  pathConditions := s.pathConditions

/-- The document of a question. -/
def toJson (r : Request) : Json :=
  Json.record
    [Json.always "instruction" (.str r.instruction),
      Json.always "opcode" (.str r.opcode.name),
      Json.always "operands" (.arr (r.operands.map Operand.toJson)),
      Json.always "result_reg" (Json.ofOption Json.str r.result),
      Json.memberUnless r.operandValues.isEmpty "resolved_operand_values"
        (valuesToJson r.operandValues),
      Json.always "state" <| Json.record
        [Json.always "local_vars" (valuesToJson r.vars),
          Json.memberUnless r.heap.isEmpty "heap" (Json.ofDict HeapObject.toJson r.heap),
          Json.memberUnless r.pathConditions.isEmpty "path_conditions"
            (.arr (r.pathConditions.map Json.str))]]

/-- The text that a process is given: the standing instructions and the question. -/
def envelope (r : Request) : String :=
  Json.compact (.obj [("instructions", .str protocol), ("request", r.toJson)])

end Request

end SymbolicVM
