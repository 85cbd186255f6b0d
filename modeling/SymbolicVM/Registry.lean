import SymbolicVM.FlowGraph.Basic
import SymbolicVM.Reference
import SymbolicVM.Json.Record

/-!
# Functions and classes of a program

The registry holds the parameters of every function, the body of every class and the methods of
every class. Parameters are the `SYMBOLIC param:` instructions of a function's first block; classes
and methods are found as reference literals, a method belonging to the class whose region of the
listing its literal stands in.
-/

namespace SymbolicVM

/-- What is known of the functions and classes of a program. -/
structure Registry where
  /-- Parameter names by the label of the function's body. -/
  parameters : Dict (List String) := .empty
  /-- Labels of methods by class and method name. -/
  methods : Dict (Dict String) := .empty
  /-- Labels of class bodies by class name. -/
  classes : Dict String := .empty

namespace Registry

/-- The head of the operand that declares a parameter. -/
def parameterHead : String := "param:"

/-- The names under which a class may declare its constructor, in order of preference. -/
def constructorNames : List String := ["__init__", "constructor"]

instance : Inhabited Registry := ⟨{}⟩

/-- The parameters of the function with a label. -/
def parameters? (r : Registry) (label : String) : Option (List String) :=
  r.parameters.get? label

/-- The label of a method of a class. -/
def method? (r : Registry) (cls method : String) : Option String :=
  (r.methods.get? cls).bind fun ms => ms.get? method

/-- The name and label of the constructor of a class. -/
def constructor? (r : Registry) (cls : String) : Option (String × String) :=
  constructorNames.findSome? fun name => (r.method? cls name).map fun label => (name, label)

/-! ### Building the registry -/

/-- The parameter that an instruction declares. -/
def parameterOf? (inst : Instruction) : Option String :=
  if inst.opcode = .symbolic then (inst.text? 0).bind (Text.stripHead? parameterHead) else none

/-- The parameters of the functions of a graph. -/
def scanParameters (g : FlowGraph) : Dict (List String) :=
  Dict.ofList <|
    (g.blocks.filter fun b => Text.startsWith functionHead b.label).map fun b =>
      (b.label, b.body.filterMap parameterOf?)

/-- The text of a literal. -/
def literalText? (inst : Instruction) : Option String :=
  if inst.opcode = .const then inst.text? 0 else none

/-- The classes whose reference occurs in a program. -/
def scanClasses (insts : List Instruction) : Dict String :=
  Dict.ofList <|
    (insts.filterMap literalText?).filterMap fun text =>
      (ClassRef.parse? text).map fun c => (c.name, c.label)

/-- The first class, by name, whose body has the label. -/
def classOfLabel? (classes : Dict String) (label : String) : Option String :=
  (classes.entries.find? fun e => e.2 == label).map (·.1)

/-- Where the scan for methods is: the class whose region it is in, and the methods found so far. -/
structure Scan where
  current : Option String := none
  methods : Dict (Dict String) := .empty

/-- Adds what one instruction says about methods. The label of a class body opens its region, any
label that ends a class closes the open region, and a function literal in a region is a method. -/
def Scan.step (classes : Dict String) (scan : Scan) (inst : Instruction) : Scan :=
  let methodsOf (cls : String) : Dict String := (scan.methods.get? cls).getD .empty
  match inst.opcode, inst.label with
  | .label, some label =>
    if Text.startsWith "end_class_" label then { scan with current := none }
    else if Text.startsWith "class_" label then
      match classOfLabel? classes label with
      | some cls => ⟨some cls, scan.methods.insert cls (methodsOf cls)⟩
      | none => scan
    else scan
  | _, _ =>
    match scan.current, (literalText? inst).bind FunctionRef.parse? with
    | some cls, some f =>
      { scan with methods := scan.methods.insert cls ((methodsOf cls).insert f.name f.label) }
    | _, _ => scan

/-- The registry of a program and its graph. -/
def build (insts : List Instruction) (g : FlowGraph) : Registry :=
  let classes := scanClasses insts
  { parameters := scanParameters g
    classes
    methods := (insts.foldl (Scan.step classes) {}).methods }

/-! ### Documents -/

/-- The document of a registry. -/
def toJson (r : Registry) : Json :=
  .obj [("func_params", Json.ofDict (fun ps => .arr (ps.map Json.str)) r.parameters),
    ("class_methods", Json.ofDict (Json.ofDict Json.str) r.methods),
    ("classes", Json.ofDict Json.str r.classes)]

/-- Reads a registry. -/
def ofJson? (j : Json) : Option Registry := do
  match ← j.fields? ["func_params", "class_methods", "classes"] with
  | [parameters, methods, classes] =>
    return {
      parameters := ← Json.requiredField (Json.dict? (Json.list? Json.str?)) parameters
      methods := ← Json.requiredField (Json.dict? (Json.dict? Json.str?)) methods
      classes := ← Json.requiredField (Json.dict? Json.str?) classes }
  | _ => none

end Registry

end SymbolicVM
