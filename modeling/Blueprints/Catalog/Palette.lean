import Blueprints.Catalog.Basic

/-! # The palette — the definitions that every project starts with -/

namespace Blueprints.Palette

/-! ## Shapes that several definitions share -/

/-- A param that carries control. -/
def exec (id name : String) : Param := { id, name, kind := .exec }

/-- A param that carries a value. -/
def data (id name : String) (kind : ParamKind) : Param := { id, name, kind }

/-- An input with a value to fall back on. -/
def preset (id name : String) (kind : ParamKind) (value : Json) : Param :=
  { id, name, kind, default? := some value }

/-- The input through which control enters. -/
def execIn : Param := exec "exec" "Exec"

/-- The output through which control leaves. -/
def execOut : Param := exec "exec" "Then"

/-- An operation on two numbers; `neutral` is what it falls back on. -/
def arithmetic (id name description : String) (neutral : Int) : Definition :=
  { id, name, category := "Math"
    description := some description
    inputs := [preset "a" "A" .number (.int neutral), preset "b" "B" .number (.int neutral)]
    outputs := [data "result" "Result" .number]
    color := some "#2196F3" }

/-- A comparison of two numbers. -/
def comparison (id name description : String) : Definition :=
  { id, name, category := "Compare"
    description := some description
    inputs := [preset "a" "A" .number (.int 0), preset "b" "B" .number (.int 0)]
    outputs := [data "result" "Result" .boolean]
    color := some "#FF9800" }

/-- The entry of a component's method. -/
def lifecycle (id description : String) (deltaTime : Bool) : Definition :=
  { id, name := id, category := "Lifecycle"
    description := some description
    outputs := exec "exec" "Exec" ::
      (if deltaTime then [data "deltaTime" "Delta Time" .number] else [])
    color := some "#FF9800" }

/-- A node with three ways on. -/
def fanOut (id name label description : String) : Definition :=
  { id, name, category := "Flow Control"
    description := some description
    inputs := [execIn]
    outputs := [exec "exec_1" (label ++ " 1"), exec "exec_2" (label ++ " 2"),
      exec "exec_3" (label ++ " 3")]
    color := some "#FF5722" }

/-- A value that is given with the node. -/
def constant (id name description : String) (kind : ParamKind) : Definition :=
  { id, name, category := "Constants"
    description := some description
    outputs := [data "value" "Value" kind]
    color := some "#3F51B5" }

/-! ## The definitions, by category -/

def functions : List Definition :=
  [ { id := "function_parameter", name := "Function Parameter", category := "Function"
      description := some "Declares an input parameter of the function"
      inputs :=
        [{ preset "param_name" "Name" .string (.string "param") with hidden := true },
         { preset "param_type" "Type" .string (.string "any") with hidden := true },
         { data "default_value" "Default" .object with hidden := true }]
      outputs := [data "value" "Value" .object]
      color := some "#9C27B0" },
    { id := "function_return", name := "Function Return", category := "Function"
      description := some "Declares the value the function returns"
      inputs := [execIn, data "value" "Value" .object]
      color := some "#E91E63" } ]

def constants : List Definition :=
  [ constant "number_constant" "Number Constant" "A fixed number" .number,
    constant "string_constant" "String Constant" "A fixed string" .string,
    constant "boolean_constant" "Boolean Constant" "A fixed true/false value" .boolean,
    constant "null_constant" "Null Constant" "The null value" .object ]

def events : List Definition :=
  [ { id := "function_start", name := "Function Start", category := "Events"
      description := some "Where a function blueprint starts executing"
      outputs := [exec "exec" "Exec"]
      color := some "#4CAF50" },
    { id := "print", name := "Print", category := "Events"
      description := some "Prints a value to the console"
      inputs := [execIn, preset "value" "Value" .number (.int 0)]
      outputs := [execOut]
      color := some "#4CAF50" },
    { id := "end", name := "End", category := "Events"
      description := some "Where execution stops"
      inputs := [execIn]
      color := some "#F44336" },
    { id := "delay", name := "Delay", category := "Events"
      description := some "Waits before continuing"
      inputs := [execIn, preset "duration" "Duration (ms)" .number (.int 1000)]
      outputs := [execOut]
      color := some "#9C27B0" } ]

def hooks : List Definition :=
  [ lifecycle "onLoad" "Called when the component is loaded, before start" false,
    lifecycle "start" "Called before the first frame the component is active" false,
    lifecycle "update" "Called every frame" true,
    lifecycle "lateUpdate" "Called every frame after all update calls" true,
    lifecycle "onEnable" "Called when the component is enabled" false,
    lifecycle "onDisable" "Called when the component is disabled" false,
    lifecycle "onDestroy" "Called when the component is destroyed" false ]

def flowControl : List Definition :=
  [ fanOut "sequence" "Sequence" "Then" "Runs each output in order",
    fanOut "parallel" "Parallel" "Branch" "Runs every output concurrently and waits for all",
    { id := "if_condition", name := "Branch", category := "Flow Control"
      description := some "Chooses a path based on a condition"
      inputs := [execIn, preset "condition" "Condition" .boolean (.bool true)]
      outputs := [exec "true" "True", exec "false" "False"]
      color := some "#FF5722" },
    { id := "for_loop", name := "For Loop", category := "Flow Control"
      description := some "Runs the body a fixed number of times"
      inputs := [execIn, preset "count" "Count" .number (.int 10)]
      outputs := [exec "loop_body" "Loop Body", data "index" "Index" .number,
        exec "completed" "Completed"]
      color := some "#795548" },
    { id := "switch", name := "Switch", category := "Flow Control"
      description := some "Chooses a path based on a value"
      inputs := [execIn, preset "value" "Value" .number (.int 0)]
      outputs := [exec "case_0" "Case 0", exec "case_1" "Case 1", exec "default" "Default"]
      color := some "#607D8B" } ]

def math : List Definition :=
  [ arithmetic "add_numbers" "Add" "Adds two numbers" 0,
    arithmetic "subtract_numbers" "Subtract" "Subtracts B from A" 0,
    arithmetic "multiply_numbers" "Multiply" "Multiplies two numbers" 1,
    arithmetic "divide_numbers" "Divide" "Divides A by B" 1,
    { id := "random_number", name := "Random Number", category := "Math"
      description := some "A random number between min and max"
      inputs := [preset "min" "Min" .number (.int 0), preset "max" "Max" .number (.int 100)]
      outputs := [data "result" "Result" .number]
      color := some "#2196F3" },
    { id := "math_abs", name := "Absolute", category := "Math"
      description := some "The absolute value of a number"
      inputs := [preset "value" "Value" .number (.int 0)]
      outputs := [data "result" "Result" .number]
      color := some "#2196F3" } ]

def strings : List Definition :=
  let blank (id name : String) : Param := preset id name .string (.string "")
  [ { id := "string_concat", name := "Concatenate", category := "String"
      description := some "Joins two strings"
      inputs := [blank "a" "A", blank "b" "B"]
      outputs := [data "result" "Result" .string]
      color := some "#8BC34A" },
    { id := "string_length", name := "String Length", category := "String"
      description := some "Number of characters in a string"
      inputs := [blank "text" "Text"]
      outputs := [data "length" "Length" .number]
      color := some "#8BC34A" },
    { id := "string_contains", name := "Contains", category := "String"
      description := some "Whether the text contains the search string"
      inputs := [blank "text" "Text", blank "search" "Search"]
      outputs := [data "result" "Result" .boolean]
      color := some "#8BC34A" },
    { id := "string_replace", name := "Replace", category := "String"
      description := some "Replaces every occurrence of the search string"
      inputs := [blank "text" "Text", blank "search" "Search", blank "replace" "Replace"]
      outputs := [data "result" "Result" .string]
      color := some "#8BC34A" } ]

def logic : List Definition :=
  [ { id := "logic_and", name := "And", category := "Logic"
      inputs := [preset "a" "A" .boolean (.bool true), preset "b" "B" .boolean (.bool true)]
      outputs := [data "result" "Result" .boolean]
      color := some "#E91E63" },
    { id := "logic_or", name := "Or", category := "Logic"
      inputs := [preset "a" "A" .boolean (.bool false), preset "b" "B" .boolean (.bool false)]
      outputs := [data "result" "Result" .boolean]
      color := some "#E91E63" },
    { id := "logic_not", name := "Not", category := "Logic"
      inputs := [preset "value" "Value" .boolean (.bool true)]
      outputs := [data "result" "Result" .boolean]
      color := some "#E91E63" } ]

def comparisons : List Definition :=
  [ comparison "compare_equal" "Equal" "Whether A equals B",
    comparison "compare_greater" "Greater" "Whether A is greater than B",
    comparison "compare_less" "Less" "Whether A is less than B" ]

def variableNodes : List Definition :=
  let name := preset "name" "Name" .string (.string "variable")
  [ { id := "get_variable", name := "Get Variable", category := "Variables"
      description := some "Reads a blueprint variable"
      inputs := [name]
      outputs := [data "value" "Value" .object]
      color := some "#673AB7" },
    { id := "set_variable", name := "Set Variable", category := "Variables"
      description := some "Writes a blueprint variable"
      inputs := [execIn, name, data "value" "Value" .object]
      outputs := [execOut]
      color := some "#673AB7" } ]

def conversions : List Definition :=
  [ { id := "to_string", name := "To String", category := "Conversion"
      inputs := [data "value" "Value" .object]
      outputs := [data "result" "Result" .string]
      color := some "#00BCD4" },
    { id := "to_number", name := "To Number", category := "Conversion"
      inputs := [preset "value" "Value" .string (.string "0")]
      outputs := [data "result" "Result" .number]
      color := some "#00BCD4" },
    { id := "to_boolean", name := "To Boolean", category := "Conversion"
      inputs := [data "value" "Value" .object]
      outputs := [data "result" "Result" .boolean]
      color := some "#00BCD4" } ]

def debugging : List Definition :=
  [ { id := "debug_log", name := "Debug Log", category := "Debug"
      description := some "Logs a debug message"
      inputs := [execIn, preset "message" "Message" .string (.string "Hello World")]
      outputs := [execOut]
      color := some "#FF9800" },
    { id := "debug_break", name := "Breakpoint", category := "Debug"
      description := some "Pauses in an attached debugger"
      inputs := [execIn]
      outputs := [execOut]
      color := some "#F44336" },
    { id := "debug_watch", name := "Watch", category := "Debug"
      description := some "Logs a labelled value"
      inputs := [execIn, data "value" "Value" .object,
        preset "label" "Label" .string (.string "Watch")]
      outputs := [execOut]
      color := some "#FF9800" } ]

/-- All definitions of the palette. -/
def definitions : List Definition :=
  functions ++ constants ++ events ++ hooks ++ flowControl ++ math ++ strings ++ logic
    ++ comparisons ++ variableNodes ++ conversions ++ debugging

end Blueprints.Palette

namespace Blueprints

/-- The catalog of the palette. -/
def Catalog.builtin : Catalog := .ofList Palette.definitions

end Blueprints
