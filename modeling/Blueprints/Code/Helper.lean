/-! # Helper functions

    Generated code calls small functions for printing, arithmetic and the
    like.  They stand in one module that units import from, or are pasted
    into a unit: only those that it calls, in the order of the module. -/

namespace Blueprints

/-- A function that generated code may call. -/
inductive Helper where
  | log
  | delay
  | add
  | subtract
  | multiply
  | divide
  | logicAnd
  | logicOr
  | logicNot
  | equal
  | greater
  | less
  | toString
  | toNumber
  | toBoolean
  deriving DecidableEq, Repr

namespace Helper

/-- All helpers, in the order of the module. -/
def all : List Helper :=
  [.log, .delay, .add, .subtract, .multiply, .divide, .logicAnd, .logicOr, .logicNot,
    .equal, .greater, .less, .toString, .toNumber, .toBoolean]

theorem mem_all (h : Helper) : h ∈ all := by
  cases h with
  | _ => decide

/-- The name by which a helper is called. -/
def name : Helper → String
  | .log => "log"
  | .delay => "delay"
  | .add => "add"
  | .subtract => "subtract"
  | .multiply => "multiply"
  | .divide => "divide"
  | .logicAnd => "logicAnd"
  | .logicOr => "logicOr"
  | .logicNot => "logicNot"
  | .equal => "equal"
  | .greater => "greater"
  | .less => "less"
  | .toString => "toString"
  | .toNumber => "toNumber"
  | .toBoolean => "toBoolean"

/-- The params and the result of a helper. -/
def signature : Helper → String
  | .log => "(...values: any[]): void"
  | .delay => "(ms: number): Promise<void>"
  | .add | .subtract | .multiply | .divide => "(a: number, b: number): number"
  | .logicAnd | .logicOr => "(a: boolean, b: boolean): boolean"
  | .logicNot => "(value: boolean): boolean"
  | .equal => "(a: any, b: any): boolean"
  | .greater | .less => "(a: number, b: number): boolean"
  | .toString => "(value: any): string"
  | .toNumber => "(value: any): number"
  | .toBoolean => "(value: any): boolean"

/-- What a helper does. -/
def body : Helper → String
  | .log => "console.log(...values);"
  | .delay => "return new Promise(resolve => setTimeout(resolve, ms));"
  | .add => "return a + b;"
  | .subtract => "return a - b;"
  | .multiply => "return a * b;"
  | .divide => "return a / b;"
  | .logicAnd => "return a && b;"
  | .logicOr => "return a || b;"
  | .logicNot => "return !value;"
  | .equal => "return a === b;"
  | .greater => "return a > b;"
  | .less => "return a < b;"
  | .toString => "return String(value);"
  | .toNumber => "return Number(value);"
  | .toBoolean => "return Boolean(value);"

/-- The lines that declare a helper. -/
def declarationLines (h : Helper) : List String :=
  ["function " ++ h.name ++ h.signature ++ " \x7b", "    " ++ h.body, "\x7d"]

/-- The text that declares a helper. -/
def declaration (h : Helper) : String := "\n".intercalate h.declarationLines

/-- The helpers of a list, in the order of the module and each once. -/
def inOrder (used : List Helper) : List Helper := all.filter used.contains

/-- The statement that imports helpers; none if there are none. -/
def importStatement? (used : List Helper) (fromModule : String) : Option String :=
  match inOrder used with
  | [] => none
  | helpers =>
    some ("import \x7b " ++ ", ".intercalate (helpers.map name) ++ " \x7d from '"
      ++ fromModule ++ "';")

/-- The module that exports all helpers. -/
def library : String :=
  "/**\n * Blueprint runtime helpers\n * Auto-generated - do not modify manually\n */\n"
    ++ String.join (all.map fun h => "\nexport " ++ h.declaration ++ "\n")

end Helper

end Blueprints
