import Blueprints.Catalog.Basic
import Blueprints.Graph.Basic
import Blueprints.Text.Identifier

/-! # Names of temporaries

    Every data output of every node is given a local name before anything
    is emitted, so that a reader can refer to a value before its producer is
    written.  A name tells the definition, the number of the node and the
    output, as in `add_12_result`; a number is added where two outputs would
    share one name. -/

namespace Blueprints

/-- A base name, with its number from the second use on. -/
def numbered (base : String) (n : Nat) : String :=
  if n ≤ 1 then base else base ++ "_" ++ Nat.repr n

/-- The first of the `more + 1` numbered forms of a base, from the `n`-th
    on, that is not taken; the last of them is not asked about. -/
def firstFree (taken : List String) (base : String) (n : Nat) : Nat → String
  | 0 => numbered base n
  | more + 1 =>
    if taken.contains (numbered base n) then firstFree taken base (n + 1) more
    else numbered base n

/-- The first numbered form of a base that is not taken.  As many forms as
    there are taken names can fail, so one more is free. -/
def unusedName (taken : List String) (base : String) : String :=
  firstFree taken base 1 taken.length

/-- The first text that is not empty, of a list and a last resort. -/
def firstNonEmpty (last : String) (texts : List String) : String :=
  (texts.find? (!·.isEmpty)).getD last

/-- The first part of the names for a definition: its own name, else its
    id, in lower-case letters and digits, led by a letter. -/
def nameStem (d : Definition) : String :=
  let stem := firstNonEmpty "node" [Text.slug d.name, Text.slug d.id]
  String.ofList (Text.guardDigit 'n' stem.toList)

/-- The number of a node: that of its id, else its position. -/
def nodeNumber (n : Node) (position : Nat) : String :=
  n.numericSuffix?.getD (Nat.repr position)

/-- The name that an output would like to have. -/
def wantedName (d : Definition) (n : Node) (position : Nat) (output : Param) : String :=
  nameStem d ++ "_" ++ nodeNumber n position ++ "_" ++ Text.identifier output.id

/-- The names given so far, in the order in which they were given. -/
abbrev Temporaries := List (Endpoint × String)

namespace Temporaries

/-- The name of an output. -/
def name? (ts : Temporaries) (e : Endpoint) : Option String := ts.lookup e

/-- Names an output, unless it has a name. -/
def add (ts : Temporaries) (e : Endpoint) (wanted : String) : Temporaries :=
  match ts.name? e with
  | some _ => ts
  | none => ts ++ [(e, unusedName (ts.map Prod.snd) wanted)]

/-- Names the data outputs of a node. -/
def addNode (catalog : Catalog) (ts : Temporaries) (n : Node) (position : Nat) : Temporaries :=
  match catalog.find? n.definitionId with
  | none => ts
  | some d =>
    d.dataOutputs.foldl (fun ts p => ts.add ⟨n.id, p.id⟩ (wantedName d n position p)) ts

/-- Names the data outputs of all nodes of a blueprint. -/
def allocate (b : Blueprint) (catalog : Catalog) : Temporaries :=
  b.nodes.zipIdx.foldl (fun ts (n, position) => addNode catalog ts n position) []

end Temporaries

end Blueprints
