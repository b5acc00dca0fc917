import Mathlib.Data.List.Nodup
import Blueprints.Proofs.Emit.Acts
import Blueprints.Proofs.Text.Literals

/-! # Labels of cases

    A switch writes a case for each of its outputs that is connected, under a
    label that is made from the id of the output.  The labels are those of the
    connected outputs, in their order (`labels_visitSwitch`).  A label is fit for
    its id if the id is not misread as a number (`isLabelOf_ofOutput`), and else
    for none (`not_isLabelOf_of_misread`).  Two labels are the same exactly if one
    id is the other one with `case_` in front of it (`text_ofOutput_eq_iff`). -/

namespace Blueprints

namespace CaseLabel

/-! ## The label of an id -/

/-- The text for which an output stands: its id less a leading `case_`. -/
def valueOf (id : String) : String := String.ofList (dropWord "case_".toList id.toList)

/-- A label for an id: `default:` for the id of that name, and for any other
    one a case with a literal for its text. -/
inductive IsLabelOf (id : String) : String → Prop where
  | default (hid : id = "default") : IsLabelOf id "default:"
  | number (hid : id ≠ "default") (hvalue : Text.IsNumericLiteral (valueOf id).toList) :
      IsLabelOf id ("case " ++ valueOf id ++ ":")
  | string {literal : String} (hid : id ≠ "default")
      (hvalue : Text.IsStringLiteral literal.toList (valueOf id).toList) :
      IsLabelOf id ("case " ++ literal ++ ":")

/-- What stands in a case for a text: the text as it is if it reads as a
    number, and else the text in quotes. -/
def literalOf (value : String) : String :=
  if Text.isNumber value then value else Json.quote value

/-- A label is the word `case` with a literal for the value. -/
theorem text_ofOutput {id : String} (hid : id ≠ "default") :
    (ofOutput id).text = "case " ++ literalOf (valueOf id) ++ ":" := by
  rw [ofOutput, if_neg (by rwa [beq_iff_eq]), literalOf]
  show (if Text.isNumber (valueOf id) then CaseLabel.number (valueOf id)
    else .string (valueOf id)).text = _
  split
  · rfl
  · rfl

theorem case_text_inj {s t : String} (h : "case " ++ s ++ ":" = "case " ++ t ++ ":") : s = t :=
  (String.append_right_inj _).1 ((String.append_left_inj _).1 h)

/-- No case is written like the default one. -/
theorem default_text_ne (s : String) : "default:" ≠ "case " ++ s ++ ":" := by
  intro h
  have hchars := congrArg String.toList h
  rw [String.toList_append, String.toList_append] at hchars
  cases hchars

/-- A text that reads as a number is no string literal. -/
theorem ne_of_isStringLiteral {s literal : String} {value : List Char}
    (hs : Text.isNumber s = true) (h : Text.IsStringLiteral literal.toList value) :
    s ≠ literal := by
  rintro rfl
  obtain ⟨body, hbody, -⟩ := h
  exact Text.ne_quote_of_isNumber hs _ hbody

/-- The id `default` is not misread. -/
theorem ne_default_of_misread {id : String} (h : Text.Misread (valueOf id)) : id ≠ "default" := by
  rintro rfl
  exact absurd h.isNumber (by decide)

/-- **A label is fit for its id if the id is not misread.** -/
theorem isLabelOf_ofOutput {id : String} (h : ¬ Text.Misread (valueOf id)) :
    IsLabelOf id (ofOutput id).text := by
  by_cases hid : id = "default"
  · subst hid
    exact .default rfl
  rw [text_ofOutput hid, literalOf]
  cases hnumber : Text.isNumber (valueOf id) with
  | false => exact .string hid (Text.isStringLiteral_quote _)
  | true => exact .number hid ((Text.isNumericLiteral_iff _).2 ⟨hnumber, h⟩)

/-- **The label of an id that is misread is fit for no id.** -/
theorem not_isLabelOf_of_misread {id : String} (h : Text.Misread (valueOf id)) (id' : String) :
    ¬ IsLabelOf id' (ofOutput id).text := by
  rw [text_ofOutput (ne_default_of_misread h), literalOf, if_pos h.isNumber]
  intro hlabel
  generalize htext : "case " ++ valueOf id ++ ":" = text at hlabel
  cases hlabel with
  | default _ => exact default_text_ne _ htext.symm
  | number _ hvalue =>
      rw [← case_text_inj htext] at hvalue
      exact ((Text.isNumericLiteral_iff _).1 hvalue).2 h
  | string _ hvalue => exact ne_of_isStringLiteral h.isNumber hvalue (case_text_inj htext)

/-! ## Ids with the same label -/

/-- An id starts with `case_`. -/
def Marked (id : String) : Prop := "case_".toList <+: id.toList

instance (id : String) : Decidable (Marked id) :=
  inferInstanceAs (Decidable ("case_".toList <+: id.toList))

/-- An id is another one with `case_` in front of it, and the other one is
    neither marked so itself nor `default`. -/
def Clash (id id' : String) : Prop := id = "case_" ++ id' ∧ id' ≠ "default" ∧ ¬ Marked id'

instance (id id' : String) : Decidable (Clash id id') :=
  inferInstanceAs (Decidable (_ ∧ _ ∧ ¬ Marked id'))

theorem marked_append (value : String) : Marked ("case_" ++ value) := by
  rw [Marked, String.toList_append]
  exact List.prefix_append ..

theorem valueOf_marked (value : String) : valueOf ("case_" ++ value) = value := by
  rw [valueOf, dropWord, if_pos (List.isPrefixOf_iff_prefix.2 (marked_append value)),
    String.toList_append, List.drop_left, String.ofList_toList]

theorem valueOf_of_not_marked {id : String} (h : ¬ Marked id) : valueOf id = id := by
  rw [valueOf, dropWord, if_neg (by rwa [List.isPrefixOf_iff_prefix]), String.ofList_toList]

/-- A marked id is the mark and its value. -/
theorem Marked.eq_append {id : String} (h : Marked id) : id = "case_" ++ valueOf id := by
  obtain ⟨cs, hcs⟩ := h
  have hid : id = "case_" ++ String.ofList cs := by
    rw [← String.toList_inj, String.toList_append, ← hcs, @String.toList_ofList cs]
  rw [hid, valueOf_marked]

/-- **Two ids have one value exactly if one of them is the other one marked.** -/
theorem valueOf_eq_iff {id id' : String} (hne : id ≠ id') :
    valueOf id = valueOf id' ↔
      (id = "case_" ++ id' ∧ ¬ Marked id') ∨ (id' = "case_" ++ id ∧ ¬ Marked id) := by
  constructor
  · intro heq
    by_cases hid : Marked id
    · by_cases hid' : Marked id'
      · exact absurd (by rw [hid.eq_append, heq, ← hid'.eq_append]) hne
      · rw [valueOf_of_not_marked hid'] at heq
        exact .inl ⟨heq ▸ hid.eq_append, hid'⟩
    · rw [valueOf_of_not_marked hid] at heq
      by_cases hid' : Marked id'
      · exact .inr ⟨heq ▸ hid'.eq_append, hid⟩
      · rw [valueOf_of_not_marked hid'] at heq
        exact absurd heq hne
  · rintro (⟨rfl, hid'⟩ | ⟨rfl, hid⟩)
    · rw [valueOf_marked, valueOf_of_not_marked hid']
    · rw [valueOf_marked, valueOf_of_not_marked hid]

/-- Literals of different values differ: quotes tell texts from numbers, and both
    can be read back. -/
theorem literalOf_inj {v v' : String} (h : literalOf v = literalOf v') : v = v' := by
  rw [literalOf, literalOf] at h
  cases hv : Text.isNumber v with
  | true =>
      cases hv' : Text.isNumber v' with
      | true => rwa [hv, hv'] at h
      | false =>
          rw [hv, hv'] at h
          exact absurd h (ne_of_isStringLiteral hv (Text.isStringLiteral_quote v'))
  | false =>
      cases hv' : Text.isNumber v' with
      | true =>
          rw [hv, hv'] at h
          exact absurd h.symm (ne_of_isStringLiteral hv' (Text.isStringLiteral_quote v))
      | false =>
          rw [hv, hv'] at h
          exact Text.eq_of_quote_eq h

/-- The default clashes with nothing. -/
theorem not_clash_default (id : String) : ¬ Clash "default" id := by
  rintro ⟨h, -⟩
  have hchars := congrArg String.toList h
  rw [String.toList_append] at hchars
  cases hchars

/-- No id clashes with itself. -/
theorem Clash.ne {id id' : String} (h : Clash id id') : id ≠ id' := by
  rintro rfl
  obtain ⟨heq, -, hmark⟩ := h
  exact hmark (heq ▸ marked_append id)

/-- **Two labels are the same exactly if the ids clash.** -/
theorem text_ofOutput_eq_iff {id id' : String} (hne : id ≠ id') :
    (ofOutput id).text = (ofOutput id').text ↔ Clash id id' ∨ Clash id' id := by
  by_cases hid : id = "default"
  · subst hid
    rw [text_ofOutput hne.symm]
    refine iff_of_false (default_text_ne _) ?_
    rintro (h | ⟨-, h, -⟩)
    · exact not_clash_default id' h
    · exact h rfl
  by_cases hid' : id' = "default"
  · subst hid'
    rw [text_ofOutput hid]
    refine iff_of_false (default_text_ne _).symm ?_
    rintro (⟨-, h, -⟩ | h)
    · exact h rfl
    · exact not_clash_default id h
  rw [text_ofOutput hid, text_ofOutput hid']
  have hsame : "case " ++ literalOf (valueOf id) ++ ":" = "case " ++ literalOf (valueOf id') ++ ":"
      ↔ valueOf id = valueOf id' :=
    ⟨fun h => literalOf_inj (case_text_inj h), fun h => by rw [h]⟩
  rw [hsame, valueOf_eq_iff hne, Clash, Clash, and_iff_right hid, and_iff_right hid']

end CaseLabel

/-! ## The labels that a switch writes -/

/-- The label of a member of a block that opens a case. -/
def Item.label? : Item Statement → Option CaseLabel
  | .line (.openCase label) => some label
  | _ => none

/-- The labels in a block, in their order. -/
def Arena.labels (a : Arena Statement) (block : Nat) : List CaseLabel :=
  (a.body block).filterMap Item.label?

/-- The outputs of a node that are connected. -/
def Context.connected (ctx : Context) (n : Node) (outputs : List Param) : List Param :=
  outputs.filter fun p => !(ctx.index.outgoing ⟨n.id, p.id⟩).isEmpty

namespace Arena

/-- A line that opens no case adds no label. -/
theorem labels_line_of_none (a : Arena Statement) (block b : Nat) {s : Statement}
    (hs : Item.label? (.line s) = none) : (a.line b s).labels block = a.labels block := by
  rw [labels, labels, body_line]
  split
  · next h => rw [List.filterMap_append, List.filterMap_cons_none hs, h.1, List.filterMap_nil,
      List.append_nil]
  · rfl

theorem labels_openCase {a : Arena Statement} {block : Nat} (h : block < a.size)
    (label : CaseLabel) :
    (a.line block (.openCase label)).labels block = a.labels block ++ [label] := by
  rw [labels, body_line, if_pos ⟨rfl, h⟩, List.filterMap_append]
  rfl

@[simp] theorem labels_reserve (a : Arena Statement) (place : Place) (b block : Nat) :
    (a.reserve place b).2.labels block = a.labels block := by
  rw [labels, labels, body_reserve]
  split
  · next h => rw [List.filterMap_append, List.filterMap_cons_none rfl, h.1, List.filterMap_nil,
      List.append_nil]
  · rfl

end Arena

/-- Blocks for what follows have no labels. -/
theorem labels_spread (b block : Nat) (conns : List Connection) (e : Emission) :
    (spread b conns e).2.blocks.labels block = e.blocks.labels block := by
  induction conns generalizing e with
  | nil => rfl
  | cons c rest ih =>
      rw [spread]
      exact (ih _).trans (e.blocks.labels_reserve .inline b block)

theorem labels_goOn (b block : Nat) (conns : List Connection) (e : Emission) :
    (goOn b conns e).2.blocks.labels block = e.blocks.labels block := by
  unfold goOn
  split
  · rfl
  · exact labels_spread ..

/-- What a case adds to the labels: its own one. -/
theorem labels_case {cases : Nat} {e : Emission} (hcases : cases < e.blocks.size)
    (label : CaseLabel) (b case : Nat) (conns : List Connection) :
    (goOn b conns ((((((e.emit cases (.openCase label)).reserve .nested cases).2.reserve
      .inline case).2.emit case .leaveCase).emit cases .close))).2.blocks.labels cases
        = e.blocks.labels cases ++ [label] := by
  rw [labels_goOn, Emission.blocks_emit, Arena.labels_line_of_none _ _ _ rfl, Emission.blocks_emit,
    Arena.labels_line_of_none _ _ _ rfl, Emission.blocks_reserve, Arena.labels_reserve,
    Emission.blocks_reserve, Arena.labels_reserve, Emission.blocks_emit,
    Arena.labels_openCase hcases]

/-- A block that is there stays there. -/
theorem lt_size_goOn {b block : Nat} {e : Emission} (hb : b < e.blocks.size)
    (conns : List Connection) (hblock : block < e.blocks.size) :
    block < (goOn b conns e).2.blocks.size :=
  have hmoves : Emission.Moves True e (goOn b conns e).2 := moves_goOn conns hb
  hmoves.lt_size hblock

/-- The labels of cases are those of the connected outputs. -/
theorem labels_writeCases (ctx : Context) (n : Node) (outputs : List Param) {cases : Nat}
    {e : Emission} (hcases : cases < e.blocks.size) :
    (writeCases ctx n cases outputs e).2.blocks.labels cases
      = e.blocks.labels cases ++ (ctx.connected n outputs).map fun p => .ofOutput p.id := by
  induction outputs generalizing e with
  | nil => exact (List.append_nil _).symm
  | cons p rest ih =>
      rw [writeCases, Context.connected, List.filter_cons]
      cases hout : ctx.index.outgoing ⟨n.id, p.id⟩ with
      | nil => exact ih hcases
      | cons c more =>
          dsimp only
          rw [ih, labels_case hcases, List.append_assoc]
          · rfl
          · refine lt_size_goOn ?_ _ ?_
            · simp
            · simp
              omega

/-- **The labels of a switch are those of its connected outputs**, in their
    order. -/
theorem labels_visitSwitch (ctx : Context) (n : Node) (d : Definition) (value : Operand)
    (block : Nat) (e : Emission) :
    (visitSwitch ctx n d value block e).2.blocks.labels e.blocks.size
      = (ctx.connected n d.execOutputs).map fun p => .ofOutput p.id := by
  rw [visitSwitch]
  dsimp only
  rw [Emission.fst_reserve, Emission.blocks_emit, Arena.size_line, labels_writeCases]
  · rw [Emission.blocks_emit, Arena.labels_line_of_none _ _ _ rfl, Emission.blocks_reserve,
      Arena.labels_reserve, Emission.blocks_emit, Arena.labels_line_of_none _ _ _ rfl, Arena.labels,
      Arena.body_eq_nil_of_le (Nat.le_refl _)]
    rfl
  · simp

/-- The labels of outputs with different ids are different exactly if no two of
    the ids clash. -/
theorem nodup_labels_iff {outputs : List Param} (hdistinct : (outputs.map Param.id).Nodup) :
    (outputs.map fun p => (CaseLabel.ofOutput p.id).text).Nodup
      ↔ ∀ p ∈ outputs, ∀ q ∈ outputs, ¬ CaseLabel.Clash p.id q.id := by
  rw [List.nodup_map_iff_inj_on hdistinct.of_map]
  constructor
  · intro hinj p hp q hq hclash
    have htext := (CaseLabel.text_ofOutput_eq_iff hclash.ne).2 (.inl hclash)
    exact hclash.ne (congrArg Param.id (hinj p hp q hq htext))
  · intro hclash p hp q hq htext
    by_cases hid : p.id = q.id
    · exact List.inj_on_of_nodup_map hdistinct hp hq hid
    · obtain h | h := (CaseLabel.text_ofOutput_eq_iff hid).1 htext
      · exact absurd h (hclash p hp q hq)
      · exact absurd h (hclash q hq p hp)

/-- **What the labels of a switch are.**  A switch whose outputs have different
    ids writes one label for each output that carries control and is connected,
    in the order of the outputs.  The labels are all different exactly if no id
    is another one with `case_` in front of it.  Each is `default:`, or a case
    with a string or number literal for the text of its id, if that text is no
    word for infinity or for no number, and no decimal with a digit behind the
    zero at its front; and else it is neither of these for any id. -/
theorem switch_labels_fit_and_differ_exactly (ctx : Context) (n : Node) (d : Definition)
    (value : Operand) (block : Nat) (e : Emission) (hdistinct : (d.outputs.map Param.id).Nodup) :
    (visitSwitch ctx n d value block e).2.blocks.labels e.blocks.size
        = (ctx.connected n d.execOutputs).map (fun p => CaseLabel.ofOutput p.id)
      ∧ (((ctx.connected n d.execOutputs).map fun p => (CaseLabel.ofOutput p.id).text).Nodup
        ↔ ∀ p ∈ ctx.connected n d.execOutputs, ∀ q ∈ ctx.connected n d.execOutputs,
          ¬ CaseLabel.Clash p.id q.id)
      ∧ ∀ p ∈ ctx.connected n d.execOutputs,
        (¬ Text.Misread (CaseLabel.valueOf p.id) →
            CaseLabel.IsLabelOf p.id (CaseLabel.ofOutput p.id).text)
          ∧ (Text.Misread (CaseLabel.valueOf p.id) →
            ∀ id, ¬ CaseLabel.IsLabelOf id (CaseLabel.ofOutput p.id).text) := by
  refine ⟨labels_visitSwitch ctx n d value block e, nodup_labels_iff ?_,
    fun p _ => ⟨CaseLabel.isLabelOf_ofOutput, CaseLabel.not_isLabelOf_of_misread⟩⟩
  have hsublist : List.Sublist (ctx.connected n d.execOutputs) d.outputs :=
    List.filter_sublist.trans List.filter_sublist
  exact hdistinct.sublist (hsublist.map Param.id)

/-! ### A switch with odd outputs -/

namespace OddCases

/-- An output that carries control. -/
def way (id : String) : Param where
  id := id
  name := ""
  kind := .exec

/-- A switch with two outputs that clash, and with two that are misread. -/
def switch : Definition where
  id := "switch"
  name := "Switch"
  category := "Flow Control"
  outputs := [way "case_1", way "1", way "case_inf", way "007", way "case_red", way "default"]

def chosen : Node := ⟨"s", "switch", "", {}, [], []⟩

/-- All outputs of the switch are connected. -/
def context : Context :=
  .of { kind := .function
        nodes := [chosen, ⟨"p", "print", "", {}, [], []⟩]
        connections := switch.outputs.map fun p => ⟨p.id, ⟨"s", p.id⟩, ⟨"p", "exec"⟩⟩ }
    ⟨[switch]⟩ {}

theorem connected_chosen : context.connected chosen switch.execOutputs = switch.outputs := by
  decide

theorem one_twice_and_two_misread :
    (visitSwitch context chosen switch .undefined 0 {}).2.blocks.labels 1
        = [.number "1", .number "1", .number "inf", .number "007", .string "red", .default]
      ∧ ¬ (switch.outputs.map fun p => (CaseLabel.ofOutput p.id).text).Nodup
      ∧ CaseLabel.IsLabelOf "case_1" "case 1:"
      ∧ CaseLabel.IsLabelOf "case_red" "case \"red\":"
      ∧ (∀ id, ¬ CaseLabel.IsLabelOf id "case inf:")
      ∧ ∀ id, ¬ CaseLabel.IsLabelOf id "case 007:" := by
  obtain ⟨hlabels, hdiffer, hfit⟩ :=
    switch_labels_fit_and_differ_exactly context chosen switch .undefined 0 {} (by decide)
  rw [connected_chosen] at hlabels hdiffer hfit
  refine ⟨hlabels.trans (by decide), fun hnodup => ?_, (hfit (way "case_1") (by decide)).1 ?_,
    (hfit (way "case_red") (by decide)).1 ?_, (hfit (way "case_inf") (by decide)).2 ?_,
    (hfit (way "007") (by decide)).2 ?_⟩
  · exact hdiffer.1 hnodup (way "case_1") (by decide) (way "1") (by decide) (by decide)
  · rintro (hword | ⟨-, d, r, hzero, -⟩)
    · exact absurd hword (by decide)
    · cases hzero
  · exact fun h => absurd h.isNumber (by decide)
  · exact .inl (by decide)
  · exact .inr ⟨by decide, '0', ['7'], by decide, by decide⟩

end OddCases

end Blueprints
