import Mathlib.Data.List.Nodup
import Mathlib.Data.List.Perm.Subperm
import Std.Data.String.ToNat
import Blueprints.Wiring.Temporaries

/-! # Names of temporaries are distinct

    Every data output of every node has a name, and no two outputs share
    one: a name that is given is not among those given before
    (`unusedName_not_mem`).  So a name tells the output that it stands for
    (`Temporaries.allocate_injective`). -/

namespace Blueprints

/-- Numbers tell the forms of a name apart. -/
theorem numbered_injective (base : String) {m n : Nat} (hm : 1 ≤ m) (hn : 1 ≤ n)
    (h : numbered base m = numbered base n) : m = n := by
  -- a base with a number is longer than the base
  have hlonger : ∀ k : Nat, base ≠ base ++ "_" ++ Nat.repr k := by
    intro k heq
    have hlength := congrArg String.length heq
    rw [String.length_append, String.length_append] at hlength
    have hone : "_".length = 1 := rfl
    omega
  rw [numbered, numbered] at h
  split at h
  · split at h
    · omega
    · exact absurd h (hlonger n)
  · split at h
    · exact absurd h.symm (hlonger m)
    · exact Nat.repr_injective ((String.append_right_inj _).1 h)

/-- The search stops at a form that is not taken, or at the last one.  It
    goes past taken forms only. -/
theorem firstFree_stops (taken : List String) (base : String) (more : Nat) :
    ∀ n, ∃ k, n ≤ k ∧ k ≤ n + more ∧ firstFree taken base n more = numbered base k
      ∧ (numbered base k ∉ taken ∨ k = n + more)
      ∧ ∀ j, n ≤ j → j < k → numbered base j ∈ taken := by
  induction more with
  | zero => exact fun n => ⟨n, Nat.le_refl n, Nat.le_refl n, rfl, Or.inr rfl, by omega⟩
  | succ more ih =>
      intro n
      rw [firstFree]
      split
      · next htaken =>
        obtain ⟨k, hle, hge, heq, hstop, hpassed⟩ := ih (n + 1)
        refine ⟨k, by omega, by omega, heq, hstop.imp_right (by omega), fun j hj hlt => ?_⟩
        rcases Nat.eq_or_lt_of_le hj with rfl | hlater
        · exact List.contains_iff_mem.1 htaken
        · exact hpassed j hlater hlt
      · next hfree =>
        exact ⟨n, Nat.le_refl n, Nat.le_add_right n _, rfl,
          Or.inl fun hmem => hfree (List.contains_iff_mem.2 hmem), by omega⟩

/-- There are more forms than taken names. -/
theorem exists_numbered_not_mem (taken : List String) (base : String) :
    ∃ k, 1 ≤ k ∧ k ≤ taken.length + 1 ∧ numbered base k ∉ taken := by
  by_contra hnone
  have hsub : (List.range' 1 (taken.length + 1)).map (numbered base) ⊆ taken := by
    intro name hname
    obtain ⟨k, hk, rfl⟩ := List.mem_map.1 hname
    rw [List.mem_range'_1] at hk
    by_contra hfree
    exact hnone ⟨k, hk.1, by omega, hfree⟩
  have hnodup : ((List.range' 1 (taken.length + 1)).map (numbered base)).Nodup := by
    refine List.Nodup.map_on (fun k hk k' hk' heq => ?_) List.nodup_range'
    rw [List.mem_range'_1] at hk hk'
    exact numbered_injective base hk.1 hk'.1 heq
  have hle := (List.subperm_of_subset hnodup hsub).length_le
  rw [List.length_map, List.length_range'] at hle
  omega

/-- **A new name is the first form that is not taken.** -/
theorem unusedName_first (taken : List String) (base : String) :
    ∃ k, 1 ≤ k ∧ k ≤ taken.length + 1 ∧ unusedName taken base = numbered base k
      ∧ numbered base k ∉ taken ∧ ∀ j, 1 ≤ j → j < k → numbered base j ∈ taken := by
  obtain ⟨k, hle, hge, heq, hstop, hpassed⟩ := firstFree_stops taken base taken.length 1
  refine ⟨k, hle, by omega, heq, ?_, hpassed⟩
  rcases hstop with hfree | hlast
  · exact hfree
  · -- all forms ahead of the last are taken, and not all forms are
    obtain ⟨j, hj, hjle, hfree⟩ := exists_numbered_not_mem taken base
    obtain rfl : j = k := by
      rcases Nat.lt_or_ge j k with hlt | hge'
      · exact absurd (hpassed j hj hlt) hfree
      · omega
    exact hfree

/-- **A new name is new.** -/
theorem unusedName_not_mem (taken : List String) (base : String) :
    unusedName taken base ∉ taken := by
  obtain ⟨k, -, -, heq, hfree, -⟩ := unusedName_first taken base
  rw [heq]
  exact hfree

namespace Temporaries

/-- No two outputs share a name. -/
def Distinct (ts : Temporaries) : Prop := (ts.map Prod.snd).Nodup

/-- Every output that has a name keeps it. -/
def Keeps (ts ts' : Temporaries) : Prop :=
  ∀ {e : Endpoint} {t : String}, ts.name? e = some t → ts'.name? e = some t

/-- **To name an output keeps names distinct.** -/
theorem Distinct.add {ts : Temporaries} (h : ts.Distinct) (e : Endpoint) (wanted : String) :
    (ts.add e wanted).Distinct := by
  rw [Temporaries.add]
  split
  · exact h
  · rw [Distinct, List.map_append, List.nodup_append]
    refine ⟨h, List.nodup_singleton _, fun t ht t' ht' heq => ?_⟩
    obtain rfl : t' = unusedName (ts.map Prod.snd) wanted := List.mem_singleton.1 ht'
    exact unusedName_not_mem (ts.map Prod.snd) wanted (heq ▸ ht)

/-- To name an output takes no name away. -/
theorem keeps_add (ts : Temporaries) (e : Endpoint) (wanted : String) :
    ts.Keeps (ts.add e wanted) := by
  intro e' t h
  rw [Temporaries.add]
  split
  · exact h
  · rw [name?, List.lookup_append, show List.lookup e' ts = some t from h]
    rfl

/-- An output that was named has a name. -/
theorem exists_name?_add (ts : Temporaries) (e : Endpoint) (wanted : String) :
    ∃ t, (ts.add e wanted).name? e = some t := by
  rw [Temporaries.add]
  split
  · next t h => exact ⟨t, h⟩
  · next h =>
    refine ⟨unusedName (ts.map Prod.snd) wanted, ?_⟩
    rw [name?, List.lookup_append, show List.lookup e ts = none from h]
    simp

/-- What holds of all entries and of a new name holds of all after naming. -/
theorem forall_mem_add {P : String → Prop} {ts : Temporaries} {e : Endpoint} {wanted : String}
    (h : ∀ x ∈ ts, P x.2) (hnew : P (unusedName (ts.map Prod.snd) wanted)) :
    ∀ x ∈ ts.add e wanted, P x.2 := by
  rw [Temporaries.add]
  split
  · exact h
  · exact List.forall_mem_append.2 ⟨h, List.forall_mem_singleton.2 hnew⟩

/-! ## Naming all outputs -/

/-- What holds of names and is kept by naming one more output holds after
    naming several. -/
theorem foldl_add_induction {P : Temporaries → Prop} {α : Type} {key : α → Endpoint}
    {wanted : α → String} (xs : List α)
    (step : ∀ ts, ∀ x ∈ xs, P ts → P (ts.add (key x) (wanted x)))
    {ts : Temporaries} (h : P ts) : P (xs.foldl (fun ts x => ts.add (key x) (wanted x)) ts) := by
  induction xs generalizing ts with
  | nil => exact h
  | cons x xs ih =>
      exact ih (fun ts x hx => step ts x (List.mem_cons_of_mem _ hx))
        (step ts x List.mem_cons_self h)

/-- A definition and a data output of it, at a node. -/
structure Offers (catalog : Catalog) (n : Node) (d : Definition) (p : Param) : Prop where
  known : catalog.find? n.definitionId = some d
  output : p ∈ d.dataOutputs

/-- **What holds of no names** and is kept by naming an output of a node holds
    of the names of a blueprint. -/
theorem foldl_addNode_induction {P : Temporaries → Prop} {catalog : Catalog}
    {nodes : List (Node × Nat)}
    (step : ∀ ts d n position p, (n, position) ∈ nodes → Offers catalog n d p → P ts →
      P (ts.add ⟨n.id, p.id⟩ (wantedName d n position p)))
    {ts : Temporaries} (h : P ts) :
    P (nodes.foldl (fun ts (n, position) => addNode catalog ts n position) ts) := by
  induction nodes generalizing ts with
  | nil => exact h
  | cons n nodes ih =>
      refine ih (fun ts d n position p hn => step ts d n position p (List.mem_cons_of_mem _ hn)) ?_
      show P (addNode catalog ts n.1 n.2)
      rw [addNode]
      split
      · exact h
      · next d hd =>
        exact foldl_add_induction _
          (fun ts p hp => step ts d n.1 n.2 p List.mem_cons_self ⟨hd, hp⟩) h

/-- **No two outputs of a blueprint share a name.** -/
theorem distinct_allocate (b : Blueprint) (catalog : Catalog) : (allocate b catalog).Distinct :=
  foldl_addNode_induction (P := Distinct) (fun _ _ _ _ _ _ _ h => h.add _ _) List.nodup_nil

theorem mem_of_name? {ts : Temporaries} {e : Endpoint} {t : String} (h : ts.name? e = some t) :
    (e, t) ∈ ts := by
  obtain ⟨l₁, l₂, rfl, -⟩ := List.lookup_eq_some_iff.1 h
  simp

/-- **A name stands for one output.** -/
theorem allocate_injective (b : Blueprint) (catalog : Catalog) {e e' : Endpoint} {t : String}
    (h : (allocate b catalog).name? e = some t) (h' : (allocate b catalog).name? e' = some t) :
    e = e' := by
  have hpair := List.inj_on_of_nodup_map (distinct_allocate b catalog) (mem_of_name? h)
    (mem_of_name? h') rfl
  exact congrArg Prod.fst hpair

/-- Every output of a list has a name once all of them were named. By induction on
    the outputs. -/
theorem exists_name?_foldl_add {outputs : List Param} {p : Param} (hp : p ∈ outputs)
    (id : String) (wanted : Param → String) (ts : Temporaries) :
    ∃ t, (outputs.foldl (fun ts p => ts.add ⟨id, p.id⟩ (wanted p)) ts).name? ⟨id, p.id⟩
      = some t := by
  induction outputs generalizing ts with
  | nil => exact absurd hp (List.not_mem_nil)
  | cons q rest ih =>
      rcases List.mem_cons.1 hp with rfl | hrest
      · obtain ⟨t, ht⟩ := exists_name?_add ts ⟨id, p.id⟩ (wanted p)
        exact ⟨t, foldl_add_induction (P := fun ts' => ts'.name? ⟨id, p.id⟩ = some t) rest
          (fun ts' _ _ h => keeps_add ts' _ _ h) ht⟩
      · exact ih hrest _

/-- **Every data output of every node has a name.** -/
theorem exists_name?_allocate (b : Blueprint) (catalog : Catalog) {n : Node} (hn : n ∈ b.nodes)
    {d : Definition} (hd : catalog.find? n.definitionId = some d) {p : Param}
    (hp : p ∈ d.dataOutputs) : ∃ t, (allocate b catalog).name? ⟨n.id, p.id⟩ = some t := by
  obtain ⟨position, hposition⟩ : ∃ position, (n, position) ∈ b.nodes.zipIdx := by
    obtain ⟨i, hi, rfl⟩ := List.getElem_of_mem hn
    exact ⟨i, List.mk_mem_zipIdx_iff_getElem?.2 (List.getElem?_eq_getElem hi)⟩
  obtain ⟨before, after, hsplit⟩ := List.append_of_mem hposition
  rw [allocate, hsplit, List.foldl_append, List.foldl_cons]
  have hnamed : ∃ t, (addNode catalog (before.foldl
      (fun ts (n, position) => addNode catalog ts n position) []) n position).name? ⟨n.id, p.id⟩
        = some t := by
    rw [addNode, hd]
    exact exists_name?_foldl_add hp n.id _ _
  obtain ⟨t, ht⟩ := hnamed
  exact ⟨t, foldl_addNode_induction (P := fun ts => ts.name? ⟨n.id, p.id⟩ = some t)
    (fun ts _ _ _ _ _ _ h => keeps_add ts _ _ h) ht⟩

end Temporaries

end Blueprints
