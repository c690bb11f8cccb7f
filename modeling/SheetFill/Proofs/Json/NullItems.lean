import Mathlib.Data.List.Forall2
import SheetFill.Proofs.Json.Scalars

/-!
# Null items of arrays

A null leads nowhere when it is reached as a member, but as an item of an array it is listed with the others. It
has no members, so no location leads further from it, and no key has a text there. In all that can be looked up,
a null item is therefore no other than an item without members: if all null items are replaced by such items,
every location has as many nodes as before, and every key has the same text.

If the null items are left out, nodes are missing where there were null items, and the first node of a location
is another one where the first item was null. Nothing else changes. Both cases are treated as one here: the null
items of a document are replaced by any number of values without members, and environments of the two documents
are compared in which corresponding nodes are bound.

## Main definitions

* `Value.replaceNulls` — a document with other values in place of its null items.
* `Value.listsAt` — the lists of items that make up the values at a location.
* `Environment.Replaced` — environments of the two documents, with corresponding nodes bound.

## Main results

* `Value.valuesFrom_standIns` — what is found in the new document stands for what is found in the old one.
* `Environment.Replaced.forall₂_resolve`, `Environment.Replaced.enter` — nodes correspond, and may be entered.
* `Environment.Replaced.sameTextsOn` — texts are the same where no first item is left out.
-/

namespace SheetFill.Json

namespace Value

/-- Is the value null? -/
def isNull : Value → Bool
  | .null => true
  | .bool _ | .number _ | .string _ | .array _ | .object _ => false

mutual

/-- The value with other values in place of each null item of its arrays, at any depth. -/
def replaceNulls (instead : List Value) : Value → Value
  | .array items => .array (replaceItems instead items)
  | .object members => .object (replaceMembers instead members)
  | .null => .null
  | .bool b => .bool b
  | .number n => .number n
  | .string s => .string s

/-- Items with other values in place of each null, at any depth. -/
def replaceItems (instead : List Value) : List Value → List Value
  | [] => []
  | v :: rest => (if v.isNull then instead else [replaceNulls instead v]) ++ replaceItems instead rest

/-- Members with other values in place of each null item; members that are null stay so. -/
def replaceMembers (instead : List Value) : List (String × Value) → List (String × Value)
  | [] => []
  | (k, v) :: rest => (k, replaceNulls instead v) :: replaceMembers instead rest

end

/-- The value without the null items of its arrays, at any depth. -/
def withoutNulls (v : Value) : Value := v.replaceNulls []

/-- What stands in place of an item. -/
def standIns (instead : List Value) (v : Value) : List Value :=
  if v.isNull then instead else [v.replaceNulls instead]

/-- What each of the values one segment before a path stands for. -/
def listsAt (root : Value) (path : Path) : List (List Value) :=
  path.foldl (fun lists segment => lists.flatten.map (membersAt segment)) [root.flat]

/-- The text of a key at the first of some values. -/
def textOf (key : String) (values : List Value) : String :=
  ((values.head?.bind (Document.keyValue? key)).map scalarText).getD ""

/-! ## Values at a path -/

theorem valuesFrom_append (values : List Value) (front rest : Path) :
    valuesFrom values (front ++ rest) = valuesFrom (valuesFrom values front) rest := List.foldl_append

theorem valuesFrom_subset {few many : List Value} (h : few ⊆ many) (path : Path) :
    valuesFrom few path ⊆ valuesFrom many path := by
  induction path generalizing few many with
  | nil => exact h
  | cons segment path ih =>
      refine ih fun w hw => ?_
      obtain ⟨v, hv, hw⟩ := List.mem_flatMap.1 hw
      exact List.mem_flatMap.2 ⟨v, h hv, hw⟩

/-- What is found from values at a path is at the longer path. -/
theorem valuesFrom_subset_append {root : Value} {values : List Value} {front : Path}
    (h : values ⊆ valuesFrom root.flat front) (rest : Path) :
    valuesFrom values rest ⊆ valuesFrom root.flat (front ++ rest) := by
  rw [valuesFrom_append]
  exact valuesFrom_subset h rest

/-- The lists at a path are those of its values. -/
theorem flatten_listsAt (root : Value) (path : Path) :
    (root.listsAt path).flatten = valuesFrom root.flat path := by
  have hfrom (lists : List (List Value)) :
      (path.foldl (fun lists segment => lists.flatten.map (membersAt segment)) lists).flatten =
        valuesFrom lists.flatten path := by
    induction path generalizing lists with
    | nil => rfl
    | cons segment path ih => exact ih _
  exact (hfrom [root.flat]).trans (by rw [List.flatten_singleton])

theorem listsAt_concat (root : Value) (path : Path) (segment : String) :
    root.listsAt (path ++ [segment]) = (valuesFrom root.flat path).map (membersAt segment) := by
  rw [← flatten_listsAt, listsAt, listsAt, List.foldl_append]
  rfl

/-- The first value at a path comes first in its list. -/
theorem exists_head_of_head?_valuesFrom {root v : Value} {path : Path}
    (hhead : v ∈ (valuesFrom root.flat path).head?) : ∃ items ∈ root.listsAt path, v ∈ items.head? := by
  rw [← flatten_listsAt, Option.mem_def, List.head?_flatten] at hhead
  exact List.exists_of_findSome?_eq_some hhead

/-- The first value that is found further from values at a path comes first in its list. -/
theorem exists_head_listsAt {root v : Value} {values : List Value} {front rest : Path}
    (hvalues : values ⊆ valuesFrom root.flat front) (hrest : rest ≠ [])
    (hhead : v ∈ (valuesFrom values rest).head?) :
    ∃ items ∈ root.listsAt (front ++ rest), v ∈ items.head? := by
  obtain ⟨init, segment, rfl⟩ := (List.eq_nil_or_concat rest).resolve_left hrest
  rw [List.concat_eq_append] at hhead ⊢
  rw [valuesFrom_append] at hhead
  have hflat : (valuesFrom (valuesFrom values init) [segment]) =
      (valuesFrom values init).flatMap (membersAt segment) := rfl
  rw [hflat, Option.mem_def, List.head?_flatMap] at hhead
  obtain ⟨u, hu, hfirst⟩ := List.exists_of_findSome?_eq_some hhead
  refine ⟨u.membersAt segment, ?_, hfirst⟩
  rw [← List.append_assoc, listsAt_concat]
  exact List.mem_map_of_mem (valuesFrom_subset_append hvalues init hu)

/-! ## Values with null items replaced -/

variable {instead : List Value}

theorem standIns_of_isNull {v : Value} (h : v.isNull = true) : standIns instead v = instead := if_pos h

theorem standIns_of_not_isNull {v : Value} (h : v.isNull = false) :
    standIns instead v = [v.replaceNulls instead] := by
  rw [standIns, h, if_neg Bool.false_ne_true]

theorem replaceItems_eq (instead items : List Value) :
    replaceItems instead items = items.flatMap (standIns instead) := by
  induction items with
  | nil => rw [replaceItems, List.flatMap_nil]
  | cons v rest ih => rw [replaceItems, ih, List.flatMap_cons, standIns]

theorem lookup_replaceMembers (key : String) (members : List (String × Value)) :
    lookup key (replaceMembers instead members) = (lookup key members).map (replaceNulls instead) := by
  induction members with
  | nil => rw [replaceMembers]; rfl
  | cons m rest ih =>
      obtain ⟨k, v⟩ := m
      rw [replaceMembers, lookup, lookup, ih]
      split
      · rfl
      · rfl

theorem member?_replaceNulls (key : String) (v : Value) :
    (v.replaceNulls instead).member? key = (v.member? key).map (replaceNulls instead) := by
  cases v with
  | object members =>
      rw [replaceNulls]
      exact lookup_replaceMembers key members
  | _ => simp [replaceNulls, member?]

theorem flat_replaceNulls (v : Value) :
    (v.replaceNulls instead).flat = v.flat.flatMap (standIns instead) := by
  cases v with
  | array items =>
      rw [replaceNulls, flat, flat, replaceItems_eq]
  | _ => simp [replaceNulls, flat, standIns, isNull]

theorem membersAt_replaceNulls (segment : String) (v : Value) :
    (v.replaceNulls instead).membersAt segment = (v.membersAt segment).flatMap (standIns instead) := by
  rw [membersAt, membersAt, member?_replaceNulls]
  cases v.member? segment with
  | none => rfl
  | some w => exact flat_replaceNulls w

theorem scalarText_replaceNulls (v : Value) : (v.replaceNulls instead).scalarText = v.scalarText := by
  cases v with
  | array items => rw [replaceNulls]; rfl
  | object members => rw [replaceNulls]; rfl
  | _ => rw [replaceNulls]

theorem keyValue?_replaceNulls (key : String) (v : Value) :
    Document.keyValue? key (v.replaceNulls instead) =
      (Document.keyValue? key v).map (replaceNulls instead) := by
  rw [Document.keyValue?, member?_replaceNulls, member?_replaceNulls, Document.keyValue?]
  cases v.member? key with
  | none => rfl
  | some w => rfl

/-- Values without members. -/
def Memberless (values : List Value) : Prop := ∀ v ∈ values, ∀ key, v.member? key = none

section Memberless

variable (h : Memberless instead)

include h

theorem flatMap_standIns_membersAt (segment : String) (v : Value) :
    (standIns instead v).flatMap (membersAt segment) =
      (v.membersAt segment).flatMap (standIns instead) := by
  cases hnull : v.isNull with
  | false =>
      rw [standIns_of_not_isNull hnull, List.flatMap_singleton, membersAt_replaceNulls]
  | true =>
      have hv : v.membersAt segment = [] := by
        cases v with
        | null => rfl
        | _ => cases hnull
      rw [standIns_of_isNull hnull, hv, List.flatMap_nil, List.flatMap_eq_nil_iff]
      intro w hw
      rw [membersAt, h w hw]

/-- What is found further from what stands in for values stands in for what is found further from these. -/
theorem valuesFrom_standIns (values : List Value) (path : Path) :
    valuesFrom (values.flatMap (standIns instead)) path =
      (valuesFrom values path).flatMap (standIns instead) := by
  induction path generalizing values with
  | nil => rfl
  | cons segment path ih =>
      have hstep : (values.flatMap (standIns instead)).flatMap (membersAt segment) =
          (values.flatMap (membersAt segment)).flatMap (standIns instead) := by
        rw [List.flatMap_assoc, List.flatMap_assoc]
        exact List.flatMap_congr fun v _ => flatMap_standIns_membersAt h segment v
      exact (congrArg (fun all => valuesFrom all path) hstep).trans (ih _)

/-- A key has the same text at what stands in for values, if something stands in for the first one. -/
theorem textOf_standIns {values : List Value} (key : String)
    (hfirst : ∀ v ∈ values.head?, standIns instead v ≠ []) :
    textOf key (values.flatMap (standIns instead)) = textOf key values := by
  cases values with
  | nil => rfl
  | cons v rest =>
      obtain ⟨w, others, hw⟩ := List.exists_cons_of_ne_nil (hfirst v rfl)
      rw [List.flatMap_cons, hw, textOf, textOf, List.cons_append, List.head?_cons, List.head?_cons,
        Option.bind_some, Option.bind_some]
      cases hnull : v.isNull with
      | false =>
          rw [standIns_of_not_isNull hnull] at hw
          rw [← (List.cons.inj hw).1, keyValue?_replaceNulls, Option.map_map]
          congr 2
          funext u
          exact scalarText_replaceNulls u
      | true =>
          rw [standIns_of_isNull hnull] at hw
          have hnone : Document.keyValue? key w = none := by
            simp only [Document.keyValue?, h w (by rw [hw]; exact List.mem_cons_self)]
          have hnone' : Document.keyValue? key v = none := by
            cases v with
            | null => rfl
            | _ => cases hnull
          rw [hnone, hnone']

end Memberless

end Value

/-! ## Environments with corresponding nodes -/

namespace Environment

open Document Value

/-- A node at a path in a document, and the one node that stands in for it. -/
def Counterpart (instead : List Value) (root : Value) (path : Path) (p p' : Pointer) : Prop :=
  ∃ v w, v ∈ valuesFrom root.flat path ∧ p.resolve root = some v ∧
    p'.resolve (root.replaceNulls instead) = some w ∧ standIns instead v = [w]

/--
Environments of a document and of the same document with its null items replaced. The same paths stand for a
node, and the nodes correspond.
-/
structure Replaced (instead : List Value) (e e' : Environment) : Prop where
  root_eq : e'.root = e.root.replaceNulls instead
  bound : ∀ path, Option.Rel (Counterpart instead e.root path) (e.node? path) (e'.node? path)

theorem replaced_ofValue (instead : List Value) (root : Value) :
    Replaced instead (ofValue root) (ofValue (root.replaceNulls instead)) :=
  ⟨rfl, fun _ => .none⟩

theorem textAt_eq_textOf {e : Environment} {location : String} {search : Bool} {values : List Value}
    (h : (e.resolve (segments location) search).map (·.resolve e.root) = values.map some) (key : String) :
    e.textAt location key search = textOf key values := by
  cases hnodes : e.resolve (segments location) search with
  | nil =>
      rw [hnodes, List.map_nil, eq_comm, List.map_eq_nil_iff] at h
      rw [Environment.textAt, hnodes, h]
      rfl
  | cons p nodes =>
      rw [hnodes] at h
      obtain ⟨v, rest, rfl, hv, -⟩ := List.map_eq_cons_iff.1 h.symm
      have hp : p.resolve e.root = some v := hv.symm
      rw [textAt_of_resolve hnodes, hp]
      rfl

namespace Replaced

variable {instead : List Value} {e e' : Environment}

theorem node?_eq_none_iff (h : Replaced instead e e') (path : Path) :
    e'.node? path = none ↔ e.node? path = none := by
  have hbound := h.bound path
  generalize e.node? path = node at hbound
  generalize e'.node? path = node' at hbound
  cases hbound with
  | some _ => simp
  | none => simp

/-- Look-ups start at the same path, at nodes that correspond. -/
theorem start?_cases (h : Replaced instead e e') (path : Path) :
    (e.start? path = none ∧ e'.start? path = none) ∨
      ∃ front rest p p', path = front ++ rest ∧ e.start? path = some (p, rest) ∧
        e'.start? path = some (p', rest) ∧ Counterpart instead e.root front p p' := by
  cases hstart : e.start? path with
  | none =>
      refine .inl ⟨rfl, start?_eq_none_iff.2 fun front hfront => ?_⟩
      exact (h.node?_eq_none_iff front).2 (start?_eq_none_iff.1 hstart front hfront)
  | some found =>
      obtain ⟨p, rest⟩ := found
      obtain ⟨front, rfl, hnode, hmax⟩ := start?_eq_some_iff.1 hstart
      have hbound := h.bound front
      rw [hnode] at hbound
      generalize hnode' : e'.node? front = node' at hbound
      obtain ⟨p', rfl, hp⟩ : ∃ p', node' = some p' ∧ Counterpart instead e.root front p p' := by
        cases hbound with
        | some hp => exact ⟨_, rfl, hp⟩
      refine .inr ⟨front, rest, p, p', rfl, rfl, start?_eq_some_iff.2 ⟨front, rfl, hnode', ?_⟩, hp⟩
      exact fun lower hbelow hpre => (h.node?_eq_none_iff lower).2 (hmax lower hbelow hpre)

/--
A look-up finds values of the path in the one document, and what stands in for them in the other. If something
stands in for the first item of each list at the path, it does so for the first value found.
-/
theorem resolve_values (h : Replaced instead e e') (hinstead : Memberless instead) (path : Path)
    (search : Bool) :
    ∃ values ⊆ valuesFrom e.root.flat path,
      (e.resolve path search).map (·.resolve e.root) = values.map some ∧
      (e'.resolve path search).map (·.resolve e'.root) =
        (values.flatMap (standIns instead)).map some ∧
      ((∀ items ∈ e.root.listsAt path, ∀ v ∈ items.head?, standIns instead v ≠ []) →
        ∀ v ∈ values.head?, standIns instead v ≠ []) := by
  rcases h.start?_cases path with ⟨hstart, hstart'⟩ | ⟨front, rest, p, p', rfl, hstart, hstart', hp⟩
  · -- nothing is bound on the way, and both searches start at the root, if they may
    cases search with
    | false =>
        refine ⟨[], List.nil_subset _, ?_, ?_, fun _ => nofun⟩
        · simp [resolve, hstart]
        · simp [resolve, hstart']
    | true =>
        refine ⟨valuesFrom e.root.flat path, List.Subset.refl _, ?_, ?_, fun hfirst v hv => ?_⟩
        · simp only [resolve, hstart, if_true]
          exact map_resolve_walk (map_resolve_spread rfl) path
        · simp only [resolve, hstart', if_true, ← valuesFrom_standIns hinstead, ← flat_replaceNulls,
            ← h.root_eq]
          exact map_resolve_walk (map_resolve_spread rfl) path
        · obtain ⟨items, hitems, hhead⟩ := exists_head_of_head?_valuesFrom hv
          exact hfirst items hitems v hhead
  · -- both searches start at nodes that correspond
    obtain ⟨v, w, hv, hresolve, hresolve', hw⟩ := hp
    have hsub : [v] ⊆ valuesFrom e.root.flat front := by simpa using hv
    refine ⟨valuesFrom [v] rest, valuesFrom_subset_append hsub rest, ?_, ?_, fun hfirst u hu => ?_⟩
    · simp only [resolve, hstart]
      exact map_resolve_walk (by rw [List.map_singleton, hresolve, List.map_singleton]) rest
    · simp only [resolve, hstart', ← valuesFrom_standIns hinstead, List.flatMap_singleton, hw]
      refine map_resolve_walk ?_ rest
      rw [List.map_singleton, h.root_eq, hresolve', List.map_singleton]
    · -- the bound node itself need not be first in a list, but something stands in for it
      by_cases hrest : rest = []
      · subst hrest
        obtain rfl : v = u := by simpa [valuesFrom] using hu
        rw [hw]
        exact List.cons_ne_nil _ _
      · obtain ⟨items, hitems, hhead⟩ := exists_head_listsAt hsub hrest hu
        exact hfirst items hitems u hhead

/-- Nodes correspond at a path, if one value stands in for each of the values there. -/
theorem forall₂_resolve (h : Replaced instead e e') (hinstead : Memberless instead) {path : Path}
    (hone : ∀ v ∈ valuesFrom e.root.flat path, ∃ w, standIns instead v = [w]) :
    List.Forall₂ (Counterpart instead e.root path) (e.resolve path true) (e'.resolve path true) := by
  obtain ⟨values, hsub, hresolve, hresolve', -⟩ := h.resolve_values hinstead path true
  rw [h.root_eq] at hresolve'
  generalize e.resolve path true = nodes at hresolve
  generalize e'.resolve path true = nodes' at hresolve'
  induction values generalizing nodes nodes' with
  | nil =>
      rw [List.map_nil, List.map_eq_nil_iff] at hresolve
      rw [List.flatMap_nil, List.map_nil, List.map_eq_nil_iff] at hresolve'
      rw [hresolve, hresolve']
      exact .nil
  | cons v values ih =>
      obtain ⟨hv, hsub⟩ := List.cons_subset.1 hsub
      obtain ⟨w, hw⟩ := hone v hv
      obtain ⟨p, rest, rfl, hp, hrest⟩ := List.map_eq_cons_iff.1 hresolve
      rw [List.flatMap_cons, hw, List.singleton_append] at hresolve'
      obtain ⟨p', rest', rfl, hp', hrest'⟩ := List.map_eq_cons_iff.1 hresolve'
      exact .cons ⟨v, w, hv, hp, hp', hw⟩ (ih hsub rest hrest rest' hrest')

/-- Environments stay so when corresponding nodes are entered. -/
theorem enter (h : Replaced instead e e') {path : Path} {p p' : Pointer}
    (hp : Counterpart instead e.root path p p') : Replaced instead (e.enter path p) (e'.enter path p') where
  root_eq := h.root_eq
  bound other := by
    simp only [Environment.enter]
    split
    · next heq =>
        subst heq
        exact .some hp
    · split
      · exact .none
      · exact h.bound other

theorem sameTextsOn (h : Replaced instead e e') (hinstead : Memberless instead) {locations : List String}
    (hfirst : ∀ location ∈ locations, ∀ items ∈ e.root.listsAt (segments location),
      ∀ v ∈ items.head?, standIns instead v ≠ []) : SameTextsOn locations e' e := by
  intro location hlocation key search
  obtain ⟨values, -, hresolve, hresolve', hstand⟩ :=
    h.resolve_values hinstead (segments location) search
  show e'.textAt location key search = e.textAt location key search
  rw [textAt_eq_textOf hresolve, textAt_eq_textOf hresolve']
  exact textOf_standIns hinstead key (hstand (hfirst location hlocation))

end Replaced

end Environment

end SheetFill.Json
