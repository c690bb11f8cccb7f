import SheetFill.Proofs.Json.Lexing

/-!
# A written value, read back

Reading the tokens of a value delivers it to the innermost container that is open, with its members in
the order of their keys. Reading does not look back further than that container, so this can be said of
each value by itself, whatever is open around it, as long as there is room for the containers inside.

## Main definitions

* `Value.sorted` — a value with its members in the order of their keys.

## Main results

* `run_tokens` — the tokens of a value deliver the value.
* `Value.read?_of_tokens` — a text with the tokens of a value is read as the value.
* `Value.member?_sorted_object` — the members of a value that was read.
-/

namespace SheetFill.Json

namespace Value

mutual

/-- A value with its members as reading arranges them: by ascending keys, the last one of each key. -/
def sorted : Value → Value
  | .null => .null
  | .bool b => .bool b
  | .number n => .number n
  | .string s => .string s
  | .array items => .array (sortedItems items)
  | .object members => .object (sortedMembers members [])

/-- The items of an array, each one sorted. -/
def sortedItems : List Value → List Value
  | [] => []
  | v :: items => v.sorted :: sortedItems items

/-- Members put in their places among those that there are already. -/
def sortedMembers : List (String × Value) → List (String × Value) → List (String × Value)
  | [], there => there
  | (k, v) :: members, there => sortedMembers members (insertMember k v.sorted there)

end

theorem sortedItems_eq_map (items : List Value) : sortedItems items = items.map sorted := by
  induction items with
  | nil => rfl
  | cons v items ih => rw [sortedItems, ih, List.map_cons]

/-- A member is found under its key, and does not change what is found under others. -/
theorem lookup_insertMember (key k : String) (v : Value) (members : List (String × Value)) :
    lookup key (insertMember k v members) = if k = key then some v else lookup key members := by
  induction members with
  | nil => rfl
  | cons m members ih =>
      obtain ⟨k', v'⟩ := m
      simp only [insertMember]
      split
      · next hsame =>
          subst hsame
          simp only [lookup]
          by_cases hk : k = key
          · simp only [if_pos hk]
          · simp only [if_neg hk]
      · next hdiffer =>
          split
          · rfl
          · simp only [lookup, ih]
            by_cases hk : k = key
            · have hk' : k' ≠ key := fun h => hdiffer (hk.trans h.symm)
              simp only [if_pos hk, if_neg hk']
            · simp only [if_neg hk]

theorem lookup_append (key : String) (members more : List (String × Value)) :
    lookup key (members ++ more) = (lookup key members).or (lookup key more) := by
  induction members with
  | nil => rfl
  | cons m members ih =>
      obtain ⟨k, v⟩ := m
      simp only [List.cons_append, lookup, ih]
      split
      · rfl
      · rfl

/-- Of the members put in their places, the last one of a key is found. -/
theorem lookup_sortedMembers (key : String) (members there : List (String × Value)) :
    lookup key (sortedMembers members there) =
      ((lookup key members.reverse).map sorted).or (lookup key there) := by
  induction members generalizing there with
  | nil => rfl
  | cons m members ih =>
      obtain ⟨k, v⟩ := m
      rw [sortedMembers, ih, lookup_insertMember, List.reverse_cons, lookup_append]
      cases lookup key members.reverse with
      | some w => rfl
      | none =>
          simp only [lookup, Option.map_none, Option.none_or]
          split
          · rfl
          · rfl

/-- What is found in an object that was read: the last member of the key among those written. -/
@[simp]
theorem member?_sorted_object (key : String) (members : List (String × Value)) :
    (Value.object members).sorted.member? key = (lookup key members.reverse).map sorted := by
  rw [sorted, member?, lookup_sortedMembers]
  exact Option.or_none

end Value

/-! ## Running over tokens -/

/-- The tokens of a value deliver it to what is open, if there is room for its containers. -/
def Delivers (room : Nat) (v : Value) : Prop :=
  ∀ (stack : List Open) (ts : List Token), stack.length + room ≤ maxNesting →
    run (v.tokens ++ ts) stack .value = run ts (deliver v.sorted stack).1 (deliver v.sorted stack).2

/-- The first token of a value does not end a container. -/
theorem run_itemOrEnd (v : Value) (ts : List Token) (stack : List Open) :
    run (v.tokens ++ ts) stack .itemOrEnd = run (v.tokens ++ ts) stack .value := by
  cases v with
  | null => rfl
  | bool b => rfl
  | number n => rfl
  | string s => rfl
  | array items => rfl
  | object members => rfl

theorem run_itemTokens {room : Nat} {items : List Value} (h : ∀ v ∈ items, Delivers room v)
    (hne : items ≠ []) (there : List Value) (outer : List Open) (ts : List Token)
    (hroom : outer.length + 1 + room ≤ maxNesting) :
    run (Value.itemTokens items ++ .closeArray :: ts) (.array there :: outer) .value =
      run ts (deliver (.array (there.reverse ++ Value.sortedItems items)) outer).1
        (deliver (.array (there.reverse ++ Value.sortedItems items)) outer).2 := by
  induction items generalizing there with
  | nil => exact absurd rfl hne
  | cons v items ih =>
      obtain ⟨hv, hitems⟩ := List.forall_mem_cons.1 h
      cases items with
      | nil =>
          have hreverse : there.reverse ++ Value.sortedItems [v] = (v.sorted :: there).reverse := by
            rw [List.reverse_cons]
            rfl
          rw [Value.itemTokens, hv (.array there :: outer) _ hroom, hreverse]
          rfl
      | cons w items =>
          have hreverse : there.reverse ++ Value.sortedItems (v :: w :: items) =
              (v.sorted :: there).reverse ++ Value.sortedItems (w :: items) := by
            rw [List.reverse_cons, List.append_assoc]
            rfl
          rw [Value.itemTokens, List.append_assoc, hv (.array there :: outer) _ hroom, hreverse,
            ← ih hitems (List.cons_ne_nil w items)]
          rfl

theorem run_memberTokens {room : Nat} {members : List (String × Value)}
    (h : ∀ m ∈ members, Delivers room m.2) (hne : members ≠ []) (there : List (String × Value))
    (outer : List Open) (ts : List Token) (hroom : outer.length + 1 + room ≤ maxNesting) :
    run (Value.memberTokens members ++ .closeObject :: ts) (.object there :: outer) .key =
      run ts (deliver (.object (Value.sortedMembers members there)) outer).1
        (deliver (.object (Value.sortedMembers members there)) outer).2 := by
  induction members generalizing there with
  | nil => exact absurd rfl hne
  | cons m members ih =>
      obtain ⟨k, v⟩ := m
      obtain ⟨hv, hmembers⟩ := List.forall_mem_cons.1 h
      have hkey (ts : List Token) :
          run (.string k.toList :: .colon :: ts) (.object there :: outer) .key =
            run ts (.member there k :: outer) .value := by
        show run ts (.member there (String.ofList k.toList) :: outer) .value = _
        rw [String.ofList_toList]
      cases members with
      | nil =>
          rw [Value.memberTokens, List.cons_append, List.cons_append, hkey, hv (.member there k :: outer) _ hroom]
          rfl
      | cons m members =>
          rw [Value.memberTokens, List.cons_append, List.cons_append, hkey, List.append_assoc,
            hv (.member there k :: outer) _ hroom, Value.sortedMembers, ← ih hmembers (List.cons_ne_nil m members)]
          rfl

/-- An array is opened, and ends where its items do. -/
theorem run_array {room : Nat} {items : List Value} (h : ∀ v ∈ items, Delivers room v) :
    Delivers (room + 1) (.array items) := by
  intro stack ts hroom
  have hopen : stack.length < maxNesting := by omega
  have hstep (ts : List Token) :
      run (.openArray :: ts) stack .value = run ts (.array [] :: stack) .itemOrEnd := by
    simp only [run, step, stepValue, openContainer, if_pos hopen]
  rw [Value.tokens, List.cons_append, List.append_assoc, List.cons_append, List.nil_append, hstep]
  cases items with
  | nil => rfl
  | cons v items =>
      have hitems := run_itemTokens h (List.cons_ne_nil v items) [] stack ts (by omega)
      have hfirst (ts : List Token) :
          run (Value.itemTokens (v :: items) ++ ts) (.array [] :: stack) .itemOrEnd =
            run (Value.itemTokens (v :: items) ++ ts) (.array [] :: stack) .value := by
        cases items with
        | nil => exact run_itemOrEnd v ts _
        | cons w items =>
            rw [Value.itemTokens, List.append_assoc]
            exact run_itemOrEnd v _ _
      rw [hfirst, hitems]
      rfl

/-- An object is opened, and ends where its members do. -/
theorem run_object {room : Nat} {members : List (String × Value)}
    (h : ∀ m ∈ members, Delivers room m.2) : Delivers (room + 1) (.object members) := by
  intro stack ts hroom
  have hopen : stack.length < maxNesting := by omega
  have hstep (ts : List Token) :
      run (.openObject :: ts) stack .value = run ts (.object [] :: stack) .keyOrEnd := by
    simp only [run, step, stepValue, openContainer, if_pos hopen]
  rw [Value.tokens, List.cons_append, List.append_assoc, List.cons_append, List.nil_append, hstep]
  cases members with
  | nil => rfl
  | cons m members =>
      obtain ⟨k, v⟩ := m
      have hmembers := run_memberTokens h (List.cons_ne_nil (k, v) members) [] stack ts (by omega)
      have hfirst (ts : List Token) :
          run (Value.memberTokens ((k, v) :: members) ++ ts) (.object [] :: stack) .keyOrEnd =
            run (Value.memberTokens ((k, v) :: members) ++ ts) (.object [] :: stack) .key := by
        cases members with
        | nil => rfl
        | cons m members => rfl
      rw [hfirst, hmembers]
      rfl

/-- The tokens of a value deliver the value with its members sorted. -/
theorem run_tokens {room : Nat} {v : Value} (h : v.Fits room) : Delivers room v := by
  induction h with
  | null => exact fun stack ts _ => rfl
  | bool b => exact fun stack ts _ => rfl
  | number _ => exact fun stack ts _ => rfl
  | string s =>
      intro stack ts _
      show run ts (deliver (.string (String.ofList s.toList)) stack).1 _ = _
      rw [String.ofList_toList]
      rfl
  | array _ ih => exact run_array ih
  | object _ ih => exact run_object ih

/-- A text with the tokens of a value is the text of the value, whatever blanks there are in it. -/
theorem Value.read?_of_tokens {room : Nat} {v : Value} (h : v.Fits room) (hroom : room ≤ maxNesting)
    {text : String} (htokens : SheetFill.Json.tokens text.toList = some v.tokens) :
    Value.read? text = some v.sorted := by
  have hrun := run_tokens h [] [] (by simpa using hroom)
  rw [List.append_nil] at hrun
  rw [Value.read?, htokens, Option.bind_some, hrun]
  rfl

end SheetFill.Json
