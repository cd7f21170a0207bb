import Mathlib.Data.List.Nodup
import MethodContracts.Session

/-!
# A session method by method

`Session.inferFirst` is what inference has found after the first `n` methods, so that the whole
inference is a run of as many steps as there are methods (`infer_eq_inferFirst`,
`inferFirst_succ`), none of which changes what was found before (`inferFirst_prefix_of_le`). A
property of the contracts of one method, given that those found before it have the property, is
one of all contracts (`forall_mem_infer`).

What a method sees of another one is looked up by id, and ids are unique: clauses that it sees
were declared for that method, or found for it before (`mem_contracts_facts`).
-/

namespace MethodContracts

namespace Session

variable {s : Session} {m t : Method} {depth i : Nat} {found : Results}

/-! ### Looking up methods -/

theorem method?_eq_some {id : MethodId} (h : s.method? id = some m) :
    m ∈ s.methods ∧ m.id = id := by
  refine ⟨List.mem_of_find?_eq_some h, ?_⟩
  simpa using List.find?_some h

theorem eq_of_id_eq (hm : m ∈ s.methods) (ht : t ∈ s.methods) (h : m.id = t.id) : m = t :=
  List.inj_on_of_nodup_map s.nodup_ids hm ht h

theorem method?_of_mem (hm : m ∈ s.methods) : s.method? m.id = some m := by
  cases h : s.method? m.id with
  | none =>
      have hno := List.find?_eq_none.1 h m hm
      simp at hno
  | some t =>
      obtain ⟨ht, hid⟩ := method?_eq_some h
      rw [eq_of_id_eq ht hm hid]

theorem method?_eq_none_iff {id : MethodId} :
    s.method? id = none ↔ id ∉ s.methods.map Method.id := by
  unfold method?
  rw [List.find?_eq_none, List.mem_map]
  simp only [decide_eq_true_eq]
  exact ⟨fun h ⟨m, hm, hid⟩ => h m hm hid, fun h m hm hid => h ⟨m, hm, hid⟩⟩

theorem index_eq_of_id_eq {j : Nat} (hm : s.methods[i]? = some m)
    (ht : s.methods[j]? = some t) (hid : m.id = t.id) : i = j := by
  have hlt : i < (s.methods.map Method.id).length := by
    rw [List.length_map]
    exact (List.getElem?_eq_some_iff.1 hm).1
  rw [← List.getElem?_inj hlt s.nodup_ids, List.getElem?_map, List.getElem?_map, hm, ht,
    Option.map_some, Option.map_some, hid]

theorem of?_eq_some {id : MethodId} {clauses : List Clause} (h : found.of? id = some clauses) :
    (id, clauses) ∈ found := by
  obtain ⟨p, hp, rfl⟩ := Option.map_eq_some_iff.1 h
  have hid : p.1 = id := by simpa using List.find?_some hp
  rw [← hid]
  exact List.mem_of_find?_eq_some hp

theorem of?_eq_none_iff {id : MethodId} : found.of? id = none ↔ id ∉ found.map Prod.fst := by
  unfold Results.of?
  rw [Option.map_eq_none_iff, List.find?_eq_none, List.mem_map]
  simp only [decide_eq_true_eq]
  exact ⟨fun h ⟨p, hp, hid⟩ => h p hp hid, fun h p hp hid => h ⟨p, hp, hid⟩⟩

/-- Where ids are unique, what is found for an id is what is listed for it. -/
theorem of?_eq_some_iff (hnodup : (found.map Prod.fst).Nodup) {id : MethodId}
    {clauses : List Clause} : found.of? id = some clauses ↔ (id, clauses) ∈ found := by
  refine ⟨of?_eq_some, fun hmem => ?_⟩
  cases hfound : found.of? id with
  | none => exact absurd (List.mem_map_of_mem hmem) (of?_eq_none_iff.1 hfound)
  | some clauses' =>
      have heq := List.inj_on_of_nodup_map hnodup (of?_eq_some hfound) hmem rfl
      rw [(Prod.mk.inj heq).2]

/-- What is seen of a method is what is declared for it, or else what was found for it before. -/
theorem contracts_facts (ht : t ∈ s.methods) :
    (s.facts found).contracts t.id = t.declared.getD ((found.of? t.id).getD []) := by
  simp only [facts, method?_of_mem ht, Option.bind_some]
  cases t.declared <;> rfl

/-- The clauses that are seen of a method were declared for it or found for it before. -/
theorem mem_contracts_facts (ht : t ∈ s.methods) {c : Clause}
    (hc : c ∈ (s.facts found).contracts t.id) :
    (∃ clauses, t.declared = some clauses ∧ c ∈ clauses) ∨
      ∃ clauses, (t.id, clauses) ∈ found ∧ c ∈ clauses := by
  rw [contracts_facts ht] at hc
  cases hdeclared : t.declared with
  | some clauses =>
      rw [hdeclared, Option.getD_some] at hc
      exact Or.inl ⟨clauses, rfl, hc⟩
  | none =>
      rw [hdeclared, Option.getD_none] at hc
      cases hfound : found.of? t.id with
      | none =>
          rw [hfound, Option.getD_none] at hc
          exact absurd hc List.not_mem_nil
      | some clauses =>
          rw [hfound, Option.getD_some] at hc
          exact Or.inr ⟨clauses, of?_eq_some hfound, hc⟩

/-! ### One method after the other -/

/-- The contracts of the first `n` methods. -/
def inferFirst (s : Session) (depth n : Nat) : Results :=
  (s.methods.take n).foldl (fun found m => found ++ [(m.id, s.inferMethod depth found m)]) []

theorem infer_eq_inferFirst (h : s.methods.length ≤ i) :
    s.infer depth = s.inferFirst depth i := by
  rw [inferFirst, List.take_of_length_le h, infer]

theorem inferFirst_succ (h : s.methods[i]? = some m) :
    s.inferFirst depth (i + 1) =
      s.inferFirst depth i ++ [(m.id, s.inferMethod depth (s.inferFirst depth i) m)] := by
  unfold inferFirst
  rw [List.take_add_one, h, Option.toList_some, List.foldl_append, List.foldl_cons,
    List.foldl_nil]

theorem inferFirst_succ_of_none (h : s.methods[i]? = none) :
    s.inferFirst depth (i + 1) = s.inferFirst depth i := by
  unfold inferFirst
  rw [List.take_add_one, h, Option.toList_none, List.append_nil]

/-- What was found stays as it is. -/
theorem inferFirst_prefix_of_le {j : Nat} (h : i ≤ j) :
    s.inferFirst depth i <+: s.inferFirst depth j := by
  induction h with
  | refl => exact List.prefix_refl _
  | @step j _ ih =>
      cases hm : s.methods[j]? with
      | none =>
          rw [inferFirst_succ_of_none hm]
          exact ih
      | some m =>
          rw [inferFirst_succ hm]
          exact ih.trans (List.prefix_append _ _)

theorem mem_infer_of_mem_inferFirst {p : MethodId × List Clause}
    (h : p ∈ s.inferFirst depth i) : p ∈ s.infer depth := by
  rw [infer_eq_inferFirst (Nat.le_max_right i s.methods.length)]
  exact (inferFirst_prefix_of_le (Nat.le_max_left _ _)).subset h

theorem mem_infer_of_getElem? (h : s.methods[i]? = some m) :
    (m.id, s.inferMethod depth (s.inferFirst depth i) m) ∈ s.infer depth := by
  refine mem_infer_of_mem_inferFirst (i := i + 1) ?_
  rw [inferFirst_succ h]
  exact List.mem_append_right _ (List.mem_singleton.2 rfl)

/-- Whatever is seen of a method on the way is among its contracts in the end. -/
theorem mem_infer_of_mem_contracts_facts (ht : t ∈ s.methods) {c : Clause}
    (hc : c ∈ (s.facts (s.inferFirst depth i)).contracts t.id) :
    ∃ clauses, (t.id, clauses) ∈ s.infer depth ∧ c ∈ clauses := by
  rcases mem_contracts_facts ht hc with ⟨clauses, hdeclared, hc⟩ | ⟨clauses, hfound, hc⟩
  · obtain ⟨j, hj⟩ := List.mem_iff_getElem?.1 ht
    refine ⟨_, mem_infer_of_getElem? hj, ?_⟩
    unfold inferMethod
    rw [hdeclared]
    exact hc
  · exact ⟨clauses, mem_infer_of_mem_inferFirst hfound, hc⟩

/-! ### The contracts of each method -/

theorem map_fst_inferFirst :
    (s.inferFirst depth i).map Prod.fst = (s.methods.take i).map Method.id := by
  induction i with
  | zero => rfl
  | succ i ih =>
      rw [List.take_add_one]
      cases hm : s.methods[i]? with
      | none => rw [inferFirst_succ_of_none hm, ih, Option.toList_none, List.append_nil]
      | some m =>
          rw [inferFirst_succ hm, List.map_append, List.map_append, ih]
          rfl

/-- Every method gets contracts, in order of declaration. -/
theorem map_fst_infer : (s.infer depth).map Prod.fst = s.methods.map Method.id := by
  rw [infer_eq_inferFirst (Nat.le_refl _), map_fst_inferFirst, List.take_length]

theorem nodup_inferFirst : ((s.inferFirst depth i).map Prod.fst).Nodup := by
  rw [map_fst_inferFirst]
  exact s.nodup_ids.sublist ((List.take_sublist i s.methods).map Method.id)

theorem of?_infer (hm : s.methods[i]? = some m) :
    (s.infer depth).of? m.id = some (s.inferMethod depth (s.inferFirst depth i) m) := by
  have hnodup : ((s.infer depth).map Prod.fst).Nodup := by
    rw [map_fst_infer]
    exact s.nodup_ids
  exact (of?_eq_some_iff hnodup).2 (mem_infer_of_getElem? hm)

/-- What is found in the end for a method that comes before has been found already. -/
theorem of?_inferFirst_of_lt {j : Nat} (ht : s.methods[j]? = some t) (h : j < i) :
    (s.inferFirst depth i).of? t.id = (s.infer depth).of? t.id := by
  rw [of?_infer ht, of?_eq_some_iff nodup_inferFirst]
  refine (inferFirst_prefix_of_le (Nat.succ_le_of_lt h)).subset ?_
  rw [inferFirst_succ ht]
  exact List.mem_append_right _ (List.mem_singleton.2 rfl)

/-- For the others nothing has been found. -/
theorem of?_inferFirst_of_le {j : Nat} (ht : s.methods[j]? = some t) (h : i ≤ j) :
    (s.inferFirst depth i).of? t.id = none := by
  rw [of?_eq_none_iff, map_fst_inferFirst]
  intro hmem
  obtain ⟨m, hm, hid⟩ := List.mem_map.1 hmem
  obtain ⟨k, hk⟩ := List.mem_iff_getElem?.1 hm
  rw [List.getElem?_take] at hk
  split at hk
  · have hkj : k = j := index_eq_of_id_eq hk ht hid
    omega
  · simp at hk

/-- What holds of the contracts of each method, given that it does of those before, holds of all
contracts. -/
theorem forall_mem_infer {P : MethodId → List Clause → Prop}
    (step : ∀ i m, s.methods[i]? = some m →
      (∀ id clauses, (id, clauses) ∈ s.inferFirst depth i → P id clauses) →
      P m.id (s.inferMethod depth (s.inferFirst depth i) m)) :
    ∀ id clauses, (id, clauses) ∈ s.infer depth → P id clauses := by
  rw [infer_eq_inferFirst (Nat.le_refl _)]
  -- the number of methods that are done is any number from here on
  generalize s.methods.length = n
  induction n with
  | zero =>
      intro id clauses h
      exact absurd h List.not_mem_nil
  | succ n ih =>
      cases hm : s.methods[n]? with
      | none =>
          rw [inferFirst_succ_of_none hm]
          exact ih
      | some m =>
          rw [inferFirst_succ hm]
          intro id clauses h
          rcases List.mem_append.1 h with hbefore | hnew
          · exact ih id clauses hbefore
          · obtain ⟨rfl, rfl⟩ := Prod.mk.inj (List.mem_singleton.1 hnew)
            exact step n m hm ih

end Session

end MethodContracts
