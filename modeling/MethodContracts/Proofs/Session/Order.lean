import Mathlib.Data.List.Perm.Basic
import MethodContracts.Proofs.Session.Entries
import MethodContracts.Proofs.Session.Soundness
import MethodContracts.Proofs.Session.TwoRuns

/-!
# Order of declaration

Inference goes through the methods in order. It only looks backwards (`infer_looks_backwards`):
for the first methods it finds the same whatever is inside the later ones. And the order matters
only between a method and those that it calls (`infer_of_perm`).
-/

namespace MethodContracts

/-- An entry without what is inside the method. -/
def Entry.outside (e : Entry) : Entry := { e with body := none, descriptors := [] }

namespace Session

variable {s s' : Session} {m t : Method} {depth i : Nat} {es es' : List Entry} {e : Entry}

/-! ### Looking backwards -/

theorem length_methods (hs : ofEntries es = .ok s) : s.methods.length = es.length := by
  rw [methods_eq_map hs, List.length_map]

/-- What is declared of the methods does not depend on what is inside them. -/
theorem map_declaration_method? (hs : ofEntries es = .ok s) (hs' : ofEntries es' = .ok s')
    (houtside : es.map Entry.outside = es'.map Entry.outside) (id : MethodId) :
    (s.method? id).map Method.declaration = (s'.method? id).map Method.declaration := by
  have hmap : ∀ {es : List Entry} {s : Session}, ofEntries es = .ok s →
      s.methods.map Method.declaration =
        (es.map Entry.outside).map fun e => (methodOf e).declaration := by
    intro es s hs
    rw [methods_eq_map hs, List.map_map, List.map_map]
    rfl
  have hlookup := map_method? Method.declaration (fun p => p.1.signature.id) fun _ => rfl
  rw [hlookup, hlookup, hmap hs, hmap hs', houtside]

theorem getElem?_methods_of_take (hs : ofEntries es = .ok s) (hs' : ofEntries es' = .ok s')
    {k : Nat} (hfirst : es.take k = es'.take k) (hi : i < k) :
    s.methods[i]? = s'.methods[i]? := by
  have hentry : es[i]? = es'[i]? := by
    rw [← List.getElem?_take_of_lt hi, hfirst, List.getElem?_take_of_lt hi]
  rw [methods_eq_map hs, methods_eq_map hs', List.getElem?_map, List.getElem?_map, hentry]

/-- The two runs find the same as long as the entries are the same. -/
theorem inferFirst_eq_of_take (hs : ofEntries es = .ok s) (hs' : ofEntries es' = .ok s')
    (houtside : es.map Entry.outside = es'.map Entry.outside) {k : Nat}
    (hfirst : es.take k = es'.take k) : s.inferFirst depth k = s'.inferFirst depth k := by
  have hdeclaration := map_declaration_method? hs hs' houtside
  have hprofiles : s.SameProfiles s' := by
    intro id
    have hprofile := congrArg (Option.map Prod.fst) (hdeclaration id)
    rwa [Option.map_map, Option.map_map] at hprofile
  have hdeclared : ∀ id, (s.method? id).bind Method.declared =
      (s'.method? id).bind Method.declared := by
    intro id
    have hdeclared := congrArg (fun o => o.bind Prod.snd) (hdeclaration id)
    rwa [Option.bind_map, Option.bind_map] at hdeclared
  have hlength : s.methods.length = s'.methods.length := by
    have hlength := congrArg List.length houtside
    rwa [List.length_map, List.length_map, ← length_methods hs, ← length_methods hs'] at hlength
  refine inferFirst_congr hlength fun i hi m m' hm hm' => ?_
  rw [getElem?_methods_of_take hs hs' hfirst hi, hm'] at hm
  obtain rfl := Option.some.inj hm
  refine ⟨rfl, inferMethod_congr hprofiles fun _ id _ _ => ?_⟩
  exact contracts_facts_congr (hdeclared id) fun _ => rfl

/-- **Inference only looks backwards.** Sessions that declare the same, position by position, and
whose first `k` entries are the same, have the same contracts for the first `k` methods. -/
theorem infer_looks_backwards (hs : ofEntries es = .ok s) (hs' : ofEntries es' = .ok s')
    (houtside : es.map Entry.outside = es'.map Entry.outside) {k : Nat}
    (hfirst : es.take k = es'.take k) (depth : Nat) :
    ∀ e ∈ es.take k, ∃ clauses, (s.infer depth).of? e.signature.id = some clauses ∧
      (s'.infer depth).of? e.signature.id = some clauses := by
  have hrun : s.inferFirst depth k = s'.inferFirst depth k :=
    inferFirst_eq_of_take hs hs' houtside hfirst
  intro e he
  obtain ⟨i, hi⟩ := List.mem_iff_getElem?.1 he
  have hik : i < k := by
    have hlt := (List.getElem?_eq_some_iff.1 hi).1
    rw [List.length_take] at hlt
    omega
  rw [List.getElem?_take_of_lt hik] at hi
  obtain ⟨m, hm, rfl⟩ := exists_method_of_getElem? hs hi
  have hm' : s'.methods[i]? = some m := by
    rw [← getElem?_methods_of_take hs hs' hfirst hik, hm]
  refine ⟨_, of?_infer hm, ?_⟩
  show (s'.infer depth).of? m.id = _
  rw [← of?_inferFirst_of_lt hm' hik, ← hrun, of?_inferFirst_of_lt hm hik, of?_infer hm]

namespace Sample

/-- The session `textChecks` with nothing inside its last method. -/
def opaqueDescribe : Session where
  methods := textChecks.methods.modify 3 fun m => { m with entry := m.entry.outside }
  nodup_ids := by decide

end Sample

open Sample

/-- The last method loses its contracts, and those before it keep theirs. -/
theorem infer_looks_backwards_textChecks :
    ofEntries (textChecks.methods.map Method.entry) = .ok textChecks ∧
    ofEntries (opaqueDescribe.methods.map Method.entry) = .ok opaqueDescribe ∧
    (textChecks.infer 64).of? describe.id ≠ (opaqueDescribe.infer 64).of? describe.id ∧
    (textChecks.infer 64).of? hasText.id = some [⟨⟨[.null]⟩, .bool false⟩] ∧
    (opaqueDescribe.infer 64).of? hasText.id = some [⟨⟨[.null]⟩, .bool false⟩] := by
  have hs : ofEntries (textChecks.methods.map Method.entry) = .ok textChecks := rfl
  have hs' : ofEntries (opaqueDescribe.methods.map Method.entry) = .ok opaqueDescribe := rfl
  have hvalue : (textChecks.infer 64).of? hasText.id = some [⟨⟨[.null]⟩, .bool false⟩] := by
    decide +kernel
  have hmem : (textChecks.methods.map Method.entry)[2] ∈
      (textChecks.methods.map Method.entry).take 3 := List.mem_of_getElem? (i := 2) rfl
  obtain ⟨clauses, hfound, hfound'⟩ :=
    infer_looks_backwards hs hs' rfl (k := 3) rfl 64 _ hmem
  have hclauses : clauses = [⟨⟨[.null]⟩, .bool false⟩] :=
    Option.some.inj (hfound.symm.trans hvalue)
  exact ⟨hs, hs', by decide +kernel, hvalue, hclauses ▸ hfound'⟩

/-! ### Changing the order -/

/-- Whether an entry comes before another one. -/
def Precedes (es : List Entry) (a b : Entry) : Prop :=
  ∃ i j : Nat, i < j ∧ es[i]? = some a ∧ es[j]? = some b

theorem precedes_iff {j : Nat} (hs : ofEntries es = .ok s) (ht : s.methods[i]? = some t)
    (hm : s.methods[j]? = some m) : Precedes es t.entry m.entry ↔ i < j := by
  constructor
  · rintro ⟨i', j', hlt, hi', hj'⟩
    obtain ⟨t', ht', htentry⟩ := exists_method_of_getElem? hs hi'
    obtain ⟨m', hm', hmentry⟩ := exists_method_of_getElem? hs hj'
    have hi : i' = i := index_eq_of_id_eq ht' ht (by rw [Method.id, htentry]; rfl)
    have hj : j' = j := index_eq_of_id_eq hm' hm (by rw [Method.id, hmentry]; rfl)
    rwa [hi, hj] at hlt
  · exact fun hlt => ⟨i, j, hlt, getElem?_entry hs ht, getElem?_entry hs hm⟩

theorem method?_of_perm (h : s.methods.Perm s'.methods) (id : MethodId) :
    s.method? id = s'.method? id := by
  cases hm : s.method? id with
  | none =>
      rw [method?_eq_none_iff, (h.map Method.id).mem_iff] at hm
      rw [method?_eq_none_iff.2 hm]
  | some m =>
      obtain ⟨hmem, rfl⟩ := method?_eq_some hm
      rw [method?_of_mem (h.mem_iff.1 hmem)]

/-- Whether a method and another one that it calls come in the same order in two sessions. Where
contracts are declared, the order does not matter. -/
def KeepsCallOrder (s s' : Session) : Prop :=
  ∀ (i i' : Nat) (m : Method), s.methods[i]? = some m → s'.methods[i']? = some m →
    m.declared = none → ∀ (j j' : Nat) (t : Method), s.methods[j]? = some t →
      s'.methods[j']? = some t → t.id ≠ m.id → m.subject.Calls t.id → (j < i ↔ j' < i')

theorem keepsCallOrder_of_precedes (hs : ofEntries es = .ok s) (hs' : ofEntries es' = .ok s')
    (horder : ∀ b ∈ es, b.contract = none → ∀ body, b.body = some body → ∀ a ∈ es,
      a.signature.id ≠ b.signature.id → body.Calls a.signature.id →
        (Precedes es a b ↔ Precedes es' a b)) : s.KeepsCallOrder s' := by
  intro i i' m hm hm' hdeclared j j' t ht ht' hother ⟨body, hbody, hcalls⟩
  have hcontract := (declared_eq_none_iff hs (List.mem_of_getElem? hm)).1 hdeclared
  have hiff := horder m.entry (List.mem_of_getElem? (getElem?_entry hs hm)) hcontract body hbody
    t.entry (List.mem_of_getElem? (getElem?_entry hs ht)) hother hcalls
  rwa [precedes_iff hs ht hm, precedes_iff hs' ht' hm'] at hiff

/-- What a method sees of those that it calls is the same at its place in either order, if the
same is found for those that come before it. -/
theorem contracts_facts_of_perm (hperm : s.methods.Perm s'.methods)
    (horder : s.KeepsCallOrder s') {i' : Nat} (hm : s.methods[i]? = some m)
    (hm' : s'.methods[i']? = some m) (hdeclared : m.declared = none)
    (hbefore : ∀ j < i, ∀ t, s.methods[j]? = some t →
      (s.infer depth).of? t.id = (s'.infer depth).of? t.id)
    {id : MethodId} (hother : id ≠ m.id) (hcalls : m.subject.Calls id) :
    (s.facts (s.inferFirst depth i)).contracts id =
      (s'.facts (s'.inferFirst depth i')).contracts id := by
  have hlookup := method?_of_perm hperm id
  refine contracts_facts_congr (by rw [hlookup]) fun _ => ?_
  cases ht : s.method? id with
  | none =>
      have ht' : s'.method? id = none := hlookup.symm.trans ht
      rw [of?_inferFirst_of_unknown ht, of?_inferFirst_of_unknown ht']
  | some t =>
      obtain ⟨htmem, rfl⟩ := method?_eq_some ht
      obtain ⟨j, hj⟩ := List.mem_iff_getElem?.1 htmem
      obtain ⟨j', hj'⟩ := List.mem_iff_getElem?.1 (hperm.mem_iff.1 htmem)
      have hiff := horder i i' m hm hm' hdeclared j j' t hj hj' hother hcalls
      exact of?_inferFirst_congr hj hj' hiff fun hlt => hbefore j hlt t hj

theorem of?_infer_of_perm (hperm : s.methods.Perm s'.methods) (horder : s.KeepsCallOrder s')
    (hm : s.methods[i]? = some m) : (s.infer depth).of? m.id = (s'.infer depth).of? m.id := by
  have hprofiles : s.SameProfiles s' := fun id => by rw [method?_of_perm hperm id]
  -- the induction is along the first order; in the second one, callees come first as well
  induction i using Nat.strongRecOn generalizing m with
  | ind i ih =>
      obtain ⟨i', hm'⟩ :=
        List.mem_iff_getElem?.1 (hperm.mem_iff.1 (List.mem_of_getElem? hm))
      rw [of?_infer hm, of?_infer hm']
      refine congrArg some (inferMethod_congr hprofiles fun hdeclared id hother hcalls => ?_)
      exact contracts_facts_of_perm hperm horder hm hm' hdeclared
        (fun j hj t ht => ih j hj ht) hother hcalls

/-- **Order matters only between a method and those that it calls.** Sessions of the same entries
in two orders have the same contracts for each method, if a method that is called from a method
without declared contracts comes before its caller in both orders or in none. -/
theorem infer_of_perm (hs : ofEntries es = .ok s) (hs' : ofEntries es' = .ok s')
    (hperm : es.Perm es')
    (horder : ∀ b ∈ es, b.contract = none → ∀ body, b.body = some body → ∀ a ∈ es,
      a.signature.id ≠ b.signature.id → body.Calls a.signature.id →
        (Precedes es a b ↔ Precedes es' a b)) (depth : Nat) :
    ∀ e ∈ es, ∃ clauses, (s.infer depth).of? e.signature.id = some clauses ∧
      (s'.infer depth).of? e.signature.id = some clauses := by
  have hmethods : s.methods.Perm s'.methods := by
    rw [methods_eq_map hs, methods_eq_map hs']
    exact hperm.map methodOf
  have hcalls : s.KeepsCallOrder s' := keepsCallOrder_of_precedes hs hs' horder
  intro e he
  obtain ⟨i, hi⟩ := List.mem_iff_getElem?.1 he
  obtain ⟨m, hm, rfl⟩ := exists_method_of_getElem? hs hi
  exact ⟨_, of?_infer hm, (of?_infer_of_perm hmethods hcalls hm).symm.trans (of?_infer hm)⟩

namespace Sample

theorem asCall?_of_within_firstParameter {m : Signature} {e : Expr}
    (h : e.Within (firstParameter m)) : e.asCall? = none := by
  rcases Expr.within_iff.1 h with rfl | ⟨c, hc, -⟩
  · rfl
  · exact absurd hc List.not_mem_nil

/-- A method that calls another one for its first parameter, in parentheses or not, calls no
other one. -/
theorem eq_target_of_calls {caller target : Signature} {range : TextRange} {e : Expr}
    {id : MethodId}
    (he : e = firstParameter caller ∨ ∃ r, e = .parenthesized r (firstParameter caller))
    (h : Body.Calls ⟨[.ofCall range (callOf target [e])]⟩ id) : id = target.id := by
  obtain ⟨d, call, ⟨top, htop, hwithin⟩, hcall, hid⟩ := h
  obtain rfl := List.mem_singleton.1 htop
  rcases Expr.within_iff.1 hwithin with rfl | ⟨c, hc, hd⟩
  · obtain rfl := Option.some.inj hcall
    exact (Option.some.inj hid).symm
  · obtain rfl : c = e := List.mem_singleton.1 hc
    have hnone : d.asCall? = none := by
      rcases he with rfl | ⟨r, rfl⟩
      · exact asCall?_of_within_firstParameter hd
      · rcases Expr.within_iff.1 hd with rfl | ⟨c, hc, hd⟩
        · rfl
        · obtain rfl := List.mem_singleton.1 hc
          exact asCall?_of_within_firstParameter hd
    rw [hnone] at hcall
    simp at hcall

/-- The methods of `textChecks`, with the last of them before the two in the middle. -/
def describeFirst : Session where
  methods := textChecks.methods.take 1 ++
    (textChecks.methods.drop 3 ++ (textChecks.methods.drop 1).take 2)
  nodup_ids := by decide

/-- An entry of `textChecks` is known by its id. -/
theorem entry_eq_of_id_eq {a : Entry} {m : Method} {i : Nat}
    (ha : a ∈ textChecks.methods.map Method.entry) (hm : textChecks.methods[i]? = some m)
    (hid : a.signature.id = m.id) : a = m.entry := by
  obtain ⟨t, ht, rfl⟩ := List.mem_map.1 ha
  rw [eq_of_id_eq ht (List.mem_of_getElem? hm) hid]

end Sample

/-- The caller `describe` moves to the front, but stays behind the method that it calls. -/
theorem infer_of_perm_textChecks :
    ofEntries (textChecks.methods.map Method.entry) = .ok textChecks ∧
    ofEntries (describeFirst.methods.map Method.entry) = .ok describeFirst ∧
    (textChecks.infer 64).of? hasText.id = some [⟨⟨[.null]⟩, .bool false⟩] ∧
    (describeFirst.infer 64).of? hasText.id = some [⟨⟨[.null]⟩, .bool false⟩] := by
  have hs : ofEntries (textChecks.methods.map Method.entry) = .ok textChecks := rfl
  have hs' : ofEntries (describeFirst.methods.map Method.entry) = .ok describeFirst := rfl
  have hmethods : (textChecks.methods.take 1 ++
      ((textChecks.methods.drop 1).take 2 ++ textChecks.methods.drop 3)).Perm
        describeFirst.methods := List.perm_append_comm.append_left _
  have hperm : (textChecks.methods.map Method.entry).Perm
      (describeFirst.methods.map Method.entry) := hmethods.map Method.entry
  have horder : ∀ b ∈ textChecks.methods.map Method.entry, b.contract = none →
      ∀ body, b.body = some body → ∀ a ∈ textChecks.methods.map Method.entry,
      a.signature.id ≠ b.signature.id → body.Calls a.signature.id →
        (Precedes (textChecks.methods.map Method.entry) a b ↔
          Precedes (describeFirst.methods.map Method.entry) a b) := by
    intro b hb hcontract body hbody a ha _ hcalls
    obtain ⟨m, hm, rfl⟩ := List.mem_map.1 hb
    simp only [textChecks, List.mem_cons, List.not_mem_nil, or_false] at hm
    rcases hm with rfl | rfl | rfl | rfl
    · simp at hcontract
    · -- the body of `isBlank` is empty
      obtain rfl := Option.some.inj hbody
      obtain ⟨e, call, ⟨top, htop, -⟩, -⟩ := hcalls
      exact absurd htop List.not_mem_nil
    · obtain rfl := Option.some.inj hbody
      have hid := eq_target_of_calls (Or.inr ⟨_, rfl⟩) hcalls
      obtain rfl := entry_eq_of_id_eq (i := 1) ha rfl hid
      exact iff_of_true ⟨1, 2, by decide, rfl, rfl⟩ ⟨2, 3, by decide, rfl, rfl⟩
    · obtain rfl := Option.some.inj hbody
      have hid := eq_target_of_calls (Or.inl rfl) hcalls
      obtain rfl := entry_eq_of_id_eq (i := 0) ha rfl hid
      exact iff_of_true ⟨0, 3, by decide, rfl, rfl⟩ ⟨0, 1, by decide, rfl, rfl⟩
  have hvalue : (textChecks.infer 64).of? hasText.id = some [⟨⟨[.null]⟩, .bool false⟩] := by
    decide +kernel
  have hmem : (textChecks.methods.map Method.entry)[2] ∈ textChecks.methods.map Method.entry :=
    List.getElem_mem _
  obtain ⟨clauses, hfound, hfound'⟩ := infer_of_perm hs hs' hperm horder 64 _ hmem
  have hclauses : clauses = [⟨⟨[.null]⟩, .bool false⟩] :=
    Option.some.inj (hfound.symm.trans hvalue)
  exact ⟨hs, hs', hvalue, hclauses ▸ hfound'⟩

end Session

end MethodContracts
