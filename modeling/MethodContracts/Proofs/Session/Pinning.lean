import MethodContracts.Proofs.Clause.Text
import MethodContracts.Proofs.Session.Order

/-!
# Declaring what was found

The contracts that are found for a method can be declared for it in text, and nothing changes
(`infer_pinned`): they are read back as they were, and every method still finds the same. Declared
contracts are seen by earlier methods too, so this holds only if none of these calls the method.

The two runs are compared step by step. A later method sees the same clauses, in one run because
they were found before and in the other because they are declared.
-/

namespace MethodContracts

/-- The entry with clauses declared for it. -/
def Entry.declaring (e : Entry) (clauses : List Clause) : Entry :=
  { e with contract := some (Clause.listText clauses) }

namespace Session

variable {s s' : Session} {m m' t : Method} {es : List Entry} {e : Entry} {p depth : Nat}
  {clauses : List Clause}

/-- Of the other methods, a session in which one is exchanged knows the same. -/
theorem method?_of_set (hm : s.methods[p]? = some m) (hid : m'.id = m.id)
    (hset : s'.methods = s.methods.set p m') {id : MethodId} (hother : id ≠ m.id) :
    s'.method? id = s.method? id := by
  cases ht : s.method? id with
  | none =>
      rw [method?_eq_none_iff] at ht ⊢
      rwa [hset, map_set_eq hm hid]
  | some t =>
      obtain ⟨htmem, rfl⟩ := method?_eq_some ht
      obtain ⟨j, hj⟩ := List.mem_iff_getElem?.1 htmem
      have hne : p ≠ j := by
        rintro rfl
        rw [hm] at hj
        exact hother (congrArg Method.id (Option.some.inj hj)).symm
      have hj' : s'.methods[j]? = some t := by rw [hset, List.getElem?_set_ne hne, hj]
      exact method?_of_mem (List.mem_of_getElem? hj')

/-- A method sees the same contracts in both sessions, unless it comes before the exchanged one
and looks at that. -/
theorem contracts_facts_of_set (hm : s.methods[p]? = some m) (hid : m'.id = m.id)
    (hset : s'.methods = s.methods.set p m') (hundeclared : m.declared = none)
    (hdeclared : m'.declared = some clauses)
    (hfound : (s.infer depth).of? m.id = some clauses) {i : Nat} {id : MethodId}
    (hlater : id = m.id → p < i) :
    (s.facts (s.inferFirst depth i)).contracts id =
      (s'.facts (s.inferFirst depth i)).contracts id := by
  by_cases hsame : id = m.id
  · rw [hsame]
    have hmem' : m' ∈ s'.methods := by
      rw [hset]
      exact List.mem_set (List.getElem?_eq_some_iff.1 hm).1 m'
    have hseen' : (s'.facts (s.inferFirst depth i)).contracts m.id = clauses := by
      rw [← hid, contracts_facts hmem', hdeclared, Option.getD_some]
    rw [contracts_facts (List.mem_of_getElem? hm), hundeclared, Option.getD_none,
      of?_inferFirst_of_lt hm (hlater hsame), hfound, Option.getD_some, hseen']
  · refine contracts_facts_congr ?_ fun _ => rfl
    rw [method?_of_set hm hid hset hsame]

/-- Inference finds the same if a method is exchanged for one that declares what was found for it,
and no method before it that declares nothing calls it. -/
theorem infer_of_set (hm : s.methods[p]? = some m) (hprofile : m'.profile = m.profile)
    (hset : s'.methods = s.methods.set p m') (hundeclared : m.declared = none)
    (hdeclared : m'.declared = some clauses)
    (hfound : (s.infer depth).of? m.id = some clauses)
    (hbefore : ∀ i < p, ∀ t, s.methods[i]? = some t → t.declared = none →
      ¬t.subject.Calls m.id) : s'.infer depth = s.infer depth := by
  have hid : m'.id = m.id := congrArg (fun q => q.signature.id) hprofile
  have hlength : s.methods.length = s'.methods.length := by rw [hset, List.length_set]
  have hprofiles : s.SameProfiles s' := by
    refine sameProfiles_of_map ?_
    rw [hset, map_set_eq hm hprofile]
  have hend : s'.infer depth = s'.inferFirst depth s.methods.length :=
    infer_eq_inferFirst (Nat.le_of_eq hlength.symm)
  rw [hend, infer_eq_inferFirst (Nat.le_refl _)]
  refine (inferFirst_congr hlength fun i _ t t' ht ht' => ?_).symm
  rw [hset] at ht'
  by_cases hip : i = p
  · -- what the exchanged method declares is what was found for it
    rw [hip] at ht ht' ⊢
    obtain rfl := Option.some.inj (hm.symm.trans ht)
    rw [List.getElem?_set_self (List.getElem?_eq_some_iff.1 hm).1] at ht'
    obtain rfl := Option.some.inj ht'
    rw [of?_infer hm] at hfound
    refine ⟨hid.symm, (Option.some.inj hfound).trans ?_⟩
    unfold inferMethod
    rw [hdeclared]
  · rw [List.getElem?_set_ne (Ne.symm hip), ht] at ht'
    obtain rfl := Option.some.inj ht'
    refine ⟨rfl, inferMethod_congr hprofiles fun hnone id _ hcalls => ?_⟩
    refine contracts_facts_of_set hm hid hset hundeclared hdeclared hfound ?_
    rintro rfl
    by_contra hle
    have hlt : i < p := Nat.lt_of_le_of_ne (Nat.le_of_not_lt hle) hip
    exact hbefore i hlt t ht hnone hcalls

/-- **Contracts that were found can be declared.** For a method without declared contracts that no
such method before it calls, declaring what was found for it gives a session in which the same is
found for every method. -/
theorem infer_pinned (hs : ofEntries es = .ok s) (he : es[p]? = some e)
    (hundeclared : e.contract = none)
    (hbefore : ∀ i < p, ∀ b, es[i]? = some b → b.contract = none → ∀ body, b.body = some body →
      ¬body.Calls e.signature.id) (depth : Nat) :
    ∃ clauses, (s.infer depth).of? e.signature.id = some clauses ∧
      ((∀ c ∈ clauses, c.arity = e.signature.arity ∧
          c.outcome.RefersWithin e.signature.arity) →
        ∃ s', ofEntries (es.set p (e.declaring clauses)) = .ok s' ∧
          s'.infer depth = s.infer depth) := by
  obtain ⟨m, hm, rfl⟩ := exists_method_of_getElem? hs he
  have hfound : (s.infer depth).of? m.id = _ := of?_infer hm
  refine ⟨_, hfound, fun hfit => ?_⟩
  generalize s.inferMethod depth (s.inferFirst depth p) m = clauses at hfound hfit ⊢
  have hreads : declaredBy (m.entry.declaring clauses) = .ok (some clauses) :=
    (declaredBy_eq_ok_iff rfl).2 ⟨clauses, Clause.listOfText_listText hfit, rfl⟩
  have hid : (m.entry.declaring clauses).signature.id = m.entry.signature.id := rfl
  obtain ⟨s', hs', hset⟩ := ofEntries_set hs he hid hreads
  have hprofile : Method.profile ⟨m.entry.declaring clauses, some clauses⟩ = m.profile := rfl
  refine ⟨s', hs', infer_of_set hm hprofile hset ?_ rfl hfound ?_⟩
  · exact (declared_eq_none_iff hs (List.mem_of_getElem? hm)).2 hundeclared
  · rintro i hi t ht hnone ⟨body, hbody, hcalls⟩
    have hcontract := (declared_eq_none_iff hs (List.mem_of_getElem? ht)).1 hnone
    exact hbefore i hi t.entry (getElem?_entry hs ht) hcontract body hbody hcalls

open Sample in
/-- The method `isBlank` comes after one that declares nothing, but that one does not call it.
Behind it is `hasText`, which calls it and inherits the same as before. -/
theorem infer_pinned_describeFirst :
    ofEntries (describeFirst.methods.map Method.entry) = .ok describeFirst ∧
    (describeFirst.infer 64).of? isBlank.id = some [⟨⟨[.null]⟩, .bool true⟩] ∧
    ∃ s', ofEntries ((describeFirst.methods.map Method.entry).set 2
      ⟨isBlank, some "null -> true", false, false, some ⟨[]⟩,
        [.known ⟨⟨[.null]⟩, .bool true⟩]⟩) = .ok s' ∧
      s'.infer 64 = describeFirst.infer 64 ∧
      (s'.infer 64).of? hasText.id = some [⟨⟨[.null]⟩, .bool false⟩] := by
  have hs : ofEntries (describeFirst.methods.map Method.entry) = .ok describeFirst := rfl
  have he : (describeFirst.methods.map Method.entry)[2]? =
      some (undeclared isBlank [] [.known ⟨⟨[.null]⟩, .bool true⟩]).entry := rfl
  have hvalue : (describeFirst.infer 64).of? isBlank.id =
      some [⟨⟨[.null]⟩, .bool true⟩] := by decide +kernel
  have hcaller : (describeFirst.infer 64).of? hasText.id =
      some [⟨⟨[.null]⟩, .bool false⟩] := by decide +kernel
  have hbefore : ∀ i < 2, ∀ b, (describeFirst.methods.map Method.entry)[i]? = some b →
      b.contract = none → ∀ body, b.body = some body → ¬body.Calls isBlank.id := by
    intro i hi b hb hcontract body hbody hcalls
    obtain rfl | rfl : i = 0 ∨ i = 1 := by omega
    · obtain rfl := Option.some.inj hb
      simp at hcontract
    · obtain rfl := Option.some.inj hb
      obtain rfl := Option.some.inj hbody
      have hid := eq_target_of_calls (Or.inl rfl) hcalls
      exact absurd hid (by decide)
  obtain ⟨clauses, hfound, hpinned⟩ := infer_pinned hs he rfl hbefore 64
  obtain rfl := Option.some.inj (hfound.symm.trans hvalue)
  have hfit : ∀ c ∈ [(⟨⟨[.null]⟩, .bool true⟩ : Clause)], c.arity = isBlank.arity ∧
      c.outcome.RefersWithin isBlank.arity := by
    intro c hc
    rw [List.mem_singleton.1 hc]
    exact ⟨rfl, by simp [Outcome.RefersWithin]⟩
  obtain ⟨s', hs', hsame⟩ := hpinned hfit
  refine ⟨hs, hvalue, s', hs', hsame, ?_⟩
  rw [hsame, hcaller]

end Session

end MethodContracts
