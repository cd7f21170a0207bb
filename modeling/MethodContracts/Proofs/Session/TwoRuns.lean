import MethodContracts.Proofs.Resolution.Dependence
import MethodContracts.Proofs.Session.Inference

/-!
# Two sessions side by side

What a session finds for one of its methods depends on little of the session: on the profiles of
all methods, and on the contracts that are seen of the methods that this one calls
(`inferMethod_congr`). Runs over different sessions are compared by this, method by method if they
have the methods in the same order (`inferFirst_congr`).
-/

namespace MethodContracts

/-- What others may know of a method whatever its contracts are. -/
structure Profile where
  signature : Signature
  neverNull : Bool
  isPure : Bool

def Method.profile (m : Method) : Profile :=
  ⟨m.entry.signature, m.entry.neverNull, m.entry.isPure⟩

/-- What others know of a method before anything is inferred. -/
def Method.declaration (m : Method) : Profile × Option (List Clause) := (m.profile, m.declared)

namespace Session

variable {s s' : Session} {m t : Method} {found found' : Results} {depth i : Nat}

/-! ### What one method depends on -/

/-- Whether two sessions have methods of the same profiles. -/
def SameProfiles (s s' : Session) : Prop :=
  ∀ id, (s.method? id).map Method.profile = (s'.method? id).map Method.profile

/-- What is kept of the methods can be looked up by itself, if ids are part of it. -/
theorem map_method? {α : Type} (f : Method → α) (idOf : α → MethodId)
    (hid : ∀ m, idOf (f m) = m.id) (s : Session) (id : MethodId) :
    (s.method? id).map f = (s.methods.map f).find? fun x => idOf x = id := by
  have hcomp : (fun m : Method => decide (m.id = id)) = (fun x => decide (idOf x = id)) ∘ f := by
    funext m
    simp [hid]
  rw [List.find?_map, method?, hcomp]

theorem sameProfiles_of_map (h : s.methods.map Method.profile = s'.methods.map Method.profile) :
    s.SameProfiles s' := by
  intro id
  have hlookup := map_method? Method.profile (fun p => p.signature.id) fun _ => rfl
  rw [hlookup, hlookup, h]

theorem signature?_facts (h : s.SameProfiles s') (id : MethodId) :
    (s.facts found).signature? id = (s'.facts found').signature? id := by
  have hsignature := congrArg (Option.map Profile.signature) (h id)
  rwa [Option.map_map, Option.map_map] at hsignature

theorem neverNull_facts_congr (h : s.SameProfiles s') (id : MethodId) :
    (s.facts found).neverNull id = (s'.facts found').neverNull id := by
  have hneverNull := congrArg (Option.any Profile.neverNull) (h id)
  rwa [Option.any_map, Option.any_map] at hneverNull

theorem isPure_congr (h : s.SameProfiles s') : s.isPure = s'.isPure := by
  funext id
  have hisPure := congrArg (Option.any Profile.isPure) (h id)
  rwa [Option.any_map, Option.any_map] at hisPure

theorem ne_and_calls_of_consults {subject : Subject} {id : MethodId}
    (h : subject.Consults (s.facts found) id) :
    id ≠ subject.signature.id ∧ subject.Calls id := by
  obtain ⟨hother, called, hcalls, rfl | ⟨target, htarget, rfl⟩⟩ := h
  · exact ⟨hother, hcalls⟩
  · -- a session finds under an id the signature that has this id
    obtain ⟨t, ht, rfl⟩ := Option.map_eq_some_iff.1 htarget
    obtain rfl := (method?_eq_some ht).2
    exact ⟨hother, hcalls⟩

/-- **What is found for a method depends only on the methods that it calls.** -/
theorem inferMethod_congr (hprofiles : s.SameProfiles s')
    (hseen : m.declared = none → ∀ id, id ≠ m.id → m.subject.Calls id →
      (s.facts found).contracts id = (s'.facts found').contracts id) :
    s.inferMethod depth found m = s'.inferMethod depth found' m := by
  unfold inferMethod
  cases hdeclared : m.declared with
  | some clauses => rfl
  | none =>
      cases m.entry.body with
      | none => rfl
      | some body =>
          refine Subject.infer_congr ⟨?_, ?_, ?_, ?_⟩ depth m.entry.descriptors
          · exact signature?_facts hprofiles
          · intro e
            show e.hasSideEffects s.isPure = e.hasSideEffects s'.isPure
            rw [isPure_congr hprofiles]
          · intro id hconsults
            obtain ⟨hother, hcalls⟩ := ne_and_calls_of_consults hconsults
            exact hseen hdeclared id hother hcalls
          · exact fun id _ => neverNull_facts_congr hprofiles id

theorem contracts_facts_congr {id : MethodId}
    (hdeclared : (s.method? id).bind Method.declared = (s'.method? id).bind Method.declared)
    (hfound : (s.method? id).bind Method.declared = none → found.of? id = found'.of? id) :
    (s.facts found).contracts id = (s'.facts found').contracts id := by
  simp only [facts, ← hdeclared]
  cases hseen : (s.method? id).bind Method.declared with
  | some clauses => rfl
  | none => rw [hfound hseen]

/-! ### Two runs -/

/-- Two runs over sessions of the same length stay together as long as they find the same for each
method after having found the same before. -/
theorem inferFirst_congr {k : Nat} (hlength : s.methods.length = s'.methods.length)
    (hstep : ∀ i < k, ∀ m m', s.methods[i]? = some m → s'.methods[i]? = some m' →
      m.id = m'.id ∧ s.inferMethod depth (s.inferFirst depth i) m =
        s'.inferMethod depth (s.inferFirst depth i) m') :
    s.inferFirst depth k = s'.inferFirst depth k := by
  induction k with
  | zero => rfl
  | succ k ih =>
      have hbefore := ih fun i hi => hstep i (Nat.lt_succ_of_lt hi)
      by_cases hk : k < s.methods.length
      · have hm := List.getElem?_eq_getElem hk
        have hm' := List.getElem?_eq_getElem (hlength ▸ hk)
        obtain ⟨hid, hfound⟩ := hstep k (Nat.lt_succ_self k) _ _ hm hm'
        rw [inferFirst_succ hm, inferFirst_succ hm', ← hbefore, hid, hfound]
      · have hnone : s.methods[k]? = none := List.getElem?_eq_none (Nat.le_of_not_lt hk)
        have hnone' : s'.methods[k]? = none :=
          List.getElem?_eq_none (hlength ▸ Nat.le_of_not_lt hk)
        rw [inferFirst_succ_of_none hnone, inferFirst_succ_of_none hnone', hbefore]

theorem of?_inferFirst_of_unknown {id : MethodId} (h : s.method? id = none) :
    (s.inferFirst depth i).of? id = none := by
  rw [method?_eq_none_iff] at h
  rw [of?_eq_none_iff, map_fst_inferFirst]
  exact fun hmem => h (List.map_subset Method.id (List.take_subset i s.methods) hmem)

/-- At two points of two runs, either both have found the contracts of a method or none has. -/
theorem of?_inferFirst_congr {i' j j' : Nat} (ht : s.methods[j]? = some t)
    (ht' : s'.methods[j']? = some t) (hiff : j < i ↔ j' < i')
    (hsame : j < i → (s.infer depth).of? t.id = (s'.infer depth).of? t.id) :
    (s.inferFirst depth i).of? t.id = (s'.inferFirst depth i').of? t.id := by
  by_cases hlt : j < i
  · rw [of?_inferFirst_of_lt ht hlt, of?_inferFirst_of_lt ht' (hiff.1 hlt), hsame hlt]
  · have hle : i ≤ j := Nat.le_of_not_lt hlt
    have hle' : i' ≤ j' := Nat.le_of_not_lt (mt hiff.2 hlt)
    rw [of?_inferFirst_of_le ht hle, of?_inferFirst_of_le ht' hle']

end Session

end MethodContracts
