import MethodContracts.Proofs.Resolution.Calls
import MethodContracts.Proofs.Session.Meaning

/-!
# Inference is sound

In every world that realizes a session, all contracts that inference finds are true
(`infer_sound`), whatever the number of levels that resolution looks through, as long as the
clauses that a method sees of another one fit the calls that it delegates to. This is asked only of
delegations that count: neither suppressed by guards nor deeper than resolution looks.

There are two inductions. The inner one follows a descriptor: `holdsFor_resolve` has one case per
constructor, of which a delegation is the one that depends on the contracts seen
(`holdsFor_delegate`). The outer one goes through the methods in order: what is seen while a
method is inferred is true because it was declared, or because it was found before.
-/

namespace MethodContracts

namespace Session

variable {s : Session} {world : World} {found : Results} {m : Subject} {range : TextRange}
  {d : Descriptor} {maxDepth : Nat} {f : Behaviour}

/-! ### Calls of other methods -/

theorem neverNull_facts {t : Method} (ht : t ∈ s.methods) :
    (s.facts found).neverNull t.id = t.entry.neverNull := by
  show (s.method? t.id).any (fun m => m.entry.neverNull) = _
  rw [method?_of_mem ht, Option.any_some]

theorem CallsAt.mem {call : Call} {t : Method} (h : s.CallsAt m range call t) :
    t ∈ s.methods := by
  obtain ⟨id, -, ht⟩ := Option.bind_eq_some_iff.1 h.2.1
  exact (method?_eq_some ht).1

/-- A signature that is seen for the target of a call is that of the method called. -/
theorem exists_callsAt {call : Call} {target : Signature} (hcall : m.callAt? range = some call)
    (htarget : call.target.bind (s.facts found).signature? = some target)
    (hother : target.id ≠ m.signature.id) :
    ∃ t, s.CallsAt m range call t ∧ t.entry.signature = target := by
  obtain ⟨id, hid, hsignature⟩ := Option.bind_eq_some_iff.1 htarget
  obtain ⟨t, ht, rfl⟩ := Option.map_eq_some_iff.1 hsignature
  refine ⟨t, ⟨hcall, ?_, hother⟩, rfl⟩
  rw [hid]
  exact ht

/-- A method that is seen never to return null is one that is said never to. -/
theorem exists_callsAt_of_neverNull {call : Call} {target : MethodId}
    (hcall : m.callAt? range = some call) (htarget : call.target = some target)
    (hother : target ≠ m.signature.id) (hnever : (s.facts found).neverNull target = true) :
    ∃ t, s.CallsAt m range call t ∧ t.entry.neverNull = true := by
  obtain ⟨t, ht, hnever⟩ := (Option.any_eq_true _ _).1 hnever
  have hid := (method?_eq_some ht).2
  refine ⟨t, ⟨hcall, ?_, ?_⟩, hnever⟩
  · rw [htarget]
    exact ht
  · rw [hid]
    exact hother

/-! ### Resolving a descriptor -/

/-- Whether the clauses that are seen of each method are true in a world. -/
def SeenHold (s : Session) (world : World) (found : Results) : Prop :=
  ∀ t ∈ s.methods, ∀ c ∈ (s.facts found).contracts t.id,
    c.HoldsFor t.subject.arity (world t.id)

theorem holdsFor_delegate (hworld : s.RealizedBy world) (hseen : s.SeenHold world found)
    (hfit : s.SeenFits found m range) {negated : Bool}
    (hf : (Descriptor.delegation range negated).Describes s world m f) :
    ∀ c ∈ m.delegate (s.facts found) range negated, c.HoldsFor m.arity f := by
  intro c hc
  obtain ⟨call, target, clauses, hcall, htarget, hother, hnormal, hc⟩ :=
    Subject.mem_delegate hc
  obtain ⟨t, hcalls, rfl⟩ := exists_callsAt hcall htarget hother
  have ht := hcalls.mem
  rw [Descriptor.Describes] at hf
  obtain ⟨g, hagree, hrun⟩ := hf call t hcalls
  -- normalizing what is seen of the target keeps it true and fit for the call
  have hclauses : ∀ c ∈ clauses, c.HoldsFor t.subject.arity (world t.id) :=
    Clause.holdsFor_normalize? hnormal (hseen t ht)
  have hfits : ∀ c ∈ clauses, c.Fits t.entry.signature call :=
    Clause.fits_of_mem_normalize? hnormal (hfit call t hcalls)
  have hnever : (s.facts found).neverNull t.id = true →
      (world t.id).NeverNull t.subject.arity := by
    rw [neverNull_facts ht]
    exact hworld.neverNull t ht
  refine Clause.HoldsFor.congr hagree ?_
  exact Clause.holdsFor_getD_normalize?
    (Subject.holdsFor_inherited hclauses hfits hnever hrun) c hc

theorem holdsFor_nonNullStates (hworld : s.RealizedBy world) {states : List Domain}
    (hf : (Descriptor.nonNullCall range states).Describes s world m f) :
    ∀ c ∈ m.nonNullStates (s.facts found) range states, c.HoldsFor m.arity f := by
  intro c hc
  obtain ⟨call, target, hcall, htarget, hother, hnever, d, hd, -, rfl⟩ :=
    Subject.mem_nonNullStates hc
  obtain ⟨t, hcalls, hnever⟩ := exists_callsAt_of_neverNull hcall htarget hother hnever
  rw [Descriptor.Describes] at hf
  exact hf call t hcalls (hworld.neverNull t hcalls.mem hnever) d hd

/-- Guards that suppress nothing are all found and free of side effects. -/
theorem guards_of_not_suppresses {guards : List TextRange}
    (h : m.suppresses (s.facts found) guards ≠ true) :
    ∀ guard ∈ guards, ∃ e, m.body.bind (·.find? guard) = some e ∧
      e.hasSideEffects s.isPure = false := by
  rw [← Subject.any_obstructs] at h
  intro guard hguard
  have hfree : m.obstructs (s.facts found) guard ≠ true :=
    fun hobstructs => h (List.any_eq_true.2 ⟨guard, hguard, hobstructs⟩)
  exact Subject.obstructs_eq_false (Bool.eq_false_iff.2 hfree)

/-- What is asked of a descriptor is asked of each one behind its guards, if these suppress
nothing. -/
theorem DelegationsFit.behind_guards {guards : List TextRange} {inner : List Descriptor}
    (h : s.DelegationsFit found m (maxDepth + 1) (.guarded guards inner))
    (hfree : m.suppresses (s.facts found) guards ≠ true) (hd : d ∈ inner) :
    s.DelegationsFit found m maxDepth d := by
  intro l hl hcounts
  refine h (l.under (.guarded guards)) (Descriptor.mem_leaves_guarded.2 ⟨d, hd, l, hl, rfl⟩) ?_
  exact hcounts.under_guarded (Bool.eq_false_iff.2 hfree)

theorem DelegationsFit.behind_negation
    (h : s.DelegationsFit found m (maxDepth + 1) (.negating d)) :
    s.DelegationsFit found m maxDepth d := by
  intro l hl hcounts
  exact h (l.under .negating) (Descriptor.mem_leaves_negating.2 ⟨l, hl, rfl⟩)
    hcounts.under_negating

theorem DelegationsFit.seenFits {negated : Bool}
    (h : s.DelegationsFit found m maxDepth (.delegation range negated)) :
    s.SeenFits found m range :=
  h ⟨[], .delegation range negated⟩ (List.mem_singleton.2 rfl)
    (Descriptor.Leaf.counts_of_wrappers_nil _) range negated rfl

/-- **Resolution is sound.** Where a descriptor describes a behaviour, the clauses that it
resolves to hold for it. -/
theorem holdsFor_resolve (hworld : s.RealizedBy world) (hseen : s.SeenHold world found)
    (hfit : s.DelegationsFit found m maxDepth d) (hf : d.Describes s world m f) :
    ∀ c ∈ d.resolve (s.facts found) m maxDepth, c.HoldsFor m.arity f := by
  induction d using Descriptor.induction_on_parts generalizing f maxDepth with
  | known clause =>
      intro c hc
      rw [Descriptor.resolve] at hc
      obtain rfl := List.mem_singleton.1 hc
      rwa [Descriptor.Describes] at hf
  | delegation range negated =>
      rw [Descriptor.resolve]
      exact holdsFor_delegate hworld hseen hfit.seenFits hf
  | nonNullCall range states =>
      rw [Descriptor.resolve]
      exact holdsFor_nonNullStates hworld hf
  | guarded guards inner ih =>
      intro c hc
      cases maxDepth with
      | zero => simp at hc
      | succ maxDepth =>
          rw [Descriptor.resolve_guarded_succ] at hc
          split at hc
          · exact absurd hc List.not_mem_nil
          · rename_i hfree
            obtain ⟨d, hd, hcd⟩ := List.mem_flatMap.1 hc
            rw [Descriptor.Describes, Descriptor.describesAll_iff] at hf
            exact ih d hd (hfit.behind_guards hfree hd)
              (hf (guards_of_not_suppresses hfree) d hd) c hcd
  | negating inner ih =>
      -- what is negated describes another behaviour, so the hypothesis is used at that one
      intro c hc
      cases maxDepth with
      | zero => simp at hc
      | succ maxDepth =>
          rw [Descriptor.resolve_negating_succ] at hc
          obtain ⟨c', hc', hnegated⟩ := List.mem_filterMap.1 hc
          rw [Descriptor.Describes] at hf
          obtain ⟨g, hagree, hg⟩ := hf
          have hinner := ih hfit.behind_negation hg c' hc'
          exact (hinner.negate? hnegated).congr hagree

/-! ### The methods in order -/

/-- What is seen is true if all that was found is. -/
theorem seenHold_of_holdIn (hworld : s.RealizedBy world) (hfound : found.HoldIn s world) :
    s.SeenHold world found := by
  intro t ht c hc
  rcases mem_contracts_facts ht hc with ⟨clauses, hdeclared, hc⟩ | ⟨clauses, hmem, hc⟩
  · exact hworld.declared t ht clauses hdeclared c hc
  · exact hfound t.id clauses hmem t ht rfl c hc

/-- The contracts of one method are true if all that was found before is. -/
theorem holdsFor_inferMethod (hworld : s.RealizedBy world) (hfound : found.HoldIn s world)
    {m : Method} (hm : m ∈ s.methods) {depth : Nat}
    (hfit : m.declared = none →
      ∀ d ∈ m.entry.descriptors, s.DelegationsFit found m.subject depth d) :
    ∀ c ∈ s.inferMethod depth found m, c.HoldsFor m.subject.arity (world m.id) := by
  unfold inferMethod
  cases hdeclared : m.declared with
  | some clauses => exact hworld.declared m hm clauses hdeclared
  | none =>
      cases hbody : m.entry.body with
      | none =>
          intro c hc
          exact absurd hc List.not_mem_nil
      | some body =>
          refine Clause.holdsFor_getD_normalize? ?_
          rw [Descriptor.resolveAll_eq_flatMap]
          intro c hc
          obtain ⟨d, hd, hcd⟩ := List.mem_flatMap.1 hc
          have hdescribes := hworld.described m hm hdeclared (by rw [hbody]; rfl) d hd
          exact holdsFor_resolve hworld (seenHold_of_holdIn hworld hfound)
            (hfit hdeclared d hd) hdescribes c hcd

/-! ### Sessions that delegate

A session with all kinds of descriptors, and two that are told the truth and still mislead: what
they say of a target does not fit the call. -/

namespace Sample

/-- A method without declared contracts. -/
def undeclared (signature : Signature) (expressions : List Expr)
    (descriptors : List Descriptor) : Method where
  entry := ⟨signature, none, false, false, some ⟨expressions⟩, descriptors⟩
  declared := none

@[simp] theorem id_undeclared (signature : Signature) (expressions : List Expr)
    (descriptors : List Descriptor) : (undeclared signature expressions descriptors).id =
      signature.id :=
  rfl

/-- A call of a method with these arguments. -/
def callOf (target : Signature) (arguments : List Expr) : Call :=
  ⟨target.name, some target.id, none, arguments, false⟩

/-- The first parameter of a method. -/
def firstParameter (m : Signature) : Expr :=
  .reference ⟨6, 7⟩ "x" none (some (.parameter m.id 0))

theorem runsCall_firstParameter {caller target : Signature} {e : Expr} {h : Behaviour}
    (he : e.skipParentheses = firstParameter caller) (harity : caller.arity = target.arity)
    (hplain : target.varargs = false) : h.RunsCall caller target (callOf target [e]) h := by
  intro args hlen
  refine ⟨args, Call.mayPass_self ?_ (hlen.trans harity) ?_, rfl⟩
  · rw [Signature.expands, hplain, Bool.false_and]
  · intro j e' he'
    cases j with
    | zero =>
        obtain rfl : e = e' := Option.some.inj he'
        refine ⟨0, ?_, rfl⟩
        rw [he]
        exact if_pos rfl
    | succ j => simp [callOf] at he'

def requireNonNull : Signature := ⟨⟨1⟩, "requireNonNull", ["x"], false⟩

def isBlank : Signature := ⟨⟨2⟩, "isBlank", ["x"], false⟩

def hasText : Signature := ⟨⟨3⟩, "hasText", ["x"], false⟩

def describe : Signature := ⟨⟨4⟩, "describe", ["x"], false⟩

/-- A declared method, one with a stated clause, one that returns `!isBlank((x))`, and one that
returns `requireNonNull(x)`. -/
def textChecks : Session where
  methods := [
    ⟨⟨requireNonNull, some "null -> fail", true, false, none, []⟩, some [⟨⟨[.null]⟩, .fail⟩]⟩,
    undeclared isBlank [] [.known ⟨⟨[.null]⟩, .bool true⟩],
    undeclared hasText
      [.ofCall ⟨0, 9⟩ (callOf isBlank [.parenthesized ⟨5, 8⟩ (firstParameter hasText)])]
      [.guarded [⟨6, 7⟩] [.negating (.delegation ⟨0, 9⟩ false)]],
    undeclared describe [.ofCall ⟨0, 9⟩ (callOf requireNonNull [firstParameter describe])]
      [.delegation ⟨0, 9⟩ false, .nonNullCall ⟨0, 9⟩ [⟨[.nonNull]⟩]]]
  nodup_ids := by decide

def throwsForNull : Behaviour := fun args =>
  if args = [.null] then .throws else .returns .object

def trueForNull : Behaviour := fun args => .returns (.bool (args = [.null]))

def textWorld : World := fun id =>
  if id = isBlank.id then trueForNull
  else if id = hasText.id then trueForNull.negate
  else throwsForNull

theorem neverNull_throwsForNull : throwsForNull.NeverNull 1 := by
  intro args _
  unfold throwsForNull
  split <;> simp

theorem eq_of_admits_null {args : List Value} (h : Domain.Admits ⟨[.null]⟩ args) :
    args = [.null] := by
  obtain ⟨v, rfl⟩ := List.length_eq_one_iff.1 (Domain.length_of_admits h)
  obtain rfl : v = .null := h.1
  rfl

theorem textChecks_realizedBy : textChecks.RealizedBy textWorld where
  declared := by
    intro m hm clauses hdeclared c hc
    simp only [textChecks, List.mem_cons, List.not_mem_nil, or_false] at hm
    rcases hm with rfl | rfl | rfl | rfl
    · obtain rfl := Option.some.inj hdeclared
      obtain rfl := List.mem_singleton.1 hc
      intro args _ hargs
      rw [eq_of_admits_null hargs]
      rfl
    · simp [undeclared] at hdeclared
    · simp [undeclared] at hdeclared
    · simp [undeclared] at hdeclared
  neverNull := by
    intro m hm hnever
    simp only [textChecks, List.mem_cons, List.not_mem_nil, or_false] at hm
    rcases hm with rfl | rfl | rfl | rfl
    · exact neverNull_throwsForNull
    · simp [undeclared] at hnever
    · simp [undeclared] at hnever
    · simp [undeclared] at hnever
  described := by
    intro m hm hdeclared _ d hd
    simp only [textChecks, List.mem_cons, List.not_mem_nil, or_false] at hm
    rcases hm with rfl | rfl | rfl | rfl
    · simp at hdeclared
    · obtain rfl := List.mem_singleton.1 hd
      rw [Descriptor.Describes]
      intro args _ hargs
      rw [eq_of_admits_null hargs]
      exact Or.inr rfl
    · obtain rfl := List.mem_singleton.1 hd
      rw [Descriptor.Describes, Descriptor.describesAll_iff]
      intro _ d hd
      obtain rfl := List.mem_singleton.1 hd
      rw [Descriptor.Describes]
      refine ⟨trueForNull, fun _ _ => rfl, ?_⟩
      rw [Descriptor.Describes]
      intro call t ⟨hcall, ht, _⟩
      obtain rfl := Option.some.inj hcall
      obtain rfl := Option.some.inj ht
      exact ⟨trueForNull, fun _ _ => rfl, runsCall_firstParameter rfl rfl rfl⟩
    · simp only [undeclared, List.mem_cons, List.not_mem_nil, or_false] at hd
      rcases hd with rfl | rfl
      · rw [Descriptor.Describes]
        intro call t ⟨hcall, ht, _⟩
        obtain rfl := Option.some.inj hcall
        obtain rfl := Option.some.inj ht
        exact ⟨throwsForNull, fun _ _ => rfl, runsCall_firstParameter rfl rfl rfl⟩
      · rw [Descriptor.Describes]
        intro _ _ _ _ d _
        exact Clause.holdsFor_nonNull neverNull_throwsForNull d

/-- A method with a stated clause, and one that returns what a call of it does. -/
def delegatingPair (callee caller : Signature) (h : callee.id ≠ caller.id) (c : Clause)
    (arguments : List Expr) : Session where
  methods := [
    undeclared callee [] [.known c],
    undeclared caller [.ofCall ⟨0, 9⟩ (callOf callee arguments)] [.delegation ⟨0, 9⟩ false]]
  nodup_ids := by simpa using h

theorem delegatingPair_realizedBy {world : World} {callee caller : Signature}
    {h : callee.id ≠ caller.id} {c : Clause} {arguments : List Expr}
    (hc : c.HoldsFor callee.arity (world callee.id))
    (hrun : (world caller.id).RunsCall caller callee (callOf callee arguments)
      (world callee.id)) :
    (delegatingPair callee caller h c arguments).RealizedBy world where
  declared := by
    intro m hm clauses hdeclared
    simp only [delegatingPair, List.mem_cons, List.not_mem_nil, or_false] at hm
    rcases hm with rfl | rfl
    · simp [undeclared] at hdeclared
    · simp [undeclared] at hdeclared
  neverNull := by
    intro m hm hnever
    simp only [delegatingPair, List.mem_cons, List.not_mem_nil, or_false] at hm
    rcases hm with rfl | rfl
    · simp [undeclared] at hnever
    · simp [undeclared] at hnever
  described := by
    intro m hm _ _ d hd
    simp only [delegatingPair, List.mem_cons, List.not_mem_nil, or_false] at hm
    rcases hm with rfl | rfl
    · obtain rfl := List.mem_singleton.1 hd
      rw [Descriptor.Describes]
      exact hc
    · obtain rfl := List.mem_singleton.1 hd
      rw [Descriptor.Describes]
      intro call t ⟨hcall, ht, _⟩
      obtain rfl := Option.some.inj hcall
      have hcallee := method?_of_mem (s := delegatingPair callee caller h c arguments)
        List.mem_cons_self
      obtain rfl := Option.some.inj (hcallee.symm.trans ht)
      exact ⟨world caller.id, fun _ _ => rfl, hrun⟩

/-- A variadic method. -/
def format : Signature := ⟨⟨1⟩, "format", ["args"], true⟩

/-- A method without parameters. -/
def banner : Signature := ⟨⟨2⟩, "banner", [], false⟩

/-- A world where methods throw for `true` only. -/
def throwsForTrue : World := fun _ args =>
  if args = [.bool true] then .throws else .returns .object

/-- The stated clause of `format` asks a boolean of its parameter, and `banner` returns
`format(1, 2)`, where the parameter is an array. -/
def asksBooleanOfArray : Session :=
  delegatingPair format banner (by decide) ⟨⟨[.bool true]⟩, .fail⟩
    [.literal ⟨5, 6⟩ (.int 1), .literal ⟨7, 8⟩ (.int 2)]

/-- The stated clause of `isBlank` has no slot for its parameter, and `hasText` returns
`isBlank(x)`. -/
def statesTooFewSlots : Session :=
  delegatingPair isBlank hasText (by decide) ⟨⟨[]⟩, .fail⟩ [firstParameter hasText]

theorem asksBooleanOfArray_realizedBy : asksBooleanOfArray.RealizedBy throwsForTrue := by
  refine delegatingPair_realizedBy ?_ ?_
  · intro args hlen hargs
    obtain ⟨v, rfl⟩ := List.length_eq_one_iff.1 hlen
    obtain rfl : v = .bool true := hargs.1
    rfl
  · intro args hlen
    obtain rfl := List.length_eq_zero_iff.1 hlen
    refine ⟨[.object], ⟨rfl, ?_⟩, rfl⟩
    intro j v hv
    cases j with
    | zero =>
        obtain rfl := Option.some.inj hv
        exact rfl
    | succ j => simp at hv

theorem statesTooFewSlots_realizedBy : statesTooFewSlots.RealizedBy throwsForTrue := by
  refine delegatingPair_realizedBy ?_ (runsCall_firstParameter rfl rfl rfl)
  intro args hlen hargs
  obtain rfl := List.length_eq_zero_iff.1 (Domain.length_of_admits hargs)
  simp [isBlank, Signature.arity] at hlen

end Sample

open Sample

/-! ### The main theorem -/

/-- Without variadic methods, it is enough that what is found for a method has as many slots as
the method has parameters. -/
theorem allDelegationsFit_of_not_varargs {depth : Nat}
    (hplain : ∀ t ∈ s.methods, t.entry.signature.varargs = false)
    (harity : ∀ t ∈ s.methods, ∀ clauses, (t.id, clauses) ∈ s.infer depth →
      ∀ c ∈ clauses, c.arity = t.subject.arity) : s.AllDelegationsFit depth := by
  intro i m hm hdeclared d hd l hl _ range negated hsource call t hcalls c hc
  obtain ⟨clauses, hfound, hcmem⟩ := mem_infer_of_mem_contracts_facts hcalls.mem hc
  refine ⟨harity t hcalls.mem clauses hfound c hcmem, ?_⟩
  intro hexpands
  rw [Signature.expands, hplain t hcalls.mem, Bool.false_and] at hexpands
  exact absurd hexpands Bool.false_ne_true

/-- **Inference is sound.** In a world that realizes the session, every clause that is found for
a method is true of its behaviour, if the clauses seen of the methods delegated to fit the calls,
wherever a delegation counts. -/
theorem infer_sound (s : Session) (world : World) (depth : Nat) (hworld : s.RealizedBy world)
    (hfit : s.AllDelegationsFit depth) : (s.infer depth).HoldIn s world := by
  refine forall_mem_infer ?_
  intro i m hi hfound t ht hid
  have hm : m ∈ s.methods := List.mem_of_getElem? hi
  -- ids are unique, so these are the contracts of `t` itself
  obtain rfl := eq_of_id_eq ht hm hid
  exact holdsFor_inferMethod hworld hfound hm (hfit i t hi)

/-- All clauses found for a session with declared and stated clauses, guards, a negation and calls
that never return null are true. -/
theorem infer_sound_textChecks :
    textChecks.RealizedBy textWorld ∧ textChecks.AllDelegationsFit 64 ∧
    (textChecks.infer 64).HoldIn textChecks textWorld ∧
    textChecks.infer 64 = [
      (requireNonNull.id, [⟨⟨[.null]⟩, .fail⟩]),
      (isBlank.id, [⟨⟨[.null]⟩, .bool true⟩]),
      (hasText.id, [⟨⟨[.null]⟩, .bool false⟩]),
      (describe.id, [⟨⟨[.null]⟩, .fail⟩, ⟨⟨[.nonNull]⟩, .nonNull⟩])] := by
  have hplain : ∀ t ∈ textChecks.methods, t.entry.signature.varargs = false := by decide
  have harity : ∀ t ∈ textChecks.methods, ∀ p ∈ textChecks.infer 64, p.1 = t.id →
      ∀ c ∈ p.2, c.arity = t.subject.arity := by decide +kernel
  have hfit : textChecks.AllDelegationsFit 64 :=
    allDelegationsFit_of_not_varargs hplain fun t ht clauses hmem =>
      harity t ht (t.id, clauses) hmem rfl
  exact ⟨textChecks_realizedBy, hfit,
    infer_sound textChecks textWorld 64 textChecks_realizedBy hfit, by decide +kernel⟩

/-- Neither half of the condition on delegations can be left out: with a clause that asks a boolean
of an array, or with one that has too few slots, a false clause is found. -/
theorem infer_unsound_of_misfit :
    (Session.ofEntries (asksBooleanOfArray.methods.map Method.entry) = .ok asksBooleanOfArray ∧
      asksBooleanOfArray.RealizedBy throwsForTrue ∧
      ¬(asksBooleanOfArray.infer 64).HoldIn asksBooleanOfArray throwsForTrue) ∧
    (Session.ofEntries (statesTooFewSlots.methods.map Method.entry) = .ok statesTooFewSlots ∧
      statesTooFewSlots.RealizedBy throwsForTrue ∧
      ¬(statesTooFewSlots.infer 64).HoldIn statesTooFewSlots throwsForTrue) := by
  refine ⟨⟨rfl, asksBooleanOfArray_realizedBy, ?_⟩, rfl, statesTooFewSlots_realizedBy, ?_⟩
  · intro hall
    have hfound : (banner.id, [⟨⟨[]⟩, .fail⟩]) ∈ asksBooleanOfArray.infer 64 := by
      decide +kernel
    -- `banner` returns an object
    have hfail := hall _ _ hfound _ (List.mem_cons_of_mem _ List.mem_cons_self) rfl _
      List.mem_cons_self [] rfl trivial
    exact absurd hfail (by decide)
  · intro hall
    have hfound : (hasText.id, [⟨⟨[.any]⟩, .fail⟩]) ∈ statesTooFewSlots.infer 64 := by
      decide +kernel
    -- `hasText` returns an object for an object
    have hfail := hall _ _ hfound _ (List.mem_cons_of_mem _ List.mem_cons_self) rfl _
      List.mem_cons_self [.object] rfl ⟨trivial, trivial⟩
    exact absurd hfail (by decide)

end Session

end MethodContracts
