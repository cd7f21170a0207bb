import MethodContracts.Clause.ThroughCall
import MethodContracts.Proofs.NormalForm.Scan

/-!
# What a call passes on

`Call.MayPass` relates the arguments of a method to the arguments that a call in its body can pass
to another one: parameters and literals pass their own value, constructions, operations and
functions something that is not null, an expanded call passes an array for the last parameter,
and anything else may pass anything. Whatever the arguments of the method are, a call can pass
something (`Call.exists_mayPass`).

Restating a clause of the target for the caller is exact for this relation
(`Clause.throughCall?_exact`), provided that the clause **fits** the call: it speaks of as many
parameters as the target has, and asks no boolean of a parameter that the call passes an array
for. The induction follows `Clause.demandAll?` through the slots of the clause; at each slot, the
demands so far and the slots still to come say together what the clause says.
-/

namespace MethodContracts

/-- Whether an expression may have a value when the parameters of the method around it have these
values. One pair of parentheses does not count. -/
def Expr.MayYield (caller : Signature) (args : List Value) (e : Expr) (v : Value) : Prop :=
  match e.skipParentheses with
  | .reference _ _ none (some (.parameter owner index)) =>
      owner = caller.id → ∀ x, args[index.toNat]? = some x → v = x
  | .literal _ .null => v = .null
  | .literal _ (.bool b) => v = .bool b
  | .literal _ _ => v = .object
  | .construction _ _ => v ≠ .null
  | .operation _ _ _ => v ≠ .null
  | .function _ => v ≠ .null
  | _ => True

/-- Whether these values may be passed for the parameters of the target from `i` on by these
expressions; `expanded` says whether the last parameter gets an array. -/
def PassesFrom (caller target : Signature) (expanded : Bool) (args : List Value) (i : Nat)
    (es : List Expr) (passed : List Value) : Prop :=
  ∀ j v, passed[j]? = some v →
    if expanded = true ∧ i + j + 1 = target.arity then v = .object
    else ∀ e, es[j]? = some e → e.MayYield caller args v

/-- Whether a call can pass these values to the target when the caller has these arguments. -/
def Call.MayPass (caller target : Signature) (call : Call) (args passed : List Value) : Prop :=
  passed.length = target.arity ∧
    PassesFrom caller target (target.expands call) args 0 call.arguments passed

/-- Whether a clause of the target says something about what a call passes: it has a slot for each
parameter, and none that asks a boolean of an array. -/
def Clause.Fits (target : Signature) (call : Call) (c : Clause) : Prop :=
  c.arity = target.arity ∧
    (target.expands call = true →
      ∀ i b, i + 1 = target.arity → c.domain.slot? i ≠ some (.bool b))

/-! ### One argument -/

/-- A parameter of the caller may have its own value only. -/
theorem Expr.mayYield_iff_of_parameterOf? {caller : Signature} {args : List Value} {e : Expr}
    {v : Value} {index : UInt64} (h : e.skipParentheses.parameterOf? caller.id = some index) :
    e.MayYield caller args v ↔ ∀ x, args[index.toNat]? = some x → v = x := by
  unfold parameterOf? at h
  split at h
  · rename_i owner index' heq
    split at h
    · rename_i howner
      obtain rfl : index' = index := Option.some.inj h
      rw [MayYield, heq]
      exact ⟨fun hv => hv howner, fun hv _ => hv⟩
    · simp at h
  · simp at h

/-- The constraint that describes an expression is met by every value that it may have. -/
theorem Expr.admits_of_fixedConstraint? {caller : Signature} {args : List Value} {e : Expr}
    {v : Value} {c : Constraint} (h : e.skipParentheses.fixedConstraint? = some c)
    (hv : e.MayYield caller args v) : c.Admits v := by
  unfold MayYield at hv
  generalize e.skipParentheses = bare at h hv
  cases bare with
  | literal range value =>
      cases value <;> obtain rfl := Option.some.inj h <;> simp_all [Constraint.Admits]
  | construction | operation | function =>
      obtain rfl := Option.some.inj h
      exact hv
  | reference | parenthesized | call | assignment | other => simp [fixedConstraint?] at h

/-- Every expression may have some value. -/
theorem Expr.exists_mayYield (caller : Signature) (args : List Value) (e : Expr) :
    ∃ v, e.MayYield caller args v := by
  unfold MayYield
  split
  · rename_i index _
    cases args[index.toNat]? with
    | none => exact ⟨.null, fun _ _ h => nomatch h⟩
    | some x => exact ⟨x, fun _ _ h => Option.some.inj h⟩
  · exact ⟨_, rfl⟩
  · exact ⟨_, rfl⟩
  · exact ⟨_, rfl⟩
  · exact ⟨.object, Value.noConfusion⟩
  · exact ⟨.object, Value.noConfusion⟩
  · exact ⟨.object, Value.noConfusion⟩
  · exact ⟨.null, trivial⟩

/-- Every call may pass something, whatever the arguments of the caller are. -/
theorem Call.exists_mayPass (caller target : Signature) (call : Call) (args : List Value) :
    ∃ passed, call.MayPass caller target args passed := by
  have hslot : ∀ j, ∃ v, if target.expands call = true ∧ 0 + j + 1 = target.arity then v = .object
      else ∀ e, call.arguments[j]? = some e → e.MayYield caller args v := by
    intro j
    split
    · exact ⟨.object, rfl⟩
    · cases he : call.arguments[j]? with
      | none => exact ⟨.null, fun _ h => nomatch h⟩
      | some e =>
          obtain ⟨v, hv⟩ := e.exists_mayYield caller args
          refine ⟨v, fun e' h => ?_⟩
          obtain rfl := Option.some.inj h
          exact hv
  choose value hvalue using hslot
  refine ⟨(List.range target.arity).map value, by simp, fun j v hv => ?_⟩
  have hj : j < target.arity := by
    have hlt := (List.getElem?_eq_some_iff.1 hv).1
    simpa using hlt
  rw [List.getElem?_map, List.getElem?_range hj] at hv
  obtain rfl := Option.some.inj hv
  exact hvalue j

/-- A call that passes the parameters of the caller as they are, in order, may pass its
arguments. -/
theorem Call.mayPass_self {caller target : Signature} {call : Call} {args : List Value}
    (hplain : target.expands call = false) (hlen : args.length = target.arity)
    (hsame : ∀ (j : Nat) (e : Expr), call.arguments[j]? = some e →
      ∃ index : UInt64, e.skipParentheses.parameterOf? caller.id = some index ∧
        index.toNat = j) : call.MayPass caller target args args := by
  refine ⟨hlen, ?_⟩
  intro j v hv
  rw [hplain, if_neg fun h => Bool.false_ne_true h.1]
  intro e he
  obtain ⟨index, hindex, rfl⟩ := hsame j e he
  rw [Expr.mayYield_iff_of_parameterOf? hindex]
  intro x hx
  exact Option.some.inj (hv.symm.trans hx)

namespace Clause

variable {caller target : Signature} {args passed : List Value}

/-- What one argument demands of the caller's parameters is what the constraint demands of the
value that the argument may have. -/
theorem admits_of_demand? {c : Constraint} {e : Expr} {v : Value} {demanded d : Domain}
    (h : demand? caller.id c e demanded = some d) (hv : e.MayYield caller args v) :
    d.Admits args ↔ demanded.Admits args ∧ c.Admits v := by
  unfold demand? at h
  split at h
  · rename_i index hindex
    -- the value passed is that of the parameter
    rw [Domain.admits_of_require? h args]
    constructor
    · rintro ⟨hdemanded, hslot⟩
      have hlt : index.toNat < args.length := by
        rw [Domain.length_of_admits hdemanded]
        exact Domain.lt_arity_of_require? h
      have hx := List.getElem?_eq_getElem hlt
      rw [(Expr.mayYield_iff_of_parameterOf? hindex).1 hv _ hx]
      exact ⟨hdemanded, hslot _ hx⟩
    · rintro ⟨hdemanded, hc⟩
      refine ⟨hdemanded, fun x hx => ?_⟩
      rw [← (Expr.mayYield_iff_of_parameterOf? hindex).1 hv x hx]
      exact hc
  · split at h
    · rename_i hfixed
      obtain rfl : demanded = d := by simpa using h
      exact ⟨fun hd => ⟨hd, Expr.admits_of_fixedConstraint? hfixed hv⟩, fun hd => hd.1⟩
    · simp at h

/-! ### All arguments -/

theorem any_collected_iff {expanded : Bool} {n i : Nat} :
    (if expanded then some n else none).any (· ≤ i) = true ↔ expanded = true ∧ n ≤ i := by
  cases expanded <;> simp

/-- An array satisfies each constraint but `null` and the booleans. -/
theorem admits_object_of_ne {c : Constraint} (hnull : c ≠ .null) (hbool : ∀ b, c ≠ .bool b) :
    c.Admits .object := by
  cases c with
  | any => trivial
  | null => exact absurd rfl hnull
  | nonNull => simp [Constraint.Admits]
  | bool b => exact absurd rfl (hbool b)

/-- What the rest of a call passes starts one parameter later. -/
theorem tail_of_passesFrom {expanded : Bool} {i : Nat} {e : Expr} {es : List Expr} {v : Value}
    (h : PassesFrom caller target expanded args i (e :: es) (v :: passed)) :
    PassesFrom caller target expanded args (i + 1) es passed := by
  intro j w hw
  have hnext := h (j + 1) w (by simpa using hw)
  rwa [show i + (j + 1) + 1 = i + 1 + j + 1 by omega, List.getElem?_cons_succ] at hnext

/-- What a list of constraints demands of the caller's parameters is what it demands of the
values that the call passes. -/
theorem admits_of_demandAll? {expanded : Bool} {i : Nat} {cs : List Constraint} {es : List Expr}
    {demanded d : Domain}
    (h : demandAll? caller.id (if expanded then some (target.arity - 1) else none) i cs es
      demanded = some d)
    (harity : i + cs.length = target.arity)
    (hbool : expanded = true → ∀ j b, i + j + 1 = target.arity → cs[j]? ≠ some (.bool b))
    (hlen : passed.length = cs.length)
    (hpass : PassesFrom caller target expanded args i es passed) :
    d.Admits args ↔ demanded.Admits args ∧ Constraint.AdmitAll cs passed := by
  induction cs generalizing i es demanded passed with
  | nil =>
      obtain rfl : passed = [] := List.length_eq_zero_iff.1 hlen
      rw [demandAll?] at h
      obtain rfl : demanded = d := by simpa using h
      simp
  | cons c cs ih =>
      obtain ⟨v, passed, rfl⟩ := List.exists_cons_of_length_eq_add_one hlen
      cases es with
      | nil => simp [demandAll?] at h
      | cons e es =>
          have harity' : i + 1 + cs.length = target.arity := by
            rw [List.length_cons] at harity
            omega
          have hbool' : expanded = true →
              ∀ j b, i + 1 + j + 1 = target.arity → cs[j]? ≠ some (.bool b) := by
            intro hexp j b hj
            have hslot := hbool hexp (j + 1) b (by omega)
            rwa [List.getElem?_cons_succ] at hslot
          have hlen' : passed.length = cs.length := by simpa using hlen
          have hpass' := tail_of_passesFrom hpass
          have hfirst := hpass 0 v rfl
          rw [demandAll?] at h
          rw [Constraint.admitAll_cons]
          by_cases hany : c.isAny = true
          · -- nothing is required of this argument
            rw [if_pos hany] at h
            obtain rfl : c = .any := by simpa [Constraint.isAny] using hany
            rw [ih h harity' hbool' hlen' hpass']
            exact ⟨fun hd => ⟨hd.1, trivial, hd.2⟩, fun hd => ⟨hd.1, hd.2.2⟩⟩
          · rw [if_neg hany] at h
            by_cases hcollected : expanded = true ∧ target.arity - 1 ≤ i
            · -- the last parameter gets an array, and no slot comes after its own
              rw [if_pos (any_collected_iff.2 hcollected)] at h
              obtain ⟨hexp, hle⟩ := hcollected
              obtain rfl : cs = [] := List.length_eq_zero_iff.1 (by omega)
              obtain rfl : passed = [] := List.length_eq_zero_iff.1 hlen'
              have hlast : i + 0 + 1 = target.arity := by simpa using harity'
              rw [if_pos ⟨hexp, hlast⟩] at hfirst
              by_cases hnull : c = .null
              · rw [if_pos hnull] at h
                simp at h
              · rw [if_neg hnull] at h
                obtain rfl : demanded = d := by simpa using h
                have hobject := admits_object_of_ne hnull fun b hc =>
                  hbool hexp 0 b hlast (congrArg some hc)
                rw [hfirst]
                exact ⟨fun hd => ⟨hd, hobject, trivial⟩, fun hd => hd.1⟩
            · -- the argument has to meet the constraint, by itself or through a parameter
              rw [if_neg (mt any_collected_iff.1 hcollected)] at h
              obtain ⟨d₁, hd₁, hrest⟩ := Option.bind_eq_some_iff.1 h
              have hplain : ¬(expanded = true ∧ i + 0 + 1 = target.arity) := by
                rintro ⟨hexp, hlast⟩
                exact hcollected ⟨hexp, by omega⟩
              rw [if_neg hplain] at hfirst
              rw [ih hrest harity' hbool' hlen' hpass', admits_of_demand? hd₁ (hfirst e rfl),
                and_assoc]

/-- **Restating a clause for a caller is exact.** For arguments of the caller and arguments that
the call can then pass, the restated clause applies to the former just when the clause itself
applies to the latter. -/
theorem admits_iff_of_throughCall? {call : Call} {negated : Bool} {c t : Clause}
    (h : c.throughCall? caller target call (target.expands call) negated = some t)
    (hfit : c.Fits target call) (hargs : args.length = caller.arity)
    (hpass : call.MayPass caller target args passed) :
    t.domain.Admits args ↔ c.domain.Admits passed := by
  obtain ⟨d, hd, rfl⟩ := Option.map_eq_some_iff.1 h
  have hbool : target.expands call = true →
      ∀ j b, 0 + j + 1 = target.arity → c.domain.slots[j]? ≠ some (.bool b) := by
    intro hexp j b hj
    rw [Nat.zero_add] at hj
    exact hfit.2 hexp j b hj
  have hiff := admits_of_demandAll? hd ((Nat.zero_add _).trans hfit.1) hbool
    (hpass.1.trans hfit.1.symm) hpass.2
  rw [Domain.admits_unconstrained] at hiff
  exact hiff.trans (and_iff_right hargs)

/-! ### What is kept -/

theorem arity_of_demand? {id : MethodId} {constraint : Constraint} {e : Expr}
    {demanded d : Domain} (h : demand? id constraint e demanded = some d) :
    d.arity = demanded.arity := by
  unfold demand? at h
  split at h
  · exact Domain.arity_of_require? h
  · split at h
    · rw [← Option.some.inj h]
    · simp at h

theorem arity_of_demandAll? {id : MethodId} {collected? : Option Nat} {i : Nat}
    {constraints : List Constraint} {es : List Expr} {demanded d : Domain}
    (h : demandAll? id collected? i constraints es demanded = some d) :
    d.arity = demanded.arity := by
  induction constraints generalizing i es demanded with
  | nil =>
      rw [demandAll?] at h
      rw [← Option.some.inj h]
  | cons constraint constraints ih =>
      cases es with
      | nil => simp [demandAll?] at h
      | cons e es =>
          rw [demandAll?] at h
          split at h
          · exact ih h
          · split at h
            · -- the slots from here on are passed in an array, and nothing more is demanded
              split at h
              · simp at h
              · rw [← Option.some.inj h]
            · obtain ⟨next, hnext, hrest⟩ := Option.bind_eq_some_iff.1 h
              rw [ih hrest, arity_of_demand? hnext]

theorem arity_of_throughCall? {call : Call} {expanded negated : Bool} {c t : Clause}
    (h : c.throughCall? caller target call expanded negated = some t) :
    t.arity = caller.arity := by
  obtain ⟨d, hd, rfl⟩ := Option.map_eq_some_iff.1 h
  show d.arity = caller.arity
  rw [arity_of_demandAll? hd, Domain.arity_unconstrained]

theorem outcome_of_throughCall? {call : Call} {expanded negated : Bool} {c t : Clause}
    (h : c.throughCall? caller target call expanded negated = some t) :
    t.outcome = if negated then c.outcome.flip else c.outcome := by
  obtain ⟨d, -, rfl⟩ := Option.map_eq_some_iff.1 h
  rfl

/-- Carving keeps a clause fit for a call. -/
theorem Fits.carve? {call : Call} {c k rest : Clause} (h : c.carve? k = some rest)
    (hfit : c.Fits target call) : rest.Fits target call := by
  refine ⟨(arity_of_carve? h).trans hfit.1, ?_⟩
  intro hexp i b hi
  rcases slot?_of_carve? h i with hsame | ⟨-, hnull | hnonNull⟩
  · rw [hsame]
    exact hfit.2 hexp i b hi
  · simp [hnull]
  · simp [hnonNull]

theorem fits_of_mem_normalize? {call : Call} {cs out : List Clause}
    (h : normalize? cs = some out) (hcs : ∀ c ∈ cs, c.Fits target call) :
    ∀ c ∈ out, c.Fits target call :=
  forall_mem_normalize? (fun _ _ _ hc hcarve => hc.carve? hcarve) h hcs

/-- **Translation through a call is exact.** A restated clause has a slot for each parameter of
the caller and the outcome of the clause, flipped if the caller negates the call; and it applies to
arguments of the caller just when the clause applies to whatever the call can then pass. -/
theorem throughCall?_exact {call : Call} {negated : Bool} {c t : Clause}
    (hfit : c.Fits target call)
    (h : c.throughCall? caller target call (target.expands call) negated = some t) :
    t.arity = caller.arity ∧ (t.outcome = if negated then c.outcome.flip else c.outcome) ∧
      ∀ args passed, args.length = caller.arity → call.MayPass caller target args passed →
        (t.domain.Admits args ↔ c.domain.Admits passed) :=
  ⟨arity_of_throughCall? h, outcome_of_throughCall? h,
    fun _ _ hargs hpass => admits_iff_of_throughCall? h hfit hargs hpass⟩

/-- A method `format(pattern, strict, values...)`. -/
def format : Signature := ⟨⟨1⟩, "format", ["pattern", "strict", "values"], true⟩

/-- A method `log(message, cause)`. -/
def log : Signature := ⟨⟨2⟩, "log", ["message", "cause"], false⟩

/-- The call `format((message), true, 1, 2)` in the body of `log`. -/
def formatCall : Call where
  name := "format"
  target := some format.id
  receiver := none
  arguments := [
    .parenthesized ⟨7, 16⟩ (.reference ⟨8, 15⟩ "message" none (some (.parameter log.id 0))),
    .literal ⟨18, 22⟩ (.bool true), .literal ⟨24, 25⟩ (.int 1), .literal ⟨27, 28⟩ (.int 2)]
  varArgs := false

/-- What is said of a pattern, a strict format and its values comes down to the message of the
log, whatever its cause is. -/
theorem throughCall?_exact_formatCall :
    (⟨⟨[.nonNull, .bool true, .nonNull]⟩, .bool false⟩ : Clause).throughCall? log format formatCall
        true true = some ⟨⟨[.nonNull, .any]⟩, .bool true⟩ ∧
      formatCall.MayPass log format [.object, .null] [.object, .bool true, .object] ∧
      (Domain.Admits ⟨[.nonNull, .any]⟩ [.object, .null] ↔
        Domain.Admits ⟨[.nonNull, .bool true, .nonNull]⟩ [.object, .bool true, .object]) := by
  have hfit : Clause.Fits format formatCall
      ⟨⟨[.nonNull, .bool true, .nonNull]⟩, .bool false⟩ := by
    refine ⟨rfl, fun _ i b hi => ?_⟩
    obtain rfl : i = 2 := Nat.succ.inj hi
    simp [Domain.slot?]
  have h : (⟨⟨[.nonNull, .bool true, .nonNull]⟩, .bool false⟩ : Clause).throughCall? log format
      formatCall (format.expands formatCall) true = some ⟨⟨[.nonNull, .any]⟩, .bool true⟩ := rfl
  have hpass : formatCall.MayPass log format [.object, .null] [.object, .bool true, .object] := by
    refine ⟨rfl, fun j v hv => ?_⟩
    match j with
    | 0 =>
        obtain rfl := Option.some.inj hv
        intro e he
        obtain rfl := Option.some.inj he
        intro _ x hx
        exact Option.some.inj hx
    | 1 =>
        obtain rfl := Option.some.inj hv
        intro e he
        obtain rfl := Option.some.inj he
        rfl
    | 2 => exact (Option.some.inj hv).symm
    | j + 3 => simp at hv
  exact ⟨h, hpass, (throughCall?_exact hfit h).2.2 _ _ rfl hpass⟩

end Clause

end MethodContracts
