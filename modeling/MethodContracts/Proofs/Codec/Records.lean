import MethodContracts.Codec.Session
import MethodContracts.Proofs.Json.Layout

/-!
# Data without nesting

Clauses and their parts, literals, symbols, ranges and signatures are written without a loss and
read as they were written. The one exception are float literals: they are written as decimal
numbers in the shortest form.
-/

namespace MethodContracts

open Json

/-! ### Clauses -/

namespace Constraint

@[simp] theorem isExact_toJson (c : Constraint) : c.toJson.isExact = true := rfl

@[simp] theorem ofJson?_toJson (c : Constraint) : ofJson? c.toJson = some c := by
  rcases c with _ | _ | _ | (_ | _) <;> decide

theorem lawful : Lawful toJson ofJson? fun _ => True :=
  ⟨fun c _ => c.isExact_toJson, fun c _ => c.ofJson?_toJson⟩

end Constraint

namespace Domain

@[simp] theorem isExact_toJson (d : Domain) : d.toJson.isExact = true :=
  areExact_map fun _ _ => rfl

@[simp] theorem ofJson?_toJson (d : Domain) : ofJson? d.toJson = some d := by
  unfold ofJson? toJson
  rw [toList?_map fun c _ => c.ofJson?_toJson]
  rfl

theorem lawful : Lawful toJson ofJson? fun _ => True :=
  ⟨fun d _ => d.isExact_toJson, fun d _ => d.ofJson?_toJson⟩

end Domain

namespace Outcome

@[simp] theorem isExact_toJson (o : Outcome) : o.toJson.isExact = true := by
  cases o <;> simp [toJson, isExact]

@[simp] theorem ofJson?_toJson (o : Outcome) : ofJson? o.toJson = some o := by
  cases o <;> simp [toJson, ofJson?, toBool?, isUnit]

theorem lawful : Lawful toJson ofJson? fun _ => True :=
  ⟨fun o _ => o.isExact_toJson, fun o _ => o.ofJson?_toJson⟩

end Outcome

namespace Clause

@[simp] theorem isExact_toJson (c : Clause) : c.toJson.isExact = true := by
  simp [toJson, isExact, haveExact]

@[simp] theorem ofJson?_toJson (c : Clause) : ofJson? c.toJson = some c := by
  simp [toJson, ofJson?, fields?_object, required]

theorem lawful : Lawful toJson ofJson? fun _ => True :=
  ⟨fun c _ => c.isExact_toJson, fun c _ => c.ofJson?_toJson⟩

end Clause

/-! ### Parts of expressions -/

namespace TextRange

@[simp] theorem isExact_toJson (r : TextRange) : r.toJson.isExact = true := rfl

@[simp] theorem ofJson?_toJson (r : TextRange) : ofJson? r.toJson = some r := by
  simp [toJson, ofJson?, fields?_object, required]

@[simp] theorem depth_toJson (r : TextRange) : r.toJson.depth = 1 := rfl

theorem lawful : Lawful toJson ofJson? fun _ => True :=
  ⟨fun r _ => r.isExact_toJson, fun r _ => r.ofJson?_toJson⟩

end TextRange

namespace MethodId

@[simp] theorem isExact_toJson (id : MethodId) : id.toJson.isExact = true := rfl

@[simp] theorem ofJson?_toJson (id : MethodId) : ofJson? id.toJson = some id := by
  simp [toJson, ofJson?]

theorem toJson_ne_null (id : MethodId) : id.toJson ≠ .null := nofun

end MethodId

namespace Literal

/-- Whether a literal is not a float. -/
def FloatFree (l : Literal) : Prop := ∀ f, l ≠ .float f

variable {l : Literal}

theorem isExact_toJson (h : l.FloatFree) : l.toJson.isExact = true := by
  cases l with
  | float f => exact absurd rfl (h f)
  | _ => simp [toJson, isExact]

theorem ofJson?_toJson (h : l.FloatFree) : ofJson? l.toJson = some l := by
  cases l with
  | float f => exact absurd rfl (h f)
  | _ => simp [toJson, ofJson?, toBool?, toString?, toChar?, isUnit]

theorem lawful : Lawful toJson ofJson? FloatFree :=
  ⟨fun _ => isExact_toJson, fun _ => ofJson?_toJson⟩

end Literal

namespace Symbol

@[simp] theorem isExact_toJson (s : Symbol) : s.toJson.isExact = true := by
  cases s <;> simp [toJson, isExact, haveExact]

@[simp] theorem ofJson?_toJson (s : Symbol) : ofJson? s.toJson = some s := by
  cases s <;> simp [toJson, ofJson?, fields?_object, required, toString?]

theorem toJson_ne_null (s : Symbol) : s.toJson ≠ .null := by
  cases s <;> nofun

theorem lawful : Lawful toJson ofJson? fun _ => True :=
  ⟨fun s _ => s.isExact_toJson, fun s _ => s.ofJson?_toJson⟩

end Symbol

/-! ### Signatures -/

namespace Signature

theorem haveExact_members (m : Signature) : haveExact m.members = true := by
  have hparams : areExact (m.params.map Json.string) = true := areExact_map fun _ _ => rfl
  simp [members, isExact, haveExact, hparams]

@[simp] theorem isExact_toJson (m : Signature) : m.toJson.isExact = true := m.haveExact_members

@[simp] theorem ofJson?_toJson (m : Signature) : ofJson? m.toJson = some m := by
  have hparams : toList? toString? (array (m.params.map Json.string)) = some m.params :=
    toList?_map fun _ _ => rfl
  simp [toJson, ofJson?, members, fieldNames, fields?_object, required, defaulted, toBool?,
    toString?, hparams]

theorem lawful : Lawful toJson ofJson? fun _ => True :=
  ⟨fun m _ => m.isExact_toJson, fun m _ => m.ofJson?_toJson⟩

end Signature

end MethodContracts
