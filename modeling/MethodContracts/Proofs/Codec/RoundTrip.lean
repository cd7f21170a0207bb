import MethodContracts.Proofs.Codec.Trees

/-!
# Text keeps the data

An entry is a record with the fields of its signature beside its own. A reader tells the two apart
by name, and no name occurs in both (`Entry.partition_members`).

With this every type of the data model is laid out lawfully, float literals apart, and text keeps
its data (`text_keeps_data`).
-/

namespace MethodContracts

open Json

/-! ### Entries -/

namespace Json

theorem isWord_toNat_of_uint32 (n : UInt32) : isWord n.toNat = true := by
  have hlt := n.toNat_lt
  unfold isWord
  rw [Bool.and_eq_true, decide_eq_true_eq, decide_eq_true_eq]
  omega

theorem areReadable_map_string (names : List String) : areReadable (names.map string) = true := by
  induction names with
  | nil => rfl
  | cons name names ih => rw [List.map_cons, areReadable, ih]; rfl

end Json

theorem Signature.haveReadable_members (m : Signature) : haveReadable m.members = true := by
  simp [members, haveReadable, isReadable, MethodId.toJson, isWord_toNat_of_uint32,
    areReadable_map_string]

namespace Entry

variable {e : Entry}

/-- The fields of an entry beside those of its signature. -/
def ownMembers (e : Entry) : List (String × Json) :=
  [("contract", ofOption Json.string e.contract), ("never_null", .bool e.neverNull),
    ("pure", .bool e.isPure), ("body", ofOption Body.toJson e.body),
    ("pre_contracts", .array (Descriptor.listJson e.descriptors))]

theorem toJson_eq (e : Entry) : e.toJson = .object (e.signature.members ++ e.ownMembers) := rfl

/-- No field of a signature has the name of a field of an entry. -/
theorem partition_members (e : Entry) :
    (e.signature.members ++ e.ownMembers).partition (fun (key, _) => key ∈ fieldNames) =
      (e.ownMembers, e.signature.members) := by
  rw [List.partition_eq_filter_filter, List.filter_append, List.filter_append]
  simp [Signature.members, ownMembers, fieldNames]

/-- Whether the body of an entry, if it has one, has no float literals. -/
def FloatFree (e : Entry) : Prop := ∀ b ∈ e.body, b.FloatFree

theorem isExact_toJson (h : e.FloatFree) : e.toJson.isExact = true := by
  have hcontract : (ofOption Json.string e.contract).isExact = true :=
    isExact_ofOption fun _ _ => rfl
  have hbody : (ofOption Body.toJson e.body).isExact = true :=
    isExact_ofOption fun b hb => Body.isExact_toJson (h b hb)
  have hdescriptors : areExact (Descriptor.listJson e.descriptors) = true := by
    rw [Descriptor.listJson_eq_map]
    exact areExact_map fun d _ => d.isExact_toJson
  rw [toJson_eq, isExact, haveExact_iff, List.forall_mem_append]
  refine ⟨haveExact_iff.1 e.signature.haveExact_members, ?_⟩
  simp [ownMembers, isExact, hcontract, hbody, hdescriptors]

theorem ofJson?_toJson (h : e.FloatFree) : ofJson? e.toJson = some e := by
  have hcontract : optional toString? (some (ofOption Json.string e.contract)) =
      some e.contract :=
    optional_ofOption fun _ _ => ⟨nofun, rfl⟩
  have hbody : optional Body.ofJson? (some (ofOption Body.toJson e.body)) = some e.body :=
    optional_ofOption fun b hb => ⟨b.toJson_ne_null, Body.ofJson?_toJson (h b hb)⟩
  have hdescriptors : toList? Descriptor.ofJson? (.array (Descriptor.listJson e.descriptors)) =
      some e.descriptors := by
    rw [Descriptor.listJson_eq_map]
    exact toList?_map fun d _ => d.ofJson?_toJson
  have hsignature : Signature.ofJson? (.object e.signature.members) = some e.signature :=
    e.signature.ofJson?_toJson
  have hown : (object e.ownMembers).fields? fieldNames =
      some (e.ownMembers.map fun m => some m.2) :=
    fields?_object rfl (by decide)
  rw [toJson_eq, ofJson?, e.partition_members]
  show (if haveReadable e.signature.members = true then _ else _) = _
  rw [if_pos e.signature.haveReadable_members, hown]
  simp [ownMembers, hsignature, hcontract, hbody, hdescriptors, defaulted, toBool?]

theorem lawful : Lawful toJson ofJson? FloatFree :=
  ⟨fun _ => isExact_toJson, fun _ => ofJson?_toJson⟩

end Entry

/-! ### The data model -/

/-- **Text keeps the data** of every type of the data model that do not nest too deeply and have
no float literals: what is written comes back, and whatever text the data were read from, their
own text stays as it is. -/
theorem text_keeps_data :
    RoundTrips Constraint.toJson Constraint.ofJson? (fun _ => True) ∧
    RoundTrips Domain.toJson Domain.ofJson? (fun _ => True) ∧
    RoundTrips Outcome.toJson Outcome.ofJson? (fun _ => True) ∧
    RoundTrips Clause.toJson Clause.ofJson? (fun _ => True) ∧
    RoundTrips Literal.toJson Literal.ofJson? Literal.FloatFree ∧
    RoundTrips Symbol.toJson Symbol.ofJson? (fun _ => True) ∧
    RoundTrips TextRange.toJson TextRange.ofJson? (fun _ => True) ∧
    RoundTrips Expr.toJson Expr.ofJson? Expr.FloatFree ∧
    RoundTrips Body.toJson Body.ofJson? Body.FloatFree ∧
    RoundTrips Signature.toJson Signature.ofJson? (fun _ => True) ∧
    RoundTrips Entry.toJson Entry.ofJson? Entry.FloatFree ∧
    RoundTrips Descriptor.toJson Descriptor.ofJson? (fun _ => True) :=
  ⟨Constraint.lawful.roundTrips, Domain.lawful.roundTrips, Outcome.lawful.roundTrips,
    Clause.lawful.roundTrips, Literal.lawful.roundTrips, Symbol.lawful.roundTrips,
    TextRange.lawful.roundTrips, Expr.lawful.roundTrips, Body.lawful.roundTrips,
    Signature.lawful.roundTrips, Entry.lawful.roundTrips, Descriptor.lawful.roundTrips⟩

/-- An entry with escaped characters, numbers at the limits of their ranges, and parts in parts. -/
def quotes : Entry where
  signature := ⟨⟨4294967295⟩, "say \"hi\"", ["text\n", "\t"], true⟩
  contract := some "null, _ -> fail"
  neverNull := true
  isPure := false
  body := some ⟨[.call ⟨0, 9⟩ "size" (some ⟨1⟩) none
    [.parenthesized ⟨5, 8⟩ (.literal ⟨6, 7⟩ (.int Int64.minValue))] false]⟩
  descriptors := [.guarded [⟨0, 9⟩] [.negating (.delegation ⟨0, 9⟩ false)],
    .known ⟨⟨[.null, .any]⟩, .parameter 18446744073709551615⟩]

theorem quotes_floatFree : quotes.FloatFree := by
  have hliteral : Expr.FloatFree (.literal ⟨6, 7⟩ (.int Int64.minValue)) :=
    Expr.floatFree_iff.2 ⟨by simp, by simp [Expr.children]⟩
  have hargument : Expr.FloatFree
      (.parenthesized ⟨5, 8⟩ (.literal ⟨6, 7⟩ (.int Int64.minValue))) :=
    Expr.floatFree_iff.2 ⟨by simp, by simpa [Expr.children] using hliteral⟩
  have hcall : Expr.FloatFree (.call ⟨0, 9⟩ "size" (some ⟨1⟩) none
      [.parenthesized ⟨5, 8⟩ (.literal ⟨6, 7⟩ (.int Int64.minValue))] false) :=
    Expr.floatFree_iff.2 ⟨by simp, by simpa [Expr.children] using hargument⟩
  intro b hb
  obtain rfl := Option.some.inj hb
  exact Body.floatFree_iff.2 (by simpa using hcall)

/-- An entry comes back from its text; and an expression that was written as an array of its
fields has a text that stays as it is. -/
theorem text_keeps_data_quotes :
    (ofText? quotes.toJson.text).bind Entry.ofJson? = some quotes ∧
    (ofText? "[[3,4],\"function\"]").bind Expr.ofJson? = some (.function ⟨3, 4⟩) ∧
    ((ofText? (Expr.function ⟨3, 4⟩).toJson.text).bind Expr.ofJson?).map
      (fun e => e.toJson.text) = some (Expr.function ⟨3, 4⟩).toJson.text := by
  obtain ⟨-, -, -, -, -, -, -, hexpr, -, -, hentry, -⟩ := text_keeps_data
  have hread : (ofText? "[[3,4],\"function\"]").bind Expr.ofJson? = some (.function ⟨3, 4⟩) := by
    have htext : (array [array [integer 3, integer 4], string "function"]).text =
        "[[3,4],\"function\"]" := by decide +kernel
    rw [← htext, ofText?_text rfl (by decide)]
    rfl
  have hfree : Expr.FloatFree (.function ⟨3, 4⟩) :=
    Expr.floatFree_iff.2 ⟨by simp, by simp [Expr.children]⟩
  have hback := hentry.read_text quotes quotes_floatFree (by decide)
  have hstable := hexpr.text_stable _ _ hread hfree (by decide)
  exact ⟨hback, hread, hstable⟩

end MethodContracts
