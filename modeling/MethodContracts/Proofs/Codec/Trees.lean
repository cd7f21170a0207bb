import MethodContracts.Proofs.Codec.Records
import MethodContracts.Proofs.Descriptor.Leaves
import MethodContracts.Proofs.Expr.Within

/-!
# Expressions and descriptors

Expressions and descriptors are written as deeply as they nest. Their readers go down the written
value one container at a time, and a part is written less deeply than what it is a part of; so a
reader that goes as deep as the value does reaches every part (`Expr.readWithin?_toJson`,
`Descriptor.readWithin?_toJson`). The inductions are on the tree, for every depth that suffices.
-/

namespace MethodContracts

open Json

/-! ### Expressions -/

namespace Expr

theorem listJson_eq_map (es : List Expr) : listJson es = es.map toJson := by
  induction es with
  | nil => rfl
  | cons e es ih => rw [listJson, ih, List.map_cons]

theorem optionJson_eq (o : Option Expr) : optionJson o = ofOption toJson o := by
  cases o <;> rfl

/-- Whether no part of an expression is a float literal. -/
def FloatFree (e : Expr) : Prop := ∀ d : Expr, d.Within e → ∀ r f, d ≠ literal r (.float f)

theorem floatFree_iff {e : Expr} :
    e.FloatFree ↔ (∀ r f, e ≠ literal r (.float f)) ∧ ∀ c ∈ e.children, c.FloatFree := by
  constructor
  · intro h
    exact ⟨h e .refl, fun c hc d hd => h d (hd.of_mem_children hc)⟩
  · intro h d hd
    rcases within_iff.1 hd with rfl | ⟨c, hc, hd⟩
    · exact h.1
    · exact h.2 c hc d hd

theorem FloatFree.of_mem_children {c e : Expr} (h : e.FloatFree) (hc : c ∈ e.children) :
    c.FloatFree :=
  (floatFree_iff.1 h).2 c hc

theorem FloatFree.literal {r : TextRange} {value : Literal} (h : (literal r value).FloatFree) :
    value.FloatFree := by
  intro f hf
  exact (floatFree_iff.1 h).1 r f (congrArg _ hf)

/-! Nodes are records of a range and a kind. -/

@[simp] theorem depth_nodeJson (r : TextRange) (kind : Json) :
    (nodeJson r kind).depth = max 1 kind.depth + 1 := by
  simp [nodeJson, depth, depthMembers]

@[simp] theorem isExact_nodeJson (r : TextRange) (kind : Json) :
    (nodeJson r kind).isExact = kind.isExact := by
  simp [nodeJson, isExact, haveExact]

theorem readWithin?_nodeJson (n : Nat) (r : TextRange) (kind : Json) :
    readWithin? (n + 1) (nodeJson r kind) = kind.variant?.bind (ofKind? (readWithin? n) r) := by
  simp [readWithin?, nodeJson, fields?_object, required]

theorem toJson_ne_null (e : Expr) : e.toJson ≠ .null := by
  cases e <;> simp [toJson, nodeJson]

theorem depth_toJson_pos (e : Expr) : 0 < e.toJson.depth := by
  cases e <;> simp [toJson]

theorem depth_toJson_lt {c e : Expr} (h : c ∈ e.children) : c.toJson.depth < e.toJson.depth := by
  have hlist : ∀ es : List Expr, c ∈ es → c.toJson.depth ≤ depthItems (es.map toJson) :=
    fun es hc => depthItems_le_iff.1 (Nat.le_refl _) _ (List.mem_map_of_mem hc)
  have hoption : ∀ o : Option Expr, c ∈ o.toList → c.toJson.depth ≤ (optionJson o).depth := by
    intro o hc
    obtain rfl := Option.mem_toList.1 hc
    exact Nat.le_refl _
  cases e with
  | literal | function => exact absurd h List.not_mem_nil
  | reference r name qualifier symbol =>
      have hqualifier := hoption qualifier h
      simp only [toJson, depth_nodeJson, depth_ofVariant, depth, depthMembers]
      omega
  | parenthesized r inner =>
      obtain rfl := List.mem_singleton.1 h
      simp only [toJson, depth_nodeJson, depth_ofVariant]
      omega
  | call r name target receiver arguments varArgs =>
      simp only [toJson, depth_nodeJson, depth_ofVariant, depth, depthMembers, listJson_eq_map]
      rcases List.mem_append.1 h with h | h
      · have hreceiver := hoption receiver h
        omega
      · have harguments := hlist arguments h
        omega
  | construction r es | operation r o es | other r es =>
      have hes := hlist es h
      simp only [toJson, depth_nodeJson, depth_ofVariant, depth, depthMembers, listJson_eq_map]
      omega
  | assignment r target value =>
      simp only [toJson, depth_nodeJson, depth_ofVariant, depth, depthMembers]
      rcases List.mem_pair.1 h with rfl | rfl <;> omega

theorem isExact_toJson {e : Expr} (h : e.FloatFree) : e.toJson.isExact = true := by
  induction e using induction_on_children with
  | step e ih =>
      have hpart : ∀ c ∈ e.children, c.toJson.isExact = true :=
        fun c hc => ih c hc (h.of_mem_children hc)
      have hlist : ∀ es : List Expr, (∀ c ∈ es, c ∈ e.children) →
          areExact (listJson es) = true := by
        intro es hes
        rw [listJson_eq_map]
        exact areExact_map fun c hc => hpart c (hes c hc)
      have hoption : ∀ o : Option Expr, (∀ c ∈ o, c ∈ e.children) →
          (optionJson o).isExact = true := by
        intro o ho
        rw [optionJson_eq]
        exact isExact_ofOption fun c hc => hpart c (ho c hc)
      cases e with
      | literal r value => simp [toJson, Literal.isExact_toJson h.literal]
      | reference r name qualifier symbol =>
          have hqualifier := hoption qualifier (by simp [children])
          have hsymbol : (ofOption Symbol.toJson symbol).isExact = true :=
            isExact_ofOption fun s _ => s.isExact_toJson
          simp [toJson, isExact, haveExact, hqualifier, hsymbol]
      | parenthesized r inner => simp [toJson, hpart inner (by simp [children])]
      | call r name target receiver arguments varArgs =>
          have htarget : (ofOption MethodId.toJson target).isExact = true :=
            isExact_ofOption fun id _ => id.isExact_toJson
          have hreceiver := hoption receiver (by simp +contextual [children])
          have harguments := hlist arguments (by simp +contextual [children])
          simp [toJson, isExact, haveExact, htarget, hreceiver, harguments]
      | construction r es | operation r o es | other r es =>
          have hes := hlist es (by simp [children])
          simp [toJson, isExact, haveExact, hes]
      | function r => rfl
      | assignment r target value =>
          have htarget := hpart target (by simp [children])
          have hvalue := hpart value (by simp [children])
          simp [toJson, isExact, haveExact, htarget, hvalue]

theorem readWithin?_toJson {e : Expr} (h : e.FloatFree) {n : Nat} (hn : e.toJson.depth ≤ n) :
    readWithin? n e.toJson = some e := by
  induction e using induction_on_children generalizing n with
  | step e ih =>
      obtain ⟨n, rfl⟩ := Nat.exists_eq_add_one.2 (Nat.lt_of_lt_of_le e.depth_toJson_pos hn)
      have hpart : ∀ c ∈ e.children, readWithin? n c.toJson = some c := by
        intro c hc
        have hdepth := depth_toJson_lt hc
        exact ih c hc (h.of_mem_children hc) (by omega)
      have hlist : ∀ es : List Expr, (∀ c ∈ es, c ∈ e.children) →
          toList? (readWithin? n) (.array (listJson es)) = some es := by
        intro es hes
        rw [listJson_eq_map]
        exact toList?_map fun c hc => hpart c (hes c hc)
      have hoption : ∀ o : Option Expr, (∀ c ∈ o, c ∈ e.children) →
          optional (readWithin? n) (some (optionJson o)) = some o := by
        intro o ho
        rw [optionJson_eq]
        exact optional_ofOption fun c hc => ⟨c.toJson_ne_null, hpart c (ho c hc)⟩
      cases e with
      | literal r value =>
          simp [toJson, readWithin?_nodeJson, ofKind?, Literal.ofJson?_toJson h.literal]
      | reference r name qualifier symbol =>
          have hqualifier := hoption qualifier (by simp [children])
          have hsymbol : optional Symbol.ofJson? (some (ofOption Symbol.toJson symbol)) =
              some symbol :=
            optional_ofOption fun s _ => ⟨s.toJson_ne_null, s.ofJson?_toJson⟩
          simp [toJson, readWithin?_nodeJson, ofKind?, fields?_object, required, toString?,
            hqualifier, hsymbol]
      | parenthesized r inner =>
          have hinner := hpart inner (by simp [children])
          simp [toJson, readWithin?_nodeJson, ofKind?, hinner]
      | call r name target receiver arguments varArgs =>
          have htarget : optional MethodId.ofJson? (some (ofOption MethodId.toJson target)) =
              some target :=
            optional_ofOption fun id _ => ⟨id.toJson_ne_null, id.ofJson?_toJson⟩
          have hreceiver := hoption receiver (by simp +contextual [children])
          have harguments := hlist arguments (by simp +contextual [children])
          simp [toJson, readWithin?_nodeJson, ofKind?, Call.read?, fields?_object, required,
            defaulted, toString?, toBool?, ofCall, htarget, hreceiver, harguments]
      | construction r es | other r es =>
          have hes := hlist es (by simp [children])
          simp [toJson, readWithin?_nodeJson, ofKind?, fields?_object, defaulted, hes]
      | operation r operator es =>
          have hes := hlist es (by simp [children])
          simp [toJson, readWithin?_nodeJson, ofKind?, fields?_object, required, toString?, hes]
      | function r => simp [toJson, readWithin?_nodeJson, ofKind?, isUnit]
      | assignment r target value =>
          have htarget := hpart target (by simp [children])
          have hvalue := hpart value (by simp [children])
          simp [toJson, readWithin?_nodeJson, ofKind?, fields?_object, required, htarget, hvalue]

theorem ofJson?_toJson {e : Expr} (h : e.FloatFree) : ofJson? e.toJson = some e :=
  readWithin?_toJson h (Nat.le_refl _)

theorem lawful : Lawful toJson ofJson? FloatFree :=
  ⟨fun _ => isExact_toJson, fun _ => ofJson?_toJson⟩

end Expr

/-! ### Bodies -/

namespace Body

/-- Whether no expression in a body is a float literal. -/
def FloatFree (b : Body) : Prop := ∀ e, b.Contains e → ∀ r f, e ≠ .literal r (.float f)

variable {b : Body}

theorem floatFree_iff : b.FloatFree ↔ ∀ top ∈ b.expressions, top.FloatFree := by
  constructor
  · intro h top htop d hd
    exact h d ⟨top, htop, hd⟩
  · intro h e he
    obtain ⟨top, htop, hd⟩ := he
    exact h top htop e hd

theorem isExact_toJson (h : b.FloatFree) : b.toJson.isExact = true := by
  have hexpressions : areExact (Expr.listJson b.expressions) = true := by
    rw [Expr.listJson_eq_map]
    exact areExact_map fun e he => Expr.isExact_toJson (floatFree_iff.1 h e he)
  simp [toJson, isExact, haveExact, hexpressions]

theorem ofJson?_toJson (h : b.FloatFree) : ofJson? b.toJson = some b := by
  have hexpressions : toList? Expr.ofJson? (.array (Expr.listJson b.expressions)) =
      some b.expressions := by
    rw [Expr.listJson_eq_map]
    exact toList?_map fun e he => Expr.ofJson?_toJson (floatFree_iff.1 h e he)
  simp [toJson, ofJson?, fields?_object, defaulted, hexpressions]

theorem toJson_ne_null (b : Body) : b.toJson ≠ .null := nofun

theorem lawful : Lawful toJson ofJson? FloatFree :=
  ⟨fun _ => isExact_toJson, fun _ => ofJson?_toJson⟩

end Body

/-! ### Descriptors -/

namespace Descriptor

theorem listJson_eq_map (ds : List Descriptor) : listJson ds = ds.map toJson := by
  induction ds with
  | nil => rfl
  | cons d ds ih => rw [listJson, ih, List.map_cons]

theorem isExact_toJson (d : Descriptor) : d.toJson.isExact = true := by
  induction d using induction_on_parts with
  | known clause => simp [toJson]
  | delegation call negated => simp [toJson, isExact, haveExact]
  | guarded guards inner ih =>
      have hguards : areExact (guards.map TextRange.toJson) = true :=
        areExact_map fun r _ => r.isExact_toJson
      have hinner : areExact (listJson inner) = true := by
        rw [listJson_eq_map]
        exact areExact_map ih
      simp [toJson, isExact, haveExact, hguards, hinner]
  | negating inner ih => simp [toJson, ih]
  | nonNullCall call states =>
      have hstates : areExact (states.map Domain.toJson) = true :=
        areExact_map fun d _ => d.isExact_toJson
      simp [toJson, isExact, haveExact, hstates]

theorem exists_add_one_of_depth_le {d : Descriptor} {n : Nat} (h : d.toJson.depth ≤ n) :
    ∃ m, n = m + 1 := by
  have hpos : 0 < d.toJson.depth := by cases d <;> simp [toJson]
  exact Nat.exists_eq_add_one.2 (Nat.lt_of_lt_of_le hpos h)

theorem readWithin?_toJson {d : Descriptor} {n : Nat} (hn : d.toJson.depth ≤ n) :
    readWithin? n d.toJson = some d := by
  induction d using induction_on_parts generalizing n with
  | known clause =>
      obtain ⟨n, rfl⟩ := exists_add_one_of_depth_le hn
      simp [toJson, readWithin?, ofKind?]
  | delegation call negated =>
      obtain ⟨n, rfl⟩ := exists_add_one_of_depth_le hn
      simp [toJson, readWithin?, ofKind?, fields?_object, required, defaulted, toBool?]
  | guarded guards inner ih =>
      obtain ⟨n, rfl⟩ := exists_add_one_of_depth_le hn
      have hguards : toList? TextRange.ofJson? (.array (guards.map TextRange.toJson)) =
          some guards :=
        toList?_map fun r _ => r.ofJson?_toJson
      have hinner : toList? (readWithin? n) (.array (listJson inner)) = some inner := by
        rw [listJson_eq_map]
        refine toList?_map fun d hd => ih d hd ?_
        have hdepth : d.toJson.depth ≤ depthItems (inner.map toJson) :=
          depthItems_le_iff.1 (Nat.le_refl _) _ (List.mem_map_of_mem hd)
        simp only [toJson, depth_ofVariant, Json.depth, depthMembers, listJson_eq_map] at hn
        omega
      simp [toJson, readWithin?, ofKind?, fields?_object, required, hguards, hinner]
  | negating inner ih =>
      obtain ⟨n, rfl⟩ := exists_add_one_of_depth_le hn
      have hinner : readWithin? n inner.toJson = some inner := by
        refine ih ?_
        rw [toJson, depth_ofVariant] at hn
        omega
      simp [toJson, readWithin?, ofKind?, hinner]
  | nonNullCall call states =>
      obtain ⟨n, rfl⟩ := exists_add_one_of_depth_le hn
      have hstates : toList? Domain.ofJson? (.array (states.map Domain.toJson)) = some states :=
        toList?_map fun d _ => d.ofJson?_toJson
      simp [toJson, readWithin?, ofKind?, fields?_object, required, hstates]

@[simp] theorem ofJson?_toJson (d : Descriptor) : ofJson? d.toJson = some d :=
  readWithin?_toJson (Nat.le_refl _)

theorem lawful : Lawful toJson ofJson? fun _ => True :=
  ⟨fun d _ => d.isExact_toJson, fun d _ => d.ofJson?_toJson⟩

end Descriptor

end MethodContracts
