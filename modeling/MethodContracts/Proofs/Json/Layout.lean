import Mathlib.Data.List.Nodup
import MethodContracts.Json.Fields
import MethodContracts.Proofs.Json.Text

/-!
# Lawful layouts

A layout is a function that writes data of one type as JSON values together with one that reads
them. It is lawful for some of the data if these are written without a loss and reading takes them
back (`Lawful`). Then they also come back from text (`Lawful.roundTrips`), so a type needs no more
than its two laws; text is dealt with here for all types.

The laws of the parts of a layout follow: lists, optional values, records and variants are written
without a loss if their parts are, and reading finds each part where it was written.
-/

namespace MethodContracts.Json

/-! ### Depth and loss -/

theorem depthItems_le_iff {n : Nat} {js : List Json} :
    depthItems js ≤ n ↔ ∀ j ∈ js, j.depth ≤ n := by
  induction js with
  | nil => simp [depthItems]
  | cons j js ih => rw [depthItems, Nat.max_le, ih, List.forall_mem_cons]

@[simp] theorem depth_ofVariant (name : String) (data : Json) :
    (ofVariant name data).depth = data.depth + 1 := by
  simp [ofVariant, depth, depthMembers]

@[simp] theorem isExact_ofVariant (name : String) (data : Json) :
    (ofVariant name data).isExact = data.isExact := by
  simp [ofVariant, isExact, haveExact]

section Parts

variable {α : Type} {write : α → Json} {read? : Json → Option α} {as : List α} {o : Option α}

theorem areExact_map (h : ∀ a ∈ as, (write a).isExact = true) :
    areExact (as.map write) = true := by
  rw [areExact_iff]
  intro j hj
  obtain ⟨a, ha, rfl⟩ := List.mem_map.1 hj
  exact h a ha

theorem isExact_ofOption (h : ∀ a ∈ o, (write a).isExact = true) :
    (ofOption write o).isExact = true := by
  cases o with
  | none => rfl
  | some a => exact h a rfl

/-! ### Reading parts -/

theorem toList?_map (h : ∀ a ∈ as, read? (write a) = some a) :
    toList? read? (array (as.map write)) = some as := by
  have hmap : (as.map write).mapM read? = some (as.map id) := mapM_map_eq_some h
  rwa [List.map_id] at hmap

/-- An optional value can be told from a missing one unless it is written as null. -/
theorem optional_ofOption (h : ∀ a ∈ o, write a ≠ null ∧ read? (write a) = some a) :
    optional read? (some (ofOption write o)) = some o := by
  cases o with
  | none => rfl
  | some a =>
      obtain ⟨hnull, hread⟩ := h a rfl
      show optional read? (some (write a)) = some (some a)
      unfold optional
      split
      · rename_i heq
        exact absurd (Option.some.inj heq) hnull
      · rename_i j _ heq
        obtain rfl := Option.some.inj heq
        rw [hread, Option.map_some]
      · rename_i heq
        cases heq

end Parts

theorem filter_key {members : List (String × Json)} (h : (members.map Prod.fst).Nodup)
    {m : String × Json} (hm : m ∈ members) :
    members.filter (fun (key, _) => key = m.1) = [m] := by
  induction members with
  | nil => exact absurd hm List.not_mem_nil
  | cons k ks ih =>
      rw [List.map_cons, List.nodup_cons] at h
      rw [List.filter_cons]
      rcases List.mem_cons.1 hm with rfl | hm
      · have hnone : ks.filter (fun (key, _) => key = m.1) = [] := by
          rw [List.filter_eq_nil_iff]
          intro x hx hkey
          exact h.1 (of_decide_eq_true hkey ▸ List.mem_map_of_mem hx)
        simp [hnone]
      · have hne : k.1 ≠ m.1 := fun hkey => h.1 (hkey ▸ List.mem_map_of_mem hm)
        rw [if_neg (by simpa using hne)]
        exact ih h.2 hm

/-- The fields of a record are found where they were written. -/
theorem fields?_object {names : List String} {members : List (String × Json)}
    (hnames : members.map Prod.fst = names) (hnodup : names.Nodup) :
    fields? names (object members) = some (members.map fun m => some m.2) := by
  obtain rfl := hnames
  refine mapM_map_eq_some fun m hm => ?_
  rw [filter_key hnodup hm]

@[simp] theorem variant?_ofVariant (name : String) (data : Json) :
    (ofVariant name data).variant? = some (name, some data) := rfl

@[simp] theorem variant?_string (name : String) : (string name).variant? = some (name, none) := rfl

/-! ### Layouts -/

section Layouts

variable {α : Type} {write : α → Json} {read? : Json → Option α} {P : α → Prop}

/-- Whether those data that have a property are written without a loss, and read as they were
written. -/
structure Lawful (write : α → Json) (read? : Json → Option α) (P : α → Prop) : Prop where
  exact : ∀ a, P a → (write a).isExact = true
  read?_write : ∀ a, P a → read? (write a) = some a

/-- Whether text keeps those data that have a property and do not nest too deeply. -/
structure RoundTrips (write : α → Json) (read? : Json → Option α) (P : α → Prop) : Prop where
  /-- What is written comes back. -/
  read_text : ∀ a, P a → (write a).depth ≤ nestingLimit →
    (ofText? (write a).text).bind read? = some a
  /-- Whatever text data were read from, their own text does not change any more when it is read
  and written again. -/
  text_stable : ∀ s a, (ofText? s).bind read? = some a → P a → (write a).depth ≤ nestingLimit →
    ((ofText? (write a).text).bind read?).map (fun b => (write b).text) = some (write a).text

theorem Lawful.roundTrips (h : Lawful write read? P) : RoundTrips write read? P := by
  have hback : ∀ a, P a → (write a).depth ≤ nestingLimit →
      (ofText? (write a).text).bind read? = some a := by
    intro a ha hdepth
    rw [ofText?_text (h.exact a ha) hdepth]
    exact h.read?_write a ha
  refine ⟨hback, ?_⟩
  intro s a _ ha hdepth
  rw [hback a ha hdepth, Option.map_some]

end Layouts

end MethodContracts.Json
