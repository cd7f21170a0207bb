import MethodContracts.Proofs.NormalForm.Scan

/-!
# Symmetries of normalization

Normalization looks at clauses only through a few questions: do two of them overlap, does one cover
the other, do they promise the same, do they speak of as many parameters, and what does carving one
out of the other leave. A map of clauses that changes none of the answers is a **symmetry**, and
normalization commutes with it (`Symmetry.normalize?_map`), also where there is a conflict.

Renaming outcomes without identifying any two is a symmetry (`symmetry_mapOutcome`).
-/

namespace MethodContracts

/-- What happens to the image of a clause under a map of clauses. -/
def Encounter.map (φ : Clause → Clause) : Encounter → Encounter
  | passes => passes
  | absorbed => absorbed
  | narrowed rest => narrowed (φ rest)
  | conflict => conflict

namespace Clause

/-- Whether a map of clauses keeps everything that normalization asks about them. -/
structure Symmetry (φ : Clause → Clause) : Prop where
  /-- Clauses overlap just when their images do. -/
  overlaps_eq : ∀ a b, (φ a).overlaps (φ b) = a.overlaps b
  /-- Clauses cover each other just when their images do. -/
  covers_eq : ∀ a b, (φ a).domain.covers (φ b).domain = a.domain.covers b.domain
  /-- Clauses promise the same just when their images do. -/
  outcome_eq_iff : ∀ a b, (φ a).outcome = (φ b).outcome ↔ a.outcome = b.outcome
  /-- Carving images leaves the image of what carving leaves. -/
  carve?_eq : ∀ a b, (φ a).carve? (φ b) = (a.carve? b).map φ
  /-- The number of parameters stays the same. -/
  arity_eq : ∀ a, (φ a).arity = a.arity

namespace Symmetry

variable {φ : Clause → Clause} (hφ : Symmetry φ)

include hφ

theorem encounter_map (k c : Clause) : (φ k).encounter (φ c) = (k.encounter c).map φ := by
  unfold encounter
  rw [hφ.overlaps_eq, hφ.covers_eq, hφ.carve?_eq]
  simp only [hφ.outcome_eq_iff]
  split
  · split
    · rfl
    · split
      · rfl
      · cases c.carve? k with
        | none => rfl
        | some rest => rfl
  · rfl

theorem confront_map (kept : List Clause) (c : Clause) :
    confront (kept.map φ) (φ c) = (confront kept c).map φ := by
  induction kept with
  | nil => rfl
  | cons k ks ih =>
      rw [List.map_cons, confront, confront, hφ.encounter_map, ih]
      cases k.encounter c <;> rfl

theorem settle?_map (kept : List Clause) (c : Clause) :
    settle? (kept.map φ) (φ c) = (settle? kept c).map (Option.map φ) := by
  induction c using settle?.induct kept with
  | case1 c hpass =>
      have hpass' : confront (kept.map φ) (φ c) = .passes := by
        rw [hφ.confront_map, hpass]
        rfl
      rw [settle?_of_passes hpass, settle?_of_passes hpass']
      rfl
  | case2 c habs =>
      have habs' : confront (kept.map φ) (φ c) = .absorbed := by
        rw [hφ.confront_map, habs]
        rfl
      rw [settle?_of_absorbed habs, settle?_of_absorbed habs']
      rfl
  | case3 c rest hnarrow ih =>
      have hnarrow' : confront (kept.map φ) (φ c) = .narrowed (φ rest) := by
        rw [hφ.confront_map, hnarrow]
        rfl
      rw [settle?_of_narrowed hnarrow, settle?_of_narrowed hnarrow', ih]
  | case4 c hconf =>
      have hconf' : confront (kept.map φ) (φ c) = .conflict := by
        rw [hφ.confront_map, hconf]
        rfl
      rw [settle?_of_conflict hconf, settle?_of_conflict hconf']
      rfl

theorem insert?_map (kept : List Clause) (c : Clause) :
    insert? (kept.map φ) (φ c) = (insert? kept c).map (List.map φ) := by
  have hhead : ((kept.map φ).head?.any fun k => k.arity ≠ (φ c).arity) =
      kept.head?.any fun k => k.arity ≠ c.arity := by
    cases kept with
    | nil => rfl
    | cons first others => simp [hφ.arity_eq]
  unfold insert?
  rw [hhead, hφ.settle?_map]
  split
  · rfl
  · cases settle? kept c with
    | none => rfl
    | some left => cases left <;> simp

/-- **Normalization commutes with symmetries.** -/
theorem normalize?_map (cs : List Clause) :
    normalize? (cs.map φ) = (normalize? cs).map (List.map φ) := by
  induction cs using List.reverseRecOn with
  | nil => rfl
  | append_singleton cs c ih =>
      rw [List.map_append, List.map_singleton, normalize?_concat, normalize?_concat, ih]
      cases normalize? cs with
      | none => rfl
      | some kept => exact hφ.insert?_map kept c

theorem comp {ψ : Clause → Clause} (hψ : Symmetry ψ) : Symmetry fun c => ψ (φ c) where
  overlaps_eq a b := (hψ.overlaps_eq _ _).trans (hφ.overlaps_eq a b)
  covers_eq a b := (hψ.covers_eq _ _).trans (hφ.covers_eq a b)
  outcome_eq_iff a b := (hψ.outcome_eq_iff _ _).trans (hφ.outcome_eq_iff a b)
  carve?_eq a b := by
    rw [hψ.carve?_eq, hφ.carve?_eq, Option.map_map]
    rfl
  arity_eq a := (hψ.arity_eq _).trans (hφ.arity_eq a)

end Symmetry

/-! ### Renaming outcomes -/

/-- The clause with its outcome renamed. -/
def mapOutcome (f : Outcome → Outcome) (c : Clause) : Clause := c.withOutcome (f c.outcome)

/-- Renaming outcomes is a symmetry if different outcomes stay different. -/
theorem symmetry_mapOutcome {f : Outcome → Outcome} (hf : Function.Injective f) :
    Symmetry (mapOutcome f) where
  overlaps_eq _ _ := rfl
  covers_eq _ _ := rfl
  outcome_eq_iff _ _ := hf.eq_iff
  carve?_eq a b := by
    simp only [carve?, mapOutcome, withOutcome, Option.map_map]
    rfl
  arity_eq _ := rfl

end Clause

end MethodContracts
