import MethodContracts.Proofs.Domain.Difference
import MethodContracts.Proofs.NormalForm.Scan

/-!
# What carving leaves

Carving takes the domain of one clause out of that of a clause around it and keeps the promise. It
finds what is left whenever that is the domain of some clause (`carve?_eq_some_iff`). So it fails
only where no single clause can state the rest: if nothing is left, if the two domains differ in
several slots, or if the slot in which they differ requires a boolean.
-/

namespace MethodContracts

namespace Clause

variable {c k rest : Clause}

/-- Carving gives the clause that applies where one clause does and another inside it does not. -/
theorem carve?_eq_some_iff : c.carve? k = some rest ↔
    (∀ args, k.domain.Admits args → c.domain.Admits args) ∧ rest.outcome = c.outcome ∧
      ∀ args, rest.domain.Admits args ↔ c.domain.Admits args ∧ ¬k.domain.Admits args := by
  constructor
  · intro h
    obtain ⟨d, hd, rfl⟩ := Option.map_eq_some_iff.1 h
    obtain ⟨hsub, hdiff⟩ := Domain.subtract?_eq_some_iff.1 hd
    exact ⟨hsub, rfl, hdiff⟩
  · intro ⟨hsub, hout, hdiff⟩
    rw [carve?, Domain.subtract?_eq_some_iff.2 ⟨hsub, hdiff⟩, Option.map_some, ← hout]

/-- **Carving is set difference, and succeeds whenever the difference is a domain.** What is left
promises what the carved clause did. -/
theorem carve?_exact {later earlier : Clause}
    (hcov : later.domain.covers earlier.domain = true) :
    ((later.carve? earlier).isSome = true ↔ ∃ d : Domain, ∀ args,
      d.Admits args ↔ later.domain.Admits args ∧ ¬earlier.domain.Admits args) ∧
    ∀ rest, later.carve? earlier = some rest → rest.outcome = later.outcome ∧
      ∀ args, rest.domain.Admits args ↔
        later.domain.Admits args ∧ ¬earlier.domain.Admits args := by
  refine ⟨?_, fun rest h => (carve?_eq_some_iff.1 h).2⟩
  rw [Option.isSome_iff_exists]
  constructor
  · intro ⟨rest, h⟩
    exact ⟨rest.domain, (carve?_eq_some_iff.1 h).2.2⟩
  · intro ⟨d, hdiff⟩
    exact ⟨⟨d, later.outcome⟩, carve?_eq_some_iff.2 ⟨Domain.covers_iff.1 hcov, rfl, hdiff⟩⟩

/-- The arguments for `_, _, true` without those for `_, null, true` are those for `_, !null, true`.
Without those for `null, null, true`, or for `_, true, true`, they are not those of any domain. -/
theorem carve?_exact_threeSlots :
    let later : Clause := ⟨⟨[.any, .any, .bool true]⟩, .fail⟩
    let isNull : Clause := ⟨⟨[.any, .null, .bool true]⟩, .null⟩
    let areNull : Clause := ⟨⟨[.null, .null, .bool true]⟩, .null⟩
    let isTrue : Clause := ⟨⟨[.any, .bool true, .bool true]⟩, .null⟩
    (later.domain.covers isNull.domain = true ∧ ∀ args,
      Domain.Admits ⟨[.any, .nonNull, .bool true]⟩ args ↔
        later.domain.Admits args ∧ ¬isNull.domain.Admits args) ∧
    (later.domain.covers areNull.domain = true ∧ ¬∃ d : Domain, ∀ args,
      d.Admits args ↔ later.domain.Admits args ∧ ¬areNull.domain.Admits args) ∧
    (later.domain.covers isTrue.domain = true ∧ ¬∃ d : Domain, ∀ args,
      d.Admits args ↔ later.domain.Admits args ∧ ¬isTrue.domain.Admits args) := by
  intro later isNull areNull isTrue
  have hisNull : later.domain.covers isNull.domain = true := by decide
  have hareNull : later.domain.covers areNull.domain = true := by decide
  have hisTrue : later.domain.covers isTrue.domain = true := by decide
  refine ⟨⟨hisNull, ?_⟩, ⟨hareNull, ?_⟩, ⟨hisTrue, ?_⟩⟩
  · exact ((carve?_exact hisNull).2 ⟨⟨[.any, .nonNull, .bool true]⟩, .fail⟩ (by decide)).2
  · rw [← (carve?_exact hareNull).1]
    decide
  · rw [← (carve?_exact hisTrue).1]
    decide

end Clause

end MethodContracts
