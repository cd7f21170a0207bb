import MethodContracts.Proofs.NormalForm.Carving

/-!
# Starting over comes to an end

A clause meets the kept ones in order, and whenever it is narrowed it starts over from the first.
`Settling` is how far this has come, and `Settling.next` a single step of it. The position in the
list of kept clauses goes back to the start again and again, so it is not what bounds the number of
steps. What does is that each carving settles one parameter of which nothing was required
(`Domain.Settles`): there are as many carvings as such parameters at most, and between two of them
the clause passes each kept clause once at most.

`Settling.OnCourse` is the invariant: it says how many steps a position and a number of carvings
account for, and that what will be left of the clause is what would have been at the start. So there
is a last step, and it ends with what `Clause.settle?` says (`Settling.terminates`).
-/

namespace MethodContracts

open Clause (settle? confront)

/-- How far a clause has come that meets kept clauses in order. -/
structure Settling where
  /-- How many kept clauses the clause has passed since it started over. -/
  position : Nat
  /-- The clause as it is by now. -/
  clause : Clause
  /-- How often it has been carved. -/
  carvings : Nat

namespace Settling

/-- What happens next to a clause that meets kept clauses in order. -/
inductive Next where
  /-- It goes on from here. -/
  | goesOn (s : Settling)
  /-- This is left of it; nothing, if it was absorbed. `none` stands for a conflict. -/
  | ends (left : Option (Option Clause))

/-- A clause that has met no other yet. -/
def start (c : Clause) : Settling := ⟨0, c, 0⟩

/-- What an encounter leads to. -/
def after (s : Settling) : Encounter → Next
  | .passes => .goesOn { s with position := s.position + 1 }
  | .absorbed => .ends (some none)
  | .narrowed rest => .goesOn ⟨0, rest, s.carvings + 1⟩
  | .conflict => .ends none

/-- A clause next meets the one at its position. If there is none, it has passed them all. -/
def next (kept : List Clause) (s : Settling) : Next :=
  match kept[s.position]? with
  | none => .ends (some (some s.clause))
  | some k => s.after (k.encounter s.clause)

/-- How far a clause can have come after so many encounters. -/
inductive Reaches (kept : List Clause) (c : Clause) : Nat → Settling → Prop
  | start : Reaches kept c 0 (start c)
  | step {n : Nat} {s t : Settling} :
      Reaches kept c n s → s.next kept = .goesOn t → Reaches kept c (n + 1) t

variable {kept : List Clause} {c k : Clause} {n : Nat} {s t : Settling}

/-! ### One step -/

theorem next_of_getElem? (hk : kept[s.position]? = some k) :
    s.next kept = s.after (k.encounter s.clause) := by
  rw [next, hk]

/-- A clause goes on after it has passed another, or after it has been carved. -/
theorem goesOn_cases (h : s.next kept = .goesOn t) : ∃ k, kept[s.position]? = some k ∧
    (k.encounter s.clause = .passes ∧ t = { s with position := s.position + 1 } ∨
      ∃ rest, k.encounter s.clause = .narrowed rest ∧ t = ⟨0, rest, s.carvings + 1⟩) := by
  cases hk : kept[s.position]? with
  | none => simp [next, hk] at h
  | some k =>
      rw [next_of_getElem? hk] at h
      refine ⟨k, rfl, ?_⟩
      cases henc : k.encounter s.clause with
      | passes =>
          rw [henc, after, Next.goesOn.injEq] at h
          exact Or.inl ⟨rfl, h.symm⟩
      | absorbed => simp [henc, after] at h
      | narrowed rest =>
          rw [henc, after, Next.goesOn.injEq] at h
          exact Or.inr ⟨rest, rfl, h.symm⟩
      | conflict => simp [henc, after] at h

/-- It ends where it has passed all others, is absorbed or is in conflict. -/
theorem ends_cases {left : Option (Option Clause)} (h : s.next kept = .ends left) :
    kept[s.position]? = none ∧ left = some (some s.clause) ∨
      ∃ k, kept[s.position]? = some k ∧
        (k.encounter s.clause = .absorbed ∧ left = some none ∨
          k.encounter s.clause = .conflict ∧ left = none) := by
  cases hk : kept[s.position]? with
  | none =>
      simp only [next, hk, Next.ends.injEq] at h
      exact Or.inl ⟨rfl, h.symm⟩
  | some k =>
      rw [next_of_getElem? hk] at h
      refine Or.inr ⟨k, rfl, ?_⟩
      cases henc : k.encounter s.clause with
      | passes => simp [henc, after] at h
      | absorbed =>
          rw [henc, after, Next.ends.injEq] at h
          exact Or.inl ⟨rfl, h.symm⟩
      | narrowed rest => simp [henc, after] at h
      | conflict =>
          rw [henc, after, Next.ends.injEq] at h
          exact Or.inr ⟨rfl, h.symm⟩

/-- What is left of a clause at the end is the clause as it is by then. -/
theorem clause_of_ends {rest : Clause} (h : s.next kept = .ends (some (some rest))) :
    s.clause = rest := by
  obtain ⟨-, hleft⟩ | ⟨k, -, ⟨-, hleft⟩ | ⟨-, hleft⟩⟩ := ends_cases h
  · exact (Option.some.inj (Option.some.inj hleft)).symm
  · simp at hleft
  · simp at hleft

/-! ### What a run preserves -/

/-- What holds of a clause that has come so far in so many steps. -/
structure OnCourse (kept : List Clause) (c : Clause) (n : Nat) (s : Settling) : Prop where
  /-- The position is one in the list of kept clauses, or just behind it. -/
  position_le : s.position ≤ kept.length
  /-- The clause passes all kept clauses before the position. -/
  passes : ∀ k ∈ kept.take s.position, k.encounter s.clause = .passes
  /-- Each carving has settled a parameter of which nothing was required. -/
  freeSlots_add : s.clause.domain.freeSlots + s.carvings = c.domain.freeSlots
  /-- Between two carvings, each kept clause has been met once at most. -/
  steps_le : n ≤ s.carvings * kept.length + s.position
  /-- The same is left of the clause as at the start. -/
  settle?_eq : settle? kept s.clause = settle? kept c

theorem onCourse_start (kept : List Clause) (c : Clause) : OnCourse kept c 0 (start c) where
  position_le := Nat.zero_le _
  passes := by simp [start]
  freeSlots_add := rfl
  steps_le := Nat.zero_le _
  settle?_eq := rfl

theorem OnCourse.confront_eq (h : OnCourse kept c n s) (hk : kept[s.position]? = some k)
    (hne : k.encounter s.clause ≠ .passes) : confront kept s.clause = k.encounter s.clause :=
  Clause.confront_eq_of_getElem? hk h.passes hne

theorem OnCourse.pass (h : OnCourse kept c n s) (hk : kept[s.position]? = some k)
    (hpass : k.encounter s.clause = .passes) :
    OnCourse kept c (n + 1) { s with position := s.position + 1 } where
  position_le := (List.getElem?_eq_some_iff.1 hk).1
  passes := by
    intro j hj
    rw [List.take_add_one, hk, Option.toList_some, List.mem_append, List.mem_singleton] at hj
    rcases hj with hj | rfl
    · exact h.passes j hj
    · exact hpass
  freeSlots_add := h.freeSlots_add
  steps_le := Nat.succ_le_succ h.steps_le
  settle?_eq := h.settle?_eq

theorem OnCourse.carve {rest : Clause} (h : OnCourse kept c n s)
    (hk : kept[s.position]? = some k) (hnarrow : k.encounter s.clause = .narrowed rest) :
    OnCourse kept c (n + 1) ⟨0, rest, s.carvings + 1⟩ := by
  have hconfront : confront kept s.clause = .narrowed rest :=
    (h.confront_eq hk (by simp [hnarrow])).trans hnarrow
  have hfree := Clause.freeSlots_of_confront hconfront
  have hposition := (List.getElem?_eq_some_iff.1 hk).1
  refine ⟨Nat.zero_le _, by simp, ?_, ?_, ?_⟩
  · have := h.freeSlots_add
    simp only
    omega
  · -- the clause had passed fewer clauses than there are
    have := h.steps_le
    simp only [Nat.add_mul, Nat.one_mul]
    omega
  · rw [← h.settle?_eq, Clause.settle?_of_narrowed hconfront]

theorem OnCourse.step (h : OnCourse kept c n s) (hnext : s.next kept = .goesOn t) :
    OnCourse kept c (n + 1) t := by
  obtain ⟨k, hk, ⟨hpass, rfl⟩ | ⟨rest, hnarrow, rfl⟩⟩ := goesOn_cases hnext
  · exact h.pass hk hpass
  · exact h.carve hk hnarrow

theorem Reaches.onCourse (h : Reaches kept c n s) : OnCourse kept c n s := by
  induction h with
  | start => exact onCourse_start kept c
  | step _ hnext ih => exact ih.step hnext

/-! ### The end -/

/-- A clause that has come to an end is left as settling it at once says. -/
theorem OnCourse.ends_eq (h : OnCourse kept c n s) {left : Option (Option Clause)}
    (hends : s.next kept = .ends left) : left = settle? kept c := by
  rw [← h.settle?_eq]
  obtain ⟨hnone, rfl⟩ | ⟨k, hk, ⟨habs, rfl⟩ | ⟨hconf, rfl⟩⟩ := ends_cases hends
  · have hall : kept.take s.position = kept :=
      List.take_of_length_le (List.getElem?_eq_none_iff.1 hnone)
    have hpasses := h.passes
    rw [hall] at hpasses
    exact (Clause.settle?_of_passes (Clause.confront_eq_passes_iff.2 hpasses)).symm
  · have hconfront := h.confront_eq hk (by simp [habs])
    exact (Clause.settle?_of_absorbed (hconfront.trans habs)).symm
  · have hconfront := h.confront_eq hk (by simp [hconf])
    exact (Clause.settle?_of_conflict (hconfront.trans hconf)).symm

/-- How often a clause was carved can be read off what is left of it. -/
theorem Reaches.carvings_of_ends {rest : Clause} (hs : Reaches kept c n s)
    (hends : s.next kept = .ends (some (some rest))) :
    rest.domain.freeSlots + s.carvings = c.domain.freeSlots := by
  rw [← clause_of_ends hends]
  exact hs.onCourse.freeSlots_add

theorem OnCourse.carvings_le (h : OnCourse kept c n s) : s.carvings ≤ c.domain.freeSlots := by
  have := h.freeSlots_add
  omega

theorem OnCourse.steps_le_freeSlots (h : OnCourse kept c n s) :
    n ≤ (c.domain.freeSlots + 1) * kept.length :=
  calc n ≤ s.carvings * kept.length + s.position := h.steps_le
    _ ≤ c.domain.freeSlots * kept.length + kept.length :=
      Nat.add_le_add (Nat.mul_le_mul_right _ h.carvings_le) h.position_le
    _ = (c.domain.freeSlots + 1) * kept.length := by rw [Nat.add_mul, Nat.one_mul]

/-- As long as it has not come to an end, a clause can go on. -/
theorem exists_ends_or_reaches (kept : List Clause) (c : Clause) (m : Nat) :
    (∃ n s left, Reaches kept c n s ∧ s.next kept = .ends left) ∨ ∃ s, Reaches kept c m s := by
  induction m with
  | zero => exact Or.inr ⟨start c, .start⟩
  | succ m ih =>
      rcases ih with hends | ⟨s, hs⟩
      · exact Or.inl hends
      · cases hnext : s.next kept with
        | goesOn t => exact Or.inr ⟨t, hs.step hnext⟩
        | ends left => exact Or.inl ⟨m, s, left, hs, hnext⟩

theorem exists_ends (kept : List Clause) (c : Clause) :
    ∃ n s, Reaches kept c n s ∧ s.next kept = .ends (settle? kept c) := by
  -- after one step more than there can be, the end must have come before
  rcases exists_ends_or_reaches kept c ((c.domain.freeSlots + 1) * kept.length + 1) with
    ⟨n, s, left, hs, hends⟩ | ⟨s, hs⟩
  · obtain rfl := hs.onCourse.ends_eq hends
    exact ⟨n, s, hs, hends⟩
  · exact absurd hs.onCourse.steps_le_freeSlots (Nat.not_succ_le_self _)

/-- **Settling a clause ends, however often it starts over**, and with what `settle?` says. Each
step takes the clause one position on as it is, or carves it and takes it back to the start. Carving
settles exactly one parameter of which nothing was required, so the clause is carved no more often
than it has such parameters, and goes through the kept clauses once more than that at most. -/
theorem terminates (kept : List Clause) (c : Clause) :
    (∀ left, (∃ n s, Reaches kept c n s ∧ s.next kept = .ends left) ↔ left = settle? kept c) ∧
    ∀ n s, Reaches kept c n s →
      s.position ≤ kept.length ∧ s.carvings ≤ c.domain.freeSlots ∧
      n ≤ (c.domain.freeSlots + 1) * kept.length ∧
      ∀ t, s.next kept = .goesOn t →
        t = { s with position := s.position + 1 } ∨
        (t.position = 0 ∧ t.carvings = s.carvings + 1 ∧ t.clause.outcome = s.clause.outcome ∧
          (∃ k ∈ kept, s.clause.carve? k = some t.clause) ∧
          ∃ i, s.clause.domain.Settles i t.clause.domain) := by
  refine ⟨fun left => ⟨fun ⟨n, s, hs, hends⟩ => hs.onCourse.ends_eq hends, ?_⟩, ?_⟩
  · intro hleft
    rw [hleft]
    exact exists_ends kept c
  · intro n s hs
    have h := hs.onCourse
    refine ⟨h.position_le, h.carvings_le, h.steps_le_freeSlots, fun t hnext => ?_⟩
    obtain ⟨k, hk, ⟨-, rfl⟩ | ⟨rest, hnarrow, rfl⟩⟩ := goesOn_cases hnext
    · exact Or.inl rfl
    · have hcarve := Clause.carve?_of_narrowed hnarrow
      exact Or.inr ⟨rfl, rfl, Clause.outcome_of_carve? hcarve,
        ⟨k, List.mem_of_getElem? hk, hcarve⟩, Clause.exists_settles_of_carve? hcarve⟩

/-- The last clause is carved by the first kept one and starts over; it passes that one, is carved
by the second and starts over again; then it passes both. -/
theorem terminates_carvedTwice :
    let kept : List Clause := [⟨⟨[.null, .any]⟩, .fail⟩, ⟨⟨[.nonNull, .null]⟩, .bool true⟩]
    let c : Clause := ⟨⟨[.any, .any]⟩, .nonNull⟩
    ∃ n ≤ 6, ∃ s, Reaches kept c n s ∧ s.carvings = 2 ∧
      s.next kept = .ends (some (some ⟨⟨[.nonNull, .nonNull]⟩, .nonNull⟩)) := by
  intro kept c
  have hleft : some (some ⟨⟨[.nonNull, .nonNull]⟩, .nonNull⟩) = settle? kept c := by
    decide +kernel
  obtain ⟨hends, hruns⟩ := terminates kept c
  obtain ⟨n, s, hs, hnext⟩ := (hends _).2 hleft
  -- at the end something is required of both parameters
  have hfree : 0 + s.carvings = 2 := hs.carvings_of_ends hnext
  have hcarvings : s.carvings = 2 := by omega
  exact ⟨n, (hruns n s hs).2.2.1, s, hs, hcarvings, hnext⟩

end Settling

end MethodContracts
