import MethodContracts.Proofs.NormalForm.Scan

/-!
# What a normal form looks like

A list of clauses is **normal** if all its clauses speak of the same number of parameters, those
that overlap promise the same, and none is covered by an earlier one. The normal forms are exactly
the normal lists (`normalize?_eq_self_iff`): normalizing yields one, and leaves one as it is.

Normality is the invariant of insertion. A clause can be put after a normal list, and is put there
unchanged, just when it passes every clause of the list (`normal_concat_iff`).

Since normal lists stay as they are, the first clauses of a list can be normalized by themselves
before the others come in (`normalize?_append`), and what is kept of them stays at the front
(`prefix_of_normalize?_append`).
-/

namespace MethodContracts

namespace Clause

variable {k c : Clause} {cs kept kept' out : List Clause}

/-- Whether a list of clauses is in normal form. -/
structure Normal (cs : List Clause) : Prop where
  /-- All clauses speak of the same number of parameters. -/
  arity_eq : ∀ a ∈ cs, ∀ b ∈ cs, a.arity = b.arity
  /-- Clauses that overlap promise the same. -/
  outcome_eq : ∀ a ∈ cs, ∀ b ∈ cs, a.overlaps b = true → a.outcome = b.outcome
  /-- No clause is covered by an earlier one. -/
  not_covered : cs.Pairwise fun earlier later => earlier.domain.covers later.domain = false

theorem normal_nil : Normal [] where
  arity_eq := by simp
  outcome_eq := by simp
  not_covered := List.Pairwise.nil

theorem overlaps_comm (a b : Clause) : a.overlaps b = b.overlaps a := by
  rw [Bool.eq_iff_iff, overlaps_iff, overlaps_iff]
  simp only [and_comm]

theorem encounter_eq_passes_iff : k.encounter c = .passes ↔
    (k.overlaps c = true → k.outcome = c.outcome) ∧ k.domain.covers c.domain = false := by
  constructor
  · intro h
    have hspec := encounter_spec k c
    rw [h] at hspec
    refine ⟨fun hover => ?_, hspec.2⟩
    rcases hspec.1 with hno | hout
    · rw [hover] at hno
      exact absurd hno.symm Bool.false_ne_true
    · exact hout
  · rintro ⟨hout, hcov⟩
    unfold encounter
    by_cases hover : k.overlaps c = true
    · rw [if_pos hover, hcov, if_neg Bool.false_ne_true, if_pos (hout hover)]
    · rw [if_neg hover]

theorem normal_concat_iff : Normal (kept ++ [c]) ↔
    Normal kept ∧ (∀ k ∈ kept, k.arity = c.arity) ∧ ∀ k ∈ kept, k.encounter c = .passes := by
  constructor
  · intro h
    have hc : c ∈ kept ++ [c] := List.mem_append_right _ (List.mem_singleton.2 rfl)
    have hkept : ∀ k ∈ kept, k ∈ kept ++ [c] := fun k hk => List.mem_append_left _ hk
    have hcovered := List.pairwise_append.1 h.not_covered
    refine ⟨⟨?_, ?_, hcovered.1⟩, ?_, ?_⟩
    · exact fun a ha b hb => h.arity_eq a (hkept a ha) b (hkept b hb)
    · exact fun a ha b hb => h.outcome_eq a (hkept a ha) b (hkept b hb)
    · exact fun k hk => h.arity_eq k (hkept k hk) c hc
    · intro k hk
      exact encounter_eq_passes_iff.2
        ⟨h.outcome_eq k (hkept k hk) c hc, hcovered.2.2 k hk c (List.mem_singleton.2 rfl)⟩
  · rintro ⟨h, harity, hpass⟩
    have hout : ∀ k ∈ kept, k.overlaps c = true → k.outcome = c.outcome :=
      fun k hk => (encounter_eq_passes_iff.1 (hpass k hk)).1
    refine ⟨?_, ?_, List.pairwise_append.2 ⟨h.not_covered, List.pairwise_singleton _ _, ?_⟩⟩
    · intro a ha b hb
      rcases List.mem_append.1 ha with ha | ha <;> rcases List.mem_append.1 hb with hb | hb
      · exact h.arity_eq a ha b hb
      · rw [List.mem_singleton.1 hb, harity a ha]
      · rw [List.mem_singleton.1 ha, harity b hb]
      · rw [List.mem_singleton.1 ha, List.mem_singleton.1 hb]
    · intro a ha b hb hover
      rcases List.mem_append.1 ha with ha | ha <;> rcases List.mem_append.1 hb with hb | hb
      · exact h.outcome_eq a ha b hb hover
      · rw [List.mem_singleton.1 hb] at hover ⊢
        exact hout a ha hover
      · rw [List.mem_singleton.1 ha] at hover ⊢
        rw [overlaps_comm] at hover
        exact (hout b hb hover).symm
      · rw [List.mem_singleton.1 ha, List.mem_singleton.1 hb]
    · intro k hk d hd
      rw [List.mem_singleton.1 hd]
      exact (encounter_eq_passes_iff.1 (hpass k hk)).2

/-! ### Normal forms are normal -/

theorem Normal.insert? (hk : Normal kept) (h : insert? kept c = some kept') : Normal kept' := by
  obtain ⟨harity, left, hleft, rfl⟩ := insert?_eq_some h
  cases left with
  | none =>
      rw [Option.toList_none, List.append_nil]
      exact hk
  | some rest =>
      have hrest : rest.arity = c.arity := by
        refine settle?_preserves (P := fun x => x.arity = c.arity) ?_ hleft rfl rest rfl
        intro x k rest hx hcarve
        rw [arity_of_carve? hcarve, hx]
      rw [Option.toList_some, normal_concat_iff]
      refine ⟨hk, fun k hmem => ?_, passes_of_settle? hleft rest rfl⟩
      -- insertion compares with the first kept clause only, and the others are like it
      cases kept with
      | nil => exact absurd hmem List.not_mem_nil
      | cons first others =>
          rw [hk.arity_eq k hmem first List.mem_cons_self, harity first rfl, hrest]

theorem normal_of_normalize? (h : normalize? cs = some out) : Normal out :=
  normalize?_induction (motive := fun _ out => Normal out) normal_nil
    (fun _ _ _ _ hk hinsert => hk.insert? hinsert) h

theorem normal_getD_normalize? (cs : List Clause) : Normal ((normalize? cs).getD []) := by
  cases h : normalize? cs with
  | none => exact normal_nil
  | some out => exact normal_of_normalize? h

/-! ### Normal lists stay as they are -/

theorem settle?_eq_self (h : ∀ k ∈ kept, k.encounter c = .passes) :
    settle? kept c = some (some c) :=
  settle?_of_passes (confront_eq_passes_iff.2 h)

theorem insert?_eq_concat (h : Normal (kept ++ [c])) : insert? kept c = some (kept ++ [c]) := by
  obtain ⟨-, harity, hpass⟩ := normal_concat_iff.1 h
  rw [insert?_eq_map_settle? harity, settle?_eq_self hpass]
  rfl

/-- **The normal forms are the normal lists.** -/
theorem normalize?_eq_self_iff : normalize? cs = some cs ↔ Normal cs := by
  refine ⟨normal_of_normalize?, fun h => ?_⟩
  induction cs using List.reverseRecOn with
  | nil => exact normalize?_nil
  | append_singleton cs c ih =>
      rw [normalize?_concat, ih (normal_concat_iff.1 h).1, Option.bind_some, insert?_eq_concat h]

/-! ### Normalizing in stages -/

/-- Clauses meet only the normal form of those before them. -/
theorem normalize?_append (cs ds : List Clause) :
    normalize? (cs ++ ds) = (normalize? cs).bind fun kept => normalize? (kept ++ ds) := by
  induction ds using List.reverseRecOn with
  | nil =>
      cases h : normalize? cs with
      | none => rw [List.append_nil, h, Option.bind_none]
      | some kept =>
          rw [List.append_nil, h, Option.bind_some, List.append_nil,
            normalize?_eq_self_iff.2 (normal_of_normalize? h)]
  | append_singleton ds d ih =>
      rw [← List.append_assoc, normalize?_concat, ih, Option.bind_assoc]
      refine Option.bind_congr fun kept _ => ?_
      rw [← List.append_assoc, normalize?_concat]

theorem prefix_of_insert? (h : insert? kept c = some kept') : kept <+: kept' := by
  obtain ⟨-, left, -, rfl⟩ := insert?_eq_some h
  exact List.prefix_append kept left.toList

/-- What is kept of the first clauses stays at the front. -/
theorem prefix_of_normalize?_append {ds : List Clause} (h : normalize? cs = some kept)
    (hout : normalize? (cs ++ ds) = some out) : kept <+: out := by
  -- one step for each clause that comes in later
  induction ds using List.reverseRecOn generalizing out with
  | nil =>
      rw [List.append_nil, h] at hout
      obtain rfl := Option.some.inj hout
      exact List.prefix_rfl
  | append_singleton ds d ih =>
      rw [← List.append_assoc, normalize?_concat] at hout
      obtain ⟨before, hbefore, hinsert⟩ := Option.bind_eq_some_iff.1 hout
      exact (ih hbefore).trans (prefix_of_insert? hinsert)

end Clause

end MethodContracts
