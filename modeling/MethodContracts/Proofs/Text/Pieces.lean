import Mathlib.Data.List.Forall2
import MethodContracts.Text.Blank
import MethodContracts.Text.Separated

/-!
# Cutting joined texts

Texts that were joined come apart again at the separators (`map_trim_pieces_intercalate`), if no
text contains the separator. Trimming removes the space that was put between them, and keeps the
texts themselves, if they are **tight**: white space stands at neither end.
-/

namespace MethodContracts

namespace Text

variable {cs before after : List Char} {c sep : Char}

/-! ### White space at the ends -/

theorem trimStart_append (h : AllBlank before = true) :
    trimStart (before ++ cs) = trimStart cs :=
  List.dropWhile_append_of_pos fun _ hc => List.all_eq_true.1 h _ hc

theorem trimEnd_append (h : AllBlank after = true) : trimEnd (cs ++ after) = trimEnd cs := by
  have hreverse : AllBlank after.reverse = true := by
    rw [AllBlank, List.all_reverse]
    exact h
  have hdrop : trimStart (after.reverse ++ cs.reverse) = trimStart cs.reverse :=
    trimStart_append hreverse
  unfold trimEnd
  rw [List.reverse_append]
  exact congrArg List.reverse hdrop

theorem trim_append_left (h : AllBlank before = true) : trim (before ++ cs) = trim cs := by
  unfold trim
  rw [trimStart_append h]

theorem trim_append_right (h : AllBlank after = true) : trim (cs ++ after) = trim cs := by
  by_cases hcs : AllBlank cs = true
  · have hall : AllBlank (cs ++ after) = true := by
      unfold AllBlank at *
      rw [List.all_append, hcs, h, Bool.and_self]
    rw [trim_eq_nil_iff.2 hall, trim_eq_nil_iff.2 hcs]
  · -- the white space at the start ends before `after`
    have hstart : trimStart (cs ++ after) = trimStart cs ++ after := by
      have hne : trimStart cs ≠ [] := mt trimStart_eq_nil_iff.1 hcs
      unfold trimStart at *
      rw [List.dropWhile_append, if_neg (by simpa using hne)]
    unfold trim
    rw [hstart, trimEnd_append h]

/-- Whether a text starts and ends with characters that are not white space. -/
structure Tight (cs : List Char) : Prop where
  first : ∃ c rest, cs = c :: rest ∧ isBlank c = false
  last : ∃ rest c, cs = rest ++ [c] ∧ isBlank c = false

theorem Tight.ne_nil (h : Tight cs) : cs ≠ [] := by
  obtain ⟨c, rest, rfl, -⟩ := h.first
  exact List.cons_ne_nil c rest

theorem Tight.trim_eq (h : Tight cs) : trim cs = cs := by
  have hstart : trimStart cs = cs := by
    obtain ⟨c, rest, rfl, hc⟩ := h.first
    exact trimStart_cons hc rest
  have hend : trimEnd cs = cs := by
    obtain ⟨rest, c, rfl, hc⟩ := h.last
    have hreverse := trimStart_cons hc rest.reverse
    unfold trimStart at hreverse
    unfold trimEnd
    rw [List.reverse_concat, hreverse, List.reverse_cons, List.reverse_reverse]
  rw [trim, hstart, hend]

theorem tight_of_forall (hne : cs ≠ []) (h : ∀ c ∈ cs, isBlank c = false) : Tight cs where
  first := by
    obtain ⟨c, rest, rfl⟩ := List.exists_cons_of_ne_nil hne
    exact ⟨c, rest, rfl, h c List.mem_cons_self⟩
  last := by
    refine ⟨cs.dropLast, cs.getLast hne, (List.dropLast_concat_getLast hne).symm, ?_⟩
    exact h _ (List.getLast_mem hne)

/-- Tight texts with anything between them are tight together. -/
theorem Tight.append (hbefore : Tight before) (hafter : Tight after) (between : List Char) :
    Tight (before ++ between ++ after) where
  first := by
    obtain ⟨c, rest, rfl, hc⟩ := hbefore.first
    exact ⟨c, rest ++ between ++ after, by simp, hc⟩
  last := by
    obtain ⟨rest, c, rfl, hc⟩ := hafter.last
    exact ⟨before ++ between ++ rest, c, by simp, hc⟩

theorem tight_intercalate {between : List Char} {texts : List (List Char)} (hne : texts ≠ [])
    (h : ∀ t ∈ texts, Tight t) : Tight (between.intercalate texts) := by
  induction texts with
  | nil => exact absurd rfl hne
  | cons t ts ih =>
      have ht := h t List.mem_cons_self
      cases ts with
      | nil =>
          rw [List.intercalate_singleton]
          exact ht
      | cons u us =>
          have hus := ih (List.cons_ne_nil u us) fun t ht => h t (List.mem_cons_of_mem _ ht)
          rw [List.intercalate_cons_cons]
          exact ht.append hus between

theorem Tight.not_allBlank {text : List Char} (h : Tight cs) (hsub : cs ⊆ text) :
    AllBlank text = false := by
  obtain ⟨c, rest, rfl, hc⟩ := h.first
  have hmem : c ∈ text := hsub List.mem_cons_self
  by_contra hall
  have hblank := List.all_eq_true.1 (Bool.not_eq_false _ ▸ hall) c hmem
  rw [hc] at hblank
  exact Bool.false_ne_true hblank

theorem not_mem_intercalate {between : List Char} {texts : List (List Char)}
    (hbetween : c ∉ between) (h : ∀ t ∈ texts, c ∉ t) : c ∉ between.intercalate texts := by
  induction texts with
  | nil => exact List.not_mem_nil
  | cons t ts ih =>
      have ht := h t List.mem_cons_self
      cases ts with
      | nil =>
          rw [List.intercalate_singleton]
          exact ht
      | cons u us =>
          have hus := ih fun t ht => h t (List.mem_cons_of_mem _ ht)
          rw [List.intercalate_cons_cons]
          simp only [List.mem_append, not_or]
          exact ⟨⟨ht, hbetween⟩, hus⟩

/-! ### Pieces -/

theorem pieces_of_not_mem (h : sep ∉ cs) : pieces sep cs = [cs] := by
  induction cs with
  | nil => rfl
  | cons c cs ih =>
      obtain ⟨hc, hcs⟩ := List.ne_and_not_mem_of_not_mem_cons h
      rw [pieces, if_neg (Ne.symm hc), ih hcs, List.modifyHead_cons]

/-- A separator cuts a text in two, whatever stands before and after it. -/
theorem pieces_append (before after : List Char) :
    pieces sep (before ++ sep :: after) = pieces sep before ++ pieces sep after := by
  induction before with
  | nil => simp [pieces]
  | cons c before ih =>
      rw [List.cons_append, pieces, pieces, ih]
      split
      · rw [List.cons_append]
      · cases hps : pieces sep before with
        | nil =>
            have hlength := length_pieces sep before
            rw [hps] at hlength
            exact absurd hlength (Nat.succ_ne_zero _).symm
        | cons p ps => rfl

theorem pieces_append_cons (h : sep ∉ before) :
    pieces sep (before ++ sep :: after) = before :: pieces sep after := by
  rw [pieces_append, pieces_of_not_mem h, List.singleton_append]

/-- White space before a text does not count once its pieces are trimmed. -/
theorem map_trim_pieces_cons (hblank : isBlank c = true) (hc : c ≠ sep) (cs : List Char) :
    (pieces sep (c :: cs)).map trim = (pieces sep cs).map trim := by
  rw [pieces, if_neg hc]
  cases pieces sep cs with
  | nil => rfl
  | cons p ps =>
      have hp : trim ([c] ++ p) = trim p := trim_append_left (by simp [AllBlank, hblank])
      rw [List.modifyHead_cons, List.map_cons, List.map_cons]
      exact congrArg (· :: ps.map trim) hp

/-- **Joined texts come apart again**, also with white space after the last of them. -/
theorem map_trim_pieces_intercalate (hsep : isBlank sep = false)
    (hafter : AllBlank after = true) {texts : List (List Char)} (hne : texts ≠ [])
    (htight : ∀ t ∈ texts, Tight t) (h : ∀ t ∈ texts, sep ∉ t) :
    (pieces sep ([sep, ' '].intercalate texts ++ after)).map trim = texts := by
  have hblank : ∀ {c : Char}, isBlank c = true → c ≠ sep := by
    rintro c hc rfl
    rw [hc] at hsep
    exact Bool.noConfusion hsep
  induction texts with
  | nil => exact absurd rfl hne
  | cons t ts ih =>
      have ht := h t List.mem_cons_self
      have htrim := (htight t List.mem_cons_self).trim_eq
      cases ts with
      | nil =>
          have hmem : sep ∉ t ++ after := by
            intro hmem
            rcases List.mem_append.1 hmem with hmem | hmem
            · exact ht hmem
            · exact hblank (List.all_eq_true.1 hafter sep hmem) rfl
          rw [List.intercalate_singleton, pieces_of_not_mem hmem, List.map_singleton,
            trim_append_right hafter, htrim]
      | cons u us =>
          have hrest := ih (List.cons_ne_nil u us)
            (fun t ht => htight t (List.mem_cons_of_mem _ ht))
            fun t ht => h t (List.mem_cons_of_mem _ ht)
          have hspace : ∀ cs, (pieces sep (' ' :: cs)).map trim = (pieces sep cs).map trim :=
            map_trim_pieces_cons rfl (hblank rfl)
          have hjoin : [sep, ' '].intercalate (t :: u :: us) ++ after =
              t ++ sep :: ' ' :: ([sep, ' '].intercalate (u :: us) ++ after) := by
            rw [List.intercalate_cons_cons]
            simp only [List.append_assoc, List.cons_append, List.nil_append]
          rw [hjoin, pieces_append_cons ht, List.map_cons, hspace, hrest, htrim]

/-! ### The first arrow -/

theorem cutAtArrow_append (h : '-' ∉ before) :
    cutAtArrow (before ++ '-' :: '>' :: after) = some (before, after) := by
  induction before with
  | nil => rw [List.nil_append, cutAtArrow]
  | cons c before ih =>
      obtain ⟨hc, hbefore⟩ := List.ne_and_not_mem_of_not_mem_cons h
      rw [List.cons_append, cutAtArrow, ih hbefore, Option.map_some]
      rintro cs rfl -
      exact hc rfl

end Text

/-! ### Reading piece by piece -/

/-- Reading pieces of pieces is reading all of them in order. -/
theorem mapM_flatMap {ε α β γ : Type} (f : α → List β) (g : β → Except ε γ) (as : List α) :
    (as.flatMap f).mapM g = List.flatten <$> as.mapM fun a => (f a).mapM g := by
  induction as with
  | nil => rfl
  | cons a as ih =>
      rw [List.flatMap_cons, List.mapM_append, List.mapM_cons, ih]
      simp

/-- Reading succeeds for a list just when it does for each element. -/
theorem mapM_eq_ok_iff {ε α β : Type} {f : α → Except ε β} {as : List α} {bs : List β} :
    as.mapM f = .ok bs ↔ List.Forall₂ (fun a b => f a = .ok b) as bs := by
  induction as generalizing bs with
  | nil =>
      rw [List.mapM_nil, List.forall₂_nil_left_iff]
      exact ⟨fun h => (Except.ok.inj h).symm, fun h => h ▸ rfl⟩
  | cons a as ih =>
      rw [List.mapM_cons, List.forall₂_cons_left_iff]
      cases ha : f a with
      | error reason => simp [bind, Except.bind]
      | ok b =>
          cases has : as.mapM f with
          | error reason =>
              have hnone : ∀ bs, ¬List.Forall₂ (fun a b => f a = .ok b) as bs := fun bs hbs => by
                rw [← ih, has] at hbs
                simp at hbs
              simp [bind, Except.bind, hnone]
          | ok bs' =>
              have hbs' := ih.1 has
              constructor
              · intro h
                exact ⟨b, bs', rfl, hbs', (Except.ok.inj h).symm⟩
              · rintro ⟨b', bs'', hb, hbs'', rfl⟩
                obtain rfl := Except.ok.inj hb
                rw [← ih, has] at hbs''
                obtain rfl := Except.ok.inj hbs''
                rfl

end MethodContracts
