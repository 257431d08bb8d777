import MantaIndexer.Collections.Indexed

/-!
Reading a range in two passes, first the positions with some property and then the others: when the
result is in the order of the range.
-/

namespace Collections

variable {α : Type} {test : α → Bool}

/-- Once the test has failed it does not hold again. -/
def Leads (test : α → Bool) (items : List α) : Prop :=
  items.Pairwise fun a b => test b = true → test a = true

instance (items : List α) : Decidable (Leads test items) :=
  inferInstanceAs (Decidable (items.Pairwise fun a b => test b = true → test a = true))

theorem Leads.passes {items : List α} (leads : Leads test items) :
    items.filter test ++ items.filter (fun a => !test a) = items := by
  induction items with
  | nil => rfl
  | cons a items ih =>
    obtain ⟨before, leads⟩ := List.pairwise_cons.mp leads
    cases first : test a with
    | true =>
      simp only [List.filter_cons, first, if_true, Bool.not_true, Bool.false_eq_true, if_false,
        List.cons_append]
      rw [ih leads]
    | false =>
      have failed : ∀ b ∈ items, test b = false := by
        intro b member
        have never := before b member
        rw [first] at never
        simpa using never
      rw [List.filter_eq_nil_iff.mpr, List.filter_eq_self.mpr, List.nil_append]
      · intro b member
        rcases List.mem_cons.mp member with rfl | later
        · rw [first, Bool.not_false]
        · rw [failed b later, Bool.not_false]
      · intro b member
        rcases List.mem_cons.mp member with rfl | later
        · simp [first]
        · simp [failed b later]

theorem leads_of_passes {items : List α}
    (same : items.filter test ++ items.filter (fun a => !test a) = items) : Leads test items := by
  have ordered : Leads test (items.filter test ++ items.filter fun a => !test a) := by
    refine List.pairwise_append.mpr ⟨?_, ?_, ?_⟩
    · exact List.pairwise_of_forall_mem_list fun a member _ _ _ => (List.mem_filter.mp member).2
    · refine List.pairwise_of_forall_mem_list fun _ _ b member passed => ?_
      have failed := (List.mem_filter.mp member).2
      rw [passed] at failed
      cases failed
    · exact fun a member _ _ _ => (List.mem_filter.mp member).2
  rwa [same] at ordered

/-! ### Positions of a list -/

theorem pick_stored (values : List α) (positions : List Nat) :
    pick values (positions.filter fun i => i < values.length) = pick values positions := by
  unfold pick
  rw [List.filterMap_filter]
  congr 1
  funext i
  split
  · rfl
  · rename_i past
    rw [List.getElem?_eq_none]
    simpa using past

theorem pick_inj {values : List α} (nodup : values.Nodup) {first second : List Nat}
    (inFirst : ∀ i ∈ first, i < values.length) (inSecond : ∀ i ∈ second, i < values.length)
    (same : pick values first = pick values second) : first = second := by
  induction first generalizing second with
  | nil =>
    cases second with
    | nil => rfl
    | cons j second =>
      simp [pick, List.getElem?_eq_getElem (inSecond j List.mem_cons_self)] at same
  | cons i first ih =>
    have here := inFirst i List.mem_cons_self
    cases second with
    | nil => simp [pick, List.getElem?_eq_getElem here] at same
    | cons j second =>
      have there := inSecond j List.mem_cons_self
      simp only [pick, List.filterMap_cons, List.getElem?_eq_getElem here,
        List.getElem?_eq_getElem there, List.cons.injEq] at same
      obtain rfl := (nodup.getElem_inj_iff).mp same.1
      rw [ih (fun k member => inFirst k (List.mem_cons_of_mem _ member))
        (fun k member => inSecond k (List.mem_cons_of_mem _ member)) same.2]

/-- A range read in two passes, where what passes the test is stored: the result is in order if the
test leads, and with different values only then. -/
theorem passes_page {values : List α} {test : Nat → Bool} {first amount : Nat} :
    (Leads test (List.range' first amount) →
      pick values ((List.range' first amount).filter test) ++
        pick values ((List.range' first amount).filter fun i => !test i) = page values first amount) ∧
    (values.Nodup → (∀ i ∈ List.range' first amount, test i = true → i < values.length) →
      pick values ((List.range' first amount).filter test) ++
        pick values ((List.range' first amount).filter fun i => !test i) = page values first amount →
      Leads test (List.range' first amount)) := by
  rw [← pick_append, ← pick_range']
  constructor
  · intro leads
    rw [leads.passes]
  · intro nodup stored same
    have inside : ∀ positions : List Nat, ∀ i ∈ positions.filter fun i => i < values.length,
        i < values.length := fun positions i member => by simpa using (List.mem_filter.mp member).2
    have order := pick_inj nodup (inside _) (inside _)
      ((pick_stored values _).trans (same.trans (pick_stored values _).symm))
    rw [List.filter_append, List.filter_comm _ test, List.filter_comm _ fun i => !test i] at order
    have leads := List.pairwise_filter.mp (leads_of_passes order)
    apply (leads.and (List.pairwise_lt_range' ..)).imp_of_mem
    rintro i j - later ⟨relation, less⟩ passed
    have bound := stored j later passed
    exact relation (decide_eq_true (less.trans bound)) (decide_eq_true bound) passed

end Collections
