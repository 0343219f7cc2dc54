import Mathlib.Data.Fintype.Card
import Mathlib.Order.WellFounded

/-!
# Who waits for whom

A relation that says who waits for whom has no cycle as long as everybody who begins to wait is waited for by
nobody. Among finitely many parties there is then one that waits for none of them.

## Main definitions

* `NoCycle`.

## Main results

* `NoCycle.begin`: a party that nobody waits for begins to wait.
* `NoCycle.exists_end`: one of finitely many parties waits for none of the others.
-/

variable {α : Type*} {R R' : α → α → Prop} {x : α}

/-- Nobody waits for himself, be it through others. -/
def NoCycle (R : α → α → Prop) : Prop := ∀ a, ¬ Relation.TransGen R a a

namespace NoCycle

theorem mono (h : NoCycle R) (hR : ∀ a b, R' a b → R a b) : NoCycle R' :=
  fun a ha => h a (Relation.TransGen.mono hR a a ha)

/-- A chain that does not begin with a party that nobody waits for does not come to it. -/
theorem transGen_of_ne (hR : ∀ a b, R' a b → R a b ∨ a = x) (hx : ∀ a, ¬ R' a x) {a b : α} (ha : a ≠ x)
    (h : Relation.TransGen R' a b) : Relation.TransGen R a b ∧ b ≠ x := by
  have hne {c d : α} (hcd : R' c d) : d ≠ x := fun hd => hx c (hd ▸ hcd)
  induction h with
  | single hab => exact ⟨.single ((hR _ _ hab).resolve_right ha), hne hab⟩
  | tail _ hbc ih => exact ⟨ih.1.tail ((hR _ _ hbc).resolve_right ih.2), hne hbc⟩

/-- A party that nobody waits for may begin to wait. -/
theorem begin (h : NoCycle R) (hR : ∀ a b, R' a b → R a b ∨ a = x) (hx : ∀ a, ¬ R' a x) : NoCycle R' := by
  intro a ha
  by_cases hax : a = x
  · subst hax
    obtain ⟨b, -, hb⟩ := Relation.TransGen.tail'_iff.1 ha
    exact hx b hb
  · exact h a (transGen_of_ne hR hx hax ha).1

/-- Of finitely many parties one waits for none of them. -/
theorem exists_end (h : NoCycle R) {S : Set α} (hS : S.Finite) (hne : S.Nonempty) : ∃ a ∈ S, ∀ b ∈ S, ¬ R a b := by
  have : Finite S := hS
  let r (a b : S) : Prop := Relation.TransGen R b a
  have : IsTrans S r := ⟨fun _ _ _ hab hbc => hbc.trans hab⟩
  have : Std.Irrefl r := ⟨fun a => h a⟩
  obtain ⟨x, hx⟩ := hne
  obtain ⟨a, -, hmin⟩ := (Finite.wellFounded_of_trans_of_irrefl r).has_min Set.univ ⟨⟨x, hx⟩, trivial⟩
  exact ⟨a, a.2, fun b hb hab => hmin ⟨b, hb⟩ trivial (.single hab)⟩

end NoCycle
