import FederatedQuery.Proofs.Expr.Evaluation

/-!
Replaced references. An expression with expressions for its references has the outcome that it has on their values,
and an expression with other indexes has the outcome that it has on the row with the fields at their old places.
-/
namespace FederatedQuery

/-- Equal outcomes, or two broken contracts. -/
def EqualOrBroken {α : Type} (x y : Except Error α) : Prop :=
  x = y ∨ ∃ breach breach', x = .error (.contract breach) ∧ y = .error (.contract breach')

theorem stepwise_equalOrBroken : Stepwise @EqualOrBroken where
  refl _ := .inl rfl
  bind {_ _ x _ _ _} first later := by
    rcases first with rfl | ⟨breach, breach', rfl, rfl⟩
    · cases x with
      | error => exact .inl rfl
      | ok a => exact later a
    · exact .inr ⟨breach, breach', rfl, rfl⟩

theorem stepwise_eq : Stepwise @fun _ x y => x = y where
  refl _ := rfl
  bind first later := by rw [first, funext later]

namespace Expr

variable {row row' : Row} {e e' : Expr} {m : Nat → Option Nat}

theorem remap_eq_none_iff : e.remap m = none ↔ ∃ i ∈ e.refs, m i = none := by
  have mapped := isSome_bindRefs (e := e) (g := fun i => (m i).isSome) fun _ ty nullable =>
    Option.isSome_map (f := (ref · ty nullable))
  rw [← Option.not_isSome_iff_eq_none, remap, mapped]
  simp

theorem exists_remap (mapped : ∀ i ∈ e.refs, ∃ j, m i = some j) : ∃ e', e.remap m = some e' := by
  refine Option.ne_none_iff_exists'.1 fun failed => ?_
  obtain ⟨i, mem, unmapped⟩ := remap_eq_none_iff.1 failed
  obtain ⟨j, image⟩ := mapped i mem
  exact Option.some_ne_none j (image.symm.trans unmapped)

theorem related_remap {R : ∀ {α : Type}, Except Error α → Except Error α → Prop} (steps : Stepwise @R)
    (params : Bindings) (renamed : e.remap m = some e')
    (fields : ∀ i ∈ e.refs, ∀ j, m i = some j → R (field row i) (field row' j)) :
    R (e.eval row params) (e'.eval row' params) := by
  refine related_bindRefs steps renamed fun i mem ty nullable x replaced => ?_
  obtain ⟨j, image, rfl⟩ := Option.map_eq_some_iff.1 replaced
  exact fields i mem j image

/-- Substitution. Replacements that have values stand for these values, errors of the expression included. New indexes
for the references go with the row whose fields stand there; where a field is missing on both rows, the errors can name
different places. There are no new indexes exactly when a reference has no image. -/
theorem eval_substitute_and_remap (e : Expr) (params : Bindings) :
    (∀ (row : Row) (es : List Expr) (vs : List Value), List.Forall₂ (fun x v => x.eval row params = .ok v) es vs →
      (∀ i ∈ e.refs, i < es.length) →
        ∃ e', e.substitute es = some e' ∧ e'.eval row params = e.eval vs params) ∧
    (∀ (m : Nat → Option Nat) (row row' : Row), (∀ i ∈ e.refs, ∃ j, m i = some j ∧ row'[j]? = row[i]?) →
      ∃ e', e.remap m = some e' ∧ EqualOrBroken (e.eval row params) (e'.eval row' params) ∧
        ((∀ i ∈ e.refs, i < row.length) → e.eval row params = e'.eval row' params)) ∧
    (∀ offset, e.remap (fun i => some (i + offset)) = some (e.shift offset)) ∧
    ∀ m : Nat → Option Nat, e.remap m = none ↔ ∃ i ∈ e.refs, m i = none := by
  refine ⟨fun row es vs values inside => ?_, fun m row row' moved => ?_, fun offset => ?_, fun m => remap_eq_none_iff⟩
  · have replaced := isSome_bindRefs (e := e) (f := fun index _ _ => es[index]?) fun _ _ _ => rfl
    have substitutes : (e.substitute es).isSome = true := by
      rw [substitute, replaced, List.all_eq_true]
      exact fun i mem => by simpa using inside i mem
    obtain ⟨e', substituted⟩ := Option.isSome_iff_exists.1 substitutes
    refine ⟨e', substituted, (related_bindRefs stepwise_eq substituted fun i mem ty nullable x located => ?_).symm⟩
    obtain ⟨v, found, value⟩ := exists_getElem?_of_forall₂ values located
    rw [value, field_eq_ok.2 found]
  · obtain ⟨e', renamed⟩ := exists_remap fun i mem => (moved i mem).imp fun _ => And.left
    have same (i : Nat) (mem : i ∈ e.refs) (j : Nat) (image : m i = some j) : row'[j]? = row[i]? := by
      obtain ⟨j', image', same⟩ := moved i mem
      cases image.symm.trans image'
      exact same
    refine ⟨e', renamed, related_remap stepwise_equalOrBroken params renamed fun i mem j image => ?_,
      fun inside => related_remap stepwise_eq params renamed fun i mem j image => ?_⟩
    · rw [field, field, same i mem j image]
      split
      · exact .inl rfl
      · exact .inr ⟨_, _, rfl, rfl⟩
    · rw [field, field, same i mem j image, List.getElem?_eq_getElem (inside i mem)]
  · obtain ⟨e', renamed⟩ := exists_remap (e := e) (m := fun i => some (i + offset)) fun i _ => ⟨_, rfl⟩
    rw [shift, renamed, Option.getD_some]

/-- `$0 / $1` with `$1 + 1` and `0` for its references, on the row `(NULL, 4)`, and three places further on. -/
theorem eval_substitute_and_remap_quotient :
    let quotient := apply .divide [ref 0 .integer true, ref 1 .integer true]
    (∃ e', quotient.substitute [apply .plus [ref 1 .integer false, lit (.int 1)], lit (.int 0)] = some e' ∧
      e'.eval [.null, .int 4] (fun _ => none) = .error (.eval .divisionByZero)) ∧
    (quotient.shift 3).eval [.null, .null, .null, .int 5, .int 0] (fun _ => none) = .error (.eval .divisionByZero) := by
  intro quotient
  have whole := eval_substitute_and_remap quotient fun _ => none
  obtain ⟨e', substituted, same⟩ := whole.1 [.null, .int 4]
    [apply .plus [ref 1 .integer false, lit (.int 1)], lit (.int 0)] [.int 5, .int 0] (.cons rfl (.cons rfl .nil))
    (by decide)
  obtain ⟨e'', renamed, -, same'⟩ := whole.2.1 (fun i => some (i + 3)) [.int 5, .int 0]
    [.null, .null, .null, .int 5, .int 0] (by simp [quotient, apply, refs, refsOf])
  cases renamed.symm.trans (whole.2.2.1 3)
  exact ⟨⟨e', substituted, same.trans rfl⟩, (same' (by decide)).symm.trans rfl⟩

end Expr

end FederatedQuery
