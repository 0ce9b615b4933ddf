import FederatedQuery.Error.Basic
import Mathlib.Data.List.Forall2

/-!
Computations that succeed, taken apart into their steps, and what can be said of those that may fail.
-/
namespace FederatedQuery

universe u

variable {ε : Type}

section Steps

variable {α β : Type u} {x : Except ε α} {f : α → Except ε β}

theorem bind_eq_ok {b : β} : (x >>= f) = .ok b ↔ ∃ a, x = .ok a ∧ f a = .ok b := by
  cases x with
  | error | ok => simp [bind, Except.bind]

@[simp]
theorem ok_bind {a : α} : (Except.ok a >>= f) = f a := rfl

@[simp]
theorem error_bind {e : ε} : (Except.error e >>= f) = .error e := rfl

theorem isOk_bind {b : Bool} (later : ∀ a, (f a).isOk = b) : (x >>= f).isOk = (x.isOk && b) := by
  cases x with
  | error => rfl
  | ok a => exact later a

@[simp]
theorem isOk_bind_pure {f : α → β} : (x >>= fun a => pure (f a)).isOk = x.isOk := by
  cases x with
  | error | ok => rfl

end Steps

variable {α β : Type} {x : Except ε α} {f : α → Except ε β} {xs : List α} {b : β} {ys : List β} {g : α → β}

theorem map_eq_ok {f : α → β} : x.map f = .ok b ↔ ∃ a, x = .ok a ∧ f a = b := by
  cases x with
  | error | ok => simp [Except.map]

@[simp]
theorem isOk_map {f : α → β} : (x.map f).isOk = x.isOk := by
  cases x with
  | error | ok => rfl

theorem isOk_eq_false : x.isOk = false ↔ ∃ e, x = .error e := by
  cases x with
  | error e => exact ⟨fun _ => ⟨e, rfl⟩, fun _ => rfl⟩
  | ok => exact ⟨nofun, nofun⟩

theorem isOk_mapM : (xs.mapM f).isOk = xs.all fun x => (f x).isOk := by
  induction xs with
  | nil => rfl
  | cons _ _ ih => rw [List.mapM_cons, isOk_bind fun _ => isOk_bind_pure, ih, List.all_cons]

theorem mapM_eq_ok : xs.mapM f = .ok ys ↔ List.Forall₂ (fun x y => f x = .ok y) xs ys := by
  induction xs generalizing ys with
  | nil =>
    rw [List.mapM_nil, List.forall₂_nil_left_iff]
    exact ⟨fun same => (Except.ok.inj same).symm, fun same => same ▸ rfl⟩
  | cons _ _ ih =>
    rw [List.mapM_cons, List.forall₂_cons_left_iff]
    constructor
    · intro success
      obtain ⟨y, first, success⟩ := bind_eq_ok.1 success
      obtain ⟨rest, later, success⟩ := bind_eq_ok.1 success
      exact ⟨y, rest, first, ih.1 later, (Except.ok.inj success).symm⟩
    · rintro ⟨y, rest, first, later, rfl⟩
      rw [first, ih.2 later]
      rfl

theorem mapM_eq_map (each : ∀ x ∈ xs, f x = .ok (g x)) : xs.mapM f = .ok (xs.map g) := by
  rw [mapM_eq_ok, List.forall₂_map_right_iff, List.forall₂_same]
  exact each

theorem mapM_eq_some_map {f : α → Option β} (each : ∀ x ∈ xs, f x = some (g x)) : xs.mapM f = some (xs.map g) := by
  induction xs with
  | nil => rfl
  | cons _ _ ih =>
    rw [List.forall_mem_cons] at each
    rw [List.mapM_cons, each.1, ih each.2]
    rfl

/-- Where a computation succeeds on every item, a function says with what. -/
theorem exists_map_of_mapM [Inhabited β] (made : xs.mapM f = .ok ys) :
    ∃ g : α → β, (∀ x ∈ xs, f x = .ok (g x)) ∧ ys = xs.map g := by
  refine ⟨fun x => (f x).toOption.getD default, ?_⟩
  have related := mapM_eq_ok.1 made
  clear made
  induction related with
  | nil => exact ⟨nofun, rfl⟩
  | cons here _ ih =>
    refine ⟨List.forall_mem_cons.2 ⟨?_, ih.1⟩, ?_⟩
    · beta_reduce
      rw [here]
      rfl
    · rw [List.map_cons, here, ← ih.2]
      rfl

section Related

variable {R : α → β → Prop} {ys : List β} {x : α} {y : β} {index : Nat}

theorem exists_of_forall₂_right (related : List.Forall₂ R xs ys) (mem : y ∈ ys) : ∃ x ∈ xs, R x y := by
  induction related with
  | nil => simp at mem
  | cons first _ ih =>
    rcases List.mem_cons.1 mem with rfl | mem
    · exact ⟨_, by simp, first⟩
    · obtain ⟨x, inside, holds⟩ := ih mem
      exact ⟨x, by simp [inside], holds⟩

theorem exists_forall₂ (each : ∀ x ∈ xs, ∃ y, R x y) : ∃ ys, List.Forall₂ R xs ys := by
  induction xs with
  | nil => exact ⟨[], .nil⟩
  | cons x xs ih =>
    obtain ⟨y, here⟩ := each x (.head _)
    obtain ⟨ys, later⟩ := ih fun x mem => each x (.tail _ mem)
    exact ⟨y :: ys, .cons here later⟩

theorem forall₂_getElem? (related : List.Forall₂ R xs ys) (left : xs[index]? = some x)
    (right : ys[index]? = some y) : R x y := by
  induction related generalizing index with
  | nil => cases left
  | cons first _ ih =>
    cases index with
    | zero =>
      cases left
      cases right
      exact first
    | succ => exact ih left right

theorem exists_getElem?_of_forall₂ (related : List.Forall₂ R xs ys) (left : xs[index]? = some x) :
    ∃ y, ys[index]? = some y ∧ R x y := by
  have inside : index < ys.length := related.length_eq ▸ (List.getElem?_eq_some_iff.1 left).1
  exact ⟨_, List.getElem?_eq_getElem inside, forall₂_getElem? related left (List.getElem?_eq_getElem inside)⟩

theorem forall₂_set (related : List.Forall₂ R xs ys) (here : ∀ x, xs[index]? = some x → R x y) :
    List.Forall₂ R xs (ys.set index y) := by
  induction related generalizing index with
  | nil => exact .nil
  | cons first rest ih =>
    cases index with
    | zero => exact .cons (here _ rfl) rest
    | succ => exact .cons first (ih here)

variable {γ : Type} {zs : List γ} {A : α → β → Prop}

theorem forall₂_through {B : α → γ → Prop} {R : β → γ → Prop} (first : List.Forall₂ A xs ys)
    (second : List.Forall₂ B xs zs) (each : ∀ x ∈ xs, ∀ y z, A x y → B x z → R y z) : List.Forall₂ R ys zs := by
  induction first generalizing zs with
  | nil =>
    cases second
    exact .nil
  | cons here _ ih =>
    cases second with
    | cons there second =>
      exact .cons (each _ (.head _) _ _ here there) (ih second fun x mem => each x (.tail _ mem))

theorem forall₂_trans {B : β → γ → Prop} {R : α → γ → Prop} (first : List.Forall₂ A xs ys)
    (second : List.Forall₂ B ys zs) (each : ∀ x y z, A x y → B y z → R x z) : List.Forall₂ R xs zs :=
  forall₂_through first.flip second fun y _ x z here next => each x y z here next

end Related

theorem forM_eq_ok {f : α → Except ε Unit} : xs.forM f = .ok () ↔ ∀ x ∈ xs, f x = .ok () := by
  induction xs with
  | nil => exact iff_of_true rfl nofun
  | cons x xs ih =>
    rw [List.forall_mem_cons, ← ih]
    change (f x >>= fun _ => xs.forM f) = _ ↔ _
    cases f x with
    | error | ok => simp

theorem foldlM_keeps {f : β → α → Except ε β} {I : β → Prop} {b' : β} (start : I b)
    (step : ∀ x ∈ xs, ∀ b b', I b → f b x = .ok b' → I b') (folded : xs.foldlM f b = .ok b') : I b' := by
  induction xs generalizing b with
  | nil =>
    cases folded
    exact start
  | cons x xs ih =>
    rw [List.foldlM_cons] at folded
    obtain ⟨next, first, folded⟩ := bind_eq_ok.1 folded
    exact ih (step x (.head _) b next start first) (fun y mem => step y (.tail _ mem)) folded

/-- What a computation ends with, when it succeeds and when it fails. -/
def Ends {α : Type} (good : α → Prop) (bad : Error → Prop) : Except Error α → Prop
  | .ok a => good a
  | .error e => bad e

namespace Ends

variable {good : α → Prop} {good' : β → Prop} {bad : Error → Prop} {x : Except Error α} {f : α → Except Error β}

theorem bind (first : Ends good bad x) (next : ∀ a, good a → Ends good' bad (f a)) : Ends good' bad (x >>= f) := by
  cases x with
  | ok a => exact next a first
  | error => exact first

theorem mono {worse : Error → Prop} {better : α → Prop} (ends : Ends good bad x) (ok : ∀ a, good a → better a)
    (error : ∀ e, bad e → worse e) : Ends better worse x := by
  cases x with
  | ok a => exact ok a ends
  | error e => exact error e ends

theorem mapM {R : α → β → Prop} (each : ∀ x ∈ xs, Ends (R x) bad (f x)) : Ends (List.Forall₂ R xs) bad (xs.mapM f) := by
  induction xs with
  | nil => exact .nil
  | cons _ _ ih =>
    rw [List.forall_mem_cons] at each
    rw [List.mapM_cons]
    refine each.1.bind fun y made => (ih each.2).bind fun ys others => ?_
    exact .cons made others

theorem mapM_forall {P : α → Prop} (each : ∀ x ∈ xs, Ends (fun _ => P x) bad (f x)) :
    Ends (fun _ => ∀ x ∈ xs, P x) bad (xs.mapM f) := by
  refine (Ends.mapM each).mono (fun ys related => ?_) fun _ => id
  induction related with
  | nil => exact nofun
  | cons here _ ih => exact List.forall_mem_cons.2 ⟨here, ih fun x mem => each x (.tail _ mem)⟩

theorem map {f : α → β} (first : Ends good bad x) (next : ∀ a, good a → good' (f a)) : Ends good' bad (x.map f) := by
  cases x with
  | ok a => exact next a first
  | error => exact first

end Ends

end FederatedQuery
