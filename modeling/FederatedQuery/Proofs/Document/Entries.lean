import FederatedQuery.Document.Basic
import Mathlib.Data.List.Induction

/-!
Entries that are set one after the other. A key keeps the place where it came first and has the value that it was given
last.
-/
namespace FederatedQuery.Entries

variable {entries : Entries} {pairs : List (String × Document)} {key : String} {v : Document}
  {entry : String × Document}

theorem keys_append (front back : Entries) : keys (front ++ back) = front.keys ++ back.keys := List.map_append

theorem keys_zip {names : List String} {documents : List Document} (lengths : names.length = documents.length) :
    keys (names.zip documents) = names :=
  List.map_fst_zip (Nat.le_of_eq lengths)

theorem put_of_not_mem (absent : key ∉ entries.keys) (v : Document) : entries.put key v = entries ++ [(key, v)] := by
  induction entries with
  | nil => rfl
  | cons entry rest ih =>
    obtain ⟨k, w⟩ := entry
    rw [keys, List.map_cons, List.mem_cons, not_or] at absent
    rw [put, if_neg (Ne.symm absent.1), ih absent.2, List.cons_append]

theorem ofPairs_concat (pairs : List (String × Document)) (pair : String × Document) :
    ofPairs (pairs ++ [pair]) = (ofPairs pairs).put pair.1 pair.2 := by
  rw [ofPairs, List.foldl_append]
  rfl

theorem ofPairs_of_nodup (distinct : (keys pairs).Nodup) : ofPairs pairs = pairs := by
  induction pairs using List.reverseRecOn with
  | nil => rfl
  | append_singleton pairs last ih =>
    rw [keys_append, List.nodup_append] at distinct
    obtain ⟨distinct, -, apart⟩ := distinct
    have absent : last.1 ∉ keys pairs := fun mem => apart last.1 mem last.1 (.head _) rfl
    rw [ofPairs_concat, ih distinct, put_of_not_mem absent]

theorem keys_put_of_mem (present : key ∈ entries.keys) (v : Document) : (entries.put key v).keys = entries.keys := by
  induction entries with
  | nil => cases present
  | cons entry rest ih =>
    obtain ⟨k, w⟩ := entry
    by_cases here : k = key
    · rw [put, if_pos here]
      rfl
    · have later : key ∈ keys rest := (List.mem_cons.1 present).resolve_left (Ne.symm here)
      rw [put, if_neg here]
      exact congrArg (k :: ·) (ih later)

theorem get?_cons (entry : String × Document) (rest : Entries) (key : String) :
    get? (entry :: rest) key = if key = entry.1 then some entry.2 else rest.get? key := by
  rw [get?, List.lookup_cons]
  by_cases same : key = entry.1
  · rw [if_pos same, beq_iff_eq.2 same]
  · rw [if_neg same, beq_false_of_ne same]
    rfl

theorem get?_of_mem (distinct : entries.keys.Nodup) (mem : (key, v) ∈ entries) : entries.get? key = some v := by
  induction entries with
  | nil => cases mem
  | cons entry rest ih =>
    rw [keys, List.map_cons, List.nodup_cons] at distinct
    rw [get?_cons]
    rcases List.mem_cons.1 mem with rfl | later
    · exact if_pos rfl
    · have apart : key ≠ entry.1 := fun same => distinct.1 (same ▸ List.mem_map_of_mem later)
      rw [if_neg apart, ih distinct.2 later]

theorem lookup_map {α : Type} (f : Document → α) (entries : Entries) (key : String) :
    (entries.map fun entry => (entry.1, f entry.2)).lookup key = (entries.get? key).map f := by
  induction entries with
  | nil => rfl
  | cons entry rest ih =>
    rw [List.map_cons, List.lookup_cons, ih, get?_cons]
    by_cases same : key = entry.1
    · rw [if_pos same, beq_iff_eq.2 same]
      rfl
    · rw [if_neg same, beq_false_of_ne same]

theorem get?_eq_none (absent : key ∉ entries.keys) : entries.get? key = none :=
  List.lookup_eq_none_iff.2 fun _ mem => bne_iff_ne.2 fun same => absent (same ▸ List.mem_map_of_mem mem)

theorem get?_put (entries : Entries) (key other : String) (v : Document) :
    (entries.put key v).get? other = if other = key then some v else entries.get? other := by
  induction entries with
  | nil => rw [put, get?_cons]
  | cons entry rest ih =>
    obtain ⟨k, w⟩ := entry
    by_cases here : k = key
    · subst here
      rw [put, if_pos rfl, get?_cons, get?_cons]
      by_cases same : other = k <;> simp [same]
    · rw [put, if_neg here, get?_cons, get?_cons, ih]
      by_cases same : other = k
      · simp [same, here]
      · simp [same]

theorem get?_ofPairs (pairs : List (String × Document)) (key : String) :
    (ofPairs pairs).get? key = (pairs.filter fun pair => pair.1 = key).getLast?.map Prod.snd := by
  induction pairs using List.reverseRecOn with
  | nil => rfl
  | append_singleton pairs last ih =>
    rw [ofPairs_concat, get?_put, ih, List.filter_append, List.filter_cons, List.filter_nil]
    by_cases same : last.1 = key
    · simp [same]
    · simp [same, Ne.symm same]

theorem mem_put (mem : entry ∈ entries.put key v) : entry = (key, v) ∨ entry ∈ entries := by
  induction entries with
  | nil => exact .inl (List.mem_singleton.1 mem)
  | cons first rest ih =>
    obtain ⟨k, w⟩ := first
    by_cases here : k = key
    · rw [put, if_pos here, List.mem_cons] at mem
      exact mem.imp (fun same => same.trans (here ▸ rfl)) (List.mem_cons_of_mem _)
    · rw [put, if_neg here, List.mem_cons] at mem
      rcases mem with same | later
      · exact .inr (same ▸ (.head _))
      · exact (ih later).imp_right (List.mem_cons_of_mem _)

theorem mem_of_mem_ofPairs (mem : entry ∈ ofPairs pairs) : entry ∈ pairs := by
  induction pairs using List.reverseRecOn with
  | nil => cases mem
  | append_singleton pairs last ih =>
    rw [ofPairs_concat] at mem
    rcases mem_put mem with same | earlier
    · exact List.mem_append_right _ (List.mem_singleton.2 same)
    · exact List.mem_append_left _ (ih earlier)

theorem mem_keys_ofPairs : key ∈ (ofPairs pairs).keys ↔ key ∈ keys pairs := by
  induction pairs using List.reverseRecOn with
  | nil => rfl
  | append_singleton pairs last ih =>
    rw [ofPairs_concat, keys_append, List.mem_append, ← ih]
    by_cases present : last.1 ∈ (ofPairs pairs).keys
    · rw [keys_put_of_mem present]
      refine ⟨.inl, fun mem => mem.elim id fun here => ?_⟩
      rwa [List.mem_singleton.1 here]
    · rw [put_of_not_mem present, keys_append, List.mem_append]

theorem nodup_keys_ofPairs (pairs : List (String × Document)) : (ofPairs pairs).keys.Nodup := by
  induction pairs using List.reverseRecOn with
  | nil => exact List.nodup_nil
  | append_singleton pairs last ih =>
    rw [ofPairs_concat]
    by_cases present : last.1 ∈ (ofPairs pairs).keys
    · rwa [keys_put_of_mem present]
    · rw [put_of_not_mem present, keys_append]
      exact List.nodup_append.2 ⟨ih, by simp [keys], fun a mem b here same =>
        present (List.mem_singleton.1 here ▸ same ▸ mem)⟩

end FederatedQuery.Entries
