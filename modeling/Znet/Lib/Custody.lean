import Mathlib.Data.List.AList
import Mathlib.Data.List.Perm.Basic

/-!
# Tokens that are held in several places

A token (a callback, a permit, a request that is owed an answer) is handed from place to place: the
items of a list hold tokens, and so do the values of a table.  That none is lost and none is
doubled is a sum over all places that no operation changes.
-/

namespace Custody

variable {T : Type*} [DecidableEq T]

section Lists

variable {α : Type*} (token : α → List T) {items : List α} (t : T)

/-- How often a token is held by the items of a list. -/
def held (items : List α) (t : T) : Nat := (items.flatMap token).count t

@[simp] theorem held_nil : held token [] t = 0 := rfl

@[simp] theorem held_cons (x : α) (xs : List α) :
    held token (x :: xs) t = (token x).count t + held token xs t := by
  simp [held]

@[simp] theorem held_append (xs ys : List α) :
    held token (xs ++ ys) t = held token xs t + held token ys t := by
  simp [held]

theorem held_eq_of_perm {xs ys : List α} (h : xs.Perm ys) : held token xs t = held token ys t :=
  (h.flatMap_right token).count_eq t

/-- What an item held is no longer there once it is taken out. -/
theorem held_eraseIdx {i : Nat} {x : α} (h : items[i]? = some x) :
    held token items t = (token x).count t + held token (items.eraseIdx i) t := by
  obtain ⟨hi, rfl⟩ := List.getElem?_eq_some_iff.1 h
  rw [← held_cons]
  exact (held_eq_of_perm token t (List.getElem_cons_eraseIdx_perm hi)).symm

/-- An item may change as long as it holds the same. -/
theorem held_set {i : Nat} {x y : α} (h : items[i]? = some x) (hsame : token y = token x) :
    held token (items.set i y) t = held token items t := by
  obtain ⟨hi, rfl⟩ := List.getElem?_eq_some_iff.1 h
  rw [held_eq_of_perm token t (List.set_perm_cons_eraseIdx hi y), held_cons, hsame,
    ← held_eraseIdx token t h]

theorem held_modify {f : α → α} (hsame : ∀ x, token (f x) = token x) (i : Nat) :
    held token (items.modify i f) t = held token items t := by
  induction items generalizing i with
  | nil => rw [List.modify_nil]
  | cons x xs ih =>
    cases i with
    | zero => rw [List.modify_zero_cons, held_cons, held_cons, hsame]
    | succ i => rw [List.modify_succ_cons, held_cons, held_cons, ih]

end Lists

section Tables

variable {K V : Type*} [DecidableEq K] (token : V → List T) {table : AList fun _ : K => V} (t : T)

/-- How often a token is held by the values of a table. -/
def tableHeld (table : AList fun _ : K => V) (t : T) : Nat :=
  held (fun entry : Sigma fun _ : K => V => token entry.2) table.entries t

theorem tableHeld_insert (k : K) (v : V) :
    tableHeld token (table.insert k v) t =
      (token v).count t + tableHeld token (table.erase k) t := by
  rw [tableHeld, AList.entries_insert, held_cons]
  rfl

/-- The value of a key holds its share. -/
theorem tableHeld_lookup {k : K} {v : V} (h : table.lookup k = some v) :
    tableHeld token table t = (token v).count t + tableHeld token (table.erase k) t := by
  have hk : k ∈ table.entries.keys := List.dlookup_isSome.1 (Option.isSome_of_eq_some h)
  obtain ⟨v', before, after, hbefore, hentries, herased⟩ := List.exists_of_kerase hk
  have hv : v' = v := by
    have hmem : v' ∈ table.lookup k := by
      rw [AList.mem_lookup_iff, hentries]
      exact List.mem_append_right _ List.mem_cons_self
    rw [h] at hmem
    exact (Option.some.inj hmem).symm
  have hrest : (table.erase k).entries = before ++ after := herased
  rw [tableHeld, hentries, held_append, held_cons, hv, tableHeld, hrest, held_append]
  exact Nat.add_left_comm _ _ _

theorem tableHeld_erase_of_none {k : K} (h : table.lookup k = none) :
    tableHeld token (table.erase k) t = tableHeld token table t := by
  have hsame : (table.erase k).entries = table.entries :=
    List.kerase_of_notMem_keys (List.dlookup_eq_none.1 h)
  rw [tableHeld, hsame, tableHeld]

theorem tableHeld_eq_zero (h : ∀ k v, table.lookup k = some v → token v = []) :
    tableHeld token table t = 0 := by
  apply List.count_eq_zero.2
  intro hmem
  obtain ⟨⟨k, v⟩, hentry, ht⟩ := List.mem_flatMap.1 hmem
  rw [h k v (AList.mem_lookup_iff.2 hentry)] at ht
  exact List.not_mem_nil ht

end Tables

end Custody
