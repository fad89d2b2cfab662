import Znet.Lib.Keyed

/-!
# Sums over the entries of a map

A counter that a program keeps beside a map, such as the bytes held in its values or the number of
values of some kind, is meant to be a sum over the entries.
-/

namespace Tally

open Keyed

variable {α β : Type} {cmp : α → α → Ordering} [Std.TransCmp cmp] [Std.LawfulEqCmp cmp]

/-- The sum of a weight over the values of a map. -/
def total (weight : β → Nat) (m : Std.ExtTreeMap α β cmp) : Nat :=
  (m.toList.map fun entry => weight entry.2).sum

variable {weight : β → Nat} {m : Std.ExtTreeMap α β cmp} {k : α} {v : β}

omit [Std.LawfulEqCmp cmp] in
theorem nodup_toList (m : Std.ExtTreeMap α β cmp) : m.toList.Nodup := by
  refine Std.ExtTreeMap.distinct_keys_toList.imp ?_
  rintro a _ hne rfl
  exact hne Std.ReflCmp.compare_self

/-- A map is split at one of its entries. -/
theorem toList_perm_erase (h : m[k]? = some v) : m.toList.Perm ((k, v) :: (m.erase k).toList) := by
  classical
  have hnew : ((k, v) :: (m.erase k).toList).Nodup := by
    rw [List.nodup_cons]
    refine ⟨fun hmem => ?_, nodup_toList _⟩
    rw [Std.ExtTreeMap.mem_toList_iff_getElem?_eq_some, getElem?_erase_eq, if_pos rfl] at hmem
    cases hmem
  rw [List.perm_ext_iff_of_nodup (nodup_toList m) hnew]
  rintro ⟨k', v'⟩
  rw [List.mem_cons, Std.ExtTreeMap.mem_toList_iff_getElem?_eq_some,
    Std.ExtTreeMap.mem_toList_iff_getElem?_eq_some, getElem?_erase_eq, Prod.mk.injEq]
  by_cases hk : k' = k
  · subst hk
    simp [h, eq_comm]
  · simp [hk]

theorem erase_insert_eq (m : Std.ExtTreeMap α β cmp) (k : α) (v : β) :
    (m.insert k v).erase k = m.erase k := by
  classical
  apply Std.ExtTreeMap.ext_getElem?
  intro k'
  rw [getElem?_erase_eq, getElem?_erase_eq, getElem?_insert_eq]
  split <;> rfl

theorem total_of_getElem? (h : m[k]? = some v) :
    total weight m = weight v + total weight (m.erase k) := by
  unfold total
  rw [((toList_perm_erase h).map _).sum_eq, List.map_cons, List.sum_cons]

theorem total_insert (m : Std.ExtTreeMap α β cmp) (k : α) (v : β) :
    total weight (m.insert k v) = weight v + total weight (m.erase k) := by
  rw [total_of_getElem? (Std.ExtTreeMap.getElem?_insert_self), erase_insert_eq]

theorem total_erase_of_none (h : m[k]? = none) : total weight (m.erase k) = total weight m := by
  classical
  have hsame : m.erase k = m := by
    apply Std.ExtTreeMap.ext_getElem?
    intro k'
    rw [getElem?_erase_eq]
    split
    · next hk => rw [hk, h]
    · rfl
  rw [hsame]

variable (weight : β → Nat)

/-- What an entry weighs, none at all when there is none, and what is left without it. -/
theorem total_erase (m : Std.ExtTreeMap α β cmp) (k : α) :
    total weight m = (m[k]?.map weight).getD 0 + total weight (m.erase k) := by
  cases h : m[k]? with
  | none => simp [total_erase_of_none h]
  | some v => simpa using total_of_getElem? h

omit [Std.LawfulEqCmp cmp] in
@[simp] theorem total_empty : total weight (∅ : Std.ExtTreeMap α β cmp) = 0 := by
  have hnil : (∅ : Std.ExtTreeMap α β cmp).toList = [] :=
    List.eq_nil_of_length_eq_zero (by rw [Std.ExtTreeMap.length_toList]; rfl)
  rw [total, hnil]
  rfl

omit [Std.LawfulEqCmp cmp] in
theorem total_filter (keep : α → β → Bool) (m : Std.ExtTreeMap α β cmp) :
    total weight (m.filter keep) +
        ((m.toList.filter fun entry => !keep entry.1 entry.2).map fun entry => weight entry.2).sum =
      total weight m := by
  unfold total
  rw [Std.ExtTreeMap.toList_filter]
  have hsplit := (List.filter_append_perm (fun entry : α × β => keep entry.1 entry.2) m.toList).map
    fun entry => weight entry.2
  rw [← hsplit.sum_eq, List.map_append, List.sum_append]

/-! ## Keys -/

omit [Std.LawfulEqCmp cmp] in
/-- The first key at or after another one is found by going through the keys in order. -/
theorem getKeyGE?_eq_find? (m : Std.ExtTreeMap α β cmp) (low : α) :
    m.getKeyGE? low = m.keys.find? fun key => (cmp key low).isGE := by
  obtain ⟨m⟩ := m
  induction m using Std.ExtDTreeMap.inductionOn with
  | _ a =>
    let _ : Ord α := ⟨cmp⟩
    show a.inner.getKeyGE? low = a.inner.keys.find? fun key => (compare key low).isGE
    rw [Std.DTreeMap.Internal.Impl.getKeyGE?_eq_getEntryGE?,
      Std.DTreeMap.Internal.Impl.getEntryGE?_eq_find? a.wf.ordered,
      Std.DTreeMap.Internal.Impl.keys_eq_keys, Std.Internal.List.keys_eq_map, List.find?_map]
    rfl

/-- Replacing an entry leaves the keys as they are. -/
theorem keys_insert_of_mem (h : k ∈ m) (v : β) : (m.insert k v).keys = m.keys := by
  have hperm : (m.insert k v).keys.Perm m.keys := by
    refine (List.perm_ext_iff_of_nodup (m.insert k v).nodup_keys m.nodup_keys).2 fun key => ?_
    rw [Std.ExtTreeMap.mem_keys, Std.ExtTreeMap.mem_keys, Std.ExtTreeMap.mem_insert,
      Std.LawfulEqCmp.compare_eq_iff_eq]
    constructor
    · rintro (rfl | hkey)
      · exact h
      · exact hkey
    · exact .inr
  refine hperm.eq_of_pairwise ?_ (m.insert k v).ordered_keys m.ordered_keys
  intro a b _ _ hab hba
  have hswap : cmp a b = (cmp b a).swap := Std.OrientedCmp.eq_swap
  rw [hba, hab] at hswap
  cases hswap

theorem getKeyGE?_insert_of_mem (h : k ∈ m) (v : β) (low : α) :
    (m.insert k v).getKeyGE? low = m.getKeyGE? low := by
  rw [getKeyGE?_eq_find?, getKeyGE?_eq_find?, keys_insert_of_mem h]

end Tally
