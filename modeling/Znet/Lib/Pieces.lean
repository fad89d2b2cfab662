import Mathlib

/-!
# Cutting a list and putting it together again

A list is cut into windows of one width, of which the last may be shorter, and the windows are
collected by index in an ordered map, in any order and any number of times.  Once there are as
many of them as the list was cut into, the map's values in the order of their keys are the list.
-/

namespace Pieces

variable {α : Type}

/-- The `i`-th window. -/
def piece (width : Nat) (xs : List α) (i : Nat) : List α := (xs.drop (i * width)).take width

/-- The first `n` windows are a prefix of the list. -/
theorem flatMap_piece (width : Nat) (xs : List α) (n : Nat) :
    (List.range n).flatMap (piece width xs) = xs.take (n * width) := by
  induction n with
  | zero => simp
  | succ n ih =>
    rw [List.range_succ, List.flatMap_append, ih, List.flatMap_singleton, piece, Nat.succ_mul,
      List.take_add]

/-- The map holds only windows of the list, all of them below `n`. -/
def Collects (width : Nat) (xs : List α) (n : Nat)
    (m : Std.ExtTreeMap Nat (List α) compare) : Prop :=
  ∀ (i : Nat) (data : List α), m[i]? = some data → i < n ∧ data = piece width xs i

variable {width : Nat} {xs : List α} {n : Nat} {m : Std.ExtTreeMap Nat (List α) compare}

theorem Collects.insert (h : Collects width xs n m) {i : Nat} (hi : i < n) :
    Collects width xs n (m.insert i (piece width xs i)) := by
  intro j data hj
  rw [Std.ExtTreeMap.getElem?_insert] at hj
  split at hj
  · next heq =>
    obtain rfl : i = j := by simpa using heq
    exact ⟨hi, (Option.some.inj hj).symm⟩
  · exact h j data hj

theorem sorted_keys (m : Std.ExtTreeMap Nat (List α) compare) : m.keys.Pairwise (· < ·) :=
  m.ordered_keys.imp fun hab => Nat.compare_eq_lt.1 hab

theorem nodup_keys (m : Std.ExtTreeMap Nat (List α) compare) : m.keys.Nodup :=
  (sorted_keys m).imp fun hab => Nat.ne_of_lt hab

variable (h : Collects width xs n m)

include h

theorem Collects.keys_subset : m.keys ⊆ List.range n := by
  intro i hi
  obtain ⟨data, hdata⟩ := Option.isSome_iff_exists.1
    (Std.ExtTreeMap.mem_iff_isSome_getElem?.1 (Std.ExtTreeMap.mem_keys.1 hi))
  exact List.mem_range.2 (h i data hdata).1

/-- A full map has a window under every index. -/
theorem Collects.keys_eq (hsize : m.size = n) : m.keys = List.range n := by
  have hperm : m.keys.Perm (List.range n) :=
    (List.subperm_of_subset (nodup_keys m) h.keys_subset).perm_of_length_le
      (by rw [List.length_range, Std.ExtTreeMap.length_keys, hsize])
  exact hperm.eq_of_pairwise (fun a b _ _ hab hba => absurd hab (Nat.lt_asymm hba)) (sorted_keys m)
    List.pairwise_lt_range

/-- A map is full when it has a window under every index. -/
theorem Collects.size_eq_iff : m.size = n ↔ ∀ i < n, m[i]? ≠ none := by
  constructor
  · intro hsize i hi
    have hmem : i ∈ m.keys := by
      rw [h.keys_eq hsize]
      exact List.mem_range.2 hi
    rw [Std.ExtTreeMap.mem_keys, Std.ExtTreeMap.mem_iff_isSome_getElem?] at hmem
    exact Option.isSome_iff_ne_none.1 hmem
  · intro hall
    have hsubset : List.range n ⊆ m.keys := by
      intro i hi
      rw [Std.ExtTreeMap.mem_keys, Std.ExtTreeMap.mem_iff_isSome_getElem?]
      exact Option.isSome_iff_ne_none.2 (hall i (List.mem_range.1 hi))
    have hle := (List.subperm_of_subset List.nodup_range hsubset).length_le
    have hge := (List.subperm_of_subset (nodup_keys m) h.keys_subset).length_le
    rw [List.length_range, Std.ExtTreeMap.length_keys] at hle hge
    omega

/-- **A full map gives the list back**, when its windows cover the list. -/
theorem Collects.assemble (hsize : m.size = n)
    (hcover : xs.length ≤ n * width) : m.toList.flatMap Prod.snd = xs := by
  have hvalues : m.toList.map Prod.snd = m.keys.map (piece width xs) := by
    rw [← Std.ExtTreeMap.map_fst_toList_eq_keys, List.map_map]
    refine List.map_congr_left fun entry hentry => ?_
    exact (h entry.1 entry.2 (Std.ExtTreeMap.mem_toList_iff_getElem?_eq_some.1 hentry)).2
  calc m.toList.flatMap Prod.snd
      = (m.toList.map Prod.snd).flatten := List.flatMap_def
    _ = ((List.range n).map (piece width xs)).flatten := by rw [hvalues, h.keys_eq hsize]
    _ = (List.range n).flatMap (piece width xs) := List.flatMap_def.symm
    _ = xs.take (n * width) := flatMap_piece width xs n
    _ = xs := List.take_of_length_le hcover

end Pieces
