import Mathlib

/-!
# Tables whose entries carry different tags

A table from keys to values, each value with a tag: the owner of an address, the name of a
channel.  In such a table a tag has at most one place.
-/

namespace Keyed

/-! ## Entries -/

section Entries

variable {K V : Type*} {cmp : K → K → Ordering} [Std.TransCmp cmp]

variable {map : Std.ExtTreeMap K V cmp}

/-- The entry of a key, under the key the map holds. -/
theorem exists_entry {k : K} {value : V} (h : map[k]? = some value) :
    ∃ key, cmp key k = .eq ∧ (key, value) ∈ map.toList := by
  have hk : k ∈ map := by
    rw [Std.ExtTreeMap.mem_iff_isSome_getElem?, h]
    rfl
  have heq := Std.ExtTreeMap.compare_getKey_self hk
  refine ⟨map.getKey k hk, heq, ?_⟩
  rw [Std.ExtTreeMap.mem_toList_iff_getKey?_eq_some_and_getElem?_eq_some,
    Std.ExtTreeMap.getKey?_congr heq, Std.ExtTreeMap.getElem?_congr heq]
  exact ⟨Std.ExtTreeMap.getKey?_eq_some_getKey hk, h⟩

/-- The entries of a table, in any order, make the table again. -/
theorem insertMany_eq_of_perm {entries : List (K × V)} (h : entries.Perm map.toList) :
    (∅ : Std.ExtTreeMap K V cmp).insertMany entries = map := by
  let beq : BEq K := ⟨fun a b => decide (cmp a b = .eq)⟩
  have : Std.LawfulBEqCmp cmp := ⟨fun {_ _} => decide_eq_true_iff.symm⟩
  have hdistinct : entries.Pairwise fun a b => ¬cmp a.1 b.1 = .eq := by
    refine (h.pairwise_iff ?_).2 map.distinct_keys_toList
    intro a b hab hba
    exact hab (Std.OrientedCmp.eq_symm hba)
  have hmem : ∀ {k key : K} {value : V}, cmp key k = .eq → (key, value) ∈ map.toList →
      ((∅ : Std.ExtTreeMap K V cmp).insertMany entries)[k]? = some value ∧
        ((∅ : Std.ExtTreeMap K V cmp).insertMany entries).getKey? k = some key := by
    intro k key value hcmp hentry
    have hentry := h.mem_iff.2 hentry
    exact ⟨Std.ExtTreeMap.getElem?_insertMany_list_of_mem hcmp hdistinct hentry,
      Std.ExtTreeMap.getKey?_insertMany_list_of_mem hcmp hdistinct (List.mem_map_of_mem hentry)⟩
  apply Std.ExtTreeMap.ext_getKey_getElem?
  · intro k hk hk'
    obtain ⟨value, hvalue⟩ :=
      Option.isSome_iff_exists.1 (Std.ExtTreeMap.mem_iff_isSome_getElem?.1 hk')
    obtain ⟨key, hcmp, hentry⟩ := exists_entry hvalue
    have hsame : map.getKey? k = some key := by
      rw [← Std.ExtTreeMap.getKey?_congr hcmp]
      exact (Std.ExtTreeMap.mem_toList_iff_getKey?_eq_some_and_getElem?_eq_some.1 hentry).1
    have hread := (hmem hcmp hentry).2
    rw [Std.ExtTreeMap.getKey?_eq_some_getKey hk] at hread
    rw [Std.ExtTreeMap.getKey?_eq_some_getKey hk'] at hsame
    exact Option.some.inj (hread.trans hsame.symm)
  · intro k
    cases hvalue : map[k]? with
    | some value =>
      obtain ⟨key, hcmp, hentry⟩ := exists_entry hvalue
      exact (hmem hcmp hentry).1
    | none =>
      rw [Std.ExtTreeMap.getElem?_insertMany_list_of_contains_eq_false,
        Std.ExtTreeMap.getElem?_empty]
      rw [Bool.eq_false_iff]
      intro hcontains
      obtain ⟨key, hkey, hcmp⟩ := List.contains_iff_exists_mem_beq.1 hcontains
      obtain ⟨⟨key, value⟩, hentry, rfl⟩ := List.mem_map.1 hkey
      have hsome := (Std.ExtTreeMap.mem_toList_iff_getKey?_eq_some_and_getElem?_eq_some.1
        (h.mem_iff.1 hentry)).2
      rw [← Std.ExtTreeMap.getElem?_congr (Std.LawfulBEqCmp.compare_eq_iff_beq.2 hcmp),
        hvalue] at hsome
      cases hsome

end Entries

/-! ## Tags -/

variable {K V T : Type*} {cmp : K → K → Ordering} [Std.TransCmp cmp] [Std.LawfulEqCmp cmp]

/-- No two keys hold values with one tag. -/
def Distinct (tag : V → T) (m : Std.ExtTreeMap K V cmp) : Prop :=
  ∀ (k k' : K) (v v' : V), m[k]? = some v → m[k']? = some v' → tag v = tag v' → k = k'

variable {tag : V → T} {m : Std.ExtTreeMap K V cmp}

variable {k k' k₁ : K} {v v' : V}

theorem getElem?_insert_eq [DecidableEq K] :
    (m.insert k v)[k']? = if k' = k then some v else m[k']? := by
  rw [Std.ExtTreeMap.getElem?_insert]
  by_cases hk : k' = k
  · simp [hk]
  · have hne : cmp k k' ≠ .eq := fun h => hk (Std.LawfulEqCmp.eq_of_compare h).symm
    simp [hk, hne]

theorem getElem?_erase_eq [DecidableEq K] :
    (m.erase k)[k']? = if k' = k then none else m[k']? := by
  rw [Std.ExtTreeMap.getElem?_erase]
  by_cases hk : k' = k
  · simp [hk]
  · have hne : cmp k k' ≠ .eq := fun h => hk (Std.LawfulEqCmp.eq_of_compare h).symm
    simp [hk, hne]

theorem getElem?_insert_of_ne (h : k ≠ k') (v : V) : (m.insert k v)[k']? = m[k']? := by
  rw [Std.ExtTreeMap.getElem?_insert, if_neg]
  simpa using h

theorem getElem?_erase_of_ne (h : k ≠ k') : (m.erase k)[k']? = m[k']? := by
  rw [Std.ExtTreeMap.getElem?_erase, if_neg]
  simpa using h

/-- What is in a table after an insertion: the new entry, or an old one. -/
theorem getElem?_insert_cases (h : (m.insert k v)[k']? = some v') :
    k = k' ∧ v = v' ∨ k ≠ k' ∧ m[k']? = some v' := by
  by_cases hk : k = k'
  · subst hk
    rw [Std.ExtTreeMap.getElem?_insert_self] at h
    exact .inl ⟨rfl, Option.some.inj h⟩
  · rw [getElem?_insert_of_ne hk] at h
    exact .inr ⟨hk, h⟩

theorem getElem?_erase_some (h : (m.erase k)[k']? = some v) :
    k ≠ k' ∧ m[k']? = some v := by
  by_cases hk : k = k'
  · subst hk
    simp at h
  · rw [getElem?_erase_of_ne hk] at h
    exact ⟨hk, h⟩

/-- What holds of every entry still does when one for which it holds is put in. -/
theorem forall_insert {Q : K → V → Prop} (h : ∀ k v, m[k]? = some v → Q k v) (hv : Q k v) (k' : K)
    (v' : V) (hv' : (m.insert k v)[k']? = some v') : Q k' v' := by
  rcases getElem?_insert_cases hv' with ⟨rfl, rfl⟩ | ⟨-, hold⟩
  · exact hv
  · exact h k' v' hold

theorem forall_erase {Q : K → V → Prop} (h : ∀ k v, m[k]? = some v → Q k v) (k k' : K) (v : V)
    (hv : (m.erase k)[k']? = some v) : Q k' v :=
  h k' v (getElem?_erase_some hv).2

theorem getElem?_filter_some {keep : K → V → Bool} :
    (m.filter keep)[k]? = some v ↔ m[k]? = some v ∧ keep k v = true := by
  rw [Std.ExtTreeMap.getElem?_filter', Option.filter_eq_some_iff]

/-- What is in a table after one value was changed. -/
theorem getElem?_modify_some {change : V → V} (h : (m.modify k change)[k']? = some v') :
    k = k' ∧ (∃ v, m[k']? = some v ∧ v' = change v) ∨ k ≠ k' ∧ m[k']? = some v' := by
  rw [Std.ExtTreeMap.getElem?_modify] at h
  by_cases hk : k = k'
  · subst hk
    rw [if_pos (by simp)] at h
    obtain ⟨v, hv, rfl⟩ := Option.map_eq_some_iff.1 h
    exact .inl ⟨rfl, v, hv, rfl⟩
  · rw [if_neg (by simpa using hk)] at h
    exact .inr ⟨hk, h⟩

omit [Std.LawfulEqCmp cmp] in
theorem distinct_empty : Distinct tag (∅ : Std.ExtTreeMap K V cmp) := by
  intro k k' v v' hk
  simp at hk

/-- An entry whose tag no other key has. -/
theorem Distinct.insert (h : Distinct tag m)
    (hfresh : ∀ k' v', m[k']? = some v' → tag v' = tag v → k = k') :
    Distinct tag (m.insert k v) := by
  intro k₁ k₂ v₁ v₂ h₁ h₂ htag
  rcases getElem?_insert_cases h₁ with ⟨rfl, rfl⟩ | ⟨-, h₁⟩
  · rcases getElem?_insert_cases h₂ with ⟨rfl, rfl⟩ | ⟨-, h₂⟩
    · rfl
    · exact hfresh k₂ v₂ h₂ htag.symm
  · rcases getElem?_insert_cases h₂ with ⟨rfl, rfl⟩ | ⟨-, h₂⟩
    · exact (hfresh k₁ v₁ h₁ htag).symm
    · exact h k₁ k₂ v₁ v₂ h₁ h₂ htag

theorem Distinct.erase (h : Distinct tag m) (k : K) : Distinct tag (m.erase k) := by
  intro k₁ k₂ v₁ v₂ h₁ h₂ htag
  exact h k₁ k₂ v₁ v₂ (getElem?_erase_some h₁).2 (getElem?_erase_some h₂).2 htag

theorem Distinct.filter (h : Distinct tag m) (keep : K → V → Bool) :
    Distinct tag (m.filter keep) := by
  intro k₁ k₂ v₁ v₂ h₁ h₂ htag
  exact h k₁ k₂ v₁ v₂ (getElem?_filter_some.1 h₁).1 (getElem?_filter_some.1 h₂).1 htag

/-! ## Taking an entry to another key -/

/-- The entry of `k` is dropped and `v` put under `k'`. -/
def rekey (m : Std.ExtTreeMap K V cmp) (k k' : K) (v : V) : Std.ExtTreeMap K V cmp :=
  (m.erase k).insert k' v

theorem getElem?_rekey_cases {v₁ : V} (h : (rekey m k k' v)[k₁]? = some v₁) :
    k' = k₁ ∧ v = v₁ ∨ k' ≠ k₁ ∧ k ≠ k₁ ∧ m[k₁]? = some v₁ := by
  rcases getElem?_insert_cases h with h | ⟨hne, h⟩
  · exact .inl h
  · exact .inr ⟨hne, getElem?_erase_some h⟩

omit [Std.LawfulEqCmp cmp] in
theorem getElem?_rekey_self (m : Std.ExtTreeMap K V cmp) (k k' : K) (v : V) :
    (rekey m k k' v)[k']? = some v :=
  Std.ExtTreeMap.getElem?_insert_self

theorem getElem?_rekey_of_ne (hold : k ≠ k₁) (hnew : k' ≠ k₁) (v : V) :
    (rekey m k k' v)[k₁]? = m[k₁]? := by
  rw [rekey, getElem?_insert_of_ne hnew, getElem?_erase_of_ne hold]

theorem Distinct.rekey (h : Distinct tag m) (hk : m[k]? = some v) (htag : tag v' = tag v) (k' : K) :
    Distinct tag (rekey m k k' v') := by
  refine (h.erase k).insert fun k₁ v₁ h₁ htag₁ => ?_
  obtain ⟨hne, h₁⟩ := getElem?_erase_some h₁
  exact absurd (h k k₁ v v₁ hk h₁ (htag.symm.trans htag₁.symm)) hne

omit [Std.LawfulEqCmp cmp] in
/-- Where an entry was, there is room for it. -/
theorem size_rekey_le (hk : m[k]? = some v) (k' : K) (v' : V) :
    (rekey m k k' v').size ≤ m.size := by
  have hcontains : m.contains k = true := by
    rw [Std.ExtTreeMap.contains_eq_isSome_getElem?, hk]
    rfl
  have hpos : 0 < m.size := by
    rw [Nat.pos_iff_ne_zero]
    intro hzero
    have hempty := Std.ExtTreeMap.eq_empty_iff_size_eq_zero.2 hzero
    rw [hempty] at hk
    simp at hk
  have hinsert := Std.ExtTreeMap.size_insert_le (t := m.erase k) (k := k') (v := v')
  rw [Std.ExtTreeMap.size_erase, if_pos hcontains] at hinsert
  rw [Keyed.rekey]
  omega

/-! ## An index by tag -/

section Index

variable {cmp' : T → T → Ordering} [Std.TransCmp cmp'] [Std.LawfulEqCmp cmp']

/-- A table and its index by tag. -/
structure Indexed (tag : V → T) (m : Std.ExtTreeMap K V cmp) (index : Std.ExtTreeMap T K cmp') :
    Prop where
  there : ∀ (k : K) (v : V), m[k]? = some v → index[tag v]? = some k
  back : ∀ (t : T) (k : K), index[t]? = some k → ∃ v, m[k]? = some v ∧ tag v = t

variable {index : Std.ExtTreeMap T K cmp'}

omit [Std.LawfulEqCmp cmp] [Std.LawfulEqCmp cmp'] in
theorem indexed_empty : Indexed tag (∅ : Std.ExtTreeMap K V cmp) (∅ : Std.ExtTreeMap T K cmp') := by
  constructor
  · intro k v h
    simp at h
  · intro t k h
    simp at h

omit [Std.LawfulEqCmp cmp] [Std.LawfulEqCmp cmp'] in
/-- What is indexed by tag has different tags. -/
theorem Indexed.distinct (h : Indexed tag m index) : Distinct tag m := by
  intro k k' v v' hk hk' htag
  have hthere := h.there k v hk
  rw [htag, h.there k' v' hk'] at hthere
  exact (Option.some.inj hthere).symm

variable {k : K} {v : V}

/-- A key and a tag that are both new. -/
theorem Indexed.insert (h : Indexed tag m index) (hk : m[k]? = none) (htag : index[tag v]? = none) :
    Indexed tag (m.insert k v) (index.insert (tag v) k) := by
  constructor
  · intro k' v' h'
    rcases getElem?_insert_cases h' with ⟨rfl, rfl⟩ | ⟨-, h'⟩
    · exact Std.ExtTreeMap.getElem?_insert_self
    · have hthere := h.there k' v' h'
      rw [getElem?_insert_of_ne, hthere]
      intro heq
      rw [← heq, htag] at hthere
      cases hthere
  · intro t k' h'
    rcases getElem?_insert_cases h' with ⟨rfl, rfl⟩ | ⟨-, h'⟩
    · exact ⟨v, Std.ExtTreeMap.getElem?_insert_self, rfl⟩
    · obtain ⟨v', hv', htag'⟩ := h.back t k' h'
      refine ⟨v', ?_, htag'⟩
      rw [getElem?_insert_of_ne, hv']
      rintro rfl
      rw [hk] at hv'
      cases hv'

theorem Indexed.erase (h : Indexed tag m index) (hk : m[k]? = some v) :
    Indexed tag (m.erase k) (index.erase (tag v)) := by
  constructor
  · intro k' v' h'
    obtain ⟨hne, h'⟩ := getElem?_erase_some h'
    rw [getElem?_erase_of_ne, h.there k' v' h']
    intro heq
    exact hne (h.distinct k k' v v' hk h' heq)
  · intro t k' h'
    obtain ⟨hne, h'⟩ := getElem?_erase_some h'
    obtain ⟨v', hv', rfl⟩ := h.back t k' h'
    refine ⟨v', ?_, rfl⟩
    rw [getElem?_erase_of_ne, hv']
    rintro rfl
    exact hne (by rw [Option.some.inj (hk.symm.trans hv')])

omit [Std.LawfulEqCmp cmp'] in
/-- A value is replaced by another with its tag. -/
theorem Indexed.replace (h : Indexed tag m index) {v' : V} (hk : m[k]? = some v)
    (htag : tag v' = tag v) : Indexed tag (m.insert k v') index := by
  constructor
  · intro k₁ v₁ h₁
    rcases getElem?_insert_cases h₁ with ⟨rfl, rfl⟩ | ⟨-, h₁⟩
    · rw [htag]
      exact h.there k v hk
    · exact h.there k₁ v₁ h₁
  · intro t k₁ h₁
    obtain ⟨v₁, hv₁, rfl⟩ := h.back t k₁ h₁
    by_cases hne : k = k₁
    · subst hne
      refine ⟨v', Std.ExtTreeMap.getElem?_insert_self, ?_⟩
      rw [htag, Option.some.inj (hk.symm.trans hv₁)]
    · exact ⟨v₁, by rw [getElem?_insert_of_ne hne, hv₁], rfl⟩

end Index

end Keyed
