import Znet.BufferContainers

/-!
# Snapshots through the EnTT archives

`EnttOutputArchive` writes an identifier in four bytes, a length as a variable-width number and
a component through its serializer.  `EnttInputArchive` reads them back, and holds every length
against the bytes that are left; where the call before was a length too, it takes the pair for
the size of the entity storage and of its free list, and holds the second against the first.

Which member a component goes through is decided by overload resolution: an `entt::entity` by the
one for identifiers, a `uint32_t` by the one for lengths, everything else by the serializer.

* `snapshot_round_trip_iff` — **a snapshot comes back exactly where it is plausible**.
-/

namespace Znet
namespace Ext

/-! ## Components -/

/-- How the archives treat a component type. -/
inductive ComponentType : Type 1 where
  | entity
  | uint32
  /-- Through `SerializeComponent` and `DeserializeComponent`. -/
  | custom {T : Type} (coder : Coder T)

namespace ComponentType

def Value : ComponentType → Type
  | .entity => BitVec 32
  | .uint32 => BitVec 32
  | .custom (T := T) _ => T

def Fits : (t : ComponentType) → t.Value → Prop
  | .entity, _ => True
  | .uint32, _ => True
  | .custom coder, value => coder.Fits value

def bytes (order : Endianness) : (t : ComponentType) → t.Value → List UInt8
  | .entity, value => order.bytes 4 (BitVec.toNat value)
  | .uint32, value => varIntBytes order 4 (BitVec.toNat value)
  | .custom coder, value => coder.bytes order value

/-- The component as a length, where the archives take it for one. -/
def asLength : (t : ComponentType) → t.Value → Option Nat
  | .uint32, value => some (BitVec.toNat value)
  | .entity, _ => none
  | .custom _, _ => none

end ComponentType

/-! ## The output archive -/

namespace EnttOutputArchive

/-- `operator()(entt::entity)`. -/
def entity (b : Buffer) (value : BitVec 32) : Buffer := b.writeNumber 4 value.toNat

/-- `operator()(std::uint32_t)`. -/
def length (b : Buffer) (value : Nat) : Buffer := b.writeVarInt 4 value

/-- A component, by the member that takes its type. -/
def component (b : Buffer) : (t : ComponentType) → t.Value → Buffer
  | .entity, value => entity b value
  | .uint32, value => length b (BitVec.toNat value)
  | .custom coder, value => coder.write b value

end EnttOutputArchive

/-! ## The input archive -/

/-- `entt::null`. -/
def enttNull : BitVec 32 := BitVec.allOnes 32

structure EnttInputArchive where
  lastLength : Nat := 0
  previousWasLength : Bool := false
  clamped : Bool := false
  truncated : Bool := false
  deriving DecidableEq

namespace EnttInputArchive

variable (a : EnttInputArchive)

def ok : Bool := !a.clamped && !a.truncated

/-- The most a length may be, with so many bytes left. -/
def ceiling (readable : Nat) : Nat :=
  if a.previousWasLength ∧ a.lastLength < readable / 4 then a.lastLength else readable / 4

/-- `operator()(entt::entity&)`. -/
def entity : Reading (BitVec 32 × EnttInputArchive) :=
  .readable fun n =>
    if n < 4 then
      (Reading.readNumber 4).bind fun _ =>
        .done (enttNull, { a with truncated := true, previousWasLength := false })
    else
      (Reading.readNumber 4).bind fun value =>
        .done (BitVec.ofNat 32 value, { a with previousWasLength := false })

/-- `operator()(std::uint32_t&)`. -/
def length : Reading (Nat × EnttInputArchive) :=
  (Reading.readVarInt 4).bind fun claimed =>
    .readable fun n =>
      if a.ceiling n < claimed then
        .done (a.ceiling n,
          { a with lastLength := a.ceiling n, previousWasLength := true, clamped := true })
      else .done (claimed, { a with lastLength := claimed, previousWasLength := true })

/-- A component, by the member that takes its type. -/
def component : (t : ComponentType) → Reading (t.Value × EnttInputArchive)
  | .entity => a.entity
  | .uint32 => a.length.bind fun r => .done (BitVec.ofNat 32 r.1, r.2)
  | .custom coder =>
    coder.read.bind fun value => .done (value, { a with previousWasLength := false })

end EnttInputArchive

/-! ## Snapshots -/

section Snapshots

variable {ι : Type} (C : ι → ComponentType)

/-- A component storage: its type, and the identifiers with their components. -/
structure Storage where
  type : ι
  entries : List (BitVec 32 × (C type).Value)

/-- What a snapshot says. -/
structure Content where
  entities : List (BitVec 32)
  free : Nat
  storages : List (Storage C)

/-- The content of a registry: the free list is part of the entity storage, sizes are numbers of
32 bits, and the components round trip. -/
structure Snapshot extends Content C where
  free_le : free ≤ entities.length
  entities_lt : entities.length < 2 ^ 32
  storage_lt : ∀ s ∈ storages, s.entries.length < 2 ^ 32
  fits : ∀ s ∈ storages, ∀ entry ∈ s.entries, (C s.type).Fits entry.2

/-- The calls for one component storage. -/
def writeStorage (b : Buffer) (s : Storage C) : Buffer :=
  s.entries.foldl
    (fun b entry => EnttOutputArchive.component (EnttOutputArchive.entity b entry.1)
      (C s.type) entry.2)
    (EnttOutputArchive.length b s.entries.length)

/-- The calls `entt::snapshot` makes. -/
def writeSnapshot (b : Buffer) (s : Content C) : Buffer :=
  let b := EnttOutputArchive.length (EnttOutputArchive.length b s.entities.length) s.free
  s.storages.foldl (writeStorage C) (s.entities.foldl EnttOutputArchive.entity b)

/-- The loader's loop over the identifiers. -/
def loadEntities : Nat → EnttInputArchive → Reading (List (BitVec 32) × EnttInputArchive)
  | 0, a => .done ([], a)
  | n + 1, a =>
    a.entity.bind fun r => (loadEntities n r.2).bind fun rest => .done (r.1 :: rest.1, rest.2)

/-- Its loop over the entries of a component storage. -/
def loadEntries (t : ComponentType) :
    Nat → EnttInputArchive → Reading (List (BitVec 32 × t.Value) × EnttInputArchive)
  | 0, a => .done ([], a)
  | n + 1, a =>
    a.entity.bind fun id => (id.2.component t).bind fun value =>
      (loadEntries t n value.2).bind fun rest => .done ((id.1, value.1) :: rest.1, rest.2)

def loadStorages : List ι → EnttInputArchive → Reading (List (Storage C) × EnttInputArchive)
  | [], a => .done ([], a)
  | i :: types, a =>
    a.length.bind fun size => (loadEntries (C i) size.1 size.2).bind fun entries =>
      (loadStorages types entries.2).bind fun rest => .done (⟨i, entries.1⟩ :: rest.1, rest.2)

/-- The reads a loader issues for component storages of the given types. -/
def loadSnapshot (types : List ι) : Reading (Content C × EnttInputArchive) :=
  ({} : EnttInputArchive).length.bind fun size => size.2.length.bind fun free =>
    (loadEntities size.1 free.2).bind fun entities =>
      (loadStorages C types entities.2).bind fun storages =>
        .done (⟨entities.1, free.1, storages.1⟩, storages.2)

/-! ## The bytes -/

variable (order : Endianness)

def entryBytes (t : ComponentType) (entry : BitVec 32 × t.Value) : List UInt8 :=
  order.bytes 4 entry.1.toNat ++ t.bytes order entry.2

def entriesBytes (t : ComponentType) (entries : List (BitVec 32 × t.Value)) : List UInt8 :=
  entries.flatMap (entryBytes order t)

def storageBytes (s : Storage C) : List UInt8 :=
  varIntBytes order 4 s.entries.length ++ entriesBytes order (C s.type) s.entries

def storagesBytes (storages : List (Storage C)) : List UInt8 :=
  storages.flatMap (storageBytes C order)

def entitiesBytes (entities : List (BitVec 32)) : List UInt8 :=
  entities.flatMap fun value => order.bytes 4 value.toNat

def snapshotBytes (s : Content C) : List UInt8 :=
  varIntBytes order 4 s.entities.length ++ (varIntBytes order 4 s.free ++
    (entitiesBytes order s.entities ++ storagesBytes C order s.storages))

end Snapshots

/-! ## What is written -/

theorem entity_spec (b : Buffer) (value : BitVec 32) :
    (EnttOutputArchive.entity b value).data = b.data ++ b.endianness.bytes 4 value.toNat ∧
      (EnttOutputArchive.entity b value).endianness = b.endianness :=
  ⟨Buffer.data_writeNumber b 4 _, Buffer.endianness_writeNumber b 4 _⟩

theorem length_spec (b : Buffer) (value : Nat) :
    (EnttOutputArchive.length b value).data = b.data ++ varIntBytes b.endianness 4 value ∧
      (EnttOutputArchive.length b value).endianness = b.endianness :=
  ⟨data_writeVarInt b 4 value, endianness_writeVarInt b 4 value⟩

theorem component_spec (b : Buffer) (t : ComponentType) (value : t.Value) :
    (EnttOutputArchive.component b t value).data = b.data ++ t.bytes b.endianness value ∧
      (EnttOutputArchive.component b t value).endianness = b.endianness := by
  cases t with
  | entity => exact entity_spec b value
  | uint32 => exact length_spec b (BitVec.toNat value)
  | custom coder => exact ⟨coder.data_write b value, coder.endianness_write b value⟩

/-- A loop of writers appends what each of them appends. -/
theorem foldl_spec {α : Type} (write : Buffer → α → Buffer) (bytes : Endianness → α → List UInt8)
    (h : ∀ b a, (write b a).data = b.data ++ bytes b.endianness a ∧
      (write b a).endianness = b.endianness) (values : List α) (b : Buffer) :
    (values.foldl write b).data = b.data ++ values.flatMap (bytes b.endianness) ∧
      (values.foldl write b).endianness = b.endianness := by
  induction values generalizing b with
  | nil => simp
  | cons a values ih =>
    obtain ⟨hdata, horder⟩ := ih (write b a)
    rw [(h b a).1, (h b a).2, List.append_assoc] at hdata
    exact ⟨hdata, horder.trans (h b a).2⟩

section Written

variable {ι : Type} (C : ι → ComponentType) (b : Buffer)

theorem writeStorage_spec (s : Storage C) :
    (writeStorage C b s).data = b.data ++ storageBytes C b.endianness s ∧
      (writeStorage C b s).endianness = b.endianness := by
  have hentry : ∀ (b : Buffer) (entry : BitVec 32 × (C s.type).Value),
      (EnttOutputArchive.component (EnttOutputArchive.entity b entry.1) (C s.type) entry.2).data =
          b.data ++ entryBytes b.endianness (C s.type) entry ∧
        (EnttOutputArchive.component (EnttOutputArchive.entity b entry.1) (C s.type)
          entry.2).endianness = b.endianness := by
    intro b entry
    obtain ⟨hdata, horder⟩ := component_spec (EnttOutputArchive.entity b entry.1) (C s.type) entry.2
    rw [(entity_spec b entry.1).1, (entity_spec b entry.1).2, List.append_assoc] at hdata
    exact ⟨hdata, horder.trans (entity_spec b entry.1).2⟩
  obtain ⟨hdata, horder⟩ := foldl_spec _ (fun order => entryBytes order (C s.type)) hentry s.entries
    (EnttOutputArchive.length b s.entries.length)
  rw [(length_spec b _).1, (length_spec b _).2, List.append_assoc] at hdata
  exact ⟨hdata, horder.trans (length_spec b _).2⟩

theorem data_writeSnapshot (s : Content C) :
    (writeSnapshot C b s).data = b.data ++ snapshotBytes C b.endianness s := by
  have hlengths := length_spec (EnttOutputArchive.length b s.entities.length) s.free
  rw [(length_spec b _).1, (length_spec b _).2] at hlengths
  have hentities :=
    foldl_spec _ (fun order value => order.bytes 4 value.toNat) entity_spec s.entities
    (EnttOutputArchive.length (EnttOutputArchive.length b s.entities.length) s.free)
  rw [hlengths.1, hlengths.2] at hentities
  have hstorages := foldl_spec _ (storageBytes C) (writeStorage_spec C) s.storages (s.entities.foldl
    EnttOutputArchive.entity
    (EnttOutputArchive.length (EnttOutputArchive.length b s.entities.length) s.free))
  rw [hentities.1, hentities.2] at hstorages
  refine hstorages.1.trans ?_
  simp only [snapshotBytes, entitiesBytes, storagesBytes, List.append_assoc]

end Written

/-! ## What is read -/

/-- What the next length is held against, besides the bytes that are left. -/
def EnttInputArchive.bound (a : EnttInputArchive) : Option Nat :=
  if a.previousWasLength then some a.lastLength else none

theorem le_ceiling_iff (a : EnttInputArchive) (n readable : Nat) :
    n ≤ a.ceiling readable ↔ n ≤ readable / 4 ∧ ∀ m ∈ a.bound, n ≤ m := by
  unfold EnttInputArchive.ceiling EnttInputArchive.bound
  cases a.previousWasLength with
  | false => simp
  | true =>
    simp only [true_and, if_true, Option.mem_some, forall_eq']
    split <;> omega

variable {order : Endianness} {a : EnttInputArchive} {e : BufferError}

theorem scan_entity (value : BitVec 32) (rest : List UInt8) :
    a.entity.scan order ⟨order.bytes 4 value.toNat ++ rest, e⟩ =
      ((value, { a with previousWasLength := false }), ⟨rest, e⟩) := by
  have hread := Reading.scan_readNumber order 4 value.toNat rest e
  rw [Nat.mod_eq_of_lt (by simpa using value.isLt)] at hread
  unfold EnttInputArchive.entity
  simp only [Reading.scan, List.length_append, Endianness.length_bytes]
  rw [if_neg (by omega), Reading.scan_bind, hread]
  simp

/-- A length comes back, or the ceiling does and the archive is marked. -/
theorem scan_length {n : Nat} (hn : n < 2 ^ 32) (rest : List UInt8) :
    a.length.scan order ⟨varIntBytes order 4 n ++ rest, e⟩ =
      if n ≤ a.ceiling rest.length then
        ((n, { a with lastLength := n, previousWasLength := true }), ⟨rest, e⟩)
      else
        ((a.ceiling rest.length, { a with
          lastLength := a.ceiling rest.length, previousWasLength := true, clamped := true }),
          ⟨rest, e⟩) := by
  have hread := scan_readVarInt_of_le order (show 4 ≤ 8 by decide) n rest e
  rw [Nat.mod_eq_of_lt (by omega)] at hread
  rw [EnttInputArchive.length, Reading.scan_bind, hread]
  simp only [Reading.scan]
  split
  · next hlt => rw [if_neg (not_le.2 hlt)]; rfl
  · next hle => rw [if_pos (not_lt.1 hle)]; rfl

/-- What the archive remembers of a component. -/
def EnttInputArchive.afterComponent (a : EnttInputArchive) (t : ComponentType) (value : t.Value) :
    EnttInputArchive :=
  match t.asLength value with
  | some n => { a with lastLength := n, previousWasLength := true }
  | none => { a with previousWasLength := false }

variable {rest : List UInt8}

theorem scan_component (order : Endianness) (hbound : a.bound = none) (t : ComponentType)
    {value : t.Value} (hfits : t.Fits value)
    (hhonest : ∀ n ∈ t.asLength value, n ≤ rest.length / 4) :
    (a.component t).scan order ⟨t.bytes order value ++ rest, e⟩ =
      ((value, a.afterComponent t value), ⟨rest, e⟩) := by
  cases t with
  | entity => exact scan_entity value rest
  | uint32 =>
    have hle : BitVec.toNat value ≤ a.ceiling rest.length := by
      rw [le_ceiling_iff, hbound]
      exact ⟨hhonest _ rfl, by simp⟩
    show (a.length.bind _).scan order ⟨varIntBytes order 4 (BitVec.toNat value) ++ rest, e⟩ = _
    rw [Reading.scan_bind, scan_length (BitVec.isLt value), if_pos hle]
    have hround : BitVec.ofNat 32 (BitVec.toNat value) = value :=
      (BitVec.ofNat_toNat 32 value).trans (BitVec.setWidth_eq value)
    rw [hround]
    rfl
  | custom coder =>
    show (coder.read.bind _).scan order ⟨coder.bytes order value ++ rest, e⟩ = _
    rw [Reading.scan_bind, coder.read_back order value rest e hfits]
    rfl

/-! ## A mark stays -/

theorem clamped_entity (h : a.clamped = true) (v : Reading.View) :
    (a.entity.scan order v).1.2.clamped = true := by
  unfold EnttInputArchive.entity
  simp only [Reading.scan]
  split
  · rw [Reading.scan_bind]
    exact h
  · rw [Reading.scan_bind]
    exact h

theorem clamped_length (h : a.clamped = true) (v : Reading.View) :
    (a.length.scan order v).1.2.clamped = true := by
  unfold EnttInputArchive.length
  rw [Reading.scan_bind]
  simp only [Reading.scan]
  split
  · rfl
  · exact h

theorem clamped_component (h : a.clamped = true) (t : ComponentType) (v : Reading.View) :
    ((a.component t).scan order v).1.2.clamped = true := by
  cases t with
  | entity => exact clamped_entity h v
  | uint32 =>
    simp only [EnttInputArchive.component, Reading.scan_bind]
    exact clamped_length h v
  | custom coder =>
    simp only [EnttInputArchive.component, Reading.scan_bind]
    exact h

theorem clamped_loadEntries (h : a.clamped = true) (t : ComponentType) (n : Nat)
    (v : Reading.View) : ((loadEntries t n a).scan order v).1.2.clamped = true := by
  induction n generalizing a v with
  | zero => exact h
  | succ n ih =>
    simp only [loadEntries, Reading.scan_bind, Reading.scan_done]
    apply ih
    apply clamped_component
    exact clamped_entity h v

theorem clamped_loadStorages {ι : Type} (C : ι → ComponentType) (h : a.clamped = true)
    (types : List ι) (v : Reading.View) :
    ((loadStorages C types a).scan order v).1.2.clamped = true := by
  induction types generalizing a v with
  | nil => exact h
  | cons i types ih =>
    simp only [loadStorages, Reading.scan_bind, Reading.scan_done]
    apply ih
    apply clamped_loadEntries
    exact clamped_length h v

/-! ## Entries -/

/-- No component that is taken for a length is more than a quarter of the bytes behind it. -/
def EntriesPlausible (order : Endianness) (t : ComponentType) :
    List (BitVec 32 × t.Value) → List UInt8 → Prop
  | [], _ => True
  | entry :: entries, rest =>
    (∀ n ∈ t.asLength entry.2, n ≤ (entriesBytes order t entries ++ rest).length / 4) ∧
      EntriesPlausible order t entries rest

/-- What the archive remembers of a run of entries. -/
def EnttInputArchive.afterEntries (a : EnttInputArchive) (t : ComponentType)
    (entries : List (BitVec 32 × t.Value)) : EnttInputArchive :=
  entries.foldl (fun a entry => a.afterComponent t entry.2) a

theorem afterComponent_entity (a : EnttInputArchive) (t : ComponentType) (value : t.Value) :
    EnttInputArchive.afterComponent { a with previousWasLength := false } t value =
      a.afterComponent t value := by
  cases t.asLength value <;> rfl

theorem bound_afterComponent (a : EnttInputArchive) (t : ComponentType) (value : t.Value) :
    (a.afterComponent t value).bound = t.asLength value := by
  unfold EnttInputArchive.afterComponent
  cases t.asLength value <;> rfl

theorem ok_afterEntries (a : EnttInputArchive) (t : ComponentType)
    (entries : List (BitVec 32 × t.Value)) : (a.afterEntries t entries).ok = a.ok := by
  refine List.foldlRecOn (motive := fun a' : EnttInputArchive => a'.ok = a.ok) _ _ rfl ?_
  intro a' ha' entry _
  rw [← ha', EnttInputArchive.afterComponent]
  cases t.asLength entry.2 <;> rfl

theorem length_le_entriesBytes (order : Endianness) (t : ComponentType)
    (entries : List (BitVec 32 × t.Value)) :
    entries.length * 4 ≤ (entriesBytes order t entries).length := by
  induction entries with
  | nil => simp [entriesBytes]
  | cons entry entries ih =>
    rw [entriesBytes] at ih ⊢
    simp only [List.flatMap_cons, List.length_cons, List.length_append, entryBytes,
      Endianness.length_bytes]
    omega

theorem scan_loadEntries (t : ComponentType) {entries : List (BitVec 32 × t.Value)}
    (hfits : ∀ entry ∈ entries, t.Fits entry.2) (hhonest : EntriesPlausible order t entries rest) :
    (loadEntries t entries.length a).scan order ⟨entriesBytes order t entries ++ rest, e⟩ =
      ((entries, a.afterEntries t entries), ⟨rest, e⟩) := by
  induction entries generalizing a with
  | nil => rfl
  | cons entry entries ih =>
    obtain ⟨hfirst, hothers⟩ := hhonest
    have hentries := ih (a := a.afterComponent t entry.2)
      (fun entry' h' => hfits entry' (List.mem_cons_of_mem _ h')) hothers
    have hcomponent := scan_component (e := e)
      (a := { a with previousWasLength := false }) order rfl t
        (hfits entry List.mem_cons_self) hfirst
    rw [afterComponent_entity] at hcomponent
    simp only [List.length_cons, loadEntries, Reading.scan_bind]
    rw [entriesBytes, List.flatMap_cons, entryBytes, List.append_assoc, List.append_assoc,
      scan_entity, ← entriesBytes]
    simp only [hcomponent, hentries, Reading.scan_done]
    rfl

/-- A component that is not plausible is clamped. -/
theorem le_of_not_clamped_component (order : Endianness) (t : ComponentType) {value : t.Value}
    (h : ((a.component t).scan order ⟨t.bytes order value ++ rest, e⟩).1.2.clamped = false) :
    ∀ n ∈ t.asLength value, n ≤ rest.length / 4 := by
  cases t with
  | entity | custom coder => simp [ComponentType.asLength]
  | uint32 =>
    intro n hn
    obtain rfl : BitVec.toNat value = n := Option.some.inj hn
    simp only [EnttInputArchive.component, ComponentType.bytes, Reading.scan_bind,
      scan_length (BitVec.isLt value)] at h
    split at h
    · next hle => exact ((le_ceiling_iff a _ _).1 hle).1
    · cases h

theorem entriesPlausible_of_not_clamped (order : Endianness) (t : ComponentType)
    {entries : List (BitVec 32 × t.Value)} (hfits : ∀ entry ∈ entries, t.Fits entry.2)
    (h : ((loadEntries t entries.length a).scan order
      ⟨entriesBytes order t entries ++ rest, e⟩).1.2.clamped = false) :
    EntriesPlausible order t entries rest := by
  induction entries generalizing a with
  | nil => trivial
  | cons entry entries ih =>
    simp only [List.length_cons, loadEntries, Reading.scan_bind] at h
    rw [entriesBytes, List.flatMap_cons, entryBytes, List.append_assoc, List.append_assoc,
      scan_entity, ← entriesBytes] at h
    simp only [Reading.scan_done] at h
    have hfirst : ∀ n ∈ t.asLength entry.2,
        n ≤ (entriesBytes order t entries ++ rest).length / 4 := by
      apply le_of_not_clamped_component (e := e) (a := { a with previousWasLength := false }) order
      by_contra hclamped
      rw [clamped_loadEntries (by simpa using hclamped)] at h
      cases h
    have hcomponent := scan_component (e := e)
      (a := { a with previousWasLength := false }) order rfl t
        (hfits entry List.mem_cons_self) hfirst
    simp only [hcomponent] at h
    exact ⟨hfirst, ih (fun entry' h' => hfits entry' (List.mem_cons_of_mem _ h')) h⟩

/-! ## Storages -/

section Storages

variable {ι : Type} (C : ι → ComponentType)

/-- What the next length is held against behind a storage: an empty one is a length and nothing
else, and the last component of another may be taken for one. -/
def announces (s : Storage C) : Option Nat :=
  match s.entries.getLast? with
  | none => some 0
  | some entry => (C s.type).asLength entry.2

/-- **What the archive expects** of storages: none is longer than the length it reads right before
it says, and no component that is taken for a length is more than a quarter of what follows. -/
def Plausible (order : Endianness) : Option Nat → List (Storage C) → List UInt8 → Prop
  | _, [], _ => True
  | bound, s :: storages, rest =>
    (∀ n ∈ bound, s.entries.length ≤ n) ∧
      EntriesPlausible order (C s.type) s.entries (storagesBytes C order storages ++ rest) ∧
      Plausible order (announces C s) storages rest

theorem bound_afterStorage (a : EnttInputArchive) (s : Storage C) :
    (EnttInputArchive.afterEntries
      { a with lastLength := s.entries.length, previousWasLength := true }
      (C s.type) s.entries).bound = announces C s := by
  obtain ⟨i, entries⟩ := s
  induction entries using List.reverseRecOn with
  | nil => rfl
  | append_singleton entries entry _ =>
    simp only [announces, List.getLast?_concat, EnttInputArchive.afterEntries, List.foldl_concat,
      bound_afterComponent]

variable {C}

variable {storages : List (Storage C)} {rest : List UInt8}

theorem scan_loadStorages (hlt : ∀ s ∈ storages, s.entries.length < 2 ^ 32)
    (hfits : ∀ s ∈ storages, ∀ entry ∈ s.entries, (C s.type).Fits entry.2)
    (hhonest : Plausible C order a.bound storages rest) :
    ∃ a' : EnttInputArchive, a'.ok = a.ok ∧
      (loadStorages C (storages.map Storage.type) a).scan order
        ⟨storagesBytes C order storages ++ rest, e⟩ = ((storages, a'), ⟨rest, e⟩) := by
  induction storages generalizing a with
  | nil => exact ⟨a, rfl, rfl⟩
  | cons s storages ih =>
    obtain ⟨hbound, hentries, hothers⟩ := hhonest
    have hle : s.entries.length ≤ a.ceiling (entriesBytes order (C s.type) s.entries ++
        (storagesBytes C order storages ++ rest)).length := by
      have := length_le_entriesBytes order (C s.type) s.entries
      refine (le_ceiling_iff a _ _).2 ⟨?_, hbound⟩
      rw [List.length_append]
      omega
    rw [← bound_afterStorage C a s] at hothers
    obtain ⟨a', hok, hscan⟩ := ih (fun s' h' => hlt s' (List.mem_cons_of_mem _ h'))
      (fun s' h' => hfits s' (List.mem_cons_of_mem _ h')) hothers
    refine ⟨a', hok.trans (ok_afterEntries _ _ _), ?_⟩
    simp only [List.map_cons, loadStorages, Reading.scan_bind]
    rw [storagesBytes, List.flatMap_cons, storageBytes, List.append_assoc, List.append_assoc,
      ← storagesBytes, scan_length (hlt s List.mem_cons_self), if_pos hle]
    simp only [scan_loadEntries (C s.type) (hfits s List.mem_cons_self) hentries, hscan,
      Reading.scan_done]

theorem plausible_of_not_clamped (hlt : ∀ s ∈ storages, s.entries.length < 2 ^ 32)
    (hfits : ∀ s ∈ storages, ∀ entry ∈ s.entries, (C s.type).Fits entry.2)
    (h : ((loadStorages C (storages.map Storage.type) a).scan order
      ⟨storagesBytes C order storages ++ rest, e⟩).1.2.clamped = false) :
    Plausible C order a.bound storages rest := by
  induction storages generalizing a with
  | nil => trivial
  | cons s storages ih =>
    simp only [List.map_cons, loadStorages, Reading.scan_bind] at h
    rw [storagesBytes, List.flatMap_cons, storageBytes, List.append_assoc, List.append_assoc,
      ← storagesBytes, scan_length (hlt s List.mem_cons_self)] at h
    split at h
    · next hle =>
      simp only [Reading.scan_done] at h
      have hentries : EntriesPlausible order (C s.type) s.entries
          (storagesBytes C order storages ++ rest) := by
        apply entriesPlausible_of_not_clamped (e := e) order (C s.type) (hfits s List.mem_cons_self)
        by_contra hclamped
        rw [clamped_loadStorages C (by simpa using hclamped)] at h
        cases h
      simp only [scan_loadEntries (C s.type) (hfits s List.mem_cons_self) hentries] at h
      have hothers := ih (fun s' h' => hlt s' (List.mem_cons_of_mem _ h'))
        (fun s' h' => hfits s' (List.mem_cons_of_mem _ h')) h
      rw [bound_afterStorage] at hothers
      exact ⟨((le_ceiling_iff a _ _).1 hle).2, hentries, hothers⟩
    · simp only [Reading.scan_done] at h
      rw [clamped_loadStorages C (clamped_loadEntries rfl _ _ _)] at h
      cases h

end Storages

/-! ## Whole snapshots -/

theorem scan_loadEntities (entities : List (BitVec 32)) (rest : List UInt8) :
    (loadEntities entities.length a).scan order ⟨entitiesBytes order entities ++ rest, e⟩ =
      ((entities, entities.foldl (fun a _ => { a with previousWasLength := false }) a),
        ⟨rest, e⟩) := by
  induction entities generalizing a with
  | nil => rfl
  | cons value entities ih =>
    simp only [List.length_cons, loadEntities, Reading.scan_bind]
    rw [entitiesBytes, List.flatMap_cons, List.append_assoc, scan_entity, ← entitiesBytes]
    simp only [ih, Reading.scan_done, List.foldl_cons]

/-- What the archive remembers of the entity storage. -/
theorem afterEntities_spec (a : EnttInputArchive) (entities : List (BitVec 32)) :
    (entities.foldl (fun a _ => { a with previousWasLength := false }) a).ok = a.ok ∧
      (entities.foldl (fun a _ => { a with previousWasLength := false }) a).bound =
        if entities = [] then a.bound else none := by
  induction entities generalizing a with
  | nil => simp
  | cons value entities ih =>
    obtain ⟨hok, hbound⟩ := ih { a with previousWasLength := false }
    refine ⟨hok, ?_⟩
    rw [List.foldl_cons, hbound, if_neg (List.cons_ne_nil _ _)]
    exact ite_self _

section Main

variable {ι : Type} {C : ι → ComponentType}

/-- The storages of a snapshot are plausible behind its entity storage, which is two lengths and
nothing else when it is empty. -/
def Snapshot.Plausible (s : Snapshot C) (order : Endianness) (rest : List UInt8) : Prop :=
  Ext.Plausible C order (if s.entities = [] then some 0 else none) s.storages rest

/-- The two lengths of the entity storage always pass, and so do its identifiers. -/
theorem scan_loadSnapshot (order : Endianness) (s : Snapshot C) (rest : List UInt8) :
    ∃ a : EnttInputArchive, a.ok = true ∧ a.bound = (if s.entities = [] then some 0 else none) ∧
      (loadSnapshot C (s.storages.map Storage.type)).scan order
          ⟨snapshotBytes C order s.toContent ++ rest, .none⟩ =
        ((loadStorages C (s.storages.map Storage.type) a).bind fun storages =>
          .done (⟨s.entities, s.free, storages.1⟩, storages.2)).scan order
            ⟨storagesBytes C order s.storages ++ rest, .none⟩ := by
  have hids : (entitiesBytes order s.entities).length = s.entities.length * 4 := by
    rw [entitiesBytes]
    simp [List.length_flatMap]
  have hfree := s.free_le
  have hlt := s.entities_lt
  have hsize : s.entities.length ≤ ({} : EnttInputArchive).ceiling (varIntBytes order 4 s.free ++
      (entitiesBytes order s.entities ++ (storagesBytes C order s.storages ++ rest))).length := by
    refine (le_ceiling_iff _ _ _).2 ⟨?_, by simp [EnttInputArchive.bound]⟩
    simp only [List.length_append, hids]
    omega
  have hfreed : s.free ≤ EnttInputArchive.ceiling
      ({ lastLength := s.entities.length, previousWasLength := true } : EnttInputArchive)
      (entitiesBytes order s.entities ++ (storagesBytes C order s.storages ++ rest)).length := by
    refine (le_ceiling_iff _ _ _).2 ⟨?_, by simpa [EnttInputArchive.bound] using hfree⟩
    simp only [List.length_append, hids]
    omega
  obtain ⟨hok, hbound⟩ := afterEntities_spec
    ({ lastLength := s.free, previousWasLength := true } : EnttInputArchive) s.entities
  refine ⟨_, hok, ?_, ?_⟩
  · rw [hbound]
    split
    · next hnil =>
      have hzero : s.free = 0 := by simpa [hnil] using hfree
      simp [EnttInputArchive.bound, hzero]
    · rfl
  · rw [loadSnapshot, snapshotBytes, Reading.scan_bind]
    simp only [List.append_assoc]
    rw [scan_length hlt, if_pos hsize]
    rw [Reading.scan_bind, scan_length (by omega), if_pos hfreed]
    rw [Reading.scan_bind, scan_loadEntities]

/-- The loader gets back what was written, and the archive is in order, whatever buffer stands in
front of the snapshot. -/
def Restores (b : Buffer) (s : Content C) (rest : List UInt8) : Prop :=
  ∀ r : Buffer, At ((writeSnapshot C b s).data ++ rest) b.endianness
      ((writeSnapshot C b s).data.drop b.data.length ++ rest) .none r →
    ((loadSnapshot C (s.storages.map Storage.type)).run r).1.1 = s ∧
      ((loadSnapshot C (s.storages.map Storage.type)).run r).1.2.ok = true

/-- **A snapshot comes back exactly where it is plausible.**  For every content of a registry, all
component types and all bytes behind the snapshot, in both byte orders: every read returns what
was given to the matching write and `ok()` is true at the end, if and only if no storage is longer
than a length read right before its own, and no component of type `uint32_t` is more than a
quarter of the bytes behind it. -/
theorem snapshot_round_trip_iff (b : Buffer) (s : Snapshot C) (rest : List UInt8) :
    Restores b s.toContent rest ↔ s.Plausible b.endianness rest := by
  have hdata := data_writeSnapshot C b s.toContent
  have hleft : (writeSnapshot C b s.toContent).data.drop b.data.length =
      snapshotBytes C b.endianness s.toContent := by
    rw [hdata, List.drop_left]
  obtain ⟨a, hok, hbound, hscan⟩ := scan_loadSnapshot b.endianness s rest
  rw [Restores, hleft, Snapshot.Plausible, ← hbound]
  constructor
  · intro h
    have hat := at_appended hdata rest
    have hloaded := (h _ hat).2
    rw [(hat.run _).1, hscan, Reading.scan_bind] at hloaded
    apply plausible_of_not_clamped (e := .none) s.storage_lt s.fits
    by_contra hclamped
    simp [EnttInputArchive.ok, hclamped] at hloaded
  · intro hhonest r hat
    obtain ⟨a', hok', hstorages⟩ := scan_loadStorages (e := .none) s.storage_lt s.fits hhonest
    rw [(hat.run _).1, hscan, Reading.scan_bind, hstorages]
    exact ⟨rfl, hok'.trans hok⟩

/-- Components that are not taken for lengths, in storages that are not empty, are plausible. -/
theorem plausible_of_nonempty {storages : List (Storage C)} (order : Endianness)
    (h : ∀ s ∈ storages, s.entries ≠ [] ∧ ∀ value, (C s.type).asLength value = none)
    (rest : List UInt8) : Plausible C order none storages rest := by
  induction storages with
  | nil => trivial
  | cons s storages ih =>
    obtain ⟨hne, hlength⟩ := h s List.mem_cons_self
    have hentries : ∀ (entries : List (BitVec 32 × (C s.type).Value)) (rest : List UInt8),
        EntriesPlausible order (C s.type) entries rest := by
      intro entries rest
      induction entries with
      | nil => trivial
      | cons entry entries ih => exact ⟨by simp [hlength], ih⟩
    have hannounces : announces C s = none := by
      unfold announces
      rw [List.getLast?_eq_some_getLast hne]
      exact hlength _
    refine ⟨by simp, hentries _ _, ?_⟩
    rw [hannounces]
    exact ih fun s' h' => h s' (List.mem_cons_of_mem _ h')

end Main

/-- Two entities; the first has components of two types, the second of one. -/
def populated : Snapshot fun _ : Bool => ComponentType.custom Element.bool.toCoder where
  entities := [0, 1]
  free := 1
  storages := [⟨false, [(0, true)]⟩, ⟨true, [(0, false), (1, true)]⟩]
  free_le := by decide
  entities_lt := by decide
  storage_lt := by decide
  fits _ _ _ _ := trivial

theorem snapshot_round_trip_populated : Restores {} populated.toContent [7] := by
  refine (snapshot_round_trip_iff {} populated [7]).2 (plausible_of_nonempty _ (fun s hs => ?_) _)
  refine ⟨?_, fun _ => rfl⟩
  rcases List.mem_pair.1 hs with rfl | rfl <;> exact List.cons_ne_nil _ _

/-- **An empty storage, and a number.**  An entity with a component of the second type and none of
the first: the length behind the empty storage is held against its 0, and the component is lost.
And a `uint32_t` component of 1000 that nothing follows: it is read back as 0. -/
theorem empty_storage_hides_next :
    (let C : Bool → ComponentType := fun _ => .custom Element.bool.toCoder
      let written := writeSnapshot C {} ⟨[0], 1, [⟨false, []⟩, ⟨true, [(0, true)]⟩]⟩
      let loaded := ((loadSnapshot C [false, true]).run written).1
      (loaded.1.storages.map fun s => s.entries.length, loaded.2.ok)) = ([0, 0], false) ∧
    (let C : Unit → ComponentType := fun _ => .uint32
      let written := writeSnapshot C {} ⟨[0], 1, [⟨(), [(0, (1000 : BitVec 32))]⟩]⟩
      let loaded := ((loadSnapshot C [()]).run written).1
      (loaded.1.storages.map fun s => s.entries.map fun entry => (C s.type).asLength entry.2,
        loaded.2.ok)) = ([[some 0]], false) := by
  decide +kernel

end Ext
end Znet
