import Znet.Inet.Address
import Znet.Lib.BitPrefix
import Znet.Lib.Bytes

/-!
# Address blocks

The `CIDRBlock` of `inet_addr.cc`: a rule of an allow or deny list, parsed from text and
compared with the host of a source.

* `matchesAddress_iff_covers` — **a block means what it matches, unless it is written in mapped
  form**: the host of a source is collapsed to the IPv4 address it carries, the block is not,
  and a block of 16 bytes is never compared with a host of 4.
-/

namespace Znet

open BitPrefix

/-- `inet_pton` for the two families. -/
structure Pton where
  ipv4 : List UInt8 → Option (Vector UInt8 4)
  ipv6 : List UInt8 → Option (Vector UInt8 16)

structure CIDRBlock where
  text : List UInt8 := []
  bytes : Vector UInt8 16 := Vector.replicate 16 0
  prefixLen : BitVec 8 := 0
  isIpv6 : Bool := false
  isValid : Bool := false
  deriving DecidableEq

/-! ## Parsing -/

def slash : UInt8 := 47

def isDigit (b : UInt8) : Bool := decide (48 ≤ b ∧ b ≤ 57)

/-- `c_str`: a text up to its first null byte. -/
def cString (text : List UInt8) : List UInt8 := text.takeWhile (· ≠ 0)

/-- What stands before the slash, and the slash with what follows it. -/
def addressText (text : List UInt8) : List UInt8 := text.takeWhile (· ≠ slash)

def prefixText (text : List UInt8) : List UInt8 := text.dropWhile (· ≠ slash)

/-- The number behind the slash: `none` where there is no slash, `some none` where what
follows it is refused. -/
def parsePrefixLen : List UInt8 → Option (Option Nat)
  | [] => none
  | _ :: digits =>
    if digits = [] ∨ 3 < digits.length ∨ ¬ digits.all isDigit then some none
    else some (some (Text.value digits))

/-- The last lines of `Parse`, with the number of bits of the family. -/
def CIDRBlock.accept (block : CIDRBlock) (given : Option Nat) (limit : Nat) : CIDRBlock :=
  if limit < given.getD limit then block
  else { block with prefixLen := BitVec.ofNat 8 (given.getD limit), isValid := true }

/-- The address bytes of a block, an IPv4 address in the first four. -/
def blockBytes (ip : Vector UInt8 4) : Vector UInt8 16 := ip ++ Vector.replicate 12 (0 : UInt8)

/-- `CIDRBlock::Parse`. -/
def CIDRBlock.parse (pton : Pton) (text : List UInt8) : CIDRBlock :=
  let block : CIDRBlock := { text }
  let address := addressText text
  match parsePrefixLen (prefixText text) with
  | some none => block
  | given =>
    match pton.ipv4 (cString address) with
    | some ip =>
      { block with bytes := blockBytes ip, isIpv6 := false }.accept given.join 32
    | none =>
      match pton.ipv6 (cString address) with
      | some ip => { block with bytes := ip, isIpv6 := true }.accept given.join 128
      | none => block

/-! ## Matching -/

/-- `PrefixMatch`. -/
def prefixMatch (a b : List UInt8) (bits : Nat) : Bool :=
  let whole := bits / 8
  if whole ≠ 0 ∧ a.take whole ≠ b.take whole then false
  else
    let rem := bits % 8
    if rem = 0 then true else a.getD whole 0 &&& mask rem == b.getD whole 0 &&& mask rem

/-- `CIDRBlock::Matches`, from the host key on. -/
def CIDRBlock.matchesKey (block : CIDRBlock) (candidate : List UInt8) : Bool :=
  if !block.isValid then false
  else if candidate = [] then false
  else if decide (candidate.length = 16) ≠ block.isIpv6 then false
  else prefixMatch block.bytes.toList candidate block.prefixLen.toNat

/-- `CIDRBlock::Matches`. -/
def CIDRBlock.matchesAddress (block : CIDRBlock) (address : InetAddress) : Bool :=
  block.matchesKey address.hostKey

/-- `PrefixMatch` compares the first bits. -/
theorem prefixMatch_iff {a b : List UInt8} {bits : Nat} (ha : bits ≤ 8 * a.length)
    (hb : bits ≤ 8 * b.length) : prefixMatch a b bits = true ↔ AgreeOn bits a b := by
  rw [agreeOn_iff ha hb]
  unfold prefixMatch
  by_cases hwhole : a.take (bits / 8) = b.take (bits / 8)
  · by_cases hrem : bits % 8 = 0
    · have hmask : mask 0 = 0 := by decide
      simp [hwhole, hrem, hmask]
    · simp [hwhole, hrem]
  · have hne : bits / 8 ≠ 0 := by
      intro hzero
      exact hwhole (by rw [hzero]; rfl)
    simp [hwhole, hne]

/-! ## What a block means -/

/-- What the text of a block says. -/
inductive Block where
  | ipv4 (ip : Vector UInt8 4) (bits : Nat)
  | ipv6 (ip : Vector UInt8 16) (bits : Nat)
  deriving DecidableEq

/-- The IPv4 address of a host that has one, in whichever family it arrives. -/
def Host.asIpv4 : Host → Option (List UInt8)
  | .ipv4 ip => some ip.toList
  | .ipv6 ip => if isV4MappedV6 ip then some (ip.toList.drop 12) else none

/-- The IPv6 address of a host that has no other. -/
def Host.asIpv6 : Host → Option (List UInt8)
  | .ipv4 _ => none
  | .ipv6 ip => if isV4MappedV6 ip then none else some ip.toList

/-- An IPv6 block that names IPv4 hosts. -/
def Block.Mapped : Block → Prop
  | .ipv4 _ _ => False
  | .ipv6 ip bits => isV4MappedV6 ip = true ∧ 96 ≤ bits

instance (block : Block) : Decidable block.Mapped :=
  match block with
  | .ipv4 _ _ => inferInstanceAs (Decidable False)
  | .ipv6 ip bits => inferInstanceAs (Decidable (isV4MappedV6 ip = true ∧ 96 ≤ bits))

/-- The hosts a block means. -/
def Block.Covers (block : Block) (host : Host) : Prop :=
  match block with
  | .ipv4 ip bits => ∃ v4, host.asIpv4 = some v4 ∧ AgreeOn bits ip.toList v4
  | .ipv6 ip bits =>
    if Block.Mapped (.ipv6 ip bits) then
      ∃ v4, host.asIpv4 = some v4 ∧ AgreeOn (bits - 96) (ip.toList.drop 12) v4
    else ∃ v6, host.asIpv6 = some v6 ∧ AgreeOn bits ip.toList v6

/-- The bits a text gives, at most `limit`, or all of them where it gives none. -/
def bitsOf (limit : Nat) (rest : List UInt8) : Option Nat :=
  match parsePrefixLen rest with
  | some none => none
  | given => if given.join.getD limit ≤ limit then some (given.join.getD limit) else none

/-- The block a text names: an IPv4 address if it is one, else an IPv6 address. -/
def blockOf (pton : Pton) (text : List UInt8) : Option Block :=
  match pton.ipv4 (cString (addressText text)) with
  | some ip => (bitsOf 32 (prefixText text)).map (.ipv4 ip)
  | none =>
    (pton.ipv6 (cString (addressText text))).bind fun ip =>
      (bitsOf 128 (prefixText text)).map (.ipv6 ip)

/-- A parsed block that holds what a text says. -/
structure CIDRBlock.Holds (block : CIDRBlock) (bytes : Vector UInt8 16) (isIpv6 : Bool)
    (bits : Nat) : Prop where
  bytes : block.bytes = bytes
  isIpv6 : block.isIpv6 = isIpv6
  prefixLen : block.prefixLen.toNat = bits
  isValid : block.isValid = true

theorem CIDRBlock.accept_holds {block : CIDRBlock} (hblock : block.isValid = false)
    {given : Option Nat} {limit : Nat} (hlimit : limit < 256)
    (h : (block.accept given limit).isValid = true) :
    given.getD limit ≤ limit ∧
      (block.accept given limit).Holds block.bytes block.isIpv6 (given.getD limit) := by
  unfold CIDRBlock.accept at h ⊢
  split at h
  · rw [hblock] at h
    cases h
  · next hle =>
    rw [if_neg hle]
    exact ⟨Nat.not_lt.1 hle, rfl, rfl, Nat.mod_eq_of_lt (by omega), rfl⟩

/-- What `Parse` accepts is a block, and it holds it. -/
theorem CIDRBlock.parse_holds {pton : Pton} {text : List UInt8}
    (h : (CIDRBlock.parse pton text).isValid = true) :
    (∃ ip bits, blockOf pton text = some (.ipv4 ip bits) ∧ bits ≤ 32 ∧
        (CIDRBlock.parse pton text).Holds (blockBytes ip) false bits) ∨
      ∃ ip bits, blockOf pton text = some (.ipv6 ip bits) ∧ bits ≤ 128 ∧
        (CIDRBlock.parse pton text).Holds ip true bits := by
  unfold CIDRBlock.parse at h ⊢
  unfold blockOf bitsOf
  generalize parsePrefixLen (prefixText text) = given at h ⊢
  by_cases hgiven : given = some none
  · simp [hgiven] at h
  · cases hv4 : pton.ipv4 (cString (addressText text)) with
    | some ip =>
      simp only [hv4] at h ⊢
      obtain ⟨hle, hholds⟩ := CIDRBlock.accept_holds rfl (by norm_num) h
      exact .inl ⟨ip, _, by simp [hle], hle, hholds⟩
    | none =>
      cases hv6 : pton.ipv6 (cString (addressText text)) with
      | some ip =>
        simp only [hv4, hv6] at h ⊢
        obtain ⟨hle, hholds⟩ := CIDRBlock.accept_holds rfl (by norm_num) h
        exact .inr ⟨ip, _, by simp [hle], hle, hholds⟩
      | none => simp [hv4, hv6] at h

/-! ## A block means what it matches -/

theorem blockBytes_agreeOn {ip : Vector UInt8 4} {bits : Nat} (hbits : bits ≤ 32)
    {v4 : List UInt8} :
    AgreeOn bits (blockBytes ip).toList v4 ↔ AgreeOn bits ip.toList v4 := by
  have hsame : ∀ i < bits, bit (blockBytes ip).toList i = bit ip.toList i := by
    intro i hi
    have hfour : i / 8 < ip.toList.length := by
      rw [Vector.length_toList]
      omega
    unfold bit blockBytes
    rw [Vector.toList_append, List.getD_append _ _ _ _ hfour]
  constructor
  · intro h i hi
    rw [← hsame i hi, h i hi]
  · intro h i hi
    rw [hsame i hi, h i hi]

/-- A block of one family against a host of that family. -/
theorem CIDRBlock.matchesAddress_iff {block : CIDRBlock} {bytes : Vector UInt8 16} {isIpv6 : Bool}
    {bits : Nat} (h : block.Holds bytes isIpv6 bits)
    (hbits : bits ≤ if isIpv6 then 128 else 32) (source : Endpoint) :
    block.matchesAddress (.inet source) = true ↔
      decide (source.host.key.length = 16) = isIpv6 ∧
        AgreeOn bits bytes.toList source.host.key := by
  have hkey : source.host.key ≠ [] := by
    intro hnil
    have := source.host.length_key
    rw [hnil] at this
    simp at this
  show block.matchesKey source.host.key = true ↔ _
  unfold CIDRBlock.matchesKey
  rw [h.isValid, h.isIpv6, h.bytes, h.prefixLen]
  simp only [hkey, Bool.not_true, Bool.false_eq_true, if_false]
  by_cases hfamily : decide (source.host.key.length = 16) = isIpv6
  · have hlength : bits ≤ 8 * source.host.key.length := by
      rcases source.host.length_key with hlen | hlen
      · rw [hlen] at hfamily ⊢
        obtain rfl : isIpv6 = false := by simpa using hfamily.symm
        simpa using hbits
      · rw [hlen] at hfamily ⊢
        obtain rfl : isIpv6 = true := by simpa using hfamily.symm
        simpa using hbits
    have hbytes : bits ≤ 8 * bytes.toList.length := by
      rw [Vector.length_toList]
      rcases source.host.length_key with hlen | hlen <;> omega
    rw [if_neg (not_not.2 hfamily), prefixMatch_iff hbytes hlength]
    exact (and_iff_right hfamily).symm
  · rw [if_pos hfamily]
    exact iff_of_false Bool.false_ne_true fun h => hfamily h.1

/-- The key of a host is the address of one family or the other. -/
theorem Host.key_cases (host : Host) :
    (host.asIpv4 = some host.key ∧ host.asIpv6 = none ∧ host.key.length = 4) ∨
      (host.asIpv4 = none ∧ host.asIpv6 = some host.key ∧ host.key.length = 16) := by
  cases host with
  | ipv4 ip => exact .inl ⟨rfl, rfl, Vector.length_toList⟩
  | ipv6 ip =>
    rw [Host.asIpv4, Host.asIpv6, Host.key]
    split
    · exact .inl ⟨rfl, rfl, by rw [List.length_drop, Vector.length_toList]⟩
    · exact .inr ⟨rfl, rfl, Vector.length_toList⟩

/-- **A block means what it matches, unless it is written in mapped form.** -/
theorem matchesAddress_iff_covers (pton : Pton) (text : List UInt8)
    (haccepted : (CIDRBlock.parse pton text).isValid = true) :
    ∃ block, blockOf pton text = some block ∧
      ((∀ source : Endpoint, (CIDRBlock.parse pton text).matchesAddress (.inet source) = true ↔
          block.Covers source.host) ↔
        ¬ block.Mapped) := by
  rcases CIDRBlock.parse_holds haccepted with ⟨ip, bits, hblock, hbits, hholds⟩ |
    ⟨ip, bits, hblock, hbits, hholds⟩
  · refine ⟨_, hblock, ?_⟩
    refine iff_of_true (fun source => ?_) id
    rw [CIDRBlock.matchesAddress_iff hholds (by simpa using hbits)]
    rcases source.host.key_cases with ⟨hv4, -, hlen⟩ | ⟨hv4, -, hlen⟩
    · simp [Block.Covers, hv4, hlen, blockBytes_agreeOn hbits]
    · simp [Block.Covers, hv4, hlen]
  · refine ⟨_, hblock, ?_⟩
    by_cases hmapped : Block.Mapped (.ipv6 ip bits)
    · -- the host the block is written with: it is named, and it is not matched
      refine iff_of_false (fun hall => ?_) (not_not.2 hmapped)
      have hself := hall ⟨.ipv6 ip, 0⟩
      rw [CIDRBlock.matchesAddress_iff hholds (by simpa using hbits)] at hself
      have hkey : (Host.ipv6 ip).key.length = 4 := by
        rw [Host.key, if_pos hmapped.1, List.length_drop, Vector.length_toList]
      have hcovers : Block.Covers (.ipv6 ip bits) (.ipv6 ip) := by
        rw [Block.Covers, if_pos hmapped, Host.asIpv4, if_pos hmapped.1]
        exact ⟨_, rfl, AgreeOn.refl _ _⟩
      have := (hself.2 hcovers).1
      rw [hkey] at this
      simp at this
    · refine iff_of_true (fun source => ?_) hmapped
      rw [CIDRBlock.matchesAddress_iff hholds (by simpa using hbits)]
      rcases source.host.key_cases with ⟨-, hv6, hlen⟩ | ⟨-, hv6, hlen⟩
      · simp [Block.Covers, hmapped, hv6, hlen]
      · simp [Block.Covers, hmapped, hv6, hlen]

/-! ## Two texts -/

/-- `inet_pton` on the addresses of the two texts below. -/
def samplePton : Pton where
  ipv4 text := if text = Bytes.ascii "10.0.0.0" then some #v[10, 0, 0, 0] else none
  ipv6 text :=
    if text = Bytes.ascii "::ffff:10.0.0.0" then
      some #v[0, 0, 0, 0, 0, 0, 0, 0, 0, 0, 0xFF, 0xFF, 10, 0, 0, 0]
    else none

/-- A block in IPv4 form. -/
theorem matchesAddress_iff_covers_ten :
    ∃ block, blockOf samplePton (Bytes.ascii "10.0.0.0/8") = some block ∧
      ((∀ source : Endpoint,
          (CIDRBlock.parse samplePton (Bytes.ascii "10.0.0.0/8")).matchesAddress
            (.inet source) = true ↔
            block.Covers source.host) ↔
        ¬ block.Mapped) :=
  matchesAddress_iff_covers samplePton (Bytes.ascii "10.0.0.0/8") (by decide +kernel)

/-- The same block in mapped form: it is accepted, it names the host 10.1.2.3, and it matches
that host in neither family. -/
theorem mapped_block_matches_neither :
    (CIDRBlock.parse samplePton (Bytes.ascii "::ffff:10.0.0.0/104")).isValid = true ∧
      (∃ block, blockOf samplePton (Bytes.ascii "::ffff:10.0.0.0/104") = some block ∧
        block.Covers (.ipv4 #v[10, 1, 2, 3])) ∧
      (CIDRBlock.parse samplePton (Bytes.ascii "::ffff:10.0.0.0/104")).matchesAddress
        (.inet ⟨.ipv4 #v[10, 1, 2, 3], 5000⟩) = false ∧
      (CIDRBlock.parse samplePton (Bytes.ascii "::ffff:10.0.0.0/104")).matchesAddress
        (.inet ⟨.ipv6 #v[0, 0, 0, 0, 0, 0, 0, 0, 0, 0, 0xFF, 0xFF, 10, 1, 2, 3], 5000⟩) =
          false := by
  refine ⟨by decide +kernel, ⟨.ipv6 #v[0, 0, 0, 0, 0, 0, 0, 0, 0, 0, 0xFF, 0xFF, 10, 0, 0, 0] 104,
    ?_, ?_⟩, by decide +kernel, by decide +kernel⟩
  · decide +kernel
  · rw [Block.Covers, if_pos (by decide)]
    exact ⟨[10, 1, 2, 3], rfl, by decide⟩

end Znet
