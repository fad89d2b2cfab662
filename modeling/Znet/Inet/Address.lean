import Znet.Buffer
import Znet.Lib.Decimal

/-!
# Internet addresses

The `InetAddress` of `inet_addr.h`.  A host is its address bytes in network order; an
endpoint is a host and a port, which is what `SameEndpoint` compares, so two endpoints are
the same peer exactly when they are equal.  A Unix path has neither.
-/

namespace Znet

/-- The bytes of an address, in network order. -/
inductive Host where
  | ipv4 (ip : Vector UInt8 4)
  | ipv6 (ip : Vector UInt8 16)
  deriving DecidableEq

/-- A host and a port, as a socket names a peer. -/
structure Endpoint where
  host : Host
  port : BitVec 16
  deriving DecidableEq

inductive InetAddress where
  | inet (endpoint : Endpoint)
  | unix (path : List UInt8)
  deriving DecidableEq

/-! ## The host -/

/-- `IsV4MappedV6`: the shape an IPv4 client takes on a dual-stack socket. -/
def isV4MappedV6 (ip : Vector UInt8 16) : Bool :=
  decide (ip.toList.take 12 = List.replicate 10 0 ++ [0xFF, 0xFF])

/-- The host part of `host_key`. -/
def Host.key : Host → List UInt8
  | .ipv4 ip => ip.toList
  | .ipv6 ip => if isV4MappedV6 ip then ip.toList.drop 12 else ip.toList

/-- `host_key`. -/
def InetAddress.hostKey : InetAddress → List UInt8
  | .inet endpoint => endpoint.host.key
  | .unix _ => []

theorem Host.length_key (host : Host) : host.key.length = 4 ∨ host.key.length = 16 := by
  cases host with
  | ipv4 ip => exact .inl (by simp [Host.key])
  | ipv6 ip =>
    rw [Host.key]
    split
    · exact .inl (by rw [List.length_drop, Vector.length_toList])
    · exact .inr Vector.length_toList

/-! ## The readable form -/

def colon : UInt8 := 58
def bar : UInt8 := 124

/-- `inet_ntop`, as far as it is relied on: different hosts have different texts, made of
digits, letters, points and colons. -/
structure Ntop where
  text : Host → List UInt8
  injective : Function.Injective text
  no_bar : ∀ host, bar ∉ text host

/-- The text of an endpoint: the host, a colon, the port. -/
def Endpoint.readable (ntop : Ntop) (endpoint : Endpoint) : List UInt8 :=
  ntop.text endpoint.host ++ colon :: Text.decimal endpoint.port.toNat

theorem not_mem_decimal {c : UInt8} (hc : c < 48 ∨ 57 < c) (n : Nat) : c ∉ Text.decimal n := by
  intro hmem
  obtain ⟨hlow, hhigh⟩ := Text.digit_of_mem_decimal hmem
  rcases hc with hc | hc
  · exact absurd hlow (UInt8.not_le.2 hc)
  · exact absurd hhigh (UInt8.not_le.2 hc)

variable (ntop : Ntop)

/-- Different endpoints read differently. -/
theorem Endpoint.readable_injective : Function.Injective (Endpoint.readable ntop) := by
  intro a b h
  obtain ⟨hhost, hport⟩ := Text.append_separator_inj
    (not_mem_decimal (.inr (by decide)) _) (not_mem_decimal (.inr (by decide)) _) h
  have hport : a.port = b.port := BitVec.eq_of_toNat_eq (Text.decimal_injective hport)
  cases a
  cases b
  simp only [Endpoint.mk.injEq]
  exact ⟨ntop.injective hhost, hport⟩

theorem Endpoint.no_bar_readable (endpoint : Endpoint) : bar ∉ endpoint.readable ntop := by
  intro hmem
  rcases List.mem_append.1 hmem with hmem | hmem
  · exact ntop.no_bar _ hmem
  · rcases List.mem_cons.1 hmem with hmem | hmem
    · exact absurd hmem (by decide)
    · exact not_mem_decimal (.inr (by decide)) _ hmem

/-! ## A text to check with -/

/-- Each byte as two numbers below sixteen. -/
def nibbles : List UInt8 → List UInt8
  | [] => []
  | x :: xs => x / 16 :: x % 16 :: nibbles xs

theorem toNat_sixteen : (16 : UInt8).toNat = 16 := rfl

theorem nibbles_injective : Function.Injective nibbles := by
  intro xs
  induction xs with
  | nil =>
    intro ys h
    cases ys with
    | nil => rfl
    | cons y ys => cases h
  | cons x xs ih =>
    intro ys h
    cases ys with
    | nil => cases h
    | cons y ys =>
      simp only [nibbles, List.cons.injEq] at h
      obtain ⟨hdiv, hmod, hrest⟩ := h
      have hx : x = y := by
        have hdiv := congrArg UInt8.toNat hdiv
        have hmod := congrArg UInt8.toNat hmod
        rw [UInt8.toNat_div, UInt8.toNat_div, toNat_sixteen] at hdiv
        rw [UInt8.toNat_mod, UInt8.toNat_mod, toNat_sixteen] at hmod
        apply UInt8.toNat_inj.1
        omega
      rw [hx, ih hrest]

theorem length_nibbles (xs : List UInt8) : (nibbles xs).length = 2 * xs.length := by
  induction xs with
  | nil => rfl
  | cons x xs ih =>
    simp only [nibbles, List.length_cons, ih]
    omega

theorem lt_of_mem_nibbles {x : UInt8} {xs : List UInt8} (h : x ∈ nibbles xs) : x < 16 := by
  induction xs with
  | nil => cases h
  | cons y ys ih =>
    simp only [nibbles, List.mem_cons] at h
    rcases h with rfl | rfl | h
    · have := y.toNat_lt
      rw [UInt8.lt_iff_toNat_lt, UInt8.toNat_div, toNat_sixteen]
      omega
    · rw [UInt8.lt_iff_toNat_lt, UInt8.toNat_mod, toNat_sixteen]
      omega
    · exact ih h

/-- A text of hosts that is easy to check: their bytes, in halves. -/
def Ntop.nibbled : Ntop where
  text
    | .ipv4 v => nibbles v.toList
    | .ipv6 v => nibbles v.toList
  injective := by
    intro a b h
    cases a with
    | ipv4 v =>
      cases b with
      | ipv4 w => rw [Vector.toList_inj.1 (nibbles_injective h)]
      | ipv6 w =>
        have hlength := congrArg List.length h
        simp [length_nibbles] at hlength
    | ipv6 v =>
      cases b with
      | ipv4 w =>
        have hlength := congrArg List.length h
        simp [length_nibbles] at hlength
      | ipv6 w => rw [Vector.toList_inj.1 (nibbles_injective h)]
  no_bar host hmem := by
    cases host with
    | ipv4 v | ipv6 v => exact absurd (lt_of_mem_nibbles hmem) (by decide)

/-! ## On the wire -/

/-- `Read` of an array: what was there before stays where the read is refused. -/
def Reading.readArray {n : Nat} (old : Vector UInt8 n) : Reading (Vector UInt8 n) :=
  .fetch n fun bytes =>
    .done ((bytes.map fun bytes => Vector.ofFn fun i => bytes.getD i 0).getD old)

/-- The bytes of `WriteInetAddress`.  The port is in network order whatever the order of the
buffer. -/
def InetAddress.wire : InetAddress → List UInt8
  | .inet ⟨.ipv4 ip, port⟩ => 4 :: (ip.toList ++ Bytes.be 2 port.toNat)
  | .inet ⟨.ipv6 ip, port⟩ => 6 :: (ip.toList ++ Bytes.be 2 port.toNat)
  | .unix _ => [0]

def writeInetAddress (b : Buffer) (address : InetAddress) : Buffer := b.write address.wire

/-- The port of an address that is read. -/
def readPort : Reading (BitVec 16) := do
  let port ← Reading.readArray (Vector.replicate 2 0)
  pure (BitVec.ofNat 16 (Bytes.ofBe port.toList))

/-- `ReadInetAddress`; `none` where it returns null. -/
def readInetAddress : Reading (Option Endpoint) := do
  let version ← Reading.readNumber 1
  if version = 4 then
    let ip ← Reading.readArray (Vector.replicate 4 0)
    let port ← readPort
    pure (some ⟨.ipv4 ip, port⟩)
  else if version = 6 then
    let ip ← Reading.readArray (Vector.replicate 16 0)
    let port ← readPort
    pure (some ⟨.ipv6 ip, port⟩)
  else .raise .corruptedFormat (.done none)

end Znet
