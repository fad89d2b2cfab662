import Znet.Inet.Cidr

/-!
# Admission

The `AdmissionControl` of `admission.cc`: the allow and deny lists, and the throttle on the
attempts of one host.  The clock is read by the caller; times and durations count in one unit.
-/

namespace Znet

inductive Verdict where
  | allow
  | denylisted
  | notAllowlisted
  | throttled
  deriving DecidableEq, Repr

/-- The attempts of one host in its window. -/
structure SourceWindow where
  windowStart : Int := 0
  count : BitVec 32 := 0
  deriving DecidableEq

/-- How many hosts are tracked. -/
def kMaxTrackedSources : Nat := 4096

structure AdmissionControl where
  allowlist : List CIDRBlock := []
  denylist : List CIDRBlock := []
  maxAttempts : BitVec 32 := 0
  window : Int := 0
  sources : Std.ExtTreeMap (List UInt8) SourceWindow compare := ∅

/-- `AnyMatch`. -/
def anyMatch (blocks : List CIDRBlock) (source : InetAddress) : Bool :=
  blocks.any (·.matchesAddress source)

/-- `ValidOnly`. -/
def validOnly (blocks : List CIDRBlock) : List CIDRBlock := blocks.filter (·.isValid)

namespace AdmissionControl

/-- The constructor. -/
def new (allowlist denylist : List CIDRBlock) (maxAttempts : BitVec 32) (window : Int) :
    AdmissionControl where
  allowlist := validOnly allowlist
  denylist := validOnly denylist
  maxAttempts := maxAttempts
  window := window

variable (a : AdmissionControl)

/-- `AdmissionControl::Screen`. -/
def screen (source : InetAddress) : Verdict :=
  match source with
  | .unix _ => .allow
  | .inet _ =>
    if anyMatch a.denylist source then .denylisted
    else if a.allowlist ≠ [] ∧ ¬ anyMatch a.allowlist source then .notAllowlisted
    else .allow

/-- Drop the entries whose window has elapsed. -/
def prune (now : Int) : AdmissionControl :=
  { a with sources := a.sources.filter fun _ entry => decide (now - entry.windowStart ≤ a.window) }

/-- Count one attempt of a host. -/
def attempt (key : List UInt8) (now : Int) : Verdict × AdmissionControl :=
  let entry := a.sources.getD key {}
  let entry : SourceWindow :=
    if entry.count = 0 ∨ a.window < now - entry.windowStart then ⟨now, 0⟩ else entry
  let entry := { entry with count := entry.count + 1 }
  (if entry.count ≤ a.maxAttempts then .allow else .throttled,
    { a with sources := a.sources.insert key entry })

/-- `AdmissionControl::Admit`. -/
def admitSource (source : InetAddress) (now : Int) : Verdict × AdmissionControl :=
  if a.screen source ≠ .allow then (a.screen source, a)
  else if a.maxAttempts = 0 ∨ a.window ≤ 0 then (.allow, a)
  else
    let key := source.hostKey
    if key = [] then (.allow, a)
    else if kMaxTrackedSources < a.sources.size then
      let a := a.prune now
      -- full of live windows: it fails open
      if kMaxTrackedSources < a.sources.size ∧ ¬ a.sources.contains key then (.allow, a)
      else a.attempt key now
    else a.attempt key now

end AdmissionControl

end Znet
