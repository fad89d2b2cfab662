import Znet.Lib.RunLength
import Znet.Lib.Word
import Znet.Zdt.Wire

/-!
# What a receiver remembers, and the ack blocks built from it

`ZDTAckHistory` (`zdt_ack_history.cc`): a sliding record of which packets
arrived, newest first, held in sixteen 64-bit words.  Bit `b` says "the packet
`highest - b` arrived".  `record` folds one arrival in, `fill` run-length encodes
the history into the ack blocks of an outgoing header, and `ackWalk` is the walk
the other side's `ProcessAcks` makes over them.

* `fill_sound` — **no false ack and no false nack**: what the peer decodes is
  what was recorded.
* `fill_reports_iff` — **which arrivals are reported** when neither the window nor
  the block budget is in the way: those not older than the first one recorded.
-/

namespace Znet
namespace Zdt

/-! ## The bits -/

/-- The history words, lowest bits first. -/
abbrev HistoryWords := Vector (BitVec 64) kZDTAckHistoryWords

variable (bits : HistoryWords)

/-- The word at an index, zero past the end. -/
def wordAt (i : Nat) : BitVec 64 := bits[i]?.getD 0

/-- `(bits[b / 64] >> (b % 64)) & 1`. -/
def historyBit (b : Nat) : Bool :=
  (wordAt bits (b / 64) >>> (b % 64)) &&& 1 != 0

/-- `bits[b / 64] |= 1 << (b % 64)`. -/
def setHistoryBit (b : Nat) : HistoryWords :=
  bits.set! (b / 64) (wordAt bits (b / 64) ||| Word.bit (b % 64))

/-- One pass of the shift loop: the new value of word `i`. -/
def shiftedWord (words rem i : Nat) : BitVec 64 :=
  if words ≤ i then
    wordAt bits (i - words) <<< rem |||
      (if rem ≠ 0 ∧ words < i then wordAt bits (i - words - 1) >>> (64 - rem) else 0)
  else 0

/-- The shift loop, from word `i - 1` down to word `0`, in place. -/
def shiftHistoryLoop (words rem : Nat) : Nat → HistoryWords → HistoryWords
  | 0, bits => bits
  | i + 1, bits => shiftHistoryLoop words rem i (bits.set! i (shiftedWord bits words rem i))

/-- The newest sequence advanced by `n`: bit `b` becomes bit `b + n`. -/
def shiftHistoryUp (n : Nat) : HistoryWords :=
  if kZDTAckHistoryBits ≤ n then Vector.replicate kZDTAckHistoryWords 0
  else shiftHistoryLoop (n / 64) (n % 64) kZDTAckHistoryWords bits

/-! ## The history -/

/-- The receiver's record of arrivals. -/
structure ZDTAckHistory where
  highest : WireSeq := 0
  bits : HistoryWords := Vector.replicate kZDTAckHistoryWords 0
  /-- How much of `bits` describes packets the peer has actually sent. -/
  validBits : Nat := 0
  hasAny : Bool := false
  deriving DecidableEq, Repr

namespace ZDTAckHistory

/-- Fold one arrival in. -/
def record (h : ZDTAckHistory) (packetSeq : WireSeq) : ZDTAckHistory :=
  if !h.hasAny then
    { hasAny := true, highest := packetSeq, validBits := 1,
      bits := setHistoryBit (Vector.replicate kZDTAckHistoryWords 0) 0 }
  else if seqGreater packetSeq h.highest then
    let shift := (packetSeq - h.highest).toNat
    { h with
      highest := packetSeq
      bits := setHistoryBit (shiftHistoryUp h.bits shift) 0
      validBits := if h.validBits + shift > kZDTAckHistoryBits then kZDTAckHistoryBits
        else h.validBits + shift }
  else if seqLess packetSeq h.highest then
    let back := (h.highest - packetSeq).toNat
    if back < kZDTAckHistoryBits then { h with bits := setHistoryBit h.bits back } else h
  else h

/-- The blocks `fill` writes: runs of at most 255, as many as fit, without the
trailing ones that report only missing packets. -/
def runs (h : ZDTAckHistory) (maxBlocks reportableCap : Nat) : List (Nat × Nat) :=
  RunLength.trimRuns (RunLength.encodeRuns 255 (historyBit h.bits)
    (min h.validBits reportableCap) (min maxBlocks kZDTMaxAckBlocks) 0)

/-- Run-length encode the history into the ack fields of a header. -/
def fill (h : ZDTAckHistory) (header : ZDTHeader) (maxBlocks reportableCap : Nat) : ZDTHeader :=
  if !h.hasAny || maxBlocks == 0 then { header with ack := h.highest, blocks := [] }
  else
    { header with
      ack := h.highest
      blocks := (h.runs maxBlocks reportableCap).map fun r =>
        ⟨BitVec.ofNat 8 r.1, BitVec.ofNat 8 r.2⟩ }

end ZDTAckHistory

/-- The walk `ProcessAcks` makes over a header's blocks: the offsets back from
`header.ack`, in order, each with whether it is reported as received. -/
def ackWalk (header : ZDTHeader) : List (Nat × Bool) :=
  RunLength.decodeRuns kZDTAckHistoryBits
    (header.blocks.map fun b => (b.numAck.toNat, b.numNack.toNat)) 0

/-! ## The bits, specified -/

theorem wordAt_replicate (i : Nat) :
    wordAt (Vector.replicate kZDTAckHistoryWords 0) i = 0 := by
  rw [wordAt, Vector.getElem?_replicate]
  split <;> rfl

variable (bits : HistoryWords)

theorem wordAt_set! {i : Nat} (hi : i < kZDTAckHistoryWords) (j : Nat)
    (v : BitVec 64) : wordAt (bits.set! i v) j = if i = j then v else wordAt bits j := by
  unfold wordAt
  rw [Vector.getElem?_set!]
  by_cases hij : i = j
  · rw [if_pos hij, if_pos hij, if_pos hi, Option.getD_some]
  · rw [if_neg hij, if_neg hij]

theorem historyBit_eq (b : Nat) : historyBit bits b = (wordAt bits (b / 64)).getLsbD (b % 64) :=
  Word.shiftRight_and_one _ _

theorem historyBit_replicate (b : Nat) :
    historyBit (Vector.replicate kZDTAckHistoryWords 0) b = false := by
  rw [historyBit_eq, wordAt_replicate]
  exact BitVec.getLsbD_zero

variable {b first top p : Nat} {h : ZDTAckHistory} {seen : Nat → Prop}

theorem historyBit_setHistoryBit (hb : b < 1024) (c : Nat) :
    historyBit (setHistoryBit bits b) c = (decide (c = b) || historyBit bits c) := by
  rw [historyBit_eq, historyBit_eq, setHistoryBit,
    wordAt_set! bits (show b / 64 < kZDTAckHistoryWords by
      simp only [kZDTAckHistoryWords, kZDTAckHistoryBits]; omega)]
  by_cases hw : b / 64 = c / 64
  · have hbit : (Word.bit (b % 64)).getLsbD (c % 64) = decide (c = b) := by
      rw [Word.getLsbD_bit (Nat.mod_lt _ (by omega))]
      exact decide_eq_decide.2 (by omega)
    rw [if_pos hw, BitVec.getLsbD_or, hw, hbit, Bool.or_comm]
  · have hcb : c ≠ b := by rintro rfl; exact hw rfl
    simp [if_neg hw, hcb]

/-! ## The shift, specified -/

/-- The loop only ever reads words it has not written yet, so in place or not
makes no difference. -/
theorem wordAt_shiftHistoryLoop (words rem : Nat) (n : Nat) (hn : n ≤ kZDTAckHistoryWords)
    (bits : HistoryWords) (j : Nat) :
    wordAt (shiftHistoryLoop words rem n bits) j =
      if j < n then shiftedWord bits words rem j else wordAt bits j := by
  induction n generalizing bits with
  | zero => simp [shiftHistoryLoop]
  | succ i ih =>
    rw [shiftHistoryLoop, ih (by omega)]
    by_cases hj : j < i
    · rw [if_pos hj, if_pos (by omega)]
      -- word `j < i` reads only words up to `j`, and the pass wrote word `i`
      have hkeep : ∀ k ≤ j, wordAt (bits.set! i (shiftedWord bits words rem i)) k
          = wordAt bits k := by
        intro k hk
        rw [wordAt_set! bits (by omega), if_neg (by omega)]
      generalize bits.set! i (shiftedWord bits words rem i) = bits' at hkeep
      rw [shiftedWord, hkeep (j - words) (by omega), hkeep (j - words - 1) (by omega),
        ← shiftedWord]
    · rw [if_neg hj, wordAt_set! bits (by omega)]
      by_cases hij : i = j
      · rw [if_pos hij, if_pos (by omega), hij]
      · rw [if_neg hij, if_neg (by omega)]

theorem getLsbD_shiftedWord (n b : Nat) :
    (shiftedWord bits (n / 64) (n % 64) (b / 64)).getLsbD (b % 64) =
      (decide (n ≤ b) && historyBit bits (b - n)) := by
  have hr : b % 64 < 64 := Nat.mod_lt _ (by omega)
  have hm : n % 64 < 64 := Nat.mod_lt _ (by omega)
  rw [historyBit_eq, shiftedWord]
  by_cases hw : n / 64 ≤ b / 64
  · rw [if_pos hw, BitVec.getLsbD_or, BitVec.getLsbD_shiftLeft]
    by_cases hle : n % 64 ≤ b % 64
    · -- the bit comes from the word `n / 64` below
      have hidx : (b - n) / 64 = b / 64 - n / 64 := by omega
      have hmod : (b - n) % 64 = b % 64 - n % 64 := by omega
      have hlow : (if n % 64 ≠ 0 ∧ n / 64 < b / 64 then
          wordAt bits (b / 64 - n / 64 - 1) >>> (64 - n % 64) else 0).getLsbD (b % 64) = false := by
        split
        · rw [BitVec.getLsbD_ushiftRight]
          exact BitVec.getLsbD_of_ge _ _ (by omega)
        · simp
      have hnb : n ≤ b := by omega
      rw [hlow, hidx, hmod]
      simp [hr, hnb, Nat.not_lt.2 hle]
    · -- the bit was carried over from the word below that one
      by_cases hlt : n / 64 < b / 64
      · have hidx : (b - n) / 64 = b / 64 - n / 64 - 1 := by omega
        have hmod : (b - n) % 64 = 64 - n % 64 + b % 64 := by omega
        have hnb : n ≤ b := by omega
        rw [if_pos ⟨by omega, hlt⟩, BitVec.getLsbD_ushiftRight, hidx, hmod]
        simp [hnb, Nat.lt_of_not_le hle]
      · have hnb : ¬ n ≤ b := by omega
        rw [if_neg (fun h => hlt h.2)]
        simp [hnb, Nat.lt_of_not_le hle]
  · have hnb : ¬ n ≤ b := by omega
    rw [if_neg hw]
    simp [hnb]

/-- **The shift.**  Bit `b` of the shifted history is bit `b - n` of the old
one, and the `n` newly exposed bits are clear. -/
theorem historyBit_shiftHistoryUp (n : Nat) (hb : b < 1024) :
    historyBit (shiftHistoryUp bits n) b = (decide (n ≤ b) && historyBit bits (b - n)) := by
  rw [shiftHistoryUp]
  by_cases hn : kZDTAckHistoryBits ≤ n
  · have hnb : ¬ n ≤ b := by simp only [kZDTAckHistoryBits] at hn; omega
    rw [if_pos hn, historyBit_replicate]
    simp [hnb]
  · rw [if_neg hn, historyBit_eq, wordAt_shiftHistoryLoop _ _ _ le_rfl, if_pos,
      getLsbD_shiftedWord]
    simp only [kZDTAckHistoryWords, kZDTAckHistoryBits]
    omega

/-! ## What the history means -/

/-- The history after the packets numbered `ps` arrived, in that order. -/
def recordAll (h : ZDTAckHistory) (ps : List Nat) : ZDTAckHistory :=
  ps.foldl (fun h p => h.record (BitVec.ofNat 16 p)) h

/-- The largest packet number among `ps`. -/
def newest (ps : List Nat) : Nat := ps.foldl max 0

/-- Each of the packets is at most `2^15 - 1` away from the largest before it,
which `top` is at the start. -/
def WithinHalf (top : Nat) : List Nat → Prop
  | [] => True
  | p :: ps => p ≤ top + 32767 ∧ top ≤ p + 32767 ∧ WithinHalf (max top p) ps

/-- Arrivals no farther than `2^15 - 1` from their running maximum. -/
def NearMax : List Nat → Prop
  | [] => True
  | p :: ps => WithinHalf p ps

instance instDecidableWithinHalf : ∀ top ps, Decidable (WithinHalf top ps)
  | _, [] => inferInstanceAs (Decidable True)
  | top, p :: ps =>
    have := instDecidableWithinHalf (max top p) ps
    inferInstanceAs (Decidable (_ ∧ _ ∧ _))

instance instDecidableNearMax : ∀ ps, Decidable (NearMax ps)
  | [] => inferInstanceAs (Decidable True)
  | p :: ps => inferInstanceAs (Decidable (WithinHalf p ps))

/-- The history `h` describes the packets in `seen`: `top` is the newest of
them and `first` the one recorded first. -/
structure Tracks (h : ZDTAckHistory) (first top : Nat) (seen : Nat → Prop) : Prop where
  hasAny : h.hasAny = true
  highest : h.highest = BitVec.ofNat 16 top
  bit : ∀ b < 1024, historyBit h.bits b = true ↔ b ≤ top ∧ seen (top - b)
  valid : h.validBits = min 1024 (top - first + 1)
  first_le : first ≤ top
  seen_le : ∀ p, seen p → p ≤ top
  seen_top : seen top

theorem Tracks.congr {seen' : Nat → Prop} (ht : Tracks h first top seen)
    (hs : ∀ q, seen q ↔ seen' q) : Tracks h first top seen' := by
  obtain rfl : seen = seen' := funext fun q => propext (hs q)
  exact ht

theorem record_first (p : Nat) :
    Tracks (ZDTAckHistory.record {} (BitVec.ofNat 16 p)) p p (· = p) := by
  refine ⟨rfl, rfl, fun b hb => ?_, by simp [ZDTAckHistory.record], le_rfl,
    fun q hq => by omega, rfl⟩
  have hbit : historyBit (ZDTAckHistory.record {} (BitVec.ofNat 16 p)).bits b = decide (b = 0) := by
    rw [show (ZDTAckHistory.record {} (BitVec.ofNat 16 p)).bits =
        setHistoryBit (Vector.replicate kZDTAckHistoryWords 0) 0 from rfl,
      historyBit_setHistoryBit _ (by omega), historyBit_replicate, Bool.or_false]
  rw [hbit, decide_eq_true_eq]
  omega

/-- A packet ahead of the newest one shifts the history and becomes its top. -/
theorem record_ahead (ht : Tracks h first top seen) (hlt : top < p) (hp : p < top + 32768) :
    Tracks (h.record (BitVec.ofNat 16 p)) first p (fun q => q = p ∨ seen q) := by
  have hg : seqGreater (BitVec.ofNat 16 p) h.highest = true := by
    rw [ht.highest, seqGreater_ofNat (by omega) (by omega)]
    exact decide_eq_true hlt
  have hshift : (BitVec.ofNat 16 p - h.highest).toNat = p - top := by
    rw [ht.highest, ofNat_sub_ofNat hlt.le, BitVec.toNat_ofNat]
    omega
  have hrec : h.record (BitVec.ofNat 16 p) =
      { h with
        highest := BitVec.ofNat 16 p
        bits := setHistoryBit (shiftHistoryUp h.bits (p - top)) 0
        validBits := if h.validBits + (p - top) > kZDTAckHistoryBits then kZDTAckHistoryBits
          else h.validBits + (p - top) } := by
    simp only [ZDTAckHistory.record, ht.hasAny, hg, hshift, Bool.not_true, Bool.false_eq_true,
      if_false, if_true]
  rw [hrec]
  refine ⟨ht.hasAny, rfl, fun b hb => ?_, ?_, by have := ht.first_le; omega, ?_, .inl rfl⟩
  · show historyBit (setHistoryBit (shiftHistoryUp h.bits (p - top)) 0) b = true ↔ _
    rw [historyBit_setHistoryBit _ (by omega), historyBit_shiftHistoryUp _ _ hb, Bool.or_eq_true,
      Bool.and_eq_true, decide_eq_true_eq, decide_eq_true_eq, ht.bit _ (by omega)]
    constructor
    · rintro (rfl | ⟨hle, hle', hs⟩)
      · exact ⟨by omega, .inl rfl⟩
      · exact ⟨by omega, .inr (by rwa [show p - b = top - (b - (p - top)) by omega])⟩
    · rintro ⟨hle, heq | hs⟩
      · exact .inl (by omega)
      · have := ht.seen_le _ hs
        exact .inr ⟨by omega, by omega, by rwa [show top - (b - (p - top)) = p - b by omega]⟩
  · have hv := ht.valid
    have hf := ht.first_le
    show (if h.validBits + (p - top) > kZDTAckHistoryBits then kZDTAckHistoryBits
      else h.validBits + (p - top)) = _
    unfold kZDTAckHistoryBits
    by_cases hsat : h.validBits + (p - top) > 1024
    · rw [if_pos hsat]; omega
    · rw [if_neg hsat]; omega
  · rintro q (rfl | hq)
    · exact le_rfl
    · have := ht.seen_le _ hq
      omega

/-- A packet at or behind the newest one only sets its own bit, if the history
still reaches it. -/
theorem record_behind (ht : Tracks h first top seen) (hle : p ≤ top) (hp : top < p + 32768) :
    Tracks (h.record (BitVec.ofNat 16 p)) first top (fun q => q = p ∨ seen q) := by
  have hg : seqGreater (BitVec.ofNat 16 p) h.highest = false := by
    rw [ht.highest, seqGreater_ofNat (by omega) (by omega)]
    exact decide_eq_false (by omega)
  have hl : seqLess (BitVec.ofNat 16 p) h.highest = decide (p < top) := by
    rw [ht.highest, seqLess_ofNat (by omega) (by omega)]
  have hback : (h.highest - BitVec.ofNat 16 p).toNat = top - p := by
    rw [ht.highest, ofNat_sub_ofNat hle, BitVec.toNat_ofNat]
    omega
  have hrec : h.record (BitVec.ofNat 16 p) =
      if p < top ∧ top - p < 1024 then { h with bits := setHistoryBit h.bits (top - p) }
      else h := by
    simp only [ZDTAckHistory.record, ht.hasAny, hg, hl, hback, Bool.not_true, Bool.false_eq_true,
      if_false, kZDTAckHistoryBits, decide_eq_true_eq]
    by_cases h1 : p < top <;> by_cases h2 : top - p < 1024 <;> simp [h1, h2]
  have hseen : ∀ q, q = p ∨ seen q → q ≤ top := by
    rintro q (rfl | hq)
    · exact hle
    · exact ht.seen_le _ hq
  rw [hrec]
  by_cases hset : p < top ∧ top - p < 1024
  · rw [if_pos hset]
    refine { ht with bit := fun b hb => ?_, seen_le := hseen, seen_top := .inr ht.seen_top }
    show historyBit (setHistoryBit h.bits (top - p)) b = true ↔ _
    rw [historyBit_setHistoryBit _ hset.2, Bool.or_eq_true, decide_eq_true_eq, ht.bit b hb]
    constructor
    · rintro (rfl | ⟨hb', hs⟩)
      · exact ⟨by omega, .inl (by omega)⟩
      · exact ⟨hb', .inr hs⟩
    · rintro ⟨hb', heq | hs⟩
      · exact .inl (by omega)
      · exact .inr ⟨hb', hs⟩
  · rw [if_neg hset]
    refine { ht with bit := fun b hb => ?_, seen_le := hseen, seen_top := .inr ht.seen_top }
    rw [ht.bit b hb]
    constructor
    · rintro ⟨hb', hs⟩
      exact ⟨hb', .inr hs⟩
    · rintro ⟨hb', heq | hs⟩
      · -- `p` is the newest packet itself, or out of the history's reach
        have hb0 : b = 0 := by omega
        subst hb0
        exact ⟨hb', ht.seen_top⟩
      · exact ⟨hb', hs⟩

/-- One arrival, wherever it lies. -/
theorem record_tracks (ht : Tracks h first top seen) (hp : p ≤ top + 32767)
    (hp' : top ≤ p + 32767) :
    Tracks (h.record (BitVec.ofNat 16 p)) first (max top p) (fun q => q = p ∨ seen q) := by
  by_cases hlt : top < p
  · rw [max_eq_right hlt.le]
    exact record_ahead ht hlt (by omega)
  · rw [max_eq_left (by omega)]
    exact record_behind ht (by omega) (by omega)

/-- Every run of arrivals keeps the history true. -/
theorem recordAll_tracks (ps : List Nat) (ht : Tracks h first top seen) (hw : WithinHalf top ps) :
    Tracks (recordAll h ps) first (ps.foldl max top) (fun q => q ∈ ps ∨ seen q) := by
  induction ps generalizing h top seen with
  | nil => simpa [recordAll] using ht
  | cons p ps ih =>
    obtain ⟨hp, hp', hw⟩ := hw
    refine (ih (record_tracks ht hp hp') hw).congr fun q => ?_
    rw [List.mem_cons, or_assoc, or_left_comm]

/-- The history of a whole run from the start. -/
theorem recordAll_tracks_of_cons {ps : List Nat} (hw : NearMax (p :: ps)) :
    Tracks (recordAll {} (p :: ps)) p (newest (p :: ps)) (· ∈ p :: ps) := by
  rw [newest, List.foldl_cons, Nat.zero_max]
  refine (recordAll_tracks ps (record_first p) hw).congr fun q => ?_
  rw [List.mem_cons, or_comm]

/-! ## The blocks -/

namespace ZDTAckHistory

theorem length_runs_le (h : ZDTAckHistory) (maxBlocks reportableCap : Nat) :
    (h.runs maxBlocks reportableCap).length ≤ min maxBlocks kZDTMaxAckBlocks :=
  (RunLength.trimRuns_isPrefix _).length_le.trans (RunLength.length_encodeRuns_le ..)

/-- A run fits the byte it is written in. -/
theorem mem_runs_le (h : ZDTAckHistory) (maxBlocks reportableCap : Nat) :
    ∀ r ∈ h.runs maxBlocks reportableCap, r.1 ≤ 255 ∧ r.2 ≤ 255 := fun r hr =>
  RunLength.mem_encodeRuns_le 255 _ _ _ _ r ((RunLength.trimRuns_isPrefix _).subset hr)

theorem fill_ack (h : ZDTAckHistory) (header : ZDTHeader) (maxBlocks reportableCap : Nat) :
    (h.fill header maxBlocks reportableCap).ack = h.highest := by
  unfold fill
  split <;> rfl

theorem fill_flags (h : ZDTAckHistory) (header : ZDTHeader) (maxBlocks reportableCap : Nat) :
    (h.fill header maxBlocks reportableCap).flags = header.flags := by
  unfold fill
  split <;> rfl

theorem fill_packetSeq (h : ZDTAckHistory) (header : ZDTHeader) (maxBlocks reportableCap : Nat) :
    (h.fill header maxBlocks reportableCap).packetSeq = header.packetSeq := by
  unfold fill
  split <;> rfl

theorem length_fill_le (h : ZDTAckHistory) (header : ZDTHeader) (maxBlocks reportableCap : Nat) :
    (h.fill header maxBlocks reportableCap).blocks.length ≤ min maxBlocks kZDTMaxAckBlocks := by
  unfold fill
  split
  · exact Nat.zero_le _
  · rw [List.length_map]
    exact length_runs_le ..

variable {h : ZDTAckHistory} {maxBlocks : Nat}

/-- Writing the runs into bytes and reading them back loses nothing. -/
theorem ackWalk_fill_runs (hany : h.hasAny = true) (hblocks : maxBlocks ≠ 0) (header : ZDTHeader)
    (reportableCap : Nat) :
    ackWalk (h.fill header maxBlocks reportableCap) =
      RunLength.decodeRuns kZDTAckHistoryBits (h.runs maxBlocks reportableCap) 0 := by
  have hbytes : (h.runs maxBlocks reportableCap).map
      ((fun b : ZDTAckBlock => (b.numAck.toNat, b.numNack.toNat)) ∘
        fun r => ⟨BitVec.ofNat 8 r.1, BitVec.ofNat 8 r.2⟩) = h.runs maxBlocks reportableCap := by
    refine (List.map_congr_left fun r hr => ?_).trans (List.map_id _)
    have hle := mem_runs_le h maxBlocks reportableCap r hr
    refine Prod.ext ?_ ?_
    · simp only [Function.comp_apply, BitVec.toNat_ofNat, id_eq]
      omega
    · simp only [Function.comp_apply, BitVec.toNat_ofNat, id_eq]
      omega
  unfold fill
  rw [if_neg (by simp [hany, hblocks]), ackWalk, List.map_map, hbytes]

theorem ackWalk_fill (h : ZDTAckHistory) (header : ZDTHeader) (maxBlocks reportableCap : Nat) :
    ackWalk (h.fill header maxBlocks reportableCap) = [] ∨
      ackWalk (h.fill header maxBlocks reportableCap) =
        RunLength.decodeRuns kZDTAckHistoryBits (h.runs maxBlocks reportableCap) 0 := by
  by_cases hempty : (!h.hasAny || maxBlocks == 0) = true
  · unfold fill
    rw [if_pos hempty]
    exact .inl rfl
  · simp only [Bool.or_eq_true, not_or, Bool.not_eq_true', Bool.not_eq_false, beq_iff_eq] at hempty
    exact .inr (ackWalk_fill_runs hempty.1 hempty.2 header reportableCap)

/-- The peer's walk over the blocks reads the history's own bits, from the
newest packet on without a gap. -/
theorem ackWalk_fill_faithful (h : ZDTAckHistory) (header : ZDTHeader)
    (maxBlocks reportableCap : Nat) :
    RunLength.Faithful (historyBit h.bits) (min h.validBits reportableCap) 0
      (ackWalk (h.fill header maxBlocks reportableCap)) := by
  rcases ackWalk_fill h header maxBlocks reportableCap with hwalk | hwalk
  · rw [hwalk]
    exact .nil _ _ _
  · rw [hwalk]
    exact RunLength.decodeRuns_trimRuns ..

/-- The newest packet is reported, and first. -/
theorem ackWalk_fill_head {first top : Nat} {seen : Nat → Prop} (ht : Tracks h first top seen)
    (header : ZDTHeader) {reportableCap : Nat} (hblocks : 0 < maxBlocks)
    (hcap : 0 < reportableCap) :
    ∃ rest, ackWalk (h.fill header maxBlocks reportableCap) = (0, true) :: rest := by
  have hbit : historyBit h.bits 0 = true := (ht.bit 0 (by omega)).2 ⟨Nat.zero_le _, ht.seen_top⟩
  have hvalid : 0 < min h.validBits reportableCap := by
    rw [ht.valid]
    omega
  have hbudget : 0 < min maxBlocks kZDTMaxAckBlocks := Nat.lt_min.2 ⟨hblocks, by decide⟩
  obtain ⟨rest, hrest⟩ := RunLength.decodeRuns_trimRuns_head
    (show 0 < kZDTAckHistoryBits by decide) (show 0 < 255 by decide) hvalid hbudget hbit
  refine ⟨rest, ?_⟩
  rw [ackWalk_fill_runs ht.hasAny hblocks.ne' header, runs, hrest]

end ZDTAckHistory

/-- What a header reports about the packets `ps` is the truth. -/
structure ReportSound (ps : List Nat) (maxBlocks : Nat) (header : ZDTHeader) : Prop where
  /-- An offset of the walk stands for the packet that many below the newest. -/
  position : ∀ off v, (off, v) ∈ ackWalk header →
    off ≤ newest ps ∧ header.ack - BitVec.ofNat 16 off = BitVec.ofNat 16 (newest ps - off)
  acked : ∀ off, (off, true) ∈ ackWalk header → newest ps - off ∈ ps
  nacked : ∀ off, (off, false) ∈ ackWalk header →
    newest ps - off ∉ ps ∧ ∀ first ∈ ps.head?, first < newest ps - off
  contiguous : (ackWalk header).map Prod.fst = List.range (ackWalk header).length
  blocks_le : header.blocks.length ≤ min maxBlocks kZDTMaxAckBlocks

/-- **Ack soundness.**  Whatever arrived, in whatever order, a header filled from
the history and walked by the peer acks only packets that arrived and nacks only
packets that did not, newer than the first one, in one stretch going back from
the newest. -/
theorem fill_sound (ps : List Nat) (hps : NearMax ps) (header : ZDTHeader)
    (maxBlocks reportableCap : Nat) :
    ReportSound ps maxBlocks ((recordAll {} ps).fill header maxBlocks reportableCap) := by
  cases ps with
  | nil =>
    have hwalk : ackWalk ((recordAll {} []).fill header maxBlocks reportableCap) = [] := rfl
    refine ⟨?_, ?_, ?_, ?_, ZDTAckHistory.length_fill_le ..⟩
    all_goals rw [hwalk]; simp
  | cons p ps =>
    have ht := recordAll_tracks_of_cons hps
    have hf := ZDTAckHistory.ackWalk_fill_faithful (recordAll {} (p :: ps)) header
      maxBlocks reportableCap
    have hack : ((recordAll {} (p :: ps)).fill header maxBlocks reportableCap).ack =
        BitVec.ofNat 16 (newest (p :: ps)) := by
      rw [ZDTAckHistory.fill_ack, ht.highest]
    have hfirst := ht.first_le
    -- an offset of the walk is a position of the history inside `validBits`
    have hoff : ∀ off v, (off, v) ∈ ackWalk
        ((recordAll {} (p :: ps)).fill header maxBlocks reportableCap) →
        off < 1024 ∧ off + p ≤ newest (p :: ps) ∧
          v = historyBit (recordAll {} (p :: ps)).bits off := by
      intro off v hmem
      obtain ⟨-, hlt, hv⟩ := hf.mem hmem
      rw [ht.valid] at hlt
      exact ⟨by omega, by omega, hv⟩
    refine ⟨fun off v hmem => ?_, fun off hmem => ?_, fun off hmem => ?_, ?_,
      ZDTAckHistory.length_fill_le ..⟩
    · obtain ⟨-, hle, -⟩ := hoff off v hmem
      exact ⟨by omega, by rw [hack, ofNat_sub_ofNat (by omega)]⟩
    · obtain ⟨hlt, -, hv⟩ := hoff off true hmem
      exact ((ht.bit off hlt).1 hv.symm).2
    · obtain ⟨hlt, hle, hv⟩ := hoff off false hmem
      have hnot : newest (p :: ps) - off ∉ p :: ps := fun hin => by
        rw [(ht.bit off hlt).2 ⟨by omega, hin⟩] at hv
        exact Bool.false_ne_true hv
      refine ⟨hnot, fun first hfirst => ?_⟩
      obtain rfl : p = first := by simpa using hfirst
      have hne : newest (p :: ps) - off ≠ p := fun heq =>
        hnot (List.mem_cons.2 (.inl heq))
      omega
    · rw [hf.positions, List.range_eq_range']

/-- Packet 66000 first, then 66002, then the one before the first, late. -/
theorem fill_sound_late_arrival :
    NearMax [66000, 66002, 65999] ∧
      ReportSound [66000, 66002, 65999] 4
        ((recordAll {} [66000, 66002, 65999]).fill {} 4 1024) :=
  ⟨by decide, fill_sound _ (by decide) _ _ _⟩

/-! ## What a report reaches -/

namespace ZDTAckHistory

/-- The block budget of `fill` runs out before the packet `off` below the
newest: all its blocks are used and they end before that packet. -/
def BudgetSpent (h : ZDTAckHistory) (maxBlocks reportableCap off : Nat) : Prop :=
  RunLength.Spent 255 (historyBit h.bits) (min h.validBits reportableCap)
    (min maxBlocks kZDTMaxAckBlocks) 0 off

instance (h : ZDTAckHistory) (maxBlocks reportableCap off : Nat) :
    Decidable (h.BudgetSpent maxBlocks reportableCap off) :=
  inferInstanceAs (Decidable (RunLength.Spent ..))

/-- A set bit inside `validBits` and the cap is reported, unless the budget runs
out before it. -/
theorem mem_ackWalk_fill {h : ZDTAckHistory} (hany : h.hasAny = true)
    (hvalid : h.validBits ≤ kZDTAckHistoryBits) (header : ZDTHeader)
    {maxBlocks reportableCap off : Nat} (hoff : off < min h.validBits reportableCap)
    (hbit : historyBit h.bits off = true)
    (hbudget : ¬ h.BudgetSpent maxBlocks reportableCap off) :
    (off, true) ∈ ackWalk (h.fill header maxBlocks reportableCap) := by
  have hblocks : maxBlocks ≠ 0 := by
    rintro rfl
    refine hbudget ⟨?_, ?_⟩ <;> simp [RunLength.encodeRuns]
  rw [ackWalk_fill_runs hany hblocks, runs]
  have hlimit : min h.validBits reportableCap ≤ kZDTAckHistoryBits :=
    (Nat.min_le_left ..).trans hvalid
  exact RunLength.mem_decodeRuns_trimRuns (by decide) hlimit (Nat.zero_le _) hoff hbit hbudget

end ZDTAckHistory

/-- **Which arrivals are reported.**  Of the packets that arrived, and that the
cap, the window and the block budget would let a header report, exactly those
not older than the first one recorded are reported: `validBits` counts from that
one, and a late packet from before it sets a bit `fill` never looks at. -/
theorem fill_reports_iff (first : Nat) (rest : List Nat) (hps : NearMax (first :: rest))
    (header : ZDTHeader) (maxBlocks reportableCap p : Nat) (hp : p ∈ first :: rest)
    (hnear : newest (first :: rest) - p < min reportableCap kZDTAckHistoryBits)
    (hbudget : ¬ (recordAll {} (first :: rest)).BudgetSpent maxBlocks reportableCap
      (newest (first :: rest) - p)) :
    (newest (first :: rest) - p, true) ∈
        ackWalk ((recordAll {} (first :: rest)).fill header maxBlocks reportableCap) ↔
      first ≤ p := by
  have ht := recordAll_tracks_of_cons hps
  have hle := ht.seen_le p hp
  have hfirst := ht.first_le
  have hcap : newest (first :: rest) - p < reportableCap := hnear.trans_le (Nat.min_le_left ..)
  have hbits : newest (first :: rest) - p < 1024 := hnear.trans_le (Nat.min_le_right ..)
  constructor
  · intro hmem
    obtain ⟨-, hlt, -⟩ := (ZDTAckHistory.ackWalk_fill_faithful _ header maxBlocks
      reportableCap).mem hmem
    rw [ht.valid] at hlt
    omega
  · intro hge
    refine ZDTAckHistory.mem_ackWalk_fill ht.hasAny ?_ header ?_ ?_ hbudget
    · rw [ht.valid]
      exact Nat.min_le_left ..
    · rw [ht.valid]
      omega
    · rw [ht.bit _ hbits, Nat.sub_sub_self hle]
      exact ⟨Nat.sub_le .., hp⟩

/-- Packet 7, then 9, then 8 late: 8 is reported. -/
theorem fill_reports_reordered :
    NearMax [7, 9, 8] ∧ ¬ (recordAll {} [7, 9, 8]).BudgetSpent 24 1024 1 ∧
      (1, true) ∈ ackWalk ((recordAll {} [7, 9, 8]).fill {} 24 1024) :=
  ⟨by decide, by decide +kernel,
    (fill_reports_iff 7 [9, 8] (by decide) {} 24 1024 8 (by decide) (by decide)
      (by decide +kernel)).2 (by decide)⟩

/-- Packet 2 and then packet 1, late: one block of 24 is used, and packet 1 is
not in it. -/
theorem fill_misses_older_than_first :
    NearMax [2, 1] ∧ 1 ∈ [2, 1] ∧ newest [2, 1] - 1 < min 1024 kZDTAckHistoryBits ∧
      ¬ (recordAll {} [2, 1]).BudgetSpent 24 1024 (newest [2, 1] - 1) ∧
      (newest [2, 1] - 1, true) ∉ ackWalk ((recordAll {} [2, 1]).fill {} 24 1024) := by
  decide +kernel

end Zdt
end Znet
