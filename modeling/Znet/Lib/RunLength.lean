import Mathlib

/-!
# Capped run-length coding of a predicate on an initial segment

A Boolean predicate on the positions `0, 1, …, limit - 1` is written as a list
of blocks `(yes, no)`: a run of positions where the predicate holds, followed by
the run where it does not.  A run is cut at `cap`, so a long run of `no`s goes
on in a block with no `yes`es, and the number of blocks is bounded by a budget,
so the code may stop before `limit`.

* `decodeRuns_encodeRuns` — **the code is sound**: what the reader sees is an
  initial segment of the positions, each with the predicate's own verdict.
* `mem_decodeRuns_trimRuns` — **the code is complete**: a position below the
  limit where the predicate holds is seen, unless the budget is spent before it.
-/

namespace RunLength

/-! ## The encoder -/

/-- How many consecutive positions from `b` on, below `limit`, satisfy `p`;
`room` is how many the run may still take. -/
def takeRun (p : Nat → Bool) (limit : Nat) : Nat → Nat → Nat
  | 0, _ => 0
  | room + 1, b => if b < limit ∧ p b = true then takeRun p limit room (b + 1) + 1 else 0

/-- The blocks for the positions from `b` on, at most `budget` of them. -/
def encodeRuns (cap : Nat) (p : Nat → Bool) (limit : Nat) : Nat → Nat → List (Nat × Nat)
  | 0, _ => []
  | budget + 1, b =>
    if b < limit then
      let yes := takeRun p limit cap b
      let no := takeRun (fun i => !p i) limit cap (b + yes)
      if yes = 0 ∧ no = 0 then []
      else (yes, no) :: encodeRuns cap p limit budget (b + yes + no)
    else []

/-- Drop the trailing blocks that hold no `yes`. -/
def trimRuns (runs : List (Nat × Nat)) : List (Nat × Nat) :=
  (runs.reverse.dropWhile fun r => r.1 = 0).reverse

/-! ## The reader -/

/-- The positions a reader walks over, starting at `b`, with their verdicts.
The reader gives up at the first block that would start at `bound` or later. -/
def decodeRuns (bound : Nat) : List (Nat × Nat) → Nat → List (Nat × Bool)
  | [], _ => []
  | (yes, no) :: rest, b =>
    if b < bound then
      (List.range' b yes).map (fun i => (i, true)) ++
        (List.range' (b + yes) no).map (fun i => (i, false)) ++
        decodeRuns bound rest (b + yes + no)
    else []

@[simp] theorem decodeRuns_nil (bound b : Nat) : decodeRuns bound [] b = [] := rfl

/-- Fewer blocks, fewer positions: the reader of an initial part of a code sees
an initial part of what the reader of the whole sees. -/
theorem decodeRuns_isPrefix (bound : Nat) {l₁ l₂ : List (Nat × Nat)} (h : l₁ <+: l₂) (b : Nat) :
    decodeRuns bound l₁ b <+: decodeRuns bound l₂ b := by
  induction l₁ generalizing l₂ b with
  | nil => exact List.nil_prefix
  | cons r rest ih =>
    obtain ⟨yes, no⟩ := r
    obtain ⟨rest', rfl, hrest⟩ := List.cons_prefix_iff.1 h
    rw [decodeRuns, decodeRuns]
    split
    · exact (List.prefix_append_right_inj _).2 (ih hrest _)
    · exact List.prefix_rfl

variable {bound b limit i cap budget : Nat} {p : Nat → Bool} {seen : List (Nat × Bool)}

theorem decodeRuns_cons (hb : b < bound) (yes no : Nat) (rest : List (Nat × Nat)) :
    decodeRuns bound ((yes, no) :: rest) b =
      (List.range' b yes).map (fun i => (i, true)) ++
        ((List.range' (b + yes) no).map (fun i => (i, false)) ++
          decodeRuns bound rest (b + yes + no)) := by
  rw [decodeRuns, if_pos hb, List.append_assoc]

/-- The positions the reader walks over are consecutive. -/
theorem map_fst_decodeRuns (bound : Nat) (runs : List (Nat × Nat)) (b : Nat) :
    (decodeRuns bound runs b).map Prod.fst = List.range' b (decodeRuns bound runs b).length := by
  induction runs generalizing b with
  | nil => rfl
  | cons r rest ih =>
    obtain ⟨yes, no⟩ := r
    rw [decodeRuns]
    split
    · simp only [List.map_append, List.map_map, Function.comp_def, List.map_id', ih,
        List.length_append, List.length_map, List.length_range']
      rw [List.range'_append_1, Nat.add_assoc b yes no, List.range'_append_1]
    · rfl

/-- Blocks of at most `most` positions on either side take the reader at most one block past
the bound. -/
theorem length_decodeRuns_le (bound most : Nat) (runs : List (Nat × Nat))
    (h : ∀ r ∈ runs, r.1 ≤ most ∧ r.2 ≤ most) (b : Nat) :
    b + (decodeRuns bound runs b).length ≤ max b (bound + 2 * most) := by
  induction runs generalizing b with
  | nil => exact le_max_left b _
  | cons r rest ih =>
    obtain ⟨yes, no⟩ := r
    obtain ⟨hyes, hno⟩ := h (yes, no) List.mem_cons_self
    have hrest := ih (fun r hr => h r (List.mem_cons_of_mem _ hr)) (b + yes + no)
    rw [decodeRuns]
    split
    · simp only [List.length_append, List.length_map, List.length_range']
      omega
    · exact le_max_left b _

/-- What an initial part of a reading says is said by a code no longer, with no longer runs. -/
theorem exists_decodeRuns_eq_take (bound : Nat) (runs : List (Nat × Nat)) (n b : Nat) :
    ∃ runs', decodeRuns bound runs' b = (decodeRuns bound runs b).take n ∧
      runs'.length ≤ runs.length ∧
      ∀ r ∈ runs', ∃ r₀ ∈ runs, r.1 ≤ r₀.1 ∧ r.2 ≤ r₀.2 := by
  induction runs generalizing n b with
  | nil => exact ⟨[], by simp, le_rfl, by simp⟩
  | cons r rest ih =>
    obtain ⟨yes, no⟩ := r
    by_cases hb : b < bound
    · have hlen : ((List.range' b yes).map fun i => (i, true)).length = yes := by simp
      by_cases hyes : n ≤ yes
      · refine ⟨[(n, 0)], ?_, by simp, by simpa using .inl hyes⟩
        rw [decodeRuns_cons hb, decodeRuns_cons hb, List.take_append_of_le_length (by omega),
          ← List.map_take, List.take_range'_of_length_ge hyes]
        simp
      · by_cases hno : n ≤ yes + no
        · refine ⟨[(yes, n - yes)], ?_, by simp, ?_⟩
          · rw [decodeRuns_cons hb, decodeRuns_cons hb, List.take_append,
              List.take_of_length_le (by omega), hlen,
              List.take_append_of_le_length (by simp; omega), ← List.map_take,
              List.take_range'_of_length_ge (by omega)]
            simp
          · intro r hr
            obtain rfl : r = (yes, n - yes) := by simpa using hr
            exact ⟨(yes, no), List.mem_cons_self, le_rfl, by simp only; omega⟩
        · obtain ⟨runs', heq, hlen', hle⟩ := ih (n - (yes + no)) (b + yes + no)
          refine ⟨(yes, no) :: runs', ?_, by simpa using hlen', ?_⟩
          · have hlen₂ : ((List.range' (b + yes) no).map fun i => (i, false)).length = no := by simp
            have hall := List.take_of_length_le (hlen.le.trans (show yes ≤ n by omega))
            have hall₂ := List.take_of_length_le (hlen₂.le.trans (show no ≤ n - yes by omega))
            rw [decodeRuns_cons hb, decodeRuns_cons hb, heq, List.take_append, hall, hlen,
              List.take_append, hall₂, hlen₂, Nat.sub_sub]
          · intro r hr
            rcases List.mem_cons.1 hr with rfl | hr
            · exact ⟨_, List.mem_cons_self, le_rfl, le_rfl⟩
            · obtain ⟨r₀, hr₀, hle'⟩ := hle r hr
              exact ⟨r₀, List.mem_cons_of_mem _ hr₀, hle'⟩
    · exact ⟨[], by simp [decodeRuns, hb], by simp, by simp⟩

/-! ## Runs tell the truth -/

theorem takeRun_le_room (p : Nat → Bool) (limit room b : Nat) :
    takeRun p limit room b ≤ room := by
  induction room generalizing b with
  | zero => simp [takeRun]
  | succ room ih =>
    rw [takeRun]
    split
    · exact Nat.succ_le_succ (ih (b + 1))
    · omega

/-- Every position a run covers is below the limit and satisfies the predicate. -/
theorem takeRun_sound (p : Nat → Bool) (limit room b : Nat) :
    ∀ i, b ≤ i → i < b + takeRun p limit room b → i < limit ∧ p i = true := by
  induction room generalizing b with
  | zero => intro i h₁ h₂; simp [takeRun] at h₂; omega
  | succ room ih =>
    intro i h₁ h₂
    rw [takeRun] at h₂
    split at h₂
    · rename_i hb
      by_cases hib : i = b
      · rw [hib]; exact hb
      · exact ih (b + 1) i (by omega) (by omega)
    · omega

/-- A run that has room takes the position it starts at. -/
theorem takeRun_pos {room : Nat} (hroom : 0 < room) (hb : b < limit) (hp : p b = true) :
    0 < takeRun p limit room b := by
  obtain ⟨room, rfl⟩ := Nat.exists_eq_succ_of_ne_zero hroom.ne'
  rw [takeRun, if_pos ⟨hb, hp⟩]
  exact Nat.succ_pos _

/-! ## What the reader sees -/

/-- What a reader who starts at `b` sees is faithful when it is the predicate,
read off consecutive positions below the limit. -/
def Faithful (p : Nat → Bool) (limit b : Nat) (seen : List (Nat × Bool)) : Prop :=
  ∃ n, (n = 0 ∨ b + n ≤ limit) ∧ seen = (List.range' b n).map fun i => (i, p i)

theorem Faithful.nil (p : Nat → Bool) (limit b : Nat) : Faithful p limit b [] :=
  ⟨0, Or.inl rfl, by simp⟩

theorem Faithful.of_isPrefix {seen' : List (Nat × Bool)} (h : Faithful p limit b seen)
    (hpre : seen' <+: seen) : Faithful p limit b seen' := by
  obtain ⟨rest, rfl⟩ := hpre
  obtain ⟨n, hn, hdec⟩ := h
  obtain ⟨l₁, l₂, hsplit, h₁, -⟩ := List.append_eq_map_iff.1 hdec
  obtain ⟨k, hk, rfl, -⟩ := List.range'_eq_append_iff.1 hsplit
  refine ⟨k, ?_, h₁.symm⟩
  rcases hn with rfl | hn <;> omega

/-- The positions of a faithful reading are consecutive. -/
theorem Faithful.positions (h : Faithful p limit b seen) :
    seen.map Prod.fst = List.range' b seen.length := by
  obtain ⟨n, -, rfl⟩ := h
  simp [Function.comp_def]

/-- A faithful reading gives every position it covers its true verdict. -/
theorem Faithful.mem (h : Faithful p limit b seen) {v : Bool} (hi : (i, v) ∈ seen) :
    b ≤ i ∧ i < limit ∧ v = p i := by
  obtain ⟨n, hn, rfl⟩ := h
  obtain ⟨j, hj, hji⟩ := List.mem_map.1 hi
  rw [List.mem_range'_1] at hj
  cases hji
  exact ⟨hj.1, by omega, rfl⟩

/-- **The code is sound.**  Whatever the cap on a run, the budget of blocks and
the reader's bound, the reader sees consecutive positions with the predicate's
own verdict. -/
theorem decodeRuns_encodeRuns (bound cap : Nat) (p : Nat → Bool) (limit budget b : Nat) :
    Faithful p limit b (decodeRuns bound (encodeRuns cap p limit budget b) b) := by
  induction budget generalizing b with
  | zero => exact .nil p limit b
  | succ budget ih =>
    rw [encodeRuns]
    by_cases hb : b < limit
    · rw [if_pos hb]
      set yes := takeRun p limit cap b with hyes
      set no := takeRun (fun i => !p i) limit cap (b + yes) with hno
      by_cases hstop : yes = 0 ∧ no = 0
      · rw [if_pos hstop]
        exact .nil p limit b
      · rw [if_neg hstop, decodeRuns]
        split
        · obtain ⟨n, hn, hdec⟩ := ih (b + yes + no)
          have hY := takeRun_sound p limit cap b
          have hN := takeRun_sound (fun i => !p i) limit cap (b + yes)
          -- the three segments lie end to end and stay below the limit
          have hlim : b + (yes + no + n) ≤ limit := by
            rcases hn with rfl | hn
            · by_cases h0 : no = 0
              · have := hY (b + yes - 1) (by omega) (by omega)
                omega
              · have := hN (b + yes + no - 1) (by omega) (by omega)
                omega
            · omega
          refine ⟨yes + no + n, Or.inr hlim, ?_⟩
          have hY' : (List.range' b yes).map (fun i => (i, true))
              = (List.range' b yes).map fun i => (i, p i) := by
            refine List.map_congr_left ?_
            intro i hi
            rw [List.mem_range'_1] at hi
            rw [(hY i hi.1 hi.2).2]
          have hN' : (List.range' (b + yes) no).map (fun i => (i, false))
              = (List.range' (b + yes) no).map fun i => (i, p i) := by
            refine List.map_congr_left ?_
            intro i hi
            rw [List.mem_range'_1] at hi
            have := (hN i hi.1 hi.2).2
            simp only [Bool.not_eq_true'] at this
            rw [this]
          rw [hY', hN', hdec, ← List.map_append, ← List.map_append,
            List.range'_append_1, show b + yes + no = b + (yes + no) by omega,
            List.range'_append_1]
        · exact .nil p limit b
    · rw [if_neg hb]
      exact .nil p limit b

theorem length_encodeRuns_le (cap : Nat) (p : Nat → Bool) (limit budget b : Nat) :
    (encodeRuns cap p limit budget b).length ≤ budget := by
  induction budget generalizing b with
  | zero => simp [encodeRuns]
  | succ budget ih =>
    rw [encodeRuns]
    simp only
    split
    · split
      · simp
      · simpa using ih _
    · simp

/-- No run of a code is longer than the cap. -/
theorem mem_encodeRuns_le (cap : Nat) (p : Nat → Bool) (limit budget b : Nat) :
    ∀ r ∈ encodeRuns cap p limit budget b, r.1 ≤ cap ∧ r.2 ≤ cap := by
  induction budget generalizing b with
  | zero => simp [encodeRuns]
  | succ budget ih =>
    intro r hr
    rw [encodeRuns] at hr
    simp only at hr
    split at hr
    · split at hr
      · simp at hr
      · rcases List.mem_cons.1 hr with rfl | hr
        · exact ⟨takeRun_le_room .., takeRun_le_room ..⟩
        · exact ih _ r hr
    · simp at hr

/-! ## Trimming -/

variable (r : Nat × Nat) (runs : List (Nat × Nat))

theorem trimRuns_isPrefix : trimRuns runs <+: runs := by
  rw [trimRuns, ← List.reverse_suffix, List.reverse_reverse]
  exact List.dropWhile_suffix _

/-- The reader of a trimmed code still sees the truth. -/
theorem decodeRuns_trimRuns (bound cap : Nat) (p : Nat → Bool) (limit budget b : Nat) :
    Faithful p limit b (decodeRuns bound (trimRuns (encodeRuns cap p limit budget b)) b) :=
  (decodeRuns_encodeRuns bound cap p limit budget b).of_isPrefix
    (decodeRuns_isPrefix bound (trimRuns_isPrefix _) b)

/-- A block with a `yes` is never trimmed away. -/
theorem trimRuns_cons {r : Nat × Nat} (hr : r.1 ≠ 0) (runs : List (Nat × Nat)) :
    trimRuns (r :: runs) = r :: trimRuns runs := by
  unfold trimRuns
  rw [List.reverse_cons, List.dropWhile_append]
  split
  · next hempty => simp [List.isEmpty_iff.1 hempty, hr]
  · simp

/-- Nor is any block in front of one that stays. -/
theorem trimRuns_cons_of_ne_nil {runs : List (Nat × Nat)}
    (hruns : trimRuns runs ≠ []) : trimRuns (r :: runs) = r :: trimRuns runs := by
  unfold trimRuns at hruns ⊢
  rw [List.reverse_cons, List.dropWhile_append]
  split
  · next hempty => exact absurd (by rw [List.isEmpty_iff.1 hempty, List.reverse_nil]) hruns
  · simp

/-- A reader sees the first position if the predicate holds there. -/
theorem decodeRuns_trimRuns_head (hbound : b < bound) (hcap : 0 < cap) (hlimit : b < limit)
    (hbudget : 0 < budget) (hp : p b = true) :
    ∃ rest, decodeRuns bound (trimRuns (encodeRuns cap p limit budget b)) b =
      (b, true) :: rest := by
  obtain ⟨budget, rfl⟩ := Nat.exists_eq_succ_of_ne_zero hbudget.ne'
  obtain ⟨cap, rfl⟩ := Nat.exists_eq_succ_of_ne_zero hcap.ne'
  have hyes : takeRun p limit (cap + 1) b = takeRun p limit cap (b + 1) + 1 := by
    rw [takeRun, if_pos ⟨hlimit, hp⟩]
  unfold encodeRuns
  rw [if_pos hlimit, hyes, if_neg (by omega), trimRuns_cons (by simp), decodeRuns_cons hbound,
    List.range'_succ, List.map_cons, List.cons_append]
  exact ⟨_, rfl⟩

/-! ## Reaching a position -/

/-- How many positions the blocks of a code cover. -/
def span (runs : List (Nat × Nat)) : Nat := (runs.map fun r => r.1 + r.2).sum

@[simp] theorem span_nil : span [] = 0 := rfl

@[simp] theorem span_cons : span (r :: runs) = r.1 + r.2 + span runs := by
  simp [span]

/-- The code from `b` on spends its whole budget on blocks that end at or before
the position `i`. -/
def Spent (cap : Nat) (p : Nat → Bool) (limit budget b i : Nat) : Prop :=
  (encodeRuns cap p limit budget b).length = budget ∧
    b + span (encodeRuns cap p limit budget b) ≤ i

instance (cap : Nat) (p : Nat → Bool) (limit budget b i : Nat) :
    Decidable (Spent cap p limit budget b i) :=
  inferInstanceAs (Decidable (_ ∧ _))

/-- **The code is complete.**  A reader sees every position below the limit at
which the predicate holds, unless the budget is spent before it. -/
theorem mem_decodeRuns_trimRuns (hcap : 0 < cap) (hbound : limit ≤ bound) (hb : b ≤ i)
    (hi : i < limit) (hp : p i = true) (hspent : ¬ Spent cap p limit budget b i) :
    (i, true) ∈ decodeRuns bound (trimRuns (encodeRuns cap p limit budget b)) b := by
  induction budget generalizing b with
  | zero => exact absurd ⟨rfl, by simpa [encodeRuns] using hb⟩ hspent
  | succ budget ih =>
    have hblim : b < limit := by omega
    have hN := takeRun_sound (fun i => !p i) limit cap (b + takeRun p limit cap b)
    -- one of the two runs moves: they look at the same position first
    have hmove : ¬ (takeRun p limit cap b = 0 ∧
        takeRun (fun i => !p i) limit cap (b + takeRun p limit cap b) = 0) := by
      rintro ⟨hyes, hno⟩
      rw [hyes, Nat.add_zero] at hno
      cases hpb : p b with
      | true => exact (takeRun_pos hcap hblim hpb).ne' hyes
      | false =>
        exact (takeRun_pos (p := fun i => !p i) hcap hblim (by simp [hpb])).ne' hno
    have hcode : encodeRuns cap p limit (budget + 1) b =
        (takeRun p limit cap b, takeRun (fun i => !p i) limit cap (b + takeRun p limit cap b)) ::
          encodeRuns cap p limit budget (b + takeRun p limit cap b +
            takeRun (fun i => !p i) limit cap (b + takeRun p limit cap b)) := by
      rw [encodeRuns]
      rw [if_pos hblim, if_neg hmove]
    rw [Spent, hcode] at hspent
    rw [hcode]
    set yes := takeRun p limit cap b
    set no := takeRun (fun i => !p i) limit cap (b + yes)
    by_cases hin : i < b + yes
    · rw [trimRuns_cons (by simp only; omega), decodeRuns_cons (by omega)]
      refine List.mem_append_left _ (List.mem_map.2 ⟨i, ?_, rfl⟩)
      exact List.mem_range'_1.2 ⟨hb, hin⟩
    · have hpast : b + yes + no ≤ i := by
        by_contra hlt
        have := (hN i (by omega) (by omega)).2
        simp [hp] at this
      have hmem := ih hpast fun hs => hspent
        ⟨by simpa using hs.1, by simpa [Nat.add_assoc] using hs.2⟩
      have hne : trimRuns (encodeRuns cap p limit budget (b + yes + no)) ≠ [] := by
        intro hnil
        rw [hnil] at hmem
        simp at hmem
      rw [trimRuns_cons_of_ne_nil _ hne, decodeRuns_cons (by omega)]
      exact List.mem_append_right _ (List.mem_append_right _ hmem)

end RunLength
