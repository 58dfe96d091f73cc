import Timpani.Bpf.Callbacks
import Timpani.Cpp.Loop
import Timpani.Cpp.Parse
import Mathlib.Data.Nat.Bitwise

/-!
# The mask of the isolated CPUs

The loader of the BPF program reads the isolated CPUs from cgroup files, as a list of numbers and
ranges separated by commas, and hands them to the scheduler as a mask of 64 bits.  `std::stoi` reads
the numbers: it throws on a token without a number or with one that is no `int`, and it ignores what
follows a number.

* `parseCpuRangeToMask` : the parser;
* `testBit_parseCpuRangeToMask` : the bits of the mask, by what the tokens begin with;
* `parseCpuRangeToMask_exact_iff` : the strings on which it is total and exact.
-/

namespace Timpani

/-- The blanks around a token. -/
def rangeBlanks : Text := text " \t\r\n"

/-- `1ULL << cpu`, for a CPU below 64. -/
def cpuBit (cpu : ℤ) : UInt64 := 1 <<< UInt64.ofNat cpu.toNat

/-- `for (int c = lo; c <= hi && c < 64; c++) mask |= (1ULL << c);` -/
def setRange (mask : UInt64) (lo hi : ℤ) : UInt64 :=
  (List.range (min (hi + 1) 64 - lo).toNat).foldl
    (fun mask (i : ℕ) => mask ||| cpuBit (lo + i)) mask

/-- One iteration of the loop of `parse_cpu_range_to_mask`. -/
def parseToken (mask : UInt64) (piece : Text) : Except ConversionError UInt64 :=
  let token := trim rangeBlanks piece
  if token = [] then .ok mask
  else if 45 ∉ token then do
    let cpu ← stoi token
    return if 0 ≤ cpu ∧ cpu < 64 then mask ||| cpuBit cpu else mask
  else do
    let lo ← stoi (token.takeWhile (· ≠ 45))
    let hi ← stoi ((token.dropWhile (· ≠ 45)).drop 1)
    return setRange mask lo hi

/-- `parse_cpu_range_to_mask` -/
def parseCpuRangeToMask (rangeStr : Text) : Except ConversionError UInt64 :=
  (getlines 44 rangeStr).foldlM parseToken 0

example : parseCpuRangeToMask (text "2-3, 5,,70") = .ok 44 := by decide +kernel

/-! ### Bits -/

section Bits

variable {mask : UInt64} {lo hi : ℤ} {c : ℕ}

theorem toNat_cpuBit {cpu : ℕ} (h : cpu < 64) : (cpuBit cpu).toNat = 2 ^ cpu := by
  have hcpu : (UInt64.ofNat cpu).toNat % 64 = cpu := by
    rw [UInt64.toNat_ofNat_of_lt' (by simp [UInt64.size]; omega), Nat.mod_eq_of_lt h]
  rw [cpuBit, Int.toNat_natCast, UInt64.toNat_shiftLeft, hcpu, UInt64.toNat_one,
    Nat.one_shiftLeft, Nat.mod_eq_of_lt (Nat.pow_lt_pow_right (by decide) h)]

theorem testBit_or_cpuBit {cpu : ℕ} (h : cpu < 64) :
    (mask ||| cpuBit cpu).toNat.testBit c = (mask.toNat.testBit c || decide (cpu = c)) := by
  rw [UInt64.toNat_or, Nat.testBit_or, toNat_cpuBit h, Nat.testBit_two_pow]

theorem testBit_foldl_cpuBit (hlo : 0 ≤ lo) {n : ℕ} (hn : lo + n ≤ 64) :
    ((List.range n).foldl (fun mask (i : ℕ) => mask ||| cpuBit (lo + i)) mask).toNat.testBit c =
      true ↔ mask.toNat.testBit c = true ∨ lo ≤ c ∧ c < lo + n := by
  induction n with
  | zero =>
    have hnone : ¬ (lo ≤ c ∧ c < lo + (0 : ℕ)) := by omega
    simp only [List.range_zero, List.foldl_nil, hnone, or_false]
  | succ n ih =>
    obtain ⟨cpu, hcpu⟩ := Int.eq_ofNat_of_zero_le (a := lo + n) (by omega)
    have hnext : lo ≤ c ∧ c < lo + (n + 1 : ℕ) ↔ (lo ≤ c ∧ c < lo + n) ∨ cpu = c := by omega
    rw [List.range_succ, List.foldl_append, List.foldl_cons, List.foldl_nil, hcpu,
      testBit_or_cpuBit (by omega), Bool.or_eq_true, decide_eq_true_eq, ih (by omega), or_assoc,
      hnext]

theorem testBit_setRange (hlo : 0 ≤ lo) (hc : c < 64) :
    (setRange mask lo hi).toNat.testBit c = true ↔
      mask.toNat.testBit c = true ∨ lo ≤ c ∧ c ≤ hi := by
  unfold setRange
  by_cases hempty : min (hi + 1) 64 ≤ lo
  · have hnone : ¬ (lo ≤ c ∧ c ≤ hi) := by omega
    rw [Int.toNat_of_nonpos (by omega)]
    simp only [List.range_zero, List.foldl_nil, hnone, or_false]
  · rw [testBit_foldl_cpuBit hlo (by omega)]
    exact or_congr_right (by omega)

end Bits

/-! ### Tokens -/

/-- The tokens of a list. -/
def cpuTokens (rangeStr : Text) : List Text :=
  ((getlines 44 rangeStr).map (trim rangeBlanks)).filter (· ≠ [])

/-- The CPUs that a token begins with: a number, or two numbers and the first dash before the
second. -/
def Reads (token : Text) (lo hi : ℤ) : Prop :=
  (45 ∉ token ∧ BeginsWithInt token lo ∧ hi = lo) ∨
    ∃ first second, token = first ++ 45 :: second ∧ 45 ∉ first ∧ BeginsWithInt first lo ∧
      BeginsWithInt second hi

section Tokens

variable {mask mask' : UInt64} {piece token first : Text} {lo hi n : ℤ} {c : ℕ}

theorem BeginsWithInt.nonneg (h : BeginsWithInt token n) (hdash : 45 ∉ token) : 0 ≤ n := by
  obtain ⟨blanks, sign, digits, rest, rfl, -, -, -, -, -, rfl, -⟩ := h
  have hsign : sign ≠ [45] := by
    rintro rfl
    simp at hdash
  rw [if_neg hsign]
  omega

theorem Reads.nonneg (h : Reads token lo hi) : 0 ≤ lo := by
  obtain ⟨hdash, hlo, -⟩ | ⟨first, second, -, hdash, hlo, -⟩ := h
  · exact hlo.nonneg hdash
  · exact hlo.nonneg hdash

theorem takeWhile_dash (h : 45 ∉ first) (second : Text) :
    (first ++ 45 :: second).takeWhile (· ≠ 45) = first ∧
      ((first ++ 45 :: second).dropWhile (· ≠ 45)).drop 1 = second := by
  have hfirst : ∀ b ∈ first, decide (b ≠ 45) = true := fun b hb =>
    decide_eq_true fun hb' => h (hb' ▸ hb)
  rw [List.takeWhile_append_of_pos hfirst, List.dropWhile_append_of_pos hfirst]
  simp

theorem append_dash_inj {first' second second' : Text} (h : 45 ∉ first) (h' : 45 ∉ first')
    (heq : first ++ 45 :: second = first' ++ 45 :: second') :
    first = first' ∧ second = second' := by
  have hsplit := takeWhile_dash h second
  rw [heq, (takeWhile_dash h' _).1, (takeWhile_dash h' _).2] at hsplit
  exact ⟨hsplit.1.symm, hsplit.2.symm⟩

theorem Reads.unique {lo' hi' : ℤ} (h : Reads token lo hi) (h' : Reads token lo' hi') :
    lo = lo' ∧ hi = hi' := by
  obtain ⟨hdash, hlo, rfl⟩ | ⟨first, second, rfl, hdash, hlo, hhi⟩ := h
  · obtain ⟨-, hlo', rfl⟩ | ⟨first', second', rfl, -⟩ := h'
    · exact ⟨hlo.unique hlo', hlo.unique hlo'⟩
    · simp at hdash
  · obtain ⟨hdash', -⟩ | ⟨first', second', hsplit, hdash', hlo', hhi'⟩ := h'
    · simp at hdash'
    · obtain ⟨rfl, rfl⟩ := append_dash_inj hdash hdash' hsplit
      exact ⟨hlo.unique hlo', hhi.unique hhi'⟩

theorem setRange_self (hn : 0 ≤ n) :
    setRange mask n n = if 0 ≤ n ∧ n < 64 then mask ||| cpuBit n else mask := by
  unfold setRange
  by_cases hlt : n < 64
  · have hone : (min (n + 1) 64 - n).toNat = 1 := by omega
    rw [if_pos ⟨hn, hlt⟩, hone]
    simp
  · rw [if_neg fun h => hlt h.2, Int.toNat_of_nonpos (by omega)]
    rfl

theorem parseToken_of_reads (hne : trim rangeBlanks piece ≠ [])
    (h : Reads (trim rangeBlanks piece) lo hi) :
    parseToken mask piece = .ok (setRange mask lo hi) := by
  unfold parseToken
  obtain ⟨hdash, hlo, rfl⟩ | ⟨first, second, hsplit, hdash, hlo, hhi⟩ := h
  · simp only [if_neg hne, if_pos hdash, stoi_eq_ok_iff.2 hlo, setRange_self (hlo.nonneg hdash)]
    rfl
  · have hmem : ¬ 45 ∉ trim rangeBlanks piece := by simp [hsplit]
    simp only [if_neg hne, if_neg hmem]
    rw [hsplit, (takeWhile_dash hdash _).1, (takeWhile_dash hdash _).2, stoi_eq_ok_iff.2 hlo,
      stoi_eq_ok_iff.2 hhi]
    rfl

theorem exists_reads_of_parseToken (hne : trim rangeBlanks piece ≠ [])
    (h : parseToken mask piece = .ok mask') : ∃ lo hi, Reads (trim rangeBlanks piece) lo hi := by
  unfold parseToken at h
  by_cases hdash : 45 ∉ trim rangeBlanks piece
  · simp only [if_neg hne, if_pos hdash] at h
    obtain ⟨cpu, hcpu, -⟩ := bind_eq_ok.1 h
    exact ⟨cpu, cpu, .inl ⟨hdash, stoi_eq_ok_iff.1 hcpu, rfl⟩⟩
  · simp only [if_neg hne, if_neg hdash] at h
    obtain ⟨lo, hlo, h⟩ := bind_eq_ok.1 h
    obtain ⟨hi, hhi, -⟩ := bind_eq_ok.1 h
    obtain ⟨first, second, hsplit, hfirst⟩ :=
      List.eq_append_cons_of_mem (not_not.1 hdash)
    rw [hsplit, (takeWhile_dash hfirst _).1] at hlo
    rw [hsplit, (takeWhile_dash hfirst _).2] at hhi
    exact ⟨lo, hi, .inr ⟨first, second, hsplit, hfirst, stoi_eq_ok_iff.1 hlo,
      stoi_eq_ok_iff.1 hhi⟩⟩

theorem parseToken_of_blank (hblank : trim rangeBlanks piece = []) :
    parseToken mask piece = .ok mask := by
  simp [parseToken, hblank]

end Tokens

/-! ### The mask -/

section Mask

variable {mask : UInt64} {rangeStr : Text}

/-- **The bits of the mask** after some pieces. -/
theorem testBit_foldlM_parseToken {pieces : List Text} {mask mask' : UInt64}
    (h : pieces.foldlM parseToken mask = .ok mask') {c : ℕ} (hc : c < 64) :
    mask'.toNat.testBit c = true ↔ mask.toNat.testBit c = true ∨
      ∃ piece ∈ pieces, trim rangeBlanks piece ≠ [] ∧
        ∃ lo hi, Reads (trim rangeBlanks piece) lo hi ∧ lo ≤ c ∧ c ≤ hi := by
  induction pieces generalizing mask with
  | nil =>
    cases h
    simp
  | cons piece pieces ih =>
    obtain ⟨next, hpiece, hrest⟩ := foldlM_cons_eq_ok.1 h
    rw [ih hrest, List.exists_mem_cons_iff]
    by_cases hblank : trim rangeBlanks piece = []
    · rw [parseToken_of_blank hblank] at hpiece
      obtain rfl := Except.ok.inj hpiece
      simp [hblank]
    · obtain ⟨lo, hi, hreads⟩ := exists_reads_of_parseToken hblank hpiece
      rw [parseToken_of_reads hblank hreads] at hpiece
      obtain rfl := Except.ok.inj hpiece
      have hsame : (∃ lo hi, Reads (trim rangeBlanks piece) lo hi ∧ lo ≤ c ∧ c ≤ hi) ↔
          lo ≤ c ∧ c ≤ hi := by
        refine ⟨?_, fun h => ⟨lo, hi, hreads, h⟩⟩
        rintro ⟨lo', hi', hreads', hc'⟩
        obtain ⟨rfl, rfl⟩ := hreads.unique hreads'
        exact hc'
      rw [testBit_setRange hreads.nonneg hc, hsame, or_assoc]
      simp [hblank]

theorem mem_cpuTokens {token : Text} : token ∈ cpuTokens rangeStr ↔
    ∃ piece ∈ getlines 44 rangeStr, trim rangeBlanks piece ≠ [] ∧
      trim rangeBlanks piece = token := by
  simp only [cpuTokens, List.mem_filter, List.mem_map, decide_eq_true_eq]
  constructor
  · rintro ⟨⟨piece, hpiece, rfl⟩, hne⟩
    exact ⟨piece, hpiece, hne, rfl⟩
  · rintro ⟨piece, hpiece, hne, rfl⟩
    exact ⟨⟨piece, hpiece, rfl⟩, hne⟩

theorem exists_parseCpuRangeToMask_iff (rangeStr : Text) :
    (∃ mask, parseCpuRangeToMask rangeStr = .ok mask) ↔
      ∀ token ∈ cpuTokens rangeStr, ∃ lo hi, Reads token lo hi := by
  constructor
  · rintro ⟨mask, hmask⟩ token htoken
    obtain ⟨piece, hpiece, hne, rfl⟩ := mem_cpuTokens.1 htoken
    obtain ⟨before, after, hsplit⟩ := List.append_of_mem hpiece
    rw [parseCpuRangeToMask, hsplit, List.foldlM_append, bind_eq_ok] at hmask
    obtain ⟨acc, -, hmask⟩ := hmask
    obtain ⟨acc', hpiece, -⟩ := foldlM_cons_eq_ok.1 hmask
    exact exists_reads_of_parseToken hne hpiece
  · intro h
    refine exists_foldlM_eq_ok_iff.2 fun before piece after acc hsplit _ => ?_
    by_cases hblank : trim rangeBlanks piece = []
    · exact ⟨acc, parseToken_of_blank hblank⟩
    · obtain ⟨lo, hi, hreads⟩ := h (trim rangeBlanks piece)
        (mem_cpuTokens.2 ⟨piece, by simp [hsplit], hblank, rfl⟩)
      exact ⟨_, parseToken_of_reads hblank hreads⟩

/-- The bits of the mask, by what the tokens begin with. -/
theorem testBit_parseCpuRangeToMask (h : parseCpuRangeToMask rangeStr = .ok mask) {c : ℕ}
    (hc : c < 64) : mask.toNat.testBit c = true ↔
      ∃ token ∈ cpuTokens rangeStr, ∃ lo hi, Reads token lo hi ∧ lo ≤ c ∧ c ≤ hi := by
  rw [testBit_foldlM_parseToken h hc]
  simp only [UInt64.toNat_zero, Nat.zero_testBit, Bool.false_eq_true, false_or]
  constructor
  · rintro ⟨piece, hpiece, hne, hreads⟩
    exact ⟨_, mem_cpuTokens.2 ⟨piece, hpiece, hne, rfl⟩, hreads⟩
  · rintro ⟨token, htoken, hreads⟩
    obtain ⟨piece, hpiece, hne, rfl⟩ := mem_cpuTokens.1 htoken
    exact ⟨piece, hpiece, hne, hreads⟩

theorem mask_eq_zero_iff (h : parseCpuRangeToMask rangeStr = .ok mask) : mask = 0 ↔
    ∀ token ∈ cpuTokens rangeStr, ∀ lo hi, Reads token lo hi → hi < lo ∨ 64 ≤ lo := by
  constructor
  · rintro rfl token htoken lo hi hreads
    by_contra! hlow
    obtain ⟨c, rfl⟩ := Int.eq_ofNat_of_zero_le hreads.nonneg
    have hbit := (testBit_parseCpuRangeToMask h (c := c) (by omega)).2
      ⟨token, htoken, c, hi, hreads, le_rfl, hlow.1⟩
    simp at hbit
  · intro hnone
    rw [← UInt64.toNat_inj]
    refine Nat.zero_of_testBit_eq_false fun c => ?_
    by_cases hc : c < 64
    · rw [Bool.eq_false_iff, ne_eq, testBit_parseCpuRangeToMask h hc]
      rintro ⟨token, htoken, lo, hi, hreads, hlo, hhi⟩
      have := hnone token htoken lo hi hreads
      omega
    · refine Nat.testBit_lt_two_pow (lt_of_lt_of_le mask.toNat_lt ?_)
      exact Nat.pow_le_pow_right (by decide) (by omega)

end Mask

/-! ### Well-formed lists -/

/-- A decimal number. -/
def IsDecimal (s : Text) : Prop := s ≠ [] ∧ ∀ b ∈ s, isDigit b = true

/-- A decimal number, or two with a dash between them. -/
def WellFormed (token : Text) : Prop :=
  IsDecimal token ∨ ∃ first second, token = first ++ 45 :: second ∧ IsDecimal first ∧
    IsDecimal second

/-- A token lists a CPU, as a single one or in a range. -/
def Lists (token : Text) (c : ℕ) : Prop :=
  (IsDecimal token ∧ decimalValue token = c) ∨
    ∃ first second, token = first ++ 45 :: second ∧ IsDecimal first ∧ IsDecimal second ∧
      decimalValue first ≤ c ∧ c ≤ decimalValue second

section WellFormed

variable {token : Text} {lo hi n : ℤ} {c : ℕ}

theorem IsDecimal.dash_notMem (h : IsDecimal token) : 45 ∉ token := fun hmem =>
  absurd (h.2 45 hmem) (by decide)

theorem IsDecimal.eq_of_beginsWithInt (h : IsDecimal token) (hn : BeginsWithInt token n) :
    n = decimalValue token := by
  have hstoi := stoi_eq_ok_iff.2 hn
  rw [stoi_digits h.1 h.2] at hstoi
  split_ifs at hstoi
  exact (Except.ok.inj hstoi).symm

theorem WellFormed.lists_iff (h : WellFormed token) (hreads : Reads token lo hi) :
    Lists token c ↔ lo ≤ c ∧ c ≤ hi := by
  obtain hdecimal | ⟨first, second, rfl, hfirst, hsecond⟩ := h
  · obtain ⟨hdash, hlo, rfl⟩ | ⟨first, second, rfl, -⟩ := hreads
    · obtain rfl := hdecimal.eq_of_beginsWithInt hlo
      have hrange : ∀ first second, token ≠ first ++ 45 :: second := by
        rintro first second rfl
        simp at hdash
      simp only [Lists, hdecimal, hrange, true_and, false_and, exists_false, or_false]
      omega
    · exact absurd hdecimal.dash_notMem (by simp)
  · obtain ⟨hdash, -⟩ | ⟨first', second', hsplit, hdash, hlo, hhi⟩ := hreads
    · simp at hdash
    obtain ⟨rfl, rfl⟩ := append_dash_inj hfirst.dash_notMem hdash hsplit
    obtain rfl := hfirst.eq_of_beginsWithInt hlo
    obtain rfl := hsecond.eq_of_beginsWithInt hhi
    constructor
    · rintro (⟨hdecimal, -⟩ | ⟨first', second', hsplit, hfirst', -, hc⟩)
      · exact absurd hdecimal.dash_notMem (by simp)
      · obtain ⟨rfl, rfl⟩ := append_dash_inj hfirst.dash_notMem hfirst'.dash_notMem hsplit
        exact_mod_cast hc
    · intro hc
      exact .inr ⟨first, second, rfl, hfirst, hsecond, by exact_mod_cast hc⟩

end WellFormed

theorem testBit_of_wellFormed {mask : UInt64} {rangeStr : Text} {c : ℕ}
    (h : parseCpuRangeToMask rangeStr = .ok mask)
    (hformed : ∀ token ∈ cpuTokens rangeStr, WellFormed token) (hc : c < 64) :
    mask.toNat.testBit c = true ↔ ∃ token ∈ cpuTokens rangeStr, Lists token c := by
  have hread := (exists_parseCpuRangeToMask_iff rangeStr).1 ⟨mask, h⟩
  rw [testBit_parseCpuRangeToMask h hc]
  constructor
  · rintro ⟨token, htoken, lo, hi, hreads, hrange⟩
    exact ⟨token, htoken, ((hformed token htoken).lists_iff hreads).2 hrange⟩
  · rintro ⟨token, htoken, hlists⟩
    obtain ⟨lo, hi, hreads⟩ := hread token htoken
    exact ⟨token, htoken, lo, hi, hreads, ((hformed token htoken).lists_iff hreads).1 hlists⟩

/-- **The strings on which the parser is total and exact**: every token begins with numbers of type
`int`, and the tokens are well formed, or else none of them begins with a CPU below 64. -/
theorem parseCpuRangeToMask_exact_iff (rangeStr : Text) :
    (∃ mask, parseCpuRangeToMask rangeStr = .ok mask ∧
      (rangeStr = [] ∨ (∃ token ∈ cpuTokens rangeStr, ¬ WellFormed token) → mask = 0) ∧
      (rangeStr ≠ [] → (∀ token ∈ cpuTokens rangeStr, WellFormed token) → ∀ c < 64,
        (mask.toNat.testBit c = true ↔ ∃ token ∈ cpuTokens rangeStr, Lists token c))) ↔
    (∀ token ∈ cpuTokens rangeStr, ∃ lo hi, Reads token lo hi) ∧
      ((∀ token ∈ cpuTokens rangeStr, WellFormed token) ∨
        ∀ token ∈ cpuTokens rangeStr, ∀ lo hi, Reads token lo hi → hi < lo ∨ 64 ≤ lo) := by
  constructor
  · rintro ⟨mask, hmask, hzero, -⟩
    refine ⟨(exists_parseCpuRangeToMask_iff rangeStr).1 ⟨mask, hmask⟩, ?_⟩
    by_cases hformed : ∀ token ∈ cpuTokens rangeStr, WellFormed token
    · exact .inl hformed
    · push Not at hformed
      exact .inr ((mask_eq_zero_iff hmask).1 (hzero (.inr hformed)))
  · rintro ⟨hread, hformed⟩
    obtain ⟨mask, hmask⟩ := (exists_parseCpuRangeToMask_iff rangeStr).2 hread
    refine ⟨mask, hmask, ?_, fun _ hformed c hc => testBit_of_wellFormed hmask hformed hc⟩
    rintro (rfl | ⟨token, htoken, hnot⟩)
    · exact (Except.ok.inj hmask).symm
    · obtain hformed | hnone := hformed
      · exact absurd (hformed token htoken) hnot
      · exact (mask_eq_zero_iff hmask).2 hnone

/-- **The parser is neither total nor exact.**  It throws on a token without a number and on one
that is no `int`, and it takes the number a token begins with. -/
theorem parseCpuRangeToMask_inexact :
    parseCpuRangeToMask (text "abc") = .error .invalidArgument ∧
    parseCpuRangeToMask (text "0,4294967296") = .error .outOfRange ∧
    parseCpuRangeToMask (text "3x") = .ok 8 ∧
    ∃ token ∈ cpuTokens (text "3x"), ¬ WellFormed token := by
  refine ⟨by decide, by decide, by decide +kernel, text "3x", by decide, ?_⟩
  rintro (⟨-, hdigits⟩ | ⟨first, second, hsplit, -⟩)
  · exact absurd (hdigits 120 (by decide)) (by decide)
  · have hdash : 45 ∈ text "3x" := hsplit ▸ by simp
    exact absurd hdash (by decide)

end Timpani
