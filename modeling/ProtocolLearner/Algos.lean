import ProtocolLearner.Lib.RunLengths
import ProtocolLearner.Scalar
/-!
# Packet analysis

The analysis algorithms of `include/Algos` and the `PacketAnalyser` that runs
one. An algorithm object keeps what it has decoded: `mAnalyse` appends, nothing
clears, and `mGetAnalysis` reports on all of it.

Both analyses count in `T`. `counts` counts in `Nat`, and the analysis is its
image (`mGetAnalysis_eq`), so as long as the counts stay below 2^24 the
analysis tells how many bytes were decoded (`length_of_analysis`). The runs are
the reduced run lengths of what was decoded (`runs_reduced`).
-/

namespace ProtocolLearner

open RunLengths

/-- `eCharType` without the `NUMTYPES` that ends it. -/
inductive eCharType where
  | CHAR
  | WHITESPACE
  | NUMERAL
  | PUNCTUATION
  | CONTROL
  deriving DecidableEq, Repr

def NUMTYPES : Nat := 5

/-- The enumerator's value. -/
def eCharType.toNat : eCharType → Nat
  | CHAR => 0
  | WHITESPACE => 1
  | NUMERAL => 2
  | PUNCTUATION => 3
  | CONTROL => 4

theorem eCharType.toNat_lt (c : eCharType) : c.toNat < NUMTYPES := by cases c <;> decide

def mClassify (aChar : UInt8) : eCharType :=
  if aChar < 32 then .CONTROL
  else if aChar < 33 then .WHITESPACE
  else if aChar < 48 then .PUNCTUATION
  else if aChar < 58 then .NUMERAL
  else if aChar < 65 then .PUNCTUATION
  else if aChar < 91 then .CHAR
  else if aChar < 97 then .PUNCTUATION
  else if aChar < 123 then .CHAR
  else if aChar < 127 then .PUNCTUATION
  else .CONTROL

/-! ## Counting, over any kind of number -/

section Counting
variable {N : Type}

/-- The counting loop of `CharDistributionAlgo::mGetAnalysis`. -/
def countTypes (incr : N → N) (lCharTypeDistribution : List N) (m_Decoded : List eCharType) : List N :=
  m_Decoded.foldl (fun l c => l.modify c.toNat incr) lCharTypeDistribution

/-- One turn of the loop of `RunLengthAlgo::mGetAnalysis`: the last run grows or a new one starts. -/
def addToRuns (one : N) (incr : N → N) (lRunLengths : List (eCharType × N)) (c : eCharType) :
    List (eCharType × N) :=
  match lRunLengths.getLast? with
  | some (t, n) => if t = c then lRunLengths.dropLast ++ [(t, incr n)] else lRunLengths ++ [(c, one)]
  | none => lRunLengths ++ [(c, one)]

end Counting

/-! ## The algorithms -/

structure CharDistributionAlgo where
  m_Decoded : List eCharType
  deriving DecidableEq, Repr

def CharDistributionAlgo.mAnalyse (aContents : List UInt8) (a : CharDistributionAlgo) : CharDistributionAlgo :=
  { a with m_Decoded := a.m_Decoded ++ aContents.map mClassify }

def CharDistributionAlgo.mGetAnalysis {T : Type} [Scalar T] (a : CharDistributionAlgo) : List T :=
  countTypes Scalar.incr (List.replicate NUMTYPES Scalar.zero) a.m_Decoded

structure RunLengthAlgo where
  m_Decoded : List eCharType
  deriving DecidableEq, Repr

def RunLengthAlgo.mAnalyse (aContents : List UInt8) (a : RunLengthAlgo) : RunLengthAlgo :=
  { a with m_Decoded := a.m_Decoded ++ aContents.map mClassify }

def RunLengthAlgo.mGetAnalysis {T : Type} [Scalar T] (a : RunLengthAlgo) : List T :=
  (a.m_Decoded.foldl (addToRuns Scalar.one Scalar.incr) []).map Prod.snd

/-- An object of one of the classes derived from `PacketAnalysisAlgo`. -/
inductive PacketAnalysisAlgo where
  | charDistribution (a : CharDistributionAlgo)
  | runLength (a : RunLengthAlgo)
  deriving DecidableEq, Repr

namespace PacketAnalysisAlgo

def mAnalyse (aContents : List UInt8) : PacketAnalysisAlgo → PacketAnalysisAlgo
  | charDistribution a => charDistribution (a.mAnalyse aContents)
  | runLength a => runLength (a.mAnalyse aContents)

def mGetAnalysis {T : Type} [Scalar T] : PacketAnalysisAlgo → List T
  | charDistribution a => a.mGetAnalysis
  | runLength a => a.mGetAnalysis

def m_Decoded : PacketAnalysisAlgo → List eCharType
  | charDistribution a => a.m_Decoded
  | runLength a => a.m_Decoded

/-- A new object of the same class. -/
def fresh : PacketAnalysisAlgo → PacketAnalysisAlgo
  | charDistribution _ => charDistribution ⟨[]⟩
  | runLength _ => runLength ⟨[]⟩

end PacketAnalysisAlgo

/-- A `PacketAnalyser`: a packet and the algorithm object it shares with the learner. -/
structure PacketAnalyser where
  m_Vec : List UInt8
  m_AlgoToRun : PacketAnalysisAlgo
  deriving DecidableEq, Repr

def PacketAnalyser.mAnalysePacket (p : PacketAnalyser) : PacketAnalyser :=
  { p with m_AlgoToRun := p.m_AlgoToRun.mAnalyse p.m_Vec }

def PacketAnalyser.mGetAnalysis {T : Type} [Scalar T] (p : PacketAnalyser) : List T := p.m_AlgoToRun.mGetAnalysis

/-! ## Counting commutes with the number type -/

section Map
variable {M N : Type} (f : M → N) {incr : M → M} {incr' : N → N}

theorem map_modify (h : ∀ x, f (incr x) = incr' (f x)) (l : List M) (i : Nat) :
    (l.modify i incr).map f = (l.map f).modify i incr' := by
  induction l generalizing i with
  | nil => simp
  | cons x xs ih =>
    cases i with
    | zero => simp [h]
    | succ i => simp [ih]

theorem map_countTypes (h : ∀ x, f (incr x) = incr' (f x)) (l : List M) (d : List eCharType) :
    (countTypes incr l d).map f = countTypes incr' (l.map f) d := by
  induction d generalizing l with
  | nil => rfl
  | cons c d ih =>
    unfold countTypes
    rw [List.foldl_cons, ← countTypes, ih, map_modify f h]
    rfl

theorem map_addToRuns (h : ∀ x, f (incr x) = incr' (f x)) (one : M) (l : List (eCharType × M)) (c : eCharType) :
    (addToRuns one incr l c).map (Prod.map id f) = addToRuns (f one) incr' (l.map (Prod.map id f)) c := by
  unfold addToRuns
  rw [List.getLast?_map]
  cases l.getLast? with
  | none => simp
  | some r =>
    by_cases hr : r.1 = c
    · simp [hr, h, List.map_dropLast]
    · simp [hr]

theorem map_foldl_addToRuns (h : ∀ x, f (incr x) = incr' (f x)) (one : M) (l : List (eCharType × M))
    (d : List eCharType) : (d.foldl (addToRuns one incr) l).map (Prod.map id f) =
      d.foldl (addToRuns (f one) incr') (l.map (Prod.map id f)) := by
  induction d generalizing l with
  | nil => rfl
  | cons c d ih => rw [List.foldl_cons, ih, map_addToRuns f h, List.foldl_cons]

end Map

/-! ## Exact counts -/

/-- `n` increments of zero. -/
def Scalar.count {T : Type} [Scalar T] (n : Nat) : T := Scalar.incr^[n] Scalar.zero

theorem Scalar.count_succ {T : Type} [Scalar T] (n : Nat) : (count (n + 1) : T) = incr (count n) :=
  Function.iterate_succ_apply' _ _ _

theorem sum_modify_succ {l : List Nat} {i : Nat} (h : i < l.length) : (l.modify i (· + 1)).sum = l.sum + 1 := by
  induction l generalizing i with
  | nil => simp at h
  | cons x xs ih =>
    cases i with
    | zero => simp; omega
    | succ i =>
      have := ih (i := i) (by simpa using h)
      simp only [List.modify_succ_cons, List.sum_cons, this]
      omega

theorem countTypes_sum {l : List Nat} (h : l.length = NUMTYPES) (d : List eCharType) :
    (countTypes (· + 1) l d).sum = l.sum + d.length := by
  induction d generalizing l with
  | nil => rfl
  | cons c d ih =>
    have hsum := sum_modify_succ (l := l) (i := c.toNat) (h ▸ c.toNat_lt)
    unfold countTypes
    rw [List.foldl_cons, ← countTypes, ih (by simpa using h), hsum, List.length_cons]
    omega

theorem countTypes_length {N : Type} (incr : N → N) (l : List N) (d : List eCharType) :
    (countTypes incr l d).length = l.length := by
  induction d generalizing l with
  | nil => rfl
  | cons c d ih => rw [countTypes, List.foldl_cons, ← countTypes, ih, List.length_modify]

/-- One turn of the run loop: the runs stay reduced and stand for one class more. -/
theorem addToRuns_reduced {l : List (eCharType × Nat)} (h : Reduced l) (c : eCharType) :
    Reduced (addToRuns 1 (· + 1) l c) ∧ expand (addToRuns 1 (· + 1) l c) = expand l ++ [c] := by
  rcases List.eq_nil_or_concat l with rfl | ⟨rs, ⟨t, n⟩, rfl⟩
  · exact ⟨Reduced.nil.start (by simp), rfl⟩
  · rw [List.concat_eq_append] at h ⊢
    by_cases ht : t = c
    · have hgrow : addToRuns 1 (· + 1) (rs ++ [(t, n)]) c = rs ++ [(t, n + 1)] := by simp [addToRuns, ht]
      rw [hgrow, ← ht]
      exact ⟨h.grow, expand_grow rs t n⟩
    · have hstart : addToRuns 1 (· + 1) (rs ++ [(t, n)]) c = rs ++ [(t, n)] ++ [(c, 1)] := by simp [addToRuns, ht]
      rw [hstart]
      exact ⟨h.start (by simpa using ht), expand_start _ c⟩

theorem foldl_addToRuns_reduced {l : List (eCharType × Nat)} (h : Reduced l) (d : List eCharType) :
    Reduced (d.foldl (addToRuns 1 (· + 1)) l) ∧ expand (d.foldl (addToRuns 1 (· + 1)) l) = expand l ++ d := by
  induction d generalizing l with
  | nil => exact ⟨h, by simp⟩
  | cons c d ih =>
    obtain ⟨hreduced, hexpand⟩ := addToRuns_reduced h c
    obtain ⟨hall, hrest⟩ := ih hreduced
    exact ⟨hall, by rw [List.foldl_cons, hrest, hexpand, List.append_assoc, List.singleton_append]⟩

/-- The runs are the reduced run lengths of the classes. -/
theorem runs_reduced (d : List eCharType) :
    Reduced (d.foldl (addToRuns 1 (· + 1)) []) ∧ expand (d.foldl (addToRuns 1 (· + 1)) []) = d :=
  foldl_addToRuns_reduced .nil d

namespace PacketAnalysisAlgo

/-- The analysis counted in `Nat`. -/
def counts : PacketAnalysisAlgo → List Nat
  | charDistribution a => countTypes (· + 1) (List.replicate NUMTYPES 0) a.m_Decoded
  | runLength a => (a.m_Decoded.foldl (addToRuns 1 (· + 1)) []).map Prod.snd

theorem counts_sum (a : PacketAnalysisAlgo) : a.counts.sum = a.m_Decoded.length := by
  cases a with
  | charDistribution a => simp [counts, countTypes_sum, m_Decoded]
  | runLength a => rw [counts, ← length_expand, (runs_reduced a.m_Decoded).2, m_Decoded]

variable {T : Type} [Scalar T]

theorem mGetAnalysis_eq (a : PacketAnalysisAlgo) : (a.mGetAnalysis : List T) = a.counts.map Scalar.count := by
  have hsucc : ∀ n, (Scalar.count (n + 1) : T) = Scalar.incr (Scalar.count n) := Scalar.count_succ
  cases a with
  | charDistribution a =>
    simp only [mGetAnalysis, CharDistributionAlgo.mGetAnalysis, counts]
    rw [map_countTypes Scalar.count hsucc, List.map_replicate]
    rfl
  | runLength a =>
    have hone : (Scalar.count 1 : T) = Scalar.one := Scalar.incr_zero
    have hmap := map_foldl_addToRuns (Scalar.count : Nat → T) hsucc 1 [] a.m_Decoded
    simp only [mGetAnalysis, RunLengthAlgo.mGetAnalysis, counts]
    rw [List.map_nil, hone] at hmap
    rw [← hmap, List.map_map, List.map_map]
    rfl

theorem map_count_inj {l l' : List Nat} (hl' : l'.sum < 2 ^ 24)
    (h : l.map (Scalar.count : Nat → T) = l'.map Scalar.count) : l = l' := by
  induction l generalizing l' with
  | nil => simpa using h.symm
  | cons n l ih =>
    cases l' with
    | nil => simp at h
    | cons n' l' =>
      simp only [List.map_cons, List.cons.injEq, List.sum_cons] at h hl'
      rw [Scalar.count_inj (by omega) h.1, ih (by omega) h.2]

/-- Below 2^24 bytes the analysis tells how many there were. -/
theorem length_of_analysis {a b : PacketAnalysisAlgo} (hb : b.m_Decoded.length < 2 ^ 24)
    (h : (a.mGetAnalysis : List T) = b.mGetAnalysis) : a.m_Decoded.length = b.m_Decoded.length := by
  rw [mGetAnalysis_eq, mGetAnalysis_eq] at h
  rw [← counts_sum, ← counts_sum, map_count_inj (b.counts_sum ▸ hb) h]

end PacketAnalysisAlgo

end ProtocolLearner
