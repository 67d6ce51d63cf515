import Mathlib.Algebra.BigOperators.Ring.Finset
import ProtocolLearner.Algos
/-!
# The two analysers agree

A `RunLengthAlgo` and a `CharDistributionAlgo` that are given the same bytes,
with counts taken exactly. The run lengths come without their classes, but they
can be labelled in exactly one way, and the labelled lengths add up to the
distribution.
-/

namespace ProtocolLearner

open RunLengths

/-- The classes in the order of their values. -/
def eCharType.all : List eCharType := [CHAR, WHITESPACE, NUMERAL, PUNCTUATION, CONTROL]

/-! ## Calls of `mAnalyse` -/

/-- A new `RunLengthAlgo` after a call of `mAnalyse` for each of the chunks. -/
def RunLengthAlgo.ofChunks (chunks : List (List UInt8)) : RunLengthAlgo :=
  chunks.foldl (fun a aContents => a.mAnalyse aContents) ⟨[]⟩

/-- A new `CharDistributionAlgo` after a call of `mAnalyse` for each of the chunks. -/
def CharDistributionAlgo.ofChunks (chunks : List (List UInt8)) : CharDistributionAlgo :=
  chunks.foldl (fun a aContents => a.mAnalyse aContents) ⟨[]⟩

/-- Only the concatenation of the chunks counts. -/
theorem RunLengthAlgo.ofChunks_eq (chunks : List (List UInt8)) : ofChunks chunks = ⟨chunks.flatten.map mClassify⟩ := by
  suffices hgen : ∀ a : RunLengthAlgo, chunks.foldl (fun a aContents => a.mAnalyse aContents) a =
      ⟨a.m_Decoded ++ chunks.flatten.map mClassify⟩ from hgen ⟨[]⟩
  induction chunks with
  | nil => simp
  | cons c cs ih =>
    intro a
    rw [List.foldl_cons, ih]
    simp [mAnalyse]

theorem CharDistributionAlgo.ofChunks_eq (chunks : List (List UInt8)) :
    ofChunks chunks = ⟨chunks.flatten.map mClassify⟩ := by
  suffices hgen : ∀ a : CharDistributionAlgo, chunks.foldl (fun a aContents => a.mAnalyse aContents) a =
      ⟨a.m_Decoded ++ chunks.flatten.map mClassify⟩ from hgen ⟨[]⟩
  induction chunks with
  | nil => simp
  | cons c cs ih =>
    intro a
    rw [List.foldl_cons, ih]
    simp [mAnalyse]

/-! ## The distribution counts the classes -/

theorem modify_all (f : eCharType → Nat) (c : eCharType) :
    (eCharType.all.map f).modify c.toNat (· + 1) = eCharType.all.map fun t => if t = c then f t + 1 else f t := by
  cases c <;> rfl

theorem countTypes_all (f : eCharType → Nat) (d : List eCharType) :
    countTypes (· + 1) (eCharType.all.map f) d = eCharType.all.map fun t => f t + d.count t := by
  induction d generalizing f with
  | nil => simp [countTypes]
  | cons c d ih =>
    unfold countTypes
    rw [List.foldl_cons, modify_all, ← countTypes, ih]
    apply List.map_congr_left
    intro t _
    by_cases ht : t = c
    · simp [ht]
      omega
    · simp [ht, List.count_cons_of_ne (Ne.symm ht)]

section Exact
variable {T : Type} [Field T] [LinearOrder T] [Exact T]

theorem count_eq_cast (n : Nat) : (Scalar.count n : T) = n := by
  have hincr : (Scalar.incr : T → T) = fun x => x + 1 := funext Exact.incr_eq
  unfold Scalar.count
  rw [hincr, Exact.zero_eq, iterate_succ_eq_cast]

theorem CharDistributionAlgo.mGetAnalysis_count (a : CharDistributionAlgo) :
    (a.mGetAnalysis : List T) = eCharType.all.map fun t => (a.m_Decoded.count t : T) := by
  have h := PacketAnalysisAlgo.mGetAnalysis_eq (T := T) (.charDistribution a)
  have hzero : List.replicate NUMTYPES 0 = eCharType.all.map fun _ => 0 := rfl
  simp only [PacketAnalysisAlgo.counts, hzero, countTypes_all, zero_add, List.map_map] at h
  rw [show (a.mGetAnalysis : List T) = _ from h]
  apply List.map_congr_left
  intro t _
  exact count_eq_cast _

/-- The entries are the lengths of the runs. -/
theorem RunLengthAlgo.mGetAnalysis_runs (a : RunLengthAlgo) :
    (a.mGetAnalysis : List T) =
      ((a.m_Decoded.foldl (addToRuns 1 (· + 1)) []).map Prod.snd).map (Nat.cast : Nat → T) := by
  have h := PacketAnalysisAlgo.mGetAnalysis_eq (T := T) (.runLength a)
  rw [show (a.mGetAnalysis : List T) = _ from h]
  apply List.map_congr_left
  intro n _
  exact count_eq_cast n

/-! ## Labels -/

omit [LinearOrder T] [Exact T] in
/-- Neighbouring labels differ, and repeating each label by its entry, at least
once, gives the classes `cs` in order. -/
def Labels (cs : List eCharType) (entries : List T) (labels : List eCharType) : Prop :=
  ∃ ns : List Nat, entries = ns.map (Nat.cast : Nat → T) ∧ (∀ n ∈ ns, 1 ≤ n) ∧ labels.length = ns.length ∧
    labels.IsChain (· ≠ ·) ∧ expand (labels.zip ns) = cs

omit [LinearOrder T] [Exact T] in
/-- The sum of the entries with the label `c`. -/
def labelSum (labels : List eCharType) (entries : List T) (c : eCharType) : T :=
  (((labels.zip entries).filter fun r => r.1 = c).map Prod.snd).sum

theorem zip_reduced {labels : List eCharType} {ns : List Nat} (hpos : ∀ n ∈ ns, 1 ≤ n)
    (hlen : labels.length = ns.length) (hchain : labels.IsChain (· ≠ ·)) : Reduced (labels.zip ns) := by
  constructor
  · rintro ⟨c, n⟩ hr
    exact hpos n (List.of_mem_zip hr).2
  · rwa [List.map_fst_zip hlen.le]

omit [LinearOrder T] [Exact T] in
theorem labelSum_cast (labels : List eCharType) (ns : List Nat) (c : eCharType) :
    labelSum labels (ns.map (Nat.cast : Nat → T)) c = ((expand (labels.zip ns)).count c : T) := by
  rw [count_expand, labelSum, List.zip_map_right, List.filter_map, List.map_map, Nat.cast_list_sum, List.map_map]
  rfl

/-- The classes of the runs label the entries. -/
theorem RunLengthAlgo.labels (a : RunLengthAlgo) : Labels a.m_Decoded (a.mGetAnalysis : List T)
    ((a.m_Decoded.foldl (addToRuns 1 (· + 1)) []).map Prod.fst) := by
  obtain ⟨hreduced, hexpand⟩ := runs_reduced a.m_Decoded
  refine ⟨_, a.mGetAnalysis_runs, ?_, by simp, hreduced.differ, ?_⟩
  · intro n hn
    obtain ⟨r, hr, rfl⟩ := List.mem_map.1 hn
    exact hreduced.pos r hr
  · rw [← List.zip_of_prod rfl rfl]
    exact hexpand

omit [LinearOrder T] [Exact T] in
theorem Labels.unique {cs : List eCharType} {entries : List T} {labels labels' : List eCharType}
    (h : Labels cs entries labels) (h' : Labels cs entries labels') : labels = labels' := by
  obtain ⟨ns, hns, hpos, hlen, hchain, hexpand⟩ := h
  obtain ⟨ns', hns', hpos', hlen', hchain', hexpand'⟩ := h'
  have hzip := (zip_reduced hpos hlen hchain).unique (zip_reduced hpos' hlen' hchain') (hexpand.trans hexpand'.symm)
  rw [← List.map_fst_zip hlen.le, hzip, List.map_fst_zip hlen'.le]

/-! ## Main theorem -/

/-- The run lengths can be labelled in exactly one way, the labelled lengths
add up to the distribution, and neither depends on how the bytes were cut up. -/
theorem analyses_agree (chunks : List (List UInt8)) :
    (∃! labels, Labels (chunks.flatten.map mClassify) ((RunLengthAlgo.ofChunks chunks).mGetAnalysis : List T) labels) ∧
      (∀ labels, Labels (chunks.flatten.map mClassify) ((RunLengthAlgo.ofChunks chunks).mGetAnalysis : List T) labels →
        eCharType.all.map (labelSum labels ((RunLengthAlgo.ofChunks chunks).mGetAnalysis : List T)) =
          (CharDistributionAlgo.ofChunks chunks).mGetAnalysis) ∧
      ∀ chunks', chunks'.flatten = chunks.flatten →
        ((RunLengthAlgo.ofChunks chunks').mGetAnalysis : List T) = (RunLengthAlgo.ofChunks chunks).mGetAnalysis ∧
        ((CharDistributionAlgo.ofChunks chunks').mGetAnalysis : List T) =
          (CharDistributionAlgo.ofChunks chunks).mGetAnalysis := by
  refine ⟨?_, ?_, ?_⟩
  · rw [RunLengthAlgo.ofChunks_eq]
    exact ⟨_, RunLengthAlgo.labels _, fun labels h => h.unique (RunLengthAlgo.labels _)⟩
  · rintro labels ⟨ns, hns, -, -, -, hexpand⟩
    rw [hns, CharDistributionAlgo.ofChunks_eq, CharDistributionAlgo.mGetAnalysis_count]
    apply List.map_congr_left
    intro c _
    rw [labelSum_cast, hexpand]
  · intro chunks' h
    rw [RunLengthAlgo.ofChunks_eq, RunLengthAlgo.ofChunks_eq, CharDistributionAlgo.ofChunks_eq,
      CharDistributionAlgo.ofChunks_eq, h]
    exact ⟨rfl, rfl⟩

end Exact

/-- `RFB 003.008\n`, in two pieces. -/
def rfbVersion : List (List UInt8) := [[82, 70, 66, 32, 48], [48, 51, 46, 48, 48, 56, 10]]

theorem rfbVersion_labels : ∃! labels, Labels (rfbVersion.flatten.map mClassify)
    ((RunLengthAlgo.ofChunks rfbVersion).mGetAnalysis : List ℚ) labels :=
  (analyses_agree rfbVersion).1

/-- The run lengths the test of the analyser expects. -/
example : ((RunLengthAlgo.ofChunks [[82, 70, 66, 32, 48, 48, 51, 46, 48, 48, 56, 10]]).mGetAnalysis : List ℚ) =
    [3, 1, 3, 1, 3, 1] := by decide +kernel

end ProtocolLearner
