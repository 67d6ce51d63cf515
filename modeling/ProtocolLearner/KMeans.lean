import ProtocolLearner.Scalar
/-!
# The clustering engine

`KMeans<T>` of `include/KMeans.hpp`: the points, the means and the operations
on them. A C++ vector is a list. An operation that changes the engine returns
what it threw, if anything, and the engine it leaves behind: an exception does
not undo the writes made before it.

The locking and the worker thread are in `Worker`.
-/

namespace ProtocolLearner

/-- How a call can fail: `vector::at` out of range, a thrown
`new std::exception` (a pointer, so no `catch(const std::exception&)` stops
it), or undefined behaviour. -/
inductive Exn where
  | outOfRange
  | exceptionPointer
  | undefined
  deriving DecidableEq, Repr

structure DataPoint (T : Type) where
  m_MeanIndex : UInt16
  m_EuclideanDistanceFromAssignedMean : T
  m_Vector : List T
  m_Index : UInt16
  deriving DecidableEq, Repr

/-- `DataPoint(aVector, aIndex)` -/
def DataPoint.new {T : Type} [Scalar T] (aVector : List T) (aIndex : UInt16) : DataPoint T :=
  ⟨0, Scalar.zero, aVector, aIndex⟩

structure MeanPoint (T : Type) where
  m_Label : UInt16
  m_Vector : List T
  deriving DecidableEq, Repr

structure KMeans (T : Type) where
  m_PointVector : List (DataPoint T)
  m_NumArgs : UInt16
  m_CurrentNumMeans : UInt16
  m_CurrentMeans : List (MeanPoint T)
  m_PointIndex : UInt16
  m_Initialised : Bool
  m_NewSubmissionReady : Bool
  m_StopThread : Bool
  deriving DecidableEq, Repr

namespace KMeans

variable {T : Type}

/-- `KMeans(numArgsIn)` -/
def new (numArgsIn : UInt16) : KMeans T where
  m_PointVector := []
  m_NumArgs := numArgsIn
  m_CurrentNumMeans := 0
  m_CurrentMeans := []
  m_PointIndex := 0
  m_Initialised := false
  m_NewSubmissionReady := false
  m_StopThread := false

variable [Scalar T]

/-! ## Submitting and looking up -/

/-- The critical section of `mSubmit`. -/
def mSubmit (inVector : List T) (k : KMeans T) : KMeans T :=
  { k with
    m_PointVector := k.m_PointVector ++ [DataPoint.new inVector k.m_PointIndex]
    m_PointIndex := k.m_PointIndex + 1
    m_NewSubmissionReady := true }

omit [Scalar T] in
def mExtract (k : KMeans T) (aIndex : UInt16) : Except Exn (DataPoint T) :=
  match k.m_PointVector.find? (fun a => aIndex == a.m_Index) with
  | none => .error .exceptionPointer
  | some p => .ok p

omit [Scalar T] in
def mExtractCurrentMeanBasedOnLabel (k : KMeans T) (aMeanLabel : UInt16) : Except Exn (MeanPoint T) :=
  match k.m_CurrentMeans.find? (fun a => aMeanLabel == a.m_Label) with
  | none => .error .exceptionPointer
  | some m => .ok m

omit [Scalar T] in
def mGetNumPoints (k : KMeans T) : UInt16 := UInt16.ofNat k.m_PointVector.length

/-! ## Distances -/

/-- The loop of `mCalculateEuclideanDistance`: it runs over the point's
coordinates and reads the mean's with `at`. -/
def accDistance : T → List T → List T → Except Exn T
  | lAcc, [], _ => .ok lAcc
  | _, _ :: _, [] => .error .outOfRange
  | lAcc, x :: xs, m :: ms => accDistance (Scalar.addPow2 lAcc (Scalar.sub x m)) xs ms

def mCalculateEuclideanDistance (aPoint : DataPoint T) (aMeanPoint : MeanPoint T) : Except Exn T :=
  (accDistance Scalar.zero aPoint.m_Vector aMeanPoint.m_Vector).map Scalar.sqrt

/-- The loop of `mFindNearestMean`, from the second mean on. -/
def findNearestFrom (aPoint : DataPoint T) : T → UInt16 → List (MeanPoint T) → Except Exn UInt16
  | _, lCurrentClosestMeanIndex, [] => .ok lCurrentClosestMeanIndex
  | lCurrentMinEuclidean, lCurrentClosestMeanIndex, m :: ms => do
    let lTempEuclidean ← mCalculateEuclideanDistance aPoint m
    if Scalar.less lTempEuclidean lCurrentMinEuclidean then
      findNearestFrom aPoint lTempEuclidean m.m_Label ms
    else
      findNearestFrom aPoint lCurrentMinEuclidean lCurrentClosestMeanIndex ms

/-- `mFindNearestMean` over the means `means`; with no means it dereferences
`begin()` of an empty vector. -/
def mFindNearestMean (means : List (MeanPoint T)) (aPoint : DataPoint T) : Except Exn UInt16 :=
  match means with
  | [] => .error .undefined
  | m :: ms => do
    let lCurrentMinEuclidean ← mCalculateEuclideanDistance aPoint m
    findNearestFrom aPoint lCurrentMinEuclidean m.m_Label ms

/-! ## Assigning the points -/

/-- `m_CurrentMeans.at(i)` -/
def meanAt (means : List (MeanPoint T)) (i : UInt16) : Except Exn (MeanPoint T) :=
  match means[i.toNat]? with
  | none => .error .outOfRange
  | some m => .ok m

/-- The loop of `mAssignAll`. The label of the nearest mean is stored before
the distance to the mean at that position is computed. -/
def assignLoop (means : List (MeanPoint T)) : List (DataPoint T) → Except Exn Unit × List (DataPoint T)
  | [] => (.ok (), [])
  | i :: is =>
    match mFindNearestMean means i with
    | .error e => (.error e, i :: is)
    | .ok lNearestMeanID =>
      let i := { i with m_MeanIndex := lNearestMeanID }
      -- The label just stored serves as a position.
      match meanAt means i.m_MeanIndex >>= mCalculateEuclideanDistance i with
      | .error e => (.error e, i :: is)
      | .ok d =>
        let rest := assignLoop means is
        (rest.1, { i with m_EuclideanDistanceFromAssignedMean := d } :: rest.2)

def mAssignAll (k : KMeans T) : Except Exn Unit × KMeans T :=
  let r := assignLoop k.m_CurrentMeans k.m_PointVector
  (r.1, { k with m_PointVector := r.2 })

/-! ## Moving the means -/

/-- `*lIt += lPoint.m_Vector.at(i)` for every coordinate `i` of the average. -/
def addCoordinates : List T → List T → Except Exn (List T)
  | [], _ => .ok []
  | _ :: _, [] => .error .outOfRange
  | a :: as, x :: xs => (addCoordinates as xs).map (Scalar.add a x :: ·)

/-- The search loop of `mUpdateMeans` for the label `lLabel`. `std::find_if`
steps over the points of other groups; the member count is 16 bits wide. -/
def gatherGroup (lLabel : UInt16) : List T → UInt16 → List (DataPoint T) → Except Exn (List T × UInt16)
  | lAverageVector, lNumberInGroup, [] => .ok (lAverageVector, lNumberInGroup)
  | lAverageVector, lNumberInGroup, p :: ps =>
    if p.m_MeanIndex == lLabel then do
      let lAverageVector ← addCoordinates lAverageVector p.m_Vector
      gatherGroup lLabel lAverageVector (lNumberInGroup + 1) ps
    else
      gatherGroup lLabel lAverageVector lNumberInGroup ps

/-- One turn of the outer loop of `mUpdateMeans`. -/
def updateMean (numArgs : UInt16) (points : List (DataPoint T)) (lMeanPoint : MeanPoint T) :
    Except Exn (MeanPoint T) := do
  let (lAverageVector, lNumberInGroup) ←
    gatherGroup lMeanPoint.m_Label (List.replicate numArgs.toNat Scalar.zero) 0 points
  -- A group without members divides by zero.
  .ok { lMeanPoint with m_Vector := lAverageVector.map (Scalar.div · (Scalar.ofCount lNumberInGroup)) }

def updateLoop (numArgs : UInt16) (points : List (DataPoint T)) :
    List (MeanPoint T) → Except Exn Unit × List (MeanPoint T)
  | [] => (.ok (), [])
  | m :: ms =>
    match updateMean numArgs points m with
    | .error e => (.error e, m :: ms)
    | .ok m' =>
      let rest := updateLoop numArgs points ms
      (rest.1, m' :: rest.2)

def mUpdateMeans (k : KMeans T) : Except Exn Unit × KMeans T :=
  let r := updateLoop k.m_NumArgs k.m_PointVector k.m_CurrentMeans
  (r.1, { k with m_CurrentMeans := r.2 })

/-! ## Drawing the first means -/

omit [Scalar T] in
/-- The loop of `mInitialise` with `n` turns to go: it appends to the means
that are there already. -/
def emplaceMeans (points : List (DataPoint T)) :
    Nat → UInt16 → List (MeanPoint T) → Except Exn Unit × List (MeanPoint T)
  | 0, _, means => (.ok (), means)
  | n + 1, lMean, means =>
    match points[lMean.toNat]? with
    | none => (.error .outOfRange, means)
    | some p => emplaceMeans points n (lMean + 1) (means ++ [⟨lMean, p.m_Vector⟩])

omit [Scalar T] in
def mInitialise (aNumMeans : UInt16) (shuffle : Shuffle (DataPoint T)) (k : KMeans T) :
    Except Exn Unit × KMeans T :=
  let k := { k with m_CurrentNumMeans := aNumMeans }
  if k.m_PointVector.length < aNumMeans.toNat then
    (.error .exceptionPointer, k)
  else
    let k := { k with m_PointVector := shuffle.run k.m_PointVector }
    -- Means from an earlier call stay in front of the new ones.
    match emplaceMeans k.m_PointVector aNumMeans.toNat 0 k.m_CurrentMeans with
    | (.error e, means) => (.error e, { k with m_CurrentMeans := means })
    | (.ok (), means) => (.ok (), { k with m_CurrentMeans := means, m_Initialised := true })

/-! ## Runs of calls -/

/-- A call that changes the engine. -/
inductive Op (T : Type) where
  | submit (inVector : List T)
  | initialise (aNumMeans : UInt16) (shuffle : Shuffle (DataPoint T))
  | assignAll
  | updateMeans

def call (k : KMeans T) : Op T → Except Exn Unit × KMeans T
  | .submit inVector => (.ok (), k.mSubmit inVector)
  | .initialise aNumMeans shuffle => k.mInitialise aNumMeans shuffle
  | .assignAll => k.mAssignAll
  | .updateMeans => k.mUpdateMeans

/-- The engine after a call, whether the call returned or threw. No engine
follows undefined behaviour. -/
def step (k : KMeans T) (op : Op T) : Option (KMeans T) :=
  match k.call op with
  | (.error .undefined, _) => none
  | (_, k') => some k'

omit [Scalar T] in
/-- The vectors the calls submit, in order. -/
def submissions (ops : List (Op T)) : List (List T) :=
  ops.filterMap fun
    | .submit inVector => some inVector
    | _ => none

end KMeans

end ProtocolLearner
