import Mathlib.Data.Char
import Mathlib.Data.List.Lex
import MechanicsCore.Library.FormUrlencoded

/-! `URLSearchParams`: a list of pairs of its own, or a view of a URL's query that is
parsed before and serialized after every operation. Both do what one list of pairs does. -/
namespace MechanicsCore.Url
open MechanicsCore.Library Text

abbrev ParamPair := Text × Text

/-- A URL of the `url` crate, by what is used of it. -/
structure UrlCrate where
  UrlState : Type
  queryPairs : UrlState → List ParamPair
  setQuery : UrlState → Option Text → UrlState

def encodePairs (pairs : List ParamPair) : Text := FormUrlencoded.extendPairs [] pairs

/-- A query that was serialized from pairs is parsed to them; without a query there are none. -/
structure UrlCrate.Lawful (U : UrlCrate) : Prop where
  serialized : ∀ url pairs, pairs ≠ [] → U.queryPairs (U.setQuery url (some (encodePairs pairs))) = pairs
  absent : ∀ url, U.queryPairs (U.setQuery url none) = []

/-- The shared cells that parameter objects point to. -/
structure Heap (U : UrlCrate) where
  lists : Nat → List ParamPair
  urls : Nat → U.UrlState

inductive ParamsBacking
  | owned (cell : Nat)
  | url (cell : Nat)
  deriving DecidableEq,Repr

inductive Answer
  | undefined
  | null
  | string (text : Text)
  | strings (texts : List Text)
  | pairs (pairs : List ParamPair)
  | boolean (b : Bool)
  | number (n : Nat)
  | error (message : String)
  deriving DecidableEq,Repr

inductive Op
  | append (name value : Text)
  | delete (name : Text) (value : Option Text)
  | set (name value : Text)
  | sort
  | get (name : Text)
  | getAll (name : Text)
  | has (name : Text) (value : Option Text)
  | entries
  | keys
  | values
  | size
  | toString
  deriving DecidableEq,Repr

section Model
variable {U : UrlCrate}

def writeQueryPairs (url : U.UrlState) (pairs : List ParamPair) : U.UrlState :=
  if pairs.isEmpty then U.setQuery url none else U.setQuery url (some (encodePairs pairs))

def withPairs (backing : ParamsBacking) (f : List ParamPair → List ParamPair) (heap : Heap U) : Heap U :=
  match backing with
  | .owned cell => {heap with lists := Function.update heap.lists cell (f (heap.lists cell))}
  | .url cell =>
    let pairs := U.queryPairs (heap.urls cell)
    {heap with urls := Function.update heap.urls cell (writeQueryPairs (heap.urls cell) (f pairs))}

def snapshotPairs (backing : ParamsBacking) (heap : Heap U) : List ParamPair :=
  match backing with
  | .owned cell => heap.lists cell
  | .url cell => U.queryPairs (heap.urls cell)

/-- The `retain_mut` of `params_set`, with what `seen` is behind it. -/
def retainSet (name value : Text) : (seen : Bool) → List ParamPair → List ParamPair × Bool
  | seen, [] => ([],seen)
  | seen, pair::pairs =>
    if pair.1 == name then
      if seen then retainSet name value seen pairs
      else
        let rest := retainSet name value true pairs
        ((pair.1,value)::rest.1,rest.2)
    else
      let rest := retainSet name value seen pairs
      (pair::rest.1,rest.2)

def paramsAppend (backing : ParamsBacking) (name value : Text) : Heap U → Heap U :=
  withPairs backing fun pairs => pairs ++ [(name,value)]

def paramsDelete (backing : ParamsBacking) (name : Text) (value : Option Text) : Heap U → Heap U :=
  withPairs backing fun pairs => pairs.filter fun pair => pair.1 != name || value.any fun value => pair.2 != value

def paramsSet (backing : ParamsBacking) (name value : Text) : Heap U → Heap U :=
  withPairs backing fun pairs =>
    let retained := retainSet name value false pairs
    if !retained.2 then retained.1 ++ [(name,value)] else retained.1

/-- A stable sort; strings compare by their code points. -/
def paramsSort (backing : ParamsBacking) : Heap U → Heap U :=
  withPairs backing fun pairs => pairs.mergeSort fun left right => decide (left.1 ≤ right.1)

def paramsGet (backing : ParamsBacking) (name : Text) (heap : Heap U) : Answer :=
  match (snapshotPairs backing heap).find? fun pair => pair.1 == name with
  | some pair => .string pair.2
  | none => .null

def paramsGetAll (backing : ParamsBacking) (name : Text) (heap : Heap U) : Answer :=
  .strings ((snapshotPairs backing heap).filterMap fun pair => if pair.1 == name then some pair.2 else none)

def paramsHas (backing : ParamsBacking) (name : Text) (value : Option Text) (heap : Heap U) : Answer :=
  .boolean ((snapshotPairs backing heap).any fun pair => pair.1 == name && value.all fun value => pair.2 == value)

def paramsEntries (backing : ParamsBacking) (heap : Heap U) : Answer := .pairs (snapshotPairs backing heap)

def paramsKeys (backing : ParamsBacking) (heap : Heap U) : Answer := .strings ((snapshotPairs backing heap).map Prod.fst)

def paramsValues (backing : ParamsBacking) (heap : Heap U) : Answer := .strings ((snapshotPairs backing heap).map Prod.snd)

def paramsSizeGet (backing : ParamsBacking) (heap : Heap U) : Answer :=
  let len := (snapshotPairs backing heap).length
  if len < 2^31 then .number len else .error "URLSearchParams size overflow"

def paramsToString (backing : ParamsBacking) (heap : Heap U) : Answer := .string (encodePairs (snapshotPairs backing heap))

def urlSearchParamsGet (url : Nat) : ParamsBacking := .url url

/-- One call of a method or getter of a parameter object. -/
def call (backing : ParamsBacking) (op : Op) (heap : Heap U) : Answer × Heap U :=
  match op with
  | .append name value => (.undefined,paramsAppend backing name value heap)
  | .delete name value => (.undefined,paramsDelete backing name value heap)
  | .set name value => (.undefined,paramsSet backing name value heap)
  | .sort => (.undefined,paramsSort backing heap)
  | .get name => (paramsGet backing name heap,heap)
  | .getAll name => (paramsGetAll backing name heap,heap)
  | .has name value => (paramsHas backing name value heap,heap)
  | .entries => (paramsEntries backing heap,heap)
  | .keys => (paramsKeys backing heap,heap)
  | .values => (paramsValues backing heap,heap)
  | .size => (paramsSizeGet backing heap,heap)
  | .toString => (paramsToString backing heap,heap)

/-- Calls through several objects, one after the other. -/
def calls (objects : Nat → ParamsBacking) : List (Nat × Op) → Heap U → List Answer
  | [], _ => []
  | (object,op)::rest, heap =>
    let result := call (objects object) op heap
    result.1 :: calls objects rest result.2

end Model

section OneList

def Matches (name : Text) (value : Option Text) (pair : ParamPair) : Prop := pair.1 = name ∧ ∀ v ∈ value, pair.2 = v

instance (name : Text) (value : Option Text) (pair : ParamPair) : Decidable (Matches name value pair) :=
  inferInstanceAs (Decidable (_ ∧ _))

/-- The first pair of the name takes the value, the later ones go; a new pair if there is none. -/
def setFirst (name value : Text) (pairs : List ParamPair) : List ParamPair :=
  match pairs.dropWhile (·.1 ≠ name) with
  | [] => pairs ++ [(name,value)]
  | _::later => pairs.takeWhile (·.1 ≠ name) ++ (name,value) :: later.filter (·.1 ≠ name)

/-- What an operation does to one list of pairs. -/
def Op.change : Op → List ParamPair → List ParamPair
  | .append name value, pairs => pairs ++ [(name,value)]
  | .delete name value, pairs => pairs.filter fun pair => ¬ Matches name value pair
  | .set name value, pairs => setFirst name value pairs
  | .sort, pairs => pairs.mergeSort fun left right => decide (left.1 ≤ right.1)
  | _, pairs => pairs

/-- What an operation reads from one list of pairs. -/
def Op.read : Op → List ParamPair → Answer
  | .get name, pairs => ((pairs.lookup name).map Answer.string).getD .null
  | .getAll name, pairs => .strings ((pairs.filter (·.1 = name)).map Prod.snd)
  | .has name value, pairs => .boolean (decide (∃ pair ∈ pairs, Matches name value pair))
  | .entries, pairs => .pairs pairs
  | .keys, pairs => .strings (pairs.map Prod.fst)
  | .values, pairs => .strings (pairs.map Prod.snd)
  | .size, pairs => if pairs.length < 2^31 then .number pairs.length else .error "URLSearchParams size overflow"
  | .toString, pairs => .string (encodePairs pairs)
  | _, _ => .undefined

/-- The answers of one list of pairs. -/
def answers : List Op → List ParamPair → List Answer
  | [], _ => []
  | op::ops, pairs => op.read pairs :: answers ops (op.change pairs)

end OneList

section Refinement

variable {name value : Text} {pair : ParamPair}

theorem retainSet_other (other : pair.1 ≠ name) (seen : Bool) (pairs : List ParamPair) :
    retainSet name value seen (pair::pairs) =
      (pair::(retainSet name value seen pairs).1,(retainSet name value seen pairs).2) := by
  rw [retainSet,if_neg (by simpa using other)]

theorem retainSet_seen (pairs : List ParamPair) :
    retainSet name value true pairs = (pairs.filter (·.1 ≠ name),true) := by
  induction pairs with
  | nil => rfl
  | cons pair pairs ih =>
    by_cases here : pair.1 = name
    · rw [retainSet,if_pos (by simpa using here),if_pos rfl,ih,List.filter_cons_of_neg (by simpa using here)]
    · rw [retainSet_other here,ih,List.filter_cons_of_pos (by simpa using here)]

theorem retainSet_first (here : pair.1 = name) (pairs : List ParamPair) :
    retainSet name value false (pair::pairs) = ((name,value)::pairs.filter (·.1 ≠ name),true) := by
  rw [retainSet,if_pos (by simpa using here),if_neg Bool.false_ne_true,retainSet_seen,here]

theorem setFirst_here (here : pair.1 = name) (pairs : List ParamPair) :
    setFirst name value (pair::pairs) = (name,value)::pairs.filter (·.1 ≠ name) := by
  rw [setFirst,List.dropWhile_cons_of_neg (by simpa using here),List.takeWhile_cons_of_neg (by simpa using here)]
  rfl

theorem setFirst_other (other : pair.1 ≠ name) (pairs : List ParamPair) :
    setFirst name value (pair::pairs) = pair::setFirst name value pairs := by
  unfold setFirst
  rw [List.dropWhile_cons_of_pos (by simpa using other),List.takeWhile_cons_of_pos (by simpa using other)]
  cases pairs.dropWhile (·.1 ≠ name) with
  | nil => rfl
  | cons first later => rfl

/-- The loop of `params_set` and the pair it may push. -/
theorem retainSet_pushed (pairs : List ParamPair) :
    (if !(retainSet name value false pairs).2 then (retainSet name value false pairs).1 ++ [(name,value)]
      else (retainSet name value false pairs).1) = setFirst name value pairs := by
  induction pairs with
  | nil => rfl
  | cons pair pairs ih =>
    by_cases here : pair.1 = name
    · rw [retainSet_first here,setFirst_here here]
      rfl
    · rw [retainSet_other here,setFirst_other here,← ih]
      dsimp only
      split
      · rfl
      · rfl

variable {U : UrlCrate}

theorem snapshot_withPairs (lawful : U.Lawful) (backing : ParamsBacking) (f : List ParamPair → List ParamPair) (heap : Heap U) :
    snapshotPairs backing (withPairs backing f heap) = f (snapshotPairs backing heap) := by
  cases backing with
  | owned cell => exact Function.update_self ..
  | url cell =>
    change U.queryPairs (Function.update heap.urls cell _ cell) = f (U.queryPairs (heap.urls cell))
    rw [Function.update_self,writeQueryPairs]
    split
    · rename_i empty
      rw [lawful.absent,List.isEmpty_iff.mp empty]
    · rename_i filled
      exact lawful.serialized _ _ (by simpa using filled)

theorem read_get (pairs : List ParamPair) (name : Text) :
    (match pairs.find? fun pair => pair.1 == name with
      | some pair => Answer.string pair.2
      | none => .null) = (Op.get name).read pairs := by
  change _ = ((pairs.lookup name).map Answer.string).getD .null
  induction pairs with
  | nil => rfl
  | cons pair pairs ih =>
    obtain ⟨first,text⟩ := pair
    rw [List.find?_cons,List.lookup_cons]
    by_cases here : first = name
    · rw [here,beq_self_eq_true]
      rfl
    · rw [beq_false_of_ne here,beq_false_of_ne (Ne.symm here)]
      exact ih

theorem read_getAll (pairs : List ParamPair) (name : Text) :
    (pairs.filterMap fun pair => if pair.1 == name then some pair.2 else none) =
      (pairs.filter (·.1 = name)).map Prod.snd := by
  induction pairs with
  | nil => rfl
  | cons pair pairs ih =>
    by_cases here : pair.1 = name
    · rw [List.filter_cons_of_pos (by simpa using here),List.map_cons,← ih]
      simp [here]
    · rw [List.filter_cons_of_neg (by simpa using here),← ih]
      simp [here]

theorem decide_matches (name : Text) (value : Option Text) (pair : ParamPair) :
    (pair.1 == name && value.all fun value => pair.2 == value) = decide (Matches name value pair) := by
  cases value with
  | none => simp [Matches,Bool.beq_eq_decide_eq]
  | some value => simp [Matches,Bool.beq_eq_decide_eq]

theorem decide_not_matches (name : Text) (value : Option Text) (pair : ParamPair) :
    (pair.1 != name || value.any fun value => pair.2 != value) = decide (¬ Matches name value pair) := by
  rw [decide_not,← decide_matches]
  cases value with
  | none => simp [bne]
  | some value => simp [bne]

/-- One call answers from the pairs and leaves them changed as the operation says. -/
theorem call_refines (lawful : U.Lawful) (backing : ParamsBacking) (op : Op) (heap : Heap U) :
    (call backing op heap).1 = op.read (snapshotPairs backing heap) ∧
      snapshotPairs backing (call backing op heap).2 = op.change (snapshotPairs backing heap) := by
  cases op with
  | append name value => exact ⟨rfl,snapshot_withPairs lawful backing _ heap⟩
  | delete name value =>
    refine ⟨rfl,(snapshot_withPairs lawful backing _ heap).trans ?_⟩
    exact List.filter_congr fun pair _ => decide_not_matches name value pair
  | set name value =>
    refine ⟨rfl,(snapshot_withPairs lawful backing _ heap).trans ?_⟩
    exact retainSet_pushed _
  | sort => exact ⟨rfl,snapshot_withPairs lawful backing _ heap⟩
  | get name => exact ⟨read_get _ name,rfl⟩
  | getAll name => exact ⟨congrArg Answer.strings (read_getAll _ name),rfl⟩
  | has name value =>
    refine ⟨congrArg Answer.boolean ?_,rfl⟩
    simp only [decide_matches,List.any_eq,decide_eq_true_eq]
  | entries => exact ⟨rfl,rfl⟩
  | keys => exact ⟨rfl,rfl⟩
  | values => exact ⟨rfl,rfl⟩
  | size => exact ⟨rfl,rfl⟩
  | toString => exact ⟨rfl,rfl⟩

theorem calls_refine (lawful : U.Lawful) {objects : Nat → ParamsBacking} {backing : ParamsBacking}
    (shared : ∀ object, objects object = backing) (steps : List (Nat × Op)) (heap : Heap U) :
    calls objects steps heap = answers (steps.map Prod.snd) (snapshotPairs backing heap) := by
  induction steps generalizing heap with
  | nil => rfl
  | cons step steps ih =>
    obtain ⟨object,op⟩ := step
    obtain ⟨read,changed⟩ := call_refines lawful backing op heap
    rw [calls,shared,List.map_cons,answers,← read,← changed,← ih]

theorem setFirst_others (name value : Text) (pairs : List ParamPair) :
    (setFirst name value pairs).filter (·.1 ≠ name) = pairs.filter (·.1 ≠ name) := by
  induction pairs with
  | nil => simp [setFirst]
  | cons pair pairs ih =>
    by_cases here : pair.1 = name
    · rw [setFirst_here here,List.filter_cons_of_neg (by simp),List.filter_cons_of_neg (by simpa using here),List.filter_filter]
      simp
    · rw [setFirst_other here,List.filter_cons_of_pos (by simpa using here),List.filter_cons_of_pos (by simpa using here),ih]

end Refinement

/-- The objects of a URL answer, call by call, as an object with a list of its own does,
and both as one list of pairs. -/
theorem search_params_equivalent {U : UrlCrate} (lawful : U.Lawful) (heap : Heap U) (url list : Nat)
    (objects : Nat → ParamsBacking) (made : ∀ object, objects object = urlSearchParamsGet url)
    (initial : heap.lists list = U.queryPairs (heap.urls url)) (steps : List (Nat × Op)) :
    calls objects steps heap = calls (fun _ => .owned list) steps heap ∧
      calls objects steps heap = answers (steps.map Prod.snd) (heap.lists list) ∧
      ∀ name value pairs, ((Op.set name value).change pairs).filter (·.1 ≠ name) = pairs.filter (·.1 ≠ name) := by
  have viewed := calls_refine lawful made steps heap
  have owned : calls (fun _ => .owned list) steps heap = answers (steps.map Prod.snd) (heap.lists list) :=
    calls_refine lawful (fun _ => rfl) steps heap
  change calls objects steps heap = answers (steps.map Prod.snd) (U.queryPairs (heap.urls url)) at viewed
  rw [← initial] at viewed
  exact ⟨viewed.trans owned.symm,viewed,setFirst_others⟩

/-- A URL that is nothing but its query. -/
def queryOnly : UrlCrate where
  UrlState := Option Text
  queryPairs query := FormUrlencoded.parse (utf8 (query.getD []))
  setQuery _ query := query

theorem queryOnly_lawful : queryOnly.Lawful where
  serialized _ pairs _ := FormUrlencoded.parse_extendPairs pairs
  absent _ := rfl

theorem search_params_equivalent_at_queryOnly :
    calls (fun _ => urlSearchParamsGet 0) [(0,.append "a" "1"),(1,.append "b" ""),(0,.append "a" "2"),(2,.set "a" "?"),
        (1,.toString),(0,.delete "a" none),(0,.delete "b" (some "")),(1,.size)]
      (⟨fun _ => [],fun _ => none⟩ : Heap queryOnly) =
      [.undefined,.undefined,.undefined,.undefined,.string "a=%3F&b=",.undefined,.undefined,.number 0] := by
  have same := (search_params_equivalent queryOnly_lawful ⟨fun _ => [],fun _ => none⟩ 0 0 _ (fun _ => rfl) (by decide +kernel)
    [(0,.append "a" "1"),(1,.append "b" ""),(0,.append "a" "2"),(2,.set "a" "?"),(1,.toString),(0,.delete "a" none),
      (0,.delete "b" (some "")),(1,.size)]).2.1
  rw [same]
  decide

end MechanicsCore.Url
