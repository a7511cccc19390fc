import MechanicsCore.Library.Outcome
import MechanicsCore.Library.Text

/-! Buffer-like arguments of the built-in functions: typed arrays, data views and array
buffers over one heap of byte buffers, which they may share. What the engine's getters
answer for a view is part of the value; a buffer may since have been detached or be
too short for it. -/
namespace MechanicsCore.Builtins
open MechanicsCore.Library

inductive NativeError
  | typ (message : String)
  | range (message : String)
  | rust
  deriving DecidableEq

/-- An `ArrayBuffer` or a `SharedArrayBuffer`; a detached one has no data. -/
structure ArrayBuffer where
  data : Option (List UInt8)
  shared : Bool
  deriving DecidableEq

abbrev Heap := List ArrayBuffer

structure View where
  buffer : Option Nat
  byteOffset : Nat
  byteLength : Nat
  deriving DecidableEq

inductive Value
  | undefined
  | string (text : Text)
  | typedArray (view : View)
  | dataView (view : View)
  | arrayBuffer (buffer : Nat)
  | other
  deriving DecidableEq

def usizeBound : Nat := 2 ^ 64

def u64ToUsize (value : Nat) (field : String) : Except NativeError Nat :=
  if value < usizeBound then .ok value else .error (.range s!"{field} exceeds usize range")

def data (h : Heap) (buffer : Nat) : Option (List UInt8) := h[buffer]?.bind (·.data)

def isShared (h : Heap) (buffer : Nat) : Bool := h[buffer]?.any (·.shared)

/-- What a range of bytes says before it is known to be there. -/
structure Range where
  buffer : Nat
  offset : Nat
  len : Nat
  deriving DecidableEq

def viewBuffer (h : Heap) (kind : String) (view : View) : Except NativeError Nat :=
  match view.buffer with
  | none => .error (.typ s!"{kind} buffer is not an ArrayBuffer")
  | some buffer =>
    if isShared h buffer then .error (.typ s!"{kind} backed by SharedArrayBuffer is not supported") else .ok buffer

/-- The part that reading and filling have in common: which bytes a value stands for. -/
def bufferLikeRange (h : Heap) : Value → Except NativeError (Option Range)
  | .typedArray view => do
    let buffer ← viewBuffer h "TypedArray" view
    return some ⟨buffer,view.byteOffset,view.byteLength⟩
  | .dataView view => do
    let buffer ← viewBuffer h "DataView" view
    let offset ← u64ToUsize view.byteOffset "DataView byte_offset"
    let len ← u64ToUsize view.byteLength "DataView byte_length"
    return some ⟨buffer,offset,len⟩
  | .arrayBuffer buffer =>
    if isShared h buffer then .ok none else .ok (some ⟨buffer,0,((data h buffer).getD []).length⟩)
  | .undefined | .string _ | .other => .ok none

/-- The bytes of the buffer, once the range is known to lie within them. -/
def checkRange (h : Heap) (r : Range) : Except NativeError (List UInt8) :=
  match data h r.buffer with
  | none => .error (.typ "ArrayBuffer is detached")
  | some bytes =>
    if usizeBound ≤ r.offset + r.len then .error (.range "buffer range overflow")
    else if bytes.length < r.offset + r.len then .error (.range "buffer range is out of bounds")
    else .ok bytes

def readBytesFromArrayBufferRange (h : Heap) (r : Range) : Except NativeError (List UInt8) := do
  let bytes ← checkRange h r
  return (bytes.drop r.offset).take r.len

def tryExtractBufferLikeBytes (h : Heap) (value : Value) : Except NativeError (Option (List UInt8)) := do
  match ← bufferLikeRange h value with
  | none => return none
  | some r => return some (← readBytesFromArrayBufferRange h r)

/-- `getrandom::fill`: what it has written into a target of each length, and whether it succeeded. -/
structure RandomSource where
  bytes : Nat → List UInt8
  ok : Nat → Bool
  length_bytes : ∀ len, (bytes len).length = len

def overwrite (bytes : List UInt8) (offset : Nat) (new : List UInt8) : List UInt8 :=
  bytes.take offset ++ new ++ bytes.drop (offset + new.length)

def setData (h : Heap) (buffer : Nat) (bytes : List UInt8) : Heap :=
  h.modify buffer fun b => {b with data := some bytes}

def fillRandomInArrayBufferRange (random : RandomSource) (h : Heap) (r : Range) : Except NativeError Unit × Heap :=
  match checkRange h r with
  | .error e => (.error e,h)
  | .ok bytes =>
    (if random.ok r.len then .ok () else .error .rust,setData h r.buffer (overwrite bytes r.offset (random.bytes r.len)))

def fillRandomBufferLike (random : RandomSource) (h : Heap) (value : Value) : Except NativeError Unit × Heap :=
  match bufferLikeRange h value with
  | .error e => (.error e,h)
  | .ok none => (.error (.typ "bufferLike must be a TypedArray, ArrayBuffer, or DataView"),h)
  | .ok (some r) => fillRandomInArrayBufferRange random h r

def randFillRandom (random : RandomSource) (h : Heap) (args : List Value) : Except NativeError Unit × Heap :=
  fillRandomBufferLike random h (args.getD 0 .undefined)

/-- The bytes as a new `Uint8Array`, with a buffer of its own. -/
def bytesToUint8ArrayValue (h : Heap) (bytes : List UInt8) : Value × Heap :=
  (.typedArray ⟨some h.length,0,bytes.length⟩,h ++ [⟨some bytes,false⟩])

def requiredStringArg (args : List Value) (index : Nat) (name : String) : Except NativeError Text :=
  match args.getD index .undefined with
  | .string text => .ok text
  | _ => .error (.typ s!"{name} must be a string")

def requiredBufferLikeArg (h : Heap) (args : List Value) (index : Nat) (name : String) : Except NativeError (List UInt8) := do
  match ← tryExtractBufferLikeBytes h (args.getD index .undefined) with
  | none => .error (.typ s!"{name} must be a TypedArray, ArrayBuffer, or DataView")
  | some bytes => return bytes

/-! ## What a fill changes -/

/-- The same buffers of the same lengths, shared and detached alike. -/
structure SameShape (h h' : Heap) : Prop where
  shared : ∀ buffer, isShared h' buffer = isShared h buffer
  length : ∀ buffer, (data h' buffer).map List.length = (data h buffer).map List.length

theorem SameShape.refl (h : Heap) : SameShape h h := ⟨fun _ => rfl,fun _ => rfl⟩

theorem SameShape.trans {a b c : Heap} (first : SameShape a b) (second : SameShape b c) : SameShape a c :=
  ⟨fun buffer => (second.shared buffer).trans (first.shared buffer),
    fun buffer => (second.length buffer).trans (first.length buffer)⟩

theorem SameShape.bufferLikeRange {h h' : Heap} (same : SameShape h h') (value : Value) :
    bufferLikeRange h' value = bufferLikeRange h value := by
  have view (kind : String) (v : View) : viewBuffer h' kind v = viewBuffer h kind v := by
    simp only [viewBuffer,same.shared]
  cases value with
  | typedArray v => simp only [Builtins.bufferLikeRange,view]
  | dataView v => simp only [Builtins.bufferLikeRange,view]
  | arrayBuffer buffer =>
    have size := same.length buffer
    simp only [Builtins.bufferLikeRange,same.shared]
    cases old : data h buffer <;> cases new : data h' buffer <;> simp_all
  | undefined => rfl
  | string text => rfl
  | other => rfl

theorem getElem?_overwrite {bytes new : List UInt8} {offset : Nat} (fits : offset + new.length ≤ bytes.length) (i : Nat) :
    (overwrite bytes offset new)[i]? =
      if offset ≤ i ∧ i < offset + new.length then new[i - offset]? else bytes[i]? := by
  have front : (bytes.take offset).length = offset := by rw [List.length_take]; omega
  rw [overwrite,List.append_assoc]
  split
  next inside =>
    rw [List.getElem?_append_right (by omega),List.getElem?_append_left (by omega),front]
  next outside =>
    by_cases early : i < offset
    · rw [List.getElem?_append_left (by omega),List.getElem?_take_of_lt early]
    · rw [List.getElem?_append_right (by omega),List.getElem?_append_right (by omega),front,List.getElem?_drop]
      congr 1
      omega

theorem length_overwrite {bytes new : List UInt8} {offset : Nat} (fits : offset + new.length ≤ bytes.length) :
    (overwrite bytes offset new).length = bytes.length := by
  simp only [overwrite,List.length_append,List.length_take,List.length_drop]
  omega

theorem slice_overwrite_apart {bytes new : List UInt8} {offset start len : Nat} (fits : offset + new.length ≤ bytes.length)
    (apart : start + len ≤ offset ∨ offset + new.length ≤ start) :
    ((overwrite bytes offset new).drop start).take len = (bytes.drop start).take len := by
  refine List.ext_getElem? fun i => ?_
  by_cases within : i < len
  · rw [List.getElem?_take_of_lt within,List.getElem?_take_of_lt within,List.getElem?_drop,List.getElem?_drop,
      getElem?_overwrite fits,if_neg (by omega)]
  · simp [within]

theorem slice_overwrite_self {bytes new : List UInt8} {offset : Nat} (fits : offset + new.length ≤ bytes.length) :
    ((overwrite bytes offset new).drop offset).take new.length = new := by
  have front : (bytes.take offset).length = offset := by rw [List.length_take]; omega
  rw [overwrite,List.append_assoc,List.drop_left' front,List.take_left]

theorem getElem?_setData (h : Heap) (buffer other : Nat) (bytes : List UInt8) :
    (setData h buffer bytes)[other]? =
      if buffer = other then h[other]?.map fun b => {b with data := some bytes} else h[other]? := by
  rw [setData,List.getElem?_modify]
  split
  next same => rfl
  next differ => simp

/-- A checked range is that of a buffer with data, long enough for it. -/
theorem checkRange_ok {h : Heap} {r : Range} {bytes : List UInt8} (checked : checkRange h r = .ok bytes) :
    data h r.buffer = some bytes ∧ r.offset + r.len ≤ bytes.length ∧ r.offset + r.len < usizeBound := by
  unfold checkRange at checked
  split at checked
  next => cases checked
  next found known =>
    split at checked
    · cases checked
    split at checked
    · cases checked
    · cases checked
      exact ⟨known,by omega,by omega⟩

theorem data_setData {h : Heap} {buffer : Nat} {old : List UInt8} (known : data h buffer = some old) (new : List UInt8)
    (other : Nat) : data (setData h buffer new) other = if buffer = other then some new else data h other := by
  obtain ⟨b,found,_⟩ := Option.bind_eq_some_iff.mp known
  rw [data,getElem?_setData]
  split
  next same =>
    subst same
    rw [found]
    rfl
  next => rfl

theorem isShared_setData (h : Heap) (buffer other : Nat) (new : List UInt8) :
    isShared (setData h buffer new) other = isShared h other := by
  rw [isShared,getElem?_setData]
  split
  next =>
    rw [isShared]
    cases h[other]? <;> rfl
  next => rfl

/-- Two ranges without a byte in common. -/
def Range.Apart (r s : Range) : Prop := r.buffer ≠ s.buffer ∨ r.offset + r.len ≤ s.offset ∨ s.offset + s.len ≤ r.offset

section Fill
variable {random : RandomSource} {h h' : Heap} {r s : Range}

/-- A fill either left the heap as it was or has overwritten its checked range. -/
def Filled (random : RandomSource) (h : Heap) (r : Range) (h' : Heap) : Prop :=
  ∃ bytes, checkRange h r = .ok bytes ∧ h' = setData h r.buffer (overwrite bytes r.offset (random.bytes r.len))

theorem fillRandomBufferLike_cases (random : RandomSource) (h : Heap) (value : Value) :
    ((fillRandomBufferLike random h value).2 = h ∧ ∃ e, (fillRandomBufferLike random h value).1 = .error e) ∨
      ∃ r, bufferLikeRange h value = .ok (some r) ∧ Filled random h r (fillRandomBufferLike random h value).2 := by
  unfold fillRandomBufferLike
  cases ranged : bufferLikeRange h value with
  | error e => exact .inl ⟨rfl,e,rfl⟩
  | ok found =>
    cases found with
    | none => exact .inl ⟨rfl,_,rfl⟩
    | some r =>
      cases checked : checkRange h r with
      | error e => exact .inl (by simp [fillRandomInArrayBufferRange,checked])
      | ok bytes => exact .inr ⟨r,rfl,bytes,checked,by simp [fillRandomInArrayBufferRange,checked]⟩

theorem Filled.sameShape (filled : Filled random h r h') : SameShape h h' := by
  obtain ⟨bytes,checked,rfl⟩ := filled
  obtain ⟨known,fits,_⟩ := checkRange_ok checked
  have size : (overwrite bytes r.offset (random.bytes r.len)).length = bytes.length :=
    length_overwrite (by rwa [random.length_bytes])
  refine ⟨fun buffer => isShared_setData h r.buffer buffer _,fun buffer => ?_⟩
  rw [data_setData known]
  split
  next same => rw [← same,known,Option.map_some,Option.map_some,size]
  next => rfl

theorem Filled.read_apart (filled : Filled random h r h') (apart : s.Apart r) :
    readBytesFromArrayBufferRange h' s = readBytesFromArrayBufferRange h s := by
  obtain ⟨bytes,checked,rfl⟩ := filled
  obtain ⟨known,fits,_⟩ := checkRange_ok checked
  have fits' : r.offset + (random.bytes r.len).length ≤ bytes.length := by rwa [random.length_bytes]
  by_cases same : r.buffer = s.buffer
  · -- the same buffer: its length is as before, and so are the bytes of the other range
    have old : data h s.buffer = some bytes := same ▸ known
    have new : data (setData h r.buffer (overwrite bytes r.offset (random.bytes r.len))) s.buffer =
        some (overwrite bytes r.offset (random.bytes r.len)) := by
      rw [data_setData known,if_pos same]
    have apart' : s.offset + s.len ≤ r.offset ∨ r.offset + (random.bytes r.len).length ≤ s.offset := by
      rw [random.length_bytes]
      exact apart.resolve_left (not_not_intro same.symm)
    simp only [readBytesFromArrayBufferRange,checkRange,old,new,length_overwrite fits']
    split
    · rfl
    split
    · rfl
    · exact congrArg Except.ok (slice_overwrite_apart fits' apart')
  · simp only [readBytesFromArrayBufferRange,checkRange,data_setData known,if_neg same]

theorem Filled.read_self (filled : Filled random h r h') :
    readBytesFromArrayBufferRange h' r = .ok (random.bytes r.len) := by
  obtain ⟨bytes,checked,rfl⟩ := filled
  obtain ⟨known,fits,bound⟩ := checkRange_ok checked
  have fits' : r.offset + (random.bytes r.len).length ≤ bytes.length := by rwa [random.length_bytes]
  have own := slice_overwrite_self fits'
  rw [random.length_bytes] at own
  unfold readBytesFromArrayBufferRange checkRange
  rw [data_setData known,if_pos rfl]
  simp only [if_neg (Nat.not_le.mpr bound),length_overwrite fits',if_neg (Nat.not_lt.mpr fits)]
  exact congrArg Except.ok own

theorem fillRandomBufferLike_sameShape (random : RandomSource) (h : Heap) (value : Value) :
    SameShape h (fillRandomBufferLike random h value).2 := by
  rcases fillRandomBufferLike_cases random h value with ⟨same,_⟩ | ⟨r,_,filled⟩
  · rw [same]
    exact .refl h
  · exact filled.sameShape

/-- In this heap the two values have no byte in common. -/
def ApartIn (h : Heap) (value target : Value) : Prop :=
  ∀ r s, bufferLikeRange h value = .ok (some r) → bufferLikeRange h target = .ok (some s) → r.Apart s

theorem fillRandomBufferLike_apart {value seen : Value} (apart : ApartIn h seen value) :
    tryExtractBufferLikeBytes (fillRandomBufferLike random h value).2 seen = tryExtractBufferLikeBytes h seen := by
  rcases fillRandomBufferLike_cases random h value with ⟨same,_⟩ | ⟨s,target,filled⟩
  · rw [same]
  unfold tryExtractBufferLikeBytes
  rw [filled.sameShape.bufferLikeRange]
  cases found : bufferLikeRange h seen with
  | error e => rfl
  | ok ranged =>
    cases ranged with
    | none => rfl
    | some r =>
      have kept := filled.read_apart (apart r s found target)
      simp only [bind,Except.bind,kept]

theorem fillRandomBufferLike_self {value : Value} (returned : (fillRandomBufferLike random h value).1 = .ok ()) :
    ∃ r, bufferLikeRange h value = .ok (some r) ∧
      tryExtractBufferLikeBytes (fillRandomBufferLike random h value).2 value = .ok (some (random.bytes r.len)) := by
  rcases fillRandomBufferLike_cases random h value with ⟨_,e,failed⟩ | ⟨r,target,filled⟩
  · rw [failed] at returned
    cases returned
  · refine ⟨r,target,?_⟩
    unfold tryExtractBufferLikeBytes
    rw [filled.sameShape.bufferLikeRange,target]
    simp only [bind,Except.bind,filled.read_self]
    rfl

/-- Calls of `fillRandom`, each with what the system writes for it; errors are caught. -/
def afterFills (h : Heap) (calls : List (RandomSource × List Value)) : Heap :=
  calls.foldl (fun h call => (randFillRandom call.1 h call.2).2) h

theorem afterFills_sameShape (h : Heap) (calls : List (RandomSource × List Value)) : SameShape h (afterFills h calls) := by
  induction calls generalizing h with
  | nil => exact .refl h
  | cons call calls ih => exact (fillRandomBufferLike_sameShape call.1 h _).trans (ih _)

theorem afterFills_apart {calls : List (RandomSource × List Value)} {seen : Value}
    (apart : ∀ call ∈ calls, ApartIn h seen (call.2.getD 0 .undefined)) :
    tryExtractBufferLikeBytes (afterFills h calls) seen = tryExtractBufferLikeBytes h seen := by
  induction calls generalizing h with
  | nil => rfl
  | cons call calls ih =>
    have shape := fillRandomBufferLike_sameShape call.1 h (call.2.getD 0 .undefined)
    have later : ∀ next ∈ calls, ApartIn (randFillRandom call.1 h call.2).2 seen (next.2.getD 0 .undefined) := by
      intro next found r s
      rw [randFillRandom,shape.bufferLikeRange,shape.bufferLikeRange]
      exact apart next (List.mem_cons_of_mem _ found) r s
    exact (ih later).trans (fillRandomBufferLike_apart (apart call List.mem_cons_self))

/-- `fillRandom` writes to the bytes of its argument and nowhere else: whatever was filled
before, in views that overlap or not, a value apart from all of these reads as it did,
and after a call that returns its own argument reads as what the system wrote. -/
theorem random_fills_stay_in_range (h : Heap) (calls : List (RandomSource × List Value)) (seen : Value)
    (apart : ∀ call ∈ calls, ApartIn h seen (call.2.getD 0 .undefined)) :
    tryExtractBufferLikeBytes (afterFills h calls) seen = tryExtractBufferLikeBytes h seen ∧
      ∀ random args, (randFillRandom random (afterFills h calls) args).1 = .ok () →
        ∃ r, bufferLikeRange h (args.getD 0 .undefined) = .ok (some r) ∧
          tryExtractBufferLikeBytes (randFillRandom random (afterFills h calls) args).2 (args.getD 0 .undefined) =
            .ok (some (random.bytes r.len)) := by
  refine ⟨afterFills_apart apart,fun random args returned => ?_⟩
  obtain ⟨r,target,read⟩ := fillRandomBufferLike_self returned
  rw [(afterFills_sameShape h calls).bufferLikeRange] at target
  exact ⟨r,target,read⟩

/-- Writes one number throughout. -/
def steady (byte : UInt8) : RandomSource := ⟨fun len => List.replicate len byte,fun _ => true,fun _ => List.length_replicate⟩

theorem random_fills_stay_in_range_side_by_side :
    let h : Heap := [⟨some [1,2,3,4,5,6],false⟩]
    let calls := [(steady 7,[.typedArray ⟨some 0,0,3⟩]),(steady 9,[.dataView ⟨some 0,2,2⟩])]
    afterFills h calls = [⟨some [7,7,9,9,5,6],false⟩] ∧
      tryExtractBufferLikeBytes (afterFills h calls) (.typedArray ⟨some 0,4,2⟩) = .ok (some [5,6]) := by
  refine ⟨by decide,(random_fills_stay_in_range _ _ _ ?_).1.trans rfl⟩
  intro call found r s here there
  cases here
  rcases List.mem_pair.mp found with rfl | rfl
  · cases there
    exact .inr (.inr (by decide))
  · cases there
    exact .inr (.inr (by decide))

end Fill
end MechanicsCore.Builtins
