import Ns3.Network.Packet
import Mathlib.Logic.Function.Basic

/-!
# Byte buffers that share their storage

A `Buffer` refers to a part of a `Buffer::Data`, which other buffers may refer to as well. It has
a zero area that takes no storage, so its offsets are virtual: behind the zero area they exceed
the offset in the storage by the size of the area. Storage that is shared may be written outside
of its dirty area only.

A function that fails an assertion, or that reads or writes outside of the storage, has no result.
Offsets are taken to stay below the limit of their type.
-/

namespace Ns3

/-- `Buffer::Data`. There are no bytes from `size` on. -/
structure BufferData where
  count : Nat := 0
  size : Nat := 0
  dirtyStart : Nat := 0
  dirtyEnd : Nat := 0
  bytes : Nat → Byte := fun _ => 0

/-- The members of a `Buffer`. Its storage is given by an address. -/
structure Buffer where
  data : Nat
  maxZeroAreaStart : Nat
  zeroAreaStart : Nat
  zeroAreaEnd : Nat
  start : Nat
  end_ : Nat
  deriving DecidableEq

/-- All storage: the blocks by address, the first address that was never allocated, and the
static members of `Buffer`. The back of the free list comes first. -/
structure Storage where
  data : Nat → BufferData := fun _ => {}
  next : Nat := 0
  freeList : List Nat := []
  maxSize : Nat := 0
  recommendedStart : Nat := 0

namespace Storage

def set (d : Nat) (block : BufferData) (s : Storage) : Storage :=
  { s with data := Function.update s.data d block }

def setDirty (d dirtyStart dirtyEnd : Nat) (s : Storage) : Storage :=
  s.set d { s.data d with dirtyStart, dirtyEnd }

/-- `Allocate`. -/
def allocate (reqSize : Nat) (s : Storage) : Nat × Storage :=
  (s.next, { s.set s.next { count := 1, size := max reqSize 1 + 100 } with next := s.next + 1 })

/-- The loop of `Create`: blocks that are too small are deallocated. -/
def createFrom (dataSize : Nat) (s : Storage) : List Nat → Nat × Storage
  | [] => { s with freeList := [] }.allocate dataSize
  | d :: freeList =>
    if dataSize ≤ (s.data d).size then
      (d, { s.set d { s.data d with count := 1 } with freeList })
    else createFrom dataSize s freeList

/-- `Create`. -/
def create (dataSize : Nat) (s : Storage) : Nat × Storage := createFrom dataSize s s.freeList

/-- `Recycle`. A block that is not kept is deallocated. -/
def recycle (d : Nat) (s : Storage) : Storage :=
  let maxSize := max s.maxSize (s.data d).size
  if (s.data d).size < maxSize ∨ 1000 < s.freeList.length then { s with maxSize }
  else { s with maxSize, freeList := d :: s.freeList }

/-- One reference less. -/
def release (d : Nat) (s : Storage) : Storage :=
  let count := (s.data d).count - 1
  let s := s.set d { s.data d with count }
  if count = 0 then s.recycle d else s

/-- One reference more. -/
def refer (d : Nat) (s : Storage) : Storage :=
  s.set d { s.data d with count := (s.data d).count + 1 }

/-- The source of a `memcpy`. -/
def read (d offset size : Nat) (s : Storage) : Option (List Byte) :=
  if size = 0 ∨ offset + size ≤ (s.data d).size then
    some ((List.range size).map fun i => (s.data d).bytes (offset + i))
  else none

/-- `memcpy` or `memset` into a block. -/
def write (d offset : Nat) (bytes : List Byte) (s : Storage) : Option Storage :=
  if bytes.length = 0 ∨ offset + bytes.length ≤ (s.data d).size then
    some (s.set d { s.data d with
      bytes := fun i =>
        if offset ≤ i ∧ i < offset + bytes.length then bytes.getD (i - offset) 0
        else (s.data d).bytes i })
  else none

end Storage

/-- `Buffer::Iterator`. -/
structure BufferIterator where
  zeroStart : Nat
  zeroEnd : Nat
  dataStart : Nat
  dataEnd : Nat
  current : Nat
  data : Nat

namespace BufferIterator

variable (profile : BuildProfile)

/-- `Prev`. -/
def prev (delta : Nat) (i : BufferIterator) : Option BufferIterator := do
  nsAssert profile (delta ≤ i.current)
  return { i with current := i.current - delta }

/-- `CheckNoZero`. -/
def checkNoZero (start stop : Nat) (i : BufferIterator) : Bool :=
  !(start < i.dataStart || i.dataEnd < stop ||
    (i.zeroStart < stop && start < i.zeroEnd && i.zeroEnd != i.zeroStart && start != stop))

/-- Where the current byte is stored. -/
def offset (i : BufferIterator) : Nat :=
  if i.current ≤ i.zeroStart then i.current else i.current - (i.zeroEnd - i.zeroStart)

/-- `WriteU8` with a length. -/
def writeU8 (byte : Byte) (len : Nat) (i : BufferIterator) (s : Storage) : Option Storage := do
  nsAssert profile (i.checkNoZero i.current (i.current + len))
  s.write i.data i.offset (List.replicate len byte)

/-- `Write` of an array. The assertion takes the size for the end. -/
def writeBytes (bytes : List Byte) (i : BufferIterator) (s : Storage) : Option Storage := do
  nsAssert profile (i.checkNoZero i.current bytes.length)
  s.write i.data i.offset bytes

/-- `Write` of what lies between two iterators: the bytes before the zero area, the zeros and the
bytes behind it. The destination is not corrected for a zero area of its own. -/
def writeRange (i first last : BufferIterator) (s : Storage) : Option Storage := do
  nsAssert profile (first.data == last.data)
  nsAssert profile (first.current ≤ last.current)
  nsAssert profile (first.zeroStart == last.zeroStart)
  nsAssert profile (first.zeroEnd == last.zeroEnd)
  nsAssert profile (i.data != first.data)
  let size := last.current - first.current
  nsAssert profile (i.checkNoZero i.current (i.current + size))
  let before :=
    if first.current ≤ first.zeroStart then min size (first.zeroStart - first.current) else 0
  let bytes ← s.read first.data first.current before
  let s ← s.write i.data i.current bytes
  let zeros :=
    if first.current + before ≤ first.zeroEnd then
      min (size - before) (first.zeroEnd - (first.current + before))
    else 0
  let s ← s.write i.data (i.current + before) (List.replicate zeros 0)
  let copied := first.current + before + zeros
  let after := min (size - before - zeros) (first.dataEnd - copied)
  let bytes ← s.read first.data (copied - (first.zeroEnd - first.zeroStart)) after
  s.write i.data (i.current + before + zeros) bytes

end BufferIterator

namespace Buffer

variable (profile : BuildProfile)

/-! ## Sizes and iterators -/

/-- `GetSize`. -/
def size (b : Buffer) : Nat := b.end_ - b.start

/-- The size of the zero area. -/
def zeroSize (b : Buffer) : Nat := b.zeroAreaEnd - b.zeroAreaStart

/-- `GetInternalSize`. -/
def internalSize (b : Buffer) : Nat := b.zeroAreaStart - b.start + (b.end_ - b.zeroAreaEnd)

/-- `GetInternalEnd`. -/
def internalEnd (b : Buffer) : Nat := b.end_ - b.zeroSize

/-- `Begin`. -/
def begin (b : Buffer) : BufferIterator where
  zeroStart := b.zeroAreaStart
  zeroEnd := b.zeroAreaEnd
  dataStart := b.start
  dataEnd := b.end_
  current := b.start
  data := b.data

/-- `End`. -/
def endIterator (b : Buffer) : BufferIterator := { b.begin with current := b.end_ }

/-- The bytes of a buffer, as they are read through iterators. -/
def contents (s : Storage) (b : Buffer) : List Byte :=
  ((List.range (b.zeroAreaStart - b.start)).map fun i => (s.data b.data).bytes (b.start + i)) ++
    List.replicate b.zeroSize 0 ++
    (List.range (b.end_ - b.zeroAreaEnd)).map fun i =>
      (s.data b.data).bytes (b.zeroAreaStart + i)

/-! ## Construction, copies and destruction -/

/-- The constructor, which calls `Initialize`. -/
def construct (zeroSize : Nat) (s : Storage) : Buffer × Storage :=
  let (data, s) := s.create 0
  let start := min (s.data data).size s.recommendedStart
  ({ data, maxZeroAreaStart := start, zeroAreaStart := start, zeroAreaEnd := start + zeroSize
     start, end_ := start + zeroSize },
    s.setDirty data start (start + zeroSize))

/-- The copy constructor. -/
def copy (o : Buffer) (s : Storage) : Buffer × Storage :=
  ({ o with maxZeroAreaStart := o.zeroAreaStart }, s.refer o.data)

def recommend (start : Nat) (s : Storage) : Storage :=
  { s with recommendedStart := max s.recommendedStart start }

/-- `operator=`. -/
def assign (b o : Buffer) (s : Storage) : Buffer × Storage :=
  let s := if b.data = o.data then s else (s.release b.data).refer o.data
  (o, recommend b.maxZeroAreaStart s)

/-- The destructor. -/
def destroy (b : Buffer) (s : Storage) : Storage :=
  (recommend b.maxZeroAreaStart s).release b.data

/-- `m_maxZeroAreaStart` after a change. -/
def noteZeroArea (b : Buffer) : Buffer :=
  { b with maxZeroAreaStart := max b.maxZeroAreaStart b.zeroAreaStart }

/-! ## Adding -/

/-- `AddAtStart`. -/
def addAtStart (start : Nat) (b : Buffer) (s : Storage) : Option (Buffer × Storage) :=
  let block := s.data b.data
  let isDirty := 1 < block.count && block.dirtyStart < b.start
  if start ≤ b.start && !isDirty then do
    nsAssert profile (block.count == 1 || b.start == block.dirtyStart)
    let b := { b with start := b.start - start }
    return (b.noteZeroArea, s.set b.data { block with dirtyStart := b.start })
  else do
    let (data, s) := s.create (b.internalSize + start)
    let bytes ← s.read b.data b.start b.internalSize
    let s ← s.write data start bytes
    let s := s.release b.data
    let b := { b with
      data, start := 0
      zeroAreaStart := b.zeroAreaStart + start - b.start
      zeroAreaEnd := b.zeroAreaEnd + start - b.start
      end_ := b.end_ + start - b.start }
    return (b.noteZeroArea, s.setDirty data b.start b.end_)

/-- `AddAtEnd` of a number of bytes. -/
def addAtEnd (end_ : Nat) (b : Buffer) (s : Storage) : Option (Buffer × Storage) :=
  let block := s.data b.data
  let isDirty := 1 < block.count && b.end_ < block.dirtyEnd
  if b.internalEnd + end_ ≤ block.size && !isDirty then do
    nsAssert profile (block.count == 1 || b.end_ == block.dirtyEnd)
    let b := { b with end_ := b.end_ + end_ }
    return (b.noteZeroArea, s.set b.data { block with dirtyEnd := b.end_ })
  else do
    let (data, s) := s.create (b.internalSize + end_)
    let bytes ← s.read b.data b.start b.internalSize
    let s ← s.write data 0 bytes
    let s := s.release b.data
    let b := { b with
      data, start := 0
      zeroAreaStart := b.zeroAreaStart - b.start
      zeroAreaEnd := b.zeroAreaEnd - b.start
      end_ := b.end_ - b.start + end_ }
    return (b.noteZeroArea, s.setDirty data b.start b.end_)

/-- `CreateFullCopy` of a buffer with a zero area. -/
def realCopy (b : Buffer) (s : Storage) : Option (Buffer × Storage) := do
  let (tmp, s) := construct 0 s
  let (tmp, s) ← tmp.addAtStart profile b.zeroSize s
  let s ← tmp.begin.writeU8 profile 0 b.zeroSize s
  let dataStart := b.zeroAreaStart - b.start
  let (tmp, s) ← tmp.addAtStart profile dataStart s
  let bytes ← s.read b.data b.start dataStart
  let s ← tmp.begin.writeBytes profile bytes s
  let dataEnd := b.end_ - b.zeroAreaEnd
  let (tmp, s) ← tmp.addAtEnd profile dataEnd s
  let i ← tmp.endIterator.prev profile dataEnd
  let bytes ← s.read b.data b.zeroAreaStart dataEnd
  let s ← i.writeBytes profile bytes s
  return (tmp, s)

/-- `CreateFullCopy`. -/
def createFullCopy (b : Buffer) (s : Storage) : Option (Buffer × Storage) :=
  if b.zeroSize ≠ 0 then b.realCopy profile s else some (b.copy s)

/-- `*this = CreateFullCopy ()`, with the end of the temporary. -/
def becomeReal (b : Buffer) (s : Storage) : Option (Buffer × Storage) := do
  let (tmp, s) ← b.createFullCopy profile s
  let (b, s) := b.assign tmp s
  return (b, tmp.destroy s)

/-- Two adjacent zero areas are put together. -/
def aggregates (b o : Buffer) (s : Storage) : Bool :=
  (s.data b.data).count == 1 &&
    (b.end_ == b.zeroAreaEnd || b.zeroAreaStart == b.zeroAreaEnd) &&
    b.end_ == (s.data b.data).dirtyEnd && o.start == o.zeroAreaStart && 0 < o.zeroSize

/-- The zero area of the aggregate. -/
def extendZeroArea (zeroSize : Nat) (b : Buffer) : Buffer :=
  { b with
    zeroAreaStart := if b.zeroAreaStart = b.zeroAreaEnd then b.end_ else b.zeroAreaStart
    zeroAreaEnd := b.end_ + zeroSize
    end_ := b.end_ + zeroSize }

/-- The last `size` bytes of one buffer are written over those of another. -/
def writeTail (size : Nat) (b o : Buffer) (s : Storage) : Option (Buffer × Storage) := do
  let dst ← b.endIterator.prev profile size
  let src ← o.endIterator.prev profile size
  let s ← dst.writeRange profile src o.endIterator s
  return (b, s)

/-- `AddAtEnd` of a buffer. -/
def addBufferAtEnd (b o : Buffer) (s : Storage) : Option (Buffer × Storage) :=
  if b.aggregates o s then do
    let b := b.extendZeroArea o.zeroSize
    let s := s.set b.data { s.data b.data with dirtyEnd := b.zeroAreaEnd }
    let endData := o.end_ - o.zeroAreaEnd
    let (b, s) ← b.addAtEnd profile endData s
    b.writeTail profile endData o s
  else do
    let (b, s) ← b.becomeReal profile s
    let (b, s) ← b.addAtEnd profile o.size s
    b.writeTail profile o.size o s

/-! ## Removing -/

/-- `RemoveAtStart`. -/
def removeAtStart (start : Nat) (b : Buffer) : Buffer :=
  let newStart := b.start + start
  noteZeroArea <|
    if newStart ≤ b.zeroAreaStart then { b with start := newStart }
    else if newStart ≤ b.zeroAreaEnd then
      let delta := newStart - b.zeroAreaStart
      { b with
        start := b.zeroAreaStart, zeroAreaEnd := b.zeroAreaEnd - delta, end_ := b.end_ - delta }
    else if newStart ≤ b.end_ then
      -- The assertion of this case, `m_end >= start`, follows from its condition.
      { b with
        start := newStart - b.zeroSize, end_ := b.end_ - b.zeroSize
        zeroAreaStart := newStart - b.zeroSize, zeroAreaEnd := newStart - b.zeroSize }
    else
      { b with
        end_ := b.internalEnd, start := b.internalEnd
        zeroAreaEnd := b.internalEnd, zeroAreaStart := b.internalEnd }

/-- `RemoveAtEnd`. -/
def removeAtEnd (end_ : Nat) (b : Buffer) : Buffer :=
  let newEnd := b.end_ - min end_ (b.end_ - b.start)
  noteZeroArea <|
    if b.zeroAreaEnd < newEnd then { b with end_ := newEnd }
    else if b.zeroAreaStart < newEnd then { b with end_ := newEnd, zeroAreaEnd := newEnd }
    else if b.start < newEnd then
      { b with end_ := newEnd, zeroAreaEnd := newEnd, zeroAreaStart := newEnd }
    else { b with end_ := b.start, zeroAreaEnd := b.start, zeroAreaStart := b.start }

/-- `CreateFragment`. What is cut off at the end is a 32-bit difference. -/
def createFragment (start length : Nat) (b : Buffer) (s : Storage) : Buffer × Storage :=
  let (tmp, s) := b.copy s
  ((tmp.removeAtStart start).removeAtEnd (UInt32.sub b.size (UInt32.add start length)), s)

end Buffer

/-! ## Runs -/

/-- All objects of type `Buffer`, in their storage. -/
structure Buffers where
  storage : Storage := {}
  objects : List Buffer := []

/-- What is done with the objects, which are numbered. Bytes that are added are written at once. -/
inductive BufferOp where
  | construct (dataSize : Nat)
  | copy (i : Nat)
  | assign (i j : Nat)
  | destroy (i : Nat)
  | addAtStart (i : Nat) (bytes : List Byte)
  | addAtEnd (i : Nat) (bytes : List Byte)
  | addBufferAtEnd (i j : Nat)
  | removeAtStart (i start : Nat)
  | removeAtEnd (i end_ : Nat)
  | createFragment (i start length : Nat)
  | peekData (i : Nat)

namespace Buffers

variable (profile : BuildProfile)

/-- A new object. -/
def push (r : Buffer × Storage) (f : Buffers) : Buffers :=
  { storage := r.2, objects := f.objects ++ [r.1] }

/-- An object with other members. -/
def put (i : Nat) (r : Buffer × Storage) (f : Buffers) : Buffers :=
  { storage := r.2, objects := f.objects.set i r.1 }

/-- One step. Objects have to exist. An object is not added to itself. -/
def step (f : Buffers) : BufferOp → Option Buffers
  | .construct dataSize => some (f.push (Buffer.construct dataSize f.storage))
  | .copy i => do
      let b ← f.objects[i]?
      return f.push (b.copy f.storage)
  | .assign i j => do
      let b ← f.objects[i]?
      let o ← f.objects[j]?
      return f.put i (b.assign o f.storage)
  | .destroy i => do
      let b ← f.objects[i]?
      return { storage := b.destroy f.storage, objects := f.objects.eraseIdx i }
  | .addAtStart i bytes => do
      let b ← f.objects[i]?
      let (b, s) ← b.addAtStart profile bytes.length f.storage
      let s ← b.begin.writeBytes profile bytes s
      return f.put i (b, s)
  | .addAtEnd i bytes => do
      let b ← f.objects[i]?
      let (b, s) ← b.addAtEnd profile bytes.length f.storage
      let dst ← b.endIterator.prev profile bytes.length
      let s ← dst.writeBytes profile bytes s
      return f.put i (b, s)
  | .addBufferAtEnd i j => do
      let b ← f.objects[i]?
      let o ← f.objects[j]?
      let r ← if i = j then none else b.addBufferAtEnd profile o f.storage
      return f.put i r
  | .removeAtStart i start => do
      let b ← f.objects[i]?
      return f.put i (b.removeAtStart start, f.storage)
  | .removeAtEnd i end_ => do
      let b ← f.objects[i]?
      return f.put i (b.removeAtEnd end_, f.storage)
  | .createFragment i start length => do
      let b ← f.objects[i]?
      return f.push (b.createFragment start length f.storage)
  | .peekData i => do
      let b ← f.objects[i]?
      let r ← b.becomeReal profile f.storage
      return f.put i r

end Buffers

end Ns3
