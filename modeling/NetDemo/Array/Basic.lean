import NetDemo.Lib.BlockHeap
import NetDemo.Lib.ExceptState

/-!
This module contains the class `Array` of the asio demo over an explicit heap: its constructors, its
`operator=` and its destructor. Only these members touch `data_` and `size_`. A reference to an object
is an index, and an object whose lifetime has ended is `none`.

Sizes are `int` in the source and not negative here, `new int[n]` throws for a negative one. The
missing `return` of `operator=` is taken as `return *this`.
-/

structure IntArray where
  data : Nat
  size : Nat
  deriving DecidableEq, Repr

structure Arrays where
  heap : BlockHeap Int32
  objects : List (Option IntArray)
  deriving DecidableEq

/--
What `new int[n]` does: it throws, or the block that it returns has some contents.
-/
abbrev Allocation := Option (Nat → Int32)

abbrev ArrayM := ExceptT HeapFault (StateM Arrays)

namespace Arrays

open ExceptState

def empty : Arrays where
  heap := .empty
  objects := []

def object? (s : Arrays) (a : Nat) : Option IntArray :=
  s.objects[a]?.join

def object (a : Nat) : ArrayM IntArray := do
  match (← get).object? a with
  | some array => pure array
  | none => throw .useAfterFree

def setObject (a : Nat) (array : IntArray) : ArrayM Unit :=
  modify fun s => { s with objects := s.objects.set a (some array) }

def addObject (array : IntArray) : ArrayM Unit :=
  modify fun s => { s with objects := s.objects ++ [some array] }

def newInts (allocation : Allocation) (n : Nat) : ArrayM Nat :=
  match allocation with
  | some garbage =>
    modifyGet fun s =>
      (s.heap.blocks.length, { s with heap := s.heap.alloc ((List.range n).map garbage) })
  | none => throw .badAlloc

def deleteInts (data : Nat) : ArrayM Unit := do
  match (← get).heap.free data with
  | .ok heap => modify fun s => { s with heap := heap }
  | .error fault => throw fault

def readInt (data i : Nat) : ArrayM Int32 := do
  match (← get).heap.read data i with
  | .ok x => pure x
  | .error fault => throw fault

def writeInt (data i : Nat) (x : Int32) : ArrayM Unit := do
  match (← get).heap.write data i x with
  | .ok heap => modify fun s => { s with heap := heap }
  | .error fault => throw fault

def copyElement (tempArray data i : Nat) : ArrayM Unit := do
  let x ← readInt (← object tempArray).data i
  writeInt data i x

def construct (size : Nat) (allocation : Allocation) : ArrayM Unit := do
  let data ← newInts allocation size
  addObject ⟨data, size⟩

def copyConstruct (tempArray : Nat) (allocation : Allocation) : ArrayM Unit := do
  let size := (← object tempArray).size
  let data ← newInts allocation size
  forLoop size fun i => copyElement tempArray data i
  addObject ⟨data, size⟩

-- `this` and `tempArray` may be the same object.
def assign (this tempArray : Nat) (allocation : Allocation) : ArrayM Unit := do
  deleteInts (← object this).data
  setObject this ⟨(← object this).data, (← object tempArray).size⟩
  let data ← newInts allocation (← object this).size
  setObject this ⟨data, (← object this).size⟩
  forLoop (← object this).size fun i => do
    copyElement tempArray (← object this).data i

def destroy (this : Nat) : ArrayM Unit := do
  deleteInts (← object this).data
  modify fun s => { s with objects := s.objects.set this none }

end Arrays

inductive ArrayOp where
  | construct (size : Nat) (allocation : Allocation)
  | copyConstruct (tempArray : Nat) (allocation : Allocation)
  | assign (this tempArray : Nat) (allocation : Allocation)
  | destroy (this : Nat)

def ArrayOp.target? (op : ArrayOp) : Option Nat :=
  match op with
  | .construct _ _ => none
  | .copyConstruct _ _ => none
  | .assign this _ _ => some this
  | .destroy this => some this

namespace Arrays

open ExceptState

def perform (op : ArrayOp) : ArrayM Unit :=
  match op with
  | .construct size allocation => construct size allocation
  | .copyConstruct tempArray allocation => copyConstruct tempArray allocation
  | .assign this tempArray allocation => assign this tempArray allocation
  | .destroy this => destroy this

-- After a fault that is no exception there is no state to go on from.
def step (s : Arrays) (op : ArrayOp) : Option Arrays :=
  match exec (perform op) s with
  | (.ok (), t) => some t
  | (.error .badAlloc, t) => some t
  | (.error _, _) => none

def Live (s : Arrays) (a : Nat) : Prop :=
  (s.object? a).isSome

instance (s : Arrays) (a : Nat) : Decidable (s.Live a) :=
  inferInstanceAs (Decidable (_ = true))

-- The objects that an operation is applied to exist, and an assignment gets its block.
def Proper (s : Arrays) (op : ArrayOp) : Prop :=
  match op with
  | .construct _ _ => True
  | .copyConstruct tempArray _ => s.Live tempArray
  | .assign this tempArray allocation => s.Live this ∧ s.Live tempArray ∧ allocation.isSome
  | .destroy this => s.Live this

instance (s : Arrays) (op : ArrayOp) : Decidable (s.Proper op) :=
  match op with
  | .construct _ _ => isTrue trivial
  | .copyConstruct _ _ => inferInstanceAs (Decidable (_ = true))
  | .assign _ _ _ => inferInstanceAs (Decidable (_ ∧ _ ∧ _))
  | .destroy _ => inferInstanceAs (Decidable (_ = true))

-- GetArr, up to the destruction of its locals `my` and `res`. `my` is the next object.
def getArr (my : Nat) (garbage : Nat → Int32) : List ArrayOp :=
  [.construct 5 (some garbage), .copyConstruct my (some garbage),
    .copyConstruct (my + 1) (some garbage), .destroy (my + 1), .destroy my]

end Arrays
