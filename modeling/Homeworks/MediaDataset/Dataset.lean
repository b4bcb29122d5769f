import Mathlib.Data.Int.Notation
import Mathlib.Data.List.Basic
import Mathlib.Logic.Function.Basic

/-!
# Datasets and their observers

A dataset notifies its observers when a medium is added or removed; an observer keeps the media
that it can handle behind an item of its own that stands for no medium.  Media and observers are
compared as objects.
-/

namespace MediaDataset

/-- The classes of media. -/
inductive MediaKind where
  | audio
  | video
  | image
  | text
  | noItem
  deriving DecidableEq, Repr

structure Media where
  kind : MediaKind
  /-- The name is the string `"No Item"`. -/
  noItemName : Bool
  object : ℕ
  deriving DecidableEq, Repr

inductive ObserverKind where
  | player
  | viewer
  deriving DecidableEq, Repr

structure Observer where
  kind : ObserverKind
  object : ℕ
  deriving DecidableEq, Repr

/-- The kind of media that `next` and `previous` look for in their first branch. -/
def ObserverKind.first : ObserverKind → MediaKind
  | player => .audio
  | viewer => .text

/-- The kind of media that they look for in their second branch. -/
def ObserverKind.second : ObserverKind → MediaKind
  | player => .video
  | viewer => .image

/-- The test of `update`. -/
def ObserverKind.handles (kind : ObserverKind) (obj : Media) : Bool :=
  obj.kind = kind.first || obj.kind = kind.second

/-- An item of an observer's list, `none` for its `no_item`. -/
abbrev Item := Option Media

def Item.kind : Item → MediaKind
  | none => .noItem
  | some obj => obj.kind

def Item.isNoItem : Item → Bool
  | none => true
  | some obj => obj.noItemName

/-- `playlist` or `viewlist`, and `current_index`. -/
structure ObserverState where
  list : List Item
  currentIndex : ℤ

namespace ObserverState

def clearList : ObserverState := ⟨[none], 0⟩

/-- The list of an observer that has been told of some media. -/
def listOf (kind : ObserverKind) (media : List Media) : List Item :=
  none :: (media.filter kind.handles).map some

def update (kind : ObserverKind) (media : List Media) (o : ObserverState) : ObserverState :=
  let list := listOf kind media
  ⟨list, if o.currentIndex ≥ list.length then 0 else o.currentIndex⟩

/-- `get`. -/
def get (list : List Item) (index : ℤ) : Option Item :=
  if 0 ≤ index then list[index.toNat]? else none

/-- `contains_type`. -/
def containsType (list : List Item) (type : MediaKind) : Bool :=
  list.any fun item => item.kind = type

/-- The loop of `next` and `previous`, for so many rounds. -/
def seek (list : List Item) (type : MediaKind) (move : ℤ → ℤ) : ℕ → ℤ → Option ℤ
  | 0, _ => none
  | rounds + 1, index => do
      let item ← get list (move index)
      if item.kind = type then some (move index) else seek list type move rounds (move index)

/-- `next` and `previous`, where `skip` is what they do first when they are at an item without
name. -/
def browse (kind : ObserverKind) (type : MediaKind) (skip : ℤ) (move : ℤ → ℤ)
    (o : ObserverState) : Option ObserverState :=
  if o.list.length ≤ 1 ∨ ¬ containsType o.list type then some o
  else if type = kind.first then do
    let item ← get o.list o.currentIndex
    let start := if item.isNoItem then o.currentIndex + skip else o.currentIndex
    let index ← seek o.list type move o.list.length start
    some { o with currentIndex := index }
  else if type = kind.second then do
    let index ← seek o.list type move o.list.length o.currentIndex
    some { o with currentIndex := index }
  else some o

def next (kind : ObserverKind) (type : MediaKind) (o : ObserverState) : Option ObserverState :=
  o.browse kind type 1 fun index => (index + 1) % o.list.length

def previous (kind : ObserverKind) (type : MediaKind) (o : ObserverState) :
    Option ObserverState :=
  o.browse kind type (-1) fun index => (index - 1 + o.list.length) % o.list.length

end ObserverState

/-- A dataset, and all observers there are. -/
structure State where
  observers : List Observer
  media : List Media
  states : Observer → ObserverState

namespace State

def new : State := ⟨[], [], fun _ => .clearList⟩

def notifyObservers (s : State) : State :=
  { s with
    states := s.observers.foldl
      (fun states o => Function.update states o ((states o).update o.kind s.media)) s.states }

def add (s : State) (obj : Media) : State := { s with media := s.media ++ [obj] }.notifyObservers

def remove (s : State) (obj : Media) : State :=
    { s with media := s.media.erase obj }.notifyObservers

def register (s : State) (o : Observer) : State := { s with observers := s.observers ++ [o] }

def removeObserver (s : State) (o : Observer) : State :=
  { s with
    observers := s.observers.erase o
    states := Function.update s.states o .clearList }

end State

/-- The calls of methods of the dataset and of its observers. -/
inductive Call where
  | add (obj : Media)
  | remove (obj : Media)
  | register (o : Observer)
  | removeObserver (o : Observer)
  | next (o : Observer) (type : MediaKind)
  | previous (o : Observer) (type : MediaKind)
  deriving DecidableEq, Repr

/-- The state after a call, nothing if it throws an exception or does not return. -/
def step (s : State) : Call → Option State
  | .add obj => some (s.add obj)
  | .remove obj => some (s.remove obj)
  | .register o => some (s.register o)
  | .removeObserver o => some (s.removeObserver o)
  | .next o type => do
      let state ← (s.states o).next o.kind type
      some { s with states := Function.update s.states o state }
  | .previous o type => do
      let state ← (s.states o).previous o.kind type
      some { s with states := Function.update s.states o state }

def run (calls : List Call) : Option State := calls.foldlM step .new

end MediaDataset
