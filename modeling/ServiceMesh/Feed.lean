/-!
# Feeds with a bounded memory

A feed keeps the latest of the items sent over it.  A reader is no more than a position: it reads
the items sent after it began, each once and in order.  A reader whose next item is no longer kept
is told how many items it lost and goes on with the oldest one that is.
-/

namespace ServiceMesh

/-- The number of items that a feed keeps. -/
def feedCapacity : Nat := 256

structure Feed (α : Type) where
  /-- The number of items sent so far. -/
  sent : Nat := 0
  /-- The latest of them, the oldest first. -/
  kept : List α := []
  /-- No more items will come. -/
  ended : Bool := false

/-- What a reader meets at its position. -/
inductive Reading (α : Type) where
  | item (item : α)
  /-- So many items were lost. -/
  | lagged (missed : Nat)
  /-- Nothing is left to read, for now. -/
  | upToDate
  /-- Nothing is left to read, and nothing will come. -/
  | ended

namespace Feed

variable {α : Type}

instance : Inhabited (Feed α) := ⟨{}⟩

/-- Keeps the latest items only. -/
def latest (items : List α) : List α := items.drop (items.length - feedCapacity)

def send (feed : Feed α) (item : α) : Feed α :=
  { feed with sent := feed.sent + 1, kept := latest (feed.kept ++ [item]) }

def sendAll (feed : Feed α) (items : List α) : Feed α := items.foldl send feed

/-- The position of a reader that begins now. -/
def position (feed : Feed α) : Nat := feed.sent

/-- The position of the oldest item that is kept. -/
def oldest (feed : Feed α) : Nat := feed.sent - feed.kept.length

/-- One read, and the position after it. -/
def read (feed : Feed α) (position : Nat) : Reading α × Nat :=
  if position < feed.oldest then (.lagged (feed.oldest - position), feed.oldest)
  else
    match feed.kept[position - feed.oldest]? with
    | some item => (.item item, position + 1)
    | none => (if feed.ended then .ended else .upToDate, position)

/-- Reads up to a number of times, as long as there is something to read.  The end of the feed is
read as well, as the last thing. -/
def readUpTo (feed : Feed α) : (count : Nat) → (position : Nat) → List (Reading α) × Nat
  | 0, position => ([], position)
  | count + 1, position =>
    match feed.read position with
    | (.upToDate, position) => ([], position)
    | (.ended, position) => ([.ended], position)
    | (reading, position) =>
      let (more, position) := readUpTo feed count position
      (reading :: more, position)

/-- Reads all there is: at most a loss, the items that are kept, and the end. -/
def readAll (feed : Feed α) (position : Nat) : List (Reading α) × Nat :=
  feed.readUpTo (feed.kept.length + 2) position

end Feed

end ServiceMesh
