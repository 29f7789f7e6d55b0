import Mathlib.Tactic

namespace Astral.Library

/-- These operations act on a bounded queue. -/
inductive QueueOp (Item : Type) where
  | write (items : List Item)
  | read (count : Nat)
  | peek (offset count : Nat)
  | truncate (count : Nat)
  | remove (count : Nat)

/-- An operation leaves a queue, hands items out, and reports how many items it moved. -/
structure Served (Item : Type) where
  queue : List Item
  output : List Item
  count : Nat

/-- A queue with a capacity refuses what does not fit and gives out at most what it holds. -/
def QueueOp.serve {Item : Type} (capacity : Nat) (queue : List Item) : QueueOp Item → Served Item
  | .write items =>
    let count := min items.length (capacity - queue.length)
    ⟨queue ++ items.take count, [], count⟩
  | .read count =>
    let count := min count queue.length
    ⟨queue.drop count, queue.take count, count⟩
  | .peek offset count =>
    let count := min count (queue.length - offset)
    ⟨queue, (queue.drop offset).take count, count⟩
  | .truncate count =>
    let count := min count queue.length
    ⟨queue.drop count, [], count⟩
  | .remove count =>
    let count := min count queue.length
    ⟨queue.take (queue.length - count), [], count⟩

end Astral.Library
