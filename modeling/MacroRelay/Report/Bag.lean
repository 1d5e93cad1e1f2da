import MacroRelay.Report.Diagnostic

/-!
# Collected diagnostics

A bag holds diagnostics up to a limit and puts them in printing order. Sorting is stable and
removing repeats keeps the first of each, so either may come first.
-/

namespace MacroRelay

structure Bag where
  limit : Nat
  items : List Diagnostic
deriving DecidableEq, Inhabited

namespace Bag

/-- A limit that is not positive stands for one hundred. -/
def empty (limit : Int) : Bag :=
  ⟨if limit ≤ 0 then 100 else limit.toNat, []⟩

def isFull (b : Bag) : Bool :=
  b.limit ≤ b.items.length

/-- A full bag refuses. -/
def add (b : Bag) (d : Diagnostic) : Bag × Bool :=
  if b.isFull then (b, false) else ({ b with items := b.items ++ [d] }, true)

def collect (ds : List Diagnostic) : Bag :=
  ds.foldl (fun b d => (b.add d).1) (empty ds.length)

def hasErrors (b : Bag) : Bool :=
  Diagnostic.hasErrors b.items

def sort (b : Bag) : Bag :=
  { b with items := b.items.mergeSort fun x y => Diagnostic.order x y != .gt }

def dedup (b : Bag) : Bag :=
  { b with items := b.items.eraseDups }

end Bag

end MacroRelay
