/-!
# Insertion-ordered maps

A map whose entries keep the order in which their keys were first inserted.  Inserting a key again
replaces its value and leaves its place alone.  Ordered sets are lists without repetition that grow
at the end.
-/

namespace TemplateLowering

/-- A finite map that remembers the order in which its keys were first inserted. -/
structure OrderedMap (κ α : Type) where
  entries : List (κ × α) := []
deriving Inhabited

namespace OrderedMap

variable {κ α : Type} [DecidableEq κ]

def insertEntry (key : κ) (value : α) : List (κ × α) → List (κ × α)
  | [] => [(key, value)]
  | (k, v) :: rest =>
      if k = key then (k, value) :: rest else (k, v) :: insertEntry key value rest

def insert (map : OrderedMap κ α) (key : κ) (value : α) : OrderedMap κ α :=
  { entries := insertEntry key value map.entries }

def insertAll (map : OrderedMap κ α) (pairs : List (κ × α)) : OrderedMap κ α :=
  pairs.foldl (fun map pair => map.insert pair.1 pair.2) map

def ofList (pairs : List (κ × α)) : OrderedMap κ α :=
  insertAll {} pairs

def find? (map : OrderedMap κ α) (key : κ) : Option α :=
  (map.entries.find? fun entry => entry.1 = key).map Prod.snd

end OrderedMap

/-- Adds `a` at the end of a list of distinct elements unless it is there already. -/
def insertLast {α : Type} [DecidableEq α] (a : α) (set : List α) : List α :=
  if a ∈ set then set else set ++ [a]

end TemplateLowering
