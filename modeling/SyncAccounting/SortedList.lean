/-!
Lists of keys and values in ascending order of the keys, each key once. Lookup is by the first
match, as for any list of pairs; insertion keeps the order and replaces the value of a key that is
there.
-/

set_option autoImplicit false

namespace SyncAccounting.SortedList

variable {κ ν : Type} [LT κ] [DecidableLT κ] [DecidableEq κ]

def insert (key : κ) (value : ν) : List (κ × ν) → List (κ × ν)
  | [] => [(key, value)]
  | (k, v) :: rest =>
    if key < k then (key, value) :: (k, v) :: rest
    else if key = k then (key, value) :: rest
    else (k, v) :: insert key value rest

/-- The list of some pairs; of two pairs with one key the later one counts. -/
def ofList (pairs : List (κ × ν)) : List (κ × ν) :=
  pairs.foldl (fun sorted p => insert p.1 p.2 sorted) []

omit [LT κ] [DecidableLT κ] in
def find? (key : κ) : List (κ × ν) → Option ν
  | [] => none
  | (k, v) :: rest => if key = k then some v else find? key rest

end SyncAccounting.SortedList
