import Containers.SearchTree.Rank
import Containers.Condition
import Containers.Reply
/-!
# Commands for a search tree

* `SearchTree.Query` — what can be asked of a tree; `SearchTree.ask` answers;
* `SearchTree.Update` — what can be done to a tree; `SearchTree.perform` does it.
-/

namespace Containers.SearchTree

/-- What can be asked of a tree. -/
inductive Query (α : Type) where
  | size
  | isEmpty
  | isUnique
  | toList
  | get (form : Form) (rank : Int)
  | visit (bound : Bound α)
  | traverse (script : List (Step Unit))
  | outline (setting : Setting)

/-- What can be done to a tree. -/
inductive Update (α : Type) where
  | insert (a : α)
  /-- Adds values and tells how many were added. -/
  | insertMany (as : List α)
  /-- Adds values and tells nothing. -/
  | extend (as : List α)
  | setUnique (unique : Bool)
  | removeAt (form : Form) (position : Nat)

variable {α : Type} [Element α]

/-- Answers a question. -/
def ask (t : SearchTree α) : Query α → Except Abort (Reply α)
  | .size => return .count t.size
  | .isEmpty => return .truth t.isEmpty
  | .isUnique => return .truth t.unique
  | .toList => return .elements t.toList
  | .get form rank => form.reply (t.get rank)
  | .visit bound => .visited <$> insist (t.visit bound.goesOn [])
  | .traverse script => .answers <$> insist (Traversal.run t.values script)
  | .outline setting => return .text ((Outlined.outline t).text setting)

/-- Does an update. A removal that fails leaves the tree as it is. -/
def perform (t : SearchTree α) : Update α → Outcome (SearchTree α) (Reply α) (Event α)
  | .insert a =>
    let ⟨(added, t), events⟩ := t.insert a
    { collection := t, reply := return .truth added, events }
  | .insertMany as =>
    let ⟨(count, t), events⟩ := t.insertMany as
    { collection := t, reply := return .count count, events }
  | .extend as =>
    let ⟨(_, t), events⟩ := t.insertMany as
    { collection := t, reply := return .done, events }
  | .setUnique unique => { collection := t.setUnique unique, reply := return .done }
  | .removeAt form position =>
    match t.removeAt position with
    | ⟨.ok (a, t), events⟩ => { collection := t, reply := form.reply (.ok a), events }
    | ⟨.error fault, events⟩ => { collection := t, reply := form.reply (.error fault), events }

instance : Commanded (SearchTree α) (Query α) (Update α) (Reply α) (Event α) where
  ask q t := t.ask q
  perform u t := t.perform u

end Containers.SearchTree
