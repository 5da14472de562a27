/-
# JSON documents

Response bodies and event payloads are JSON documents.  A `jsonb` column keeps
the document and not its text: it may reorder the members of an object and
drops all but the last of several with one name.  Two values are the same
document when every path reads the same in both (`Json.Same`); `Jsonb` is what
the column promises of a stored value.
-/

import LedgerEngine.Common.JsString

namespace LedgerEngine

/-- A JSON value; `null` is also what an SQL `NULL` reads as. -/
inductive Json : Type
  | null
  | bool (b : Bool)
  | num (n : ℤ)
  | str (s : JsString)
  | arr (items : List Json)
  | obj (fields : List (JsString × Json))

namespace Json

/-- What a value is at its root: a scalar, or the kind of container. -/
inductive Node : Type
  | null
  | bool (b : Bool)
  | num (n : ℤ)
  | str (s : JsString)
  | arr (length : ℕ)
  | obj
  deriving DecidableEq

/-- One step of a path into a document. -/
inductive Step : Type
  | index (i : ℕ)
  | field (name : JsString)
  deriving DecidableEq

/-- The root of a value. -/
def node : Json → Node
  | .null => .null
  | .bool b => .bool b
  | .num n => .num n
  | .str s => .str s
  | .arr items => .arr items.length
  | .obj _ => .obj

/-- The value one step down; of several members with one name the last counts. -/
def child : Json → Step → Option Json
  | .arr items, .index i => items[i]?
  | .obj fields, .field name => (fields.reverse.find? fun f => f.1 = name).map Prod.snd
  | _, _ => none

/-- What stands at the end of a path. -/
def at? : Json → List Step → Option Node
  | j, [] => some j.node
  | j, s :: path => (j.child s).bind fun c => c.at? path

/-- The same document: every path reads the same. -/
def Same (a b : Json) : Prop := ∀ path, a.at? path = b.at? path

theorem Same.refl (a : Json) : a.Same a := fun _ => rfl

theorem Same.node_eq {a b : Json} (h : a.Same b) : a.node = b.node :=
  Option.some.inj (h [])

/-- JavaScript's coercion of a JSON value to a boolean. -/
def truthy (j : Json) : Bool :=
  match j.node with
  | .null => false
  | .bool b => b
  | .num n => n != 0
  | .str s => s != []
  | .arr _ => true
  | .obj => true

/-- The value is an object. -/
def isObject (j : Json) : Bool := j.node == .obj

theorem Same.truthy_eq {a b : Json} (h : a.Same b) : a.truthy = b.truthy := by
  unfold truthy
  rw [h.node_eq]

theorem truthy_of_isObject {j : Json} (h : j.isObject = true) : j.truthy = true := by
  unfold isObject at h
  unfold truthy
  rw [beq_iff_eq.1 h]

end Json

/-- A `jsonb` column: what it gives back for a stored document is that
document, in an order of members of its own. -/
structure Jsonb where
  store : Json → Json
  same : ∀ j, (store j).Same j

namespace Jsonb

/-- A column that keeps values as they are. -/
def verbatim : Jsonb := ⟨id, Json.Same.refl⟩

@[simp] theorem truthy_store (d : Jsonb) (j : Json) : (d.store j).truthy = j.truthy :=
  (d.same j).truthy_eq

end Jsonb

end LedgerEngine
