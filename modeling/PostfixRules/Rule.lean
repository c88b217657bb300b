import PostfixRules.Expr
import PostfixRules.Text.ByteOrder
import PostfixRules.Time.Timestamp

/-!
# Rules

A rule is a tree with an identity: an id, a name, a description and the times of its creation and
of its last change. Rules are listed by creation time, and by the bytes of their ids where the times
are equal.
-/

namespace PostfixRules

/-- A named tree. -/
structure Rule where
  id : String
  name : String
  description : String
  expr : Expr
  createdAt : Timestamp
  updatedAt : Timestamp
  deriving DecidableEq, Repr

namespace Rule

/-- A rule made just now. -/
def create (id : String) (now : Timestamp) (name description : String) (expr : Expr) : Rule :=
  ⟨id, name, description, expr, now, now⟩

/-- The order in which rules are listed. -/
def order (a b : Rule) : Ordering :=
  (a.createdAt.order b.createdAt).then (Text.byteOrder a.id b.id)

/-- The non-strict form of the order, as sorting needs it. -/
def le (a b : Rule) : Bool :=
  order a b != .gt

end Rule

end PostfixRules
