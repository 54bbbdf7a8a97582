import Keymap.Value.Basic

/-!
Expression trees: constants, names, members, arithmetic, comparison, logic, the conditional and
arrays. There are no calls and no assignments.
-/

set_option autoImplicit false

namespace Keymap

inductive Constant where
  | undefined
  | null
  | bool (flag : Bool)
  | number (amount : Number)
  | text (content : String)
deriving DecidableEq, Inhabited

def Constant.value : Constant → Value
  | .undefined => .undefined
  | .null => .null
  | .bool flag => .bool flag
  | .number amount => .number amount
  | .text content => .text content

inductive UnaryOp where
  | not
  | minus
  | plus
deriving DecidableEq, Repr

inductive BinaryOp where
  | or
  | and
  | identical
  | distinct
  | equal
  | unequal
  | atMost
  | atLeast
  | less
  | greater
  | add
  | sub
  | mul
  | div
  | mod
deriving DecidableEq, Repr

def UnaryOp.symbol : UnaryOp → String
  | .not => "!"
  | .minus => "-"
  | .plus => "+"

def BinaryOp.symbol : BinaryOp → String
  | .or => "||"
  | .and => "&&"
  | .identical => "==="
  | .distinct => "!=="
  | .equal => "=="
  | .unequal => "!="
  | .atMost => "<="
  | .atLeast => ">="
  | .less => "<"
  | .greater => ">"
  | .add => "+"
  | .sub => "-"
  | .mul => "*"
  | .div => "/"
  | .mod => "%"

/-- Operators of a higher level bind tighter; those of one level group to the left. -/
def BinaryOp.level : BinaryOp → Nat
  | .or => 1
  | .and => 2
  | .identical => 3
  | .distinct => 3
  | .equal => 3
  | .unequal => 3
  | .atMost => 4
  | .atLeast => 4
  | .less => 4
  | .greater => 4
  | .add => 5
  | .sub => 5
  | .mul => 6
  | .div => 6
  | .mod => 6

theorem BinaryOp.level_positive (op : BinaryOp) : 1 ≤ op.level := by cases op <;> decide

inductive Expr where
  | constant (constant : Constant)
  | name (name : String)
  | member (target : Expr) (name : String)
  | index (target : Expr) (key : Expr)
  | unary (op : UnaryOp) (operand : Expr)
  | binary (op : BinaryOp) (left right : Expr)
  | conditional (test whenTrue whenFalse : Expr)
  | array (items : List Expr)
deriving Inhabited

namespace Expr

mutual

/-- The number of nodes on the longest path from the root to a leaf. -/
def depth : Expr → Nat
  | .constant _ => 1
  | .name _ => 1
  | .member target _ => depth target + 1
  | .index target key => max (depth target) (depth key) + 1
  | .unary _ operand => depth operand + 1
  | .binary _ left right => max (depth left) (depth right) + 1
  | .conditional test whenTrue whenFalse =>
      max (depth test) (max (depth whenTrue) (depth whenFalse)) + 1
  | .array items => itemsDepth items + 1

def itemsDepth : List Expr → Nat
  | [] => 0
  | item :: rest => max (depth item) (itemsDepth rest)

end

end Expr

end Keymap
