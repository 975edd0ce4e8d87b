import XPath.Expr.Basic

/-!
# Comparing expressions

Two expressions are the same when all their nodes agree, offsets and types included. Decimals
are compared as numbers, and errors by what they report.
-/

namespace XPath.Expr

mutual

/-- All nodes of two expressions agree. -/
def same : Expr → Expr → Bool
  | literal m a, literal n b => m = n && a.same b
  | varRef m a, varRef n b => m = n && a = b
  | contextItem m, contextItem n => m = n
  | root m, root n => m = n
  | parent m, parent n => m = n
  | axisStep m a s, axisStep n b t => m = n && a = b && s = t
  | filter m a b, filter n c d => m = n && same a c && same b d
  | path m a b, path n c d => m = n && same a c && same b d
  | reverse m a, reverse n b => m = n && same a b
  | binary m o a b, binary n p c d => m = n && o = p && same a c && same b d
  | unary m s a, unary n t b => m = n && s = t && same a b
  | conditional m a b c, conditional n d e f => m = n && same a d && same b e && same c f
  | binding m j v a b, binding n k w c d => m = n && j = k && v = w && same a c && same b d
  | typed m o a, typed n p b => m = n && o = p && same a b
  | call m f as, call n g bs => m = n && f = g && sameAll as bs
  | sequence m as, sequence n bs => m = n && sameAll as bs
  | raise m a, raise n b => m = n && a.same b
  | _, _ => false

/-- Two lists have the same length and the same expressions. -/
def sameAll : List Expr → List Expr → Bool
  | [], [] => true
  | a :: as, b :: bs => same a b && sameAll as bs
  | _, _ => false

end

end XPath.Expr
