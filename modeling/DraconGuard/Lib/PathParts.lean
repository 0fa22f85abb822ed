import Mathlib.Data.List.Lex
import Mathlib.Data.Nat.Basic
import Mathlib.Order.Lattice
import DraconGuard.Lib.FileTree

/-!
# Paths as a standard library compares them

A path is compared, ordered and searched for prefixes by its components. The root is one of them;
a `.` is one only where a relative path begins with it. The order has the root first, then `.`,
`..` and the names by their bytes.
-/

namespace FileTree

inductive PathPart where
  | root
  | current
  | up
  | normal (n : Name)

/-- What parts are ordered by. -/
def PathPart.code : PathPart → List Nat
  | .root => [0]
  | .current => [1]
  | .up => [2]
  | .normal n => 3 :: n.text.toList.map Char.toNat

theorem PathPart.code_injective : Function.Injective PathPart.code := by
  intro a b h
  cases a <;> cases b <;> simp only [PathPart.code, List.cons.injEq] at h <;> try simp_all
  case normal.normal n m =>
    have hchars : n.text.toList = m.text.toList :=
      List.map_injective_iff.mpr (fun c d hcd => Char.toNat_inj.mp hcd) h
    cases n
    cases m
    simpa using String.toList_inj.mp hchars

instance : LinearOrder PathPart := LinearOrder.lift' PathPart.code PathPart.code_injective

def partOf (n : Name) : PathPart :=
  if n = Name.current then .current else if n.text = ".." then .up else .normal n

/-- `Path::components`. -/
def pathParts (text : String) : List PathPart :=
  match Spelled.parse text with
  | none => []
  | some p =>
    let parts := p.parts.map partOf
    let named := parts.filter fun part => part ≠ .current
    if p.absolute then .root :: named
    else if parts.head? = some .current then .current :: named
    else named

/-- `==` of two paths. -/
def samePath (a b : String) : Bool := pathParts a = pathParts b

theorem samePath_refl (a : String) : samePath a a = true := by simp [samePath]

theorem samePath_comm (a b : String) : samePath a b = samePath b a := by simp [samePath, eq_comm]

end FileTree
