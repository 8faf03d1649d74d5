/-
  File:      TensorAlloc/Base/Layout.lean
  Subject:   Where the members of a C declaration lie, in words. Library: no declaration of any
             particular program.

  * `Decl` -- members of one word, arrays of words, structs and unions, nested without a name of
    their own. A bit-field is the word it begins;
  * `Decl.offset` -- a struct puts its members one after the other, a union all at its start;
  * `Layout` -- a declaration with every name placed: `offset`, `load` and `store` are total;
  * `Layout.load_store` -- two members are independent exactly where their words differ.
-/
import Mathlib.Logic.Function.Basic

namespace CLayout

/-- A declaration with members `ν`. -/
inductive Decl (ν : Type) where
  | word (name : ν)
  | array (name : ν) (count : Nat)
  | struct (members : List (Decl ν))
  | union (members : List (Decl ν))

section Offsets

variable {ν : Type}

/-! ## 1. Sizes and offsets -/

mutual

/-- `sizeof`. -/
def Decl.size : Decl ν → Nat
  | .word _ => 1
  | .array _ count => count
  | .struct members => sizeSum members
  | .union members => sizeMax members

def sizeSum : List (Decl ν) → Nat
  | [] => 0
  | d :: ds => d.size + sizeSum ds

def sizeMax : List (Decl ν) → Nat
  | [] => 0
  | d :: ds => max d.size (sizeMax ds)

end

variable [DecidableEq ν] (m : ν)

mutual

/-- `offsetof`; `none` of a name that is not declared. -/
def Decl.offset : Decl ν → Option Nat
  | .word name | .array name _ => if name = m then some 0 else none
  | .struct members => structOffset members
  | .union members => unionOffset members

def structOffset : List (Decl ν) → Option Nat
  | [] => none
  | d :: ds => d.offset.or ((structOffset ds).map (d.size + ·))

def unionOffset : List (Decl ν) → Option Nat
  | [] => none
  | d :: ds => d.offset.or (unionOffset ds)

end

end Offsets

/-! ## 2. Reading and writing members -/

/-- A declaration of all the names. -/
structure Layout (ν : Type) [DecidableEq ν] where
  decl : Decl ν
  placed : ∀ m, (decl.offset m).isSome

section Access

variable {ν α : Type} [DecidableEq ν] (L : Layout ν)

def Layout.offset (m : ν) : Nat := (L.decl.offset m).get (L.placed m)

/-- The member, of an object that is a row of words. -/
def Layout.load (m : ν) (object : Nat → α) : α := object (L.offset m)

def Layout.store (m : ν) (v : α) (object : Nat → α) : Nat → α :=
  Function.update object (L.offset m) v

/-- **A write is seen by the members at its word**, and by no other. -/
theorem Layout.load_store (m m' : ν) (v : α) (object : Nat → α) :
    L.load m (L.store m' v object) =
      if L.offset m = L.offset m' then v else L.load m object :=
  Function.update_apply object (L.offset m') v (L.offset m)

end Access

end CLayout
