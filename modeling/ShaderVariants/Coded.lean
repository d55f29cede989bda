import ShaderVariants.Named

/-!
# Types stored as one byte

Many properties of a shader variant come from a short closed list: scalar kinds,
blend factors, pixel formats.  Such a type is stored as one byte, the position of
the member in its list.

## Main definitions

* `Coded α` — the members of `α` in the order of their bytes, and the name of `α`.
* `Coded.code`, `Coded.ofCode?` — the byte of a member and the member of a byte.

## Main results

* `Coded.ofCode?_code`, `Coded.code_of_ofCode?` — the two are inverse to each other.
-/

namespace ShaderVariants

/-- A finite type whose members are stored as their position in `all`. -/
class Coded (α : Type) [DecidableEq α] extends Named α where
  /-- The name of the type, as reported for a byte that stands for no member. -/
  kind : String
  nodup_all : all.Nodup
  length_all_le : all.length ≤ 256

namespace Coded

open Named

variable {α : Type} [DecidableEq α] [Coded α]

/-- The byte that stands for `a`. -/
def code (a : α) : UInt8 := UInt8.ofNat ((all : List α).idxOf a)

/-- The member that the byte `b` stands for, if there is one. -/
def ofCode? (b : UInt8) : Option α := (all : List α)[b.toNat]?

theorem toNat_code (a : α) : (code a).toNat = (all : List α).idxOf a := by
  have h : (all : List α).idxOf a < (all : List α).length :=
    List.idxOf_lt_length_of_mem (mem_all a)
  have h' := length_all_le (α := α)
  rw [code, UInt8.toNat_ofNat']
  exact Nat.mod_eq_of_lt (by omega)

/-- Reading the byte of a member gives the member. -/
@[simp] theorem ofCode?_code (a : α) : ofCode? (code a) = some a := by
  have h : (all : List α).idxOf a < (all : List α).length :=
    List.idxOf_lt_length_of_mem (mem_all a)
  rw [ofCode?, toNat_code, List.getElem?_eq_getElem h, List.getElem_idxOf]

/-- A byte that stands for a member is the byte of that member. -/
theorem code_of_ofCode? {b : UInt8} {a : α} (h : ofCode? b = some a) : code a = b := by
  obtain ⟨hb, ha⟩ := List.getElem?_eq_some_iff.mp h
  apply UInt8.toNat_inj.mp
  rw [toNat_code, ← ha]
  exact nodup_all.idxOf_getElem b.toNat hb

end Coded

end ShaderVariants
