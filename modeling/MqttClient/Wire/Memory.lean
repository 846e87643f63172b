import Mathlib.Algebra.Order.Ring.Int
import Mathlib.Data.List.Basic

/-! # Byte memory

The memory from the first byte of a buffer on. A buffer's size is kept beside
it, so that a store past the end is possible and can be seen.
-/

namespace MqttClient

/-- The bytes from the start of a buffer on. -/
abbrev Memory := Nat → UInt8

namespace Memory

/-- Overwrite the bytes from `off` on. -/
def store (m : Memory) (off : Nat) (bs : List UInt8) : Memory :=
  fun i => if i < off then m i else (bs[i - off]?).getD (m i)

/-- The `len` bytes from `off` on. -/
def load (m : Memory) (off len : Nat) : List UInt8 :=
  (List.range len).map fun i => m (off + i)

@[simp] theorem length_load (m : Memory) (off len : Nat) : (m.load off len).length = len := by
  simp [load]

@[simp] theorem load_zero (m : Memory) (off : Nat) : m.load off 0 = [] := rfl

@[simp] theorem store_nil (m : Memory) (off : Nat) : m.store off [] = m := by
  funext i
  simp [store]

theorem getD_load (m : Memory) {off len i : Nat} (b : UInt8) (h : i < len) :
    (m.load off len).getD i b = m (off + i) := by
  simp [load, List.getD_eq_getElem?_getD, h]

theorem load_succ (m : Memory) (off len : Nat) :
    m.load off (len + 1) = m off :: m.load (off + 1) len := by
  simp [load, List.range_succ_eq_map, Function.comp_def, Nat.add_assoc, Nat.add_comm 1]

theorem store_apply_of_lt (m : Memory) {off i : Nat} (bs : List UInt8) (h : i < off) :
    m.store off bs i = m i := by
  simp [store, h]

theorem store_apply (m : Memory) {off i : Nat} (bs : List UInt8) (h : i < bs.length) :
    m.store off bs (off + i) = bs[i] := by
  have hge : ¬ off + i < off := by omega
  simp [store, hge, h]

theorem load_store (m : Memory) (off : Nat) (bs : List UInt8) :
    (m.store off bs).load off bs.length = bs := by
  apply List.ext_getElem
  · simp
  · intro i _ hi
    simp [load, store_apply m bs hi]

theorem load_store_of_le (m : Memory) {off a len : Nat} (bs : List UInt8) (h : a + len ≤ off) :
    (m.store off bs).load a len = m.load a len := by
  apply List.map_congr_left
  intro i hi
  have hlt : i < len := List.mem_range.mp hi
  exact store_apply_of_lt m bs (by omega)

theorem store_apply_of_le (m : Memory) {off i : Nat} (bs : List UInt8) (h : off + bs.length ≤ i) :
    m.store off bs i = m i := by
  have hge : ¬ i < off := by omega
  have hend : bs.length ≤ i - off := by omega
  simp [store, hge, hend]

/-- Two stores, one behind the other. -/
theorem store_append (m : Memory) (off : Nat) (as bs : List UInt8) :
    m.store off (as ++ bs) = (m.store off as).store (off + as.length) bs := by
  funext i
  by_cases h : i < off + as.length
  · rw [store_apply_of_lt _ bs h]
    by_cases hi : i < off
    · simp [store, hi]
    · have has : i - off < as.length := by omega
      simp [store, hi, List.getElem?_append_left has]
  · have has : as.length ≤ i - off := by omega
    have hi : ¬ i < off := by omega
    have hrest : i - off - as.length = i - (off + as.length) := by omega
    simp [store, h, hi, List.getElem?_append_right has, hrest, List.getElem?_eq_none has]

theorem load_add (m : Memory) (off a b : Nat) :
    m.load off (a + b) = m.load off a ++ m.load (off + a) b := by
  simp [load, List.range_add, Function.comp_def, Nat.add_assoc]

/-- A part of what is loaded. -/
theorem load_part (m : Memory) (off : Nat) {a len n : Nat} (h : a + len ≤ n) :
    m.load (off + a) len = ((m.load off n).drop a).take len := by
  obtain ⟨rest, rfl⟩ := Nat.exists_eq_add_of_le h
  rw [load_add, load_add, List.append_assoc, List.drop_left' (length_load _ _ _),
    List.take_left' (length_load _ _ _)]

end Memory

end MqttClient
