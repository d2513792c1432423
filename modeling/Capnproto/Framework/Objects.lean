import Mathlib.Logic.Function.Basic

/-!
# Stores of objects

What a program builds in memory, without the memory: objects by number, each with its bytes and with what its pointers
point at, by their offsets in it. A new object has bytes of its own and no pointer that points anywhere; a store changes
the bytes that it covers (`byte_put`), and a pointer that is set changes nothing else (`link_point`).
-/

namespace Capnproto

/-- The objects, their bytes, and the objects that their pointers point at. -/
structure Objects where
  count : Nat
  byte : Nat → Int → UInt8
  link : Nat → Int → Option Nat

namespace Objects

variable (m : Objects)

def empty : Objects := ⟨0, fun _ _ => 0, fun _ _ => none⟩

/-- One more object, with null pointers. -/
def make (bytes : Int → UInt8) : Objects where
  count := m.count + 1
  byte := Function.update m.byte m.count bytes
  link := Function.update m.link m.count fun _ => none

/-- Stores `bs` at `x` of object `k`. -/
def put (k : Nat) (x : Int) (bs : List UInt8) : Objects :=
  { m with byte := fun i y => if i = k ∧ x ≤ y ∧ y < x + bs.length then bs.getD (y - x).toNat 0 else m.byte i y }

/-- Sets the pointer at `x` of object `k`. -/
def point (k : Nat) (x : Int) (t : Option Nat) : Objects :=
  { m with link := fun i y => if i = k ∧ y = x then t else m.link i y }

variable {m} {k i : Nat} {x y : Int} {bs : List UInt8} {bytes : Int → UInt8} {t : Option Nat}

@[simp] theorem count_make : (m.make bytes).count = m.count + 1 := rfl
@[simp] theorem count_put : (m.put k x bs).count = m.count := rfl
@[simp] theorem count_point : (m.point k x t).count = m.count := rfl
@[simp] theorem link_put : (m.put k x bs).link = m.link := rfl
@[simp] theorem byte_point : (m.point k x t).byte = m.byte := rfl

theorem byte_make (h : i < m.count) : (m.make bytes).byte i = m.byte i := Function.update_of_ne (Nat.ne_of_lt h) _ _

@[simp] theorem byte_make_self : (m.make bytes).byte m.count = bytes := Function.update_self _ _ _

theorem link_make (h : i < m.count) : (m.make bytes).link i = m.link i := Function.update_of_ne (Nat.ne_of_lt h) _ _

@[simp] theorem link_make_self : (m.make bytes).link m.count = fun _ => none := Function.update_self _ _ _

theorem byte_put : (m.put k x bs).byte i y =
    if i = k ∧ x ≤ y ∧ y < x + bs.length then bs.getD (y - x).toNat 0 else m.byte i y := rfl

/-- Storing nothing changes nothing. -/
@[simp] theorem put_nil : m.put k x [] = m := by
  have h : (m.put k x []).byte = m.byte := by
    funext i y
    rw [byte_put, if_neg]
    rintro ⟨-, h0, h1⟩
    simp only [List.length_nil] at h1
    omega
  cases m
  exact congrArg (Objects.mk _ · _) h

theorem link_point : (m.point k x t).link i y = if i = k ∧ y = x then t else m.link i y := rfl

end Objects

end Capnproto
