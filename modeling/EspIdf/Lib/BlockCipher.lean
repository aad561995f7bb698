import Mathlib

/-!
# Memories that are enciphered block by block

* `Cipher` : a bijection of blocks for each number of a block;
* `encipher`, `decipher` : a memory as it is stored, and as it is read;
* `encipher_decipher`, `decipher_encipher` : they undo each other;
* `encipher_congr` : a cell depends on its own block only.
-/

namespace BlockCipher

variable {β : Type} {w : Nat}

abbrev Cipher (w : Nat) (β : Type) := Nat → Equiv.Perm (Fin w → β)

/-- The `k`th block. -/
def blockAt (mem : Nat → β) (k : Nat) : Fin w → β := fun i => mem (k * w + i)

theorem blockAt_congr {mem mem' : Nat → β} {k : Nat} (h : ∀ a, a / w = k → mem a = mem' a) :
    (blockAt mem k : Fin w → β) = blockAt mem' k := by
  funext i
  refine h _ ?_
  rw [Nat.mul_comm, Nat.mul_add_div (Nat.lt_of_le_of_lt (Nat.zero_le i) i.isLt), Nat.div_eq_of_lt i.isLt, Nat.add_zero]

variable [NeZero w]

/-- The place of a cell in its block. -/
def place (a : Nat) : Fin w := ⟨a % w, Nat.mod_lt a (Nat.pos_of_neZero w)⟩

theorem blockAt_place (mem : Nat → β) (a : Nat) : (blockAt mem (a / w) : Fin w → β) (place a) = mem a :=
  congrArg mem (Nat.div_add_mod' a w)

variable (c : Cipher w β) (mem : Nat → β)

def encipher (a : Nat) : β := c (a / w) (blockAt mem (a / w)) (place a)

def decipher (a : Nat) : β := (c (a / w)).symm (blockAt mem (a / w)) (place a)

theorem blockAt_of_place {f : Nat → Fin w → β} (k : Nat) :
    blockAt (fun a => f (a / w) (place a)) k = f k := by
  funext i
  have hdiv : (k * w + i) / w = k := by
    rw [Nat.mul_comm, Nat.mul_add_div (Nat.pos_of_neZero w), Nat.div_eq_of_lt i.isLt, Nat.add_zero]
  have hplace : (place (k * w + i) : Fin w) = i := by
    refine Fin.ext ?_
    change (k * w + i) % w = i
    rw [Nat.mul_add_mod', Nat.mod_eq_of_lt i.isLt]
  change f ((k * w + i) / w) (place (k * w + i)) = f k i
  rw [hdiv, hplace]

theorem encipher_decipher : encipher c (decipher c mem) = mem := by
  funext a
  have hblock : blockAt (decipher c mem) (a / w) = (c (a / w)).symm (blockAt mem (a / w)) :=
    blockAt_of_place (f := fun k => (c k).symm (blockAt mem k)) (a / w)
  unfold encipher
  rw [hblock, Equiv.apply_symm_apply, blockAt_place]

theorem decipher_encipher : decipher c (encipher c mem) = mem := by
  funext a
  have hblock : blockAt (encipher c mem) (a / w) = c (a / w) (blockAt mem (a / w)) :=
    blockAt_of_place (f := fun k => c k (blockAt mem k)) (a / w)
  unfold decipher
  rw [hblock, Equiv.symm_apply_apply, blockAt_place]

variable {c mem} {mem' : Nat → β} {a : Nat}

theorem encipher_congr (h : ∀ b, b / w = a / w → mem b = mem' b) : encipher c mem a = encipher c mem' a := by
  unfold encipher
  rw [blockAt_congr h]

end BlockCipher
