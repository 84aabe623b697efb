/-!
# Powers

The powers of the two bases that numbers are written in.
-/

namespace Grove

def twoTo (n : Nat) : Nat := Nat.pow 2 n

def tenTo (n : Nat) : Nat := Nat.pow 10 n

@[simp] theorem twoTo_zero : twoTo 0 = 1 := rfl

@[simp] theorem tenTo_zero : tenTo 0 = 1 := rfl

theorem twoTo_succ (n : Nat) : twoTo (n + 1) = twoTo n * 2 := rfl

theorem twoTo_pos (n : Nat) : 0 < twoTo n := Nat.pow_pos (by decide)

end Grove
