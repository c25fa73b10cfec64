/-! A place in a byte string: how many bytes lie behind and which lie ahead. `take?` is the only
way to move, so a cursor never goes back and never passes the end. -/

namespace Jvm

/-- A place in a byte string. -/
structure Cursor where
  position : Nat
  rest : List UInt8
  deriving DecidableEq, Repr

namespace Cursor

/-- The place before the first byte. -/
def start (bytes : List UInt8) : Cursor := ⟨0, bytes⟩

def remaining (c : Cursor) : Nat := c.rest.length

/-- The next `count` bytes and the place behind them, if there are that many. Only the bytes
taken are counted, so a step costs the same anywhere in a long string. -/
def take? (c : Cursor) (count : Nat) : Option (List UInt8 × Cursor) :=
  let taken := c.rest.take count
  if taken.length = count then some (taken, ⟨c.position + count, c.rest.drop count⟩) else none

theorem take?_eq_some_iff {c next : Cursor} {count : Nat} {taken : List UInt8} :
    c.take? count = some (taken, next) ↔
      taken.length = count ∧ c.rest = taken ++ next.rest ∧
        next.position = c.position + count := by
  obtain ⟨position, rest⟩ := next
  simp only [take?]
  constructor
  · intro h
    split at h
    · rename_i hlength
      cases h
      exact ⟨hlength, (List.take_append_drop count c.rest).symm, rfl⟩
    · contradiction
  · rintro ⟨hlength, hrest, hposition⟩
    subst hlength hposition
    simp [hrest]

theorem take?_eq_none_iff {c : Cursor} {count : Nat} :
    c.take? count = none ↔ c.remaining < count := by
  simp only [take?, remaining, List.length_take]
  split <;> simp <;> omega

end Cursor

end Jvm
