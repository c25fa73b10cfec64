/-! The bit layout that the two forms of UTF-8 share. A string of bytes falls into groups of one to
four bytes: the lead byte tells how many tail bytes follow, and the bits left over in lead and
tails spell a number. Which numbers a group may spell is for the two forms to say. -/

namespace Jvm

/-- One group: how many bytes it takes and the number that its bits spell. -/
structure ByteGroup where
  width : Nat
  code : Nat
  deriving DecidableEq, Repr

namespace ByteGroup

/-- A tail byte, `10xxxxxx`. -/
def isTail (byte : UInt8) : Bool := 0x80 ≤ byte.toNat && byte.toNat < 0xc0

/-- Puts the six bits of each of the next `count` bytes below the bits of `code`. -/
def takeTails : Nat → Nat → List UInt8 → Option (Nat × List UInt8)
  | 0, code, rest => some (code, rest)
  | _ + 1, _, [] => none
  | count + 1, code, byte :: rest =>
    if isTail byte then takeTails count (code * 64 + (byte.toNat - 0x80)) rest else none

/-- A group of `width` bytes whose lead byte adds `code`. -/
def ofLead (width code : Nat) (rest : List UInt8) : Option (ByteGroup × List UInt8) :=
  (takeTails (width - 1) code rest).map fun (code, rest) => (⟨width, code⟩, rest)

/-- The first group and the bytes behind it. -/
def next? : List UInt8 → Option (ByteGroup × List UInt8)
  | [] => none
  | lead :: rest =>
    if lead.toNat < 0x80 then ofLead 1 lead.toNat rest
    else if lead.toNat < 0xc0 then none
    else if lead.toNat < 0xe0 then ofLead 2 (lead.toNat - 0xc0) rest
    else if lead.toNat < 0xf0 then ofLead 3 (lead.toNat - 0xe0) rest
    else if lead.toNat < 0xf8 then ofLead 4 (lead.toNat - 0xf0) rest
    else none

theorem length_of_takeTails {count code total : Nat} {bytes rest : List UInt8}
    (h : takeTails count code bytes = some (total, rest)) :
    bytes.length = count + rest.length := by
  induction count generalizing code bytes with
  | zero => simp_all [takeTails]
  | succ count ih =>
    cases bytes with
    | nil => simp [takeTails] at h
    | cons byte bytes =>
      simp only [takeTails] at h
      split at h
      · have := ih h
        simp only [List.length_cons]
        omega
      · contradiction

theorem length_le_of_ofLead {width code : Nat} {group : ByteGroup} {bytes rest : List UInt8}
    (h : ofLead width code bytes = some (group, rest)) : rest.length ≤ bytes.length := by
  simp only [ofLead, Option.map_eq_some_iff, Prod.mk.injEq] at h
  obtain ⟨⟨total, left⟩, htails, -, rfl⟩ := h
  have := length_of_takeTails htails
  simp only at this ⊢
  omega

theorem length_lt_of_next? {group : ByteGroup} {bytes rest : List UInt8}
    (h : next? bytes = some (group, rest)) : rest.length < bytes.length := by
  cases bytes with
  | nil => simp [next?] at h
  | cons lead bytes =>
    have hle : rest.length ≤ bytes.length := by
      simp only [next?] at h
      repeat' split at h
      all_goals first
        | exact length_le_of_ofLead h
        | contradiction
    simpa using Nat.lt_succ_of_le hle

/-- Splits the bytes to their end; `done` holds the groups before them, last one first. -/
def splitOnto (done : List ByteGroup) (bytes : List UInt8) : Option (List ByteGroup) :=
  match _h : next? bytes with
  | some (group, rest) => splitOnto (group :: done) rest
  | none => if bytes.isEmpty then some done.reverse else none
termination_by bytes.length
decreasing_by exact length_lt_of_next? _h

/-- The groups that the bytes fall into, if they fall into groups at all. -/
def split? (bytes : List UInt8) : Option (List ByteGroup) := splitOnto [] bytes

theorem splitOnto_eq (done : List ByteGroup) (bytes : List UInt8) :
    splitOnto done bytes = (split? bytes).map (done.reverse ++ ·) := by
  suffices h : ∀ more, splitOnto (more ++ done) bytes =
      (splitOnto more bytes).map (done.reverse ++ ·) from h []
  intro more
  fun_induction splitOnto more bytes with
  | case1 more bytes group rest hnext ih =>
    rw [splitOnto]
    split
    · simp_all
    · simp_all
  | case2 more bytes hnext hempty =>
    rw [splitOnto]
    split <;> simp_all
  | case3 more bytes hnext hempty =>
    rw [splitOnto]
    split <;> simp_all

theorem split?_nil : split? [] = some [] := by
  simp [split?, splitOnto, next?]

/-- Splitting takes the first group off and splits what is left. -/
theorem split?_of_next? {bytes rest : List UInt8} {group : ByteGroup}
    (h : next? bytes = some (group, rest)) : split? bytes = (split? rest).map (group :: ·) := by
  rw [split?, splitOnto]
  split
  · rename_i first left hnext
    rw [h] at hnext
    cases hnext
    rw [splitOnto_eq]
    rfl
  · rename_i hnext
    rw [h] at hnext
    cases hnext

end ByteGroup

end Jvm
