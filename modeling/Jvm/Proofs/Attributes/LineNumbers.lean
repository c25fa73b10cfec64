import Jvm.Class.Attribute
import Mathlib.Data.List.Induction
import Mathlib.Data.List.Nodup

/-! # The line of an instruction

One entry of the line tables of a method body tells the line of an instruction: of those that do not
start behind it the one that starts last, and of several that start together the one that is listed
last (`LineEntry.Tells`). Looking a line up finds it in one pass over the entries, however they are
ordered (`LineEntry.chosen_foldl`), so the order and the number of tables matter only where entries
start together (`Code.line_told_by_entry`). -/

namespace Jvm

/-- The entries of a line table. Other attributes have none, not even code with tables inside. -/
def Attribute.listedLines : Attribute → List LineEntry
  | .lineNumbers entries => entries
  | _ => []

/-- The entries of the line tables of a method body, one table after another. -/
def Code.listedLines (code : Code) : List LineEntry :=
  code.attributes.flatMap Attribute.listedLines

namespace LineEntry

/-- The entry at a place tells the line at `pc`: it does not start behind `pc`, of those that do not
no other starts later, and of those that start where it does none is listed later. -/
structure TellsFrom (entries : List LineEntry) (place : Nat) (pc : UInt16) (entry : LineEntry) :
    Prop where
  listed : entries[place]? = some entry
  reached : entry.startPc ≤ pc
  latest : ∀ other ∈ entries, other.startPc ≤ pc → other.startPc ≤ entry.startPc
  last : ∀ (k : Nat) other, entries[k]? = some other → other.startPc = entry.startPc → k ≤ place

def Tells (entries : List LineEntry) (pc : UInt16) (entry : LineEntry) : Prop :=
  ∃ place, TellsFrom entries place pc entry

/-- The outcome of a choice for `pc` among some entries. -/
def Chosen (entries : List LineEntry) (pc : UInt16) : Option LineEntry → Prop
  | some entry => Tells entries pc entry
  | none => ∀ entry ∈ entries, pc < entry.startPc

variable {entries others : List LineEntry} {pc later : UInt16} {entry other : LineEntry}

theorem Tells.unique (h : Tells entries pc entry) (h' : Tells entries pc other) :
    entry = other := by
  obtain ⟨place, h⟩ := h
  obtain ⟨place', h'⟩ := h'
  have hstart : entry.startPc = other.startPc :=
    UInt16.le_antisymm (h'.latest entry (List.mem_of_getElem? h.listed) h.reached)
      (h.latest other (List.mem_of_getElem? h'.listed) h'.reached)
  have hplace : place = place' :=
    Nat.le_antisymm (h'.last place entry h.listed hstart)
      (h.last place' other h'.listed hstart.symm)
  have hlisted := h'.listed
  rw [← hplace, h.listed] at hlisted
  exact Option.some.inj hlisted

/-- An entry behind all others that reaches `pc` tells the line unless one of them starts later. -/
theorem tells_concat (hreached : entry.startPc ≤ pc)
    (hlatest : ∀ other ∈ entries, other.startPc ≤ pc → other.startPc ≤ entry.startPc) :
    Tells (entries ++ [entry]) pc entry := by
  refine ⟨entries.length, List.getElem?_concat_length, hreached, fun other hmem hother => ?_,
    fun k other hk _ => ?_⟩
  · rcases List.mem_append.mp hmem with hbefore | hsame
    · exact hlatest other hbefore hother
    · rw [List.mem_singleton.mp hsame]
      exact UInt16.le_refl _
  · have hlt := (List.getElem?_eq_some_iff.mp hk).1
    rw [List.length_append, List.length_singleton] at hlt
    omega

/-- One more entry behind all others does not matter if it starts behind `pc` or in front of the
entry that tells the line. -/
theorem Tells.concat (h : Tells entries pc entry)
    (hother : other.startPc ≤ pc → other.startPc < entry.startPc) :
    Tells (entries ++ [other]) pc entry := by
  obtain ⟨place, h⟩ := h
  have hplace := (List.getElem?_eq_some_iff.mp h.listed).1
  refine ⟨place, ?_, h.reached, fun found hmem hfound => ?_, fun k found hk hstart => ?_⟩
  · rw [List.getElem?_append_left hplace, h.listed]
  · rcases List.mem_append.mp hmem with hbefore | hsame
    · exact h.latest found hbefore hfound
    · rw [List.mem_singleton.mp hsame] at hfound ⊢
      exact UInt16.le_of_lt (hother hfound)
  · by_cases hlt : k < entries.length
    · rw [List.getElem?_append_left hlt] at hk
      exact h.last k found hk hstart
    · have hsame : found = other := by
        rw [List.getElem?_append_right (Nat.le_of_not_lt hlt)] at hk
        exact List.mem_singleton.mp (List.mem_of_getElem? hk)
      have hreached := h.reached
      rw [← hstart, hsame] at hreached
      have hbefore := hother hreached
      rw [← hstart, hsame] at hbefore
      exact absurd hbefore (UInt16.lt_irrefl _)

/-- Looking at one more entry is choosing among one more. -/
theorem Chosen.closer {best : Option LineEntry} (h : Chosen entries pc best) (entry : LineEntry) :
    Chosen (entries ++ [entry]) pc (Code.closerEntry pc best entry) := by
  unfold Code.closerEntry
  split
  · rename_i hbehind
    cases best with
    | none =>
      intro found hmem
      rcases List.mem_append.mp hmem with hbefore | hsame
      · exact h found hbefore
      · rwa [List.mem_singleton.mp hsame]
    | some chosen =>
      exact Tells.concat h fun hreached => absurd hbehind (UInt16.not_lt.mpr hreached)
  · rename_i hreached
    have hentry : entry.startPc ≤ pc := UInt16.not_lt.mp hreached
    split
    · rename_i chosen
      split
      · exact Tells.concat h fun _ => ‹_›
      · rename_i hlater
        obtain ⟨place, hchosen⟩ := h
        refine tells_concat hentry fun other hmem hother => ?_
        exact UInt16.le_trans (hchosen.latest other hmem hother) (UInt16.not_lt.mp hlater)
    · refine tells_concat hentry fun other hmem hother => ?_
      exact absurd (h other hmem) (UInt16.not_lt.mpr hother)

theorem chosen_foldl (entries : List LineEntry) (pc : UInt16) :
    Chosen entries pc (entries.foldl (Code.closerEntry pc) none) := by
  induction entries using List.reverseRecOn with
  | nil => exact List.forall_mem_nil _
  | append_singleton entries entry ih =>
    rw [List.foldl_append]
    exact ih.closer entry

theorem foldl_eq_some_iff :
    entries.foldl (Code.closerEntry pc) none = some entry ↔ Tells entries pc entry := by
  have hchosen := chosen_foldl entries pc
  constructor
  · intro h
    rwa [h] at hchosen
  · intro h
    cases hfound : entries.foldl (Code.closerEntry pc) none with
    | none =>
      rw [hfound] at hchosen
      obtain ⟨_, h⟩ := h
      exact absurd (hchosen entry (List.mem_of_getElem? h.listed)) (UInt16.not_lt.mpr h.reached)
    | some found =>
      rw [hfound] at hchosen
      rw [Tells.unique hchosen h]

theorem foldl_eq_none_iff : entries.foldl (Code.closerEntry pc) none = none ↔
    ∀ entry ∈ entries, pc < entry.startPc := by
  have hchosen := chosen_foldl entries pc
  constructor
  · intro h
    rwa [h] at hchosen
  · intro h
    cases hfound : entries.foldl (Code.closerEntry pc) none with
    | none => rfl
    | some found =>
      obtain ⟨_, hfrom⟩ := foldl_eq_some_iff.mp hfound
      exact absurd (h found (List.mem_of_getElem? hfrom.listed)) (UInt16.not_lt.mpr hfrom.reached)

/-- Where no two entries start together, their places do not matter. -/
theorem tells_iff_of_nodup (hnodup : (entries.map startPc).Nodup) :
    Tells entries pc entry ↔ entry ∈ entries ∧ entry.startPc ≤ pc ∧
      ∀ other ∈ entries, other.startPc ≤ pc → other.startPc ≤ entry.startPc := by
  constructor
  · rintro ⟨place, h⟩
    exact ⟨List.mem_of_getElem? h.listed, h.reached, h.latest⟩
  · rintro ⟨hmem, hreached, hlatest⟩
    obtain ⟨place, hplace⟩ := List.mem_iff_getElem?.mp hmem
    refine ⟨place, hplace, hreached, hlatest, fun k other hk hstart => ?_⟩
    have hlt : k < (entries.map startPc).length := by
      rw [List.length_map]
      exact (List.getElem?_eq_some_iff.mp hk).1
    have hsame : (entries.map startPc)[k]? = (entries.map startPc)[place]? := by
      rw [List.getElem?_map, List.getElem?_map, hk, hplace, Option.map_some, Option.map_some,
        hstart]
    exact Nat.le_of_eq ((List.getElem?_inj hlt hnodup).mp hsame)

theorem tells_iff_of_perm (hperm : others.Perm entries) (hnodup : (entries.map startPc).Nodup) :
    Tells others pc entry ↔ Tells entries pc entry := by
  have hnodup' : (others.map startPc).Nodup := (hperm.map startPc).nodup_iff.mpr hnodup
  simp only [tells_iff_of_nodup hnodup, tells_iff_of_nodup hnodup', hperm.mem_iff]

/-- Further on in the code the line is told by an entry that starts no earlier. -/
theorem Tells.exists_of_le (h : Tells entries pc entry) (hle : pc ≤ later) :
    ∃ next, Tells entries later next ∧ entry.startPc ≤ next.startPc := by
  obtain ⟨_, h⟩ := h
  have hmem := List.mem_of_getElem? h.listed
  have hreached : entry.startPc ≤ later := UInt16.le_trans h.reached hle
  cases hfound : entries.foldl (Code.closerEntry later) none with
  | none => exact absurd (foldl_eq_none_iff.mp hfound entry hmem) (UInt16.not_lt.mpr hreached)
  | some next =>
    have hnext := foldl_eq_some_iff.mp hfound
    refine ⟨next, hnext, ?_⟩
    obtain ⟨_, hfrom⟩ := hnext
    exact hfrom.latest entry hmem hreached

end LineEntry

namespace Code

open LineEntry

variable {code : Code} {pc line : UInt16}

theorem lineEntries_eq (code : Code) : code.lineEntries = code.listedLines := by
  unfold lineEntries listedLines
  induction code.attributes with
  | nil => rfl
  | cons first rest ih =>
    rw [List.flatMap_cons, ← ih]
    cases first <;> rfl

theorem line?_eq_none_iff :
    code.line? pc = none ↔ ∀ entry ∈ code.listedLines, pc < entry.startPc := by
  rw [line?, Option.map_eq_none_iff, lineEntries_eq, foldl_eq_none_iff]

theorem line?_eq_some_iff :
    code.line? pc = some line ↔ ∃ entry, Tells code.listedLines pc entry ∧ entry.line = line := by
  simp only [line?, Option.map_eq_some_iff, lineEntries_eq, foldl_eq_some_iff]

/-- There is no line for an instruction exactly if all entries of the line tables start behind it.
Otherwise it is the line of the one entry that starts last of those that do not, the last listed of
several. So if no two entries start together, tables with the same entries give the same answers in
whatever order and however many tables they are; and further on in the code no answer comes from an
entry that starts earlier. -/
theorem line_told_by_entry (code : Code) :
    (∀ pc, code.line? pc = none ↔ ∀ entry ∈ code.listedLines, pc < entry.startPc) ∧
    (∀ pc line, code.line? pc = some line ↔
      ∃ entry, Tells code.listedLines pc entry ∧ entry.line = line) ∧
    (∀ pc entry other, Tells code.listedLines pc entry → Tells code.listedLines pc other →
      entry = other) ∧
    (∀ other : Code, other.listedLines.Perm code.listedLines →
      (code.listedLines.map startPc).Nodup → ∀ pc, other.line? pc = code.line? pc) ∧
    ∀ pc later entry, pc ≤ later → Tells code.listedLines pc entry →
      ∃ next, Tells code.listedLines later next ∧ entry.startPc ≤ next.startPc := by
  refine ⟨fun pc => line?_eq_none_iff, fun pc line => line?_eq_some_iff,
    fun pc entry other => Tells.unique, ?_, fun pc later entry hle h => h.exists_of_le hle⟩
  intro other hperm hnodup pc
  apply Option.ext
  intro line
  simp only [line?_eq_some_iff, tells_iff_of_perm hperm hnodup]

/-- Two tables out of order, with code between them that has a table of its own. -/
theorem line_told_by_entry_twoTables :
    let inner : Code := ⟨0, 0, [], [], [.lineNumbers [⟨4, 99⟩]]⟩
    let code : Code :=
      ⟨1, 1, [], [], [.lineNumbers [⟨9, 14⟩, ⟨0, 12⟩], .code inner, .lineNumbers [⟨4, 13⟩]]⟩
    let sorted : Code := ⟨1, 1, [], [], [.lineNumbers [⟨0, 12⟩, ⟨4, 13⟩, ⟨9, 14⟩]]⟩
    sorted.listedLines.Perm code.listedLines ∧ (code.listedLines.map startPc).Nodup ∧
      ∀ pc, sorted.line? pc = code.line? pc := by
  intro inner code sorted
  have hperm : sorted.listedLines.Perm code.listedLines := by decide
  have hnodup : (code.listedLines.map startPc).Nodup := by decide
  exact ⟨hperm, hnodup, (line_told_by_entry code).2.2.2.1 sorted hperm hnodup⟩

end Code

end Jvm
