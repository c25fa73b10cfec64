import Jvm.Proofs.Text.ModifiedForm

/-! # Texts side by side

Bytes that are read, one behind the other, are read as the two texts one behind the other
(`ModifiedUtf8.append_of_read`), with two exceptions. A high surrogate at the end of the first and a
low one at the start of the second become one character. And a character in four bytes, which only
standard UTF-8 can have, closes the way of units to both, so it is not read beside bytes that are
not standard. -/

namespace Jvm

namespace Utf16

/-- A pair of surrogates is cut between the two lists. -/
def CutsPair (units others : List UInt16) : Prop :=
  ∃ front high low back, units = front ++ [high] ∧ others = low :: back ∧
    isHighSurrogate high = true ∧ isLowSurrogate low = true

variable {unit high low : UInt16} {units others : List UInt16} {text text' : List Char}

theorem CutsPair.cons (h : CutsPair units others) : CutsPair (unit :: units) others := by
  obtain ⟨front, high, low, back, rfl, rfl, hhigh, hlow⟩ := h
  exact ⟨unit :: front, high, low, back, rfl, rfl, hhigh, hlow⟩

theorem not_isLowSurrogate (hhigh : isHighSurrogate high = true) : ¬ isLowSurrogate high = true := by
  rw [isHighSurrogate_iff] at hhigh
  rw [isLowSurrogate_iff]
  omega

theorem Spells.append (h : Spells units text) (h' : Spells others text')
    (hcut : ¬ CutsPair units others) : Spells (units ++ others) (text ++ text') := by
  induction h with
  | nil => exact h'
  | whole hc _ ih => exact .whole hc (ih fun hcut' => hcut hcut'.cons)
  | pair hhigh hlow hc _ ih => exact .pair hhigh hlow hc (ih fun hcut' => hcut hcut'.cons.cons)
  | @lone unit units text hge hlt hpair _ ih =>
    refine .lone hge hlt ?_ (ih fun hcut' => hcut hcut'.cons)
    intro hbegins
    obtain ⟨hhigh, low, hhead, hlow⟩ := hbegins
    cases units with
    | nil =>
      obtain ⟨back, rfl⟩ := List.head?_eq_some_iff.mp hhead
      exact hcut ⟨[], unit, low, back, rfl, rfl, hhigh, hlow⟩
    | cons next units => exact hpair ⟨hhigh, low, hhead, hlow⟩

/-- What two lists of units spell stays apart unless a pair was cut. -/
theorem decodeLossy_append (hcut : ¬ CutsPair units others) :
    decodeLossy (units ++ others) = decodeLossy units ++ decodeLossy others :=
  ((spells_decodeLossy units).append (spells_decodeLossy others) hcut).decodeLossy_eq

/-- The two halves of a pair that was cut are replaced, each on its own. -/
theorem decodeLossy_cut (hhigh : isHighSurrogate high = true) (hlow : isLowSurrogate low = true)
    (front back : List UInt16) :
    decodeLossy (front ++ [high]) = decodeLossy front ++ ['\uFFFD'] ∧
      decodeLossy (low :: back) = '\uFFFD' :: decodeLossy back ∧
      decodeLossy ((front ++ [high]) ++ low :: back) =
        decodeLossy front ++ joinSurrogates high low :: decodeLossy back := by
  have hbehind (rest : List UInt16) : ¬ CutsPair front (high :: rest) := by
    intro hcut
    obtain ⟨_, _, _, _, -, hrest, -, hlow'⟩ := hcut
    obtain ⟨rfl, -⟩ := List.cons_eq_cons.mp hrest
    exact not_isLowSurrogate hhigh hlow'
  have hhigh' := isHighSurrogate_iff.mp hhigh
  have hlow' := isLowSurrogate_iff.mp hlow
  refine ⟨?_, ?_, ?_⟩
  · have hpair : ¬ BeginsPair high [] := fun h => by obtain ⟨-, _, hhead, -⟩ := h; cases hhead
    rw [decodeLossy_append (hbehind []), decodeLossy_lone hhigh'.1 (by omega) hpair]
    rfl
  · have hpair : ¬ BeginsPair low back := fun h => not_isLowSurrogate h.1 hlow
    exact decodeLossy_lone (by omega) hlow'.2 hpair
  · rw [List.append_assoc, List.singleton_append, decodeLossy_append (hbehind _),
      decodeLossy_pair hhigh hlow]

end Utf16

variable {bytes bytes' : List UInt8} {groups groups' : List ByteGroup}

theorem ByteGroup.split?_append (h : split? bytes = some groups) (h' : split? bytes' = some groups') :
    split? (bytes ++ bytes') = some (groups ++ groups') := by
  obtain ⟨hfits, rfl⟩ := split?_eq_some_iff.mp h
  obtain ⟨hfits', rfl⟩ := split?_eq_some_iff.mp h'
  refine split?_eq_some_iff.mpr ⟨?_, List.flatMap_append.symm⟩
  intro group hgroup
  rcases List.mem_append.mp hgroup with hgroup | hgroup
  · exact hfits group hgroup
  · exact hfits' group hgroup

namespace Utf8

theorem decode?_append (h : ByteGroup.split? bytes = some groups)
    (h' : ByteGroup.split? bytes' = some groups') :
    decode? (bytes ++ bytes') =
      (decode? bytes).bind fun text => (decode? bytes').map fun text' => text ++ text' := by
  unfold decode?
  rw [ByteGroup.split?_append h h', h, h']
  simp only [Option.bind_eq_bind, Option.bind_some, List.mapM_append, Option.pure_def,
    Option.map_eq_bind, Function.comp_def]

/-- Bytes in groups are standard UTF-8 together if they are so each. -/
theorem isValid_append_iff (h : ByteGroup.split? bytes = some groups)
    (h' : ByteGroup.split? bytes' = some groups') :
    (bytes ++ bytes').toByteArray.IsValidUTF8 ↔
      bytes.toByteArray.IsValidUTF8 ∧ bytes'.toByteArray.IsValidUTF8 := by
  simp only [isValid_iff, decode?_append h h', Option.bind_eq_some_iff, Option.map_eq_some_iff]
  constructor
  · intro hboth
    obtain ⟨_, text, htext, text', htext', -⟩ := hboth
    exact ⟨⟨text, htext⟩, text', htext'⟩
  · intro hboth
    obtain ⟨⟨text, htext⟩, text', htext'⟩ := hboth
    exact ⟨_, text, htext, text', htext', rfl⟩

end Utf8

namespace ModifiedUtf8

variable {text text' : String}

/-- Standard UTF-8 with a character in four bytes. -/
def TakesFour (bytes : List UInt8) : Prop :=
  ∃ text : List Char, bytes = text.flatMap String.utf8EncodeChar ∧ ∃ c ∈ text, c.utf8Size = 4

/-- The first bytes end with a high surrogate and the others begin with a low one. -/
def CutsPair (bytes bytes' : List UInt8) : Prop :=
  ∃ groups groups', GroupedAs bytes groups ∧ GroupedAs bytes' groups' ∧
    Utf16.CutsPair (groups.map unitOf) (groups'.map unitOf)

theorem exists_split_of_decode? (h : decode? bytes = some text) :
    ∃ groups, ByteGroup.split? bytes = some groups := by
  rcases decode?_isSome_iff.mp ⟨text, h⟩ with hvalid | ⟨groups, hgroups⟩
  · obtain ⟨chars, hchars⟩ := Utf8.isValid_iff.mp hvalid
    obtain ⟨groups, hgroups, -⟩ := Option.bind_eq_some_iff.mp hchars
    exact ⟨groups, hgroups⟩
  · exact ⟨groups, (groupedAs_iff.mp hgroups).1⟩

/-- Bytes that are read and have no character in four bytes fall into groups of at most three. -/
theorem takesFour_iff (h : decode? bytes = some text) :
    TakesFour bytes ↔ ¬ ∃ groups, GroupedAs bytes groups := by
  constructor
  · intro hfour hgrouped
    obtain ⟨chars, rfl, c, hc, hsize⟩ := hfour
    obtain ⟨groups, hgroups⟩ := hgrouped
    exact (Utf8.utf8Size_eq_four_iff c).mp hsize ((groupedAs_standard_iff.mp hgroups).2 c hc)
  · intro hgrouped
    obtain hvalid | hgroups := decode?_isSome_iff.mp ⟨text, h⟩
    · obtain ⟨chars, hchars⟩ := Utf8.isValid_iff.mp hvalid
      obtain rfl := Utf8.decode?_eq_some_iff.mp hchars
      have hwide : ¬ ∀ c ∈ chars, c.toNat < 0x10000 :=
        fun hnarrow => hgrouped ⟨_, groupedAs_standard_iff.mpr ⟨rfl, hnarrow⟩⟩
      exact ⟨chars, rfl, by simpa [Utf8.utf8Size_eq_four_iff] using hwide⟩
    · exact absurd hgroups hgrouped

theorem GroupedAs.append (h : GroupedAs bytes groups) (h' : GroupedAs bytes' groups') :
    GroupedAs (bytes ++ bytes') (groups ++ groups') := by
  obtain ⟨hgroups, rfl⟩ := h
  obtain ⟨hgroups', rfl⟩ := h'
  exact ⟨List.forall_mem_append.mpr ⟨hgroups, hgroups'⟩, List.flatMap_append.symm⟩

theorem groupedAs_append_iff (h : ByteGroup.split? bytes = some groups)
    (h' : ByteGroup.split? bytes' = some groups') :
    (∃ both, GroupedAs (bytes ++ bytes') both) ↔
      (∃ groups, GroupedAs bytes groups) ∧ ∃ groups', GroupedAs bytes' groups' := by
  simp only [groupedAs_iff, ByteGroup.split?_append h h', h, h', Option.some.injEq,
    exists_eq_left', List.forall_mem_append]

theorem standard_of_isValid (h : bytes.toByteArray.IsValidUTF8) (hread : decode? bytes = some text) :
    Utf8.decode? bytes = some text.toList := by
  obtain ⟨other, hother⟩ := exists_standard_of_isValid h
  rw [decode?_of_standard hother] at hread
  rw [← Option.some.inj hread]
  exact Utf8.decode?_eq_some_toList_iff.mpr hother

/-- Together the bytes are read unless there is a character in four bytes on one side and what is
not standard UTF-8 on the other. -/
theorem append_eq_none_iff (h : decode? bytes = some text) (h' : decode? bytes' = some text') :
    decode? (bytes ++ bytes') = none ↔
      TakesFour bytes ∧ ¬ bytes'.toByteArray.IsValidUTF8 ∨
        ¬ bytes.toByteArray.IsValidUTF8 ∧ TakesFour bytes' := by
  obtain ⟨groups, hgroups⟩ := exists_split_of_decode? h
  obtain ⟨groups', hgroups'⟩ := exists_split_of_decode? h'
  -- each side can be read in at least one of the two ways, the whole in those ways that both can
  have hways := decode?_isSome_iff.mp ⟨text, h⟩
  have hways' := decode?_isSome_iff.mp ⟨text', h'⟩
  rw [Option.eq_none_iff_forall_ne_some, ← not_exists, decode?_isSome_iff,
    Utf8.isValid_append_iff hgroups hgroups', groupedAs_append_iff hgroups hgroups',
    takesFour_iff h, takesFour_iff h']
  grind

/-- Standard UTF-8 beside standard UTF-8. -/
theorem append_of_isValid (hvalid : bytes.toByteArray.IsValidUTF8)
    (hvalid' : bytes'.toByteArray.IsValidUTF8) (h : decode? bytes = some text)
    (h' : decode? bytes' = some text') : decode? (bytes ++ bytes') = some (text ++ text') := by
  have hbytes := Utf8.decode?_eq_some_iff.mp (standard_of_isValid hvalid h)
  have hbytes' := Utf8.decode?_eq_some_iff.mp (standard_of_isValid hvalid' h')
  refine decode?_of_standard (Utf8.decode?_eq_some_toList_iff.mp (Utf8.decode?_eq_some_iff.mpr ?_))
  rw [String.toList_append, List.flatMap_append, ← hbytes, ← hbytes']

/-- Groups beside groups. -/
theorem append_of_groupedAs (hgroups : GroupedAs bytes groups) (hgroups' : GroupedAs bytes' groups')
    (hcut : ¬ CutsPair bytes bytes') (h : decode? bytes = some text)
    (h' : decode? bytes' = some text') : decode? (bytes ++ bytes') = some (text ++ text') := by
  have hunits : ¬ Utf16.CutsPair (groups.map unitOf) (groups'.map unitOf) :=
    fun hpair => hcut ⟨groups, groups', hgroups, hgroups', hpair⟩
  rw [decode?_of_groupedAs hgroups, Option.some.injEq] at h
  rw [decode?_of_groupedAs hgroups', Option.some.injEq] at h'
  rw [decode?_of_groupedAs (hgroups.append hgroups'), List.map_append,
    Utf16.decodeLossy_append hunits, String.ofList_append, h, h']

/-- A pair that was cut comes together again. -/
theorem append_of_cutsPair (hcut : CutsPair bytes bytes') (h : decode? bytes = some text)
    (h' : decode? bytes' = some text') : ∃ front c back, 0x10000 ≤ c.toNat ∧
      text = .ofList (front ++ ['\uFFFD']) ∧ text' = .ofList ('\uFFFD' :: back) ∧
      decode? (bytes ++ bytes') = some (.ofList (front ++ c :: back)) := by
  obtain ⟨groups, groups', hgroups, hgroups', front, high, low, back, hunits, hunits', hhigh, hlow⟩ :=
    hcut
  obtain ⟨hfirst, hsecond, hboth⟩ := Utf16.decodeLossy_cut hhigh hlow front back
  have hjoin := Utf16.toNat_joinSurrogates hhigh hlow
  rw [decode?_of_groupedAs hgroups, hunits, hfirst, Option.some.injEq] at h
  rw [decode?_of_groupedAs hgroups', hunits', hsecond, Option.some.injEq] at h'
  refine ⟨_, Utf16.joinSurrogates high low, _, by omega, h.symm, h'.symm, ?_⟩
  rw [decode?_of_groupedAs (hgroups.append hgroups'), List.map_append, hunits, hunits', hboth]

/-- Two byte strings that are read are read one behind the other, as the one text behind the other,
with these exceptions. If one has a character in four bytes and the other is not standard UTF-8,
they are rejected together. If a pair of surrogates is cut between them, the two replacement
characters become the character of the pair. -/
theorem append_of_read (h : decode? bytes = some text) (h' : decode? bytes' = some text') :
    (decode? (bytes ++ bytes') = none ↔
      TakesFour bytes ∧ ¬ bytes'.toByteArray.IsValidUTF8 ∨
        ¬ bytes.toByteArray.IsValidUTF8 ∧ TakesFour bytes') ∧
    (decode? (bytes ++ bytes') ≠ none → ¬ CutsPair bytes bytes' →
      decode? (bytes ++ bytes') = some (text ++ text')) ∧
    (CutsPair bytes bytes' → ∃ front c back, 0x10000 ≤ c.toNat ∧
      text = .ofList (front ++ ['\uFFFD']) ∧ text' = .ofList ('\uFFFD' :: back) ∧
      decode? (bytes ++ bytes') = some (.ofList (front ++ c :: back))) := by
  have hnone := append_eq_none_iff h h'
  refine ⟨hnone, ?_, fun hcut => append_of_cutsPair hcut h h'⟩
  intro hread hcut
  rw [ne_eq, hnone, takesFour_iff h, takesFour_iff h'] at hread
  have hways := decode?_isSome_iff.mp ⟨text, h⟩
  have hways' := decode?_isSome_iff.mp ⟨text', h'⟩
  by_cases hvalid : bytes.toByteArray.IsValidUTF8 ∧ bytes'.toByteArray.IsValidUTF8
  · exact append_of_isValid hvalid.1 hvalid.2 h h'
  · have hgrouped : (∃ groups, GroupedAs bytes groups) ∧ ∃ groups', GroupedAs bytes' groups' := by
      grind
    obtain ⟨⟨groups, hgroups⟩, groups', hgroups'⟩ := hgrouped
    exact append_of_groupedAs hgroups hgroups' hcut h h'

/-- A high surrogate behind a letter, and a low one before a zero in two bytes. -/
theorem append_of_read_cutPair :
    decode? [0x61, 0xed, 0xa0, 0xbd] = some "a\uFFFD" ∧
    decode? [0xed, 0xb8, 0x80, 0xc0, 0x80] = some "\uFFFD\x00" ∧
    CutsPair [0x61, 0xed, 0xa0, 0xbd] [0xed, 0xb8, 0x80, 0xc0, 0x80] ∧
    ∃ front c back, 0x10000 ≤ c.toNat ∧ "a\uFFFD" = .ofList (front ++ ['\uFFFD']) ∧
      "\uFFFD\x00" = .ofList ('\uFFFD' :: back) ∧
      decode? ([0x61, 0xed, 0xa0, 0xbd] ++ [0xed, 0xb8, 0x80, 0xc0, 0x80]) =
        some (.ofList (front ++ c :: back)) := by
  have hread : decode? [0x61, 0xed, 0xa0, 0xbd] = some "a\uFFFD" := by decide +kernel
  have hread' : decode? [0xed, 0xb8, 0x80, 0xc0, 0x80] = some "\uFFFD\x00" := by decide +kernel
  have hcut : CutsPair [0x61, 0xed, 0xa0, 0xbd] [0xed, 0xb8, 0x80, 0xc0, 0x80] :=
    ⟨[⟨1, 0x61⟩, ⟨3, 0xd83d⟩], [⟨3, 0xde00⟩, ⟨2, 0⟩], by decide, by decide,
      [0x61], 0xd83d, 0xde00, [0], rfl, rfl, rfl, rfl⟩
  exact ⟨hread, hread', hcut, (append_of_read hread hread').2.2 hcut⟩

/-- A character in four bytes is read, and so is a zero in two, but not one behind the other. -/
theorem not_append_of_read_fourBytes :
    decode? [0xf0, 0x9f, 0x98, 0x80] = some "😀" ∧ decode? [0xc0, 0x80] = some "\x00" ∧
    ¬ CutsPair [0xf0, 0x9f, 0x98, 0x80] [0xc0, 0x80] ∧
    decode? ([0xf0, 0x9f, 0x98, 0x80] ++ [0xc0, 0x80]) = none := by
  have hread : decode? [0xf0, 0x9f, 0x98, 0x80] = some "😀" := by decide +kernel
  have hfour : TakesFour [0xf0, 0x9f, 0x98, 0x80] := ⟨['😀'], by decide, '😀', by decide, by decide⟩
  have hcut : ¬ CutsPair [0xf0, 0x9f, 0x98, 0x80] [0xc0, 0x80] := by
    intro h
    obtain ⟨groups, -, hgroups, -⟩ := h
    exact (takesFour_iff hread).mp hfour ⟨groups, hgroups⟩
  exact ⟨hread, by decide +kernel, hcut, by decide +kernel⟩

end ModifiedUtf8

end Jvm
