import Jvm.Proofs.Attributes.Nesting

/-! # Calls of nested reading

A list of attributes is read attribute by attribute, an attribute that is code as a method body, and
a method body ends with a list of attributes again. Each of these calls starts further on in the
bytes than the one that makes it (`ReadCall.Makes.further`), so there is no endless chain of calls,
and what an attribute is read as is settled by those inside it (`Attribute.decodeWith_of_nests`).
That makes the decoder the only one that reads one level with itself inside
(`Attribute.eq_decodeWith_iff`). -/

namespace Jvm

open Decoder

namespace Decoder

variable {α β : Type} {least least' : Nat}

/-- A success goes on by as many bytes or more. -/
def Takes (least : Nat) (step : Decoder α) : Prop :=
  ∀ c value next events, step c = ⟨.ok value, next, events⟩ →
    c.position + least ≤ next.position ∧ next.remaining + least ≤ c.remaining

theorem Steady.takes {step : Decoder α} (h : Steady step) : Takes 0 step := by
  intro c value next events hstep
  have hposition := h.position_le c
  have hremaining := h.remaining_le c
  rw [hstep] at hposition hremaining
  exact ⟨hposition, hremaining⟩

theorem Reads.takes {step : Decoder α} {spell : α → List UInt8}
    (h : ∀ bound, Reads bound step (.spelled spell))
    (hspell : ∀ value, (spell value).length = least) : Takes least step := by
  intro c value next events hstep
  obtain ⟨taken, ⟨rfl, -⟩, hpass⟩ := (h _).of_ok hstep
  have hposition := hpass.position_eq
  have hremaining := hpass.remaining_eq
  rw [hspell] at hposition hremaining
  omega

theorem Takes.bind {first : Decoder α} {second : α → Decoder β} (hf : Takes least first)
    (hs : ∀ value, Takes least' (second value)) : Takes (least + least') (first >>= second) := by
  intro c value last events hstep
  rcases hfirst : first c with ⟨fault | reached, next, early⟩
  · rw [bind_of_error hfirst] at hstep
    cases hstep
  · rw [bind_of_ok hfirst] at hstep
    rcases hsecond : second reached next with ⟨result, last', late⟩
    rw [hsecond] at hstep
    cases hstep
    have hfront := hf c reached next early hfirst
    have hback := hs reached next value _ late hsecond
    show c.position + (least + least') ≤ last'.position ∧
      last'.remaining + (least + least') ≤ c.remaining
    omega

theorem ofExcept_eq_ok {found : Except FormatError α} {c next : Cursor} {value : α}
    {events : List Event} (h : ofExcept found c = ⟨.ok value, next, events⟩) :
    found = .ok value ∧ next = c :=
  ⟨congrArg Outcome.result h, (congrArg Outcome.cursor h).symm⟩

theorem takes_u16 : Takes 2 u16 := Reads.takes (fun _ => reads_u16) BigEndian.length_word16

theorem takes_u32 : Takes 4 u32 := Reads.takes (fun _ => reads_u32) BigEndian.length_word32

theorem takes_counted {item : Decoder α} (h : Steady item) : Takes 2 (counted item) :=
  takes_u16.bind fun count => (steady_steps.times h count.toNat).takes

end Decoder

/-- What stands in front of the attributes of a method body. -/
def Code.decodeFront : Decoder (List Attribute → Code) := do
  let maxStack ← u16
  let maxLocals ← u16
  let length ← u32
  let instructions ← bytes length.toNat
  let handlers ← counted ExceptionHandler.decode
  return fun attributes => { maxStack, maxLocals, instructions, handlers, attributes }

theorem Code.decodeWith_eq (nested : Decoder Attribute) :
    decodeWith nested = decodeFront >>= fun build => build <$> counted nested := by
  simp only [decodeWith, decodeFront, bind_assoc, pure_bind, map_eq_pure_bind]

theorem Code.takes_decodeFront : Takes 10 decodeFront :=
  takes_u16.bind fun _ => takes_u16.bind fun _ => takes_u32.bind fun length =>
    (steady_bytes length.toNat).takes.bind fun _ =>
      (takes_counted steady_steps.handler).bind fun _ => (steady_pure _).takes

/-- A list of attributes, one attribute or the body of a method, to be read from a place on. -/
inductive ReadCall where
  | list (place : Cursor)
  | item (place : Cursor)
  | body (place : Cursor)

namespace ReadCall

def place : ReadCall → Cursor
  | list c | item c | body c => c

/-- The bytes that are read before the next call: a count, a name and a length, the front of a
body without instructions and handlers. -/
def ahead : ReadCall → Nat
  | list _ => 2
  | item _ => 6
  | body _ => 10

/-- One call makes another: for each attribute of a list, behind those in front of it, for the body
of an attribute that goes by the name of code, and for the list at the end of a body. -/
inductive Makes (pool : ConstantPool) : ReadCall → ReadCall → Prop
  | item {c first next : Cursor} {count : UInt16} {k : Nat} {earlier : List Attribute}
      {events events' : List Event} (counted : u16 c = ⟨.ok count, first, events⟩)
      (within : k < count.toNat)
      (passed : times (Attribute.decode pool) k first = ⟨.ok earlier, next, events'⟩) :
      Makes pool (.list c) (.item next)
  | body {c named next : Cursor} {index : UInt16} {events events' : List Event}
      (indexed : u16 c = ⟨.ok index, named, events⟩)
      (found : pool.utf8 index = .ok AttributeKind.code.name)
      (measured : Attribute.decodeLength AttributeKind.code.name named = ⟨.ok (), next, events'⟩) :
      Makes pool (.item c) (.body next)
  | list {c next : Cursor} {build : List Attribute → Code} {events : List Event}
      (passed : Code.decodeFront c = ⟨.ok build, next, events⟩) :
      Makes pool (.body c) (.list next)

variable {pool : ConstantPool} {call call' : ReadCall}

/-- Every call starts further on in the bytes. -/
theorem Makes.further (h : Makes pool call call') :
    call.place.position + call.ahead ≤ call'.place.position ∧
      call'.place.remaining + call.ahead ≤ call.place.remaining := by
  cases h with
  | item hcount _ hearlier =>
    have hfront := takes_u16 _ _ _ _ hcount
    have hback := (steady_steps.times (steady_law pool).attribute _).takes _ _ _ _ hearlier
    simp only [place, ahead]
    omega
  | body hindex _ hlength =>
    have hfront := takes_u16 _ _ _ _ hindex
    have hback := (takes_u32.bind fun _ => (steady_report _).takes) _ _ _ _ hlength
    simp only [place, ahead]
    omega
  | list hfront => exact Code.takes_decodeFront _ _ _ _ hfront

theorem Makes.strictly_further (h : Makes pool call call') :
    call.place.position < call'.place.position ∧
      call'.place.remaining < call.place.remaining := by
  have hfurther := h.further
  have hahead : 0 < call.ahead := by cases call <;> exact Nat.succ_pos _
  omega

/-- No chain of calls is endless. -/
theorem wellFounded_makes (pool : ConstantPool) :
    WellFounded fun later earlier => Makes pool earlier later :=
  Subrelation.wf (fun h => h.strictly_further.2)
    (measure fun call : ReadCall => call.place.remaining).wf

end ReadCall

namespace Attribute

open ReadCall

variable {pool : ConstantPool} {c next : Cursor}

/-- While the attribute at `c` is read, one inside it is read at `next`. -/
def Nests (pool : ConstantPool) (c next : Cursor) : Prop :=
  ∃ body list, Makes pool (.item c) (.body body) ∧ Makes pool (.body body) (.list list) ∧
    Makes pool (.list list) (.item next)

theorem Nests.further (h : Nests pool c next) :
    c.position + 18 ≤ next.position ∧ next.remaining + 18 ≤ c.remaining := by
  obtain ⟨body, list, hbody, hlist, hitem⟩ := h
  have hbody := hbody.further
  have hlist := hlist.further
  have hitem := hitem.further
  simp only [place, ahead] at hbody hlist hitem
  omega

/-- Attributes inside attributes, so many levels from the outer one to the inner one. -/
inductive NestsDeep (pool : ConstantPool) : Nat → Cursor → Cursor → Prop
  | here {c : Cursor} : NestsDeep pool 0 c c
  | inside {levels : Nat} {c inner next : Cursor} (nests : Nests pool c inner)
      (deeper : NestsDeep pool levels inner next) : NestsDeep pool (levels + 1) c next

theorem NestsDeep.further {levels : Nat} (h : NestsDeep pool levels c next) :
    c.position + 18 * levels ≤ next.position ∧ next.remaining + 18 * levels ≤ c.remaining := by
  induction h with
  | here => exact ⟨Nat.le_refl _, Nat.le_refl _⟩
  | inside hnests _ ih =>
    have hlevel := hnests.further
    omega

end Attribute

/-! ## What the calls settle -/

section Settled

open ReadCall

variable {pool : ConstantPool} {read : Decoder Attribute} {c : Cursor}

theorem Attribute.counted_of_makes
    (h : ∀ next, Makes pool (.list c) (.item next) → read next = decode pool next) :
    counted read c = decodeAll pool c :=
  bind_congr_of_ok rfl fun _ _ _ hcount => times_congr_of_reached fun _ _ next _ hk hearlier =>
    h next (.item hcount hk hearlier)

theorem Code.decodeWith_of_makes (h : ∀ list next, Makes pool (.body c) (.list list) →
      Makes pool (.list list) (.item next) → read next = Attribute.decode pool next) :
    decodeWith read c = decodeWith (Attribute.decode pool) c := by
  rw [decodeWith_eq, decodeWith_eq]
  refine bind_congr_of_ok rfl fun build list events hfront => map_congr_at ?_
  exact Attribute.counted_of_makes fun next hitem => h list next (.list hfront) hitem

namespace Attribute

/-- What an attribute is read as hangs on what is read where it calls for those inside it. -/
theorem decodeWith_of_nests (h : ∀ next, Nests pool c next → read next = decode pool next) :
    decodeWith pool read c = decode pool c := by
  have hself : decode pool c = decodeWith pool (decode pool) c :=
    congrFun (decode_eq_decodeWith pool) c
  rw [hself, decodeWith_eq, decodeWith_eq]
  refine bind_congr_of_ok rfl fun index named events hindex => ?_
  refine bind_congr_of_ok rfl fun name named' events' hname => ?_
  obtain ⟨hfound, rfl⟩ := ofExcept_eq_ok hname
  unfold decodeNamed
  cases hkind : AttributeKind.ofName? name with
  | none => rfl
  | some kind =>
    obtain rfl := AttributeKind.ofName?_eq_some_iff.mp hkind
    refine bind_congr_of_ok rfl fun _ front late hlength => ?_
    cases kind with
    | code =>
      have hbody : Makes pool (.item c) (.body front) := .body hindex hfound hlength
      exact map_congr_at (Code.decodeWith_of_makes fun list next hlist hitem =>
        h next ⟨front, list, hbody, hlist, hitem⟩)
    | _ => rfl

/-- Only the decoder of attributes reads one level with itself inside. -/
theorem eq_decodeWith_iff : read = decodeWith pool read ↔ read = decode pool := by
  refine ⟨fun h => funext fun c => ?_, fun h => h ▸ decode_eq_decodeWith pool⟩
  induction hleft : c.remaining using Nat.strong_induction_on generalizing c with
  | _ left ih =>
    have hinside (next : Cursor) (hnest : Nests pool c next) : read next = decode pool next :=
      ih next.remaining (by have := hnest.further; omega) next rfl
    rw [← decodeWith_of_nests hinside, ← h]

end Attribute

end Settled

end Jvm
