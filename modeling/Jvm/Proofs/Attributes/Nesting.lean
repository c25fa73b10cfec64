import Jvm.Proofs.Decoding.Law
import Jvm.Proofs.Decoding.Words

/-! # Nested code

`Attribute.decode` takes the bytes left as its budget of nesting. Any number above their count does
as well, because each level starts behind the name of the attribute around it
(`decode_eq_decodeTo`). So reading an attribute is reading one level of it with the decoder itself
inside (`decode_eq_decodeWith`), and whatever is a `Law` holds of attributes and members. -/

namespace Jvm

open Decoder

theorem steady_steps : Steps Steady where
  pure := steady_pure
  bind := Steady.bind
  bytes := steady_bytes

namespace Decoder

variable {α β : Type}

/-- Two runs agree if their first steps do and, where these succeed, what comes second. -/
theorem bind_congr_of_ok {first first' : Decoder α} {second second' : α → Decoder β} {c : Cursor}
    (hfirst : first' c = first c) (h : ∀ value next events, first c = ⟨.ok value, next, events⟩ →
      second' value next = second value next) : (first' >>= second') c = (first >>= second) c := by
  rcases hstep : first c with ⟨fault | value, next, events⟩
  · rw [bind_of_error hstep, bind_of_error (hfirst.trans hstep)]
  · rw [bind_of_ok hstep, bind_of_ok (hfirst.trans hstep), h value next events hstep]

/-- The second step only matters at the places that the first one can reach. -/
theorem bind_congr_of_le {first : Decoder α} {second second' : α → Decoder β} {c : Cursor}
    (hf : Steady first)
    (h : ∀ value next, next.remaining ≤ c.remaining → second value next = second' value next) :
    (first >>= second) c = (first >>= second') c := by
  refine bind_congr_of_ok rfl fun value next events hfirst => h value next ?_
  have hle := hf.remaining_le c
  rwa [hfirst] at hle

/-- Behind a word there is less left. -/
theorem u16_bind_congr {second second' : UInt16 → Decoder β} {c : Cursor}
    (h : ∀ value next, next.remaining < c.remaining → second value next = second' value next) :
    (u16 >>= second) c = (u16 >>= second') c := by
  refine bind_congr_of_ok rfl fun value next events hfirst => h value next ?_
  obtain ⟨taken, ⟨rfl, -⟩, hpass⟩ := reads_u16.of_ok hfirst
  have hremaining := hpass.remaining_eq
  rw [BigEndian.length_word16] at hremaining
  omega

theorem map_congr_at {f : α → β} {step step' : Decoder α} {c : Cursor} (h : step c = step' c) :
    (f <$> step) c = (f <$> step') c := by
  rw [map_apply, map_apply, h]

/-- The items may be read by another decoder that does the same wherever one is read. -/
theorem times_congr_of_reached {item item' : Decoder α} {count : Nat} {c : Cursor}
    (h : ∀ k earlier next events, k < count → times item k c = ⟨.ok earlier, next, events⟩ →
      item' next = item next) : times item' count c = times item count c := by
  induction count generalizing c with
  | zero => rw [times_zero, times_zero]
  | succ count ih =>
    have hhere : item' c = item c := h 0 [] c [] (Nat.succ_pos count) (by rw [times_zero]; rfl)
    rw [times_succ, times_succ]
    refine bind_congr_of_ok hhere fun first next events hfirst => ?_
    refine bind_congr_of_ok (ih ?_) fun _ _ _ _ => rfl
    -- The items behind the first one are reached with it in front.
    intro k earlier last late hk hearlier
    refine h (k + 1) (first :: earlier) last (events ++ late) (Nat.succ_lt_succ hk) ?_
    rw [times_succ, bind_of_ok hfirst, bind_of_ok hearlier]
    simp [pure_apply, Outcome.after]

theorem times_congr_of_le {item item' : Decoder α} {c : Cursor} (hitem : Steady item) (count : Nat)
    (h : ∀ next, next.remaining ≤ c.remaining → item next = item' next) :
    times item count c = times item' count c := by
  refine (times_congr_of_reached fun k earlier next events _ hearlier => ?_).symm
  have hle := (steady_steps.times hitem k).remaining_le c
  rw [hearlier] at hle
  exact (h next hle).symm

end Decoder

namespace ConstantPool

/-- A lookup never blames the end of the input. -/
theorem get_ne_truncated (pool : ConstantPool) (index : UInt16) (offset needed : Nat) :
    pool.get index ≠ .error (.truncated offset needed) := by
  unfold get
  split <;> simp

theorem utf8_ne_truncated (pool : ConstantPool) (index : UInt16) (offset needed : Nat) :
    pool.utf8 index ≠ .error (.truncated offset needed) := by
  have hget := pool.get_ne_truncated index offset needed
  unfold utf8
  intro h
  cases hfound : pool.get index with
  | error fault => rw [hfound] at h hget; cases h; exact hget rfl
  | ok constant => rw [hfound] at h; cases constant <;> cases h

end ConstantPool

/-- Two inputs are short of some bound, and below it the decoders agree. -/
theorem steady_limit {α : Type} {step : Decoder α}
    (h : ∀ bound, ∃ other : Decoder α, Steady other ∧
      ∀ c, c.remaining < bound → step c = other c) : Steady step := by
  have hboth (c : Cursor) (more : List UInt8) : ∃ other : Decoder α, Steady other ∧
      step c = other c ∧ step (c.extend more) = other (c.extend more) := by
    obtain ⟨other, hother, heq⟩ := h ((c.extend more).remaining + 1)
    exact ⟨other, hother, heq c (by rw [Cursor.remaining_extend]; omega), heq _ (by omega)⟩
  refine ⟨?_, ?_, ?_, ?_, ?_⟩
  · intro c
    obtain ⟨other, hother, hc, -⟩ := hboth c []
    rw [hc]; exact hother.forward c
  · intro c
    obtain ⟨other, hother, hc, -⟩ := hboth c []
    rw [hc]; exact hother.stalled c
  · intro c more
    obtain ⟨other, hother, hc, hm⟩ := hboth c more
    rw [hc, hm]; exact hother.extend c more
  · intro c more
    obtain ⟨other, hother, hc, hm⟩ := hboth c more
    rw [hc, hm]; exact hother.resumed c more
  · intro c more
    obtain ⟨other, hother, hc, hm⟩ := hboth c more
    rw [hc, hm]; exact hother.events_kept c more

theorem steady_law (pool : ConstantPool) : Law pool Steady where
  toSteps := steady_steps
  report event _ _ := steady_report event
  knownLength _ := steady_steps.u32.bind fun _ => steady_report _
  lookup index := steady_ofExcept (pool.utf8_ne_truncated index)
  limit := steady_limit

/-! ## One level -/

theorem Code.decodeWith_congr {nested nested' : Decoder Attribute} {c : Cursor}
    (hn : Steady nested) (h : ∀ next, next.remaining ≤ c.remaining → nested next = nested' next) :
    Code.decodeWith nested c = Code.decodeWith nested' c := by
  refine bind_congr_of_le steady_steps.u16 fun _ c₁ h₁ => ?_
  refine bind_congr_of_le steady_steps.u16 fun _ c₂ h₂ => ?_
  refine bind_congr_of_le steady_steps.u32 fun length c₃ h₃ => ?_
  refine bind_congr_of_le (steady_steps.bytes length.toNat) fun _ c₄ h₄ => ?_
  refine bind_congr_of_le (steady_steps.counted steady_steps.handler) fun _ c₅ h₅ => ?_
  have hcounted : counted nested c₅ = counted nested' c₅ :=
    bind_congr_of_le steady_steps.u16 fun count c₆ h₆ =>
      times_congr_of_le hn count.toNat fun next hnext => h next (by omega)
  rw [bind_apply, bind_apply, hcounted]

/-- Reading one attribute asks for those inside it only further on. -/
theorem Attribute.decodeWith_congr {pool : ConstantPool} {nested nested' : Decoder Attribute}
    {c : Cursor} (hn : Steady nested)
    (h : ∀ next, next.remaining < c.remaining → nested next = nested' next) :
    decodeWith pool nested c = decodeWith pool nested' c := by
  have law := steady_law pool
  refine u16_bind_congr fun index c₁ h₁ => ?_
  refine bind_congr_of_le (law.lookup index) fun name c₂ h₂ => ?_
  refine bind_congr_of_le law.u32 fun length c₃ h₃ => ?_
  refine bind_congr_of_le (steady_report _) fun _ c₄ h₄ => ?_
  cases AttributeKind.ofName? name with
  | none => rfl
  | some kind =>
    cases kind with
    | code => exact map_congr_at (Code.decodeWith_congr hn fun next hnext => h next (by omega))
    | _ => rfl

/-! ## All levels -/

namespace Attribute

/-- Reads code nested down to `depth`, and takes no bytes for an attribute below that. -/
def decodeTo (pool : ConstantPool) : Nat → Decoder Attribute
  | 0 => pure .deprecated
  | depth + 1 => decodeWith pool (decodeTo pool depth)

end Attribute

theorem Law.attributeTo {pool : ConstantPool} {P : {α : Type} → Decoder α → Prop}
    (law : Law pool P) (depth : Nat) : P (Attribute.decodeTo pool depth) := by
  induction depth with
  | zero => exact law.pure _
  | succ depth ih => exact law.attributeWith ih

namespace Attribute

variable {pool : ConstantPool}

/-- With no bytes left there is no name to read, so the decoder without budget only says early
what the others say too. -/
theorem decodeWith_of_empty {nested : Decoder Attribute} {c : Cursor} (h : c.remaining = 0) :
    decodeWith pool nested c = truncated 2 c := by
  have hname : u16 c = ⟨.error (.truncated c.position 2), c, []⟩ := by
    rw [u16, word, map_apply, map_apply, bytes_of_lt (by omega)]
    rfl
  exact bind_of_error hname

theorem decodeWithin_eq_decodeTo (budget : List UInt8) (depth : Nat) {c : Cursor}
    (hbudget : c.remaining ≤ budget.length) (hdepth : c.remaining < depth) :
    decodeWithin pool budget c = decodeTo pool depth c := by
  induction budget generalizing depth c with
  | nil =>
    cases depth with
    | zero => omega
    | succ depth => exact (decodeWith_of_empty (Nat.le_zero.mp hbudget)).symm
  | cons byte budget ih =>
    cases depth with
    | zero => omega
    | succ depth =>
      refine (decodeWith_congr ((steady_law pool).attributeTo depth) fun next hnext => ?_).symm
      simp only [List.length_cons] at hbudget
      exact (ih depth (by omega) (by omega)).symm

theorem decode_eq_decodeTo {c : Cursor} {depth : Nat} (h : c.remaining < depth) :
    decode pool c = decodeTo pool depth c :=
  decodeWithin_eq_decodeTo c.rest depth (Nat.le_refl _) h

end Attribute

/-- A law holds of attributes, whatever is nested in them. -/
theorem Law.attribute {pool : ConstantPool} {P : {α : Type} → Decoder α → Prop}
    (law : Law pool P) : P (Attribute.decode pool) :=
  law.limit fun bound =>
    ⟨Attribute.decodeTo pool bound, law.attributeTo bound, fun _ => Attribute.decode_eq_decodeTo⟩

theorem Law.attributes {pool : ConstantPool} {P : {α : Type} → Decoder α → Prop}
    (law : Law pool P) : P (Attribute.decodeAll pool) := law.counted law.attribute

theorem Law.member {pool : ConstantPool} {P : {α : Type} → Decoder α → Prop}
    (law : Law pool P) : P (Member.decode pool) :=
  law.bind law.u16 fun _ => law.bind law.u16 fun _ => law.bind law.u16 fun _ =>
    law.bind law.attributes fun _ => law.pure _

theorem Law.members {pool : ConstantPool} {P : {α : Type} → Decoder α → Prop}
    (law : Law pool P) : P (Member.decodeAll pool) := law.counted law.member

/-- The decoder of attributes reads one level, with itself for the attributes inside. -/
theorem Attribute.decode_eq_decodeWith (pool : ConstantPool) :
    decode pool = decodeWith pool (decode pool) := by
  funext c
  have hinside : decodeWith pool (decode pool) c = decodeWith pool (decodeTo pool c.remaining) c :=
    decodeWith_congr (steady_law pool).attribute fun _ => decode_eq_decodeTo
  rw [hinside]
  exact decode_eq_decodeTo (Nat.lt_succ_self _)

end Jvm
